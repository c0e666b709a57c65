import Mathlib.Data.List.Nodup
import MadreKernel.Lib.Bytes

/-!
# The Work database

`Work τ` has the 24 columns of the table `work`.  A `WorkRecord` is the C++ record, whose
texts are byte strings; a `Row` is what the table holds, whose texts are strings without a NUL
octet, since `bind_text` passes a NUL-terminated string and `column_text` reads one.  A
`Store` is the two tables with their primary keys and the `CHECK` constraints on integers.

`Store.row?` and `Store.attemptsOf` are the row of a Work and its attempt rows.  Every update
of the tables acts on them row by row.
-/

inductive WorkState where
  | queued | running | succeeded | failed | cancelled
  deriving DecidableEq

inductive Effort where
  | standard | high
  deriving DecidableEq

inductive Urgency where
  | interactive | normal | background
  deriving DecidableEq

inductive AttemptState where
  | running | succeeded | failed | interrupted | timedOut | cancelled
  deriving DecidableEq

/-- The states in which a Work is finished. -/
def WorkState.terminal : WorkState → Bool
  | .queued | .running => false
  | .succeeded | .failed | .cancelled => true

/-- The columns of the table `work`, over a type of texts. -/
structure Work (τ : Type) where
  id : τ
  workType : τ
  state : WorkState
  effort : Effort
  urgency : Urgency
  requiredCapabilities : τ
  eligibleEngineIds : τ
  exactEngineId : τ
  exactModelId : τ
  createdAtMs : Int64
  eligibleAtMs : Int64
  nextAttemptAtMs : Int64
  deadlineMs : Option Int64
  timeoutMs : Option Int64
  maxAttempts : Int32
  retryDelayMs : Int64
  attemptCount : Int32
  inputPath : τ
  resultPath : τ
  acknowledged : Bool
  cancelRequested : Bool
  selectedEngineId : τ
  selectedModelId : τ
  technicalFailure : τ
  deriving DecidableEq

/-- A Work as C++ code holds it. -/
abbrev WorkRecord := Work Bytes

/-- A row of the table `work`. -/
abbrev Row := Work CString

/-- The texts of a Work in another type of texts. -/
def Work.map {τ τ' : Type} (f : τ → τ') (w : Work τ) : Work τ' where
  id := f w.id
  workType := f w.workType
  state := w.state
  effort := w.effort
  urgency := w.urgency
  requiredCapabilities := f w.requiredCapabilities
  eligibleEngineIds := f w.eligibleEngineIds
  exactEngineId := f w.exactEngineId
  exactModelId := f w.exactModelId
  createdAtMs := w.createdAtMs
  eligibleAtMs := w.eligibleAtMs
  nextAttemptAtMs := w.nextAttemptAtMs
  deadlineMs := w.deadlineMs
  timeoutMs := w.timeoutMs
  maxAttempts := w.maxAttempts
  retryDelayMs := w.retryDelayMs
  attemptCount := w.attemptCount
  inputPath := f w.inputPath
  resultPath := f w.resultPath
  acknowledged := w.acknowledged
  cancelRequested := w.cancelRequested
  selectedEngineId := f w.selectedEngineId
  selectedModelId := f w.selectedModelId
  technicalFailure := f w.technicalFailure

/-- `bind_text`: the text up to its first NUL octet. -/
abbrev bindText (s : Bytes) : CString := CString.ofBytes s

/-- `read_work`. -/
def readWork (row : Row) : WorkRecord := row.map CString.toBytes

/-- The id of a record that is read finds its row. -/
theorem bindText_readWork_id (row : Row) :
  bindText (readWork row).id = row.id
  := CString.ofBytes_toBytes row.id

/-- A row of the table `attempts`. -/
structure Attempt where
  workId : CString
  attemptNumber : Int32
  engineId : CString
  modelId : CString
  startedAtMs : Int64
  endedAtMs : Option Int64
  state : AttemptState
  technicalFailure : CString
  deriving DecidableEq

/-- The primary key of an attempt. -/
def Attempt.key (a : Attempt) : CString × Int32 := (a.workId, a.attemptNumber)

/-- The `CHECK` constraints of the table `work` on integers. -/
def Work.checked {τ : Type} (w : Work τ) : Prop := 1 ≤ w.maxAttempts ∧ 0 ≤ w.retryDelayMs

instance {τ : Type} (w : Work τ) : Decidable w.checked :=
  inferInstanceAs (Decidable (1 ≤ w.maxAttempts ∧ 0 ≤ w.retryDelayMs))

/-- The database: the rows of the two tables, each in the order of their row ids. -/
structure Store where
  works : List Row
  attempts : List Attempt
  works_key : (works.map (·.id)).Nodup
  attempts_key : (attempts.map Attempt.key).Nodup
  works_checked : ∀ w ∈ works, w.checked

/-- An assignment of the columns of a row by `UPDATE work`. -/
structure RowEdit where
  apply : Row → Row
  keeps : ∀ w, (apply w).id = w.id ∧ ((apply w).checked ↔ w.checked)

/-- An assignment of the columns of a row by `UPDATE attempts`. -/
structure AttemptEdit where
  apply : Attempt → Attempt
  keeps : ∀ a, (apply a).key = a.key

/-- The edit of the rows that a `WHERE` clause selects. -/
def RowEdit.at (e : RowEdit) (where? : Row → Bool) (w : Row) : Row :=
  if where? w then e.apply w else w

def AttemptEdit.at (e : AttemptEdit) (where? : Attempt → Bool) (a : Attempt) : Attempt :=
  if where? a then e.apply a else a

theorem RowEdit.at_id (e : RowEdit) (where? : Row → Bool) (w : Row) :
  (e.at where? w).id = w.id
  := by
  rw [RowEdit.at]
  split_ifs
  · exact (e.keeps w).1
  · rfl

theorem AttemptEdit.at_key (e : AttemptEdit) (where? : Attempt → Bool) (a : Attempt) :
  (e.at where? a).key = a.key
  := by
  rw [AttemptEdit.at]
  split_ifs
  · exact e.keeps a
  · rfl

theorem AttemptEdit.at_workId (e : AttemptEdit) (where? : Attempt → Bool) (a : Attempt) :
  (e.at where? a).workId = a.workId
  := congrArg Prod.fst (e.at_key where? a)

namespace Store

/-- The database without rows. -/
def empty : Store := ⟨[], [], List.nodup_nil, List.nodup_nil, by simp⟩

/-- The ids of the Works, in the order of their row ids. -/
def ids (s : Store) : List CString := s.works.map (·.id)

/-- The row of a Work. -/
def row? (s : Store) (id : CString) : Option Row := s.works.find? (·.id = id)

/-- The attempt rows of a Work. -/
def attemptsOf (s : Store) (id : CString) : List Attempt := s.attempts.filter (·.workId = id)

/-- `UPDATE work SET … WHERE …`. -/
def updateWorks (s : Store) (where? : Row → Bool) (e : RowEdit) : Store where
  works := s.works.map (e.at where?)
  attempts := s.attempts
  works_key := by
    rw [List.map_map]
    apply Eq.mp _ s.works_key
    congr 1
    apply List.map_congr_left
    intro w _
    exact (e.at_id where? w).symm
  attempts_key := s.attempts_key
  works_checked := by
    intro w hw
    obtain ⟨v, hv, rfl⟩ := List.mem_map.mp hw
    rw [RowEdit.at]
    split_ifs
    · exact (e.keeps v).2.mpr (s.works_checked v hv)
    · exact s.works_checked v hv

/-- `UPDATE attempts SET … WHERE …`. -/
def updateAttempts (s : Store) (where? : Attempt → Bool) (e : AttemptEdit) : Store where
  works := s.works
  attempts := s.attempts.map (e.at where?)
  works_key := s.works_key
  attempts_key := by
    rw [List.map_map]
    apply Eq.mp _ s.attempts_key
    congr 1
    apply List.map_congr_left
    intro a _
    exact (e.at_key where? a).symm
  works_checked := s.works_checked

/-- `INSERT INTO work`, which the constraints may refuse: the `CHECK` constraints in the order of
the columns, and then the primary key. -/
def insertWork (s : Store) (w : Row) : Except Bytes Store :=
  if hmax : 1 ≤ w.maxAttempts then
    if hdelay : 0 ≤ w.retryDelayMs then
      if hkey : w.id ∈ s.works.map (·.id) then
        .error (Bytes.ofString "insert Work: UNIQUE constraint failed: work.id")
      else
        .ok {
          works := s.works ++ [w]
          attempts := s.attempts
          works_key := by
            rw [List.map_append, List.map_singleton, ← List.concat_eq_append]
            exact s.works_key.concat hkey
          attempts_key := s.attempts_key
          works_checked := by
            intro v hv
            rcases List.mem_append.mp hv with hv | hv
            · exact s.works_checked v hv
            · rw [List.mem_singleton.mp hv]
              exact ⟨hmax, hdelay⟩ }
    else .error (Bytes.ofString "insert Work: CHECK constraint failed: retry_delay_ms >= 0")
  else .error (Bytes.ofString "insert Work: CHECK constraint failed: max_attempts >= 1")

/-- `INSERT INTO attempts`, which the primary key may refuse. -/
def insertAttempt (s : Store) (a : Attempt) : Except Bytes Store :=
  if hkey : a.key ∈ s.attempts.map Attempt.key then
    .error (Bytes.ofString
      "insert attempt: UNIQUE constraint failed: attempts.work_id, attempts.attempt_number")
  else
    .ok {
      works := s.works
      attempts := s.attempts ++ [a]
      works_key := s.works_key
      attempts_key := by
        rw [List.map_append, List.map_singleton, ← List.concat_eq_append]
        exact s.attempts_key.concat hkey
      works_checked := s.works_checked }

/-! ### The rows of a Work -/

theorem find?_map_at {l : List Row} (e : RowEdit) (where? : Row → Bool) (id : CString) :
  (l.map (e.at where?)).find? (·.id = id) = (l.find? (·.id = id)).map (e.at where?)
  := by
  rw [List.find?_map]
  congr 2
  funext w
  simp only [Function.comp_apply, e.at_id]

/-- An update edits the row of each Work. -/
@[simp]
theorem row?_updateWorks (s : Store) (where? : Row → Bool) (e : RowEdit) (id : CString) :
  (s.updateWorks where? e).row? id = (s.row? id).map (e.at where?)
  := find?_map_at e where? id

@[simp]
theorem row?_updateAttempts (s : Store) (where? : Attempt → Bool) (e : AttemptEdit)
    (id : CString) :
  (s.updateAttempts where? e).row? id = s.row? id
  := rfl

@[simp]
theorem attemptsOf_updateWorks (s : Store) (where? : Row → Bool) (e : RowEdit) (id : CString) :
  (s.updateWorks where? e).attemptsOf id = s.attemptsOf id
  := rfl

/-- An update edits the attempt rows of each Work. -/
@[simp]
theorem attemptsOf_updateAttempts (s : Store) (where? : Attempt → Bool) (e : AttemptEdit)
    (id : CString) :
  (s.updateAttempts where? e).attemptsOf id = (s.attemptsOf id).map (e.at where?)
  := by
  rw [attemptsOf, attemptsOf, updateAttempts, List.filter_map]
  congr 2
  funext a
  simp only [Function.comp_apply, e.at_workId]

theorem mem_works_of_row? {s : Store} {id : CString} {w : Row} (h : s.row? id = some w) :
  w ∈ s.works
  := List.mem_of_find?_eq_some h

theorem id_of_row? {s : Store} {id : CString} {w : Row} (h : s.row? id = some w) :
  w.id = id
  := by
  have := List.find?_some h
  simpa using this

/-- The rows of the table are the rows of the Works. -/
theorem row?_of_mem {s : Store} {w : Row} (h : w ∈ s.works) :
  s.row? w.id = some w
  := by
  have hkey := s.works_key
  rw [row?]
  generalize s.works = l at h hkey
  induction l with
  | nil => cases h
  | cons v l ih =>
      rw [List.map_cons, List.nodup_cons] at hkey
      rcases List.mem_cons.mp h with rfl | h
      · simp
      · have hne : ¬v.id = w.id := by
          intro heq
          apply hkey.1
          rw [heq]
          exact List.mem_map_of_mem h
        simp only [List.find?_cons, hne, decide_false]
        exact ih h hkey.2

theorem row?_eq_none_iff (s : Store) (id : CString) :
  s.row? id = none ↔ id ∉ s.works.map (·.id)
  := by
  rw [row?, List.find?_eq_none]
  simp

theorem workId_of_mem_attemptsOf {s : Store} {id : CString} {a : Attempt}
    (h : a ∈ s.attemptsOf id) :
  a.workId = id
  := by
  have := (List.mem_filter.mp h).2
  simpa using this

/-- An inserted Work is the row of its id, and the other rows stay. -/
theorem insertWork_ok {s s' : Store} {w : Row} (h : s.insertWork w = .ok s') :
  s.row? w.id = none ∧ w.checked ∧ s'.works = s.works ++ [w] ∧ s'.attempts = s.attempts
  := by
  rw [insertWork] at h
  split_ifs at h with hmax hdelay hkey
  cases h
  exact ⟨(s.row?_eq_none_iff _).mpr hkey, ⟨hmax, hdelay⟩, rfl, rfl⟩

theorem row?_append {s s' : Store} {w : Row} (hworks : s'.works = s.works ++ [w])
    (hnew : s.row? w.id = none) (id : CString) :
  s'.row? id = if id = w.id then some w else s.row? id
  := by
  rw [row?, hworks, List.find?_append]
  by_cases hid : id = w.id
  · subst hid
    rw [row?] at hnew
    simp [hnew]
  · have hne : ¬w.id = id := fun h => hid h.symm
    rw [if_neg hid, row?]
    simp [hne]

/-- An inserted attempt is the last attempt of its Work, and the other rows stay. -/
theorem insertAttempt_ok {s s' : Store} {a : Attempt} (h : s.insertAttempt a = .ok s') :
  a.key ∉ s.attempts.map Attempt.key ∧ s'.works = s.works ∧ s'.attempts = s.attempts ++ [a]
  := by
  rw [insertAttempt] at h
  split_ifs at h with hkey
  cases h
  exact ⟨hkey, rfl, rfl⟩

theorem attemptsOf_append {s s' : Store} {a : Attempt} (h : s'.attempts = s.attempts ++ [a])
    (id : CString) :
  s'.attemptsOf id = s.attemptsOf id ++ if a.workId = id then [a] else []
  := by
  rw [attemptsOf, h, List.filter_append, attemptsOf]
  congr 1
  by_cases hid : a.workId = id <;> simp [hid]

end Store
