import Mathlib.Data.List.TakeWhile
import Mathlib.Tactic.Use

/-!
# Key and value lines

Texts over an alphabet with a separator `eq` and a line end `lf`.  `render` writes each
entry as its key, the separator, its value and the line end; `parse` cuts a text at its
line ends, skips the empty lines and cuts every other line at its first separator.  A
line without a separator, or with an empty key, does not parse.  What `render` writes,
`parse` reads back, when keys are not empty, keys hold no separator, and neither keys nor
values hold a line end.

An encoding of the letters of one alphabet as words over another takes rendered texts to
rendered texts when it writes each of the two marks as a single letter that no other
letter's word holds.
-/

namespace KeyValue

variable {α β : Type} [DecidableEq α] [DecidableEq β]

/-- The entry of a line. -/
def parseLine (eq : α) (line : List α) : Option (List α × List α) :=
  match line.findIdx? (· = eq) with
  | none => none
  | some 0 => none
  | some (i + 1) => some (line.take (i + 1), line.drop (i + 2))

/-- The entries of the lines that are not empty. -/
def parseLines (eq : α) (lines : List (List α)) : Option (List (List α × List α)) :=
  (lines.filter (· ≠ [])).mapM (parseLine eq)

/-- The entries of a text. -/
def parse (eq lf : α) (text : List α) : Option (List (List α × List α)) :=
  parseLines eq (text.splitOn lf)

/-- The line of an entry, with its line end. -/
def renderEntry (eq lf : α) (e : List α × List α) : List α := e.1 ++ eq :: e.2 ++ [lf]

/-- The lines of a list of entries. -/
def render (eq lf : α) (l : List (List α × List α)) : List α := l.flatMap (renderEntry eq lf)

/-- Rendering entries whose keys and values have words, when none of them is refused. -/
def renderIf {κ ε : Type} (word : κ → List α) (invalid : κ → κ → Bool) (error : ε) (eq lf : α) :
    List (κ × κ) → Except ε (List α)
  | [] => .ok []
  | (key, value) :: rest =>
      if invalid key value then .error error
      else
        match renderIf word invalid error eq lf rest with
        | .ok out => .ok (word key ++ [eq] ++ word value ++ [lf] ++ out)
        | .error e => .error e

/-- The entries that `render` and `parse` carry. -/
structure Renderable (eq lf : α) (e : List α × List α) : Prop where
  key_ne_nil : e.1 ≠ []
  eq_notMem : eq ∉ e.1
  lf_notMem_key : lf ∉ e.1
  lf_notMem_value : lf ∉ e.2

omit [DecidableEq β] in
theorem findIdx?_append_cons {p : β → Bool} {l : List β} {b : β} (l' : List β)
    (hl : ∀ x ∈ l, p x = false) (hb : p b = true) :
  (l ++ b :: l').findIdx? p = some l.length
  := by
  induction l with
  | nil => simp [List.findIdx?_cons, hb]
  | cons a l ih =>
      have ha : p a = false := hl a List.mem_cons_self
      have htail : ∀ x ∈ l, p x = false := fun x hx => hl x (List.mem_cons_of_mem _ hx)
      simp [List.findIdx?_cons, ha, ih htail]

/-- A line is cut at its first separator. -/
theorem parseLine_append {eq : α} {key : List α} (value : List α) (hne : key ≠ [])
    (heq : eq ∉ key) :
  parseLine eq (key ++ eq :: value) = some (key, value)
  := by
  have hidx : (key ++ eq :: value).findIdx? (fun x => decide (x = eq)) = some key.length := by
    apply findIdx?_append_cons
    · intro x hx
      simp only [decide_eq_false_iff_not]
      rintro rfl
      apply heq hx
    · simp
  obtain ⟨a, as, rfl⟩ := List.exists_cons_of_ne_nil hne
  simp only [parseLine, hidx, List.length_cons]
  simp [List.drop_append]

theorem parseLines_cons_nil (eq : α) (lines : List (List α)) :
  parseLines eq ([] :: lines) = parseLines eq lines
  := by
  simp [parseLines]

theorem parseLines_cons {eq : α} {line : List α} (h : line ≠ []) (lines : List (List α)) :
  parseLines eq (line :: lines)
    = (parseLine eq line).bind (fun e => (parseLines eq lines).map (e :: ·))
  := by
  have hkept : (line :: lines).filter (· ≠ []) = line :: lines.filter (· ≠ []) :=
    List.filter_cons_of_pos (decide_eq_true h)
  rw [parseLines, parseLines, hkept, List.mapM_cons]
  cases parseLine eq line with
  | none => rfl
  | some e => cases (lines.filter (· ≠ [])).mapM (parseLine eq) <;> rfl

/-- A text is read line by line: the line up to the first line end, then the text after
that line end. -/
theorem parse_eq_of_line (eq lf : α) (text : List α) :
  parse eq lf text
    = (fun line rest =>
        if line = [] then parse eq lf rest
        else (parseLine eq line).bind (fun e => (parse eq lf rest).map (e :: ·)))
      (text.takeWhile (· ≠ lf)) (text.drop ((text.takeWhile (· ≠ lf)).length + 1))
  := by
  have hline : ∀ line rest, text.splitOn lf = line :: rest.splitOn lf
      → parse eq lf text = if line = [] then parse eq lf rest
          else (parseLine eq line).bind (fun e => (parse eq lf rest).map (e :: ·)) := by
    intro line rest h
    rw [parse, h]
    split_ifs with hnil
    · rw [hnil, parseLines_cons_nil]
      rfl
    · rw [parseLines_cons hnil]
      rfl
  by_cases hmem : lf ∈ text
  · obtain ⟨pre, post, rfl, hpre⟩ := List.eq_append_cons_of_mem hmem
    have htake : (pre ++ lf :: post).takeWhile (· ≠ lf) = pre := by
      rw [List.takeWhile_append_of_pos]
      · simp
      · intro x hx
        simp only [decide_eq_true_eq]
        rintro rfl
        apply hpre hx
    have hdrop : (pre ++ lf :: post).drop (pre.length + 1) = post := by
      rw [List.append_cons, List.drop_left' (by simp)]
    rw [htake, hdrop]
    apply hline
    apply List.splitOn_append_cons_self_of_not_mem hpre
  · have htake : text.takeWhile (· ≠ lf) = text := by
      apply List.takeWhile_eq_self_iff.mpr
      intro x hx
      simp only [decide_eq_true_eq]
      rintro rfl
      apply hmem hx
    -- The text has no line end: it is its only line, and an empty text follows it.
    have hend : parse eq lf ([] : List α) = some [] := by simp [parse, parseLines]
    rw [htake, List.drop_of_length_le (by omega), parse, List.splitOn_eq_singleton hmem]
    simp only [hend, Option.map_some]
    split_ifs with hnil
    · simp [hnil, parseLines]
    · rw [parseLines_cons hnil]
      rfl

/-- What `render` writes in front of a text is read first. -/
theorem parse_renderEntry_append
    {eq lf : α} {e : List α × List α} (h : Renderable eq lf e) (hne : eq ≠ lf) (text : List α) :
  parse eq lf (renderEntry eq lf e ++ text) = (parse eq lf text).map (e :: ·)
  := by
  obtain ⟨key, value⟩ := e
  have hline : lf ∉ key ++ eq :: value := by
    simp only [List.mem_append, List.mem_cons, not_or]
    exact ⟨h.lf_notMem_key, hne.symm, h.lf_notMem_value⟩
  have hsplit : (renderEntry eq lf (key, value) ++ text).splitOn lf
      = (key ++ eq :: value) :: text.splitOn lf := by
    rw [renderEntry, List.append_assoc, List.singleton_append]
    apply List.splitOn_append_cons_self_of_not_mem hline
  rw [parse, hsplit, parseLines_cons (by simp), parseLine_append value h.key_ne_nil h.eq_notMem]
  rfl

/-- What `render` writes, `parse` reads back. -/
theorem parse_render
    {eq lf : α} {l : List (List α × List α)} (h : ∀ e ∈ l, Renderable eq lf e) (hne : eq ≠ lf) :
  parse eq lf (render eq lf l) = some l
  := by
  induction l with
  | nil => simp [render, parse, parseLines]
  | cons e l ih =>
      have hcons : render eq lf (e :: l) = renderEntry eq lf e ++ render eq lf l := rfl
      rw [hcons, parse_renderEntry_append (h e List.mem_cons_self) hne,
        ih (fun d hd => h d (List.mem_cons_of_mem _ hd))]
      rfl

omit [DecidableEq α] in
/-- `renderIf` throws its one error. -/
theorem eq_of_renderIf_eq_error
    {κ ε : Type} {word : κ → List α} {invalid : κ → κ → Bool} {error e : ε} {eq lf : α}
    {l : List (κ × κ)} (h : renderIf word invalid error eq lf l = .error e) :
  e = error
  := by
  induction l with
  | nil => cases h
  | cons d l ih =>
      obtain ⟨key, value⟩ := d
      rw [renderIf] at h
      split_ifs at h
      · cases h
        rfl
      · cases hrest : renderIf word invalid error eq lf l with
        | ok rest =>
            rw [hrest] at h
            cases h
        | error e' =>
            rw [hrest] at h
            cases h
            exact ih hrest

omit [DecidableEq α] in
/-- `renderIf` renders the entries exactly when none of them is refused. -/
theorem renderIf_eq_ok_iff
    {κ ε : Type} (word : κ → List α) (invalid : κ → κ → Bool) (error : ε) (eq lf : α)
    (l : List (κ × κ)) (out : List α) :
  renderIf word invalid error eq lf l = .ok out
    ↔ (∀ e ∈ l, invalid e.1 e.2 = false) ∧ out = render eq lf (l.map (Prod.map word word))
  := by
  induction l generalizing out with
  | nil =>
      constructor
      · rintro ⟨⟩
        exact ⟨by simp, rfl⟩
      · rintro ⟨-, rfl⟩
        rfl
  | cons e l ih =>
      obtain ⟨key, value⟩ := e
      rw [renderIf]
      split_ifs with hbad
      · simp [hbad]
      · simp only [List.forall_mem_cons, Bool.not_eq_true] at hbad ⊢
        cases hrest : renderIf word invalid error eq lf l with
        | ok rest =>
            obtain ⟨hall, rfl⟩ := (ih rest).mp hrest
            constructor
            · rintro ⟨⟩
              exact ⟨⟨hbad, hall⟩, by simp [render, renderEntry]⟩
            · rintro ⟨-, rfl⟩
              simp [render, renderEntry]
        | error err =>
            constructor
            · intro h
              cases h
            · rintro ⟨⟨-, hall⟩, -⟩
              have hok := (ih _).mpr ⟨hall, rfl⟩
              rw [hrest] at hok
              cases hok

/-! ### Encoded alphabets -/

/-- An encoding of letters as words writes the letter `a` as the letter `b`, which is in
the word of no other letter. -/
structure Marks (enc : α → List β) (a : α) (b : β) : Prop where
  enc_mark : enc a = [b]
  notMem_enc : ∀ x, x ≠ a → b ∉ enc x

variable {enc : α → List β}

omit [DecidableEq α] [DecidableEq β] in
theorem Marks.notMem_flatMap {a : α} {b : β} (h : Marks enc a b) {l : List α} (hl : a ∉ l) :
  b ∉ l.flatMap enc
  := by
  simp only [List.mem_flatMap, not_exists, not_and]
  intro x hx
  apply h.notMem_enc
  rintro rfl
  apply hl hx

omit [DecidableEq α] [DecidableEq β] in
theorem Marks.mem_flatMap {a : α} {b : β} (h : Marks enc a b) {l : List α} (hl : a ∈ l) :
  b ∈ l.flatMap enc
  := by
  apply List.mem_flatMap.mpr
  use a, hl
  simp [h.enc_mark]

/-- An entry with its key and its value encoded. -/
def encodeEntry (enc : α → List β) (e : List α × List α) : List β × List β :=
  (e.1.flatMap enc, e.2.flatMap enc)

omit [DecidableEq α] [DecidableEq β] in
/-- The encoding of a rendered list of entries is the rendered list of encoded entries. -/
theorem flatMap_render {eq lf : α} {eq' lf' : β} (heq : Marks enc eq eq') (hlf : Marks enc lf lf')
    (l : List (List α × List α)) :
  (render eq lf l).flatMap enc = render eq' lf' (l.map (encodeEntry enc))
  := by
  induction l with
  | nil => rfl
  | cons e l ih =>
      simp only [render, List.flatMap_cons, List.flatMap_append, List.map_cons] at ih ⊢
      rw [ih]
      congr 1
      simp [renderEntry, encodeEntry, heq.enc_mark, hlf.enc_mark]

omit [DecidableEq α] [DecidableEq β] in
/-- An entry can be rendered exactly when its encoding can, if no letter is encoded by the
empty word. -/
theorem renderable_encodeEntry_iff
    {eq lf : α} {eq' lf' : β} (heq : Marks enc eq eq') (hlf : Marks enc lf lf')
    (hne : ∀ x, enc x ≠ []) (e : List α × List α) :
  Renderable eq' lf' (encodeEntry enc e) ↔ Renderable eq lf e
  := by
  have hnil : e.1.flatMap enc = [] ↔ e.1 = [] := by
    cases e.1 with
    | nil => simp
    | cons x l => simp [hne x]
  constructor
  · intro h
    constructor
    · intro hkey
      apply h.key_ne_nil (hnil.mpr hkey)
    · intro hmem
      apply h.eq_notMem (heq.mem_flatMap hmem)
    · intro hmem
      apply h.lf_notMem_key (hlf.mem_flatMap hmem)
    · intro hmem
      apply h.lf_notMem_value (hlf.mem_flatMap hmem)
  · intro h
    constructor
    · intro hkey
      apply h.key_ne_nil (hnil.mp hkey)
    · apply heq.notMem_flatMap h.eq_notMem
    · apply hlf.notMem_flatMap h.lf_notMem_key
    · apply hlf.notMem_flatMap h.lf_notMem_value

/-- Letters without the line end come in front of the first line. -/
theorem splitOn_append_of_notMem {a : α} {l : List α} (h : a ∉ l) (text : List α) :
  (l ++ text).splitOn a = (text.splitOn a).modifyHead (l ++ ·)
  := by
  induction l with
  | nil => cases hsplit : text.splitOn a <;> simp [hsplit]
  | cons x l ih =>
      have hx : ¬x = a := by
        rintro rfl
        apply h List.mem_cons_self
      have hl : a ∉ l := fun hmem => h (List.mem_cons_of_mem _ hmem)
      rw [List.cons_append, List.splitOn_cons_eq_if_modifyHead, ih hl]
      cases text.splitOn a <;> simp [hx]

/-- The encoding of a text has the encodings of its lines as lines. -/
theorem splitOn_flatMap {lf : α} {lf' : β} (h : Marks enc lf lf') (text : List α) :
  (text.flatMap enc).splitOn lf' = (text.splitOn lf).map (List.flatMap enc)
  := by
  induction text with
  | nil => simp
  | cons x text ih =>
      rw [List.flatMap_cons, List.splitOn_cons_eq_if_modifyHead]
      by_cases hx : x = lf
      · rw [hx, h.enc_mark, List.singleton_append, List.splitOn_cons_eq_if_modifyHead, ih]
        simp
      · rw [splitOn_append_of_notMem (h.notMem_enc x hx), ih]
        cases text.splitOn lf <;> simp [hx]

theorem parseLine_of_notMem {eq : α} {line : List α} (h : eq ∉ line) :
  parseLine eq line = none
  := by
  have hidx : line.findIdx? (fun x => decide (x = eq)) = none := by
    apply List.findIdx?_eq_none_iff.mpr
    intro x hx
    simp only [decide_eq_false_iff_not]
    rintro rfl
    apply h hx
  rw [parseLine, hidx]

theorem parseLine_cons_self (eq : α) (value : List α) :
  parseLine eq (eq :: value) = none
  := by
  simp [parseLine, List.findIdx?_cons]

/-- The entry of an encoded line is the encoding of the entry of the line. -/
theorem parseLine_flatMap {eq : α} {eq' : β} (h : Marks enc eq eq') (hne : ∀ x, enc x ≠ [])
    (line : List α) :
  parseLine eq' (line.flatMap enc) = (parseLine eq line).map (encodeEntry enc)
  := by
  by_cases hmem : eq ∈ line
  · obtain ⟨key, value, rfl, hkey⟩ := List.eq_append_cons_of_mem hmem
    have hkey' := h.notMem_flatMap hkey
    rw [List.flatMap_append, List.flatMap_cons, h.enc_mark, List.singleton_append]
    cases key with
    | nil => simp [parseLine_cons_self]
    | cons x key =>
        have hnil : (x :: key).flatMap enc ≠ [] := by simp [hne x]
        rw [parseLine_append _ (List.cons_ne_nil x key) hkey, parseLine_append _ hnil hkey']
        rfl
  · rw [parseLine_of_notMem hmem, parseLine_of_notMem (h.notMem_flatMap hmem)]
    rfl

/-- The entries of an encoded text are the encodings of the entries of the text. -/
theorem parse_flatMap {eq lf : α} {eq' lf' : β} (heq : Marks enc eq eq') (hlf : Marks enc lf lf')
    (hne : ∀ x, enc x ≠ []) (text : List α) :
  parse eq' lf' (text.flatMap enc) = (parse eq lf text).map (List.map (encodeEntry enc))
  := by
  rw [parse, parse, splitOn_flatMap hlf]
  induction text.splitOn lf with
  | nil => rfl
  | cons line lines ih =>
      rw [List.map_cons]
      by_cases hline : line = []
      · rw [hline, List.flatMap_nil, parseLines_cons_nil, parseLines_cons_nil, ih]
      · have hline' : line.flatMap enc ≠ [] := by
          obtain ⟨x, l, rfl⟩ := List.exists_cons_of_ne_nil hline
          simp [hne x]
        rw [parseLines_cons hline, parseLines_cons hline', parseLine_flatMap heq hne, ih]
        cases parseLine eq line with
        | none => rfl
        | some e => cases parseLines eq lines <;> rfl

end KeyValue
