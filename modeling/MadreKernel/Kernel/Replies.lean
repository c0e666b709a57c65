import MadreKernel.Kernel.Results

/-!
# The reply to `RESULT`

`RESULT` finds the Work and then reads the result file.  Between the two the other threads go on,
but nobody else acknowledges the Work and removes the file.  So the reply about a Work that has
succeeded and is not acknowledged has the payload that the last attempt accepted, and every other
reply has no payload.
-/

namespace Kernel

open WorkStore

variable {cfg : Config} {s s' : System} {p p' : Process}

/-- Nothing is acknowledged between two databases. -/
def NoneAcknowledged (s s' : Store) : Prop :=
  ∀ id w w', s.row? id = some w → s'.row? id = some w' → w'.acknowledged = w.acknowledged

theorem NoneAcknowledged.refl (s : Store) :
  NoneAcknowledged s s
  := by
  intro id w w' hrow hrow'
  cases hrow.symm.trans hrow'
  rfl

theorem NoneAcknowledged.of_actsAt {a : WorkAction} {id : CString} {s s' : Store}
    (h : a.ActsAt id s s') (ha : a ≠ .acknowledge) :
  NoneAcknowledged s s'
  := by
  intro j w w' hrow hrow'
  have hview := congrArg WorkView.row? (h j)
  split_ifs at hview
  · exact WorkAction.apply_acknowledged ha hrow (hview.symm.trans hrow')
  · exact NoneAcknowledged.refl s j w w' hrow (hview.symm.trans hrow')

theorem NoneAcknowledged.of_actsEverywhere
    {a : WorkAction} {s s' : Store} (h : a.ActsEverywhere s s')
    (ha : a ≠ .acknowledge) :
  NoneAcknowledged s s'
  := by
  intro j w w' hrow hrow'
  exact WorkAction.apply_acknowledged ha hrow ((congrArg WorkView.row? (h j)).symm.trans hrow')

theorem Task.Settles.ne_acknowledge {t : Task} {a : WorkAction} (h : t.Settles a) :
  a ≠ .acknowledge
  := by
  rintro rfl
  exact h

/-- The other threads acknowledge nothing, and leave the handler where it is. -/
theorem Move.noneAcknowledged (h : Move cfg s s') (hprocess' : s'.process = some p') :
  p'.handler = .idle
    ∨ (∃ p, s.process = some p
      ∧ (NoneAcknowledged s.store s'.store ∧ p'.handler = p.handler ∨ HandlerMove cfg s p s'))
  := by
  cases h with
  | start hprocess hacts =>
      cases hprocess'
      exact Or.inl rfl
  | gone => cases hprocess'
  | @stop p hprocess =>
      cases hprocess'
      exact Or.inr ⟨p, hprocess, Or.inl ⟨.refl _, rfl⟩⟩
  | @scheduler p s' hprocess hmove =>
      refine Or.inr ⟨p, hprocess, Or.inl ?_⟩
      cases hmove with
      | gone => cases hprocess'
      | expire schedulerNow hbegun hacts =>
          cases hprocess'
          exact ⟨.of_actsEverywhere hacts (by simp), rfl⟩
      | fail resources hbegun hacts =>
          cases hprocess'
          exact ⟨.of_actsAt hacts (by simp), rfl⟩
      | begin hphase hrow hstart hnumber hacts =>
          cases hprocess'
          exact ⟨.of_actsAt hacts (by simp), rfl⟩
      | lose resources hrow hstart hnumber hacts =>
          cases hprocess'
          exact ⟨.of_actsAt hacts (by simp), rfl⟩
      | drop resources hphase hacts =>
          cases hprocess'
          exact ⟨.of_actsAt hacts (by simp), rfl⟩
      | _ =>
          cases hprocess'
          exact ⟨.refl _, rfl⟩
  | @task p p'' before after t input step hprocess htasks hmove htasks' hscheduler hhandler =>
      refine Or.inr ⟨p, hprocess, Or.inl ?_⟩
      cases hprocess'
      refine ⟨?_, hhandler⟩
      cases hmove with
      | commit hphase hacts haccepted => exact .of_actsAt hacts (by simp)
      | settle ha hacts haccepted => exact .of_actsAt hacts ha.ne_acknowledge
      | _ => exact .refl _
  | @handler p s' hprocess hmove => exact Or.inr ⟨p, hprocess, Or.inr hmove⟩

/-- A `RESULT` that has found a succeeded Work without acknowledgement has its row. -/
def FoundResult (store : Store) (handler : HandlerPhase) : Prop :=
  ∀ c work, handler = .resultFound c work → work.state = .succeeded → work.acknowledged = false →
    ∃ w, store.row? (bindText work.id) = some w ∧ readWork w = work

theorem Move.foundResult
    (hstep : Ledger.Step s.picked s.store s.owners s'.store s'.owners)
    (hold : ∀ p, s.process = some p → FoundResult s.store p.handler) (h : Move cfg s s')
    (hprocess' : s'.process = some p') :
  FoundResult s'.store p'.handler
  := by
  intro c work hhandler hstate hfalse
  rcases h.noneAcknowledged hprocess' with hidle | ⟨p, hprocess, ⟨hnone, hsame⟩ | hmove⟩
  · rw [hidle] at hhandler
    cases hhandler
  · obtain ⟨w, hrow, rfl⟩ := hold p hprocess c work (hsame.symm.trans hhandler) hstate hfalse
    obtain ⟨w', hrow', hfollows⟩ := hstep.follows hrow
    have hsucceeded : w.state = .succeeded := hstate
    have hterminal : w.state.terminal = true := by
      rw [hsucceeded]
      rfl
    rcases hfollows.finished hterminal with rfl | ⟨-, hold, rfl⟩
    · exact ⟨w', hrow', rfl⟩
    · have hflag := hnone _ _ _ hrow hrow'
      rw [hold] at hflag
      cases hflag
  · cases hmove with
    | findResult hid hrow =>
        cases hprocess'
        cases hhandler
        refine ⟨_, ?_, rfl⟩
        rw [bindText_readWork_id, Store.id_of_row? hrow]
        exact hrow
    | _ =>
        cases hprocess'
        cases hhandler

theorem reachable_foundResult (h : (machine cfg).Reachable s) (hprocess : s.process = some p) :
  FoundResult s.store p.handler
  := by
  refine Machine.Reachable.invariant
    (P := fun s => ∀ p, s.process = some p → FoundResult s.store p.handler) ?_ ?_ h p hprocess
  · intro s hinit p hprocess
    rw [hinit.2.1] at hprocess
    cases hprocess
  · intro s e s' hreach hold hstep p' hprocess'
    exact (System.step_move hstep).foundResult (reachable_step hreach hstep) hold hprocess'

/-- The reply with the result. -/
def availableReply (request : Frame) (state : WorkState) (payload : Bytes) : Frame :=
  { withField (withField (response .resultResponse request) "state" (stateText state)) "available"
      (Bytes.ofString "true") with payload }

/-- The reply without a result. -/
def unavailableReply (request : Frame) (state : WorkState) : Frame :=
  withField (withField (response .resultResponse request) "state" (stateText state)) "available"
    (Bytes.ofString "false")

theorem resultReply_available
    {files : Files} {request : Frame} {work : WorkRecord} {payload : Bytes}
    (hstate : work.state = .succeeded) (hfalse : work.acknowledged = false)
    (hfile : files work.resultPath = some payload)
    (hsize : payload.length ≤ Wire.kMaxC1TextGenerationOpaquePayloadBytes) :
  resultReply files request work = .ok (availableReply request work.state payload)
  := by
  have hread : readBinaryBounded files work.resultPath = .ok payload := by
    rw [readBinaryBounded, hfile]
    exact if_neg (Nat.not_lt.mpr hsize)
  rw [resultReply]
  simp only [hstate, hfalse, hfile, Option.isSome_some, and_self, if_true,
    if_neg (Nat.not_lt.mpr hsize), hread]
  rfl

theorem resultReply_unavailable {files : Files} {request : Frame} {work : WorkRecord}
    (h : ¬(work.state = .succeeded ∧ work.acknowledged = false)) :
  resultReply files request work = .ok (unavailableReply request work.state)
  := by
  rw [resultReply]
  simp only
  rw [if_neg]
  · rfl
  · rintro ⟨hstate, hfalse, -⟩
    exact h ⟨hstate, hfalse⟩

/-- A `RESULT` request finds the row of the Work. -/
theorem step_findResult
    (hprocess : s.process = some p) (hidle : p.handler = .idle) (hstop : p.stop = false)
    {c : Connection} {workId : Bytes} {w : Row} (htype : c.request.type = MessageType.result.code)
    (hid : metadataValue c.request "work_id" = .ok workId)
    (hrow : s.store.row? (bindText workId) = some w) (nowMs : Int64) (draws : UInt64 × UInt64) :
  s.step cfg (.handler (.request c nowMs draws []))
    = some (s.await p (.resultFound c (readWork w)))
  := by
  have hfind : (find workId).exec [] s.store = (.ok (some (readWork w)), s.store) := by
    have heval : (find workId).eval s.store = (.ok (some (readWork w)), s.store) := by
      rw [find, Session.eval_query, hrow]
      rfl
    exact heval
  simp only [System.step, hprocess, System.handlerStep, hidle, hstop, Bool.false_eq_true, if_false]
  rw [System.handle, htype, if_neg (by decide), if_neg (by decide), if_pos rfl]
  simp only [System.findFirst, hid, hfind]

theorem step_resultFound
    (hprocess : s.process = some p) {c : Connection} {work : WorkRecord}
    (hhandler : p.handler = .resultFound c work) {reply : Frame}
    (hreply : resultReply s.files c.request work = .ok reply) (faults : List (Option Bytes)) :
  s.step cfg (.handler (.proceed faults)) = some (s.reply p s.store s.files c reply)
  := by
  simp only [System.step, hprocess, System.handlerStep, System.proceed, hhandler, hreply]

/-- The result file that a `RESULT` reads holds the payload that the last attempt accepted. -/
theorem reachable_result
    (hreach : (machine cfg).Reachable s) (hprocess : s.process = some p) {c : Connection} {w : Row}
    (hhandler : p.handler = .resultFound c (readWork w)) (hstate : w.state = .succeeded)
    (hfalse : w.acknowledged = false) :
  s.store.row? w.id = some w
    ∧ ∃ payload, s.files (readWork w).resultPath = some payload
      ∧ payload.length ≤ Wire.kMaxC1TextGenerationOpaquePayloadBytes
      ∧ (w.id, w.attemptCount, payload) ∈ s.history.accepted
  := by
  obtain ⟨w', hrow, hread⟩ :=
    reachable_foundResult hreach hprocess c (readWork w) hhandler hstate hfalse
  have hfound : p.handler.found? = some (readWork w) := by
    rw [hhandler]
    rfl
  have hheld := reachable_holds hreach hprocess (Process.mem_records_of_handler hfound)
  have hpath := (reachable_paths hreach hheld).1
  rw [bindText_readWork_id] at hrow hpath
  obtain rfl : w' = w := by
    have hid : ∀ v : Row, (readWork v).map bindText = v := by
      intro v
      cases v
      simp [readWork, Work.map]
    rw [← hid w', hread, hid w]
  obtain ⟨payload, hstored, hmem⟩ := (reachable_durable hreach).rows w'.id w' hrow hstate hfalse
  refine ⟨hrow, payload, ?_, hstored.2, hmem⟩
  rw [hpath]
  exact hstored.1

/-- The durability of results.  In every reachable state, `RESULT` about a Work that has succeeded
and is not acknowledged replies with the payload that the succeeded attempt of the Work accepted,
whatever the other threads do while it is answered; about every other Work it replies without a
payload. -/
theorem result_durable
    (hreach : (machine cfg).Reachable s) (hprocess : s.process = some p) (hidle : p.handler = .idle)
    (hstop : p.stop = false) {c : Connection} {workId : Bytes} {w : Row}
    (htype : c.request.type = MessageType.result.code)
    (hid : metadataValue c.request "work_id" = .ok workId)
    (hrow : s.store.row? (bindText workId) = some w) (nowMs : Int64) (draws : UInt64 × UInt64) :
  ∃ s₁ p₁, (machine cfg).step s (.handler (.request c nowMs draws [])) = some s₁
    ∧ s₁.process = some p₁ ∧ p₁.handler = .resultFound c (readWork w)
    ∧ ∀ es s₂ p₂ faults, (machine cfg).run s₁ es = some s₂ → s₂.process = some p₂ →
        p₂.handler = .resultFound c (readWork w) →
        ∃ s₃ reply, (machine cfg).step s₂ (.handler (.proceed faults)) = some s₃
          ∧ s₃.history.replies = s₂.history.replies ++ [(c.request, reply)]
          ∧ (w.state = .succeeded ∧ w.acknowledged = false →
              ∃ payload, reply = availableReply c.request .succeeded payload
                ∧ (∃ a ∈ s₂.store.attemptsOf (bindText workId),
                    a.attemptNumber = w.attemptCount ∧ a.state = .succeeded)
                ∧ ∀ payload', (bindText workId, w.attemptCount, payload') ∈ s₂.history.accepted
                    ↔ payload' = payload)
          ∧ (¬(w.state = .succeeded ∧ w.acknowledged = false) →
              reply = unavailableReply c.request w.state ∧ reply.payload = [])
  := by
  have hstep : s.step cfg (.handler (.request c nowMs draws []))
      = some (s.await p (.resultFound c (readWork w))) :=
    step_findResult hprocess hidle hstop htype hid hrow nowMs draws
  refine ⟨_, _, hstep, rfl, rfl, ?_⟩
  intro es s₂ p₂ faults hrun hprocess₂ hhandler₂
  have hreach₂ := (hreach.step hstep).run hrun
  by_cases hsucceeded : w.state = .succeeded ∧ w.acknowledged = false
  · obtain ⟨hstate, hfalse⟩ := hsucceeded
    obtain ⟨hrow₂, payload, hfile, hsize, hmem⟩ :=
      reachable_result hreach₂ hprocess₂ hhandler₂ hstate hfalse
    rw [Store.id_of_row? hrow] at hrow₂ hmem
    have hreply : resultReply s₂.files c.request (readWork w)
        = .ok (availableReply c.request w.state payload) :=
      resultReply_available hstate hfalse hfile hsize
    refine ⟨_, _, step_resultFound hprocess₂ hhandler₂ hreply faults, rfl, ?_,
      fun h => absurd ⟨hstate, hfalse⟩ h⟩
    intro _
    obtain ⟨earlier, last, hattempts, hlast, -⟩ :=
      (reachable_account hreach₂ hrow₂).succeeded hstate
    have haccount := reachable_account hreach₂ hrow₂
    rw [hattempts] at haccount
    refine ⟨payload, ?_, ⟨last, ?_, haccount.last_number, hlast⟩, ?_⟩
    · rw [hstate]
    · rw [hattempts]
      simp
    · intro payload'
      constructor
      · intro hmem'
        exact (reachable_durable hreach₂).unique _ _ _ _ hmem' hmem
      · rintro rfl
        exact hmem
  · have hreply : resultReply s₂.files c.request (readWork w)
        = .ok (unavailableReply c.request w.state) := resultReply_unavailable hsucceeded
    exact ⟨_, _, step_resultFound hprocess₂ hhandler₂ hreply faults, rfl,
      fun h => absurd h hsucceeded, fun _ => ⟨rfl, rfl⟩⟩

/-- The `RESULT` of a Work that has succeeded. -/
theorem result_durable_out :
  ∃ s s₁ s₂, (machine Sample.config).Reachable s
    ∧ (machine Sample.config).step s (.handler
        (.request (Sample.connection (Sample.request .result)) 0 (0, 0) [])) = some s₁
    ∧ (machine Sample.config).step s₁ (.handler (.proceed [])) = some s₂
    ∧ (Sample.request .result,
        availableReply (Sample.request .result) .succeeded (Bytes.ofString "out"))
      ∈ s₂.history.replies
  := by
  obtain ⟨s, hreach, hs⟩ := Sample.reachable
    (Sample.dispatched ++ Sample.committing (Bytes.ofString "out") ++ [.task 0 (.proceed 0 [])])
    (fun s => s.process.any (fun p => p.handler = .idle && !p.stop)
      && (s.store.row? (bindText Sample.workId)).any
        (fun w => w.state = .succeeded && !w.acknowledged && w.attemptCount = 1)
      && s.history.accepted.contains (bindText Sample.workId, 1, Bytes.ofString "out"))
    (by decide +kernel)
  simp only [Bool.and_eq_true, Option.any_eq_true, decide_eq_true_eq, Bool.not_eq_true',
    List.contains_iff_mem] at hs
  obtain ⟨⟨⟨p, hprocess, hidle, hstop⟩, w, hrow, ⟨hstate, hfalse⟩, hcount⟩, hmem⟩ := hs
  obtain ⟨s₁, p₁, hstep, hprocess₁, hhandler₁, hserved⟩ :=
    result_durable hreach hprocess hidle hstop (c := Sample.connection (Sample.request .result))
      (by decide +kernel) (by decide +kernel) hrow 0 (0, 0)
  obtain ⟨s₂, reply, hstep₂, hreplies, havailable, -⟩ :=
    hserved [] s₁ p₁ [] rfl hprocess₁ hhandler₁
  obtain ⟨payload, rfl, -, hpayload⟩ := havailable ⟨hstate, hfalse⟩
  have hfound : s.step Sample.config
      (.handler (.request (Sample.connection (Sample.request .result)) 0 (0, 0) []))
        = some (s.await p (.resultFound (Sample.connection (Sample.request .result))
          (readWork w))) :=
    step_findResult hprocess hidle hstop (by decide +kernel) (by decide +kernel) hrow 0 (0, 0)
  have haccepted : (bindText Sample.workId, w.attemptCount, Bytes.ofString "out")
      ∈ s₁.history.accepted := by
    cases hstep.symm.trans hfound
    rw [hcount]
    exact hmem
  refine ⟨s, s₁, s₂, hreach, hstep, hstep₂, ?_⟩
  rw [hreplies, (hpayload _).mp haccepted]
  simp [Sample.connection]

end Kernel
