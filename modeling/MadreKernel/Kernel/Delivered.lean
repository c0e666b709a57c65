import MadreKernel.Kernel.Replies

/-!
# The results that are handed out

A reply of a run that says that a result is available has a payload that an attempt of the Work in
the request accepted.  This is about every reply that was ever sent, whatever became of the Work and
of its files since.
-/

namespace Kernel

open WorkStore

variable {cfg : Config} {s s' : System} {p p' : Process}

/-- The reply says that the result is available. -/
def HandsOut (reply : Frame) : Prop :=
  reply.type = MessageType.resultResponse.code
    ∧ metadataValue reply "available" = .ok (Bytes.ofString "true")

theorem not_handsOut {reply : Frame} (h : reply.type ≠ MessageType.resultResponse.code) :
  ¬HandsOut reply
  := fun hout => h hout.1

/-- A step of the handler adds no reply, or one; it hands out a result only when the handler has
found the Work of a `RESULT`. -/
def Sends (s : System) (p : Process) (s' : System) : Prop :=
  s'.history.replies = s.history.replies
    ∨ ∃ c frame, s'.history.replies = s.history.replies ++ [(c.request, frame)]
      ∧ (HandsOut frame → ∃ work, p.handler = .resultFound c work
        ∧ resultReply s.files c.request work = .ok frame)

theorem Sends.reply
    {store : Store} {files : Files} {c : Connection} {frame : Frame}
    (h : frame.type ≠ MessageType.resultResponse.code) :
  Sends s p (s.reply p store files c frame)
  := Or.inr ⟨c, frame, rfl, fun hout => absurd hout (not_handsOut h)⟩

theorem throwResponse_sends {store : Store} {files : Files} {c : Connection} {text : Bytes} :
  Sends s p (s.reply p store files c (throwResponse c.hello text))
  := .reply (show MessageType.error.code ≠ MessageType.resultResponse.code by decide)

theorem errorResponse_sends {store : Store} {files : Files} {c : Connection} {code text : String} :
  Sends s p (s.reply p store files c (errorResponse c.request code text))
  := .reply (show MessageType.error.code ≠ MessageType.resultResponse.code by decide)

theorem statusReply_type (request : Frame) (work : WorkRecord) :
  (statusReply request work).type = MessageType.statusResponse.code
  := by
  rw [statusReply]
  split_ifs <;> rfl

theorem findFirst_sends
    {c : Connection} {faults : List (Option Bytes)} {found : WorkRecord → System}
    (h : ∀ work, Sends s p (found work)) :
  Sends s p (s.findFirst p c faults found)
  := by
  rw [System.findFirst]
  split
  · exact throwResponse_sends
  · split
    · exact throwResponse_sends
    · exact errorResponse_sends
    · exact h _

theorem handle_sends
    {c : Connection} {nowMs : Int64} {draws : UInt64 × UInt64} {faults : List (Option Bytes)}
    (h : s.handle cfg p c nowMs draws faults = some s') :
  Sends s p s'
  := by
  rw [System.handle] at h
  split_ifs at h
  · cases h
    exact errorResponse_sends
  · split at h
    · cases h
      exact throwResponse_sends
    · cases h
      exact Or.inl rfl
  · cases h
    apply findFirst_sends
    intro work
    apply Sends.reply
    rw [statusReply_type]
    decide
  · cases h
    apply findFirst_sends
    intro work
    exact Or.inl rfl
  · cases h
    apply findFirst_sends
    intro work
    exact Or.inl rfl
  · split at h
    · cases h
      exact throwResponse_sends
    · split at h
      · cases h
        exact throwResponse_sends
      · cases h
        exact errorResponse_sends
      · cases h
        exact .reply (show MessageType.cancelResponse.code ≠ MessageType.resultResponse.code by
          decide)
  · cases h
    exact errorResponse_sends

theorem proceed_sends
    {faults : List (Option Bytes)} (h : s.proceed p faults = some s') :
  Sends s p s'
  := by
  cases hphase : p.handler with
  | idle =>
      simp only [System.proceed, hphase] at h
      cases h
  | submitWriting c work =>
      simp only [System.proceed, hphase] at h
      cases h
      exact Or.inl rfl
  | submitRenaming c work =>
      simp only [System.proceed, hphase, Option.map_eq_some_iff] at h
      obtain ⟨files, -, rfl⟩ := h
      exact Or.inl rfl
  | submitStoring c work =>
      simp only [System.proceed, hphase] at h
      split at h
      · cases h
        exact throwResponse_sends
      · cases h
        exact Or.inr ⟨c, _, rfl, fun hout => absurd hout (not_handsOut
          (show MessageType.submitResponse.code ≠ MessageType.resultResponse.code by decide))⟩
  | resultFound c work =>
      simp only [System.proceed, hphase] at h
      split at h
      · cases h
        exact throwResponse_sends
      next frame hreply =>
        cases h
        exact Or.inr ⟨c, frame, rfl, fun _ => ⟨work, hphase, hreply⟩⟩
  | acknowledgeFound c work =>
      simp only [System.proceed, hphase] at h
      split at h
      · cases h
        exact throwResponse_sends
      · split at h
        · cases h
          exact throwResponse_sends
        · cases h
          exact errorResponse_sends
        · cases h
          exact Or.inl rfl
  | removingInput c work =>
      simp only [System.proceed, hphase] at h
      cases h
      exact Or.inl rfl
  | removingResult c work =>
      simp only [System.proceed, hphase] at h
      cases h
      exact .reply (show MessageType.acknowledgeResponse.code ≠ MessageType.resultResponse.code by
        decide)

theorem handlerStep_sends
    {input : System.HandlerInput} (h : s.handlerStep cfg p input = some s') :
  Sends s p s'
  := by
  cases input with
  | request c nowMs draws faults =>
      simp only [System.handlerStep] at h
      split at h
      · split_ifs at h
        exact handle_sends h
      · cases h
  | write count =>
      simp only [System.handlerStep] at h
      split at h
      · cases h
        exact Or.inl rfl
      · cases h
  | proceed faults => exact proceed_sends h
  | throw text =>
      simp only [System.handlerStep] at h
      split at h
      · cases h
        exact throwResponse_sends
      · cases h
        exact throwResponse_sends
      · cases h
        exact Or.inl rfl
      · cases h
        exact .reply (show MessageType.acknowledgeResponse.code ≠ MessageType.resultResponse.code by
          decide)
      · cases h

/-- A step that sends a reply is one of the handler. -/
theorem step_sends {e : System.Event} (h : s.step cfg e = some s') :
  s'.history.replies = s.history.replies ∨ ∃ p, s.process = some p ∧ Sends s p s'
  := by
  cases hprocess : s.process with
  | none =>
      cases e with
      | start nowMs faults =>
          simp only [System.step, hprocess, Option.some.injEq] at h
          subst h
          rw [System.startStep]
          split <;> exact Or.inl rfl
      | _ =>
          simp only [System.step, hprocess] at h
          cases h
  | some p =>
      cases e with
      | start nowMs faults =>
          simp only [System.step, hprocess] at h
          cases h
      | crash =>
          simp only [System.step, hprocess] at h
          cases h
          exact Or.inl rfl
      | stop =>
          simp only [System.step, hprocess] at h
          cases h
          exact Or.inl rfl
      | scheduler input =>
          simp only [System.step, hprocess] at h
          cases System.schedulerStep_move h with
          | _ => exact Or.inl rfl
      | task i input =>
          simp only [System.step, hprocess, System.attemptStep] at h
          split at h
          · cases h
          · obtain ⟨step, -, rfl⟩ := Option.map_eq_some_iff.mp h
            exact Or.inl rfl
      | handler input =>
          simp only [System.step, hprocess] at h
          exact Or.inr ⟨p, rfl, handlerStep_sends h⟩

/-! ### The Work of the request -/

/-- A `RESULT` that has found a Work has found the one in the request. -/
def FoundNamed (handler : HandlerPhase) : Prop :=
  ∀ c work, handler = .resultFound c work →
    ∃ id w, metadataValue c.request "work_id" = .ok id ∧ w.id = bindText id ∧ work = readWork w

theorem Move.foundNamed
    (h : Move cfg s s') (hold : ∀ p, s.process = some p → FoundNamed p.handler)
    (hprocess' : s'.process = some p') :
  FoundNamed p'.handler
  := by
  intro c work hhandler
  rcases h.noneAcknowledged hprocess' with hidle | ⟨p, hprocess, ⟨-, hsame⟩ | hmove⟩
  · rw [hidle] at hhandler
    cases hhandler
  · exact hold p hprocess c work (hsame.symm.trans hhandler)
  · cases hmove with
    | @findResult c id row hid hrow =>
        cases hprocess'
        cases hhandler
        exact ⟨id, row, hid, Store.id_of_row? hrow, rfl⟩
    | _ =>
        cases hprocess'
        cases hhandler

theorem reachable_foundNamed (h : (machine cfg).Reachable s) (hprocess : s.process = some p) :
  FoundNamed p.handler
  := by
  refine Machine.Reachable.invariant
    (P := fun s => ∀ p, s.process = some p → FoundNamed p.handler) ?_ ?_ h p hprocess
  · intro s hinit p hprocess
    rw [hinit.2.1] at hprocess
    cases hprocess
  · intro s e s' _ hold hstep p' hprocess'
    exact (System.step_move hstep).foundNamed hold hprocess'

/-- Only the result of a Work that has succeeded and is not acknowledged is handed out. -/
theorem resultReply_handsOut
    {files : Files} {request reply : Frame} {work : WorkRecord}
    (h : resultReply files request work = .ok reply) (hout : HandsOut reply) :
  work.state = .succeeded ∧ work.acknowledged = false
  := by
  by_contra hnot
  rw [resultReply_unavailable hnot] at h
  obtain rfl := Except.ok.inj h
  have hvalue : metadataValue (unavailableReply request work.state) "available"
      = .ok (Bytes.ofString "false") := by
    rw [metadataValue, unavailableReply, withField, SortedMap.find?_assign]
    simp
  have htrue := hvalue.symm.trans hout.2
  revert htrue
  decide

/-- What has been accepted stays in the history. -/
theorem Move.accepted_prefix (h : Move cfg s s') :
  s.history.accepted <+: s'.history.accepted
  := by
  cases h with
  | task => exact List.prefix_append _ _
  | scheduler _ hmove =>
      cases hmove with
      | _ => exact List.prefix_rfl
  | handler _ hmove =>
      cases hmove with
      | _ => exact List.prefix_rfl
  | _ => exact List.prefix_rfl

/-- An attempt of the Work in a request has accepted a payload. -/
def AcceptedFor (s : System) (request : Frame) (payload : Bytes) : Prop :=
  ∃ id number, metadataValue request "work_id" = .ok id
    ∧ (bindText id, number, payload) ∈ s.history.accepted

theorem AcceptedFor.step
    {e : System.Event} {request : Frame} {payload : Bytes} (h : AcceptedFor s request payload)
    (hstep : s.step cfg e = some s') :
  AcceptedFor s' request payload
  := by
  obtain ⟨id, number, hid, hmem⟩ := h
  have hgrows := Move.accepted_prefix (System.step_move hstep)
  exact ⟨id, number, hid, hgrows.subset hmem⟩

/-- Every result that was handed out in a run was accepted by an attempt of the Work in the
request. -/
theorem reachable_handedOut (h : (machine cfg).Reachable s) :
  ∀ request reply, (request, reply) ∈ s.history.replies → HandsOut reply →
    AcceptedFor s request reply.payload
  := by
  refine Machine.Reachable.invariant
    (P := fun s : System => ∀ request reply, (request, reply) ∈ s.history.replies →
      HandsOut reply → AcceptedFor s request reply.payload) ?_ ?_ h
  · rintro s ⟨-, -, hhistory⟩ request reply hmem
    rw [hhistory] at hmem
    cases hmem
  · intro s e s' hreach hold hstep request reply hmem hout
    rcases step_sends hstep with hsame | ⟨p, hprocess, hsame | ⟨c, frame, hadded, hfound⟩⟩
    · rw [hsame] at hmem
      exact (hold request reply hmem hout).step hstep
    · rw [hsame] at hmem
      exact (hold request reply hmem hout).step hstep
    · rw [hadded] at hmem
      rcases List.mem_append.mp hmem with hmem | hmem
      · exact (hold request reply hmem hout).step hstep
      · cases List.mem_singleton.mp hmem
        obtain ⟨work, hhandler, hreply⟩ := hfound hout
        obtain ⟨hstate, hfalse⟩ := resultReply_handsOut hreply hout
        obtain ⟨id, w, hid, hw, rfl⟩ := reachable_foundNamed hreach hprocess c work hhandler
        obtain ⟨-, payload, hfile, hsize, haccepted⟩ :=
          reachable_result hreach hprocess hhandler hstate hfalse
        rw [resultReply_available hstate hfalse hfile hsize] at hreply
        obtain rfl := Except.ok.inj hreply
        apply AcceptedFor.step _ hstep
        use id, w.attemptCount, hid
        rw [← hw]
        exact haccepted

end Kernel
