import CausalBroadcast.Causal.Invariant
import CausalBroadcast.Causal.Simulation

/-!
# Whole calls in a run of the system

A run may let one thread take several steps in a row.  `Reachable.sendLcb` runs
the main thread through one round of `send_lcb`, `Reachable.deliver` lets the
receiver thread of an idle process take a message that is accepted at once, and
`Reachable.count` does the same up to the counting of the message.  Where only some
steps are allowed, `sendLcb_allowed` and `count_allowed` ask for those that a call makes.
-/

namespace CausalBroadcast

/-- The message that round `i` of `send_lcb` prepares. -/
def LcbProcess.next (P : LcbProcess) (p i : ℕ) : LcbMsg :=
  ⟨P.data.vectorClock.set (p - 1) (i - 1), p⟩

/-- The process after round `i` of `send_lcb`. -/
def LcbProcess.afterSend (P : LcbProcess) (p i : ℕ) : LcbProcess :=
  { P with
    data := { P.data with log := P.data.log ++ [.broadcast i] }
    main := .ready (i + 1)
    copies := P.copies ++ [(P.next p i, P.data.delivered)] }

/-- The process after `deliver_lcb` has accepted `msg` and found nothing else. -/
def LcbProcess.afterDeliver (P : LcbProcess) (msg : LcbMsg) : LcbProcess :=
  { P with
    data := P.data.deliver msg
    receiver := .idle
    handed := P.handed ++ [msg] }

/-- The process after `deliver_lcb` has counted `msg`, before the line is written. -/
def LcbProcess.afterCount (P : LcbProcess) (msg : LcbMsg) : LcbProcess :=
  { P with
    data := { P.data with
      vectorClock := bump P.data.vectorClock msg.originalSender
      delivered := P.data.delivered ++ [msg] }
    receiver := .logging msg (u32 (entry P.data.vectorClock msg.originalSender + 1)) .direct
    handed := P.handed ++ [msg] }

/-- The system after round `i` of `send_lcb` at `p`. -/
def LcbSystem.sendLcb (s : LcbSystem) (p i : ℕ) : LcbSystem :=
  { s.set p ((s.process p).afterSend p i) with
    broadcast := s.broadcast ++ [(s.process p).next p i] }

@[simp] theorem LcbSystem.sendLcb_broadcast (s : LcbSystem) (p i : ℕ) :
    (s.sendLcb p i).broadcast = s.broadcast ++ [(s.process p).next p i] := rfl

@[simp] theorem LcbSystem.sendLcb_process_self (s : LcbSystem) (p i : ℕ) :
    (s.sendLcb p i).process p = (s.process p).afterSend p i := s.set_process_self ..

theorem LcbSystem.sendLcb_process_of_ne (s : LcbSystem) {p q : ℕ} (i : ℕ) (h : q ≠ p) :
    (s.sendLcb p i).process q = s.process q := s.set_process_of_ne _ h

theorem LcbSystem.set_self (s : LcbSystem) (p : ℕ) : s.set p (s.process p) = s := by
  cases s
  simp [LcbSystem.set]

theorem LcbSystem.set_set (s : LcbSystem) (p : ℕ) (P P' : LcbProcess) :
    (s.set p P).set p P' = s.set p P' := by
  simp [LcbSystem.set]

section Runs

variable {cfg : Membership} {s : LcbSystem} {p i : ℕ} {msg : LcbMsg}
  {allowed : LcbSystem → LcbSystem → Prop}

/-- Steps of the receiver thread alone are steps of the system. -/
theorem steps_of_receiverRun (allowed : LcbSystem → LcbSystem → Prop) (hp : cfg.IsPid p)
    (hall : ∀ data receiver t,
      allowed (s.set p { s.process p with data := data, receiver := receiver }) t)
    (data : Lcb) (receiver : Receiver)
    (hrun : ReceiverRun ((s.process p).data, (s.process p).receiver) (data, receiver)) :
    ((lcbSystem cfg).restrict allowed).Steps s
      (s.set p { s.process p with data := data, receiver := receiver }) := by
  suffices ∀ target, ReceiverRun ((s.process p).data, (s.process p).receiver) target →
      ((lcbSystem cfg).restrict allowed).Steps s
        (s.set p { s.process p with data := target.1, receiver := target.2 }) from
    this _ hrun
  intro target hrun
  induction hrun with
  | refl =>
      rw [LcbSystem.set_self]
  | @tail middle target _ hstep ih =>
      subst hstep
      obtain ⟨data, receiver⟩ := middle
      by_cases hdefined : receiver = .undefined
      · subst hdefined
        exact ih
      · refine ih.tail ⟨⟨p, .receive, hp, ?_⟩, hall data receiver _⟩
        have hlast := LcbStep.receive (p := p)
          (s := s.set p { s.process p with data := data, receiver := receiver }) (by simpa)
        rwa [LcbSystem.set_set, LcbSystem.set_process_self] at hlast

/-- One round of `send_lcb`, in which no receiver thread moves. -/
theorem Reachable.sendLcb_allowed (hs : ((lcbSystem cfg).restrict allowed).Reachable s)
    (hp : cfg.IsPid p) (hidle : (s.process p).receiver = .idle)
    (hmain : (s.process p).main = .ready i) (hi : i < 2 ^ 31)
    (hall : ∀ u t, (∀ r, (u.process r).receiver = (s.process r).receiver) → allowed u t) :
    ((lcbSystem cfg).restrict allowed).Reachable (s.sendLcb p i) := by
  have hwf := ((lcbInv_of_reachable hs.of_restrict).process p hp).wellFormed
  have hdefined : (s.process p).receiver ≠ .undefined := by simp [hidle]
  let P₁ : LcbProcess := { s.process p with
    main := .copied i ((s.process p).next p i)
    copies := (s.process p).copies ++ [((s.process p).next p i, (s.process p).data.delivered)] }
  let P₂ : LcbProcess := { P₁ with
    data := { P₁.data with log := P₁.data.log ++ [.broadcast i] }
    main := .logged i ((s.process p).next p i) }
  have hsame : ∀ P : LcbProcess, P.receiver = (s.process p).receiver →
      ∀ t, allowed (s.set p P) t := by
    intro P hreceiver t
    apply hall
    intro r
    by_cases hr : r = p
    · rw [hr, LcbSystem.set_process_self, hreceiver]
    · rw [LcbSystem.set_process_of_ne s P hr]
  have hcopied : ((lcbSystem cfg).restrict allowed).Reachable (s.set p P₁) :=
    hs.step ⟨⟨p, _, hp, .copy hdefined hmain hi (nextLcbMsg_eq hwf hp i)⟩,
      hall s _ fun _ => rfl⟩
  have hlogged : ((lcbSystem cfg).restrict allowed).Reachable (s.set p P₂) := by
    have hstep := @LcbStep.logBroadcast (s.set p P₁) p i ((s.process p).next p i) P₂.data
      (by simpa [P₁] using hdefined)
      (by simp [P₁]) (by rw [LcbSystem.set_process_self]; rfl)
    rw [LcbSystem.set_set, LcbSystem.set_process_self] at hstep
    exact hcopied.step ⟨⟨p, _, hp, hstep⟩, hsame P₁ rfl _⟩
  have hstep := @LcbStep.send (s.set p P₂) p i ((s.process p).next p i)
    (by simpa [P₂, P₁] using hdefined) (by simp [P₂])
  rw [LcbSystem.set_set, LcbSystem.set_process_self] at hstep
  exact hlogged.step ⟨⟨p, _, hp, hstep⟩, hsame P₂ rfl _⟩

theorem Reachable.sendLcb (hs : (lcbSystem cfg).Reachable s) (hp : cfg.IsPid p)
    (hidle : (s.process p).receiver = .idle) (hmain : (s.process p).main = .ready i)
    (hi : i < 2 ^ 31) : (lcbSystem cfg).Reachable (s.sendLcb p i) :=
  (Reachable.sendLcb_allowed (hs.restrict fun _ _ => trivial) hp hidle hmain hi
    fun _ _ _ => trivial).of_restrict

theorem step_hand (hp : cfg.IsPid p) (hidle : (s.process p).receiver = .idle)
    (hmem : msg ∈ s.broadcast) (hnew : msg ∉ (s.process p).handed) :
    (lcbSystem cfg).step s (s.set p { s.process p with
    receiver := .testing msg
    handed := (s.process p).handed ++ [msg] }) :=
  ⟨p, _, hp, .hand hidle hmem hnew⟩

/-- A message that `deliver_lcb` accepts at once, while nothing is waiting. -/
theorem Reachable.deliver (msg : LcbMsg) (hs : (lcbSystem cfg).Reachable s) (hp : cfg.IsPid p)
    (hidle : (s.process p).receiver = .idle) (hmem : msg ∈ s.broadcast)
    (hnew : msg ∉ (s.process p).handed) (hready : Ready cfg (s.process p).data.vectorClock msg)
    (hnone : NoPending (s.process p).data) :
    (lcbSystem cfg).Reachable (s.set p ((s.process p).afterDeliver msg)) := by
  have hinv := lcbInv_of_reachable hs
  have hcall := runsTo_deliverLcb 1 msg (s.process p).data
  rw [deliverLcb_direct (hinv.process p hp).wellFormed (hinv.broadcast.fits hmem) hready hnone 0]
    at hcall
  have hrun := steps_of_receiverRun (fun _ _ => True) hp (s := s.set p { s.process p with
      receiver := .testing msg
      handed := (s.process p).handed ++ [msg] })
    (fun _ _ _ => trivial) ((s.process p).data.deliver msg) .idle
    (by simpa [RunsTo] using hcall)
  rw [LcbSystem.set_set, LcbSystem.set_process_self] at hrun
  have hhanded := hs.step (step_hand hp hidle hmem hnew)
  exact ((hhanded.restrict fun _ _ => trivial).steps hrun).of_restrict

/-- The same message, up to the step that counts it; only the receiver thread of `p`
moves. -/
theorem Reachable.count_allowed (msg : LcbMsg)
    (hs : ((lcbSystem cfg).restrict allowed).Reachable s) (hp : cfg.IsPid p)
    (hidle : (s.process p).receiver = .idle) (hmem : msg ∈ s.broadcast)
    (hnew : msg ∉ (s.process p).handed) (hready : Ready cfg (s.process p).data.vectorClock msg)
    (hall : ∀ u t, (∀ r, (u.process r).main = (s.process r).main) → allowed u t) :
    ((lcbSystem cfg).restrict allowed).Reachable (s.set p ((s.process p).afterCount msg)) := by
  have hinv := lcbInv_of_reachable hs.of_restrict
  have hwf := (hinv.process p hp).wellFormed
  have hfits := hinv.broadcast.fits hmem
  have hsame : ∀ P : LcbProcess, P.main = (s.process p).main → ∀ t, allowed (s.set p P) t := by
    intro P hmain t
    apply hall
    intro r
    by_cases hr : r = p
    · rw [hr, LcbSystem.set_process_self, hmain]
    · rw [LcbSystem.set_process_of_ne s P hr]
  have htest : receiverNext (s.process p).data (.testing msg) =
      ((s.process p).data, .updating msg .direct) := by
    simp [receiverNext, receiverStep, testVecClock_eq hwf hfits, hready]
  have hcount : receiverNext (s.process p).data (.updating msg .direct) =
      (((s.process p).afterCount msg).data, ((s.process p).afterCount msg).receiver) := by
    simp [receiverNext, receiverStep, updateVecClock_eq hwf hfits.isPid, noteDelivery,
      LcbProcess.afterCount]
  have htested : ReceiverRun ((s.process p).data, .testing msg)
      ((s.process p).data, .updating msg .direct) := .single htest.symm
  -- Two sections of `deliver_lcb`: the test, which accepts, and the increment.
  have hrun := steps_of_receiverRun allowed hp (s := s.set p { s.process p with
      receiver := .testing msg
      handed := (s.process p).handed ++ [msg] })
    (by
      intro data receiver t
      rw [LcbSystem.set_set, LcbSystem.set_process_self]
      refine hsame _ ?_ t
      rfl)
    ((s.process p).afterCount msg).data ((s.process p).afterCount msg).receiver
    (by
      rw [LcbSystem.set_process_self]
      exact htested.tail hcount.symm)
  rw [LcbSystem.set_set, LcbSystem.set_process_self] at hrun
  have hhanded := hs.step ⟨step_hand hp hidle hmem hnew, hall s _ fun _ => rfl⟩
  exact hhanded.steps hrun

theorem Reachable.count (msg : LcbMsg) (hs : (lcbSystem cfg).Reachable s) (hp : cfg.IsPid p)
    (hidle : (s.process p).receiver = .idle) (hmem : msg ∈ s.broadcast)
    (hnew : msg ∉ (s.process p).handed) (hready : Ready cfg (s.process p).data.vectorClock msg) :
    (lcbSystem cfg).Reachable (s.set p ((s.process p).afterCount msg)) :=
  (Reachable.count_allowed msg (hs.restrict fun _ _ => trivial) hp hidle hmem hnew hready
    fun _ _ _ => trivial).of_restrict

end Runs

end CausalBroadcast
