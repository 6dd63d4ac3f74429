import CausalBroadcast.Causal.Simulation
import CausalBroadcast.Stack.Invariant

/-!
# Whole calls and their sections

The system of `Reliable/System.lean` runs `deliver_lcb` as one call.  Its runs are
runs of the stack in which the receiver thread goes through `deliver_lcb` with
nothing in between (`stackReachable_of_netReachable`).  The states of a process that
has done something undefined, or whose receiver thread is in a loop that does not
end, have no counterpart: the whole call leaves no data, or none that is final.
-/

namespace CausalBroadcast

/-! ## The sections of one call -/

/-- The process with another state of the causal layer. -/
def StackProcess.withLcb (S : StackProcess) (lcb : Lcb) (receiver : Receiver) : StackProcess :=
  { S with net := { S.net with data := { S.net.data with lcb := lcb } }, receiver := receiver }

/-- Where the sections of `deliver_lcb` have brought the process `S`. -/
def Reached (S : StackProcess) (lcb : Lcb) : Receiver → StackProcess → Prop
  | .exited, S' => ∃ code, S'.net =
      { S.net with data := { S.net.data with lcb := lcb }, status := .exited code }
  | receiver, S' => S' = S.withLcb lcb receiver

/-- Sections of `deliver_lcb` with nothing in between. -/
abbrev DeliverRun := Relation.ReflTransGen fun S S' : StackProcess =>
  S.net.status = .running ∧ StackStep S .deliver S'

theorem reached_of_live {S S' : StackProcess} {lcb : Lcb} {receiver : Receiver}
    (hlive : receiver ≠ .exited) : Reached S lcb receiver S' ↔ S' = S.withLcb lcb receiver := by
  cases receiver with
  | exited => exact absurd rfl hlive
  | _ => exact Iff.rfl

theorem deliverRun_of_receiverRun {S : StackProcess} (hrunning : S.net.status = .running)
    {target : Lcb × Receiver} (hrun : ReceiverRun (S.net.data.lcb, S.receiver) target)
    (hstart : S.receiver ≠ .exited) (hdefined : target.2 ≠ .undefined) :
    ∃ S', DeliverRun S S' ∧ Reached S target.1 target.2 S' := by
  induction hrun with
  | refl => exact ⟨S, .refl, (reached_of_live hstart).mpr rfl⟩
  | @tail middle target hrun hnext ih =>
      subst hnext
      obtain ⟨lcb, receiver⟩ := middle
      have hmiddle : receiver ≠ .undefined := by
        rintro rfl
        exact hdefined rfl
      obtain ⟨S', hsteps, hreached⟩ := ih hmiddle
      by_cases hexited : receiver = .exited
      · subst hexited
        exact ⟨S', hsteps, hreached⟩
      · rw [reached_of_live hexited] at hreached
        subst hreached
        by_cases hidle : receiver = .idle
        · subst hidle
          exact ⟨_, hsteps, rfl⟩
        · -- one more section
          have hstep : StackStep (S.withLcb lcb receiver) .deliver
              (S.withLcb lcb receiver).deliver := .deliver hidle
          refine ⟨_, hsteps.tail ⟨hrunning, hstep⟩, ?_⟩
          have hlive : receiver.Live := by
            cases receiver with
            | exited => exact hexited rfl
            | undefined => exact hmiddle rfl
            | _ => trivial
          have hmeets := receiverStep_meets hlive lcb
          unfold receiverNext at hdefined
          show Reached S (receiverNext lcb receiver).1 (receiverNext lcb receiver).2
            ((S.withLcb lcb receiver).settle ((receiverStep receiver lcb).mapState _) _)
          unfold receiverNext
          cases hcase : receiverStep receiver lcb with
          | ok receiver' lcb' =>
              rw [hcase] at hmeets
              rw [reached_of_live hmeets.ne_exited]
              rfl
          | error code lcb' => exact ⟨code, rfl⟩
          | running lcb' => rw [hcase] at hmeets; exact hmeets.elim
          | undefined => rw [hcase] at hdefined; exact absurd rfl hdefined

/-- The sections of `deliver_lcb` for a message that was passed up come to what the
whole call comes to. -/
theorem deliverRun_of_deliverLcb (rounds : ℕ) {S : StackProcess}
    (hrunning : S.net.status = .running) {lcbMsg : LcbMsg}
    (hreceiver : S.receiver = .testing lcbMsg) :
    (deliverLcb rounds lcbMsg S.net.data.lcb).Meets
      (fun _ lcb => DeliverRun S (S.withLcb lcb .idle))
      (fun _ lcb => ∃ S', DeliverRun S S' ∧ ∃ code, S'.net =
        { S.net with data := { S.net.data with lcb := lcb }, status := .exited code })
      fun _ => True := by
  have hstart : S.receiver ≠ .exited := by
    rw [hreceiver]
    nofun
  have hrun := runsTo_deliverLcb rounds lcbMsg S.net.data.lcb
  rw [← hreceiver] at hrun
  cases hcase : deliverLcb rounds lcbMsg S.net.data.lcb with
  | ok value lcb =>
      rw [hcase] at hrun
      obtain ⟨S', hsteps, rfl⟩ := deliverRun_of_receiverRun hrunning hrun hstart nofun
      exact hsteps
  | error code lcb =>
      rw [hcase] at hrun
      exact deliverRun_of_receiverRun hrunning hrun hstart nofun
  | running lcb => trivial
  | undefined => trivial

/-! ## The processes -/

/-- The process `P`, whose calls are whole, and the process `S`.  Of a process that has
stopped only the data is compared. -/
structure NetMatches (P : NetProcess) (S : StackProcess) : Prop where
  data : S.net.data = P.data
  running : S.net.status = .running ↔ P.status = .running
  net : P.status = .running → S.net = P
  idle : P.status = .running → S.receiver = .idle

/-- The process has done nothing undefined, and its receiver thread is not in a loop
that does not end. -/
def NetProcess.Sane (P : NetProcess) : Prop := P.status ≠ .undefined ∧ P.receiver ≠ .stuck

instance (P : NetProcess) : Decidable P.Sane := inferInstanceAs (Decidable (_ ∧ _))

section Process

variable {P P' : NetProcess} {S : StackProcess}

/-- Both have taken the same step. -/
theorem NetMatches.of_net {S' : StackProcess} (hnet : S'.net = P') (hidle : S'.receiver = .idle) :
    NetMatches P' S' := by
  subst hnet
  exact ⟨rfl, Iff.rfl, fun _ => rfl, fun _ => hidle⟩

/-- Both have stopped. -/
theorem NetMatches.of_stopped {S' : StackProcess} (hdata : S'.net.data = P'.data)
    (hstopped : S'.net.status ≠ .running) (hstopped' : P'.status ≠ .running) :
    NetMatches P' S' :=
  ⟨hdata, iff_of_false hstopped hstopped', fun hrunning => absurd hrunning hstopped',
    fun hrunning => absurd hrunning hstopped'⟩

/-- Where the receiver thread stands after `deliver_pl`, up to `send_beb` if there is a
message for it. -/
def receiverAfter (msg : UrbMsg) : Option UrbMsg → NetReceiver
  | some newMsg => .relay msg newMsg 1
  | none => .idle

/-- What is left of a call of the receiver thread, whole or in sections. -/
theorem exists_deliverRun (machine : Machine) (hrunning : S.net.status = .running)
    (hidle : S.receiver = .idle) (msg : UrbMsg) (result : PlResult) (d : NetData)
    (hP' : P' = S.net.settle (finishPl machine result d)
      (fun newMsg P => P.setReceiver (receiverAfter msg newMsg)) fun P => P.setReceiver .stuck)
    (hsane : P'.Sane) :
    ∃ S', DeliverRun (StackProcess.goOn { S with net := { S.net with data := d } } msg result) S' ∧
      NetMatches P' S' := by
  cases result with
  | done => exact ⟨_, .refl, .of_net hP'.symm hidle⟩
  | relay newMsg => exact ⟨_, .refl, .of_net hP'.symm hidle⟩
  | pass lcbMsg =>
      have hrun := deliverRun_of_deliverLcb machine.rounds
        (S := StackProcess.goOn { S with net := { S.net with data := d } } msg (.pass lcbMsg))
        hrunning rfl
      have hP' : P' = S.net.settle
          ((((deliverLcb machine.rounds lcbMsg d.lcb).mapState
            fun lcb => { d with lcb := lcb }).andThen fun _ => pure none) :
              Outcome ErrorCode NetData (Option UrbMsg))
          (fun newMsg P => P.setReceiver (receiverAfter msg newMsg))
          fun P => P.setReceiver .stuck := hP'
      have hlcb : (deliverLcb machine.rounds lcbMsg d.lcb).Meets _ _ _ := hrun
      cases hcase : deliverLcb machine.rounds lcbMsg d.lcb with
      | ok value lcb =>
          rw [hcase] at hP' hlcb
          exact ⟨_, hlcb, .of_net hP'.symm rfl⟩
      | error code lcb =>
          rw [hcase] at hP' hlcb
          obtain ⟨S', hsteps, code', hnet⟩ := hlcb
          refine ⟨S', hsteps, .of_stopped ?_ ?_ ?_⟩
          · rw [hnet, hP']
            rfl
          · rw [hnet]
            nofun
          · rw [hP']
            nofun
      -- A call that never returns, or runs into undefined behaviour, is excluded by `Sane`.
      | running lcb =>
          rw [hcase] at hP'
          rw [hP'] at hsane
          exact absurd rfl hsane.2
      | undefined =>
          rw [hcase] at hP'
          rw [hP'] at hsane
          exact absurd rfl hsane.1

/-- A whole call of the receiver thread. -/
theorem exists_callRun {α : Type} {outcome : Outcome ErrorCode NetData α} (machine : Machine)
    (hrunning : S.net.status = .running) (hidle : S.receiver = .idle) (msg : UrbMsg)
    (result : α → PlResult)
    (hP' : P' = S.net.settle (outcome.andThen fun value => finishPl machine (result value))
      (fun newMsg P => P.setReceiver (receiverAfter msg newMsg)) fun P => P.setReceiver .stuck)
    (hsane : P'.Sane) :
    ∃ S', DeliverRun (S.settle outcome fun value S => S.goOn msg (result value)) S' ∧
      NetMatches P' S' := by
  cases outcome with
  | ok value d => exact exists_deliverRun machine hrunning hidle msg (result value) d hP' hsane
  | error code d =>
      refine ⟨_, .refl, .of_stopped ?_ nofun ?_⟩
      · rw [hP']
        rfl
      · rw [hP']
        nofun
  | running d =>
      rw [hP'] at hsane
      exact absurd rfl hsane.2
  | undefined =>
      rw [hP'] at hsane
      exact absurd rfl hsane.1

theorem deliverBeb_callRun (machine : Machine) (msg : Msg)
    (hrunning : S.net.status = .running) (hidle : S.receiver = .idle)
    (hsane : (S.net.deliverBeb machine msg).Sane) :
    ∃ S', DeliverRun (S.deliverBeb machine msg) S' ∧
      NetMatches (S.net.deliverBeb machine msg) S' := by
  refine exists_callRun machine hrunning hidle msg.urbMsg id ?_ hsane
  unfold NetProcess.deliverBeb
  rw [deliverPlEnd_eq, Call.bind_apply]
  congr 1

theorem finish_callRun (machine : Machine) (msg : UrbMsg)
    (hrunning : S.net.status = .running) (hidle : S.receiver = .idle)
    (hsane : (S.net.finish machine msg).Sane) :
    ∃ S', DeliverRun (S.finish machine msg) S' ∧ NetMatches (S.net.finish machine msg) S' := by
  refine exists_callRun machine hrunning hidle msg .ofPassed ?_ hsane
  unfold NetProcess.finish
  rw [deliverUrbEnd_eq, Call.bind_apply]
  cases passLcb machine msg S.net.data with
  | ok passed d =>
      cases passed with
      | none => rfl
      | some lcbMsg =>
          show S.net.settle ((deliverLcb machine.rounds lcbMsg d.lcb).mapState _) _ _ =
            S.net.settle (((deliverLcb machine.rounds lcbMsg d.lcb).mapState _).andThen _) _ _
          cases deliverLcb machine.rounds lcbMsg d.lcb <;> rfl
  | error code d => rfl
  | running d => rfl
  | undefined => rfl

end Process

/-! ## The run -/

section Run

variable {cfg : Membership} {numMsg : ℕ → ℕ} {allowed : NetAction → Prop} {n n' : NetSystem}
  {s : StackSystem} {p : ℕ}

/-- Steps of `p` alone are steps of the system. -/
theorem steps_of_deliverRun (hp : cfg.IsPid p) {S S' : StackProcess} (hrun : DeliverRun S S') :
    (stackSystem cfg numMsg).Steps (Function.update s p S) (Function.update s p S') := by
  induction hrun with
  | refl => exact .refl
  | @tail S₁ S₂ _ hnext ih =>
      refine ih.tail ⟨p, .deliver, hp, ?_, nofun, ?_, fun q hq => ?_⟩
      · rw [Function.update_self]
        exact hnext.1
      · rw [Function.update_self, Function.update_self]
        exact hnext.2
      · rw [Function.update_of_ne hq, Function.update_of_ne hq]

/-- A step with whole calls is matched by steps with sections. -/
theorem exists_steps_of_netStep (h : ∀ q, NetMatches (n q) (s q)) {action : NetAction}
    (hstep : NetSystemStep cfg n p action n') (hsane : (n' p).Sane) :
    ∃ s', (stackSystem cfg numMsg).Steps s s' ∧ ∀ q, NetMatches (n' q) (s' q) := by
  have hp := hstep.isPid
  have hnet : (s p).net = n p := (h p).net hstep.running
  have hidle : (s p).receiver = .idle := (h p).idle hstep.running
  have hrunning : (s p).net.status = .running := (h p).running.mpr hstep.running
  -- it is enough to match the step of `p`
  suffices hprocess : ∃ middle S', StackStep (s p) (.net action) middle ∧ DeliverRun middle S' ∧
      NetMatches (n' p) S' by
    obtain ⟨middle, S', hfirst, hrun, hmatches⟩ := hprocess
    refine ⟨Function.update s p S', .head ?_ (steps_of_deliverRun hp hrun), fun q => ?_⟩
    · refine ⟨p, .net action, hp, hrunning, fun sendto msg haction => ?_, ?_,
        fun q hq => Function.update_of_ne hq ..⟩
      · obtain ⟨r, hr, hsent⟩ := hstep.network sendto msg (by injection haction)
        refine ⟨r, hr, ?_⟩
        show (p, msg) ∈ (s r).net.data.sent
        rw [(h r).data]
        exact hsent
      · rw [Function.update_self]
        exact hfirst
    · by_cases hqp : q = p
      · subst hqp
        rw [Function.update_self]
        exact hmatches
      · rw [Function.update_of_ne hqp, hstep.frame q hqp]
        exact h q
  have hkind := hstep.step
  rw [← hnet] at hkind
  generalize hP' : n' p = P' at hkind hsane
  by_cases hlower : action.Lower
  · exact ⟨_, _, .lower hlower hkind, .refl, .of_net rfl hidle⟩
  cases hkind with
  | copy hmain hi => exact ⟨_, _, .copy hmain hi, .refl, .of_net rfl hidle⟩
  | receive machine sendto msg hreceiver =>
      exact ⟨_, _, .receive machine sendto msg hreceiver hidle, .refl, .of_net rfl hidle⟩
  | @deliverBeb msg machine hreceiver =>
      obtain ⟨S', hrun, hmatches⟩ := deliverBeb_callRun machine msg hrunning hidle hsane
      exact ⟨_, S', .deliverBeb machine hreceiver, hrun, hmatches⟩
  | @finish msg newMsg k machine hreceiver hk =>
      obtain ⟨S', hrun, hmatches⟩ := finish_callRun machine msg hrunning hidle hsane
      exact ⟨_, S', .finish machine hreceiver hk, hrun, hmatches⟩
  | _ => exact absurd trivial hlower

theorem exists_netMatches (hn : (netSystem cfg numMsg allowed).Reachable n)
    (hsane : ∀ q, cfg.IsPid q → (n q).Sane) :
    ∃ s, (stackSystem cfg numMsg).Reachable s ∧ ∀ q, NetMatches (n q) (s q) := by
  refine hn.simulate (R := fun n (s : StackSystem) => ∀ q, NetMatches (n q) (s q))
    (B := fun n => ∀ q, cfg.IsPid q → (n q).Sane) ?_ ?_ ?_ hsane
  · rintro _ rfl
    exact ⟨_, rfl, fun q => .of_net rfl rfl⟩
  · rintro n n' - ⟨p, action, -, hstep⟩ hsane q hq
    by_cases hqp : q = p
    · subst hqp
      refine ⟨fun hundefined => ?_, fun hstuck =>
        (hsane q hq).2 (hstep.step.receiver_stuck hstuck)⟩
      have hrunning := hstep.running
      rw [hundefined] at hrunning
      cases hrunning
    · rw [← hstep.frame q hqp]
      exact hsane q hq
  · rintro n n' s - - h ⟨p, action, -, hstep⟩ hsane
    exact exists_steps_of_netStep h hstep (hsane p hstep.isPid)

end Run

/-! ## The exchange of one message -/

theorem exchanged_sane {p : ℕ} (hp : fifoMembership.IsPid p) : (exchanged p).Sane := by
  have hlast : p ≤ 2 := hp.2
  have hfirst : 1 ≤ p := hp.1
  rcases (show p = 1 ∨ p = 2 by omega) with rfl | rfl
  · decide +kernel
  · decide +kernel

end CausalBroadcast
