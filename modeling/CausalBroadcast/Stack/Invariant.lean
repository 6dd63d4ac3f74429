import CausalBroadcast.Causal.Invariant
import CausalBroadcast.Reliable.Safety
import CausalBroadcast.Stack.Threads

/-!
# The layers below, with the sections of `deliver_lcb`

The invariant of the data and of the threads (`Reliable/Invariant.lean`,
`Reliable/Safety.lean`) holds in every reachable state of the whole stack as well.
Only the calls that were cut have to be looked at again: `startBeb`, `passLcb` and the
sections of `deliver_lcb`, which touch nothing but the causal layer.
-/

namespace CausalBroadcast

/-! ## The sections of `deliver_lcb` -/

/-- The receiver thread has not ended in `deliver_lcb`. -/
def Receiver.Live : Receiver → Prop
  | .exited => False
  | .undefined => False
  | _ => True

theorem Receiver.Live.ne_undefined {receiver : Receiver} (h : receiver.Live) :
    receiver ≠ .undefined := by
  rintro rfl
  exact h

theorem Receiver.Live.ne_exited {receiver : Receiver} (h : receiver.Live) :
    receiver ≠ .exited := by
  rintro rfl
  exact h

theorem Receiver.Quiet.live {receiver : Receiver} (h : receiver.Quiet) : receiver.Live := by
  cases receiver with
  | exited => exact h
  | undefined => exact h
  | _ => trivial

/-- A section of `deliver_lcb` has no loop, and the thread goes on after it. -/
theorem receiverStep_meets {receiver : Receiver} (hlive : receiver.Live) (data : Lcb) :
    (receiverStep receiver data).Meets (fun receiver' _ => receiver'.Live) (fun _ _ => True)
      fun _ => False := by
  cases receiver with
  | idle => trivial
  | exited => exact hlive
  | undefined => exact hlive
  | testing msg =>
      simp only [receiverStep, Call.bind_apply]
      rcases testVecClock_cases msg.vecClock msg.originalSender data with htest | ⟨accepted, htest⟩
      · rw [htest]
        trivial
      · rw [htest, Outcome.ok_andThen]
        cases accepted with
        | true => trivial
        | false =>
            simp only [Bool.false_eq_true, if_false, addPendingLcb, Call.bind_apply,
              Call.state_apply, Outcome.ok_andThen, Call.ite_apply]
            split
            · trivial
            · split <;> trivial
  | updating msg site =>
      simp only [receiverStep, updateVecClock, Call.bind_apply, Call.state_apply,
        Outcome.ok_andThen, Call.ite_apply]
      split
      · trivial
      · cases readEntry data.vectorClock msg.originalSender <;> trivial
  | logging msg seq site =>
      cases site with
      | direct => trivial
      | pending i k =>
          simp only [receiverStep, logDeliverLcb, Call.bind_apply, Call.modify_apply,
            Outcome.ok_andThen, Call.state_apply]
          cases cursorAt _ (k + 1) <;> trivial
  | calling => exact (quiet_turnTo data 0 false).live
  -- One node, not the loop: `find_pending` is cut at each node.
  | scanning i ptr foundOne =>
      cases ptr with
      | null => exact (quiet_turnTo data (i + 1) foundOne).live
      | freed => trivial
      | node k =>
          simp only [receiverStep, Call.bind_apply, Call.state_apply, Outcome.ok_andThen]
          cases (pendingList data i)[k]? with
          | none => trivial
          | some clock =>
              rw [Call.access_some, Outcome.ok_andThen, Call.bind_apply]
              rcases testVecClock_cases clock (i + 1) data with htest | ⟨accepted, htest⟩
              · rw [htest]
                trivial
              · rw [htest, Outcome.ok_andThen]
                cases accepted <;> trivial

/-! ## The calls that were cut -/

open Call.Moves in
theorem keepsProcess_receiverStep (receiver : Receiver) : KeepsProcess (receiverStep receiver) := by
  cases receiver with
  | idle => exact .pure _
  | exited => exact .pure _
  | undefined => exact .pure _
  | testing msg =>
      exact (keepsProcess_testVecClock _ _).bind fun _ => .ite (.pure _)
        ((keepsProcess_addPendingLcb _ _).bind fun _ => .pure _)
  | updating msg site =>
      exact (keepsProcess_updateVecClock _).bind fun _ =>
        (keepsProcess_noteDelivery msg).bind fun _ => .pure _
  | logging msg seq site =>
      cases site with
      | direct => exact (keepsProcess_logDeliverLcb _ _).bind fun _ => .pure _
      | pending i k =>
          exact (keepsProcess_logDeliverLcb _ _).bind fun _ => state.bind fun _ =>
            (keepsProcess_removeVeclist _ _).bind fun _ => .pure _
  | calling => exact state.bind fun _ => .pure _
  | scanning i ptr foundOne =>
      cases ptr with
      | null => exact state.bind fun _ => .pure _
      | freed => exact undef
      | node k =>
          exact state.bind fun _ => (access _).bind fun _ =>
            (keepsProcess_testVecClock _ _).bind fun _ => .pure _

section PassLcb

variable (machine : Machine) {d : NetData}

/-- What `passLcb` does with a message that is delivered. -/
def PassedOn (d : NetData) (msg : UrbMsg) (d' : NetData) : Prop :=
  canDeliver d.urbacks msg.seenId = some true ∧ isDeliveredUrb d.urbTable msg.seenId = 0 ∧
    msg.seenId < d.urbTable.totalEntries ∧ d' = { d with
      urbTable := d.urbTable.mark msg.seenId .deliver
      deliveredLcb := d.deliveredLcb ++ [msg] }

theorem PassedOn.passedUp {msg : UrbMsg} {d' : NetData} (h : PassedOn d msg d') :
    PassedUp d msg d' := by
  obtain ⟨hmajority, hnot, hsize, rfl⟩ := h
  exact ⟨hmajority, hnot, hsize, d.lcb, ⟨rfl, rfl⟩, rfl⟩

theorem passLcb_meets (hpos : 0 < d.urbTable.totalEntries)
    (hlt : d.urbTable.totalEntries < 2 ^ 32) (msg : UrbMsg) :
    (passLcb machine msg d).Meets
      (fun passed d' => match passed with
        | some lcbMsg => lcbMsg = msg.lcbMsg ∧ PassedOn d msg d'
        | none => d' = d)
      (fun _ d' => d' = d) (fun d' => d' = d) := by
  simp only [passLcb, Call.bind_apply, Call.state_apply, Outcome.ok_andThen]
  cases hmajority : canDeliver d.urbacks msg.seenId with
  | none => trivial
  | some majority =>
      simp only [Call.access_some, Outcome.ok_andThen, Call.ite_apply]
      by_cases hdeliver : majority = true ∧ isDeliveredUrb d.urbTable msg.seenId = 0
      · obtain ⟨rfl, hdelivered⟩ := hdeliver
        rw [if_pos ⟨rfl, hdelivered⟩, Call.bind_apply]
        refine (addDeliveredUrb_meets machine msg.seenId hpos hlt).andThen
          (fun _ _ h => h.2.2) (fun _ h => h.2) ?_
        rintro _ _ ⟨-, hsize, rfl⟩
        exact ⟨rfl, hmajority, hdelivered, hsize, rfl⟩
      · rw [if_neg hdeliver]
        rfl

end PassLcb

/-! ## The invariant of the data -/

section Calls

variable {cfg : Membership} {W : ℕ → NetData} {p : ℕ} {d : NetData}
  (h : NetInv cfg (withData W p d)) (hp : cfg.IsPid p)
include h hp

/-- A section of `deliver_lcb`. -/
theorem NetInv.receiverStep (receiver : Receiver) :
    (onLcb (CausalBroadcast.receiverStep receiver) d).Meets
      (fun _ d' => SoundAside cfg W p d d') (fun _ d' => SoundAside cfg W p d d')
      (fun d' => SoundAside cfg W p d d') := by
  have hlcb : ∀ d', (∃ lcb, d.lcb.SameProcess lcb ∧ d' = { d with lcb := lcb }) →
      SoundAside cfg W p d d' := by
    rintro _ ⟨lcb, hsame, rfl⟩
    exact ⟨⟨.of_eq rfl (fun _ => Iff.rfl) rfl rfl rfl, List.Subset.refl _, h.setLcb hp hsame⟩, rfl⟩
  exact (onLcb_meets (keepsProcess_receiverStep receiver) d).mono (fun _ => hlcb)
    (fun _ d' hd => hlcb d' hd.2) hlcb

/-- The part of `deliver_urb` after `send_beb`, up to `deliver_lcb`. -/
theorem NetInv.passLcb {msg : UrbMsg} (hseen : Seen d msg.seenId)
    (hbroadcast : Broadcast cfg (withData W p d) msg.seenId msg.lcbMsg) (machine : Machine) :
    (CausalBroadcast.passLcb machine msg d).Meets (fun _ d' => SoundAside cfg W p d d')
      (fun _ d' => SoundAside cfg W p d d') (fun d' => SoundAside cfg W p d d') := by
  have hdata := h.dataSelf hp
  refine (passLcb_meets machine hdata.urbTable_pos hdata.urbTable_lt msg).mono ?_ ?_ ?_
  · rintro (_ | lcbMsg) d' hresult
    · obtain rfl := hresult
      exact h.sound
    · obtain ⟨hinv, hgrows⟩ := h.passUp hp hresult.2.passedUp hbroadcast hseen
      obtain ⟨-, -, -, -, rfl⟩ := hresult
      exact ⟨⟨hgrows, List.Subset.refl _, hinv⟩, rfl⟩
  · rintro code _ rfl
    exact h.sound
  · rintro _ rfl
    exact h.sound

/-- What `deliver_pl` has done for `msg` when it comes to `send_beb`, or to its end. -/
def RelaySound (msg : UrbMsg) (d' : NetData) : PlResult → Prop
  | .relay newMsg => newMsg ∈ d'.sentBeb ∧ newMsg.seenId = msg.seenId ∧
      newMsg.lcbMsg = msg.lcbMsg
  | _ => True

theorem NetInv.startUrb {r : ℕ} {msg : UrbMsg} (hr : cfg.IsPid r)
    (hmsg : Genuine cfg (withData W p d) r msg) (machine : Machine) :
    (CausalBroadcast.startUrb machine msg d).Meets
      (fun result d' => SoundAside cfg W p d d' ∧ RelaySound msg d' result)
      (fun _ d' => SoundAside cfg W p d d') (fun d' => SoundAside cfg W p d d') := by
  unfold CausalBroadcast.startUrb
  rw [Call.bind_apply]
  refine (h.deliverUrbStart hp hr hmsg machine).andThen (fun _ _ => id) (fun _ => id) ?_
  rintro (_ | newMsg) d₁ ⟨hsound, hseen, hnew⟩
  · have hbroadcast := hmsg.broadcast.mono (grows_withData hsound.grows)
    refine (hsound.inv.passLcb hp hseen hbroadcast machine).andThen (fun _ _ => hsound.trans)
      (fun _ => hsound.trans) fun passed d₂ hd => ?_
    cases passed with
    | none => exact ⟨hsound.trans hd, trivial⟩
    | some lcbMsg => exact ⟨hsound.trans hd, trivial⟩
  · exact ⟨hsound, hnew newMsg rfl⟩

/-- `deliver_pl` from `is_delivered` on, up to `send_beb` or `deliver_lcb`. -/
theorem NetInv.startBeb {m : Msg} (hm : Arrives cfg (withData W p d) p m) (machine : Machine) :
    (CausalBroadcast.startBeb machine m d).Meets
      (fun result d' => SoundAside cfg W p d d' ∧ RelaySound m.urbMsg d' result)
      (fun _ d' => SoundAside cfg W p d d') (fun d' => SoundAside cfg W p d d') := by
  refine (h.recordDelivery hp hm machine).andThen (fun _ _ => id) (fun _ => And.left) ?_
  rintro (_ | _) d₁ ⟨hsound, -⟩
  · exact ⟨hsound, trivial⟩
  · have hm₁ := hm.mono (grows_withData hsound.grows)
    exact (hsound.inv.startUrb hp hm₁.isPid hm₁.taskOf.genuine machine).mono
      (fun _ _ hd => ⟨hsound.trans hd.1, hd.2⟩) (fun _ _ => hsound.trans) fun _ => hsound.trans

end Calls

/-! ## One step -/

section Step

variable {cfg : Membership} {W : ℕ → NetData} {p : ℕ} {P : StackProcess}

/-- What holds of the outcome of a call holds of the process that settles it. -/
theorem StackProcess.settle_of_meets {α : Type} {I : StackProcess → Prop}
    {outcome : Outcome ErrorCode NetData α} {ok : α → StackProcess → StackProcess}
    (h : outcome.Meets (fun value d => I (ok value { P with net := { P.net with data := d } }))
      (fun code d => I { P with net := { P.net with data := d, status := .exited code } })
      (fun d => I { P with net := NetProcess.setReceiver { P.net with data := d } .stuck }))
    (hundefined : I { P with net := { P.net with status := .undefined } }) :
    I (P.settle outcome ok) := by
  cases outcome with
  | ok value d => exact h
  | error code d => exact h
  | running d => exact h
  | undefined => exact hundefined

/-- The invariant is kept by a call of the receiver thread that leaves sound data, if
the thread then stands at a place that fits it. -/
theorem soundStep_settle {α : Type} {outcome : Outcome ErrorCode NetData α}
    {ok : α → StackProcess → StackProcess} {Q : α → NetData → Prop}
    (h : NetInv cfg (withData W p P.net.data)) (hP : ThreadInv cfg p P.net)
    (hcall : outcome.Meets (fun value d => SoundAside cfg W p P.net.data d ∧ Q value d)
      (fun _ d => SoundAside cfg W p P.net.data d) (fun d => SoundAside cfg W p P.net.data d))
    (hok : ∀ value d, SoundAside cfg W p P.net.data d → Q value d →
      ThreadInv cfg p { P.net with data := d } →
      SoundStep cfg W p P.net (ok value { P with net := { P.net with data := d } }).net) :
    SoundStep cfg W p P.net (P.settle outcome ok).net := by
  refine StackProcess.settle_of_meets (I := fun P' => SoundStep cfg W p P.net P'.net)
    (hcall.mono ?_ ?_ ?_) (soundStep_undefined h)
  · intro value d ⟨hsound, hvalue⟩
    exact hok value d hsound hvalue (hP.aside hsound)
  · intro code d hsound
    exact hsound.toSound.stopped nofun
  · intro d hsound
    have haside := hP.aside hsound
    exact ⟨hsound.toSound, fun _ => ⟨haside.main, trivial, haside.sender⟩⟩

/-- The receiver thread goes on after its part of `deliver_pl`. -/
theorem soundStep_goOn {msg : UrbMsg} {d : NetData} (hsound : SoundAside cfg W p P.net.data d)
    {result : PlResult} (hresult : RelaySound msg d result)
    (haside : ThreadInv cfg p { P.net with data := d }) :
    SoundStep cfg W p P.net
      (StackProcess.goOn { P with net := { P.net with data := d } } msg result).net := by
  refine ⟨?_, fun _ => ?_⟩
  · cases result with
    | done => exact hsound.toSound
    | relay newMsg => exact hsound.toSound
    | pass lcbMsg => exact hsound.toSound
  · cases result with
    | done => exact ⟨haside.main, trivial, haside.sender⟩
    | relay newMsg =>
        exact ⟨haside.main, ⟨hresult.1, hresult.2.1, hresult.2.2, le_rfl⟩, haside.sender⟩
    | pass lcbMsg => exact ⟨haside.main, trivial, haside.sender⟩

variable (h : NetInv cfg (withData W p P.net.data)) (hp : cfg.IsPid p)
  (hP : ThreadInv cfg p P.net)
include h hp hP

theorem soundStep_startBeb {msg : Msg} (hm : Arrives cfg (withData W p P.net.data) p msg)
    (machine : Machine) : SoundStep cfg W p P.net (P.deliverBeb machine msg).net :=
  soundStep_settle h hP (h.startBeb hp hm machine)
    fun _ _ hsound hresult haside => soundStep_goOn hsound hresult haside

theorem soundStep_passLcb {msg newMsg : UrbMsg} {k : ℕ}
    (hnet : P.net.receiver = .relay msg newMsg k) (machine : Machine) :
    SoundStep cfg W p P.net (P.finish machine msg).net := by
  obtain ⟨hseen, hbroadcast⟩ := seen_of_relay h hp hP hnet
  refine soundStep_settle h hP (Q := fun _ _ => True)
    ((h.passLcb hp hseen hbroadcast machine).mono (fun _ _ hd => ⟨hd, trivial⟩) (fun _ _ => id)
      fun _ => id) ?_
  intro passed d hsound _ haside
  cases passed with
  | none => exact soundStep_goOn hsound (show RelaySound _ _ .done from trivial) haside
  | some lcbMsg =>
      exact soundStep_goOn hsound (show RelaySound _ _ (.pass lcbMsg) from trivial) haside

theorem soundStep_deliver : SoundStep cfg W p P.net P.deliver.net :=
  soundStep_settle h hP (Q := fun _ _ => True)
    ((h.receiverStep hp P.receiver).mono (fun _ _ hd => ⟨hd, trivial⟩) (fun _ _ => id) fun _ => id)
    fun _ _ hsound _ haside => ⟨hsound.toSound, fun _ => haside⟩

theorem StackStep.soundStep {P' : StackProcess} {action : StackAction}
    (hstep : StackStep P action P')
    (hnetwork : ∀ sendto msg, action = .net (.receive sendto msg) →
      ∃ r, cfg.IsPid r ∧ (p, msg) ∈ (withData W p P.net.data r).sent)
    (harriving : ∀ msg, P.net.receiver = .delivering msg →
      Arrives cfg (withData W p P.net.data) p msg) :
    SoundStep cfg W p P.net P'.net := by
  cases hstep with
  | lower hlower hstep =>
      refine CausalBroadcast.soundStep h hp hP hstep (fun sendto msg haction => ?_) harriving
      rw [haction] at hlower
      exact hlower.elim
  | copy hmain hi => exact soundStep_copy h hp hP hmain
  | receive machine sendto msg hnet hidle =>
      obtain ⟨r, hr, hsent⟩ := hnetwork sendto msg rfl
      exact soundStep_receive h hp hP hr hsent machine sendto
  | deliverBeb machine hnet => exact soundStep_startBeb h hp hP (harriving _ hnet) machine
  | finish machine hnet hk => exact soundStep_passLcb h hp hP hnet machine
  | deliver hbusy => exact soundStep_deliver h hp hP

end Step

/-! ## Messages on their way through `deliver_pl` -/

section Delivering

variable {P P' : StackProcess} {msg : Msg}

/-- A call that does not bring the receiver thread before `is_delivered`. -/
theorem StackProcess.settle_delivering {α : Type} {outcome : Outcome ErrorCode NetData α}
    {ok : α → StackProcess → StackProcess}
    (hok : ∀ value d, (ok value { P with net := { P.net with data := d } }).net.receiver =
      .delivering msg → P.net.receiver = .delivering msg)
    (hdelivering : (P.settle outcome ok).net.receiver = .delivering msg) :
    P.net.receiver = .delivering msg := by
  cases outcome with
  | ok value d => exact hok value d hdelivering
  | error code d => exact hdelivering
  | running d => cases hdelivering
  | undefined => exact hdelivering

theorem goOn_receiver_ne (P : StackProcess) (urbMsg : UrbMsg) (result : PlResult) :
    (P.goOn urbMsg result).net.receiver ≠ .delivering msg := by
  cases result with
  | done => intro h; cases h
  | relay newMsg => intro h; cases h
  | pass lcbMsg => intro h; cases h

/-- Only a real message that is received comes to stand before `is_delivered`. -/
theorem StackStep.to_delivering {action : StackAction} (hstep : StackStep P action P')
    (hdelivering : P'.net.receiver = .delivering msg) : P.net.receiver = .delivering msg ∨
      ∃ sendto, action = .net (.receive sendto msg) ∧ msg.mtype ≠ ackNo := by
  cases hstep with
  | lower hlower hstep =>
      refine (hstep.to_delivering hdelivering).imp_right ?_
      rintro ⟨sendto, rfl, -⟩
      exact hlower.elim
  | copy hmain hi =>
      refine (NetStep.to_delivering (.copy hmain hi) hdelivering).imp_right ?_
      rintro ⟨sendto, haction, -⟩
      cases haction
  | receive machine sendto msg' hnet hidle =>
      refine (NetStep.to_delivering (.receive machine sendto msg' hnet) hdelivering).imp_right ?_
      rintro ⟨sendto', haction, hmtype⟩
      exact ⟨sendto', congrArg StackAction.net haction, hmtype⟩
  | deliverBeb machine hnet =>
      exact .inl (StackProcess.settle_delivering
        (fun result d hafter => absurd hafter (goOn_receiver_ne _ _ result)) hdelivering)
  | finish machine hnet hk =>
      exact .inl (StackProcess.settle_delivering
        (fun passed d hafter => absurd hafter (goOn_receiver_ne _ _ _)) hdelivering)
  | deliver hbusy => exact .inl (StackProcess.settle_delivering (fun _ _ => id) hdelivering)

end Delivering

/-! ## The run -/

/-- The data of the processes. -/
def StackSystem.world (s : StackSystem) : ℕ → NetData := s.net.world

section Run

variable {cfg : Membership} {numMsg : ℕ → ℕ} {s t : StackSystem} {p : ℕ} {action : StackAction}

theorem StackSystemStep.frame_net (hstep : StackSystemStep cfg s p action t) (q : ℕ)
    (hqp : q ≠ p) : t.net q = s.net q := congrArg StackProcess.net (hstep.frame q hqp)

theorem StackSystemStep.world_eq (hstep : StackSystemStep cfg s p action t) :
    t.world = withData s.world p (t p).net.data :=
  NetSystem.world_eq hstep.frame_net

theorem SystemInv.stackStep (h : SystemInv cfg s.net) (hstep : StackSystemStep cfg s p action t) :
    SoundStep cfg s.world p (s p).net (t p).net := by
  have hself : withData s.world p (s p).net.data = s.world := withData_eq_self s.world p
  refine StackStep.soundStep (hself.symm ▸ h.net) hstep.isPid
    (h.threads p hstep.isPid hstep.running) hstep.step (fun sendto msg haction => ?_) ?_
  · rw [hself]
    exact hstep.network sendto msg haction
  · rw [hself]
    exact h.arriving p hstep.isPid hstep.running

theorem SystemInv.stackGrows (h : SystemInv cfg s.net) (hstep : StackSystemStep cfg s p action t)
    (q : ℕ) : (s.world q).Grows (t.world q) :=
  SoundStep.grows (h.stackStep hstep) hstep.frame_net q

theorem systemInv_of_stackReachable (hs : (stackSystem cfg numMsg).Reachable s) :
    SystemInv cfg s.net := by
  refine hs.invariant (I := fun s => SystemInv cfg s.net) ?_ ?_
  · rintro _ rfl
    have hinit : (netSystem cfg numMsg fun _ => True).Reachable
        fun p => NetProcess.initial cfg (numMsg p) p := .init rfl
    exact systemInv_of_reachable hinit
  · rintro s t - h ⟨p, action, hstep⟩
    refine h.change hstep.running hstep.frame_net (h.stackStep hstep) fun msg hdelivering => ?_
    rcases hstep.step.to_delivering hdelivering with hbefore | ⟨sendto, haction, hmtype⟩
    · exact .inl hbefore
    · obtain ⟨r, hr, hsent⟩ := hstep.network sendto msg haction
      exact .inr (h.net.arrives hr hsent hmtype)

/-- Rows that lie inside the tables did so before. -/
theorem inTables_of_stackStep (hs : (stackSystem cfg numMsg).Reachable s)
    (hstep : (stackSystem cfg numMsg).step s t) (hin : InTables cfg t.world) :
    InTables cfg s.world := by
  obtain ⟨p, action, hstep⟩ := hstep
  exact hin.anti ((systemInv_of_stackReachable hs).stackGrows hstep)

end Run

end CausalBroadcast
