import CausalBroadcast.Reliable.Changes
import CausalBroadcast.Stack.Threads

/-!
# What no datagram takes back

The invariants of `Stack/Invariant.lean` are about datagrams that some process has
sent.  What is here holds whatever a process receives: a step adds to the datagrams
it has sent, and leaves the messages that it has marked seen marked.  The urb table
would lose marks when it grows, but an id for which it had to grow is refused or
lets the growth loop run past its memory, so no call returns with a grown table.
-/

namespace CausalBroadcast

/-- `d'` comes after `d` in the run of a process. -/
structure Onward (d d' : NetData) : Prop where
  sent : d.sent <+: d'.sent
  seen : 0 < d.urbTable.totalEntries → d.urbTable.totalEntries < 2 ^ 32 →
    d'.urbTable.totalEntries = d.urbTable.totalEntries ∧ ∀ s, Seen d s → Seen d' s

section Onward

variable {d d' d'' : NetData}

theorem Onward.refl (d : NetData) : Onward d d :=
  ⟨List.prefix_refl _, fun _ _ => ⟨rfl, fun _ => id⟩⟩

theorem Onward.trans (h : Onward d d') (h' : Onward d' d'') : Onward d d'' := by
  refine ⟨h.sent.trans h'.sent, fun hpos hlt => ?_⟩
  obtain ⟨htotal, hseen⟩ := h.seen hpos hlt
  rw [← htotal] at hpos hlt
  obtain ⟨htotal', hseen'⟩ := h'.seen hpos hlt
  exact ⟨htotal'.trans htotal, fun s hs => hseen' s (hseen s hs)⟩

instance : Std.Refl Onward := ⟨.refl⟩

instance : IsTrans NetData Onward := ⟨fun _ _ _ => .trans⟩

/-- Neither what was sent nor the urb table has changed. -/
theorem Onward.of_eq (h : (d'.sent, d'.urbTable) = (d.sent, d.urbTable)) : Onward d d' := by
  obtain ⟨hsent, htable⟩ := Prod.mk.inj h
  refine ⟨by rw [hsent], fun _ _ => ⟨by rw [htable], fun s hs => ?_⟩⟩
  unfold Seen
  rw [htable]
  exact hs

end Onward

/-! ## The calls -/

/-- The part of the data that most calls leave alone. -/
abbrev sentAndSeen (d : NetData) : List (ℕ × Msg) × UrbTable := (d.sent, d.urbTable)

/-- The call leads onward. -/
abbrev LeadsOn {α : Type} (call : NetCall α) : Prop := call.Moves Onward fun _ => True

section Calls

open Call.Moves

theorem leadsOn_of_frames {α : Type} {call : NetCall α} (h : call.Frames sentAndSeen) :
    LeadsOn call := Call.Moves.of_frames h fun _ _ => Onward.of_eq

theorem leadsOn_onLcb {α : Type} (call : LcbCall α) : LeadsOn (onLcb call) :=
  leadsOn_of_frames (.on (by intros; rfl) call)

theorem leadsOn_onTaskQ {α : Type} (call : QueueCall QueueTask α) : LeadsOn (onTaskQ call) :=
  leadsOn_of_frames (.on (by intros; rfl) call)

theorem leadsOn_setAckUrb (machine : Machine) (mid : ℕ) : LeadsOn (setAckUrb machine mid) :=
  leadsOn_of_frames (.on (by intros; rfl) _)

theorem leadsOn_noteSendBeb (msg : UrbMsg) : LeadsOn (noteSendBeb msg) :=
  leadsOn_of_frames (.modify fun _ => rfl)

/-- A mark that leaves `seen` set. -/
theorem leadsOn_addUrb (machine : Machine) (s : ℕ) (mark : UrbEntry → UrbEntry)
    (hmark : ∀ entry, entry.seen ≠ 0 → (mark entry).seen ≠ 0) :
    LeadsOn (onUrbTable (addUrb machine.rounds s mark)) := by
  intro d
  by_cases hsize : 0 < d.urbTable.totalEntries ∧ d.urbTable.totalEntries < 2 ^ 32
  · refine (onUrbTable_meets machine s hsize.1 hsize.2 mark).mono ?_ ?_ ?_
    · rintro _ _ ⟨-, hlt, rfl⟩
      refine ⟨List.prefix_refl _, fun _ _ => ⟨rfl, fun k hk => ?_⟩⟩
      unfold Seen at hk ⊢
      rw [isSeenUrb_mark hlt]
      split
      · rename_i hks
        rw [hks, isSeenUrb, if_neg (not_le.mpr hlt)] at hk
        exact hmark _ hk
      · exact hk
    · rintro _ _ ⟨-, -, rfl⟩
      exact ⟨trivial, .refl _⟩
    · rintro _ ⟨-, rfl⟩
      exact .refl _
  · -- a table without a size says nothing
    have hsent : (onUrbTable (addUrb machine.rounds s mark)).Frames NetData.sent :=
      .on (by intros; rfl) _
    have honward : ∀ d', d'.sent = d.sent → Onward d d' := fun d' h =>
      ⟨by rw [h], fun hpos hlt => absurd ⟨hpos, hlt⟩ hsize⟩
    exact (hsent d).mono (fun _ _ => honward _) (fun _ _ h => ⟨trivial, honward _ h⟩)
      fun _ => honward _

/-- `sendto` adds to what was sent. -/
theorem leadsOn_sendFl (sendto : Bool) (dest : ℕ) (msg : Msg) :
    LeadsOn (sendFl sendto dest msg) := by
  have hgetAddr : LeadsOn (getAddr dest) :=
    state.bind fun _ => .ite (fail trivial)
      (.ite undef (pure _))
  refine hgetAddr.bind fun _ => .ite ?_ (fail trivial)
  exact Call.Moves.modify fun d =>
    ⟨List.prefix_append .., fun _ _ => ⟨rfl, fun _ => id⟩⟩

theorem leadsOn_sendBebBody (msg : UrbMsg) (i : ℕ) : LeadsOn (sendBebBody msg i) :=
  state.bind fun _ => .ite (pure _)
    ((leadsOn_onTaskQ _).bind fun _ => leadsOn_of_frames (.modify fun _ => rfl))

theorem leadsOn_sendUrb (machine : Machine) (i : ℕ) (msg : LcbMsg) :
    LeadsOn (sendUrb machine i msg) := by
  refine Call.Moves.bind (leadsOn_of_frames (.modify fun _ => rfl)) fun _ => state.bind fun d => ?_
  refine (leadsOn_addUrb machine _ .see fun _ _ => one_ne_zero).bind fun _ => ?_
  refine (leadsOn_setAckUrb machine _).bind fun _ => (leadsOn_onLcb _).bind fun _ => ?_
  exact (leadsOn_noteSendBeb _).bind fun _ => pure _

theorem leadsOn_sendPlBody (sendto : Bool) (task : QueueTask) (i : ℕ) :
    LeadsOn (sendPlBody sendto task i) :=
  .ite ((leadsOn_onTaskQ _).bind fun _ => pure _)
    ((leadsOn_sendFl sendto _ _).bind fun _ => pure _)

theorem leadsOn_passLcb (machine : Machine) (msg : UrbMsg) : LeadsOn (passLcb machine msg) := by
  refine state.bind fun d => (access _).bind fun majority => ?_
  refine .ite ?_ (pure _)
  refine (leadsOn_addUrb machine _ .deliver fun _ => id).bind fun _ => ?_
  exact Call.Moves.bind (leadsOn_of_frames (.modify fun _ => rfl)) fun _ => pure _

theorem leadsOn_startUrb (machine : Machine) (msg : UrbMsg) : LeadsOn (startUrb machine msg) := by
  have hstart : LeadsOn (deliverUrbStart machine msg) := by
    refine (leadsOn_setAckUrb machine _).bind fun _ => state.bind fun d => ?_
    refine .ite ?_ (pure _)
    refine (leadsOn_addUrb machine _ .see fun _ _ => one_ne_zero).bind fun _ => ?_
    refine (leadsOn_setAckUrb machine _).bind fun _ => ?_
    exact (leadsOn_noteSendBeb _).bind fun _ => pure _
  refine hstart.bind fun newMsg => ?_
  cases newMsg with
  | some newMsg => exact pure _
  | none => exact (leadsOn_passLcb machine msg).bind fun _ => pure _

theorem leadsOn_deliverPlStart (machine : Machine) (sendto : Bool) (msg : Msg) :
    LeadsOn (deliverPlStart machine sendto msg) := by
  refine .ite ?_ ?_
  · exact Call.Moves.bind (leadsOn_of_frames (.on (by intros; rfl) _)) fun _ => pure _
  · have hack : LeadsOn (sendAck sendto msg) := state.bind fun d => leadsOn_sendFl sendto _ _
    exact hack.bind fun _ => pure _

theorem leadsOn_startBeb (machine : Machine) (msg : Msg) : LeadsOn (startBeb machine msg) := by
  have hrecord : LeadsOn (recordDelivery machine msg) := by
    refine state.bind fun d => .ite ?_ (pure _)
    refine Call.Moves.bind (leadsOn_of_frames (.on (by intros; rfl) _)) fun _ => ?_
    exact Call.Moves.bind (leadsOn_of_frames (.modify fun _ => rfl)) fun _ => pure _
  exact hrecord.bind fun fresh => .ite (leadsOn_startUrb machine _) (pure _)

end Calls

/-! ## The steps -/

section Steps

/-- A call of a thread that keeps the data that the call leaves. -/
theorem LeadsOn.settle {α : Type} {P : NetProcess} {call : NetCall α} (h : LeadsOn call)
    {ok : α → NetProcess → NetProcess} {stuck : NetProcess → NetProcess}
    (hok : ∀ value Q, (ok value Q).data = Q.data) (hstuck : ∀ Q, (stuck Q).data = Q.data) :
    Onward P.data (P.settle (call P.data) ok stuck).data := by
  have hcall := h P.data
  unfold NetProcess.settle
  cases hcase : call P.data with
  | ok value d =>
      rw [hcase] at hcall
      rw [hok]
      exact hcall
  | error code d => rw [hcase] at hcall; exact hcall.2
  | running d =>
      rw [hcase] at hcall
      rw [hstuck]
      exact hcall
  | undefined => exact .refl _

theorem LeadsOn.stackSettle {α : Type} {P : StackProcess} {call : NetCall α} (h : LeadsOn call)
    {ok : α → StackProcess → StackProcess}
    (hok : ∀ value Q, (ok value Q).net.data = Q.net.data) :
    Onward P.net.data (P.settle (call P.net.data) ok).net.data := by
  have hcall := h P.net.data
  unfold StackProcess.settle
  cases hcase : call P.net.data with
  | ok value d =>
      rw [hcase] at hcall
      rw [hok]
      exact hcall
  | error code d => rw [hcase] at hcall; exact hcall.2
  | running d => rw [hcase] at hcall; exact hcall
  | undefined => exact .refl _

theorem onward_of_netStep {P P' : NetProcess} {action : NetAction} (hlower : action.Lower)
    (hstep : NetStep P action P') : Onward P.data P'.data := by
  cases hstep with
  | copy hmain hi => exact hlower.elim
  | broadcast machine hmain =>
      exact (leadsOn_sendUrb machine _ _).settle (fun _ _ => rfl) fun _ => rfl
  | bebMain hmain hk => exact (leadsOn_sendBebBody _ _).settle (fun _ _ => rfl) fun _ => rfl
  | next hmain hk => exact .refl _
  | receive machine sendto msg => exact hlower.elim
  | deliverBeb machine hreceiver => exact hlower.elim
  | bebReceiver hreceiver hk =>
      exact (leadsOn_sendBebBody _ _).settle (fun _ _ => rfl) fun _ => rfl
  | finish machine hreceiver => exact hlower.elim
  | dequeue =>
      refine (leadsOn_onTaskQ _).settle (fun task Q => ?_) fun _ => rfl
      cases task <;> rfl
  | test =>
      unfold NetProcess.test
      split <;> exact .refl _
  | @attempt j i task sendto hj hsender =>
      have hcall := leadsOn_sendPlBody sendto task i P.data
      unfold NetProcess.attempt
      cases hcase : sendPlBody sendto task i P.data with
      | ok round d => rw [hcase] at hcall; exact hcall
      | error code d => rw [hcase] at hcall; exact hcall.2
      | running d => rw [hcase] at hcall; exact hcall
      | undefined => exact .refl _
  | crash => exact .refl _

/-- A step of a process leads onward, whatever the datagrams that it receives. -/
theorem StackStep.onward {P P' : StackProcess} {action : StackAction}
    (hstep : StackStep P action P') : Onward P.net.data P'.net.data := by
  have hgoOn : ∀ (msg : UrbMsg) (result : PlResult) (Q : StackProcess),
      (Q.goOn msg result).net.data = Q.net.data := by
    intro msg result Q
    cases result <;> rfl
  cases hstep with
  | lower hlower hstep => exact onward_of_netStep hlower hstep
  | copy hmain hi => exact (leadsOn_onLcb _).settle (fun _ _ => rfl) fun _ => rfl
  | receive machine sendto msg hnet hidle =>
      exact (leadsOn_deliverPlStart machine sendto msg).settle (fun _ _ => rfl) fun _ => rfl
  | deliverBeb machine hnet =>
      exact (leadsOn_startBeb machine _).stackSettle fun _ _ => hgoOn ..
  | finish machine hnet hk =>
      exact (leadsOn_passLcb machine _).stackSettle fun _ _ => hgoOn ..
  | deliver hbusy => exact (leadsOn_onLcb _).stackSettle fun _ _ => rfl

end Steps

end CausalBroadcast
