import CausalBroadcast.Reliable.Safety

/-!
# Acknowledgements and deliveries

`deliver_pl` puts the acknowledgement of a message on the wire before it looks whether
the message was delivered.  An acknowledgement therefore says that its sender has called
`deliver_beb` for the copy that it answers, or that the receiver thread stands between
the two (`Answered`), where a crash can keep it for ever (`acknowledged_undelivered`).
The safety of perfect links is read off this and the invariant of the data.
-/

namespace CausalBroadcast

/-- The receiver thread has acknowledged the copy of `s` that `r` has sent and stands
before `is_delivered`. -/
def NetProcess.Delivering (P : NetProcess) (r s : ℕ) : Prop :=
  ∃ m, P.receiver = .delivering m ∧ m.sender = r ∧ m.urbMsg.seenId = s

/-- Every copy that process `p` has acknowledged is delivered or about to be. -/
def Answered (cfg : Membership) (p : ℕ) (P : NetProcess) : Prop :=
  ∀ r s, Acknowledged cfg P.data p r s → DeliveredFrom P.data r s ∨ P.Delivering r s

/-! ## What the steps send -/

section Frames

open Call.Frames

theorem sendUrb_sent (machine : Machine) (i : ℕ) (msg : LcbMsg) :
    Call.Frames NetData.sent (sendUrb machine i msg) := by
  refine Call.Frames.bind (modify fun _ => rfl) fun _ => state.bind fun data => ?_
  refine Call.Frames.bind (on (by exact fun _ _ => rfl) _) fun _ => ?_
  refine Call.Frames.bind (on (by exact fun _ _ => rfl) _) fun _ => ?_
  refine Call.Frames.bind (on (by exact fun _ _ => rfl) _) fun _ => ?_
  exact Call.Frames.bind (modify fun _ => rfl) fun _ => .pure _

theorem sendBebBody_sent (msg : UrbMsg) (k : ℕ) :
    Call.Frames NetData.sent (sendBebBody msg k) := by
  refine Call.Frames.bind .state fun data => ite (pure _) ?_
  exact Call.Frames.bind (on (by exact fun _ _ => rfl) _) fun _ => modify fun _ => rfl

theorem deliverUrbEnd_sent (machine : Machine) (msg : UrbMsg) :
    Call.Frames NetData.sent (deliverUrbEnd machine msg) :=
  (deliverUrbEnd_frames machine msg).map fun beside => beside.2.2.2

theorem deliverPlEnd_sent (machine : Machine) (msg : Msg) :
    Call.Frames NetData.sent (deliverPlEnd machine msg) := by
  have hstart : Call.Frames NetData.sent (deliverUrbStart machine msg.urbMsg) :=
    (deliverUrbStart_frames machine msg.urbMsg).map fun beside => beside.2.2.2
  have hrecord : Call.Frames NetData.sent (recordDelivery machine msg) := by
    refine Call.Frames.bind .state fun data => ite ?_ (pure _)
    refine Call.Frames.bind (on (by exact fun _ _ => rfl) _) fun _ => ?_
    exact Call.Frames.bind (modify fun _ => rfl) fun _ => .pure _
  refine hrecord.bind fun fresh => ite (hstart.bind fun newMsg => ?_) (pure _)
  cases newMsg with
  | some newMsg => exact pure _
  | none => exact (deliverUrbEnd_sent machine msg.urbMsg).bind fun _ => .pure _

end Frames

section Step

variable {cfg : Membership} {W : ℕ → NetData} {p : ℕ} {P P' : NetProcess} {action : NetAction}

/-- A call that sends nothing. -/
theorem settle_sent {α : Type} {call : NetCall α} (hcall : Call.Frames NetData.sent call)
    {ok : α → NetProcess → NetProcess} {stuck : NetProcess → NetProcess}
    (hok : ∀ value d, (ok value { P with data := d }).data = d)
    (hstuck : ∀ d, (stuck { P with data := d }).data = d) :
    (P.settle (call P.data) ok stuck).data.sent = P.data.sent := by
  refine NetProcess.settle_of_meets (I := fun P' => P'.data.sent = P.data.sent)
    ((hcall P.data).mono (fun value d hd => ?_) (fun _ _ => id) fun d hd => ?_) rfl
  · rw [hok]
    exact hd
  · rw [hstuck]
    exact hd

/-- Only a receiver that answers and a sender thread that attempts send anything. -/
theorem NetStep.sent_eq (hstep : NetStep P action P')
    (hreceive : ∀ sendto msg, action ≠ .receive sendto msg)
    (hattempt : ∀ sendto j, action ≠ .attempt sendto j) : P'.data.sent = P.data.sent := by
  cases hstep with
  | copy hmain hi =>
      exact settle_sent (Call.Frames.on (by exact fun _ _ => rfl) _) (fun _ _ => rfl) fun _ => rfl
  | broadcast machine hmain =>
      exact settle_sent (sendUrb_sent machine _ _) (fun _ _ => rfl) fun _ => rfl
  | bebMain hmain hk => exact settle_sent (sendBebBody_sent _ _) (fun _ _ => rfl) fun _ => rfl
  | next hmain hk => rfl
  | receive machine sendto msg hidle => exact absurd rfl (hreceive sendto msg)
  | deliverBeb machine hreceiver =>
      exact settle_sent (deliverPlEnd_sent machine _) (fun _ _ => rfl) fun _ => rfl
  | bebReceiver hreceiver hk =>
      exact settle_sent (sendBebBody_sent _ _) (fun _ _ => rfl) fun _ => rfl
  | finish machine hreceiver hk =>
      exact settle_sent (deliverUrbEnd_sent machine _) (fun _ _ => rfl) fun _ => rfl
  | dequeue hj hsender =>
      refine settle_sent (Call.Frames.on (by exact fun _ _ => rfl) _) (fun task d => ?_)
        fun _ => rfl
      cases task <;> rfl
  | test hj hsender =>
      unfold NetProcess.test
      split <;> rfl
  | attempt sendto hj hsender => exact absurd rfl (hattempt sendto _)
  | crash => rfl

theorem Acknowledged.of_concat {d : NetData} {q r s dest : ℕ} {msg : Msg}
    (hacked : Acknowledged cfg { d with sent := d.sent ++ [(dest, msg)] } q r s) :
    Acknowledged cfg d q r s ∨
      (r = dest ∧ msg.mtype = ackNo ∧ msg.ackid = rowId cfg.numProc s q) := by
  obtain ⟨msg', hmem, hack⟩ := hacked
  rcases List.mem_append.mp hmem with hmem | hmem
  · exact .inl ⟨msg', hmem, hack⟩
  · obtain ⟨rfl, rfl⟩ := Prod.mk.inj (List.mem_singleton.mp hmem)
    exact .inr ⟨rfl, hack⟩

variable (h : NetInv cfg (withData W p P.data)) (hp : cfg.IsPid p)
include h hp

/-- A copy that is acknowledged in `receive_msg` is the one that the thread goes on with. -/
theorem receive_acknowledged (hin : InTables cfg (withData W p P.data)) {q : ℕ} {msg : Msg}
    (hq : cfg.IsPid q) (hsent : (p, msg) ∈ (withData W p P.data q).sent) (machine : Machine)
    (sendto : Bool) {r s : ℕ} : Acknowledged cfg (P.receive machine sendto msg).data p r s →
      Acknowledged cfg P.data p r s ∨ (P.receive machine sendto msg).Delivering r s := by
  refine NetProcess.settle_of_meets (I := fun P' => Acknowledged cfg P'.data p r s →
    Acknowledged cfg P.data p r s ∨ P'.Delivering r s)
    ((deliverPlStart_meets machine sendto msg P.data).mono ?_ ?_ ?_) .inl
  · rintro (_ | _) d hresult
    · obtain ⟨-, -, table, -, rfl⟩ := hresult
      exact .inl
    · obtain ⟨hmtype, -, -, rfl⟩ := hresult
      intro hacked
      rcases hacked.of_concat with hbefore | ⟨rfl, -, hid⟩
      · exact .inl hbefore
      · have hm := h.arrives hq hsent hmtype
        have hrow := hm.taskOf.ackid.trans (hin.rowId hm.isPid hm.taskOf.genuine.seen hp).1
        obtain ⟨hseenId, -⟩ := rowId_inj hp hp (hrow.symm.trans hid)
        exact .inr ⟨msg, rfl, rfl, hseenId⟩
  · rintro code _ ⟨-, rfl⟩
    exact .inl
  · rintro _ ⟨-, -, table, -, rfl⟩
    exact .inl

/-- A sender thread sends tasks, and these are no acknowledgements. -/
theorem attempt_acknowledged {j i : ℕ} {task : QueueTask}
    (htask : task ∈ P.data.enqueued) (sendto : Bool) {r s : ℕ}
    (hacked : Acknowledged cfg (P.attempt sendto j task i).data p r s) :
    Acknowledged cfg P.data p r s := by
  have hdata := h.dataSelf hp
  have hmeets := sendPlBody_meets hdata.queue sendto task i
  unfold NetProcess.attempt at hacked
  cases hcase : sendPlBody sendto task i P.data with
  | ok round d =>
      rw [hcase] at hmeets hacked
      cases round with
      | none =>
          obtain ⟨queue, -, -, rfl⟩ := hmeets
          exact hacked
      | some round =>
          obtain rfl := hmeets
          rcases hacked.of_concat with hbefore | ⟨-, hack, -⟩
          · exact hbefore
          · exact absurd hack (hdata.enqueued task htask).mtype
  | error code d =>
      rw [hcase] at hmeets hacked
      obtain ⟨-, rfl⟩ := hmeets
      exact hacked
  | running d => rw [hcase] at hmeets; exact hmeets.elim
  | undefined => rw [hcase] at hacked; exact hacked

/-- After `is_delivered` the copy is delivered, unless an error has ended the call. -/
theorem deliverBeb_answered {m : Msg} (hreceiver : P.receiver = .delivering m)
    (hm : Arrives cfg (withData W p P.data) p m) (machine : Machine) :
    InTables cfg (withData W p (P.deliverBeb machine m).data) →
      DeliveredFrom (P.deliverBeb machine m).data m.sender m.urbMsg.seenId ∨
        (P.deliverBeb machine m).Delivering m.sender m.urbMsg.seenId := by
  refine NetProcess.settle_of_meets (I := fun P' => InTables cfg (withData W p P'.data) →
    DeliveredFrom P'.data m.sender m.urbMsg.seenId ∨ P'.Delivering m.sender m.urbMsg.seenId)
    ((h.deliverPlEnd hp hm machine).mono ?_ ?_ ?_) ?_
  · exact fun newMsg d hd hin => .inl (hd.1.2 hin)
  · exact fun code d _ _ => .inr ⟨m, hreceiver, rfl, rfl⟩
  · exact fun d hd hin => .inl (hd.2 hin)
  · exact fun _ => .inr ⟨m, hreceiver, rfl, rfl⟩

theorem Answered.step (hanswered : Answered cfg p P) (hP : ThreadInv cfg p P)
    (hstep : NetStep P action P')
    (hnetwork : ∀ sendto msg, action = .receive sendto msg →
      ∃ r, cfg.IsPid r ∧ (p, msg) ∈ (withData W p P.data r).sent)
    (harriving : ∀ msg, P.receiver = .delivering msg → Arrives cfg (withData W p P.data) p msg)
    (hgrows : P.data.Grows P'.data) (hin : InTables cfg (withData W p P'.data)) :
    Answered cfg p P' := by
  intro r s hacked
  -- what is acknowledged now was acknowledged before, or the thread has just answered it
  have hcases : Acknowledged cfg P.data p r s ∨ P'.Delivering r s := by
    by_cases hreceive : ∃ sendto msg, action = .receive sendto msg
    · obtain ⟨sendto, msg, rfl⟩ := hreceive
      obtain ⟨q, hq, hsent⟩ := hnetwork sendto msg rfl
      cases hstep with
      | receive machine _ _ hidle =>
          exact receive_acknowledged h hp (hin.anti (grows_withData hgrows)) hq hsent machine
            sendto hacked
    by_cases hattempt : ∃ sendto j, action = .attempt sendto j
    · obtain ⟨sendto, j, rfl⟩ := hattempt
      cases hstep with
      | @attempt _ i task _ hj hsender =>
          have htask : task ∈ P.data.enqueued := hP.sender j task (by rw [hsender]; rfl)
          exact .inl (attempt_acknowledged h hp htask sendto hacked)
    obtain ⟨msg, hmem, hack⟩ := hacked
    rw [hstep.sent_eq (fun sendto msg heq => hreceive ⟨sendto, msg, heq⟩)
      fun sendto j heq => hattempt ⟨sendto, j, heq⟩] at hmem
    exact .inl ⟨msg, hmem, hack⟩
  rcases hcases with hbefore | hnow
  · rcases hanswered r s hbefore with hfrom | ⟨m, hreceiver, rfl, rfl⟩
    · exact .inl (hgrows.deliveredFrom hfrom)
    · rcases hstep.of_delivering hreceiver with hstays | ⟨machine, -, rfl⟩
      · exact .inr ⟨m, hstays, rfl, rfl⟩
      · exact deliverBeb_answered h hp hreceiver (harriving m hreceiver) machine hin
  · exact .inr hnow

end Step

/-! ## The run -/

section Run

variable {cfg : Membership} {numMsg : ℕ → ℕ} {allowed : NetAction → Prop} {s t : NetSystem}

/-- In every reachable state the acknowledgements of all processes are answered for. -/
theorem answered_of_reachable (hs : (netSystem cfg numMsg allowed).Reachable s)
    (hin : InTables cfg s.world) : ∀ p, cfg.IsPid p → Answered cfg p (s p) := by
  induction hs with
  | init h =>
      obtain rfl := h
      exact fun p _ r id ⟨msg, hmem, _⟩ => absurd hmem List.not_mem_nil
  | @step s t hs h ih =>
      obtain ⟨p, action, -, hstep⟩ := h
      have hinv := systemInv_of_reachable hs
      have ih := ih (hin.anti (hinv.grows hstep))
      intro q hq
      by_cases hqp : q = p
      · subst hqp
        have hself : withData s.world q (s q).data = s.world := withData_eq_self s.world q
        rw [hstep.world_eq] at hin
        refine (ih q hq).step (hself.symm ▸ hinv.net) hq (hinv.threads q hq hstep.running)
          hstep.step (fun sendto msg haction => ?_) ?_ (hinv.soundStep hstep).sound.grows hin
        · rw [hself]
          exact hstep.network sendto msg haction
        · rw [hself]
          exact hinv.arriving q hq hstep.running
      · rw [hstep.frame q hqp]
        exact ih q hq

/-- Perfect links: `deliver_beb` is called at most once for the copy of a message that
a process relays, and only for a task that this process has enqueued in `send_beb`;
an acknowledgement that is recorded stands for such a call, or for a receiver thread
that stands before it in `deliver_pl`. -/
theorem perfectLink_safety (hs : (netSystem cfg numMsg allowed).Reachable s)
    (hin : InTables cfg s.world) {p q : ℕ} (hp : cfg.IsPid p) (hq : cfg.IsPid q) :
    ((s q).data.deliveredBeb.map fun m => (m.sender, m.urbMsg.seenId)).Nodup ∧
    (∀ m ∈ (s q).data.deliveredBeb,
      cfg.IsPid m.sender ∧ ⟨q, m⟩ ∈ (s m.sender).data.enqueued) ∧
    ∀ id, isAck (s p).data (rowId cfg.numProc id q) ≠ 0 →
      DeliveredFrom (s q).data p id ∨ (s q).Delivering p id := by
  have hinv := systemInv_of_reachable hs
  refine ⟨(hinv.net.safe hin q hq).deliveredBebOnce, fun m hm => ?_, fun id hack => ?_⟩
  · obtain ⟨hpid, htask, -⟩ := (hinv.net.safe hin q hq).deliveredBeb m hm
    exact ⟨hpid, htask⟩
  · exact answered_of_reachable hs hin q hq p id ((hinv.net.safe hin p hp).plAcks id q hq hack)

/-- A process that does not run takes no more steps. -/
theorem steps_of_stopped {p : ℕ} (hstopped : (s p).status ≠ .running)
    (hsteps : (netSystem cfg numMsg allowed).Steps s t) : t p = s p := by
  induction hsteps with
  | refl => rfl
  | @tail t u _ hnext ih =>
      obtain ⟨q, action, -, hstep⟩ := hnext
      by_cases hpq : p = q
      · subst hpq
        have hrunning := hstep.running
        rw [ih] at hrunning
        exact absurd hrunning hstopped
      · exact (hstep.frame p hpq).trans ih

end Run

/-! ## An acknowledgement without a delivery -/

/-- In the exchange the acknowledgement that process `1` has recorded is that of the
message for which process `2` has called `deliver_beb`. -/
theorem exchanged_perfectLink :
    ((exchanged 2).data.deliveredBeb.map fun m => (m.sender, m.urbMsg.seenId)).Nodup ∧
    (∀ m ∈ (exchanged 2).data.deliveredBeb,
      fifoMembership.IsPid m.sender ∧ ⟨2, m⟩ ∈ (exchanged m.sender).data.enqueued) ∧
    DeliveredFrom (exchanged 2).data 1 0 := by
  obtain ⟨hnodup, henqueued, hacks⟩ := perfectLink_safety (p := 1) (q := 2) exchanged_reachable
    exchanged_inTables (by decide) (by decide)
  refine ⟨hnodup, henqueued, (hacks 0 (by decide +kernel)).resolve_right ?_⟩
  rintro ⟨m, hreceiver, -⟩
  have hidle : (exchanged 2).receiver = .idle := by decide +kernel
  rw [hidle] at hreceiver
  cases hreceiver

/-- Process `2` acknowledges the first message of process `1` and crashes before it has
looked whether the message was delivered; process `1` gets the acknowledgement. -/
def unanswered : NetSystem :=
  let sent := (bebTask 2 1 ⟨firstMsg, 0, 0⟩ 2).msg
  play fifoMembership (fun _ => 1) shortMachine
    [(1, .copy), (1, .broadcast), (1, .bebMain), (1, .bebMain), (1, .dequeue 0), (1, .test 0),
      (1, .attempt true 0), (2, .receive true sent), (2, .crash),
      (1, .receive true (ackMsg 2 sent))]

/-- Process `1` has the acknowledgement of a message that process `2` will never deliver. -/
theorem acknowledged_undelivered :
    (netSystem fifoMembership (fun _ => 1) fun _ => True).Reachable unanswered ∧
      InTables fifoMembership unanswered.world ∧
      isAck (unanswered 1).data (rowId fifoMembership.numProc 0 2) ≠ 0 ∧
      ∀ t, (netSystem fifoMembership (fun _ => 1) fun _ => True).Steps unanswered t →
        ¬ DeliveredFrom (t 2).data 1 0 := by
  have hs : (netSystem fifoMembership (fun _ => 1) fun _ => True).Reachable unanswered :=
    reachable_play fun _ _ => trivial
  refine ⟨hs, fun p hp id hseen => ?_, by decide +kernel, fun t hsteps => ?_⟩
  · obtain rfl := seen_eq_zero hs (by decide +kernel) (by decide +kernel) hp hseen
    decide
  · rw [steps_of_stopped (p := 2) (by decide +kernel) hsteps]
    rintro ⟨m, hmem, -⟩
    have hnone : (unanswered 2).data.deliveredBeb = [] := by decide +kernel
    rw [hnone] at hmem
    exact absurd hmem List.not_mem_nil

end CausalBroadcast
