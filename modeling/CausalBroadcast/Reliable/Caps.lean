import CausalBroadcast.Reliable.Safety

/-!
# When the caps of the tables are enough

All tables refuse ids above `8192`, however large they are.  The largest id that a run
with `m` messages a process needs is `N * N * m - 1`: it stands for the last message of
process `N`, in the row of the process `N` itself.  While it is not above the cap no
operation on a table fails (`noTableError`), and with more processes already a first
message can (`firstMessage_refused`).

The ids in use are bounded by the numbers of messages, so the runs are followed with
what each process still may broadcast (`Announcing`).
-/

namespace CausalBroadcast

/-! ## The ids -/

/-- The ids of `m` messages of each process pass the caps of the tables. -/
def PassesCaps (cfg : Membership) (m : ℕ) : Prop := cfg.numProc * cfg.numProc * m ≤ maxSize + 1

instance (cfg : Membership) (m : ℕ) : Decidable (PassesCaps cfg m) :=
  inferInstanceAs (Decidable (_ ≤ _))

section Ids

variable {cfg : Membership} {m i o q : ℕ}

theorem seenIdOf_lt (hi : 1 ≤ i) (him : i ≤ m) (ho : cfg.IsPid o) :
    seenIdOf cfg.numProc i o < cfg.numProc * m := by
  have hround : cfg.numProc * (i - 1) + cfg.numProc ≤ cfg.numProc * m := by
    calc cfg.numProc * (i - 1) + cfg.numProc = cfg.numProc * (i - 1 + 1) := (Nat.mul_succ _ _).symm
      _ ≤ cfg.numProc * m := Nat.mul_le_mul_left _ (by omega)
  have hpid := ho.2
  have hpos := ho.1
  unfold seenIdOf
  omega

/-- The index of a process in the row of a message that fits. -/
theorem rowId_le (hfit : PassesCaps cfg m) {s : ℕ} (hs : s < cfg.numProc * m) (hq : cfg.IsPid q) :
    rowId cfg.numProc s q ≤ maxSize := by
  have hrow : cfg.numProc * s + cfg.numProc ≤ maxSize + 1 := by
    calc cfg.numProc * s + cfg.numProc = cfg.numProc * (s + 1) := (Nat.mul_succ _ _).symm
      _ ≤ cfg.numProc * (cfg.numProc * m) := Nat.mul_le_mul_left _ hs
      _ = cfg.numProc * cfg.numProc * m := (Nat.mul_assoc _ _ _).symm
      _ ≤ maxSize + 1 := hfit
  have hpid := hq.2
  unfold rowId
  omega

theorem seenId_le (hfit : PassesCaps cfg m) {s : ℕ} (hs : s < cfg.numProc * m) :
    s ≤ maxSizeUrb := by
  have hpos := cfg.numProc_pos
  have hrow := rowId_le hfit hs (⟨le_rfl, hpos⟩ : cfg.IsPid 1)
  have hle : s ≤ cfg.numProc * s := Nat.le_mul_of_pos_left s hpos
  unfold rowId maxSize at hrow
  unfold maxSizeUrb
  omega

theorem u32_rowId_le (hfit : PassesCaps cfg m) {s : ℕ} (hs : s < cfg.numProc * m)
    (hq : cfg.IsPid q) : u32 (cfg.numProc * s + q - 1) ≤ maxSize :=
  (u32_le _).trans (rowId_le hfit hs hq)

end Ids

/-! ## What a process has announced -/

/-- The number of messages a process is to broadcast, and the ones it has started to. -/
def NetData.announced (d : NetData) : ℕ × List LcbMsg := (d.numMsg, d.sentUrb)

section Frames

open Call.Frames

theorem sendFl_announced (sendto : Bool) (dest : ℕ) (msg : Msg) :
    Call.Frames NetData.announced (sendFl sendto dest msg) := by
  have haddr : Call.Frames NetData.announced (getAddr dest) :=
    Call.Frames.bind .state fun _ => ite (fail _) (ite undef (pure _))
  refine haddr.bind fun _ => ?_
  cases sendto with
  | true => exact modify fun _ => rfl
  | false => exact fail _

theorem deliverUrbStart_announced (machine : Machine) (msg : UrbMsg) :
    Call.Frames NetData.announced (deliverUrbStart machine msg) :=
  (deliverUrbStart_frames machine msg).map fun beside => (beside.1, beside.2.1)

theorem deliverUrbEnd_announced (machine : Machine) (msg : UrbMsg) :
    Call.Frames NetData.announced (deliverUrbEnd machine msg) :=
  (deliverUrbEnd_frames machine msg).map fun beside => (beside.1, beside.2.1)

theorem deliverPlStart_announced (machine : Machine) (sendto : Bool) (msg : Msg) :
    Call.Frames NetData.announced (deliverPlStart machine sendto msg) := by
  refine ite (Call.Frames.bind (on (by exact fun _ _ => rfl) _) fun _ => .pure _) ?_
  have hack : Call.Frames NetData.announced (sendAck sendto msg) :=
    Call.Frames.bind .state fun d => sendFl_announced sendto _ _
  exact hack.bind fun _ => .pure _

theorem deliverPlEnd_announced (machine : Machine) (msg : Msg) :
    Call.Frames NetData.announced (deliverPlEnd machine msg) := by
  have hrecord : Call.Frames NetData.announced (recordDelivery machine msg) := by
    refine Call.Frames.bind .state fun d => ite ?_ (pure _)
    refine Call.Frames.bind (on (by exact fun _ _ => rfl) _) fun _ => ?_
    exact Call.Frames.bind (modify fun _ => rfl) fun _ => .pure _
  refine hrecord.bind fun fresh => ite ?_ (pure _)
  refine (deliverUrbStart_announced machine msg.urbMsg).bind fun newMsg => ?_
  cases newMsg with
  | some newMsg => exact pure _
  | none => exact (deliverUrbEnd_announced machine msg.urbMsg).bind fun _ => .pure _

theorem sendBebBody_announced (msg : UrbMsg) (k : ℕ) :
    Call.Frames NetData.announced (sendBebBody msg k) := by
  refine Call.Frames.bind .state fun d => ite (pure _) ?_
  exact Call.Frames.bind (on (by exact fun _ _ => rfl) _) fun _ => modify fun _ => rfl

theorem sendPlBody_announced (sendto : Bool) (task : QueueTask) (i : ℕ) :
    Call.Frames NetData.announced (sendPlBody sendto task i) :=
  Call.Frames.ite (Call.Frames.bind (on (by exact fun _ _ => rfl) _) fun _ => .pure _)
    ((sendFl_announced sendto _ _).bind fun _ => .pure _)

theorem sendUrb_announces (machine : Machine) (i : ℕ) (msg : LcbMsg) (d : NetData) :
    (sendUrb machine i msg d).Meets
      (fun _ d' => d'.announced = (d.numMsg, d.sentUrb ++ [msg]))
      (fun _ d' => d'.announced = (d.numMsg, d.sentUrb ++ [msg]))
      fun d' => d'.announced = (d.numMsg, d.sentUrb ++ [msg]) := by
  have hrest : ∀ seenId mid, Call.Frames NetData.announced (do
      onUrbTable (addSeenUrb machine.rounds seenId)
      setAckUrb machine mid
      onLcb (logUrbBroadcast i)
      noteSendBeb ⟨msg, seenId, mid⟩
      Pure.pure (⟨msg, seenId, mid⟩ : UrbMsg)) := by
    intro seenId mid
    refine Call.Frames.bind (on (by exact fun _ _ => rfl) _) fun _ => ?_
    refine Call.Frames.bind (on (by exact fun _ _ => rfl) _) fun _ => ?_
    refine Call.Frames.bind (on (by exact fun _ _ => rfl) _) fun _ => ?_
    exact Call.Frames.bind (modify fun _ => rfl) fun _ => .pure _
  exact hrest _ _ { d with sentUrb := d.sentUrb ++ [msg] }

end Frames

/-- The number of messages the process is to broadcast is `n`, and it does not start on
more. -/
structure Announcing (n : ℕ) (P : NetProcess) : Prop where
  numMsg : P.data.numMsg = n
  length_le : P.data.sentUrb.length ≤ n
  copied : ∀ i msg, P.main = .copied i msg → i ≤ n

section Announcing

variable {cfg : Membership} {n p : ℕ} {P P' : NetProcess}

theorem Announcing.of_eq (h : Announcing n P) (hdata : P'.data.announced = P.data.announced)
    (hmain : ∀ i msg, P'.main = .copied i msg → P.main = .copied i msg) : Announcing n P' := by
  obtain ⟨hnumMsg, hsentUrb⟩ := Prod.mk.inj hdata
  exact ⟨hnumMsg.trans h.numMsg, hsentUrb ▸ h.length_le,
    fun i msg hi => h.copied i msg (hmain i msg hi)⟩

/-- A call that announces nothing. -/
theorem Announcing.settle (h : Announcing n P) {α : Type} {call : NetCall α}
    (hcall : Call.Frames NetData.announced call) {ok : α → NetProcess → NetProcess}
    {stuck : NetProcess → NetProcess} (hok : ∀ value d, (ok value { P with data := d }).data = d)
    (hokMain : ∀ value d i msg, (ok value { P with data := d }).main = .copied i msg →
      P.main = .copied i msg)
    (hstuck : ∀ d, (stuck { P with data := d }).data = d)
    (hstuckMain : ∀ d i msg, (stuck { P with data := d }).main = .copied i msg →
      P.main = .copied i msg) : Announcing n (P.settle (call P.data) ok stuck) := by
  refine NetProcess.settle_of_meets ((hcall P.data).mono (fun value d hd => ?_)
    (fun code d hd => h.of_eq hd fun _ _ => id) fun d hd => ?_) (h.of_eq rfl fun _ _ => id)
  · exact h.of_eq ((congrArg NetData.announced (hok value d)).trans hd) (hokMain value d)
  · exact h.of_eq ((congrArg NetData.announced (hstuck d)).trans hd) (hstuckMain d)

theorem Announcing.step (h : Announcing n P) (hP : ThreadInv cfg p P) {action : NetAction}
    (hstep : NetStep P action P') : Announcing n P' := by
  cases hstep with
  | @copy i hmain hi =>
      have hframes : Call.Frames NetData.announced (onLcb (nextLcbMsg i)) :=
        Call.Frames.on (by exact fun _ _ => rfl) _
      refine NetProcess.settle_of_meets ((hframes P.data).mono (fun msg d hd => ?_)
        (fun code d hd => h.of_eq hd fun _ _ => id) fun d hd => h.of_eq hd nofun)
        (h.of_eq rfl fun _ _ => id)
      obtain ⟨hnumMsg, hsentUrb⟩ := Prod.mk.inj hd
      refine ⟨hnumMsg.trans h.numMsg, hsentUrb ▸ h.length_le, fun j msg' hj => ?_⟩
      cases hj
      exact hi.trans_eq h.numMsg
  | @broadcast i msg machine hmain =>
      -- before broadcast `i` there were `i - 1`
      have hplace := hP.main
      rw [hmain] at hplace
      have hle := h.copied i msg hmain
      have hlength : ∀ {d : NetData}, d.announced = (P.data.numMsg, P.data.sentUrb ++ [msg]) →
          d.numMsg = n ∧ d.sentUrb.length ≤ n := by
        intro d hd
        obtain ⟨hnumMsg, hsentUrb⟩ := Prod.mk.inj hd
        refine ⟨hnumMsg.trans h.numMsg, ?_⟩
        rw [hsentUrb, List.length_append, List.length_singleton, hplace.1.2.1]
        exact hle
      refine NetProcess.settle_of_meets ((sendUrb_announces machine i msg P.data).mono
        (fun newMsg d hd => ?_) (fun code d hd => ?_) fun d hd => ?_) (h.of_eq rfl fun _ _ => id)
      · exact ⟨(hlength hd).1, (hlength hd).2, nofun⟩
      · exact ⟨(hlength hd).1, (hlength hd).2, h.copied⟩
      · exact ⟨(hlength hd).1, (hlength hd).2, nofun⟩
  | bebMain hmain hk =>
      exact h.settle (sendBebBody_announced _ _) (fun _ _ => rfl) (fun _ _ _ _ => nofun)
        (fun _ => rfl) fun _ _ _ => nofun
  | next hmain hk => exact h.of_eq rfl nofun
  | receive machine sendto msg hreceiver =>
      exact h.settle (deliverPlStart_announced machine sendto msg) (fun _ _ => rfl)
        (fun _ _ _ _ => id) (fun _ => rfl) fun _ _ _ => id
  | deliverBeb machine hreceiver =>
      exact h.settle (deliverPlEnd_announced machine _) (fun _ _ => rfl)
        (fun _ _ _ _ => id) (fun _ => rfl) fun _ _ _ => id
  | bebReceiver hreceiver hk =>
      exact h.settle (sendBebBody_announced _ _) (fun _ _ => rfl) (fun _ _ _ _ => id)
        (fun _ => rfl) fun _ _ _ => id
  | finish machine hreceiver hk =>
      exact h.settle (deliverUrbEnd_announced machine _) (fun _ _ => rfl) (fun _ _ _ _ => id)
        (fun _ => rfl) fun _ _ _ => id
  | dequeue hj hsender =>
      have hframes : Call.Frames NetData.announced (onTaskQ dequeue) :=
        Call.Frames.on (by exact fun _ _ => rfl) _
      refine h.settle hframes ?_ ?_ (fun _ => rfl) fun _ _ _ => id
      · intro task d
        cases task <;> rfl
      · intro task d i msg hi
        cases task <;> exact hi
  | @test j i task hj hsender =>
      unfold NetProcess.test
      split
      · exact h.of_eq rfl fun _ _ => id
      · exact h.of_eq rfl fun _ _ => id
  | @attempt j i task sendto hj hsender =>
      have hframes := sendPlBody_announced sendto task i P.data
      unfold NetProcess.attempt
      cases hcase : sendPlBody sendto task i P.data with
      | ok round d => rw [hcase] at hframes; exact h.of_eq hframes fun _ _ => id
      | error code d => rw [hcase] at hframes; exact h.of_eq hframes fun _ _ => id
      | running d => rw [hcase] at hframes; exact h.of_eq hframes fun _ _ => id
      | undefined => exact h.of_eq rfl fun _ _ => id
  | crash => exact h.of_eq rfl fun _ _ => id

end Announcing

/-! ## The calls -/

/-- The outcome is no failure of a table. -/
abbrev NoTableError {α : Type} (outcome : Outcome ErrorCode NetData α) : Prop :=
  outcome.Meets (fun _ _ => True) (fun code _ => code ≠ .table) fun _ => True

section Calls

variable {cfg : Membership} {d : NetData} (hpos : 0 < d.urbTable.totalEntries)
  (hlt : d.urbTable.totalEntries < 2 ^ 32) (machine : Machine)
include hpos hlt

theorem deliverUrbEnd_noTableError {msg : UrbMsg} (hcap : msg.seenId ≤ maxSizeUrb) :
    NoTableError (deliverUrbEnd machine msg d) := by
  refine (deliverUrbEnd_meets machine hpos hlt msg).mono (fun _ _ _ => trivial) ?_
    fun _ _ => trivial
  rintro code _ (⟨hcode, -⟩ | ⟨-, hfull, -⟩)
  · exact hcode
  · exact absurd hcap (not_le.mpr hfull)

omit hpos hlt in
/-- `deliver_pl` up to `is_delivered`. -/
theorem deliverPlStart_noTableError {msg : Msg} (sendto : Bool)
    (hcap : msg.mtype = ackNo → msg.ackid ≤ maxSize) :
    NoTableError (deliverPlStart machine sendto msg d) := by
  refine (deliverPlStart_meets machine sendto msg d).mono (fun _ _ _ => trivial) ?_
    fun _ _ => trivial
  rintro code _ ⟨htable, -⟩ rfl
  obtain ⟨hmtype, hfull⟩ := htable rfl
  exact absurd (hcap hmtype) (not_le.mpr hfull)

/-- `deliver_pl` from `is_delivered` on. -/
theorem deliverPlEnd_noTableError {msg : Msg} (hmid : msg.mid ≤ maxSize)
    (hurb : msg.urbMsg.mid ≤ maxSize) (hseen : msg.urbMsg.seenId ≤ maxSizeUrb)
    (hown : u32 (d.numProc * msg.urbMsg.seenId + d.selfPid - 1) ≤ maxSize) :
    NoTableError (deliverPlEnd machine msg d) := by
  refine (recordDelivery_meets machine msg d).andThen ?_ (fun _ _ => trivial) ?_
  · rintro code _ ⟨-, hfull, -⟩
    exact absurd hmid (not_le.mpr hfull)
  rintro fresh d₁ hresult
  cases fresh with
  | false => trivial
  | true =>
      obtain ⟨-, table, -, rfl⟩ := hresult
      refine (deliverUrbStart_meets machine (d := { d with
        plDelivered := table
        deliveredBeb := d.deliveredBeb ++ [msg] }) hpos hlt msg.urbMsg rfl).andThen ?_
        (fun _ _ => trivial) ?_
      · rintro code _ ⟨-, ⟨hfull, -⟩ | ⟨-, -, ⟨hfull, -⟩ | ⟨-, -, hfull, -⟩⟩⟩
        · exact absurd hurb (not_le.mpr hfull)
        · exact absurd hseen (not_le.mpr hfull)
        · exact absurd hown (not_le.mpr hfull)
      rintro (_ | newMsg) d₂ ⟨table', -, hstart⟩
      · obtain ⟨-, rfl⟩ := hstart
        exact (deliverUrbEnd_noTableError (d := { d with
          plDelivered := table
          urbacks := table'
          deliveredBeb := d.deliveredBeb ++ [msg] }) hpos hlt machine hseen).andThen
          (fun _ _ => id) (fun _ => id) fun _ _ _ => trivial
      · trivial

end Calls

/-! ## The run -/

section Run

variable {cfg : Membership} {numMsg : ℕ → ℕ} {allowed : NetAction → Prop} {s t : NetSystem} {m : ℕ}

theorem announcing_of_reachable (hs : (netSystem cfg numMsg allowed).Reachable s) :
    ∀ p, cfg.IsPid p → Announcing (numMsg p) (s p) := by
  refine hs.invariant (I := fun s => ∀ p, cfg.IsPid p → Announcing (numMsg p) (s p)) ?_ ?_
  · rintro _ rfl p -
    exact ⟨rfl, Nat.zero_le _, nofun⟩
  · rintro s t hreach hannouncing ⟨p, action, -, hstep⟩ q hq
    by_cases hqp : q = p
    · subst hqp
      exact (hannouncing q hq).step
        ((systemInv_of_reachable hreach).threads q hq hstep.running) hstep.step
    · rw [hstep.frame q hqp]
      exact hannouncing q hq

/-- What a process has seen has one of the ids of `m` messages. -/
theorem seen_lt (hs : (netSystem cfg numMsg allowed).Reachable s)
    (hm : ∀ p, cfg.IsPid p → numMsg p ≤ m) {p id : ℕ} (hp : cfg.IsPid p)
    (hseen : Seen (s p).data id) : id < cfg.numProc * m := by
  obtain ⟨o, i, ho, hi, hlength, rfl⟩ := (systemInv_of_reachable hs).exists_sent hp hseen
  refine seenIdOf_lt hi ?_ ho
  calc i ≤ (s o).data.sentUrb.length := hlength
    _ ≤ numMsg o := (announcing_of_reachable hs o ho).length_le
    _ ≤ m := hm o ho

/-- A process does not end with `ERROR_TABLE` by a call that does not return it. -/
theorem status_settle {P : NetProcess} {α : Type}
    {outcome : Outcome ErrorCode NetData α} (h : NoTableError outcome)
    {ok : α → NetProcess → NetProcess} {stuck : NetProcess → NetProcess}
    (hok : ∀ value d, (ok value { P with data := d }).status = .running)
    (hstuck : ∀ d, (stuck { P with data := d }).status = .running) :
    (P.settle outcome ok stuck).status ≠ .exited .table := by
  refine NetProcess.settle_of_meets (I := fun P => P.status ≠ .exited .table)
    (h.mono (fun value d _ => ?_) (fun code d hcode => ?_) fun d _ => ?_) nofun
  · rw [hok]
    exact nofun
  · exact fun hstatus => hcode (Status.exited.inj hstatus)
  · rw [hstuck]
    exact nofun

/-- What a datagram in the network asks of the tables. -/
theorem receive_noTableError (hs : (netSystem cfg numMsg allowed).Reachable s)
    (hm : ∀ p, cfg.IsPid p → numMsg p ≤ m) (hfit : PassesCaps cfg m) {p : ℕ} (hp : cfg.IsPid p)
    {msg : Msg} (hnetwork : InNetwork cfg s p msg) (machine : Machine) (sendto : Bool) :
    NoTableError (deliverPlStart machine sendto msg (s p).data) := by
  obtain ⟨r, hr, hsent⟩ := hnetwork
  refine deliverPlStart_noTableError machine sendto fun hmtype => ?_
  -- an acknowledgement answers a task of `p`
  have hack := (systemInv_of_reachable hs).net.ackOf hr hsent hmtype
  obtain ⟨id, hseen, hackid⟩ := hack.answers
  rw [hackid, Nat.mul_comm]
  exact u32_rowId_le hfit (seen_lt hs hm hp hseen) hr

/-- What a message that is being delivered asks of them. -/
theorem deliverBeb_noTableError (hs : (netSystem cfg numMsg allowed).Reachable s)
    (hm : ∀ p, cfg.IsPid p → numMsg p ≤ m) (hfit : PassesCaps cfg m) {p : ℕ} (hp : cfg.IsPid p)
    {msg : Msg} (harrives : Arrives cfg s.world p msg) (machine : Machine) :
    NoTableError (deliverPlEnd machine msg (s p).data) := by
  have hdata : DataInv cfg s.world p (s p).data := (systemInv_of_reachable hs).net.data p hp
  have hgenuine := harrives.taskOf.genuine
  have hseen : msg.urbMsg.seenId < cfg.numProc * m := seen_lt hs hm harrives.isPid hgenuine.seen
  refine deliverPlEnd_noTableError hdata.urbTable_pos hdata.urbTable_lt machine ?_
    hgenuine.mid_le hgenuine.broadcast.le ?_
  · rw [show msg.mid = _ from harrives.taskOf.mid]
    exact u32_rowId_le hfit hseen harrives.isPid
  · rw [hdata.numProc, hdata.selfPid]
    exact u32_rowId_le hfit hseen hp

theorem sendUrb_noTableError (hs : (netSystem cfg numMsg allowed).Reachable s)
    (hm : ∀ p, cfg.IsPid p → numMsg p ≤ m) (hfit : PassesCaps cfg m) {p : ℕ} (hp : cfg.IsPid p)
    (hrunning : (s p).status = .running) {i : ℕ} {msg : LcbMsg}
    (hmain : (s p).main = .copied i msg) (machine : Machine) :
    NoTableError (sendUrb machine i msg (s p).data) := by
  have hinv := systemInv_of_reachable hs
  have hdata : DataInv cfg s.world p (s p).data := hinv.net.data p hp
  have hplace := (hinv.threads p hp hrunning).main
  rw [hmain] at hplace
  obtain ⟨⟨hi, -, hid⟩, -⟩ := hplace
  have him : i ≤ m := ((announcing_of_reachable hs p hp).copied i msg hmain).trans (hm p hp)
  have hlt := seenIdOf_lt hi him hp
  have hseenId : u32 ((s p).data.numProc * (i - 1) + (s p).data.selfPid - 1) =
      seenIdOf cfg.numProc i p := by
    rw [hdata.numProc, hdata.selfPid]
    exact u32_of_lt hid
  refine (sendUrb_meets machine hdata.urbTable_pos hdata.urbTable_lt i msg hseenId rfl).mono
    (fun _ _ _ => trivial) ?_ fun _ _ => trivial
  rintro code _ ⟨-, ⟨hfull, -⟩ | ⟨-, -, hfull, -⟩⟩
  · exact absurd (seenId_le hfit hlt) (not_le.mpr hfull)
  · rw [hdata.numProc, hdata.selfPid] at hfull
    exact absurd (u32_rowId_le hfit hlt hp) (not_le.mpr hfull)

theorem noTableError_step (hs : (netSystem cfg numMsg allowed).Reachable s)
    (hm : ∀ p, cfg.IsPid p → numMsg p ≤ m) (hfit : PassesCaps cfg m) {p : ℕ} {action : NetAction}
    (hstep : NetSystemStep cfg s p action t) : (t p).status ≠ .exited .table := by
  obtain ⟨hp, hrunning, hnetwork, hstep, -⟩ := hstep
  have hinv := systemInv_of_reachable hs
  have hdata : DataInv cfg s.world p (s p).data := hinv.net.data p hp
  have hqueue : (s p).data.taskQ.WellFormed := hdata.queue
  have hself : ∀ {P : NetProcess}, P.status = .running → P.status ≠ .exited .table :=
    fun hstatus => by rw [hstatus]; exact nofun
  generalize t p = P' at hstep ⊢
  cases hstep with
  | @copy i hmain hi =>
      refine status_settle ?_ (fun _ _ => hrunning) fun _ => hrunning
      unfold onLcb
      rw [Call.on_apply]
      rcases nextLcbMsg_cases i (s p).data.lcb with hcopy | ⟨msg, -, hcopy⟩ <;> rw [hcopy] <;>
        trivial
  | broadcast machine hmain =>
      exact status_settle (sendUrb_noTableError hs hm hfit hp hrunning hmain machine)
        (fun _ _ => hrunning) fun _ => hrunning
  | bebMain hmain hk =>
      exact status_settle ((sendBebBody_meets hqueue _ _).mono (fun _ _ _ => trivial)
        (fun _ _ => False.elim) fun _ => False.elim) (fun _ _ => hrunning) fun _ => hrunning
  | next hmain hk => exact hself hrunning
  | receive machine sendto msg hreceiver =>
      exact status_settle
        (receive_noTableError hs hm hfit hp (hnetwork sendto msg rfl) machine sendto)
        (fun _ _ => hrunning) fun _ => hrunning
  | deliverBeb machine hreceiver =>
      exact status_settle
        (deliverBeb_noTableError hs hm hfit hp (hinv.arriving p hp hrunning _ hreceiver) machine)
        (fun _ _ => hrunning) fun _ => hrunning
  | bebReceiver hreceiver hk =>
      exact status_settle ((sendBebBody_meets hqueue _ _).mono (fun _ _ _ => trivial)
        (fun _ _ => False.elim) fun _ => False.elim) (fun _ _ => hrunning) fun _ => hrunning
  -- The id was broadcast before, so it passed the same check at its origin.
  | @finish msg newMsg k machine hreceiver hk =>
      have hplace := (hinv.threads p hp hrunning).receiver
      rw [hreceiver] at hplace
      obtain ⟨hmem, hid, -, -⟩ := hplace
      have hcap : msg.seenId ≤ maxSizeUrb := hid ▸ (hdata.sentBeb newMsg hmem).broadcast.le
      exact status_settle
        (deliverUrbEnd_noTableError hdata.urbTable_pos hdata.urbTable_lt machine hcap)
        (fun _ _ => hrunning) fun _ => hrunning
  | dequeue hj hsender =>
      refine status_settle ((onTaskQ_dequeue_meets hqueue).mono (fun _ _ _ => trivial)
        (fun _ _ => False.elim) fun _ => False.elim) (fun task _ => ?_) fun _ => hrunning
      cases task <;> exact hrunning
  | test hj hsender =>
      unfold NetProcess.test
      split
      · exact hself hrunning
      · exact hself hrunning
  | @attempt j i task sendto hj hsender =>
      unfold NetProcess.attempt
      cases sendPlBody sendto task i (s p).data with
      | ok round d => exact hself hrunning
      | error code d => exact hself hrunning
      | running d => exact hself hrunning
      | undefined => exact nofun
  | crash => exact nofun

/-- No process ends because a table refuses an id, when the ids of all messages fit. -/
theorem noTableError (hs : (netSystem cfg numMsg allowed).Reachable s)
    (hm : ∀ p, cfg.IsPid p → numMsg p ≤ m) (hfit : PassesCaps cfg m) {p : ℕ} (hp : cfg.IsPid p) :
    (s p).status ≠ .exited .table := by
  refine hs.invariant (I := fun s => ∀ p, cfg.IsPid p → (s p).status ≠ .exited .table)
    ?_ ?_ p hp
  · rintro _ rfl p -
    exact nofun
  · rintro s t hreach hgood ⟨p, action, -, hstep⟩ q hq
    by_cases hqp : q = p
    · subst hqp
      exact noTableError_step hreach hm hfit hstep
    · rw [hstep.frame q hqp]
      exact hgood q hq

end Run

/-! ## Enough and too many -/

/-- `n` processes that list nobody. -/
def listNobody (n : ℕ) (hpos : 1 ≤ n) (hlt : n < 2 ^ 31) : Membership where
  numProc := n
  dependencies := List.replicate n []
  numProc_pos := hpos
  numProc_lt := hlt
  length_dependencies := List.length_replicate
  mem_range := fun list hlist pid hpid => by
    rw [List.eq_of_mem_replicate hlist] at hpid
    exact absurd hpid List.not_mem_nil

/-- As many processes as the cap allows when each has two messages. -/
def fullMembership : Membership := listNobody 64 (by decide) (by decide)

/-- The state after process `64` has broadcast both of its messages. -/
def lastSent : NetSystem :=
  play fullMembership (fun _ => 2) shortMachine
    ([(64, .copy), (64, .broadcast)] ++ List.replicate 64 (64, .bebMain) ++
      [(64, .next), (64, .copy), (64, .broadcast)])

/-- The last message takes the last id that the condition allows, and its row is marked. -/
theorem lastSent_noTableError :
    (lastSent 64).status ≠ .exited .table ∧
      tableReadEntry (lastSent 64).data.urbacks (64 * 64 * 2 - 1) = 1 := by
  have hs : (netSystem fullMembership (fun _ => 2) fun _ => True).Reachable lastSent :=
    reachable_play fun _ _ => trivial
  refine ⟨?_, by decide +kernel⟩
  exact noTableError hs (fun _ _ => le_rfl) (show PassesCaps fullMembership 2 by decide)
    (show fullMembership.IsPid 64 by decide)

/-- As many processes as the cap allows when each has one message, and one more. -/
def manyMembership : Membership := listNobody 91 (by decide) (by decide)

/-- The state after process `91` has tried to broadcast its first message. -/
def refused : NetSystem :=
  play manyMembership (fun _ => 1) shortMachine [(91, .copy), (91, .broadcast)]

/-- Its own row of the ack table is behind the cap, though not behind the end of the table. -/
theorem firstMessage_refused :
    (netSystem manyMembership (fun _ => 1) (· ≠ .crash)).Reachable refused ∧
      (refused 91).status = .exited .table := by
  refine ⟨reachable_play fun move hmem => ?_, by decide +kernel⟩
  fin_cases hmem <;> exact nofun

end CausalBroadcast
