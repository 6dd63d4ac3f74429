import CausalBroadcast.Reliable.Answers
import CausalBroadcast.Reliable.Live

/-!
# Uniform agreement

At quiescence a majority has seen a message that was delivered, so a running process
has; its relays were acknowledged by all running processes, so all of them have seen
it and have relayed it to each other.  Then the rows of all of them have a majority,
and `deliver_urb` has tested each row after its last entry was set.

An acknowledgement runs ahead of the delivery that it stands for, so no running process
may have the message just in hand (`NoneInHand`); `inHand` is a state where one has.
-/

namespace CausalBroadcast

/-! ## Running processes -/

/-- The message that `deliver_urb` has still to test. -/
def NetReceiver.untested : NetReceiver → ℕ → Prop
  | .relay msg _ _ => (· = msg.seenId)
  | _ => fun _ => False

/-- What holds of a running process. -/
structure LiveProcess (cfg : Membership) (p : ℕ) (P : NetProcess) : Prop where
  data : LiveInv cfg p P.data P.data.deliveredBeb P.receiver.untested
  unacked : ∀ s, P.receiver.untested s → ∀ q, cfg.IsPid q →
    isAck P.data (rowId cfg.numProc s q) = 0

section Step

variable {cfg : Membership} {W : ℕ → NetData} {p : ℕ} {P : NetProcess}

/-- A change of other data, and of the other threads. -/
theorem LiveProcess.frame {P' : NetProcess} (h : LiveProcess cfg p P)
    (htable : P'.data.urbTable = P.data.urbTable) (hacks : P'.data.urbacks = P.data.urbacks)
    (harrived : P'.data.deliveredBeb = P.data.deliveredBeb)
    (hpassed : P'.data.deliveredLcb = P.data.deliveredLcb)
    (hlinks : P'.data.plAcks = P.data.plAcks)
    (hreceiver : P'.receiver.untested = P.receiver.untested) :
    LiveProcess cfg p P' := by
  refine ⟨?_, fun s hs q hq => ?_⟩
  · rw [harrived, hreceiver]
    exact h.data.frame htable hacks hpassed
  · rw [hreceiver] at hs
    unfold isAck
    rw [hlinks]
    exact h.unacked s hs q hq

/-- A thread that has nothing to test. -/
theorem LiveProcess.of_liveInv (hreceiver : P.receiver.untested = fun _ => False)
    (h : LiveInv cfg p P.data P.data.deliveredBeb fun _ => False) : LiveProcess cfg p P :=
  ⟨hreceiver ▸ h, fun s hs => by rw [hreceiver] at hs; exact hs.elim⟩

/-- What a step of `p` leaves, if the process still runs. -/
def LiveAfter (cfg : Membership) (W : ℕ → NetData) (p : ℕ) (P' : NetProcess) : Prop :=
  P'.status = .running → InTables cfg (withData W p P'.data) → LiveProcess cfg p P'

variable (h : NetInv cfg (withData W p P.data)) (hp : cfg.IsPid p) (hP : ThreadInv cfg p P)
  (hlive : InTables cfg (withData W p P.data) → LiveProcess cfg p P)
include hlive

/-- A step of a thread that leaves the tables alone. -/
theorem liveAfter_frame {P' : NetProcess} (hgrows : P.data.Grows P'.data)
    (htable : P'.data.urbTable = P.data.urbTable) (hacks : P'.data.urbacks = P.data.urbacks)
    (harrived : P'.data.deliveredBeb = P.data.deliveredBeb)
    (hpassed : P'.data.deliveredLcb = P.data.deliveredLcb)
    (hlinks : P'.data.plAcks = P.data.plAcks)
    (hreceiver : P'.receiver.untested = P.receiver.untested) : LiveAfter cfg W p P' :=
  fun _ hin => (hlive (hin.anti (grows_withData hgrows))).frame htable hacks harrived hpassed
    hlinks hreceiver

include h hp hP

omit hP in
theorem liveAfter_beb {msg : UrbMsg} {k : ℕ} {ok : Unit → NetProcess → NetProcess}
    {stuck : NetProcess → NetProcess} (hok : ∀ d, (ok () { P with data := d }).data = d ∧
      (ok () { P with data := d }).receiver.untested = P.receiver.untested) :
    LiveAfter cfg W p (P.settle (sendBebBody msg k P.data) ok stuck) := by
  refine NetProcess.settle_of_meets ((sendBebBody_meets (h.dataSelf hp).queue msg k).mono ?_
    (fun _ _ => False.elim) (fun _ => False.elim)) nofun
  rintro _ d' (⟨-, rfl⟩ | ⟨-, queue, -, -, rfl⟩)
  all_goals
    obtain ⟨hdata, hreceiver⟩ := hok _
    refine liveAfter_frame hlive ?_ ?_ ?_ ?_ ?_ ?_ hreceiver <;> rw [hdata]
  · exact .refl _
  · exact ⟨List.prefix_refl _, fun _ => id, List.subset_append_left .., List.Subset.refl _,
      List.Subset.refl _⟩

theorem liveAfter_broadcast {i : ℕ} {msg : LcbMsg} (machine : Machine)
    (hmain : P.main = .copied i msg) : LiveAfter cfg W p (P.broadcast machine i msg) := by
  have hplace := hP.main
  rw [hmain] at hplace
  obtain ⟨⟨hi, hlength, hid⟩, hsender⟩ := hplace
  refine NetProcess.settle_of_meets (((h.sendUrb hp machine hi hlength hsender hid).and
    (LiveInv.sendUrb h hp (fun hin => (hlive hin).data) machine msg hi hlength hid)).mono
      ?_ ?_ ?_) nofun
  · rintro newMsg d' ⟨⟨hsound, -⟩, hlinks, hlive'⟩ _ hin
    refine ⟨hlive' hin, fun s hs q hq => ?_⟩
    show tableReadEntry d'.plAcks _ = 0
    rw [hlinks]
    exact (hlive (hin.anti (grows_withData hsound.grows))).unacked s hs q hq
  · exact fun _ _ _ => nofun
  · rintro d' ⟨hsound, hlinks, hlive'⟩ _ hin
    refine ⟨hlive' hin, fun s hs q hq => ?_⟩
    show tableReadEntry d'.plAcks _ = 0
    rw [hlinks]
    exact (hlive (hin.anti (grows_withData hsound.grows))).unacked s hs q hq

omit h hp hP in
theorem liveAfter_receive (hidle : P.receiver = .idle) (machine : Machine) (sendto : Bool)
    (msg : Msg) : LiveAfter cfg W p (P.receive machine sendto msg) := by
  -- neither answer touches what `deliver_urb` has recorded
  have hframe {P' : NetProcess} (hgrows : P.data.Grows P'.data)
      (htable : P'.data.urbTable = P.data.urbTable) (hacks : P'.data.urbacks = P.data.urbacks)
      (harrived : P'.data.deliveredBeb = P.data.deliveredBeb)
      (hpassed : P'.data.deliveredLcb = P.data.deliveredLcb)
      (hreceiver : P'.receiver.untested = fun _ => False) : LiveAfter cfg W p P' := by
    intro _ hin
    have hdata := (hlive (hin.anti (grows_withData hgrows))).data
    rw [hidle] at hdata
    exact .of_liveInv hreceiver (harrived ▸ hdata.frame htable hacks hpassed)
  refine NetProcess.settle_of_meets ((deliverPlStart_meets machine sendto msg P.data).mono
    ?_ (fun _ _ _ => nofun) ?_) nofun
  · rintro (_ | _) d' hresult
    · obtain ⟨-, -, table, -, rfl⟩ := hresult
      exact hframe (.of_eq rfl (fun _ => Iff.rfl) rfl rfl rfl) rfl rfl rfl rfl rfl
    · obtain ⟨-, -, -, rfl⟩ := hresult
      exact hframe (.of_send P.data _ _) rfl rfl rfl rfl rfl
  · rintro _ ⟨-, -, table, -, rfl⟩
    exact hframe (.of_eq rfl (fun _ => Iff.rfl) rfl rfl rfl) rfl rfl rfl rfl rfl

omit hP in
theorem liveAfter_deliverBeb {msg : Msg} (hreceiver : P.receiver = .delivering msg)
    (hm : Arrives cfg (withData W p P.data) p msg) (machine : Machine) :
    LiveAfter cfg W p (P.deliverBeb machine msg) := by
  have hlive' (hin : InTables cfg (withData W p P.data)) :
      LiveInv cfg p P.data P.data.deliveredBeb fun _ => False := by
    have hdata := (hlive hin).data
    rwa [hreceiver] at hdata
  refine NetProcess.settle_of_meets ((LiveInv.deliverPlEnd h hp hm hlive' machine).mono
    ?_ (fun _ _ _ => nofun) ?_) nofun
  · intro newMsg d' hd _ hin
    have hd := hd hin
    cases newMsg with
    | none => exact .of_liveInv rfl hd
    | some newMsg =>
        refine ⟨hd.1, fun s hs q hq => ?_⟩
        rw [show s = msg.urbMsg.seenId from hs]
        exact hd.2 q hq
  · exact fun d' hd _ hin => .of_liveInv rfl (hd hin)

theorem liveAfter_finish {msg newMsg : UrbMsg} {k : ℕ}
    (hreceiver : P.receiver = .relay msg newMsg k) (machine : Machine) :
    LiveAfter cfg W p (P.finish machine msg) := by
  obtain ⟨hseen, -⟩ := seen_of_relay h hp hP hreceiver
  have hlive' (hin : InTables cfg (withData W p P.data)) :
      LiveInv cfg p P.data P.data.deliveredBeb (· = msg.seenId) := by
    have hdata := (hlive hin).data
    rwa [hreceiver] at hdata
  refine NetProcess.settle_of_meets ((LiveInv.deliverUrbEnd h hp hseen hlive' machine).mono ?_
    (fun _ _ _ => nofun) ?_) nofun
  · rintro _ d' ⟨harrived, hd⟩ _ hin
    exact .of_liveInv rfl (harrived ▸ hd hin)
  · rintro d' ⟨harrived, hd⟩ _ hin
    exact .of_liveInv rfl (harrived ▸ hd hin)

theorem liveAfter {P' : NetProcess} {action : NetAction} (hstep : NetStep P action P')
    (harriving : ∀ msg, P.receiver = .delivering msg → Arrives cfg (withData W p P.data) p msg) :
    LiveAfter cfg W p P' := by
  cases hstep with
  | copy hmain =>
      refine NetProcess.settle_of_meets ?_ nofun
      unfold onLcb
      rw [Call.on_apply]
      rcases nextLcbMsg_cases _ P.data.lcb with hcopy | ⟨msg, -, hcopy⟩ <;> rw [hcopy]
      · trivial
      · exact liveAfter_frame hlive (.refl _) rfl rfl rfl rfl rfl rfl
  | broadcast machine hmain => exact liveAfter_broadcast h hp hP hlive machine hmain
  | bebMain => exact liveAfter_beb h hp hlive fun _ => ⟨rfl, rfl⟩
  | next => exact liveAfter_frame hlive (.refl _) rfl rfl rfl rfl rfl rfl
  | receive machine sendto msg hidle => exact liveAfter_receive hlive hidle machine sendto msg
  | deliverBeb machine hreceiver =>
      exact liveAfter_deliverBeb h hp hlive hreceiver (harriving _ hreceiver) machine
  -- A copy is enqueued for one more peer; the relay in hand stays the same.
  | bebReceiver hreceiver =>
      refine liveAfter_beb h hp hlive fun _ => ⟨rfl, ?_⟩
      rw [hreceiver]
      rfl
  | finish machine hreceiver => exact liveAfter_finish h hp hP hlive hreceiver machine
  | dequeue =>
      refine NetProcess.settle_of_meets ((onTaskQ_dequeue_meets (h.dataSelf hp).queue).mono ?_
        (fun _ _ => False.elim) (fun _ => False.elim)) nofun
      rintro (_ | task) d' hresult
      · obtain rfl := hresult
        exact liveAfter_frame hlive (.refl _) rfl rfl rfl rfl rfl rfl
      · obtain ⟨queue, -, -, rfl⟩ := hresult
        have hgrows : NetData.Grows P.data { P.data with taskQ := queue } :=
          .of_eq rfl (fun _ => Iff.rfl) rfl rfl rfl
        exact liveAfter_frame hlive hgrows rfl rfl rfl rfl rfl rfl
  | test =>
      unfold NetProcess.test
      split
      · exact liveAfter_frame hlive (.refl _) rfl rfl rfl rfl rfl rfl
      · exact liveAfter_frame hlive (.refl _) rfl rfl rfl rfl rfl rfl
  | attempt sendto =>
      rename_i j i task hj hsender
      have hmeets := sendPlBody_meets (h.dataSelf hp).queue sendto task i
      unfold NetProcess.attempt
      -- A round of `send_pl` changes the queue, or what has been sent, or nothing.
      cases hcase : sendPlBody sendto task i P.data with
      | ok round d' =>
          rw [hcase] at hmeets
          cases round with
          | none =>
              obtain ⟨queue, -, -, rfl⟩ := hmeets
              have hgrows : NetData.Grows P.data { P.data with taskQ := queue } :=
                .of_eq rfl (fun _ => Iff.rfl) rfl rfl rfl
              exact liveAfter_frame hlive hgrows rfl rfl rfl rfl rfl rfl
          | some i' =>
              obtain rfl := hmeets
              exact liveAfter_frame hlive (.of_send P.data _ _) rfl rfl rfl rfl rfl rfl
      | error code d' =>
          rw [hcase] at hmeets
          obtain ⟨-, rfl⟩ := hmeets
          exact liveAfter_frame hlive (.refl _) rfl rfl rfl rfl rfl rfl
      | running d' => rw [hcase] at hmeets; exact hmeets.elim
      | undefined => exact nofun
  | crash => exact nofun

end Step

/-! ## The run -/

section Run

variable {cfg : Membership} {numMsg : ℕ → ℕ} {allowed : NetAction → Prop} {s : NetSystem}

/-- In every reachable state the running processes have recorded what they should. -/
theorem liveProcess_of_reachable (hs : (netSystem cfg numMsg allowed).Reachable s)
    (hin : InTables cfg s.world) : ∀ p, cfg.IsPid p → (s p).status = .running →
      LiveProcess cfg p (s p) := by
  induction hs with
  | init h =>
      obtain rfl := h
      intro p hp _
      exact ⟨⟨fun t ht => absurd (isSeenUrb_initUrbTable ..) ht,
        fun _ hmem => absurd hmem List.not_mem_nil, fun _ hmem => absurd hmem List.not_mem_nil⟩,
        fun _ hs => hs.elim⟩
  | @step s t hs h ih =>
      obtain ⟨p, action, -, hstep⟩ := h
      have hinv := systemInv_of_reachable hs
      have ih := ih (hin.anti (hinv.grows hstep))
      intro q hq hrunning
      by_cases hqp : q = p
      · subst hqp
        have hself : withData s.world q (s q).data = s.world := withData_eq_self s.world q
        rw [hstep.world_eq] at hin
        refine liveAfter (hself.symm ▸ hinv.net) hq (hinv.threads q hq hstep.running)
          (fun _ => ih q hq hstep.running) hstep.step ?_ hrunning hin
        rw [hself]
        exact hinv.arriving q hq hstep.running
      · rw [hstep.frame q hqp] at hrunning ⊢
        exact ih q hq hrunning

/-- The running processes. -/
def NetSystem.running (cfg : Membership) (s : NetSystem) : Finset ℕ :=
  (Finset.Icc 1 cfg.numProc).filter fun p => (s p).status = .running

theorem NetSystem.mem_running {p : ℕ} :
    p ∈ s.running cfg ↔ cfg.IsPid p ∧ (s p).status = .running := by
  unfold NetSystem.running
  rw [Finset.mem_filter, Finset.mem_Icc]
  rfl

/-- All acknowledgements between running processes have arrived. -/
def Quiescent (cfg : Membership) (s : NetSystem) : Prop :=
  ∀ p ∈ s.running cfg, ∀ q ∈ s.running cfg, p ≠ q → ∀ id, Seen (s p).data id →
    isAck (s p).data (rowId cfg.numProc id q) ≠ 0

/-- No running process stands in `deliver_pl` between the acknowledgement and the
delivery of the copy of message `id` that a running process has sent. -/
def NoneInHand (cfg : Membership) (s : NetSystem) (id : ℕ) : Prop :=
  ∀ p ∈ s.running cfg, ∀ q ∈ s.running cfg, ¬ (s q).Delivering p id

/-- A majority that has seen a message meets a running majority. -/
theorem exists_running_seen (hmost : cfg.numProc < 2 * (s.running cfg).card) {id : ℕ}
    (hseen : SeenByMajority cfg s.world id) : ∃ w ∈ s.running cfg, Seen (s w).data id := by
  have hcard : (Finset.Icc 1 cfg.numProc).card = cfg.numProc := by simp
  obtain ⟨w, hw⟩ := Finset.inter_nonempty_of_card_lt_card_add_card
    (Finset.filter_subset (fun q => Seen (s.world q) id) (Finset.Icc 1 cfg.numProc))
    (Finset.filter_subset (fun p => (s p).status = .running) (Finset.Icc 1 cfg.numProc)) (by
      unfold SeenByMajority at hseen
      unfold NetSystem.running at hmost
      omega)
  obtain ⟨hwseen, hwrunning⟩ := Finset.mem_inter.mp hw
  exact ⟨w, hwrunning, (Finset.mem_filter.mp hwseen).2⟩

/-- A row with the entries of a running majority passes the test, if it is tested. -/
theorem canDeliver_ne_false (hs : (netSystem cfg numMsg allowed).Reachable s)
    (hin : InTables cfg s.world) (hmost : cfg.numProc < 2 * (s.running cfg).card) {p id : ℕ}
    (hp : cfg.IsPid p)
    (hread : ∀ q ∈ s.running cfg, tableReadEntry (s p).data.urbacks (rowId cfg.numProc id q) = 1)
    (hrow : cfg.numProc * id + cfg.numProc < (s p).data.urbacks.totalEntries) :
    canDeliver (s p).data.urbacks id ≠ some false := by
  have hsafe : SafeInv cfg s.world p (s p).data := (systemInv_of_reachable hs).net.safe hin p hp
  have hbound : cfg.numProc * id + cfg.numProc < 2 ^ 32 := by
    have htotal := hsafe.urbacksTotal
    have hlt := uidTotal_lt cfg
    omega
  have hsubset : s.running cfg ⊆ (Finset.Icc 1 cfg.numProc).filter fun q =>
      (s p).data.urbacks.entries (rowId cfg.numProc id q) = 1 := by
    intro q hq
    have hentry := hread q hq
    rw [tableReadEntry_of_lt (lt_of_tableReadEntry_ne_zero (by rw [hentry]; exact one_ne_zero))]
      at hentry
    exact Finset.mem_filter.mpr ⟨(Finset.mem_filter.mp hq).1, hentry⟩
  have hcard := Finset.card_le_card hsubset
  have hcount : cfg.numProc / 2 < ((Finset.Icc 1 cfg.numProc).filter fun q =>
      (s p).data.urbacks.entries (rowId cfg.numProc id q) = 1).card := by omega
  rw [canDeliver_eq hsafe.urbacksProcess hbound, if_neg (not_le.mpr hrow)]
  split
  · exact nofun
  · rw [decide_eq_true hcount]
    decide

end Run

/-- Three processes that list only themselves. -/
def threeMembership : Membership where
  numProc := 3
  dependencies := [[1], [2], [3]]
  numProc_pos := by decide
  numProc_lt := by decide
  length_dependencies := rfl
  mem_range := by decide

/-- Process `1` broadcasts a message.  Process `2` relays it and crashes, process `3`
acknowledges it and stands before `is_delivered`; process `1` gets both answers. -/
def inHand : NetSystem :=
  let msg : LcbMsg := ⟨[0, 0, 0], 1⟩
  let sent := fun dest => (bebTask 3 1 ⟨msg, 0, 0⟩ dest).msg
  let relayed := (bebTask 3 2 ⟨msg, 0, 1⟩ 1).msg
  play threeMembership (fun _ => 1) shortMachine
    [(1, .copy), (1, .broadcast), (1, .bebMain), (1, .bebMain), (1, .bebMain),
      (1, .dequeue 0), (1, .test 0), (1, .attempt true 0),
      (1, .dequeue 1), (1, .test 1), (1, .attempt true 1),
      (2, .receive true (sent 2)), (2, .deliverBeb), (2, .bebReceiver),
      (2, .dequeue 0), (2, .test 0), (2, .attempt true 0), (2, .crash),
      (3, .receive true (sent 3)), (1, .receive true (ackMsg 3 (sent 3))),
      (1, .receive true relayed), (1, .deliverBeb)]

end CausalBroadcast
