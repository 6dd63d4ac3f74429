import CausalBroadcast.Causal.Order
import CausalBroadcast.Stack.Refinement

/-!
# What the stack guarantees

`stack_refines_lcb` says what the refinement says of a state.  With it the results
about the causal layer alone become results about `main`, the sender threads and the
receiver thread of each process, run over the network:

* `stack_causalOrder`: deliveries respect causality over the listed processes, along
  chains of messages of any length;
* `stack_delivery`: a delivery is the delivery of a broadcast that a majority has
  seen, happens once, and comes in the order of the sender.

Both need the rows of the messages to lie inside the tables (`InTables`), as the
layers below do.
-/

namespace CausalBroadcast

/-! ## The system with whole calls -/

section Calls

variable {cfg : Membership} {numMsg : ℕ → ℕ} {allowed : NetAction → Prop} {n : NetSystem}

end Calls

/-! ## The causal layer alone -/

section Guarantees

variable {cfg : Membership} {numMsg : ℕ → ℕ} {s : StackSystem}

/-- Seen from `deliver_lcb`, a state of the stack is a state of the causal layer alone
over a broadcast that hands over each message at most once: the data of the layer, the
messages handed over, the clock copies and the place of the receiver thread are the
same, and the messages broadcast are the first that `send_urb` was called with. -/
theorem stack_refines_lcb (hs : (stackSystem cfg numMsg).Reachable s)
    (hin : InTables cfg s.world) : ∃ t, (lcbSystem cfg).Reachable t ∧ ∀ p, cfg.IsPid p →
      (t.process p).data = (s p).net.data.lcb ∧
      (t.process p).handed = (s p).net.data.deliveredLcb.map UrbMsg.lcbMsg ∧
      (t.process p).copies = (s p).copies ∧
      fromSender p t.broadcast <+: (s p).net.data.sentUrb ∧
      ((s p).net.status = .running → (t.process p).receiver = (s p).receiver) := by
  obtain ⟨t, ht, hrefines⟩ := exists_stackRefines hs hin
  refine ⟨t, ht, fun p hp => ?_⟩
  have hP := hrefines.process p hp
  exact ⟨hP.data, hP.handed, hP.copies, hrefines.sentUrb p hp, hP.receiver⟩

/-- In the exchange, process `2` of the causal layer alone has delivered the message. -/
theorem exchanged_refines_lcb : ∃ t, (lcbSystem fifoMembership).Reachable t ∧
    (t.process 2).handed = [firstMsg] ∧ (t.process 2).data.log = [.deliver 1 1] := by
  obtain ⟨s, hs, hmatches⟩ := exists_netMatches exchanged_reachable fun q hq => exchanged_sane hq
  have hworld : s.world = exchanged.world := funext fun q => (hmatches q).data
  obtain ⟨t, ht, hrefines⟩ := stack_refines_lcb hs (hworld ▸ exchanged_inTables)
  obtain ⟨hdata, hhanded, -⟩ := hrefines 2 (by decide)
  refine ⟨t, ht, ?_, ?_⟩
  · rw [hhanded, (hmatches 2).data]
    decide +kernel
  · rw [hdata, (hmatches 2).data]
    decide +kernel

/-! ## Causal order -/

/-- Every message that was broadcast has a clock copy, and so a past. -/
theorem exists_copy_of_reachable {t : LcbSystem} (ht : (lcbSystem cfg).Reachable t) :
    ∀ msg ∈ t.broadcast, ∃ past, (msg, past) ∈ (t.process msg.originalSender).copies := by
  -- the main thread has a copy of the message that it holds
  let Held (P : LcbProcess) : Prop := ∀ i msg, P.main = .copied i msg ∨ P.main = .logged i msg →
    ∃ past, (msg, past) ∈ P.copies
  suffices h : (∀ p, cfg.IsPid p → Held (t.process p)) ∧
      ∀ msg ∈ t.broadcast, ∃ past, (msg, past) ∈ (t.process msg.originalSender).copies from h.2
  refine ht.invariant (I := fun t => (∀ p, cfg.IsPid p → Held (t.process p)) ∧
    ∀ msg ∈ t.broadcast, ∃ past, (msg, past) ∈ (t.process msg.originalSender).copies) ?_ ?_
  · rintro _ rfl
    refine ⟨fun p _ i msg hmain => ?_, fun msg hmsg => nomatch hmsg⟩
    rcases hmain with hmain | hmain <;> cases hmain
  · rintro t t' ht ⟨hheld, hbroadcast⟩ ⟨p, action, hp, hstep⟩
    -- a process that keeps its copies keeps the pasts of its messages
    have hset : ∀ P' : LcbProcess, (t.process p).copies ⊆ P'.copies → Held P' →
        (∀ q, cfg.IsPid q → Held ((t.set p P').process q)) ∧
        ∀ msg ∈ t.broadcast, ∃ past, (msg, past) ∈ ((t.set p P').process
          msg.originalSender).copies := by
      intro P' hcopies hP'
      refine ⟨LcbSystem.forall_set hheld hP', fun msg hmsg => ?_⟩
      obtain ⟨past, hpast⟩ := hbroadcast msg hmsg
      by_cases hsender : msg.originalSender = p
      · rw [hsender] at hpast ⊢
        rw [LcbSystem.set_process_self]
        exact ⟨past, hcopies hpast⟩
      · rw [t.set_process_of_ne _ hsender]
        exact ⟨past, hpast⟩
    cases hstep with
    | @copy i msg data hdefined hmain hi hcall =>
        refine hset _ (List.subset_append_left ..) fun i' msg' hmain' => ?_
        rcases hmain' with hmain' | hmain'
        · obtain ⟨rfl, rfl⟩ := MainThread.copied.inj hmain'
          exact ⟨_, List.mem_append_right _ (List.mem_singleton_self _)⟩
        · cases hmain'
    | @logBroadcast i msg data hdefined hmain hcall =>
        refine hset _ (List.Subset.refl _) fun i' msg' hmain' => ?_
        rcases hmain' with hmain' | hmain'
        · cases hmain'
        · obtain ⟨rfl, rfl⟩ := MainThread.logged.inj hmain'
          exact hheld p hp _ _ (.inl hmain)
    | @send i msg hdefined hmain =>
        obtain ⟨hothers, hold⟩ := hset { t.process p with main := .ready (i + 1) }
          (List.Subset.refl _) fun i' msg' hmain' => by rcases hmain' with h | h <;> cases h
        refine ⟨hothers, fun msg' hmsg' => ?_⟩
        rcases List.mem_append.mp hmsg' with hmsg' | hmsg'
        · exact hold msg' hmsg'
        · rw [List.mem_singleton.mp hmsg']
          have hplace := ((lcbInv_of_reachable ht).process p hp).main
          rw [hmain] at hplace
          have hsender : msg.originalSender = p := hplace.2.1
          rw [hsender]
          show ∃ past, (msg, past) ∈ ((t.set p _).process p).copies
          rw [LcbSystem.set_process_self]
          exact hheld p hp i msg (.inr hmain)
    | hand hidle hmem hnew => exact hset _ (List.Subset.refl _) (hheld p hp)
    | receive hdefined => exact hset _ (List.Subset.refl _) (hheld p hp)

/-- `earlier` comes before `msg` in the causality that the dependencies name: the sender
of `msg` lists itself and broadcast `earlier` before, or it delivered `earlier`, a
message of a process it lists, before it took the clock copy for `msg`. -/
inductive Precedes (cfg : Membership) (s : StackSystem) (earlier msg : LcbMsg) : Prop
  | sent {p i j : ℕ} (hp : cfg.IsPid p) (hself : p ∈ cfg.deps p) (hlt : i < j)
      (hearlier : (s p).net.data.sentUrb[i]? = some earlier)
      (hmsg : (s p).net.data.sentUrb[j]? = some msg)
  | delivered {p : ℕ} {past : List LcbMsg} (hp : cfg.IsPid p)
      (hcopy : (msg, past) ∈ (s p).copies) (hearlier : earlier ∈ past)
      (hlisted : earlier.originalSender ∈ cfg.deps p)

/-- What `r` has delivered from a process that lists itself is what that process has
sent, from the first message on. -/
theorem fromSender_prefix_sentUrb {t : LcbSystem} (ht : (lcbSystem cfg).Reachable t)
    (h : StackRefines cfg s t) {q r : ℕ} (hq : cfg.IsPid q) (hr : cfg.IsPid r)
    (hself : q ∈ cfg.deps q) :
    fromSender q (s r).net.data.lcb.delivered <+: (s q).net.data.sentUrb := by
  have hinv := lcbInv_of_reachable ht
  have hR := hinv.process r hr
  have hbroadcast : fromSender q (t.process r).data.delivered <+: fromSender q t.broadcast :=
    fromSender_prefix_broadcast hinv.broadcast hself hR.delivered_nodup
      (List.Subset.trans hR.delivered_subset hR.handed_subset)
      (deliveryInv_of_reachable ht r hr).delivered
  rw [(h.process r hr).data] at hbroadcast
  exact hbroadcast.trans (h.sentUrb q hq)

/-- One link of a causal chain. -/
theorem Precedes.mem_of_delivered {t : LcbSystem} (ht : (lcbSystem cfg).Reachable t)
    (hinv : SystemInv cfg s.net) (h : StackRefines cfg s t)
    (hself : ∀ p q, cfg.IsPid p → q ∈ cfg.deps p → q ∈ cfg.deps q) {earlier msg : LcbMsg}
    (hprecedes : Precedes cfg s earlier msg) {r : ℕ} (hr : cfg.IsPid r) {pre : List LcbMsg}
    (hdelivered : pre ++ [msg] <+: (s r).net.data.lcb.delivered) : earlier ∈ pre := by
  cases hprecedes with
  | @sent p i j hp hlists hlt hearlier hmsg =>
      have hdata : DataInv cfg s.world p (s p).net.data := hinv.net.data p hp
      have hsender : msg.originalSender = p :=
        hdata.sentUrb msg (List.mem_of_getElem? hmsg)
      have hprefix : fromSender p pre ++ [msg] <+: (s p).net.data.sentUrb := by
        refine List.IsPrefix.trans ?_ (fromSender_prefix_sentUrb ht h hp hr hlists)
        have hmono := fromSender_mono (q := p) hdelivered
        rw [fromSender_append, ← hsender, fromSender_singleton_self] at hmono
        rw [← hsender]
        exact hmono
      -- the messages of `p` before `msg` are as many as its own entry says
      have hlast : (s p).net.data.sentUrb[(fromSender p pre).length]? = some msg := by
        obtain ⟨rest, hrest⟩ := hprefix
        rw [← hrest, List.append_assoc, List.getElem?_append_right le_rfl, Nat.sub_self]
        rfl
      have hj : j = (fromSender p pre).length :=
        (h.own p hp j msg hmsg).symm.trans (h.own p hp _ msg hlast)
      have hin : (fromSender p pre)[i]? = some earlier := by
        rw [← hearlier]
        obtain ⟨rest, hrest⟩ := (List.prefix_append _ _).trans hprefix
        rw [← hrest, List.getElem?_append_left (by omega)]
      exact (mem_fromSender.mp (List.mem_of_getElem? hin)).1
  | @delivered p past hp hcopy hearlier hlisted =>
      have horder := causalOrder_of_reachable hself ht
      refine horder p hp msg past ?_ earlier hearlier hlisted r hr pre (.inl ?_)
      · rw [(h.process p hp).copies]
        exact hcopy
      · rw [(h.process r hr).data]
        exact hdelivered

end Guarantees

/-! ## A broadcast and its answer -/

/-- Process `2` lists process `1`. -/
def chainMembership : Membership :=
  { fifoMembership with
    dependencies := [[1], [2, 1]]
    length_dependencies := rfl
    mem_range := by decide }

theorem chainMembership_self (p q : ℕ) (_ : chainMembership.IsPid p)
    (hq : q ∈ chainMembership.deps p) : q ∈ chainMembership.deps q := by
  have hq' : chainMembership.IsPid q := Membership.isPid_of_mem_deps hq
  have hlast : q ≤ 2 := hq'.2
  have hfirst : 1 ≤ q := hq'.1
  rcases (show q = 1 ∨ q = 2 by omega) with rfl | rfl
  · decide
  · decide

/-- The message that process `2` broadcasts when it has delivered that of process `1`. -/
def answerMsg : LcbMsg := ⟨[1, 0], 2⟩

/-- Process `2` broadcasts its message, and process `1` delivers it. -/
def answer : List (ℕ × NetAction) :=
  let sent := (bebTask 2 2 ⟨answerMsg, 1, 3⟩ 1).msg
  [(2, .copy), (2, .broadcast), (2, .bebMain), (2, .bebMain), (2, .next),
    (2, .dequeue 1), (2, .test 1), (2, .attempt true 1),
    (1, .receive true sent), (1, .deliverBeb), (1, .bebReceiver), (1, .bebReceiver), (1, .finish)]

/-- The state after the exchange and the answer. -/
def answered : NetSystem :=
  play chainMembership (fun _ => 1) shortMachine (exchange ++ answer)

theorem answered_reachable :
    (netSystem chainMembership (fun _ => 1) fun _ => True).Reachable answered :=
  reachable_play fun _ _ => trivial

theorem answered_inTables : InTables chainMembership answered.world := by
  intro p hp id hseen
  obtain ⟨o, i, ⟨ho, ho'⟩, hi, hlength, rfl⟩ :=
    (systemInv_of_reachable answered_reachable).exists_sent hp hseen
  have hfirst : (answered 1).data.sentUrb.length = 1 := by decide +kernel
  have hsecond : (answered 2).data.sentUrb.length = 1 := by decide +kernel
  have hlast : o ≤ 2 := ho'
  rcases (show o = 1 ∨ o = 2 by omega) with rfl | rfl
  · obtain rfl : i = 1 := by omega
    decide
  · obtain rfl : i = 1 := by omega
    decide

theorem answered_sane {p : ℕ} (hp : chainMembership.IsPid p) : (answered p).Sane := by
  have hlast : p ≤ 2 := hp.2
  have hfirst : 1 ≤ p := hp.1
  rcases (show p = 1 ∨ p = 2 by omega) with rfl | rfl
  · decide +kernel
  · decide +kernel

/-- The broadcast and its answer with all layers; process `2` took the clock copy for its
message after it had delivered the first. -/
theorem exists_answered : ∃ s, (stackSystem chainMembership fun _ => 1).Reachable s ∧
    InTables chainMembership s.world ∧ Precedes chainMembership s firstMsg answerMsg ∧
    (s 1).net.data.lcb.delivered = [firstMsg, answerMsg] := by
  obtain ⟨s, hs, hmatches⟩ := exists_netMatches answered_reachable fun q hq => answered_sane hq
  have hworld : s.world = answered.world := funext fun q => (hmatches q).data
  have hin : InTables chainMembership s.world := hworld ▸ answered_inTables
  have hlast : (s 1).net.data.lcb.delivered = [firstMsg, answerMsg] := by
    rw [(hmatches 1).data]
    decide +kernel
  refine ⟨s, hs, hin, ?_, hlast⟩
  obtain ⟨t, ht, h⟩ := exists_stackRefines hs hin
  have hP := (lcbInv_of_reachable ht).process 1 (by decide)
  have hbroadcast : answerMsg ∈ t.broadcast := by
    refine hP.handed_subset (hP.delivered_subset ?_)
    rw [(h.process 1 (by decide)).data, hlast]
    decide
  obtain ⟨past, hcopy⟩ := exists_copy_of_reachable ht answerMsg hbroadcast
  have hpast := (deliveryInv_of_reachable ht 2 (by decide)).copies _ hcopy
  -- what process `2` had delivered is its whole history, which has one message
  have hcount : (fromSender 1 past).length = 1 := (hpast.entry 1 (by decide) (by decide)).symm
  have hdelivered : (answered 2).data.lcb.delivered = [firstMsg] := by decide +kernel
  have hprefix : past <+: [firstMsg] := by
    rw [← hdelivered, ← (hmatches 2).data, ← (h.process 2 (by decide)).data]
    exact hpast.past
  have hwhole : past = [firstMsg] := by
    refine hprefix.eq_of_length_le ?_
    calc [firstMsg].length = (fromSender 1 past).length := hcount.symm
      _ ≤ past.length := List.length_filter_le _ _
  subst hwhole
  rw [show answerMsg.originalSender = 2 from rfl, (h.process 2 (by decide)).copies] at hcopy
  exact .delivered (p := 2) (by decide) hcopy (List.mem_singleton_self _) (by decide)

/-! ## End to end -/

section EndToEnd

variable {cfg : Membership} {numMsg : ℕ → ℕ} {s : StackSystem}

/-- Localized causal order, end to end: when the listed processes list themselves, every
process that delivers `msg` has delivered before it every message at the other end of a
causal chain to `msg`. -/
theorem stack_causalOrder (hself : ∀ p q, cfg.IsPid p → q ∈ cfg.deps p → q ∈ cfg.deps q)
    (hs : (stackSystem cfg numMsg).Reachable s) (hin : InTables cfg s.world)
    {earlier msg : LcbMsg} (hchain : Relation.TransGen (Precedes cfg s) earlier msg) {r : ℕ}
    (hr : cfg.IsPid r) {pre : List LcbMsg}
    (hdelivered : pre ++ [msg] <+: (s r).net.data.lcb.delivered) : earlier ∈ pre := by
  obtain ⟨t, ht, h⟩ := exists_stackRefines hs hin
  have hinv := systemInv_of_stackReachable hs
  induction hchain generalizing pre with
  | single hlink => exact hlink.mem_of_delivered ht hinv h hself hr hdelivered
  | @tail middle msg _ hlink ih =>
      have hmiddle : middle ∈ pre := hlink.mem_of_delivered ht hinv h hself hr hdelivered
      obtain ⟨before, after, rfl⟩ := List.append_of_mem hmiddle
      have hbefore : before ++ [middle] <+: (s r).net.data.lcb.delivered := by
        refine List.IsPrefix.trans ⟨after ++ [msg], ?_⟩ hdelivered
        simp only [List.append_assoc, List.cons_append, List.nil_append]
      exact List.mem_append_left _ (ih hbefore)

/-- Process `1` delivers the answer, and before it the message that it answers. -/
theorem answered_causalOrder : ∃ s, (stackSystem chainMembership fun _ => 1).Reachable s ∧
    Precedes chainMembership s firstMsg answerMsg ∧
    [firstMsg] ++ [answerMsg] <+: (s 1).net.data.lcb.delivered ∧ firstMsg ∈ [firstMsg] := by
  obtain ⟨s, hs, hin, hprecedes, hdelivered⟩ := exists_answered
  have hlast : [firstMsg] ++ [answerMsg] <+: (s 1).net.data.lcb.delivered := by
    rw [hdelivered]
    exact List.prefix_refl _
  refine ⟨s, hs, hprecedes, hlast, ?_⟩
  exact stack_causalOrder chainMembership_self hs hin (.single hprecedes) (r := 1) (by decide) hlast

/-- Every message that is delivered was broadcast by its sender and seen by a majority,
none is delivered twice, and those of a sender that lists itself come in its order from
the first on. -/
theorem stack_delivery (hs : (stackSystem cfg numMsg).Reachable s)
    (hin : InTables cfg s.world) {p : ℕ} (hp : cfg.IsPid p) :
    (s p).net.data.lcb.delivered.Nodup ∧
    (∀ msg ∈ (s p).net.data.lcb.delivered, cfg.IsPid msg.originalSender ∧
      (s msg.originalSender).net.data.sentUrb[entry msg.vecClock msg.originalSender]? =
        some msg ∧
      ∃ id, Broadcast cfg s.world id msg ∧ SeenByMajority cfg s.world id) ∧
    ∀ q, cfg.IsPid q → q ∈ cfg.deps q →
      fromSender q (s p).net.data.lcb.delivered <+: (s q).net.data.sentUrb := by
  obtain ⟨t, ht, h⟩ := exists_stackRefines hs hin
  have hP := (lcbInv_of_reachable ht).process p hp
  have hsafe : SafeInv cfg s.world p (s p).net.data :=
    (systemInv_of_stackReachable hs).net.safe hin p hp
  rw [← (h.process p hp).data]
  refine ⟨hP.delivered_nodup, fun msg hmsg => ?_, fun q hq hself => ?_⟩
  · -- the message was passed up by `deliver_urb`
    have hhanded := hP.delivered_subset hmsg
    rw [(h.process p hp).handed] at hhanded
    obtain ⟨urbMsg, hurbMsg, rfl⟩ := List.mem_map.mp hhanded
    obtain ⟨hbroadcast, hmajority, -⟩ := hsafe.deliveredLcb urbMsg hurbMsg
    obtain ⟨i, hi, hsent, -⟩ := hbroadcast.sent
    refine ⟨hbroadcast.isPid, ?_, urbMsg.seenId, hbroadcast, hmajority⟩
    rw [h.own _ hbroadcast.isPid (i - 1) urbMsg.lcbMsg hsent]
    exact hsent
  · rw [(h.process p hp).data]
    exact fromSender_prefix_sentUrb ht h hq hp hself

/-- Both messages that process `1` delivers were broadcast and seen by a majority. -/
theorem answered_delivery : ∃ s, (stackSystem chainMembership fun _ => 1).Reachable s ∧
    ∀ msg ∈ [firstMsg, answerMsg],
      (s msg.originalSender).net.data.sentUrb[0]? = some msg ∧
      ∃ id, Broadcast chainMembership s.world id msg ∧
        SeenByMajority chainMembership s.world id := by
  obtain ⟨s, hs, hin, -, hdelivered⟩ := exists_answered
  obtain ⟨-, hgenuine, -⟩ := stack_delivery hs hin (p := 1) (by decide)
  rw [hdelivered] at hgenuine
  refine ⟨s, hs, fun msg hmsg => ?_⟩
  obtain ⟨-, hsent, hmajority⟩ := hgenuine msg hmsg
  refine ⟨?_, hmajority⟩
  -- each is the first message of its sender
  have hfirst : entry msg.vecClock msg.originalSender = 0 := by
    rcases List.mem_pair.mp hmsg with rfl | rfl <;> rfl
  rw [hfirst] at hsent
  exact hsent

end EndToEnd

end CausalBroadcast
