import CausalBroadcast.Causal.Fifo

/-!
# Localized causal order

The clock copy of a message `msg` of `p` counts, for each `q`, the deliveries
from `q` before the copy.  When `q` lists itself, these are the first broadcasts
of `q`, and so are the deliveries from `q` at any other process; equal counts
then mean equal messages, and `causalOrder_of_reachable` follows.

When a listed `q` does not list itself, the same count can stand for different
messages: `q` broadcasts two messages, `p` delivers the first and broadcasts, and
a third process may deliver the second of `q` and then the message of `p`.
-/

namespace CausalBroadcast

/-- `test_vec_clock` has accepted `msg` at `P`, after the deliveries `pre`. -/
def Accepted (P : LcbProcess) (msg : LcbMsg) (pre : List LcbMsg) : Prop :=
  pre ++ [msg] <+: P.data.delivered ∨
    (∃ site, P.receiver = .updating msg site) ∧ P.data.delivered = pre

/-- If `p` delivered `earlier`, a message of a process it lists, before it took
the clock copy for its own message `msg`, then every process delivers `earlier`
before `msg`. -/
def CausalOrder (cfg : Membership) (s : LcbSystem) : Prop :=
  ∀ p, cfg.IsPid p → ∀ msg past, (msg, past) ∈ (s.process p).copies →
    ∀ earlier ∈ past, earlier.originalSender ∈ cfg.deps p →
      ∀ r, cfg.IsPid r → ∀ pre, Accepted (s.process r) msg pre → earlier ∈ pre

section Order

variable {cfg : Membership} {s : LcbSystem}

/-- What an accepted message finds: the deliveries before it, which meet it. -/
theorem Accepted.met (hs : (lcbSystem cfg).Reachable s) {r : ℕ} (hr : cfg.IsPid r) {msg : LcbMsg}
    {pre : List LcbMsg} (haccepted : Accepted (s.process r) msg pre) :
    pre <+: (s.process r).data.delivered ∧ Met cfg pre msg := by
  have hP := (lcbInv_of_reachable hs).process r hr
  rcases haccepted with hpref | ⟨⟨site, hreceiver⟩, rfl⟩
  · exact ⟨(List.prefix_append ..).trans hpref,
      (deliveryInv_of_reachable hs r hr).delivered pre msg hpref⟩
  · have hheld := hP.receiver
    rw [hreceiver] at hheld
    exact ⟨List.prefix_refl _, (ready_iff_met hP.clock msg).mp hheld.2.2.1⟩

/-- Deliveries of a process that lists itself, up to two points of a run. -/
theorem fromSender_prefix_of_length_le (hs : (lcbSystem cfg).Reachable s) {p r q : ℕ}
    (hp : cfg.IsPid p) (hr : cfg.IsPid r) (hself : q ∈ cfg.deps q) {past pre : List LcbMsg}
    (hpast : past <+: (s.process p).data.delivered) (hpre : pre <+: (s.process r).data.delivered)
    (hle : (fromSender q past).length ≤ (fromSender q pre).length) :
    fromSender q past <+: fromSender q pre := by
  have hinv := lcbInv_of_reachable hs
  have hbroadcast : ∀ {x : ℕ}, cfg.IsPid x → ∀ {l : List LcbMsg},
      l <+: (s.process x).data.delivered → fromSender q l <+: fromSender q s.broadcast := by
    intro x hx l hl
    have hP := hinv.process x hx
    exact (fromSender_mono hl).trans <| fromSender_prefix_broadcast hinv.broadcast hself
      hP.delivered_nodup (List.Subset.trans hP.delivered_subset hP.handed_subset)
      (deliveryInv_of_reachable hs x hx).delivered
  exact List.prefix_of_prefix_length_le (hbroadcast hp hpast) (hbroadcast hr hpre) hle

theorem causalOrder_of_reachable (hself : ∀ p q, cfg.IsPid p → q ∈ cfg.deps p → q ∈ cfg.deps q)
    (hs : (lcbSystem cfg).Reachable s) : CausalOrder cfg s := by
  intro p hp msg past hcopy earlier hearlier hlisted r hr pre haccepted
  obtain ⟨hpre, hmet⟩ := haccepted.met hs hr
  have hmsg := (deliveryInv_of_reachable hs p hp).copies _ hcopy
  set q := earlier.originalSender with hq
  have hcarried : (fromSender q past).length ≤ entry msg.vecClock q := by
    by_cases hqp : q = p
    · rw [hqp]
      exact hmsg.own
    · exact (hmsg.entry q (Membership.isPid_of_mem_deps hlisted) hqp).ge
  have hreached : entry msg.vecClock q ≤ (fromSender q pre).length :=
    hmet q (hmsg.originalSender ▸ hlisted)
  have hpref := fromSender_prefix_of_length_le hs hp hr (hself p q hp hlisted) hmsg.past hpre
    (hcarried.trans hreached)
  have hin : earlier ∈ fromSender q pre :=
    hpref.subset (mem_fromSender.mpr ⟨hearlier, hq.symm⟩)
  exact (mem_fromSender.mp hin).1

end Order

/-! ## A listed process that does not list itself -/

section Cross

variable {cfg : Membership} {p q : ℕ}

/-- `p` after it has delivered the first message of `q`. -/
def crossP (cfg : Membership) (p q : ℕ) : LcbProcess :=
  (LcbProcess.initial cfg p).afterDeliver (earlyMsg cfg q 1)

/-- The message that `p` broadcasts then. -/
def crossMsg (cfg : Membership) (p q : ℕ) : LcbMsg := (crossP cfg p q).next p 1

/-- `q` after it has broadcast two messages and delivered the second. -/
def crossQ (cfg : Membership) (q : ℕ) : LcbProcess :=
  (((LcbProcess.initial cfg q).afterSend q 1).afterSend q 2).afterDeliver (earlyMsg cfg q 2)

theorem ready_crossMsg (hp : cfg.IsPid p) (q : ℕ) :
    Ready cfg (crossQ cfg q).data.vectorClock (crossMsg cfg p q) := by
  intro r hr
  have hrange := Membership.isPid_of_mem_deps hr
  have hle : p ≤ (bump (List.replicate cfg.numProc 0) q).length := by
    rw [length_bump, List.length_replicate]
    exact hp.2
  show entry ((bump (List.replicate cfg.numProc 0) q).set (p - 1) 0) r ≤
    entry (bump (List.replicate cfg.numProc 0) q) r
  rw [entry_set _ hp.1 hle hrange.1]
  split
  · exact Nat.zero_le _
  · exact le_rfl

/-- `q` delivers its second message and then the message of `p`, which `p` sent
after it had delivered the first. -/
theorem reachable_cross (cfg : Membership) {p q : ℕ} (hp : cfg.IsPid p)
    (hlisted : q ∈ cfg.deps p) (hself : q ∉ cfg.deps q) :
    ∃ s, (lcbSystem cfg).Reachable s ∧
      (crossMsg cfg p q, [earlyMsg cfg q 1]) ∈ (s.process p).copies ∧
      (s.process q).data.delivered = [earlyMsg cfg q 2, crossMsg cfg p q] := by
  have hq := Membership.isPid_of_mem_deps hlisted
  have hpq : p ≠ q := by
    rintro rfl
    exact hself hlisted
  -- `p` delivers the first message of `q`
  have hfirst : (lcbSystem cfg).Reachable ((twoSent cfg q).set p (crossP cfg p q)) := by
    have := Reachable.deliver (earlyMsg cfg q 1) (reachable_twoSent hq) hp
      (by rw [twoSent_process_of_ne cfg hpq]; rfl) (by rw [twoSent_broadcast]; simp)
      (by rw [twoSent_process_of_ne cfg hpq]; exact List.not_mem_nil) (ready_earlyMsg hq hself _ _)
      (by rw [twoSent_process_of_ne cfg hpq]; exact noPending_initial cfg p)
    rwa [twoSent_process_of_ne cfg hpq] at this
  -- `p` broadcasts
  have hsent := Reachable.sendLcb (i := 1) hfirst hp
    (by rw [LcbSystem.set_process_self]; rfl) (by rw [LcbSystem.set_process_self]; rfl)
    (by norm_num)
  set sent := ((twoSent cfg q).set p (crossP cfg p q)).sendLcb p 1 with hdef
  have hbroadcast : sent.broadcast = [earlyMsg cfg q 1, earlyMsg cfg q 2, crossMsg cfg p q] := by
    rw [hdef, LcbSystem.sendLcb_broadcast, LcbSystem.set_process_self, LcbSystem.set_broadcast,
      twoSent_broadcast]
    rfl
  have hcopies : (crossMsg cfg p q, [earlyMsg cfg q 1]) ∈ (sent.process p).copies := by
    rw [hdef, LcbSystem.sendLcb_process_self, LcbSystem.set_process_self]
    exact List.mem_singleton.mpr rfl
  have hprocess : sent.process q =
      ((LcbProcess.initial cfg q).afterSend q 1).afterSend q 2 := by
    rw [hdef, LcbSystem.sendLcb_process_of_ne _ _ hpq.symm,
      LcbSystem.set_process_of_ne _ _ hpq.symm, twoSent_process_self]
  -- `q` delivers its second message
  have hsecond : (lcbSystem cfg).Reachable (sent.set q (crossQ cfg q)) := by
    have := Reachable.deliver (earlyMsg cfg q 2) hsent hq
      (by rw [hprocess]; rfl) (by rw [hbroadcast]; simp)
      (by rw [hprocess]; exact List.not_mem_nil) (ready_earlyMsg hq hself _ _)
      (by rw [hprocess]; exact noPending_initial cfg q)
    rwa [hprocess] at this
  -- `q` delivers the message of `p`
  have hne : crossMsg cfg p q ≠ earlyMsg cfg q 2 := fun heq =>
    hpq (congrArg LcbMsg.originalSender heq)
  have hthird := Reachable.deliver (crossMsg cfg p q) hsecond hq
    (by rw [LcbSystem.set_process_self]; rfl)
    (by rw [LcbSystem.set_broadcast, hbroadcast]; simp)
    (by rw [LcbSystem.set_process_self]; exact fun hin => hne (List.mem_singleton.mp hin))
    (by rw [LcbSystem.set_process_self]; exact ready_crossMsg hp q)
    (by rw [LcbSystem.set_process_self]; exact noPending_initial cfg q)
  refine ⟨_, hthird, ?_, ?_⟩
  · rw [LcbSystem.set_process_of_ne _ _ hpq, LcbSystem.set_process_of_ne _ _ hpq]
    exact hcopies
  · rw [LcbSystem.set_process_self, LcbSystem.set_process_self]
    rfl

theorem not_causalOrder (hp : cfg.IsPid p) (hlisted : q ∈ cfg.deps p) (hself : q ∉ cfg.deps q) :
    ∃ s, (lcbSystem cfg).Reachable s ∧ ¬ CausalOrder cfg s := by
  obtain ⟨s, hs, hcopies, hdelivered⟩ := reachable_cross cfg hp hlisted hself
  have hq := Membership.isPid_of_mem_deps hlisted
  refine ⟨s, hs, fun horder => ?_⟩
  have hin := horder p hp _ _ hcopies (earlyMsg cfg q 1) (List.mem_singleton.mpr rfl) hlisted q hq
    [earlyMsg cfg q 2] (.inl (by rw [hdelivered]; exact List.prefix_refl _))
  have hentry := congrArg (fun msg : LcbMsg => entry msg.vecClock q) (List.mem_singleton.mp hin)
  simp [entry_earlyMsg hq _ hq] at hentry

/-- Causal order holds in every run exactly when every listed process lists
itself. -/
theorem causalOrder_iff (cfg : Membership) :
    (∀ s, (lcbSystem cfg).Reachable s → CausalOrder cfg s) ↔
      ∀ p q, cfg.IsPid p → q ∈ cfg.deps p → q ∈ cfg.deps q := by
  constructor
  · intro horder p q hp hlisted
    by_contra hself
    obtain ⟨s, hs, hnot⟩ := not_causalOrder hp hlisted hself
    exact hnot (horder s hs)
  · exact fun hself s hs => causalOrder_of_reachable hself hs

/-- In the configuration of `test_correctness.sh`, process `2` delivers a message
of process `1` without the message of process `2` that process `1` had delivered
before. -/
theorem testMembership_cross : ∃ s, (lcbSystem testMembership).Reachable s ∧
    (⟨[0, 1, 0, 0, 0], 1⟩, [⟨[0, 0, 0, 0, 0], 2⟩]) ∈ (s.process 1).copies ∧
    (s.process 2).data.delivered = [⟨[0, 1, 0, 0, 0], 2⟩, ⟨[0, 1, 0, 0, 0], 1⟩] ∧
    ¬ CausalOrder testMembership s := by
  obtain ⟨s, hs, hcopies, hdelivered⟩ := reachable_cross testMembership (p := 1) (q := 2)
    (by decide) (by decide) (by decide)
  refine ⟨s, hs, hcopies, hdelivered, fun horder => ?_⟩
  have hin := horder 1 (by decide) _ _ hcopies _ (List.mem_singleton.mpr rfl) (by decide) 2
    (by decide) [⟨[0, 1, 0, 0, 0], 2⟩] (.inl (by rw [hdelivered]; exact List.prefix_refl _))
  exact absurd hin (by decide)

end Cross

end CausalBroadcast
