import CausalBroadcast.Causal.Runs

/-!
# Deliveries of one origin

`Met cfg pre msg` is what `test_vec_clock` asks of the deliveries `pre` before
`msg`.  Every process counts its messages in such a sequence
(`deliveryInv_of_reachable`).

When `q` is in its own dependency list, the entry that says how many messages `q`
had broadcast before takes part in the test, and the messages of `q` are
delivered in their broadcast order (`fromSender_prefix_broadcast`).  When it is
not, nothing orders them: `send_lcb` sets the own entry of every message, but
`test_vec_clock` reads the listed entries only, so two messages of `q` are
delivered in whatever order they arrive.  `truthfulDelivery_iff` says that the
delivery log is truthful exactly for the configurations in which every process
lists itself.
-/

namespace CausalBroadcast

/-- The deliveries in `pre` reach the listed entries of `msg`. -/
def Met (cfg : Membership) (pre : List LcbMsg) (msg : LcbMsg) : Prop :=
  ∀ q ∈ cfg.deps msg.originalSender, entry msg.vecClock q ≤ (fromSender q pre).length

instance (cfg : Membership) (pre : List LcbMsg) (msg : LcbMsg) : Decidable (Met cfg pre msg) :=
  inferInstanceAs (Decidable (∀ q ∈ cfg.deps msg.originalSender, _))

theorem monotoneReady_met (cfg : Membership) : MonotoneReady (Met cfg) :=
  fun _ _ _ hnodup hsubset hmet q hq =>
    (hmet q hq).trans (length_fromSender_le_of_subset hnodup hsubset)

/-- A clock with the counts of `delivered` lets `test_vec_clock` decide `Met`. -/
theorem ready_iff_met {cfg : Membership} {clock : List ℕ} {delivered : List LcbMsg}
    (hclock : ∀ q, cfg.IsPid q → entry clock q = (fromSender q delivered).length) (msg : LcbMsg) :
    Ready cfg clock msg ↔ Met cfg delivered msg :=
  forall₂_congr fun q hq => by rw [hclock q (Membership.isPid_of_mem_deps hq)]

/-! ## The order of the deliveries -/

/-- A step of the receiver thread leaves the histories of the main thread, and
adds to the deliveries at most the message that was accepted. -/
theorem ReceiveEffect.histories {cfg : Membership} {P P' : LcbProcess}
    (heffect : ReceiveEffect cfg P P') : P'.copies = P.copies ∧ P'.main = P.main ∧
      (P'.data.delivered = P.data.delivered ∨
        ∃ msg site, P.receiver = .updating msg site ∧
          P'.data.delivered = P.data.delivered ++ [msg]) := by
  cases heffect with
  | @count msg site hreceiver => exact ⟨rfl, rfl, .inr ⟨msg, site, hreceiver, rfl⟩⟩
  | _ => exact ⟨rfl, rfl, .inl rfl⟩

/-- A message `copy.1` whose clock was copied after the deliveries `copy.2`. -/
structure CopyInv (cfg : Membership) (p : ℕ) (delivered : List LcbMsg)
    (copy : LcbMsg × List LcbMsg) : Prop where
  originalSender : copy.1.originalSender = p
  past : copy.2 <+: delivered
  own : (fromSender p copy.2).length ≤ entry copy.1.vecClock p
  entry : ∀ q, cfg.IsPid q → q ≠ p → entry copy.1.vecClock q = (fromSender q copy.2).length

/-- The histories of a process. -/
structure DeliveryInv (cfg : Membership) (p : ℕ) (P : LcbProcess) : Prop where
  delivered : InSequence (Met cfg) P.data.delivered
  copies : ∀ copy ∈ P.copies, CopyInv cfg p P.data.delivered copy

section Step

variable {cfg : Membership} {s t : LcbSystem} {p : ℕ} {P P' : LcbProcess}

theorem DeliveryInv.receive {broadcast : List LcbMsg} (h : DeliveryInv cfg p P)
    (hP : ProcessInv cfg broadcast p P) (heffect : ReceiveEffect cfg P P') :
    DeliveryInv cfg p P' := by
  obtain ⟨hcopies, -, hdelivered | ⟨msg, site, hreceiver, hdelivered⟩⟩ := heffect.histories
  · exact ⟨hdelivered ▸ h.delivered, fun copy hcopy => hdelivered ▸ h.copies copy (hcopies ▸ hcopy)⟩
  · have hheld := hP.receiver
    rw [hreceiver] at hheld
    have hmet : Met cfg P.data.delivered msg := (ready_iff_met hP.clock msg).mp hheld.2.2.1
    refine ⟨hdelivered ▸ h.delivered.concat hmet, fun copy hcopy => ?_⟩
    have hold := h.copies copy (hcopies ▸ hcopy)
    exact { hold with past := hdelivered ▸ hold.past.trans (List.prefix_append ..) }

theorem DeliveryInv.step (hinv : LcbInv cfg s) (hp : cfg.IsPid p)
    (h : ∀ q, cfg.IsPid q → DeliveryInv cfg q (s.process q)) {action : LcbAction}
    (hstep : LcbStep s p action t) : ∀ q, cfg.IsPid q → DeliveryInv cfg q (t.process q) := by
  have hP := hinv.process p hp
  have hmainInv := hP.main
  have hset : ∀ {P' : LcbProcess}, DeliveryInv cfg p P' →
      ∀ q, cfg.IsPid q → DeliveryInv cfg q ((s.set p P').process q) :=
    fun hP' => LcbSystem.forall_set h hP'
  cases hstep with
  | @copy i msg data hdefined hmain hi hcall =>
      rw [hmain] at hmainInv
      rw [nextLcbMsg_eq hP.wellFormed hp] at hcall
      obtain ⟨rfl, rfl⟩ := Outcome.ok.inj hcall
      refine hset ⟨(h p hp).delivered, fun copy hcopy => ?_⟩
      rcases List.mem_append.mp hcopy with hcopy | hcopy
      · exact (h p hp).copies copy hcopy
      · rw [List.mem_singleton.mp hcopy]
        have hle := hP.wellFormed.vectorClock ▸ hp.2
        refine ⟨rfl, List.prefix_refl _, ?_, fun q hq hne => ?_⟩
        · have hcount : (fromSender p (s.process p).data.delivered).length ≤
              (fromSender p s.broadcast).length :=
            length_fromSender_le_of_subset hP.delivered_nodup
              (List.Subset.trans hP.delivered_subset hP.handed_subset)
          have hi : (fromSender p s.broadcast).length ≤ i - 1 := by
            have := hmainInv.1
            omega
          -- The own entry of the copy is overwritten with `i - 1`.
          rw [entry_set _ hp.1 hle hp.1, if_pos rfl]
          exact hcount.trans hi
        · rw [entry_set _ hp.1 hle hq.1, if_neg hne, hP.clock q hq]
  | logBroadcast hdefined hmain hcall =>
      obtain ⟨-, rfl⟩ := Outcome.ok.inj hcall
      exact hset ⟨(h p hp).delivered, (h p hp).copies⟩
  | send hdefined hmain => exact hset ⟨(h p hp).delivered, (h p hp).copies⟩
  | hand hidle hmem hnew => exact hset ⟨(h p hp).delivered, (h p hp).copies⟩
  | receive hdefined => exact hset ((h p hp).receive hP (receive_effect hinv.broadcast hP))

theorem deliveryInv_of_reachable (hs : (lcbSystem cfg).Reachable s) :
    ∀ p, cfg.IsPid p → DeliveryInv cfg p (s.process p) := by
  refine hs.invariant (I := fun s => ∀ p, cfg.IsPid p → DeliveryInv cfg p (s.process p)) ?_ ?_
  · rintro s rfl p _
    exact ⟨InSequence.nil, fun copy hcopy => absurd hcopy List.not_mem_nil⟩
  · rintro s t hs h ⟨p, action, hp, hstep⟩
    exact DeliveryInv.step (lcbInv_of_reachable hs) hp h hstep

end Step

/-! ## Broadcast order -/

section Fifo

variable {cfg : Membership} {broadcast l : List LcbMsg} {q : ℕ}

/-- The messages of a process that lists itself are counted in broadcast order. -/
theorem fromSender_prefix_broadcast (hbroadcast : BroadcastInv cfg broadcast)
    (hself : q ∈ cfg.deps q) (hnodup : l.Nodup) (hsubset : l ⊆ broadcast)
    (hmet : InSequence (Met cfg) l) : fromSender q l <+: fromSender q broadcast := by
  induction l using List.reverseRecOn with
  | nil => exact List.nil_prefix
  | append_singleton l msg ih =>
      obtain ⟨hl, hmsg⟩ := InSequence.concat_iff.mp hmet
      have hpref := ih (hnodup.sublist (List.sublist_append_left ..))
        (fun a ha => hsubset (List.mem_append_left _ ha)) hl
      by_cases hsender : msg.originalSender = q
      · subst hsender
        have hmem : msg ∈ broadcast := hsubset (by simp)
        have hnew : msg ∉ l := fun hin =>
          (List.nodup_append.mp hnodup).2.2 msg hin msg (by simp) rfl
        have hposition := hbroadcast.getElem?_own hmem
        have hle : entry msg.vecClock msg.originalSender ≤
          (fromSender msg.originalSender l).length := hmsg _ hself
        obtain ⟨rest, hrest⟩ := hpref
        rw [← hrest] at hposition
        -- an earlier position would be that of a message counted before
        have heq : entry msg.vecClock msg.originalSender =
            (fromSender msg.originalSender l).length := by
          refine le_antisymm hle (not_lt.mp fun hlt => hnew ?_)
          rw [List.getElem?_append_left hlt] at hposition
          exact (mem_fromSender.mp (List.mem_of_getElem? hposition)).1
        rw [heq, List.getElem?_append_right le_rfl, Nat.sub_self] at hposition
        rw [fromSender_append, fromSender_singleton_self, ← hrest]
        cases rest with
        | nil => simp at hposition
        | cons head tail =>
            obtain rfl : head = msg := by simpa using hposition
            exact ⟨tail, by simp⟩
      · rw [fromSender_append, fromSender_singleton_of_ne hsender, List.append_nil]
        exact hpref

end Fifo

/-! ## Two messages of a process that does not list itself -/

section Skip

variable {cfg : Membership} {q : ℕ}

/-- `q` has broadcast two messages, and nothing else has happened. -/
def twoSent (cfg : Membership) (q : ℕ) : LcbSystem :=
  ((LcbSystem.initial cfg).sendLcb q 1).sendLcb q 2

/-- The message that `q` broadcasts in round `i` before it delivers anything. -/
def earlyMsg (cfg : Membership) (q i : ℕ) : LcbMsg :=
  ⟨(List.replicate cfg.numProc 0).set (q - 1) (i - 1), q⟩

theorem entry_earlyMsg (hq : cfg.IsPid q) (i : ℕ) {r : ℕ} (hr : cfg.IsPid r) :
    entry (earlyMsg cfg q i).vecClock r = if r = q then i - 1 else 0 := by
  unfold earlyMsg
  rw [entry_set _ hq.1 (by simpa using hq.2) hr.1, entry_replicate_zero]

theorem twoSent_broadcast (cfg : Membership) (q : ℕ) :
    (twoSent cfg q).broadcast = [earlyMsg cfg q 1, earlyMsg cfg q 2] := by
  simp [twoSent, LcbProcess.afterSend, LcbProcess.next, LcbSystem.initial, LcbProcess.initial,
    Lcb.initial, earlyMsg]

theorem twoSent_process_self (cfg : Membership) (q : ℕ) : (twoSent cfg q).process q =
    ((LcbProcess.initial cfg q).afterSend q 1).afterSend q 2 := by
  simp [twoSent, LcbSystem.initial]

theorem twoSent_process_of_ne (cfg : Membership) {p : ℕ} (h : p ≠ q) :
    (twoSent cfg q).process p = LcbProcess.initial cfg p := by
  rw [twoSent, LcbSystem.sendLcb_process_of_ne _ _ h, LcbSystem.sendLcb_process_of_ne _ _ h]
  rfl

theorem reachable_twoSent (hq : cfg.IsPid q) : (lcbSystem cfg).Reachable (twoSent cfg q) := by
  have hfirst : (lcbSystem cfg).Reachable ((LcbSystem.initial cfg).sendLcb q 1) :=
    Reachable.sendLcb (.init rfl) hq rfl rfl (by norm_num)
  refine Reachable.sendLcb hfirst hq ?_ ?_ (by norm_num)
  · rw [LcbSystem.sendLcb_process_self]
    rfl
  · rw [LcbSystem.sendLcb_process_self]
    rfl

/-- Every clock lets the first message of a process pass. -/
theorem ready_first (hq : cfg.IsPid q) (clock : List ℕ) : Ready cfg clock (earlyMsg cfg q 1) := by
  intro r hr
  rw [entry_earlyMsg hq 1 (Membership.isPid_of_mem_deps hr), Nat.sub_self, ite_self]
  exact Nat.zero_le _

/-- Every clock lets such a message pass if its origin does not list itself. -/
theorem ready_earlyMsg (hq : cfg.IsPid q) (hself : q ∉ cfg.deps q) (clock : List ℕ) (i : ℕ) :
    Ready cfg clock (earlyMsg cfg q i) := by
  intro r hr
  have hne : r ≠ q := by
    rintro rfl
    exact hself hr
  rw [entry_earlyMsg hq i (Membership.isPid_of_mem_deps hr), if_neg hne]
  exact Nat.zero_le _

end Skip

/-! ## The delivery log -/

/-- A line `d q k` that is to be written names the `k`-th broadcast of `q`, and
the messages of every origin are counted in broadcast order, each at most once. -/
structure TruthfulDelivery (cfg : Membership) (s : LcbSystem) : Prop where
  line : ∀ p, cfg.IsPid p → ∀ msg seq site, (s.process p).receiver = .logging msg seq site →
    1 ≤ seq ∧ entry msg.vecClock msg.originalSender = seq - 1 ∧
      (fromSender msg.originalSender s.broadcast)[seq - 1]? = some msg
  order : ∀ p q, cfg.IsPid p → cfg.IsPid q →
    fromSender q (s.process p).data.delivered <+: fromSender q s.broadcast
  once : ∀ p, cfg.IsPid p → (s.process p).data.delivered.Nodup

section Truthful

variable {cfg : Membership} {s : LcbSystem}

theorem truthfulDelivery_of_reachable (hself : ∀ q, cfg.IsPid q → q ∈ cfg.deps q)
    (hs : (lcbSystem cfg).Reachable s) : TruthfulDelivery cfg s := by
  have hinv := lcbInv_of_reachable hs
  have horder : ∀ p q, cfg.IsPid p → cfg.IsPid q →
      fromSender q (s.process p).data.delivered <+: fromSender q s.broadcast := by
    intro p q hp hq
    have hP := hinv.process p hp
    exact fromSender_prefix_broadcast hinv.broadcast (hself q hq) hP.delivered_nodup
      (List.Subset.trans hP.delivered_subset hP.handed_subset)
      (deliveryInv_of_reachable hs p hp).delivered
  refine ⟨fun p hp msg seq site hreceiver => ?_, horder,
    fun p hp => (hinv.process p hp).delivered_nodup⟩
  have hP := hinv.process p hp
  have hheld := hP.receiver
  rw [hreceiver] at hheld
  obtain ⟨⟨pre, hpre⟩, hseq⟩ := hheld
  have hmem : msg ∈ s.broadcast :=
    hP.handed_subset (hP.delivered_subset (hpre ▸ by simp))
  have hq := (hinv.broadcast.fits hmem).isPid
  -- the message is the last one counted, so its number is the count
  have hcount : seq = (fromSender msg.originalSender pre).length + 1 := by
    rw [hseq, hP.clock _ hq, hpre, length_fromSender_concat, if_pos rfl]
  have hpref := horder p _ hp hq
  rw [hpre, fromSender_append, fromSender_singleton_self] at hpref
  obtain ⟨rest, hrest⟩ := hpref
  have hposition : (fromSender msg.originalSender s.broadcast)[seq - 1]? = some msg := by
    rw [← hrest, hcount]
    simp
  refine ⟨by omega, ?_, hposition⟩
  -- a message stands in one position only
  have hown := hinv.broadcast.getElem?_own hmem
  have hlt : seq - 1 < (fromSender msg.originalSender s.broadcast).length :=
    (List.getElem?_eq_some_iff.mp hposition).1
  have hnodup : (fromSender msg.originalSender s.broadcast).Nodup := hinv.broadcast.nodup.filter _
  exact ((List.getElem?_inj hlt hnodup).mp (hposition.trans hown.symm)).symm

/-- The second message of `q` arrives first and is to be logged as number `1`. -/
theorem reachable_skip {q : ℕ} (hq : cfg.IsPid q) (hself : q ∉ cfg.deps q) :
    ∃ s, (lcbSystem cfg).Reachable s ∧ s.broadcast = [earlyMsg cfg q 1, earlyMsg cfg q 2] ∧
      (s.process q).receiver = .logging (earlyMsg cfg q 2) 1 .direct := by
  have hcounted := Reachable.count (earlyMsg cfg q 2) (reachable_twoSent hq) hq
    (by rw [twoSent_process_self]; rfl) (by rw [twoSent_broadcast]; simp)
    (by rw [twoSent_process_self]; exact List.not_mem_nil) (ready_earlyMsg hq hself _ _)
  refine ⟨_, hcounted, by rw [LcbSystem.set_broadcast, twoSent_broadcast], ?_⟩
  rw [LcbSystem.set_process_self, twoSent_process_self]
  simp [LcbProcess.afterCount, LcbProcess.afterSend, LcbProcess.initial, Lcb.initial,
    entry_replicate_zero, u32]

theorem not_truthfulDelivery {q : ℕ} (hq : cfg.IsPid q) (hself : q ∉ cfg.deps q) :
    ∃ s, (lcbSystem cfg).Reachable s ∧ ¬ TruthfulDelivery cfg s := by
  obtain ⟨s, hs, -, hreceiver⟩ := reachable_skip hq hself
  refine ⟨s, hs, fun htrue => ?_⟩
  have hown : entry (earlyMsg cfg q 2).vecClock q = 0 := (htrue.line q hq _ _ _ hreceiver).2.1
  rw [entry_earlyMsg hq 2 hq, if_pos rfl] at hown
  omega

/-- The delivery log is truthful in every run exactly when every process is in
its own dependency list. -/
theorem truthfulDelivery_iff (cfg : Membership) :
    (∀ s, (lcbSystem cfg).Reachable s → TruthfulDelivery cfg s) ↔
      ∀ q, cfg.IsPid q → q ∈ cfg.deps q := by
  constructor
  · intro htrue q hq
    by_contra hself
    obtain ⟨s, hs, hnot⟩ := not_truthfulDelivery hq hself
    exact hnot (htrue s hs)
  · exact fun hself s hs => truthfulDelivery_of_reachable hself hs

end Truthful

/-- The membership file that `test_correctness.sh` writes. -/
def testMembership : Membership where
  numProc := 5
  dependencies := [[2, 3], [], [], [], []]
  numProc_pos := by decide
  numProc_lt := by decide
  length_dependencies := rfl
  mem_range := by decide

/-- In the configuration of `test_correctness.sh`, process `2` writes `d 2 1` for
the second message it has broadcast. -/
theorem testMembership_skip : ∃ s, (lcbSystem testMembership).Reachable s ∧
    s.broadcast = [⟨[0, 0, 0, 0, 0], 2⟩, ⟨[0, 1, 0, 0, 0], 2⟩] ∧
    (s.process 2).receiver = .logging ⟨[0, 1, 0, 0, 0], 2⟩ 1 .direct ∧
    ¬ TruthfulDelivery testMembership s := by
  have hpid : testMembership.IsPid 2 := by decide
  obtain ⟨s, hs, hbroadcast, hreceiver⟩ := reachable_skip hpid (by decide)
  refine ⟨s, hs, hbroadcast, hreceiver, fun htrue => ?_⟩
  exact absurd (htrue.line 2 hpid _ _ _ hreceiver).2.1 (by decide)

end CausalBroadcast
