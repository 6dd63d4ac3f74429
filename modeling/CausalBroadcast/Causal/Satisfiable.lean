import CausalBroadcast.Causal.Fifo

/-!
# Carried clocks can be satisfied

The broadcast order itself is one in which `test_vec_clock` accepts every message
of a run in turn: a message is backed by the broadcasts before it (`Supported`),
and after these have been accepted the clock counts exactly them.
-/

namespace CausalBroadcast

/-- Test the messages one after another and count each for its origin; the result
tells whether every one of them was accepted. -/
def acceptInTurn : List LcbMsg → LcbCall Bool
  | [] => pure true
  | msg :: rest => do
      let accepted ← testVecClock msg.vecClock msg.originalSender
      if accepted then do
        let _ ← updateVecClock msg.originalSender
        acceptInTurn rest
      else
        pure false

section Satisfiable

variable {cfg : Membership} {me : ℕ} {data : Lcb} {broadcast : List LcbMsg} {s : LcbSystem}

theorem Supported.met {pre : List LcbMsg} {msg : LcbMsg} (h : Supported cfg pre msg) :
    Met cfg pre msg :=
  fun q hq => h.le q (Membership.isPid_of_mem_deps hq)

/-- Counting the messages of a broadcast order, from any point of it on. -/
theorem acceptInTurn_suffix (hbroadcast : BroadcastInv cfg broadcast)
    (hbound : ∀ q, cfg.IsPid q → (fromSender q broadcast).length < 2 ^ 32) :
    ∀ (post pre : List LcbMsg) (data : Lcb), pre ++ post = broadcast →
      data.WellFormed cfg me →
      (∀ q, cfg.IsPid q → entry data.vectorClock q = (fromSender q pre).length) →
      ∃ data', acceptInTurn post data = .ok true data' := by
  intro post
  induction post with
  | nil => exact fun pre data _ _ _ => ⟨data, rfl⟩
  | cons msg post ih =>
      intro pre data hsplit hdata hclock
      have hpref : pre ++ [msg] <+: broadcast := ⟨post, by simp [← hsplit]⟩
      have hsupported := hbroadcast pre msg hpref
      have hsender := hsupported.fits.isPid
      have hready : Ready cfg data.vectorClock msg := (ready_iff_met hclock msg).mpr hsupported.met
      have hclock' : ∀ q, cfg.IsPid q → entry (bump data.vectorClock msg.originalSender) q =
          (fromSender q (pre ++ [msg])).length := by
        intro q hq
        have hlt : (fromSender q (pre ++ [msg])).length < 2 ^ 32 :=
          ((fromSender_mono hpref).length_le).trans_lt (hbound q hq)
        rw [entry_bump hsender.1 (hdata.vectorClock ▸ hsender.2) hq.1, length_fromSender_concat,
          ← hclock q hq]
        rw [length_fromSender_concat, ← hclock q hq] at hlt
        by_cases hqs : q = msg.originalSender
        · rw [if_pos hqs, if_pos hqs.symm, ← hqs, u32_of_lt (by simpa [hqs] using hlt)]
        · rw [if_neg hqs, if_neg (Ne.symm hqs), Nat.add_zero]
      have hdata' : ({ data with
          vectorClock := bump data.vectorClock msg.originalSender } : Lcb).WellFormed cfg me :=
        { hdata with vectorClock := (length_bump ..).trans hdata.vectorClock }
      obtain ⟨data', hrest⟩ := ih (pre ++ [msg]) _ (by simp [← hsplit]) hdata' hclock'
      refine ⟨data', ?_⟩
      simp only [acceptInTurn, Call.bind_apply, testVecClock_eq hdata hsupported.fits, hready,
        decide_true, Outcome.ok_andThen, if_true, updateVecClock_eq hdata hsender]
      exact hrest

/-- In every reachable state the messages broadcast so far can be accepted one
after another from an all-zero clock; none of them asks for more deliveries than
there are broadcasts, and no set of them waits for itself. -/
theorem broadcasts_satisfiable (hs : (lcbSystem cfg).Reachable s) :
    (∃ order, order.Perm s.broadcast ∧
      ∀ me, ∃ data, acceptInTurn order (Lcb.initial cfg me) = .ok true data) ∧
    (∀ msg ∈ s.broadcast, ∀ q ∈ cfg.deps msg.originalSender,
      entry msg.vecClock q ≤ (fromSender q s.broadcast).length) ∧
    ∀ waiting : LcbMsg → Bool, (∃ msg ∈ s.broadcast, waiting msg) →
      ∃ msg ∈ s.broadcast, waiting msg ∧ ∀ q ∈ cfg.deps msg.originalSender,
        entry msg.vecClock q ≤ (fromSender q (s.broadcast.filter fun m => !waiting m)).length := by
  have hinv := lcbInv_of_reachable hs
  refine ⟨⟨s.broadcast, List.Perm.refl _, fun me => ?_⟩, fun msg hmem => ?_,
    fun waiting hmeets => ?_⟩
  · exact acceptInTurn_suffix hinv.broadcast
      (fun q hq => (hinv.length_lt hq).trans (by norm_num)) s.broadcast [] _ rfl
      (Lcb.initial_wellFormed cfg me) fun q _ => entry_replicate_zero cfg.numProc q
  · obtain ⟨pre, hpref, hsupported⟩ := hinv.broadcast.exists_of_mem hmem
    exact fun q hq => (hsupported.met q hq).trans
      (fromSender_mono ((List.prefix_append ..).trans hpref)).length_le
  · -- the first of them is met by the messages before it, which do not wait
    obtain ⟨pre, msg, hpref, hwaits, hothers, hsupported⟩ := hinv.broadcast.exists_first hmeets
    refine ⟨msg, hpref.subset (by simp), hwaits, fun q hq => ?_⟩
    have hsubset : pre ⊆ s.broadcast.filter fun m => !waiting m := fun a ha =>
      List.mem_filter.mpr ⟨hpref.subset (List.mem_append_left _ ha), by simpa using hothers a ha⟩
    have hnodup : pre.Nodup :=
      hinv.broadcast.nodup.sublist ((List.prefix_append ..).trans hpref).sublist
    exact (hsupported.met q hq).trans (length_fromSender_le_of_subset hnodup hsubset)

theorem testMembership_satisfiable : ∃ s, (lcbSystem testMembership).Reachable s ∧
    s.broadcast = [⟨[0, 0, 0, 0, 0], 2⟩, ⟨[0, 1, 0, 0, 0], 2⟩] ∧
    ∃ order, order.Perm s.broadcast ∧
      ∀ me, ∃ data, acceptInTurn order (Lcb.initial testMembership me) = .ok true data :=
  have hs := reachable_twoSent (show testMembership.IsPid 2 by decide)
  ⟨_, hs, twoSent_broadcast _ _, (broadcasts_satisfiable hs).1⟩

end Satisfiable

end CausalBroadcast
