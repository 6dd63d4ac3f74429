import CausalBroadcast.Model.Layers

/-!
# The ids

`seenIdOf N i o` is the id of the `i`-th message of process `o`, and `rowId N s q`
the index of process `q` in the row of message `s`.  Without truncation both are
injective on pids `1..N`.
-/

namespace CausalBroadcast

/-- The id of message `i` of process `o`, not truncated. -/
def seenIdOf (numProc i o : ℕ) : ℕ := numProc * (i - 1) + o - 1

/-- The index of process `q` in the row of the message `s`, not truncated. -/
def rowId (numProc s q : ℕ) : ℕ := numProc * s + q - 1

/-- The number of entries of a uid table as it starts. -/
def uidTotal (cfg : Membership) : ℕ := u32 (origTableSize * cfg.numProc * cfg.numProc)

/-- The number of entries of an urb table. -/
def urbTotal (cfg : Membership) : ℕ := u32 (origTableSize * cfg.numProc)

theorem rowId_inj {N s t q r : ℕ} (hq : 1 ≤ q ∧ q ≤ N) (hr : 1 ≤ r ∧ r ≤ N)
    (h : rowId N s q = rowId N t r) : s = t ∧ q = r := by
  have hsplit : ∀ {a b : ℕ}, 1 ≤ b ∧ b ≤ N → rowId N a b / N = a ∧ rowId N a b % N = b - 1 := by
    intro a b hb
    have hpos : 0 < N := by omega
    have hrow : rowId N a b = b - 1 + N * a := by
      unfold rowId
      omega
    have hlt : b - 1 < N := by omega
    rw [hrow, Nat.add_mul_div_left _ _ hpos, Nat.add_mul_mod_self_left, Nat.div_eq_of_lt hlt,
      Nat.mod_eq_of_lt hlt]
    exact ⟨Nat.zero_add a, rfl⟩
  obtain ⟨hdiv, hmod⟩ := hsplit (a := s) hq
  obtain ⟨hdiv', hmod'⟩ := hsplit (a := t) hr
  rw [h] at hdiv hmod
  exact ⟨hdiv.symm.trans hdiv', by omega⟩

theorem seenIdOf_inj {N i j o r : ℕ} (hi : 1 ≤ i) (hj : 1 ≤ j) (ho : 1 ≤ o ∧ o ≤ N)
    (hr : 1 ≤ r ∧ r ≤ N) (h : seenIdOf N i o = seenIdOf N j r) : i = j ∧ o = r := by
  obtain ⟨hround, horigin⟩ := rowId_inj ho hr h
  exact ⟨by omega, horigin⟩

theorem rowId_lt {N s q : ℕ} (hq : 1 ≤ q ∧ q ≤ N) : rowId N s q < N * s + N := by
  unfold rowId
  omega

theorem uidTotal_lt (cfg : Membership) : uidTotal cfg < 2 ^ 32 := Nat.mod_lt _ (by norm_num)

theorem urbTotal_lt (cfg : Membership) : urbTotal cfg < 2 ^ 32 := Nat.mod_lt _ (by norm_num)

/-- The urb table is never empty. -/
theorem urbTotal_pos (cfg : Membership) : 0 < urbTotal cfg := by
  have hpos := cfg.numProc_pos
  have hlt := cfg.numProc_lt
  unfold urbTotal u32 origTableSize
  omega

/-- Ids in a row that lies inside the uid tables are not truncated. -/
theorem u32_rowId {cfg : Membership} {s q : ℕ} (hq : cfg.IsPid q)
    (hrow : cfg.numProc * s + cfg.numProc ≤ uidTotal cfg) :
    u32 (cfg.numProc * s + q - 1) = rowId cfg.numProc s q ∧
      rowId cfg.numProc s q < uidTotal cfg := by
  have hlt : rowId cfg.numProc s q < uidTotal cfg := (rowId_lt hq).trans_le hrow
  exact ⟨u32_of_lt (hlt.trans (uidTotal_lt cfg)), hlt⟩

/-- `can_deliver` counts the processes whose index in the row is set. -/
theorem canDeliver_eq {table : UidTable} {N s : ℕ} (hN : table.noProcess = N)
    (hrow : N * s + N < 2 ^ 32) : canDeliver table s =
      if table.totalEntries ≤ N * s + N then some false
      else if 0 < N ∧ 2 ^ 31 ≤ N * s + N then none
      else some (decide
        (N / 2 < ((Finset.Icc 1 N).filter fun q => table.entries (rowId N s q) = 1).card)) := by
  have hfirst : u32 (s * N) = N * s := by
    rw [Nat.mul_comm]
    exact u32_of_lt (by omega)
  have hlast : u32 (s * N + N) = N * s + N := by
    rw [Nat.mul_comm]
    exact u32_of_lt hrow
  have hcount : (List.range' (N * s) N).countP (fun i => table.entries i = 1) =
      ((Finset.Icc 1 N).filter fun q => table.entries (rowId N s q) = 1).card := by
    have hnodup : (List.range' (N * s) N).Nodup := List.nodup_range'
    rw [List.countP_eq_length_filter, ← List.toFinset_card_of_nodup (hnodup.filter _)]
    -- The index `i` of the row belongs to the process `i - N * s + 1`.
    refine Finset.card_bij (fun i _ => i - N * s + 1) ?_ ?_ ?_
    · intro i hi
      simp only [List.mem_toFinset, List.mem_filter, List.mem_range'_1, decide_eq_true_eq] at hi
      have hid : rowId N s (i - N * s + 1) = i := by
        unfold rowId
        omega
      simp only [Finset.mem_filter, Finset.mem_Icc, hid]
      omega
    · intro i hi j hj
      simp only [List.mem_toFinset, List.mem_filter, List.mem_range'_1] at hi hj
      omega
    · intro q hq
      simp only [Finset.mem_filter, Finset.mem_Icc] at hq
      refine ⟨rowId N s q, ?_, ?_⟩
      · simp only [List.mem_toFinset, List.mem_filter, List.mem_range'_1, decide_eq_true_eq]
        unfold rowId at hq ⊢
        omega
      · unfold rowId
        omega
  unfold canDeliver
  simp only [hN, hfirst, hlast, Nat.add_sub_cancel_left, hcount, Nat.lt_add_right_iff_pos]

end CausalBroadcast
