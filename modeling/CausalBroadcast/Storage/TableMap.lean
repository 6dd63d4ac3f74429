import CausalBroadcast.Library.Attempts
import CausalBroadcast.Model.Tables

/-!
# The uid table as a map

A uid table that never grows is a map with default 0.  A growth from `n` to `2 * n`
entries clears `n` bytes, a quarter of the new entries, and the others keep what
`realloc` left there (`growTableTo_grows`).  So some id that was never written is
read as written, for some contents of that memory, as soon as the table grows; the
only growth that does no harm is the one from one entry to two, because the single
new entry is the one that is written.
-/

namespace CausalBroadcast

/-- The map after a write of the second component at the first; ids above `cap` are
refused. -/
def mapWrite (cap : ℕ) (map : ℕ → ℕ) (write : ℕ × ℕ) : ℕ → ℕ :=
  if cap < write.1 then map else Function.update map write.1 write.2

/-- The call of `table_write_entry` for a write. -/
def writeCall (rounds : ℕ) (junk : ℕ → ℕ → ℕ) (write : ℕ × ℕ) : UidCall Unit :=
  tableWriteEntry rounds junk write.1 write.2

/-- After each of the calls, of which the refused ones change nothing, the table is
read as the map. -/
def BehavesAsMap (rounds : ℕ) (junk : ℕ → ℕ → ℕ) (table : UidTable) (writes : List (ℕ × ℕ)) :
    Prop :=
  Follows (writeCall rounds junk) (mapWrite maxSize)
    (fun map table => ∀ mid, tableReadEntry table mid = map mid) (fun _ => 0) table writes

/-- The call makes the table grow by an entry that it does not write. -/
def Overgrows (size mid : ℕ) : Prop :=
  mid ≤ maxSize ∧ size ≤ mid ∧ ¬ (size = 1 ∧ mid = 1)

instance (size mid : ℕ) : Decidable (Overgrows size mid) := inferInstanceAs (Decidable (_ ∧ _))

/-! ## What a growth leaves in the table -/

section Growth

variable {table : UidTable} {mid : ℕ} {junk : ℕ → ℕ → ℕ}

/-- What the entries from `n` on hold after the growth from `n` to `2 * n`. -/
def grownEntry (junk : ℕ → ℕ → ℕ) (n k : ℕ) : ℕ :=
  clearBytes (fun k => u32 (junk n k)) n n k

/-- What `table_write_entry` has made of a table when its loop ends. -/
structure UidTable.Grown (junk : ℕ → ℕ → ℕ) (table : UidTable) (mid n : ℕ) (table' : UidTable) :
    Prop where
  le : table.totalEntries ≤ n
  totalEntries : table'.totalEntries = 2 * n
  lower : n ≤ mid
  upper : mid < 2 * n
  kept : ∀ k < table.totalEntries, table'.entries k = table.entries k
  fresh : ∀ k, n ≤ k → table'.entries k = grownEntry junk n k

theorem u32Sub_double {n : ℕ} (h : n ≤ maxSize) : u32Sub (n * 2) n = n := by
  unfold u32Sub u32 maxSize at *
  omega

theorem growTable_eq (junk : ℕ → ℕ → ℕ) (hsize : table.totalEntries ≤ maxSize) :
    ∃ grown, growTable junk table = .ok () grown ∧
      grown.totalEntries = 2 * table.totalEntries ∧
      (∀ k < table.totalEntries, grown.entries k = table.entries k) ∧
      ∀ k, table.totalEntries ≤ k → grown.entries k = grownEntry junk table.totalEntries k := by
  have hdouble : u32 (table.totalEntries * 2) = table.totalEntries * 2 :=
    u32_of_lt (by unfold maxSize at hsize; omega)
  refine ⟨{ table with
    entries := clearBytes
      (fun k => if k < table.totalEntries then table.entries k else u32 (junk table.totalEntries k))
      table.totalEntries (u32Sub (u32 (table.totalEntries * 2)) table.totalEntries)
    totalEntries := u32 (table.totalEntries * 2)
    noMsgs := u32 (table.noMsgs * 2) }, rfl, ?_, fun k hk => ?_, fun k hk => ?_⟩
  · show u32 (table.totalEntries * 2) = _
    rw [hdouble, mul_comm]
  · simp [clearBytes, hk]
  · simp only [grownEntry, clearBytes, hdouble, u32Sub_double hsize, if_neg (not_lt.mpr hk)]

/-- The loop of `table_write_entry` when the id is outside the table. -/
theorem growTableTo_grows (junk : ℕ → ℕ → ℕ) (hcap : mid ≤ maxSize) (rounds : ℕ) :
    ∀ {table : UidTable}, table.totalEntries ≤ mid → mid < table.totalEntries * 2 ^ rounds →
      ∃ n grown, growTableTo junk mid rounds table = .ok () grown ∧
        table.Grown junk mid n grown := by
  induction rounds with
  | zero =>
      intro table hout hlt
      rw [pow_zero, mul_one] at hlt
      exact absurd hlt (not_lt.mpr hout)
  | succ rounds ih =>
      intro table hout hlt
      obtain ⟨once, hgrow, htotal, hkept, hfresh⟩ := growTable_eq junk (hout.trans hcap)
      rcases lt_or_ge mid once.totalEntries with hin | hout'
      · refine ⟨table.totalEntries, once, ?_, le_rfl, htotal, hout, htotal ▸ hin, hkept, hfresh⟩
        simp only [growTableTo, Call.bind_apply, Call.state_apply, Outcome.ok_andThen, hout,
          if_true, hgrow]
        exact growTableTo_of_lt junk hin rounds
      · have hlt' : mid < once.totalEntries * 2 ^ rounds := by
          rw [htotal, mul_comm 2, mul_assoc, ← pow_succ']
          exact hlt
        obtain ⟨n, grown, hrun, hgrown⟩ := ih hout' hlt'
        refine ⟨n, grown, ?_, ?_, hgrown.totalEntries, hgrown.lower, hgrown.upper, ?_,
          hgrown.fresh⟩
        · simp only [growTableTo, Call.bind_apply, Call.state_apply, Outcome.ok_andThen, hout,
            if_true, hgrow]
          exact hrun
        · have := hgrown.le
          omega
        · intro k hk
          rw [hgrown.kept k (by omega), hkept k hk]

/-- Memory that is all ones shows in an entry of the table that is not written. -/
theorem exists_grownEntry_ne_zero {n : ℕ} (htwo : 2 ≤ n) (mid : ℕ) :
    ∃ k, n ≤ k ∧ k < 2 * n ∧ k ≠ mid ∧ grownEntry (fun _ _ => 2 ^ 32 - 1) n k ≠ 0 := by
  have hones : u32 (2 ^ 32 - 1) = 2 ^ 32 - 1 := rfl
  have hshown : ∀ k, n ≤ k → n < 4 * (k - n) + 4 →
      grownEntry (fun _ _ => 2 ^ 32 - 1) n k ≠ 0 := by
    intro k hk hlast
    have hmin : min 4 (n - 4 * (k - n)) ≤ 3 := by omega
    rw [grownEntry, clearBytes, hones]
    split
    · norm_num
    · have hpow : 2 ^ (8 * min 4 (n - 4 * (k - n))) ≤ 2 ^ 24 :=
        Nat.pow_le_pow_right Nat.two_pos (by omega)
      have hmod := Nat.mod_lt (2 ^ 32 - 1) (Nat.two_pow_pos (8 * min 4 (n - 4 * (k - n))))
      omega
  by_cases hmid : mid = 2 * n - 1
  · exact ⟨2 * n - 2, by omega, by omega, by omega, hshown _ (by omega) (by omega)⟩
  · exact ⟨2 * n - 1, by omega, by omega, Ne.symm hmid, hshown _ (by omega) (by omega)⟩

end Growth

/-! ## As long as the table does not overgrow -/

/-- The table is read as the map, and is as large as it started or has two entries. -/
structure IsMap (size : ℕ) (map : ℕ → ℕ) (table : UidTable) : Prop where
  totalEntries : table.totalEntries = size ∨ (size = 1 ∧ table.totalEntries = 2)
  read : ∀ mid, tableReadEntry table mid = map mid

section Map

variable {size rounds : ℕ} {map : ℕ → ℕ} {table : UidTable}

theorem IsMap.initial (noMsgs noProcess : ℕ) :
    IsMap (u32 (noMsgs * noProcess * noProcess)) (fun _ => 0) (initTableUid noMsgs noProcess) :=
  ⟨.inl rfl, fun _ => tableReadEntry_initTableUid ..⟩

/-- Writing inside a table. -/
theorem tableReadEntry_update {mid value : ℕ} (hmid : mid < table.totalEntries) (k : ℕ) :
    tableReadEntry { table with entries := Function.update table.entries mid value } k =
      Function.update (tableReadEntry table) mid value k := by
  by_cases hk : k = mid
  · simp [tableReadEntry, hk, hmid]
  · simp [tableReadEntry, hk]

theorem tableWriteEntry_in (junk : ℕ → ℕ → ℕ) {mid : ℕ} (value : ℕ) (hcap : mid ≤ maxSize)
    (hmid : mid < table.totalEntries) : tableWriteEntry rounds junk mid value table =
      .ok () { table with entries := Function.update table.entries mid value } := by
  simp only [tableWriteEntry, not_lt.mpr hcap, if_false, Call.bind_apply,
    growTableTo_of_lt junk hmid, Outcome.ok_andThen]
  rfl

/-- One call. -/
theorem IsMap.write (h : IsMap size map table) (hrounds : 14 ≤ rounds)
    (junk : ℕ → ℕ → ℕ) {write : ℕ × ℕ} (hfits : ¬ Overgrows size write.1) :
    ∃ table', Call.attempt (writeCall rounds junk write) table = .ok () table' ∧
      IsMap size (mapWrite maxSize map write) table' := by
  obtain ⟨mid, value⟩ := write
  rcases lt_or_ge maxSize mid with hcap | hcap
  · refine ⟨table, Call.attempt_of_error (tableWriteEntry_of_cap_lt rounds junk value hcap), ?_⟩
    rw [mapWrite, if_pos hcap]
    exact h
  rw [mapWrite, if_neg (not_lt.mpr hcap)]
  rcases lt_or_ge mid table.totalEntries with hin | hout
  · refine ⟨_, Call.attempt_of_ok (tableWriteEntry_in junk value hcap hin), h.totalEntries, ?_⟩
    intro k
    rw [tableReadEntry_update hin, funext h.read]
  · -- the table has one entry, and the second one is written
    have hone : size = 1 ∧ mid = 1 := by
      by_contra hnot
      refine hfits ⟨hcap, ?_, hnot⟩
      rcases h.totalEntries with htotal | ⟨hsize, htotal⟩ <;> omega
    have htotal : table.totalEntries = 1 := by
      rcases h.totalEntries with htotal | ⟨-, htotal⟩ <;> omega
    have hpow : 2 ^ 14 ≤ 2 ^ rounds := Nat.pow_le_pow_right Nat.two_pos hrounds
    obtain ⟨n, grown, hrun, hgrown⟩ := growTableTo_grows junk hcap rounds hout
      (by rw [htotal]; unfold maxSize at hcap; omega)
    have hn : n = 1 := by
      have := hgrown.lower
      have := hgrown.upper
      omega
    have hlt : mid < grown.totalEntries := hgrown.totalEntries.symm ▸ hgrown.upper
    refine ⟨{ grown with entries := Function.update grown.entries mid value },
      Call.attempt_of_ok ?_, .inr ⟨hone.1, ?_⟩, fun k => ?_⟩
    · simp only [writeCall, tableWriteEntry, not_lt.mpr hcap, if_false, Call.bind_apply, hrun,
        Outcome.ok_andThen]
      rfl
    · show grown.totalEntries = 2
      rw [hgrown.totalEntries, hn]
    · rw [tableReadEntry_update hlt]
      by_cases hk : k = mid
      · rw [hk, Function.update_self, Function.update_self]
      · rw [Function.update_of_ne hk, Function.update_of_ne hk, ← h.read k]
        have hother : k = 0 ∨ grown.totalEntries ≤ k := by
          rw [hgrown.totalEntries]
          omega
        rcases hother with hzero | hle
        · rw [tableReadEntry_of_lt (by omega), tableReadEntry_of_lt (by omega),
            hgrown.kept k (by omega)]
        · rw [tableReadEntry_of_le hle,
            tableReadEntry_of_le (by rw [hgrown.totalEntries] at hle; omega)]

/-! ## When it overgrows -/

/-- Ids outside the table have not been written. -/
theorem IsMap.unwritten (h : IsMap size map table) {mid : ℕ} (hmid : table.totalEntries ≤ mid) :
    map mid = 0 := by
  rw [← h.read, tableReadEntry_of_le hmid]

/-- A call that overgrows the table shows memory that nobody has written. -/
theorem IsMap.overgrown (h : IsMap size map table) (hpos : 0 < size) (hrounds : 14 ≤ rounds)
    {write : ℕ × ℕ} (hover : Overgrows size write.1) {table' : UidTable}
    (hcall : Call.attempt (writeCall rounds (fun _ _ => 2 ^ 32 - 1) write) table =
      .ok () table') :
    ¬ ∀ mid, tableReadEntry table' mid = mapWrite maxSize map write mid := by
  obtain ⟨mid, value⟩ := write
  obtain ⟨hcap, hsize, hnot⟩ := hover
  have hout : table.totalEntries ≤ mid := by
    rcases h.totalEntries with htotal | ⟨hone, htotal⟩
    · exact htotal ▸ hsize
    · omega
  have hpow : 2 ^ 14 ≤ 2 ^ rounds := Nat.pow_le_pow_right Nat.two_pos hrounds
  have htotal : 0 < table.totalEntries := by
    rcases h.totalEntries with htotal | ⟨-, htotal⟩ <;> omega
  obtain ⟨n, grown, hrun, hgrown⟩ := growTableTo_grows (fun _ _ => 2 ^ 32 - 1) hcap rounds hout
    (by
      have := Nat.le_mul_of_pos_left (2 ^ rounds) htotal
      unfold maxSize at hcap
      omega)
  have htwo : 2 ≤ n := by
    have := hgrown.lower
    have := hgrown.upper
    have := hgrown.le
    rcases h.totalEntries with htotal | ⟨hsize, htotal⟩ <;> omega
  -- `memset` is given a number of entries as a number of bytes: after two doublings at once some
  -- entry is not cleared.
  obtain ⟨k, hk, hlt, hne, hjunk⟩ := exists_grownEntry_ne_zero htwo mid
  have hin : mid < grown.totalEntries := hgrown.totalEntries.symm ▸ hgrown.upper
  have hwrite : Call.attempt (writeCall rounds (fun _ _ => 2 ^ 32 - 1) (mid, value)) table =
      .ok () { grown with entries := Function.update grown.entries mid value } := by
    refine Call.attempt_of_ok ?_
    simp only [writeCall, tableWriteEntry, not_lt.mpr hcap, if_false, Call.bind_apply, hrun,
      Outcome.ok_andThen]
    rfl
  rw [hwrite] at hcall
  obtain ⟨-, rfl⟩ := Outcome.ok.inj hcall
  intro hread
  have hstale := hread k
  rw [tableReadEntry_update hin, mapWrite, if_neg (not_lt.mpr hcap), Function.update_of_ne hne,
    Function.update_of_ne hne, h.unwritten (hgrown.le.trans hk),
    tableReadEntry_of_lt (hgrown.totalEntries.symm ▸ hlt), hgrown.fresh k hk] at hstale
  exact hjunk hstale

end Map

/-- A uid table behaves as a map, whatever `realloc` leaves in the new memory, exactly
when no call overgrows it. -/
theorem uidTable_map_iff {noMsgs noProcess rounds : ℕ}
    (hpos : 0 < (initTableUid noMsgs noProcess).totalEntries) (hrounds : 14 ≤ rounds)
    (writes : List (ℕ × ℕ)) :
    (∀ junk, BehavesAsMap rounds junk (initTableUid noMsgs noProcess) writes) ↔
      ∀ write ∈ writes, ¬ Overgrows (initTableUid noMsgs noProcess).totalEntries write.1 := by
  have hinit := IsMap.initial noMsgs noProcess
  constructor
  · intro hmap
    exact not_bad_of_follows hinit (fun _ _ _ h hfits => h.write hrounds _ hfits)
      (fun _ _ _ _ h hover hcall => h.overgrown hpos hrounds hover hcall)
      (hmap fun _ _ => 2 ^ 32 - 1)
  · intro hfits junk
    exact follows_of_good hinit (fun _ _ _ h hfits => h.write hrounds junk hfits)
      (fun _ _ h => h.read) hfits

/-- Ids inside the table, and one that is refused. -/
theorem uidTable_map_inside : BehavesAsMap 14 (fun _ _ => 2 ^ 32 - 1) (initTableUid 150 2)
    [(3, 1), (9000, 5), (599, 1), (3, 2)] :=
  (uidTable_map_iff (by decide) le_rfl _).mpr (by decide) _

/-- For two processes: after a write of the id 600 the id 1199 is read as written. -/
theorem uidTable_staleEntry :
    ∃ table, attemptAll (writeCall 14 fun _ _ => 2 ^ 32 - 1) [(600, 1)] (initTableUid 150 2) =
        .ok () table ∧
      tableReadEntry table 1199 = 2 ^ 32 - 1 ∧ mapWrite maxSize (fun _ => 0) (600, 1) 1199 = 0 := by
  refine ⟨_, rfl, ?_, by decide⟩
  decide +kernel

end CausalBroadcast
