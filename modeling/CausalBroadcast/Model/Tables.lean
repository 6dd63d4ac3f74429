import CausalBroadcast.Model.Data

/-!
# The id tables

The uid table of `plink.c` and the urb table of `urb.c`.  Both refuse an id above
their cap with `ERROR_TABLE` and grow by doubling until the id fits.

Allocations succeed in this model.  The part of a block that `realloc` adds has
arbitrary contents, which `junk` gives for each size before the growth.  The two
tables pass a number of elements where bytes are meant, in different places:

* the uid table clears only as many bytes as it gains elements, so three quarters
  of the new elements keep what `realloc` left in them;
* the urb table asks `realloc` for that many bytes, which is less than it had, and
  then clears memory behind the block.  That ends in `undefined`
  (`reallocTable_eq`), so the urb table never really grows.
-/

namespace CausalBroadcast

/-- The cap `MAX_SIZE` of `plink.c`. -/
def maxSize : ℕ := 1024 * 8

/-- The cap `MAX_SIZE_URB` of `urb.c`. -/
def maxSizeUrb : ℕ := 1024 * 8

/-! ## The uid table -/

/-- `uid_table_t`; `entries` is the block of memory behind the pointer. -/
structure UidTable where
  noMsgs : ℕ
  noProcess : ℕ
  totalEntries : ℕ
  entries : ℕ → ℕ

abbrev UidCall := Call ErrorCode UidTable

/-- `init_table_uid`. -/
def initTableUid (noMsgs noProcess : ℕ) : UidTable where
  noMsgs := noMsgs
  noProcess := noProcess
  totalEntries := u32 (noMsgs * noProcess * noProcess)
  entries _ := 0

/-- `table_read_entry`. -/
def tableReadEntry (table : UidTable) (mid : ℕ) : ℕ :=
  if table.totalEntries ≤ mid then 0 else table.entries mid

/-- `memset(&entries[start], 0, bytes)` on a block of four-byte elements. -/
def clearBytes (entries : ℕ → ℕ) (start bytes : ℕ) : ℕ → ℕ := fun k =>
  let offset := 4 * (k - start)
  if k < start ∨ bytes ≤ offset then entries k
  else entries k - entries k % 2 ^ (8 * min 4 (bytes - offset))

/-- One round of the loop of `table_write_entry`. -/
def growTable (junk : ℕ → ℕ → ℕ) : UidCall Unit :=
  Call.modify fun table =>
    let oldSize := table.totalEntries
    let newSize := u32 (table.totalEntries * 2)
    let moved := fun k => if k < oldSize then table.entries k else u32 (junk oldSize k)
    { table with
      entries := clearBytes moved oldSize (u32Sub newSize oldSize)
      totalEntries := newSize
      noMsgs := u32 (table.noMsgs * 2) }

/-- The loop of `table_write_entry`. -/
def growTableTo (junk : ℕ → ℕ → ℕ) (mid : ℕ) : ℕ → UidCall Unit
  | 0 => do
      let table ← Call.state
      if table.totalEntries ≤ mid then Call.outOfRounds else pure ()
  | rounds + 1 => do
      let table ← Call.state
      if table.totalEntries ≤ mid then do
        growTable junk
        growTableTo junk mid rounds
      else
        pure ()

/-- `table_write_entry`. -/
def tableWriteEntry (rounds : ℕ) (junk : ℕ → ℕ → ℕ) (mid value : ℕ) : UidCall Unit :=
  if maxSize < mid then
    Call.fail .table
  else do
    growTableTo junk mid rounds
    Call.modify fun table => { table with entries := Function.update table.entries mid value }

/-! ## The urb table -/

/-- `urb_entry_t`. -/
structure UrbEntry where
  seen : ℕ
  delivered : ℕ

/-- `urb_table_t`. -/
structure UrbTable where
  noMsgs : ℕ
  noProcess : ℕ
  totalEntries : ℕ
  values : ℕ → UrbEntry

abbrev UrbCall := Call ErrorCode UrbTable

/-- `init_urb_table`. -/
def initUrbTable (noMsgs noProcess : ℕ) : UrbTable where
  noMsgs := noMsgs
  noProcess := noProcess
  totalEntries := u32 (noMsgs * noProcess)
  values _ := ⟨0, 0⟩

/-- `realloc_table`: the block has `new_size` bytes afterwards, and `memset`
clears `new_size - old_size` bytes from element `old_size` on, eight bytes an
element. -/
def reallocTable : UrbCall Unit := do
  let table ← Call.state
  let oldSize := table.totalEntries
  let newSize := u32 (table.totalEntries * 2)
  if newSize < 8 * oldSize + u32Sub newSize oldSize then
    Call.undef
  else
    Call.modify fun table => { table with
      totalEntries := newSize
      noMsgs := u32 (table.noMsgs * 2) }

/-- The loop of `add_seen_urb` and of `add_delivered_urb`. -/
def reallocTableTo (seenId : ℕ) : ℕ → UrbCall Unit
  | 0 => do
      let table ← Call.state
      if table.totalEntries ≤ seenId then Call.outOfRounds else pure ()
  | rounds + 1 => do
      let table ← Call.state
      if table.totalEntries ≤ seenId then do
        reallocTable
        reallocTableTo seenId rounds
      else
        pure ()

/-- `is_delivered_urb`. -/
def isDeliveredUrb (table : UrbTable) (seenId : ℕ) : ℕ :=
  if table.totalEntries ≤ seenId then 0 else (table.values seenId).delivered

/-- `is_seen_urb`. -/
def isSeenUrb (table : UrbTable) (seenId : ℕ) : ℕ :=
  if table.totalEntries ≤ seenId then 0 else (table.values seenId).seen

/-- The entry of a seen message. -/
abbrev UrbEntry.see (entry : UrbEntry) : UrbEntry := { entry with seen := 1 }

/-- The entry of a delivered message. -/
abbrev UrbEntry.deliver (entry : UrbEntry) : UrbEntry := { entry with delivered := 1 }

/-- What `add_seen_urb` and `add_delivered_urb` share. -/
def addUrb (rounds seenId : ℕ) (mark : UrbEntry → UrbEntry) : UrbCall Unit :=
  if maxSizeUrb < seenId then
    Call.fail .table
  else do
    reallocTableTo seenId rounds
    Call.modify fun table => { table with
      values := Function.update table.values seenId (mark (table.values seenId)) }

/-- `add_delivered_urb`. -/
def addDeliveredUrb (rounds seenId : ℕ) : UrbCall Unit :=
  addUrb rounds seenId .deliver

/-- `add_seen_urb`. -/
def addSeenUrb (rounds seenId : ℕ) : UrbCall Unit :=
  addUrb rounds seenId .see

/-! ## What a write to a uid table does -/

/-- The table with a `1` at `mid`. -/
def UidTable.record (table : UidTable) (mid : ℕ) : UidTable :=
  { table with entries := Function.update table.entries mid 1 }

/-- The entries that were set are still set. -/
structure UidTable.Keeps (table table' : UidTable) : Prop where
  noProcess : table'.noProcess = table.noProcess
  recorded : ∀ k, tableReadEntry table k ≠ 0 → tableReadEntry table' k ≠ 0

/-- What a write of `1` at `mid` makes of a table, also while its loop still runs. -/
structure UidTable.Written (table : UidTable) (mid : ℕ) (table' : UidTable) : Prop where
  keeps : table.Keeps table'
  eq_record : mid < table.totalEntries → table' = table.record mid

section Uid

variable {table table' : UidTable} {mid k : ℕ}

theorem UidTable.Keeps.refl (table : UidTable) : table.Keeps table := ⟨rfl, fun _ => id⟩

theorem UidTable.Keeps.trans {table'' : UidTable} (h : table.Keeps table')
    (h' : table'.Keeps table'') : table.Keeps table'' :=
  ⟨h'.noProcess.trans h.noProcess, fun k hk => h'.recorded k (h.recorded k hk)⟩

theorem tableReadEntry_of_lt (h : k < table.totalEntries) :
    tableReadEntry table k = table.entries k := if_neg (not_le.mpr h)

theorem tableReadEntry_of_le (h : table.totalEntries ≤ k) : tableReadEntry table k = 0 := if_pos h

theorem lt_of_tableReadEntry_ne_zero (h : tableReadEntry table k ≠ 0) :
    k < table.totalEntries := by
  by_contra hle
  exact h (tableReadEntry_of_le (not_lt.mp hle))

theorem tableReadEntry_initTableUid (noMsgs noProcess : ℕ) :
    tableReadEntry (initTableUid noMsgs noProcess) k = 0 := by
  unfold tableReadEntry
  split <;> rfl

theorem tableReadEntry_record (hmid : mid < table.totalEntries) :
    tableReadEntry (table.record mid) k = if k = mid then 1 else tableReadEntry table k := by
  unfold tableReadEntry UidTable.record
  by_cases hk : k = mid
  · rw [if_pos hk, if_neg (by simpa [hk] using hmid), hk]
    exact Function.update_self ..
  · rw [if_neg hk]
    simp [Function.update_of_ne hk]

theorem UidTable.keeps_record (hmid : mid < table.totalEntries) : table.Keeps (table.record mid) :=
  ⟨rfl, fun k hk => by
    rw [tableReadEntry_record hmid]
    split
    · exact one_ne_zero
    · exact hk⟩

/-- A growth keeps the entries, when it doubles the size. -/
theorem growTable_keeps (junk : ℕ → ℕ → ℕ) (hsize : table.totalEntries ≤ maxSize) :
    ∃ table', growTable junk table = .ok () table' ∧ table.Keeps table' := by
  refine ⟨_, rfl, rfl, fun k hk => ?_⟩
  have hlt := lt_of_tableReadEntry_ne_zero hk
  have hdouble : u32 (table.totalEntries * 2) = table.totalEntries * 2 :=
    u32_of_lt (by unfold maxSize at hsize; omega)
  rw [tableReadEntry_of_lt hlt] at hk
  unfold tableReadEntry
  rw [if_neg (by show ¬ u32 (table.totalEntries * 2) ≤ k; omega)]
  simpa [clearBytes, hlt] using hk

theorem growTableTo_of_lt (junk : ℕ → ℕ → ℕ) (hmid : mid < table.totalEntries) (rounds : ℕ) :
    growTableTo junk mid rounds table = .ok () table := by
  cases rounds <;> simp [growTableTo, not_le.mpr hmid]

theorem growTableTo_keeps (junk : ℕ → ℕ → ℕ) (hmid : mid ≤ maxSize) (rounds : ℕ) :
    (growTableTo junk mid rounds table).Meets
      (fun _ table' => table.Keeps table' ∧ mid < table'.totalEntries) (fun _ _ => False)
      (fun table' => table.Keeps table') := by
  induction rounds generalizing table with
  | zero =>
      by_cases hsize : table.totalEntries ≤ mid
      · simpa [growTableTo, hsize] using UidTable.Keeps.refl table
      · simpa [growTableTo, hsize] using ⟨UidTable.Keeps.refl table, not_le.mp hsize⟩
  | succ rounds ih =>
      by_cases hsize : table.totalEntries ≤ mid
      · obtain ⟨grown, hgrow, hkeeps⟩ := growTable_keeps junk (hsize.trans hmid)
        simp only [growTableTo, Call.bind_apply, Call.state_apply, Outcome.ok_andThen, hsize,
          if_true, hgrow]
        exact ih.mono (fun _ table' h => ⟨hkeeps.trans h.1, h.2⟩) (fun _ _ => id)
          (fun table' h => hkeeps.trans h)
      · simpa [growTableTo, hsize] using ⟨UidTable.Keeps.refl table, not_le.mp hsize⟩

theorem tableWriteEntry_of_lt (rounds : ℕ) (junk : ℕ → ℕ → ℕ) (hcap : mid ≤ maxSize)
    (hmid : mid < table.totalEntries) :
    tableWriteEntry rounds junk mid 1 table = .ok () (table.record mid) := by
  simp only [tableWriteEntry, not_lt.mpr hcap, if_false, Call.bind_apply,
    growTableTo_of_lt junk hmid, Outcome.ok_andThen]
  rfl

theorem tableWriteEntry_of_cap_lt (rounds : ℕ) (junk : ℕ → ℕ → ℕ) (value : ℕ)
    (hcap : maxSize < mid) :
    tableWriteEntry rounds junk mid value table = .error .table table := by
  simp [tableWriteEntry, hcap]

theorem tableWriteEntry_meets (rounds : ℕ) (junk : ℕ → ℕ → ℕ) (mid : ℕ) :
    (tableWriteEntry rounds junk mid 1 table).Meets
      (fun _ table' => mid ≤ maxSize ∧ table.Written mid table')
      (fun code table' => code = .table ∧ maxSize < mid ∧ table' = table)
      (fun table' => table.totalEntries ≤ mid ∧ table.Written mid table') := by
  rcases lt_or_ge maxSize mid with hcap | hcap
  · rw [tableWriteEntry_of_cap_lt rounds junk 1 hcap]
    exact ⟨rfl, hcap, rfl⟩
  rcases lt_or_ge mid table.totalEntries with hsize | hsize
  · rw [tableWriteEntry_of_lt rounds junk hcap hsize]
    exact ⟨hcap, UidTable.keeps_record hsize, fun _ => rfl⟩
  · have hout : ¬ mid < table.totalEntries := not_lt.mpr hsize
    simp only [tableWriteEntry, not_lt.mpr hcap, if_false, Call.bind_apply]
    refine (growTableTo_keeps junk hcap rounds).andThen (fun _ _ => False.elim)
      (fun _ h => ⟨hsize, h, fun hin => absurd hin hout⟩) fun _ grown ⟨hkeeps, hlt⟩ => ?_
    show (Outcome.ok () (grown.record mid) : Outcome ErrorCode UidTable Unit).Meets _ _ _
    exact ⟨hcap, hkeeps.trans (UidTable.keeps_record hlt), fun hin => absurd hin hout⟩

/-- What a returned write of `1` at `mid` leaves of the entries there were, and of the
size.  A write to an empty table does not return. -/
structure UidTable.Records (table : UidTable) (mid : ℕ) (table' : UidTable) : Prop where
  noProcess : table'.noProcess = table.noProcess
  entries : ∀ k < table.totalEntries, table'.entries k = if k = mid then 1 else table.entries k
  pos : 0 < table.totalEntries
  lt : mid < table'.totalEntries
  inside : mid < table.totalEntries → table'.totalEntries = table.totalEntries
  outside : table.totalEntries ≤ mid → 2 * table.totalEntries ≤ table'.totalEntries
  bound : table.totalEntries < 2 ^ 32 → table'.totalEntries < 2 ^ 32

/-- What the loop of `table_write_entry` leaves, when it ends. -/
structure UidTable.Enlarges (table : UidTable) (mid : ℕ) (grown : UidTable) : Prop where
  noProcess : grown.noProcess = table.noProcess
  entries : ∀ k < table.totalEntries, grown.entries k = table.entries k
  pos : 0 < table.totalEntries
  lt : mid < grown.totalEntries
  size : grown.totalEntries = table.totalEntries ∨ 2 * table.totalEntries ≤ grown.totalEntries
  bound : table.totalEntries < 2 ^ 32 → grown.totalEntries < 2 ^ 32

theorem growTableTo_enlarges (junk : ℕ → ℕ → ℕ) (hmid : mid ≤ maxSize) (rounds : ℕ) :
    (growTableTo junk mid rounds table).Succeeds fun _ grown => table.Enlarges mid grown := by
  induction rounds generalizing table with
  | zero =>
      by_cases hsize : table.totalEntries ≤ mid
      · simp [growTableTo, hsize, Outcome.Succeeds]
      · have hlt := not_le.mp hsize
        rw [growTableTo_of_lt junk hlt]
        exact ⟨rfl, fun _ _ => rfl, (Nat.zero_le mid).trans_lt hlt, hlt, .inl rfl, id⟩
  | succ rounds ih =>
      by_cases hsize : table.totalEntries ≤ mid
      · have hdouble : u32 (table.totalEntries * 2) = table.totalEntries * 2 :=
          u32_of_lt (by unfold maxSize at hmid; omega)
        simp only [growTableTo, Call.bind_apply, Call.state_apply, Outcome.ok_andThen, hsize,
          if_true, growTable, Call.modify_apply]
        refine ih.mono ?_
        rintro _ grown ⟨hprocess, hkept, hpos, hlt, htotal, hbound⟩
        have hpos' : 0 < table.totalEntries * 2 := hpos.trans_eq hdouble
        refine ⟨hprocess, fun k hk => ?_, by omega, hlt, .inr ?_,
          fun _ => hbound (Nat.mod_lt _ (by norm_num))⟩
        · rw [hkept k (hdouble.symm ▸ (by omega : k < table.totalEntries * 2))]
          simp [clearBytes, hk]
        · rw [mul_comm, ← hdouble]
          rcases htotal with hsame | hmore
          · exact hsame.symm.le
          · exact (Nat.le_mul_of_pos_left _ Nat.two_pos).trans hmore
      · have hlt := not_le.mp hsize
        rw [growTableTo_of_lt junk hlt]
        exact ⟨rfl, fun _ _ => rfl, (Nat.zero_le mid).trans_lt hlt, hlt, .inl rfl, id⟩

theorem tableWriteEntry_succeeds (rounds : ℕ) (junk : ℕ → ℕ → ℕ) (hcap : mid ≤ maxSize) :
    (tableWriteEntry rounds junk mid 1 table).Succeeds fun _ table' =>
      table.Records mid table' := by
  rcases lt_or_ge mid table.totalEntries with hin | hout
  · rw [tableWriteEntry_of_lt rounds junk hcap hin]
    exact ⟨rfl, fun k _ => Function.update_apply .., (Nat.zero_le mid).trans_lt hin, hin,
      fun _ => rfl, fun hout => absurd hin (not_lt.mpr hout), id⟩
  · simp only [tableWriteEntry, not_lt.mpr hcap, if_false, Call.bind_apply]
    refine (growTableTo_enlarges junk hcap rounds).andThen ?_
    rintro _ grown ⟨hprocess, hkept, hpos, hlt, htotal, hbound⟩
    refine ⟨hprocess, fun k hk => ?_, hpos, hlt, fun hin => absurd hin (not_lt.mpr hout),
      fun _ => ?_, hbound⟩
    · show Function.update grown.entries mid 1 k = _
      rw [Function.update_apply, hkept k hk]
    · rcases htotal with hsame | hmore
      · exact absurd (hsame ▸ hlt) (not_lt.mpr hout)
      · exact hmore

theorem tableWriteEntry_records (rounds : ℕ) (junk : ℕ → ℕ → ℕ) (mid : ℕ) :
    (tableWriteEntry rounds junk mid 1 table).Meets (fun _ table' => table.Records mid table')
      (fun _ _ => True) fun _ => True := by
  rcases lt_or_ge maxSize mid with hcap | hcap
  · rw [tableWriteEntry_of_cap_lt rounds junk 1 hcap]
    trivial
  · exact (tableWriteEntry_succeeds rounds junk hcap).meets

end Uid

/-! ## What a write to the urb table does -/

section Urb

variable {table : UrbTable} {seenId : ℕ}

/-- Growing the urb table writes behind its block. -/
theorem reallocTable_eq (hpos : 0 < table.totalEntries) (hlt : table.totalEntries < 2 ^ 32) :
    reallocTable table = .undefined := by
  have hshort : u32 (table.totalEntries * 2) <
      8 * table.totalEntries + u32Sub (u32 (table.totalEntries * 2)) table.totalEntries := by
    unfold u32Sub u32
    omega
  simp [reallocTable, hshort]

theorem reallocTableTo_cases (hpos : 0 < table.totalEntries) (hlt : table.totalEntries < 2 ^ 32)
    (seenId rounds : ℕ) :
    (seenId < table.totalEntries ∧ reallocTableTo seenId rounds table = .ok () table) ∨
      (table.totalEntries ≤ seenId ∧ (reallocTableTo seenId rounds table = .undefined ∨
        reallocTableTo seenId rounds table = .running table)) := by
  rcases lt_or_ge seenId table.totalEntries with hsize | hsize
  · exact .inl ⟨hsize, by cases rounds <;> simp [reallocTableTo, not_le.mpr hsize]⟩
  · refine .inr ⟨hsize, ?_⟩
    cases rounds with
    | zero => exact .inr (by simp [reallocTableTo, hsize])
    | succ rounds => exact .inl (by simp [reallocTableTo, hsize, reallocTable_eq hpos hlt])

/-- The table with one entry changed. -/
def UrbTable.mark (table : UrbTable) (seenId : ℕ) (mark : UrbEntry → UrbEntry) : UrbTable :=
  { table with values := Function.update table.values seenId (mark (table.values seenId)) }

theorem isSeenUrb_initUrbTable (noMsgs noProcess k : ℕ) :
    isSeenUrb (initUrbTable noMsgs noProcess) k = 0 := by
  unfold isSeenUrb
  split <;> rfl

theorem isDeliveredUrb_initUrbTable (noMsgs noProcess k : ℕ) :
    isDeliveredUrb (initUrbTable noMsgs noProcess) k = 0 := by
  unfold isDeliveredUrb
  split <;> rfl

theorem lt_of_isSeenUrb_ne_zero (h : isSeenUrb table seenId ≠ 0) :
    seenId < table.totalEntries := by
  by_contra hle
  exact h (if_pos (not_lt.mp hle))

theorem isSeenUrb_mark (hsize : seenId < table.totalEntries) (mark : UrbEntry → UrbEntry) (k : ℕ) :
    isSeenUrb (table.mark seenId mark) k =
      if k = seenId then (mark (table.values seenId)).seen else isSeenUrb table k := by
  unfold isSeenUrb UrbTable.mark
  by_cases hk : k = seenId
  · subst hk
    simp [hsize]
  · simp [hk]

theorem isDeliveredUrb_mark (hsize : seenId < table.totalEntries) (mark : UrbEntry → UrbEntry)
    (k : ℕ) : isDeliveredUrb (table.mark seenId mark) k =
      if k = seenId then (mark (table.values seenId)).delivered else isDeliveredUrb table k := by
  unfold isDeliveredUrb UrbTable.mark
  by_cases hk : k = seenId
  · subst hk
    simp [hsize]
  · simp [hk]

theorem isSeenUrb_see (hsize : seenId < table.totalEntries) (k : ℕ) :
    isSeenUrb (table.mark seenId .see) k ≠ 0 ↔ k = seenId ∨ isSeenUrb table k ≠ 0 := by
  rw [isSeenUrb_mark hsize]
  by_cases hk : k = seenId <;> simp [hk]

theorem isSeenUrb_deliver (hsize : seenId < table.totalEntries) (k : ℕ) :
    isSeenUrb (table.mark seenId .deliver) k = isSeenUrb table k := by
  rw [isSeenUrb_mark hsize]
  split
  · rename_i heq
    rw [heq, isSeenUrb, if_neg (not_le.mpr hsize)]
  · rfl

theorem isDeliveredUrb_see (hsize : seenId < table.totalEntries) (k : ℕ) :
    isDeliveredUrb (table.mark seenId .see) k = isDeliveredUrb table k := by
  rw [isDeliveredUrb_mark hsize]
  split
  · rename_i heq
    rw [heq, isDeliveredUrb, if_neg (not_le.mpr hsize)]
  · rfl

theorem isDeliveredUrb_deliver (hsize : seenId < table.totalEntries) (k : ℕ) :
    isDeliveredUrb (table.mark seenId .deliver) k ≠ 0 ↔
      k = seenId ∨ isDeliveredUrb table k ≠ 0 := by
  rw [isDeliveredUrb_mark hsize]
  by_cases hk : k = seenId <;> simp [hk]

theorem addUrb_of_lt (rounds : ℕ) (mark : UrbEntry → UrbEntry) (hcap : seenId ≤ maxSizeUrb)
    (hsize : seenId < table.totalEntries) :
    addUrb rounds seenId mark table = .ok () (table.mark seenId mark) := by
  have hgrow : reallocTableTo seenId rounds table = .ok () table := by
    cases rounds <;> simp [reallocTableTo, not_le.mpr hsize]
  simp only [addUrb, not_lt.mpr hcap, if_false, Call.bind_apply, hgrow, Outcome.ok_andThen]
  rfl

theorem addUrb_meets (hpos : 0 < table.totalEntries) (hlt : table.totalEntries < 2 ^ 32)
    (rounds : ℕ) (mark : UrbEntry → UrbEntry) :
    (addUrb rounds seenId mark table).Meets
      (fun _ table' => seenId ≤ maxSizeUrb ∧ seenId < table.totalEntries ∧
        table' = table.mark seenId mark)
      (fun code table' => code = .table ∧ maxSizeUrb < seenId ∧ table' = table)
      (fun table' => table.totalEntries ≤ seenId ∧ table' = table) := by
  rcases lt_or_ge maxSizeUrb seenId with hcap | hcap
  · simp [addUrb, hcap]
  · rcases reallocTableTo_cases hpos hlt seenId rounds with ⟨hsize, -⟩ | ⟨hsize, hgrow⟩
    · rw [addUrb_of_lt rounds mark hcap hsize]
      exact ⟨hcap, hsize, rfl⟩
    · simp only [addUrb, not_lt.mpr hcap, if_false, Call.bind_apply]
      rcases hgrow with hgrow | hgrow <;> rw [hgrow]
      · trivial
      · exact ⟨hsize, rfl⟩

end Urb

end CausalBroadcast
