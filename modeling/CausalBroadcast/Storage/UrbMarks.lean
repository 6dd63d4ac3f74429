import CausalBroadcast.Model.Fifo
import CausalBroadcast.Storage.TableMap

/-!
# The urb table and the FIFO pending table

Both tables keep what is recorded as long as they do not grow, and no growth stays
inside the block that `realloc` returns (`reallocTable_eq`, `reallocPending_eq`).
So they behave as their interface says exactly for ids below their first size; ids
above the cap are refused before the table would grow.
-/

namespace CausalBroadcast

/-! ## The urb table -/

/-- What `urb.c` records of a message. -/
inductive UrbMark where
  | seen
  | delivered
  deriving DecidableEq

/-- `add_seen_urb` or `add_delivered_urb` for an id. -/
def markCall (rounds : ℕ) : UrbMark × ℕ → UrbCall Unit
  | (.seen, seenId) => addSeenUrb rounds seenId
  | (.delivered, seenId) => addDeliveredUrb rounds seenId

/-- `is_seen_urb` or `is_delivered_urb`. -/
def UrbTable.query (table : UrbTable) : UrbMark × ℕ → ℕ
  | (.seen, seenId) => isSeenUrb table seenId
  | (.delivered, seenId) => isDeliveredUrb table seenId

/-- What has been recorded, after one record more; ids above the cap are refused. -/
def recordMark (recorded : UrbMark × ℕ → ℕ) (mark : UrbMark × ℕ) : UrbMark × ℕ → ℕ :=
  if maxSizeUrb < mark.2 then recorded else Function.update recorded mark 1

/-- After each of the calls, all of which stay inside the memory of the table, every
query returns what has been recorded. -/
def RecordsMarks (rounds : ℕ) (table : UrbTable) (marks : List (UrbMark × ℕ)) : Prop :=
  Follows (markCall rounds) recordMark
    (fun recorded table => ∀ mark, table.query mark = recorded mark) (fun _ => 0) table marks

/-- The id is accepted and lies outside a table of this size. -/
def Outgrows (cap size seenId : ℕ) : Prop := seenId ≤ cap ∧ size ≤ seenId

instance (cap size seenId : ℕ) : Decidable (Outgrows cap size seenId) :=
  inferInstanceAs (Decidable (_ ∧ _))

/-- The table has its first size and holds what has been recorded. -/
structure HoldsMarks (size : ℕ) (recorded : UrbMark × ℕ → ℕ) (table : UrbTable) : Prop where
  totalEntries : table.totalEntries = size
  query : ∀ mark, table.query mark = recorded mark

section Marks

variable {size rounds : ℕ} {recorded : UrbMark × ℕ → ℕ} {table : UrbTable} {mark : UrbMark × ℕ}

theorem HoldsMarks.initial (noMsgs noProcess : ℕ) :
    HoldsMarks (u32 (noMsgs * noProcess)) (fun _ => 0) (initUrbTable noMsgs noProcess) where
  totalEntries := rfl
  query := by
    rintro ⟨_ | _, seenId⟩
    · exact isSeenUrb_initUrbTable noMsgs noProcess seenId
    · exact isDeliveredUrb_initUrbTable noMsgs noProcess seenId

/-- The table with one mark more. -/
def UrbTable.put (table : UrbTable) : UrbMark × ℕ → UrbTable
  | (.seen, seenId) => table.mark seenId .see
  | (.delivered, seenId) => table.mark seenId .deliver

theorem markCall_of_cap_lt (hcap : maxSizeUrb < mark.2) :
    markCall rounds mark table = .error .table table := by
  obtain ⟨_ | _, seenId⟩ := mark <;>
    simp [markCall, addSeenUrb, addDeliveredUrb, addUrb, show maxSizeUrb < seenId from hcap]

theorem markCall_of_lt (hcap : mark.2 ≤ maxSizeUrb) (hsize : mark.2 < table.totalEntries) :
    markCall rounds mark table = .ok () (table.put mark) := by
  obtain ⟨_ | _, seenId⟩ := mark
  · exact addUrb_of_lt rounds .see hcap hsize
  · exact addUrb_of_lt rounds .deliver hcap hsize

theorem markCall_of_le (rounds : ℕ) (hpos : 0 < table.totalEntries)
    (hlt : table.totalEntries < 2 ^ 32) (hout : Outgrows maxSizeUrb table.totalEntries mark.2) :
    markCall (rounds + 1) mark table = .undefined := by
  obtain ⟨hcap, hsize⟩ := hout
  obtain ⟨_ | _, seenId⟩ := mark <;>
    simp [markCall, addSeenUrb, addDeliveredUrb, addUrb, not_lt.mpr hcap, reallocTableTo, hsize,
      reallocTable_eq hpos hlt]

theorem query_put (hsize : mark.2 < table.totalEntries) (other : UrbMark × ℕ) :
    (table.put mark).query other = Function.update table.query mark 1 other := by
  obtain ⟨kind, seenId⟩ := mark
  obtain ⟨kind', k⟩ := other
  simp only [Function.update_apply, Prod.mk.injEq]
  cases kind with
  | seen =>
      cases kind' with
      | seen => simp only [UrbTable.query, UrbTable.put, isSeenUrb_mark hsize, true_and]
      | delivered =>
          simp only [UrbTable.query, UrbTable.put, isDeliveredUrb_see hsize, reduceCtorEq,
            false_and, if_false]
  | delivered =>
      cases kind' with
      | seen =>
          simp only [UrbTable.query, UrbTable.put, isSeenUrb_deliver hsize, reduceCtorEq,
            false_and, if_false]
      | delivered => simp only [UrbTable.query, UrbTable.put, isDeliveredUrb_mark hsize, true_and]

/-- One call on an id inside the table, or on one that is refused. -/
theorem HoldsMarks.record (h : HoldsMarks size recorded table)
    (hfits : ¬ Outgrows maxSizeUrb size mark.2) :
    ∃ table', Call.attempt (markCall rounds mark) table = .ok () table' ∧
      HoldsMarks size (recordMark recorded mark) table' := by
  rcases lt_or_ge maxSizeUrb mark.2 with hcap | hcap
  · rw [recordMark, if_pos hcap]
    exact ⟨table, Call.attempt_of_error (markCall_of_cap_lt hcap), h⟩
  · have hsize : mark.2 < table.totalEntries := by
      rw [h.totalEntries]
      exact not_le.mp fun hle => hfits ⟨hcap, hle⟩
    refine ⟨table.put mark, Call.attempt_of_ok (markCall_of_lt hcap hsize), ?_, fun other => ?_⟩
    · obtain ⟨_ | _, seenId⟩ := mark <;> exact h.totalEntries
    · rw [query_put hsize, recordMark, if_neg (not_lt.mpr hcap), funext h.query]

end Marks

theorem recordsMarks_iff {noMsgs noProcess : ℕ} (hpos : 0 < u32 (noMsgs * noProcess)) (rounds : ℕ)
    (marks : List (UrbMark × ℕ)) :
    RecordsMarks (rounds + 1) (initUrbTable noMsgs noProcess) marks ↔
      ∀ mark ∈ marks, ¬ Outgrows maxSizeUrb (u32 (noMsgs * noProcess)) mark.2 := by
  have hinit := HoldsMarks.initial noMsgs noProcess
  constructor
  · refine not_bad_of_follows hinit (fun _ _ _ h hfits => h.record hfits) ?_
    intro recorded table mark table' h hout hcall
    rw [← h.totalEntries] at hout
    have hundefined := markCall_of_le rounds (h.totalEntries.symm ▸ hpos)
      (h.totalEntries.symm ▸ Nat.mod_lt _ (by norm_num)) hout
    rw [Call.attempt_of_undefined hundefined] at hcall
    cases hcall
  · exact follows_of_good hinit (fun _ _ _ h hfits => h.record hfits) fun _ _ h => h.query

/-! ## The FIFO pending table -/

/-- The call of `add_pending` for an id and a value. -/
def pendingCall (rounds : ℕ) (flag : ℕ × ℕ) : PendingCall Unit :=
  addPending rounds flag.1 flag.2

/-- After each of the calls, all of which stay inside the memory of the table,
`get_pending` returns the last value recorded. -/
def RecordsFlags (rounds : ℕ) (pending : PendingTable) (flags : List (ℕ × ℕ)) : Prop :=
  Follows (pendingCall rounds) (mapWrite maxSizePending)
    (fun recorded pending => ∀ seenId, getPending pending seenId = recorded seenId)
    (fun _ => 0) pending flags

/-- The table has its first size and holds what has been recorded. -/
structure HoldsFlags (size : ℕ) (recorded : ℕ → ℕ) (pending : PendingTable) : Prop where
  totalEntries : pending.totalEntries = size
  read : ∀ seenId, getPending pending seenId = recorded seenId

section Flags

variable {size : ℕ} {recorded : ℕ → ℕ} {pending : PendingTable} {flag : ℕ × ℕ}

theorem HoldsFlags.initial (noMsgs noProcess : ℕ) :
    HoldsFlags (u32 (noMsgs * noProcess)) (fun _ => 0) (initPending noMsgs noProcess) where
  totalEntries := rfl
  read := fun seenId => by
    unfold getPending
    split <;> rfl

theorem getPending_set {seenId : ℕ} (value : ℕ) (hsize : seenId < pending.totalEntries) (k : ℕ) :
    getPending (pending.set seenId value) k =
      Function.update (getPending pending) seenId value k := by
  by_cases hk : k = seenId
  · simp [getPending, PendingTable.set, hk, hsize]
  · simp [getPending, PendingTable.set, hk]

theorem HoldsFlags.record (h : HoldsFlags size recorded pending) (rounds : ℕ)
    (hfits : ¬ Outgrows maxSizePending size flag.1) :
    ∃ pending', Call.attempt (pendingCall rounds flag) pending = .ok () pending' ∧
      HoldsFlags size (mapWrite maxSizePending recorded flag) pending' := by
  rcases lt_or_ge maxSizePending flag.1 with hcap | hcap
  · rw [mapWrite, if_pos hcap]
    exact ⟨pending, Call.attempt_of_error (addPending_of_cap_lt rounds flag.2 pending hcap), h⟩
  · have hsize : flag.1 < pending.totalEntries := by
      rw [h.totalEntries]
      exact not_le.mp fun hle => hfits ⟨hcap, hle⟩
    refine ⟨pending.set flag.1 flag.2,
      Call.attempt_of_ok (addPending_of_lt rounds flag.2 pending hcap hsize), h.totalEntries, ?_⟩
    intro k
    rw [getPending_set flag.2 hsize, mapWrite, if_neg (not_lt.mpr hcap), funext h.read]

end Flags

theorem recordsFlags_iff {noMsgs noProcess : ℕ} (hpos : 0 < u32 (noMsgs * noProcess)) (rounds : ℕ)
    (flags : List (ℕ × ℕ)) :
    RecordsFlags (rounds + 1) (initPending noMsgs noProcess) flags ↔
      ∀ flag ∈ flags, ¬ Outgrows maxSizePending (u32 (noMsgs * noProcess)) flag.1 := by
  have hinit := HoldsFlags.initial noMsgs noProcess
  constructor
  · refine not_bad_of_follows hinit (fun _ _ _ h hfits => h.record _ hfits) ?_
    intro recorded pending flag pending' h hout hcall
    obtain ⟨hcap, hle⟩ := hout
    rw [← h.totalEntries] at hle
    have hundefined := addPending_of_le (h.totalEntries.symm ▸ hpos)
      (h.totalEntries.symm ▸ Nat.mod_lt _ (by norm_num)) rounds flag.2 hcap hle
    have hcall' : Call.attempt (pendingCall (rounds + 1) flag) pending = .undefined :=
      Call.attempt_of_undefined hundefined
    rw [hcall'] at hcall
    cases hcall
  · exact follows_of_good hinit (fun _ _ _ h hfits => h.record _ hfits) fun _ _ h => h.read

/-- Both tables keep what is recorded exactly as long as no accepted id lies outside
their first size. -/
theorem tablesSurvive_iff (noMsgs noProcess : ℕ) (hpos : 0 < u32 (noMsgs * noProcess))
    (rounds : ℕ) (marks : List (UrbMark × ℕ)) (flags : List (ℕ × ℕ)) :
    (RecordsMarks (rounds + 1) (initUrbTable noMsgs noProcess) marks ↔
      ∀ mark ∈ marks, ¬ Outgrows maxSizeUrb (u32 (noMsgs * noProcess)) mark.2) ∧
    (RecordsFlags (rounds + 1) (initPending noMsgs noProcess) flags ↔
      ∀ flag ∈ flags, ¬ Outgrows maxSizePending (u32 (noMsgs * noProcess)) flag.1) :=
  ⟨recordsMarks_iff hpos rounds marks, recordsFlags_iff hpos rounds flags⟩

theorem tablesSurvive_inside :
    RecordsMarks 1 (initUrbTable 150 2) [(.seen, 299), (.delivered, 299), (.seen, 9000)] ∧
      RecordsFlags 1 (initPending 150 2) [(299, 1), (299, 0)] := by
  have hsurvive := tablesSurvive_iff 150 2 (by decide) 0
    [(.seen, 299), (.delivered, 299), (.seen, 9000)] [(299, 1), (299, 0)]
  exact ⟨hsurvive.1.mpr (by decide), hsurvive.2.mpr (by decide)⟩

/-- For two processes the id 300 is the first that makes the tables grow. -/
theorem tables_growth : ¬ RecordsMarks 1 (initUrbTable 150 2) [(.seen, 300)] ∧
    ¬ RecordsFlags 1 (initPending 150 2) [(300, 1)] := by
  constructor
  · intro hrecords
    obtain ⟨table, hrun, -⟩ := hrecords _ (List.prefix_refl _)
    cases hrun
  · intro hrecords
    obtain ⟨table, hrun, -⟩ := hrecords _ (List.prefix_refl _)
    cases hrun

end CausalBroadcast
