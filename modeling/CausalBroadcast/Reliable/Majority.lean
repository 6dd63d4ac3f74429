import CausalBroadcast.Model.Receive
import CausalBroadcast.Reliable.Effects
import CausalBroadcast.Reliable.Ids
import CausalBroadcast.Storage.UrbMarks

/-!
# The majority test

`deliver_urb` records the acknowledgements of a message and then counts its row in the
ack table.  `rowSet` says which entries of the row are set after these recordings, and
`Decides` when the count of `can_deliver` lets the message pass.  Its bound check
refuses one row too many: the last row of the table is never counted.
-/

namespace CausalBroadcast

/-- The ack table and the urb table have been filled from their initial state, by any
recordings of any ids. -/
structure ReachedTables (cfg : Membership) (machine : Machine) (d : NetData) : Prop where
  isPid : cfg.IsPid d.selfPid
  numProc : d.numProc = cfg.numProc
  urbacks : ∃ mids, attemptAll
    (fun mid => tableWriteEntry machine.rounds (machine.junk .urbacks) mid 1) mids
    (initTableUid origTableSize cfg.numProc) = .ok () d.urbacks
  urbTable : ∃ marks, attemptAll (markCall machine.rounds) marks
    (initUrbTable origTableSize cfg.numProc) = .ok () d.urbTable

/-- More than half of the processes. -/
def IsMajority (numProc : ℕ) (set : ℕ → Prop) [DecidablePred set] : Prop :=
  numProc < 2 * ((Finset.Icc 1 numProc).filter set).card

instance (numProc : ℕ) (set : ℕ → Prop) [DecidablePred set] :
    Decidable (IsMajority numProc set) := inferInstanceAs (Decidable (_ < _))

/-- The entry of process `q` in the row of the message is set. -/
def RowEntry (d : NetData) (s q : ℕ) : Prop := d.urbacks.entries (rowId d.numProc s q) = 1

instance (d : NetData) (s : ℕ) : DecidablePred (RowEntry d s) := fun _ =>
  inferInstanceAs (Decidable (_ = _))

/-- `deliver_urb` has called `deliver_lcb` exactly if the message was not delivered
before and a majority of its row is set, and then, or if it was before, it is marked
as delivered. -/
structure DecidesExactly (d : NetData) (msg : UrbMsg) (d' : NetData) : Prop where
  invoked : d'.deliveredLcb = d.deliveredLcb ++ [msg] ↔
    isDeliveredUrb d.urbTable msg.seenId = 0 ∧ IsMajority d'.numProc (RowEntry d' msg.seenId)
  marked : isDeliveredUrb d'.urbTable msg.seenId ≠ 0 ↔
    (isDeliveredUrb d.urbTable msg.seenId = 0 ∧
      IsMajority d'.numProc (RowEntry d' msg.seenId)) ∨
    isDeliveredUrb d.urbTable msg.seenId ≠ 0

/-- The entry of process `q` will be set when `deliver_urb` counts the row: it is set,
it is the one of this copy, or it is our own and the message is new. -/
def RowSet (d : NetData) (msg : UrbMsg) (q : ℕ) : Prop :=
  RowEntry d msg.seenId q ∨ rowId d.numProc msg.seenId q = msg.mid ∨
    (isSeenUrb d.urbTable msg.seenId = 0 ∧ q = d.selfPid)

instance (d : NetData) (msg : UrbMsg) : DecidablePred (RowSet d msg) := fun _ =>
  inferInstanceAs (Decidable (_ ∨ _ ∨ _))

/-- The message is to be delivered, but its row is the last one of a table that does not
grow in this call. -/
def LastRowMissed (d : NetData) (msg : UrbMsg) : Prop :=
  isDeliveredUrb d.urbTable msg.seenId = 0 ∧ IsMajority d.numProc (RowSet d msg) ∧
    d.numProc * msg.seenId + d.numProc = d.urbacks.totalEntries ∧
    msg.mid < d.urbacks.totalEntries

instance (d : NetData) (msg : UrbMsg) : Decidable (LastRowMissed d msg) :=
  inferInstanceAs (Decidable (_ ∧ _ ∧ _ ∧ _))

/-! ## The tables before the call -/

section Tables

variable {cfg : Membership} {machine : Machine} {d : NetData}

theorem ReachedTables.urbacks_shape (h : ReachedTables cfg machine d) :
    d.urbacks.noProcess = cfg.numProc ∧ d.urbacks.totalEntries < 2 ^ 32 := by
  obtain ⟨mids, hrun⟩ := h.urbacks
  refine attemptAll_keeps
    (P := fun table => table.noProcess = cfg.numProc ∧ table.totalEntries < 2 ^ 32) ?_
    ⟨rfl, uidTotal_lt cfg⟩ hrun
  intro mid table table' ⟨hprocess, hlt⟩ hcall
  have hmeets := (@tableWriteEntry_records table machine.rounds (machine.junk .urbacks) mid).and
    (tableWriteEntry_meets machine.rounds (machine.junk .urbacks) mid)
  rcases Call.attempt_meets hmeets hcall with ⟨hrecords, -⟩ | ⟨code, -, -, -, rfl⟩
  · exact ⟨hrecords.noProcess.trans hprocess, hrecords.bound hlt⟩
  · exact ⟨hprocess, hlt⟩

theorem markCall_keeps_total {rounds : ℕ} {mark : UrbMark × ℕ} {table table' : UrbTable}
    (hpos : 0 < table.totalEntries) (hlt : table.totalEntries < 2 ^ 32)
    (hcall : Call.attempt (markCall rounds mark) table = .ok () table') :
    table'.totalEntries = table.totalEntries := by
  obtain ⟨_ | _, seenId⟩ := mark
  · rcases Call.attempt_meets (addUrb_meets hpos hlt rounds .see) hcall with
      ⟨-, -, rfl⟩ | ⟨code, -, -, rfl⟩ <;> rfl
  · rcases Call.attempt_meets (addUrb_meets hpos hlt rounds .deliver) hcall with
      ⟨-, -, rfl⟩ | ⟨code, -, -, rfl⟩ <;> rfl

theorem ReachedTables.urbTable_total (h : ReachedTables cfg machine d) :
    d.urbTable.totalEntries = urbTotal cfg := by
  obtain ⟨marks, hrun⟩ := h.urbTable
  refine attemptAll_keeps (P := fun table => table.totalEntries = urbTotal cfg) ?_ rfl hrun
  intro mark table table' htotal hcall
  rw [← htotal]
  exact markCall_keeps_total (htotal.symm ▸ urbTotal_pos cfg) (htotal.symm ▸ urbTotal_lt cfg) hcall

end Tables

/-! ## What one call records and decides -/

section Call

variable {cfg : Membership} (machine : Machine) {d d' : NetData} {msg : UrbMsg}

theorem setAckUrb_records (mid : ℕ) (d : NetData) : (setAckUrb machine mid d).Meets
    (fun _ d' => ∃ table, d.urbacks.Records mid table ∧ d' = { d with urbacks := table })
    (fun _ _ => True) fun _ => True :=
  ((tableWriteEntry_records _ _ mid).mono (fun _ table h => ⟨table, h, rfl⟩)
    (fun _ _ => id) fun _ => id).mapState

/-- The recordings of `deliver_urb`: the acknowledgement of this copy, and our own if
the message is new. -/
theorem deliverUrbStart_records (msg : UrbMsg) (d : NetData) :
    (deliverUrbStart machine msg d).Meets
      (fun newMsg d' => ∃ table, d.urbacks.Records msg.mid table ∧ match newMsg with
        | none => isSeenUrb d.urbTable msg.seenId ≠ 0 ∧ d'.urbacks = table
        | some _ => isSeenUrb d.urbTable msg.seenId = 0 ∧
            table.Records (u32 (d.numProc * msg.seenId + d.selfPid - 1)) d'.urbacks)
      (fun _ _ => True) fun _ => True := by
  simp only [deliverUrbStart, Call.bind_apply]
  refine (setAckUrb_records machine msg.mid d).andThen (fun _ _ => id) (fun _ => id) ?_
  rintro _ _ ⟨table, hrecords, rfl⟩
  rw [Call.bind_apply, Call.state_apply, Outcome.ok_andThen, Call.ite_apply]
  by_cases hseen : isSeenUrb d.urbTable msg.seenId = 0
  · rw [if_pos hseen, Call.bind_apply, onUrbTable, Call.on_apply]
    cases addSeenUrb machine.rounds msg.seenId d.urbTable with
    | ok value urbTable =>
        simp only [Outcome.mapState_ok, Outcome.ok_andThen, Call.bind_apply]
        refine (setAckUrb_records machine _ _).andThen (fun _ _ => id) (fun _ => id) ?_
        rintro _ _ ⟨table', hrecords', rfl⟩
        exact ⟨table, hrecords, hseen, hrecords'⟩
    | error code urbTable => trivial
    | running urbTable => trivial
    | undefined => trivial
  · rw [if_neg hseen]
    exact ⟨table, hrecords, hseen, rfl⟩

/-- What `deliver_urb` has done when it comes to the count. -/
structure Counts (d : NetData) (msg : UrbMsg) (d' : NetData) : Prop where
  lcb : d'.lcb = d.lcb
  delivered : isDeliveredUrb d'.urbTable msg.seenId = isDeliveredUrb d.urbTable msg.seenId
  urbTotal : d'.urbTable.totalEntries = d.urbTable.totalEntries
  deliveredLcb : d'.deliveredLcb = d.deliveredLcb
  noProcess : d'.urbacks.noProcess = d.urbacks.noProcess
  lt : d'.urbacks.totalEntries < 2 ^ 32
  row : ∀ q, 1 ≤ q ∧ q ≤ d.numProc → (RowEntry d' msg.seenId q ↔ RowSet d msg q)
  last : d'.urbacks.totalEntries ≤ d.numProc * msg.seenId + d.numProc ↔
    d.numProc * msg.seenId + d.numProc = d.urbacks.totalEntries ∧
      msg.mid < d.urbacks.totalEntries

theorem deliverUrbStart_counts (hd : ReachedTables cfg machine d)
    (hrow : d.numProc * msg.seenId + d.numProc ≤ d.urbacks.totalEntries) :
    (deliverUrbStart machine msg d).Meets (fun _ d' => Counts d msg d') (fun _ _ => True)
      fun _ => True := by
  have hlt := hd.urbacks_shape.2
  have hself : 1 ≤ d.selfPid ∧ d.selfPid ≤ d.numProc := hd.numProc.symm ▸ hd.isPid
  have hown : u32 (d.numProc * msg.seenId + d.selfPid - 1) =
      rowId d.numProc msg.seenId d.selfPid :=
    u32_of_lt (by have := hself.2; omega)
  have hin : ∀ q, 1 ≤ q ∧ q ≤ d.numProc →
      rowId d.numProc msg.seenId q < d.urbacks.totalEntries :=
    fun q hq => (rowId_lt hq).trans_le hrow
  have hmeets := (deliverUrbStart_records machine msg d).and
    (deliverUrbStart_meets machine (hd.urbTable_total.symm ▸ urbTotal_pos cfg)
      (hd.urbTable_total.symm ▸ urbTotal_lt cfg) msg rfl)
  refine hmeets.mono ?_ (fun _ _ _ => trivial) fun _ _ => trivial
  rintro newMsg d' ⟨⟨table, hfirst, hsecond⟩, hshape⟩
  -- the table after the first recording, on the row of the message
  have hentry : ∀ q, 1 ≤ q ∧ q ≤ d.numProc → (table.entries (rowId d.numProc msg.seenId q) = 1 ↔
      RowEntry d msg.seenId q ∨ rowId d.numProc msg.seenId q = msg.mid) := by
    intro q hq
    rw [hfirst.entries _ (hin q hq)]
    unfold RowEntry
    split <;> simp [*]
  have htotal : table.totalEntries ≤ d.numProc * msg.seenId + d.numProc ↔
      d.numProc * msg.seenId + d.numProc = d.urbacks.totalEntries ∧
        msg.mid < d.urbacks.totalEntries := by
    rcases lt_or_ge msg.mid d.urbacks.totalEntries with hmid | hmid
    · have := hfirst.inside hmid
      omega
    · have := hfirst.outside hmid
      omega
  have hgrow : d.urbacks.totalEntries ≤ table.totalEntries := by
    rcases lt_or_ge msg.mid d.urbacks.totalEntries with hmid | hmid
    · exact (hfirst.inside hmid).ge
    · have := hfirst.outside hmid
      omega
  cases newMsg with
  | none =>
      obtain ⟨hseen, hacks⟩ := hsecond
      obtain ⟨table', -, -, rfl⟩ := hshape
      obtain rfl : table' = table := hacks
      refine ⟨rfl, rfl, rfl, rfl, hfirst.noProcess, hfirst.bound hlt, fun q hq => ?_, htotal⟩
      show table'.entries (rowId d.numProc msg.seenId q) = 1 ↔ _
      rw [hentry q hq]
      simp [RowSet, hseen]
  | some newMsg =>
      obtain ⟨hseen, hrecords⟩ := hsecond
      obtain ⟨-, -, -, -, hsize, -, -, table', -, rfl⟩ := hshape
      rw [hown] at hrecords
      have hinside := hrecords.inside ((hin _ hself).trans_le hgrow)
      refine ⟨rfl, isDeliveredUrb_see hsize _, rfl, rfl, hrecords.noProcess.trans hfirst.noProcess,
        hrecords.bound (hfirst.bound hlt), fun q hq => ?_, ?_⟩
      · have hsame : rowId d.numProc msg.seenId q = rowId d.numProc msg.seenId d.selfPid ↔
            q = d.selfPid := ⟨fun heq => (rowId_inj hq hself heq).2, fun heq => heq ▸ rfl⟩
        show table'.entries (rowId d.numProc msg.seenId q) = 1 ↔ _
        rw [hrecords.entries _ ((hin q hq).trans_le hgrow)]
        by_cases hq' : q = d.selfPid
        · rw [if_pos (hsame.mpr hq')]
          exact ⟨fun _ => .inr (.inr ⟨hseen, hq'⟩), fun _ => rfl⟩
        · rw [if_neg (hsame.not.mpr hq'), hentry q hq]
          simp [RowSet, hq']
      · show table'.totalEntries ≤ _ ↔ _
        rw [hinside]
        exact htotal

theorem isMajority_congr {N : ℕ} {p q : ℕ → Prop} [DecidablePred p] [DecidablePred q]
    (h : ∀ k, 1 ≤ k ∧ k ≤ N → (p k ↔ q k)) : IsMajority N p ↔ IsMajority N q := by
  unfold IsMajority
  rw [Finset.filter_congr fun k hk => h k (Finset.mem_Icc.mp hk)]

/-- `can_deliver` finds a majority, except in the last row of the table. -/
theorem Counts.canDeliver_iff (h : Counts d msg d') (hN : d.urbacks.noProcess = d.numProc)
    (hrow : d.numProc * msg.seenId + d.numProc ≤ d.urbacks.totalEntries)
    (hlt : d.urbacks.totalEntries < 2 ^ 32) (majority : Bool)
    (hcount : canDeliver d'.urbacks msg.seenId = some majority) :
    majority = true ↔ IsMajority d.numProc (RowSet d msg) ∧
      ¬ (d.numProc * msg.seenId + d.numProc = d.urbacks.totalEntries ∧
        msg.mid < d.urbacks.totalEntries) := by
  rw [canDeliver_eq (h.noProcess.trans hN) (hrow.trans_lt hlt)] at hcount
  by_cases hlast : d'.urbacks.totalEntries ≤ d.numProc * msg.seenId + d.numProc
  · rw [if_pos hlast] at hcount
    obtain rfl := Option.some.inj hcount
    simpa using fun _ => h.last.mp hlast
  · rw [if_neg hlast] at hcount
    split at hcount
    · cases hcount
    · obtain rfl := Option.some.inj hcount
      have hsame : d'.numProc = d.numProc := congrArg Lcb.numProc h.lcb
      have hrows : IsMajority d.numProc
          (fun q => d'.urbacks.entries (rowId d.numProc msg.seenId q) = 1) ↔
          IsMajority d.numProc (RowSet d msg) :=
        isMajority_congr fun q hq => by
          rw [← h.row q hq]
          unfold RowEntry
          rw [hsame]
      rw [decide_eq_true_eq, ← hrows, and_iff_left (h.last.not.mp hlast)]
      unfold IsMajority
      omega

/-- The message is passed up. -/
def Passes (d : NetData) (msg : UrbMsg) : Prop :=
  isDeliveredUrb d.urbTable msg.seenId = 0 ∧ IsMajority d.numProc (RowSet d msg) ∧
    ¬ (d.numProc * msg.seenId + d.numProc = d.urbacks.totalEntries ∧
      msg.mid < d.urbacks.totalEntries)

/-- What a returned call of `deliver_urb` has done. -/
structure Decided (d : NetData) (msg : UrbMsg) (d' : NetData) : Prop where
  numProc : d'.numProc = d.numProc
  row : ∀ q, 1 ≤ q ∧ q ≤ d.numProc → (RowEntry d' msg.seenId q ↔ RowSet d msg q)
  decided : (Passes d msg ∧ d'.deliveredLcb = d.deliveredLcb ++ [msg] ∧
      isDeliveredUrb d'.urbTable msg.seenId ≠ 0) ∨
    (¬ Passes d msg ∧ d'.deliveredLcb = d.deliveredLcb ∧
      isDeliveredUrb d'.urbTable msg.seenId = isDeliveredUrb d.urbTable msg.seenId)

theorem deliverUrbEnd_decides (hd : ReachedTables cfg machine d)
    (hrow : d.numProc * msg.seenId + d.numProc ≤ d.urbacks.totalEntries)
    (hcounts : Counts d msg d') :
    (deliverUrbEnd machine msg d').Meets (fun _ d'' => Decided d msg d'') (fun _ _ => True)
      fun _ => True := by
  have hshape := hd.urbacks_shape
  have htotal := hcounts.urbTotal.trans hd.urbTable_total
  have hcount := hcounts.canDeliver_iff (hshape.1.trans hd.numProc.symm) hrow hshape.2
  refine (deliverUrbEnd_meets machine (htotal.symm ▸ urbTotal_pos cfg)
    (htotal.symm ▸ urbTotal_lt cfg) msg).mono ?_ (fun _ _ _ => trivial) fun _ _ => trivial
  rintro _ d'' (⟨hmajority, hfresh, hsize, lcb, hsame, rfl⟩ | ⟨hrefused, rfl⟩)
  · have hpasses : Passes d msg := ⟨hcounts.delivered ▸ hfresh, (hcount true hmajority).mp rfl⟩
    have hnum : lcb.numProc = d.numProc := hsame.2.trans (congrArg Lcb.numProc hcounts.lcb)
    refine ⟨hnum, fun q hq => ?_, .inl ⟨hpasses, congrArg (· ++ [msg]) hcounts.deliveredLcb, ?_⟩⟩
    · rw [← hcounts.row q hq]
      show d'.urbacks.entries (rowId lcb.numProc msg.seenId q) = 1 ↔
        d'.urbacks.entries (rowId d'.lcb.numProc msg.seenId q) = 1
      rw [hnum, congrArg Lcb.numProc hcounts.lcb]
    · exact (isDeliveredUrb_deliver hsize _).mpr (.inl rfl)
  · refine ⟨congrArg Lcb.numProc hcounts.lcb, hcounts.row,
      .inr ⟨fun hpasses => ?_, hcounts.deliveredLcb, hcounts.delivered⟩⟩
    rcases hrefused with hfalse | hdelivered
    · exact Bool.noConfusion ((hcount false hfalse).mpr hpasses.2)
    · exact hdelivered (hcounts.delivered.trans hpasses.1)

theorem Counts.onlyTasks {d'' : NetData} (h : Counts d msg d') (htasks : OnlyTasks d' d'') :
    Counts d msg d'' := by
  obtain ⟨taskQ, enqueued, rfl⟩ := htasks
  exact ⟨h.lcb, h.delivered, h.urbTotal, h.deliveredLcb, h.noProcess, h.lt, h.row, h.last⟩

theorem deliverUrbCall_decides (hd : ReachedTables cfg machine d)
    (hrow : d.numProc * msg.seenId + d.numProc ≤ d.urbacks.totalEntries) :
    (deliverUrbCall machine msg d).Meets (fun _ d' => Decided d msg d') (fun _ _ => True)
      fun _ => True := by
  unfold deliverUrbCall
  rw [Call.bind_apply]
  refine (deliverUrbStart_counts machine hd hrow).andThen (fun _ _ => id) (fun _ => id) ?_
  intro newMsg d₁ hcounts
  rw [Call.bind_apply]
  refine (changesTasks_rebroadcast newMsg d₁).andThen (fun _ _ _ => trivial)
    (fun _ _ => trivial) ?_
  intro _ d₂ htasks
  exact deliverUrbEnd_decides machine hd hrow (hcounts.onlyTasks htasks)

end Call

/-- A call of `deliver_urb` that returns decides by the majority of the row, unless the
row is the last one of the table. -/
theorem majorityDecision_iff {cfg : Membership} {machine : Machine} {d d' : NetData} {msg : UrbMsg}
    (hd : ReachedTables cfg machine d)
    (hrow : d.numProc * msg.seenId + d.numProc ≤ d.urbacks.totalEntries)
    (hreturn : deliverUrbCall machine msg d = .ok () d') :
    DecidesExactly d msg d' ↔ ¬ LastRowMissed d msg := by
  have hmeets := deliverUrbCall_decides machine hd hrow
  rw [hreturn] at hmeets
  obtain ⟨hnum, hset, hdecided⟩ := hmeets
  have hmajority : IsMajority d'.numProc (RowEntry d' msg.seenId) ↔
      IsMajority d.numProc (RowSet d msg) := by
    rw [hnum]
    exact isMajority_congr hset
  constructor
  · intro hexact hmissed
    obtain ⟨hfresh, hmost, hlast⟩ := hmissed
    -- The bound of the last row decides against a majority.
    rcases hdecided with ⟨hpasses, -⟩ | ⟨-, hsame, -⟩
    · exact hpasses.2.2 hlast
    · have hinvoked := hexact.invoked.mpr ⟨hfresh, hmajority.mpr hmost⟩
      rw [hsame] at hinvoked
      simp at hinvoked
  · intro hkept
    rcases hdecided with ⟨hpasses, hinvoked, hmarked⟩ | ⟨hpasses, hsame, hmarked⟩
    · have hboth := And.intro hpasses.1 (hmajority.mpr hpasses.2.1)
      exact ⟨⟨fun _ => hboth, fun _ => hinvoked⟩, ⟨fun _ => .inl hboth, fun _ => hmarked⟩⟩
    · have hnot : ¬ (isDeliveredUrb d.urbTable msg.seenId = 0 ∧
          IsMajority d'.numProc (RowEntry d' msg.seenId)) := by
        rintro ⟨hfresh, hmost⟩
        have hmost' := hmajority.mp hmost
        exact hpasses ⟨hfresh, hmost', fun hlast => hkept ⟨hfresh, hmost', hlast⟩⟩
      refine ⟨⟨fun hinvoked => ?_, fun hboth => absurd hboth hnot⟩, ?_⟩
      · rw [hsame] at hinvoked
        simp at hinvoked
      · rw [hmarked, or_iff_right hnot]

theorem reachedTables_initial (machine : Machine) {cfg : Membership} {me : ℕ} (hme : cfg.IsPid me)
    (numMsg : ℕ) : ReachedTables cfg machine (NetData.initial cfg numMsg me) :=
  ⟨hme, rfl, ⟨[], rfl⟩, ⟨[], rfl⟩⟩

/-- A machine whose loops are given enough rounds, and whose new memory is zero. -/
def zeroMachine : Machine := ⟨14, fun _ _ _ => 0⟩

set_option maxRecDepth 20000 in
/-- Process 1 gets the first message of process 2 from process 2: both have it. -/
theorem majorityDecision_first :
    ∃ d', deliverUrbCall zeroMachine ⟨⟨[0, 0], 2⟩, 1, 3⟩ (NetData.initial fifoMembership 150 1) =
        .ok () d' ∧
      DecidesExactly (NetData.initial fifoMembership 150 1) ⟨⟨[0, 0], 2⟩, 1, 3⟩ d' := by
  have hme : fifoMembership.IsPid 1 := by decide
  refine ⟨_, rfl, (majorityDecision_iff (reachedTables_initial zeroMachine hme 150) (by decide)
    rfl).mpr (by decide)⟩

set_option maxRecDepth 20000 in
/-- Message 150 of process 2 has the last row, and is not delivered. -/
theorem lastRow_missed :
    ReachedTables fifoMembership zeroMachine (NetData.initial fifoMembership 150 1) ∧
      2 * 299 + 2 ≤ (NetData.initial fifoMembership 150 1).urbacks.totalEntries ∧
      ∃ d', deliverUrbCall zeroMachine ⟨⟨[0, 149], 2⟩, 299, 599⟩
          (NetData.initial fifoMembership 150 1) = .ok () d' ∧
        ¬ DecidesExactly (NetData.initial fifoMembership 150 1) ⟨⟨[0, 149], 2⟩, 299, 599⟩ d' := by
  refine ⟨reachedTables_initial _ (by decide) _, by decide, _, rfl, fun hexact => ?_⟩
  exact absurd (hexact.invoked.mpr (by decide)) (by decide)

end CausalBroadcast
