import CausalBroadcast.Model.Receive
import CausalBroadcast.Reliable.Majority
import CausalBroadcast.Storage.TableMap
import CausalBroadcast.Wire.Exposed

/-!
# What a datagram can do

The exact condition under which `receiver_f` handles a datagram well: it stays inside
its arrays and lists, and an error leaves the state as it was.  `Harmless` follows the
layers: the sender is looked up in the address book (`get_addr` lets `0` and
`num_proc + 1` pass), `set_delivered` comes before everything that may still fail, and
the origin is only used by the layer at the top.
-/

namespace CausalBroadcast

/-! ## The statement -/

/-- The tables and the causal layer are as they were. -/
structure Untouched (d d' : NetData) : Prop where
  plDelivered : d'.plDelivered = d.plDelivered
  urbacks : d'.urbacks = d.urbacks
  urbTable : d'.urbTable = d.urbTable
  vectorClock : d'.lcb.vectorClock = d.lcb.vectorClock
  lcbPending : d'.lcb.lcbPending = d.lcb.lcbPending

/-- No access was out of bounds, and if there was an error nothing has changed. -/
def HandledWell (d : NetData) : Outcome ErrorCode (Msg × NetData) Unit → Prop
  | .ok _ _ => True
  | .error _ memory => Untouched d memory.2
  | .running _ => True
  | .undefined => False

/-- Our own index in the row of a message. -/
def ownId (d : NetData) (s : ℕ) : ℕ := u32 (d.numProc * s + d.selfPid - 1)

/-- The message is new to `deliver_urb`. -/
abbrev Unseen (d : NetData) (msg : UrbMsg) : Prop := isSeenUrb d.urbTable msg.seenId = 0

/-- The recordings of `deliver_urb` stay inside the ack table. -/
def StaysInside (d : NetData) (msg : UrbMsg) : Prop :=
  msg.mid < d.urbacks.totalEntries ∧
    (Unseen d msg → ownId d msg.seenId < d.urbacks.totalEntries)

instance (d : NetData) (msg : UrbMsg) : Decidable (StaysInside d msg) :=
  inferInstanceAs (Decidable (_ ∧ (_ → _)))

/-- The ack table after the recordings of `deliver_urb`, as far as it was there before.
If it has grown it is at least twice as large. -/
def acksAfter (d : NetData) (msg : UrbMsg) : UidTable :=
  { d.urbacks with
    totalEntries :=
      if StaysInside d msg then d.urbacks.totalEntries else 2 * d.urbacks.totalEntries
    entries := fun k =>
      if k = msg.mid ∨ (Unseen d msg ∧ k = ownId d msg.seenId) then 1 else d.urbacks.entries k }

/-- `deliver_lcb` does no harm: the origin is a pid, and if the message is accepted the
pending search delivers nothing after it. -/
structure LcbHarmless (cfg : Membership) (data : Lcb) (msg : LcbMsg) : Prop where
  isPid : cfg.IsPid msg.originalSender
  search : Ready cfg data.vectorClock msg → ¬ HeadAccepted cfg (data.deliver msg)

/-- `deliver_urb` does no harm: the ids are inside the tables, there is room for the
tasks, and the message is passed up only if `deliver_lcb` does none. -/
structure UrbHarmless (cfg : Membership) (d : NetData) (msg : UrbMsg) : Prop where
  mid : msg.mid ≤ maxSize
  fresh : Unseen d msg → msg.seenId ≤ maxSizeUrb ∧ msg.seenId < d.urbTable.totalEntries ∧
    ownId d msg.seenId ≤ maxSize ∧ d.taskQ.noElem + (d.numProc - 1) ≤ maxQueueSize queueLen
  counted : canDeliver (acksAfter d msg) msg.seenId ≠ none
  passed : canDeliver (acksAfter d msg) msg.seenId = some true →
    isDeliveredUrb d.urbTable msg.seenId = 0 → LcbHarmless cfg d.lcb msg.lcbMsg

/-- `deliver_pl` hands the message to the layer above. -/
def TakenIn (sendto : Bool) (d : NetData) (msg : Msg) : Prop :=
  sendto = true ∧ msg.sender ≤ d.numProc ∧ isDelivered d msg.mid = 0 ∧ msg.mid ≤ maxSize ∧
    0 < d.plDelivered.totalEntries

/-- The message does no harm: it is an acknowledgement, or its sender is a pid or refused
by `get_addr`, and if it is accepted `deliver_urb` does no harm. -/
def Harmless (cfg : Membership) (sendto : Bool) (d : NetData) (msg : Msg) : Prop :=
  msg.mtype ≠ ackNo → msg.sender ≠ 0 ∧ msg.sender ≠ d.numProc + 1 ∧
    (TakenIn sendto d msg → UrbHarmless cfg d msg.urbMsg)

/-! ## The count -/

section Count

variable {cfg : Membership} {table table' : UidTable} {s : ℕ}

/-- `can_deliver` reads the size of the table and its row. -/
theorem canDeliver_congr (hprocess : table'.noProcess = table.noProcess)
    (htotal : table'.totalEntries ≤ u32 (s * table.noProcess + table.noProcess) ↔
      table.totalEntries ≤ u32 (s * table.noProcess + table.noProcess))
    (hrow : ∀ k < u32 (s * table.noProcess + table.noProcess),
      u32 (s * table.noProcess + table.noProcess) < table.totalEntries →
        table'.entries k = table.entries k) :
    canDeliver table' s = canDeliver table s := by
  unfold canDeliver
  rw [hprocess]
  by_cases hsize : table.totalEntries ≤ u32 (s * table.noProcess + table.noProcess)
  · simp only [if_pos hsize, if_pos (htotal.mpr hsize)]
  · have hcount : ∀ first last, first = u32 (s * table.noProcess) →
        last = u32 (s * table.noProcess + table.noProcess) →
        (List.range' first (last - first)).countP (fun i => table'.entries i = 1) =
          (List.range' first (last - first)).countP fun i => table.entries i = 1 := by
      rintro first last rfl rfl
      refine List.countP_congr fun k hk => ?_
      rw [List.mem_range'_1] at hk
      rw [hrow k (by omega) (not_le.mp hsize)]
    simp only [if_neg hsize, if_neg (htotal.not.mpr hsize), hcount _ _ rfl rfl]

/-- An empty row is no majority. -/
theorem canDeliver_of_empty (h : u32 (s * table.noProcess + table.noProcess) ≤
    u32 (s * table.noProcess)) : canDeliver table s = some false := by
  unfold canDeliver
  simp only [Nat.sub_eq_zero_of_le h, List.range'_zero, List.countP_nil, not_lt.mpr h, false_and,
    if_false, Nat.not_lt_zero, decide_false, ite_self]

/-- For the numbers of processes whose tables are truncated, up to `2 * maxSize`. -/
theorem truncatedTotals :
    ((List.range 11033).all fun k => 8192 < 150 * (k + 5351) * (k + 5351) % 2 ^ 32) = true := by
  decide +kernel

/-- If the tables may have grown, the row of a message is inside the tables as they
start, or longer than any table that has grown. -/
theorem row_inside_or_long (hsmall : uidTotal cfg ≤ maxSize) (hs : s < urbTotal cfg) :
    cfg.numProc * s + cfg.numProc ≤ uidTotal cfg ∨ 2 * maxSize ≤ cfg.numProc := by
  by_contra hnot
  push Not at hnot
  obtain ⟨hlong, hfew⟩ := hnot
  have hfew' : cfg.numProc < 16384 := hfew
  have hurb : urbTotal cfg = 150 * cfg.numProc := u32_of_lt (by unfold origTableSize; omega)
  have hrow : cfg.numProc * s + cfg.numProc ≤ 150 * cfg.numProc * cfg.numProc := by
    have hle : s + 1 ≤ 150 * cfg.numProc := by omega
    calc cfg.numProc * s + cfg.numProc = cfg.numProc * (s + 1) := by ring
      _ ≤ cfg.numProc * (150 * cfg.numProc) := Nat.mul_le_mul_left _ hle
      _ = 150 * cfg.numProc * cfg.numProc := by ring
  -- up to 5350 processes the size of the tables is not truncated
  rcases lt_or_ge cfg.numProc 5351 with hlow | hhigh
  · have hsquare : 150 * cfg.numProc * cfg.numProc < 2 ^ 32 := by nlinarith
    have huid : uidTotal cfg = 150 * cfg.numProc * cfg.numProc := u32_of_lt hsquare
    omega
  · have hmem := List.all_eq_true.mp truncatedTotals (cfg.numProc - 5351)
      (List.mem_range.mpr (by omega))
    rw [Nat.sub_add_cancel hhigh] at hmem
    have hlarge : 8192 < uidTotal cfg := of_decide_eq_true hmem
    exact absurd hsmall (not_le.mpr hlarge)

/-- Only what was in the table before the call, and the recordings, matter for the count. -/
theorem canDeliver_acksAfter {d : NetData} {msg : UrbMsg} (h : d.urbacks.Sized cfg)
    (hpos : 0 < uidTotal cfg) (hs : msg.seenId < urbTotal cfg) (hmid : msg.mid ≤ maxSize)
    (hown : Unseen d msg → ownId d msg.seenId ≤ maxSize) (hsized : table'.Sized cfg)
    (hentries : ∀ k < d.urbacks.totalEntries, table'.entries k = (acksAfter d msg).entries k)
    (hinside : StaysInside d msg → table'.totalEntries = d.urbacks.totalEntries)
    (houtside : ¬ StaysInside d msg → 2 * d.urbacks.totalEntries ≤ table'.totalEntries) :
    canDeliver table' msg.seenId = canDeliver (acksAfter d msg) msg.seenId := by
  have hprocess : (acksAfter d msg).noProcess = cfg.numProc := h.noProcess
  have hprocess' : table'.noProcess = (acksAfter d msg).noProcess :=
    hsized.noProcess.trans h.noProcess.symm
  -- the entries of a table that grows are not known, but its size and the old entries are
  by_cases hstay : StaysInside d msg
  · have htotal : (acksAfter d msg).totalEntries = d.urbacks.totalEntries := if_pos hstay
    refine canDeliver_congr hprocess' (by rw [htotal, hinside hstay]) fun k hk hlast => ?_
    exact hentries k (hk.trans (hlast.trans_eq htotal))
  · have htotal : (acksAfter d msg).totalEntries = 2 * d.urbacks.totalEntries := if_neg hstay
    have hle : uidTotal cfg ≤ d.urbacks.totalEntries := by
      rcases h.size with heq | ⟨-, -, hle, -⟩
      · exact heq.ge
      · exact hle
    have hold : d.urbacks.totalEntries ≤ maxSize := by
      by_contra hlarge
      exact hstay ⟨hmid.trans_lt (not_le.mp hlarge),
        fun hunseen => (hown hunseen).trans_lt (not_le.mp hlarge)⟩
    have hnew : table'.totalEntries ≤ 2 * maxSize := by
      rcases hsized.size with heq | ⟨-, -, -, hle⟩ <;> omega
    have hmore := houtside hstay
    rcases row_inside_or_long (hle.trans hold) hs with hrow | hlong
    · -- the whole row was there before the call
      have hlast : u32 (msg.seenId * (acksAfter d msg).noProcess + (acksAfter d msg).noProcess) =
          cfg.numProc * msg.seenId + cfg.numProc := by
        rw [hprocess, Nat.mul_comm]
        exact u32_of_lt (hrow.trans_lt (uidTotal_lt cfg))
      refine canDeliver_congr hprocess' ?_ fun k hk _ => hentries k ?_
      · rw [hlast, htotal]
        omega
      · rw [hlast] at hk
        omega
    · -- no table is as long as a row, so `can_deliver` counts nothing
      have hnum := cfg.numProc_lt
      by_cases hempty :
          u32 (msg.seenId * cfg.numProc + cfg.numProc) ≤ u32 (msg.seenId * cfg.numProc)
      · rw [canDeliver_of_empty (by rw [hsized.noProcess]; exact hempty),
          canDeliver_of_empty (by rw [hprocess]; exact hempty)]
      · have hlast : 2 * maxSize ≤ u32 (msg.seenId * cfg.numProc + cfg.numProc) := by
          unfold u32 at hempty ⊢
          omega
        rw [← hprocess] at hlast
        refine canDeliver_congr hprocess' ?_ fun k _ hbefore => ?_
        · rw [htotal]
          exact iff_of_true (hnew.trans hlast) (by omega)
        · rw [htotal] at hbefore
          omega

end Count

/-! ## Writes -/

section Writes

variable {cfg : Membership} {me mid rounds : ℕ} {d : NetData} {table : UidTable}

/-- Fourteen rounds take a table of one entry beyond the cap. -/
theorem tableWriteEntry_returns (hrounds : 14 ≤ rounds) (junk : ℕ → ℕ → ℕ) (hcap : mid ≤ maxSize)
    (hpos : 0 < table.totalEntries) :
    ∃ table', tableWriteEntry rounds junk mid 1 table = .ok () table' := by
  rcases lt_or_ge mid table.totalEntries with hin | hout
  · exact ⟨_, tableWriteEntry_of_lt rounds junk hcap hin⟩
  · have hpow : 2 ^ 14 ≤ 2 ^ rounds := Nat.pow_le_pow_right Nat.two_pos hrounds
    have hmore := Nat.le_mul_of_pos_left (2 ^ rounds) hpos
    obtain ⟨n, grown, hrun, -⟩ := growTableTo_grows junk hcap rounds hout
      (by unfold maxSize at hcap; omega)
    refine ⟨{ grown with entries := Function.update grown.entries mid 1 }, ?_⟩
    simp only [tableWriteEntry, not_lt.mpr hcap, if_false, Call.bind_apply, hrun,
      Outcome.ok_andThen]
    rfl

theorem UidTable.Sized.pos_iff (h : table.Sized cfg) :
    0 < table.totalEntries ↔ 0 < uidTotal cfg := by
  rcases h.size with heq | ⟨hpos, -, hle, -⟩ <;> omega

theorem setAckUrb_succeeds (h : ExposedData cfg me d) (machine : Machine) (hcap : mid ≤ maxSize) :
    (setAckUrb machine mid d).Succeeds fun _ d' => ∃ table, d.urbacks.Records mid table ∧
      table.Sized cfg ∧ d' = { d with urbacks := table } := by
  refine Outcome.succeeds_mapState.mpr ?_
  refine ((tableWriteEntry_succeeds machine.rounds (machine.junk .urbacks) hcap).and
    (tableWriteEntry_sized machine.rounds (machine.junk .urbacks) mid h.urbacks)).mono ?_
  exact fun _ table ⟨hrecords, hsized⟩ => ⟨table, hrecords, hsized, rfl⟩

theorem setAckUrb_returns {machine : Machine} (hrounds : 14 ≤ machine.rounds)
    (h : ExposedData cfg me d) (hpos : 0 < uidTotal cfg) (hcap : mid ≤ maxSize) :
    ∃ table, d.urbacks.Records mid table ∧ table.Sized cfg ∧
      setAckUrb machine mid d = .ok () { d with urbacks := table } := by
  have hsucceeds := setAckUrb_succeeds h machine hcap
  obtain ⟨table, hwrite⟩ := tableWriteEntry_returns hrounds (machine.junk .urbacks) hcap
    (h.urbacks.pos_iff.mpr hpos)
  have hrun : setAckUrb machine mid d = .ok () { d with urbacks := table } := by
    unfold setAckUrb
    rw [Call.on_apply, hwrite]
    rfl
  rw [hrun] at hsucceeds
  obtain ⟨table', hrecords, hsized, heq⟩ := hsucceeds
  obtain rfl : table = table' := congrArg NetData.urbacks heq
  exact ⟨table, hrecords, hsized, hrun⟩

theorem setAckUrb_refused (machine : Machine) (hcap : maxSize < mid) (d : NetData) :
    setAckUrb machine mid d = .error .table d := by
  unfold setAckUrb
  rw [Call.on_apply, tableWriteEntry_of_cap_lt _ _ _ hcap]
  rfl

end Writes

/-! ## The start of `deliver_urb` -/

section Start

variable {cfg : Membership} {me : ℕ} {machine : Machine} {d d' : NetData} {msg : UrbMsg}
  {newMsg : Option UrbMsg}

/-- The ids that `deliver_urb` records are accepted. -/
def IdsFit (d : NetData) (msg : UrbMsg) : Prop :=
  msg.mid ≤ maxSize ∧ (Unseen d msg → msg.seenId ≤ maxSizeUrb ∧
    msg.seenId < d.urbTable.totalEntries ∧ ownId d msg.seenId ≤ maxSize)

/-- What `deliver_urb` has done when it comes to `send_beb`. -/
structure UrbStarted (cfg : Membership) (me : ℕ) (d : NetData) (msg : UrbMsg)
    (newMsg : Option UrbMsg) (d' : NetData) : Prop where
  data : ExposedData cfg me d'
  relay : newMsg ≠ none ↔ Unseen d msg
  counted : canDeliver d'.urbacks msg.seenId = canDeliver (acksAfter d msg) msg.seenId
  delivered : isDeliveredUrb d'.urbTable msg.seenId = isDeliveredUrb d.urbTable msg.seenId
  size : msg.seenId < d'.urbTable.totalEntries
  cap : msg.seenId ≤ maxSizeUrb
  taskQ : d'.taskQ = d.taskQ
  lcb : d'.lcb = d.lcb

/-- The message was seen before. -/
theorem UrbStarted.of_seen (h : ExposedData cfg me d) (hpos : 0 < uidTotal cfg)
    (hseen : ¬ Unseen d msg) (hmid : msg.mid ≤ maxSize) {table : UidTable}
    (hrecords : d.urbacks.Records msg.mid table) (hsized : table.Sized cfg) :
    UrbStarted cfg me d msg none { d with urbacks := table } := by
  have hsize := lt_of_isSeenUrb_ne_zero hseen
  have hstay : StaysInside d msg ↔ msg.mid < d.urbacks.totalEntries :=
    and_iff_left fun hunseen => absurd hunseen hseen
  refine ⟨{ h with urbacks := hsized }, iff_of_false (not_not.mpr rfl) hseen, ?_, rfl, hsize,
    h.seen _ hseen, rfl, rfl⟩
  refine canDeliver_acksAfter h.urbacks hpos (h.urbTotal ▸ hsize) hmid
    (fun hunseen => absurd hunseen hseen) hsized (fun k hk => ?_)
    (fun hin => hrecords.inside (hstay.mp hin))
    fun hout => hrecords.outside (not_lt.mp (hstay.not.mp hout))
  rw [hrecords.entries k hk]
  simp [acksAfter, hseen]

/-- The message is new. -/
theorem UrbStarted.of_unseen (h : ExposedData cfg me d) (hpos : 0 < uidTotal cfg)
    (hunseen : Unseen d msg) (hfit : IdsFit d msg) {table table' : UidTable}
    (hrecords : d.urbacks.Records msg.mid table)
    (hrecords' : table.Records (ownId d msg.seenId) table') (hsized' : table'.Sized cfg)
    (relayed : UrbMsg) (sentBeb : List UrbMsg) :
    UrbStarted cfg me d msg (some relayed) { d with
      urbTable := d.urbTable.mark msg.seenId .see
      urbacks := table'
      sentBeb := sentBeb } := by
  obtain ⟨hmid, hfresh⟩ := hfit
  obtain ⟨hcap, hsize, hown⟩ := hfresh hunseen
  have hle : d.urbacks.totalEntries ≤ table.totalEntries := by
    rcases lt_or_ge msg.mid d.urbacks.totalEntries with hin | hout
    · exact (hrecords.inside hin).ge
    · have := hrecords.outside hout
      omega
  refine ⟨?_, iff_of_true nofun hunseen, ?_, isDeliveredUrb_see hsize _, hsize, hcap, rfl, rfl⟩
  · exact { h.markSeen hcap hsize with urbacks := hsized' }
  · refine canDeliver_acksAfter h.urbacks hpos (h.urbTotal ▸ hsize) hmid (fun _ => hown) hsized'
      (fun k hk => ?_) (fun hin => ?_) fun hout => ?_
    · rw [hrecords'.entries k (hk.trans_le hle), hrecords.entries k hk]
      unfold acksAfter
      -- The index that the copy names may be the own one of this process.
      by_cases hkown : k = ownId d msg.seenId
      · simp [hkown, hunseen]
      · simp [hkown]
    · have hsame := hrecords.inside hin.1
      rw [hrecords'.inside (hsame ▸ hin.2 hunseen), hsame]
    · rcases lt_or_ge msg.mid d.urbacks.totalEntries with hin | hout'
      · have hsame := hrecords.inside hin
        have hbeyond : d.urbacks.totalEntries ≤ ownId d msg.seenId := by
          by_contra hless
          exact hout ⟨hin, fun _ => not_le.mp hless⟩
        rw [← hsame]
        exact hrecords'.outside (hsame ▸ hbeyond)
      · refine (hrecords.outside hout').trans ?_
        show table.totalEntries ≤ table'.totalEntries
        rcases lt_or_ge (ownId d msg.seenId) table.totalEntries with hin | hout''
        · exact (hrecords'.inside hin).ge
        · have := hrecords'.outside hout''
          omega

theorem deliverUrbStart_succeeds (h : ExposedData cfg me d) (hpos : 0 < uidTotal cfg)
    (hfit : IdsFit d msg) (machine : Machine) :
    (deliverUrbStart machine msg d).Succeeds fun newMsg d' =>
      UrbStarted cfg me d msg newMsg d' := by
  simp only [deliverUrbStart, Call.bind_apply]
  refine (setAckUrb_succeeds h machine hfit.1).andThen ?_
  rintro _ _ ⟨table, hrecords, hsized, rfl⟩
  rw [Call.bind_apply, Call.state_apply, Outcome.ok_andThen, Call.ite_apply]
  by_cases hunseen : Unseen d msg
  · obtain ⟨hcap, hsize, hown⟩ := hfit.2 hunseen
    rw [if_pos hunseen, Call.bind_apply, onUrbTable, Call.on_apply, addSeenUrb,
      addUrb_of_lt _ _ hcap hsize]
    simp only [Outcome.mapState_ok, Outcome.ok_andThen, Call.bind_apply]
    have h' : ExposedData cfg me { d with
        urbTable := d.urbTable.mark msg.seenId .see
        urbacks := table } := { h.markSeen hcap hsize with urbacks := hsized }
    refine (setAckUrb_succeeds h' machine hown).andThen ?_
    rintro _ _ ⟨table', hrecords', hsized', rfl⟩
    exact .of_unseen h hpos hunseen hfit hrecords hrecords' hsized' _ _
  · rw [if_neg hunseen]
    exact .of_seen h hpos hunseen hfit.1 hrecords hsized

/-- With enough rounds the start of `deliver_urb` comes to an end, and it fails if an id
does not fit. -/
theorem deliverUrbStart_cases (h : ExposedData cfg me d) (hpos : 0 < uidTotal cfg)
    (hrounds : 14 ≤ machine.rounds) (msg : UrbMsg) :
    (IdsFit d msg ∧ ∃ newMsg d', deliverUrbStart machine msg d = .ok newMsg d') ∨
      (¬ IdsFit d msg ∧ ¬ (deliverUrbStart machine msg d).Succeeds fun _ _ => True) := by
  simp only [deliverUrbStart, Call.bind_apply]
  rcases lt_or_ge maxSize msg.mid with hmid | hmid
  · rw [setAckUrb_refused machine hmid]
    exact .inr ⟨fun hfit => absurd hfit.1 (not_le.mpr hmid), id⟩
  obtain ⟨table, hrecords, hsized, hwrite⟩ := setAckUrb_returns hrounds h hpos hmid
  rw [hwrite, Outcome.ok_andThen, Call.bind_apply, Call.state_apply, Outcome.ok_andThen,
    Call.ite_apply]
  by_cases hunseen : Unseen d msg
  · rw [if_pos hunseen, Call.bind_apply, onUrbTable, Call.on_apply, addSeenUrb]
    rcases lt_or_ge maxSizeUrb msg.seenId with hcap | hcap
    · refine .inr ⟨fun hfit => absurd (hfit.2 hunseen).1 (not_le.mpr hcap), ?_⟩
      simp [addUrb, hcap, Outcome.Succeeds]
    rcases lt_or_ge msg.seenId d.urbTable.totalEntries with hsize | hsize
    · rw [addUrb_of_lt _ _ hcap hsize]
      simp only [Outcome.mapState_ok, Outcome.ok_andThen, Call.bind_apply]
      rcases lt_or_ge maxSize (ownId d msg.seenId) with hown | hown
      · rw [show u32 (d.numProc * msg.seenId + d.selfPid - 1) = ownId d msg.seenId from rfl,
          setAckUrb_refused machine hown]
        exact .inr ⟨fun hfit => absurd (hfit.2 hunseen).2.2 (not_le.mpr hown), id⟩
      · have h' : ExposedData cfg me { d with
            urbTable := d.urbTable.mark msg.seenId .see
            urbacks := table } := { h.markSeen hcap hsize with urbacks := hsized }
        obtain ⟨table', -, -, hwrite'⟩ := setAckUrb_returns hrounds h' hpos hown
        refine .inl ⟨⟨hmid, fun _ => ⟨hcap, hsize, hown⟩⟩, ?_⟩
        rw [show u32 (d.numProc * msg.seenId + d.selfPid - 1) = ownId d msg.seenId from rfl,
          hwrite']
        exact ⟨_, _, rfl⟩
    · -- `memset` in `realloc_table` writes behind the block
      refine .inr ⟨fun hfit => absurd (hfit.2 hunseen).2.1 (not_lt.mpr hsize), ?_⟩
      have hgrow := reallocTable_eq (h.urbTotal.symm ▸ urbTotal_pos cfg)
        (h.urbTotal.symm ▸ urbTotal_lt cfg)
      obtain ⟨rounds, hsucc⟩ : ∃ rounds, machine.rounds = rounds + 1 :=
        ⟨machine.rounds - 1, by omega⟩
      simp [addUrb, not_lt.mpr hcap, hsucc, reallocTableTo, hsize, hgrow, Outcome.Succeeds]
  · rw [if_neg hunseen]
    exact .inl ⟨⟨hmid, fun hnot => absurd hnot hunseen⟩, _, _, rfl⟩

end Start

/-! ## The loop of `send_beb` -/

section Loop

variable {d : NetData}

/-- The number of the `n` pids from `i` on that are not `me`. -/
def peerCount (me i n : ℕ) : ℕ := if i ≤ me ∧ me < i + n then n - 1 else n

theorem peerCount_self (me n : ℕ) : peerCount me me (n + 1) = peerCount me (me + 1) n := by
  unfold peerCount
  split_ifs <;> omega

theorem peerCount_peer {me i : ℕ} (h : i ≠ me) (n : ℕ) :
    peerCount me i (n + 1) = peerCount me (i + 1) n + 1 := by
  unfold peerCount
  split_ifs <;> omega

theorem noElem_le_maxQueueSize {size : ℕ} {Task : Type} [Inhabited Task] {queue : MsgQueue Task}
    (hpos : 0 < size) (h : queue.GrownFrom size) : queue.noElem ≤ maxQueueSize size := by
  obtain ⟨k, hk⟩ := h.doubled
  have hlt := h.wellFormed.qsize_lt
  refine h.wellFormed.noElem_le.trans ?_
  rw [hk] at hlt ⊢
  exact le_maxQueueSize hpos hlt

/-- The loop goes through if there is room for all its tasks. -/
theorem sendBebFrom_cases (h : d.taskQ.GrownFrom queueLen) (msg : UrbMsg) (i n : ℕ) :
    (d.taskQ.noElem + peerCount d.selfPid i n ≤ maxQueueSize queueLen ∧
        ∃ d', sendBebFrom msg i n d = .ok () d') ∨
      (maxQueueSize queueLen < d.taskQ.noElem + peerCount d.selfPid i n ∧
        sendBebFrom msg i n d = .undefined) := by
  -- on the pids that are left; each peer takes one slot of the queue
  induction n generalizing i d with
  | zero =>
      refine .inl ⟨?_, d, rfl⟩
      have hle := noElem_le_maxQueueSize (by decide) h
      unfold peerCount
      split_ifs <;> omega
  | succ n ih =>
      rw [sendBebFrom, Call.bind_apply]
      by_cases hself : i = d.selfPid
      · have hbody : sendBebBody msg i d = .ok () d := by simp [sendBebBody, hself]
        rw [hbody, Outcome.ok_andThen, hself, peerCount_self]
        exact ih h (d.selfPid + 1)
      · rw [peerCount_peer hself]
        rcases lt_or_ge d.taskQ.noElem (maxQueueSize queueLen) with hroom | hfull
        · obtain ⟨queue, henqueue, hgrown, hcontents⟩ := enqueue_grownFrom (by decide) h
            (bebTask d.numProc d.selfPid msg i) hroom
          have hbody : sendBebBody msg i d = .ok () { d with
              taskQ := queue
              enqueued := d.enqueued ++ [bebTask d.numProc d.selfPid msg i] } := by
            simp [sendBebBody, hself, enqueueBeb, onTaskQ, henqueue]
          have hmore : queue.noElem = d.taskQ.noElem + 1 := by
            rw [← queue.length_contents, hcontents, List.length_append, d.taskQ.length_contents]
            rfl
          have hrest := ih (d := { d with
            taskQ := queue
            enqueued := d.enqueued ++ [bebTask d.numProc d.selfPid msg i] }) hgrown (i + 1)
          rw [hbody, Outcome.ok_andThen]
          rw [show d.taskQ.noElem + (peerCount d.selfPid (i + 1) n + 1) =
            queue.noElem + peerCount d.selfPid (i + 1) n by omega]
          exact hrest
        · have hbody : sendBebBody msg i d = .undefined := by
            simp [sendBebBody, hself, enqueueBeb, onTaskQ, enqueue_beyond (by decide) h _ hfull]
          rw [hbody]
          exact .inr ⟨by omega, rfl⟩

end Loop

/-! ## The causal layer -/

section Causal

variable {cfg : Membership} {me rounds : ℕ} {data : Lcb} {msg : LcbMsg}

theorem deliverLcb_succeeds (hdata : data.WellFormed cfg me) (hfits : PendingFits cfg data)
    (hclock : msg.vecClock.length = cfg.numProc) (hharmless : LcbHarmless cfg data msg)
    (rounds : ℕ) : (deliverLcb rounds msg data).Succeeds fun _ _ => True := by
  have hmsg : cfg.Fits msg := ⟨hharmless.isPid, hclock⟩
  by_cases hready : Ready cfg data.vectorClock msg
  · rw [deliverLcb_ready hdata hmsg hready]
    cases rounds with
    | zero => trivial
    | succ rounds =>
        rw [findAllPending, Call.bind_apply]
        rcases noPending_or_firstWaiting (data.deliver msg) with
          hnone | ⟨i, clock, rest, hfirst⟩
        · rw [findPending_noPending hnone]
          trivial
        · rw [findPending_refused (hdata.deliver msg) hfits hfirst fun haccepted =>
            hharmless.search hready ⟨i, clock, rest, hfirst, haccepted⟩]
          trivial
  · rw [deliverLcb_refused hdata hmsg hready]
    trivial

theorem lcbHarmless_of_succeeds (hdata : data.WellFormed cfg me) (hfits : PendingFits cfg data)
    (hclock : msg.vecClock.length = cfg.numProc) (hrounds : 2 ≤ rounds)
    (hsucceeds : (deliverLcb rounds msg data).Succeeds fun _ _ => True) :
    LcbHarmless cfg data msg := by
  have horigin : cfg.IsPid msg.originalSender := by
    by_contra houtside
    rw [deliverLcb_outside hdata houtside] at hsucceeds
    exact hsucceeds
  refine ⟨horigin, ?_⟩
  rintro hready ⟨i, clock, rest, hfirst, haccepted⟩
  -- once a message is accepted, the removal takes the next node and leaves `ptr` at it
  obtain ⟨more, rfl⟩ : ∃ more, rounds = more + 1 + 1 := ⟨rounds - 2, by omega⟩
  rw [deliverLcb_ready hdata ⟨horigin, hclock⟩ hready, findAllPending, Call.bind_apply,
    findPending_accepted (hdata.deliver msg) hfits hfirst haccepted,
    if_neg (Nat.succ_ne_zero more)] at hsucceeds
  split at hsucceeds <;> exact hsucceeds

end Causal

/-! ## The end of `deliver_urb` -/

section End

variable {cfg : Membership} {me : ℕ} {machine : Machine} {d : NetData} {msg : UrbMsg}

/-- The message is passed up only if that does no harm. -/
def EndHarmless (cfg : Membership) (d : NetData) (msg : UrbMsg) : Prop :=
  canDeliver d.urbacks msg.seenId ≠ none ∧
    (canDeliver d.urbacks msg.seenId = some true → isDeliveredUrb d.urbTable msg.seenId = 0 →
      LcbHarmless cfg d.lcb msg.lcbMsg)

/-- The end of `deliver_urb` when the message is passed up. -/
theorem deliverUrbEnd_passes (hcap : msg.seenId ≤ maxSizeUrb)
    (hsize : msg.seenId < d.urbTable.totalEntries)
    (hmajority : canDeliver d.urbacks msg.seenId = some true)
    (hdelivered : isDeliveredUrb d.urbTable msg.seenId = 0) :
    deliverUrbEnd machine msg d = onLcb (deliverLcb machine.rounds msg.lcbMsg) { d with
      urbTable := d.urbTable.mark msg.seenId .deliver
      deliveredLcb := d.deliveredLcb ++ [msg] } := by
  simp only [deliverUrbEnd, Call.bind_apply, Call.state_apply, Outcome.ok_andThen, hmajority,
    Call.access_some, Call.ite_apply]
  rw [if_pos ⟨trivial, hdelivered⟩, onUrbTable, Call.on_apply, addDeliveredUrb,
    addUrb_of_lt _ _ hcap hsize]
  rfl

/-- The end of `deliver_urb` when it is not. -/
theorem deliverUrbEnd_stays {majority : Bool}
    (hmajority : canDeliver d.urbacks msg.seenId = some majority)
    (hnot : ¬ (majority = true ∧ isDeliveredUrb d.urbTable msg.seenId = 0)) :
    deliverUrbEnd machine msg d = .ok () d := by
  simp only [deliverUrbEnd, Call.bind_apply, Call.state_apply, Outcome.ok_andThen, hmajority,
    Call.access_some, Call.ite_apply]
  rw [if_neg hnot]
  rfl

theorem deliverUrbEnd_succeeds (hlcb : d.lcb.WellFormed cfg me) (hfits : PendingFits cfg d.lcb)
    (hclock : msg.lcbMsg.vecClock.length = cfg.numProc) (hcap : msg.seenId ≤ maxSizeUrb)
    (hsize : msg.seenId < d.urbTable.totalEntries) (hharmless : EndHarmless cfg d msg) :
    (deliverUrbEnd machine msg d).Succeeds fun _ _ => True := by
  obtain ⟨hcounted, hpassed⟩ := hharmless
  obtain ⟨majority, hmajority⟩ := Option.ne_none_iff_exists'.mp hcounted
  by_cases hup : majority = true ∧ isDeliveredUrb d.urbTable msg.seenId = 0
  · obtain ⟨rfl, hdelivered⟩ := hup
    rw [deliverUrbEnd_passes hcap hsize hmajority hdelivered]
    exact Outcome.succeeds_mapState.mpr
      (deliverLcb_succeeds hlcb hfits hclock (hpassed hmajority hdelivered) machine.rounds)
  · rw [deliverUrbEnd_stays hmajority hup]
    trivial

theorem endHarmless_of_succeeds (hlcb : d.lcb.WellFormed cfg me) (hfits : PendingFits cfg d.lcb)
    (hclock : msg.lcbMsg.vecClock.length = cfg.numProc) (hcap : msg.seenId ≤ maxSizeUrb)
    (hsize : msg.seenId < d.urbTable.totalEntries) (hrounds : 2 ≤ machine.rounds)
    (hsucceeds : (deliverUrbEnd machine msg d).Succeeds fun _ _ => True) :
    EndHarmless cfg d msg := by
  refine ⟨fun hnone => ?_, fun hmajority hdelivered => ?_⟩
  · simp [deliverUrbEnd, hnone, Outcome.Succeeds] at hsucceeds
  · rw [deliverUrbEnd_passes hcap hsize hmajority hdelivered] at hsucceeds
    exact lcbHarmless_of_succeeds hlcb hfits hclock hrounds
      (Outcome.succeeds_mapState.mp hsucceeds)

end End

/-! ## The whole of `deliver_urb` -/

section Urb

variable {cfg : Membership} {me : ℕ} {machine : Machine} {d : NetData} {msg : UrbMsg}

theorem urbHarmless_iff : UrbHarmless cfg d msg ↔ IdsFit d msg ∧
    (Unseen d msg → d.taskQ.noElem + (d.numProc - 1) ≤ maxQueueSize queueLen) ∧
    canDeliver (acksAfter d msg) msg.seenId ≠ none ∧
    (canDeliver (acksAfter d msg) msg.seenId = some true →
      isDeliveredUrb d.urbTable msg.seenId = 0 → LcbHarmless cfg d.lcb msg.lcbMsg) := by
  constructor
  · rintro ⟨hmid, hfresh, hcounted, hpassed⟩
    refine ⟨⟨hmid, fun hunseen => ?_⟩, fun hunseen => (hfresh hunseen).2.2.2, hcounted, hpassed⟩
    exact ⟨(hfresh hunseen).1, (hfresh hunseen).2.1, (hfresh hunseen).2.2.1⟩
  · rintro ⟨⟨hmid, hfresh⟩, hroom, hcounted, hpassed⟩
    exact ⟨hmid, fun hunseen => ⟨(hfresh hunseen).1, (hfresh hunseen).2.1, (hfresh hunseen).2.2,
      hroom hunseen⟩, hcounted, hpassed⟩

/-- The end of `deliver_urb` sees what the start has left, whatever tasks there are. -/
theorem UrbStarted.endHarmless_iff {newMsg : Option UrbMsg} {d₁ d₂ : NetData}
    (h : UrbStarted cfg me d msg newMsg d₁) (htasks : OnlyTasks d₁ d₂) :
    EndHarmless cfg d₂ msg ↔ canDeliver (acksAfter d msg) msg.seenId ≠ none ∧
      (canDeliver (acksAfter d msg) msg.seenId = some true →
        isDeliveredUrb d.urbTable msg.seenId = 0 → LcbHarmless cfg d.lcb msg.lcbMsg) := by
  obtain ⟨taskQ, enqueued, rfl⟩ := htasks
  unfold EndHarmless
  rw [h.counted, h.delivered, h.lcb]

/-- The tasks of the relay fit into the queue. -/
theorem UrbStarted.rebroadcast_cases {newMsg : Option UrbMsg} {d₁ : NetData}
    (hme : cfg.IsPid me) (h : UrbStarted cfg me d msg newMsg d₁) (hnum : d.numProc = cfg.numProc) :
    ((Unseen d msg → d.taskQ.noElem + (d.numProc - 1) ≤ maxQueueSize queueLen) ∧
        ∃ d₂, rebroadcast newMsg d₁ = .ok () d₂) ∨
      ((¬ (Unseen d msg → d.taskQ.noElem + (d.numProc - 1) ≤ maxQueueSize queueLen)) ∧
        rebroadcast newMsg d₁ = .undefined) := by
  cases newMsg with
  | none =>
      have hseen : ¬ Unseen d msg := fun hunseen => h.relay.mpr hunseen rfl
      exact .inl ⟨fun hunseen => absurd hunseen hseen, d₁, rfl⟩
  | some relayed =>
      have hunseen : Unseen d msg := h.relay.mp nofun
      have hself : d₁.selfPid = me := h.data.lcb.selfPid
      have hnum₁ : d₁.numProc = d.numProc := congrArg Lcb.numProc h.lcb
      have hcount : peerCount d₁.selfPid 1 d₁.numProc = d.numProc - 1 := by
        have hle := hme.2
        unfold peerCount
        rw [hself, hnum₁, if_pos ⟨hme.1, by omega⟩]
      have hcases := sendBebFrom_cases h.data.taskQ relayed 1 d₁.numProc
      rw [hcount, h.taskQ] at hcases
      rcases hcases with ⟨hroom, hrun⟩ | ⟨hfull, hrun⟩
      · exact .inl ⟨fun _ => hroom, hrun⟩
      · exact .inr ⟨fun hroom => absurd (hroom hunseen) (not_le.mpr hfull), hrun⟩

variable (hme : cfg.IsPid me) (h : ExposedData cfg me d) (hpos : 0 < uidTotal cfg)
  (hclock : msg.lcbMsg.vecClock.length = cfg.numProc)
include hme h hpos hclock

theorem deliverUrbCall_succeeds (hharmless : UrbHarmless cfg d msg) (machine : Machine) :
    (deliverUrbCall machine msg d).Succeeds fun _ _ => True := by
  obtain ⟨hfit, hroom, hend⟩ := urbHarmless_iff.mp hharmless
  unfold deliverUrbCall
  rw [Call.bind_apply]
  refine (deliverUrbStart_succeeds h hpos hfit machine).andThen fun newMsg d₁ h₁ => ?_
  rw [Call.bind_apply]
  rcases h₁.rebroadcast_cases hme h.lcb.numProc with ⟨-, d₂, hrun⟩ | ⟨hfull, -⟩
  · have htasks := changesTasks_rebroadcast newMsg d₁
    rw [hrun] at htasks ⊢
    have hharmless₂ := (h₁.endHarmless_iff htasks).mpr hend
    obtain ⟨taskQ, enqueued, rfl⟩ := htasks
    exact deliverUrbEnd_succeeds h₁.data.lcb h₁.data.fits hclock h₁.cap h₁.size hharmless₂
  · exact absurd hroom hfull

theorem urbHarmless_of_succeeds (hrounds : 14 ≤ machine.rounds)
    (hsucceeds : (deliverUrbCall machine msg d).Succeeds fun _ _ => True) :
    UrbHarmless cfg d msg := by
  unfold deliverUrbCall at hsucceeds
  rw [Call.bind_apply] at hsucceeds
  rcases deliverUrbStart_cases h hpos hrounds msg with ⟨hfit, newMsg, d₁, hstart⟩ | ⟨-, hfails⟩
  · have h₁ := deliverUrbStart_succeeds h hpos hfit machine
    rw [hstart] at h₁ hsucceeds
    rw [Outcome.ok_andThen, Call.bind_apply] at hsucceeds
    rcases h₁.rebroadcast_cases hme h.lcb.numProc with ⟨hroom, d₂, hrun⟩ | ⟨-, hrun⟩
    · have htasks := changesTasks_rebroadcast newMsg d₁
      rw [hrun] at htasks hsucceeds
      refine urbHarmless_iff.mpr ⟨hfit, hroom, (h₁.endHarmless_iff htasks).mp ?_⟩
      obtain ⟨taskQ, enqueued, rfl⟩ := htasks
      exact endHarmless_of_succeeds h₁.data.lcb h₁.data.fits hclock h₁.cap h₁.size (by omega)
        hsucceeds
    · rw [hrun] at hsucceeds
      exact hsucceeds.elim
  · refine absurd ?_ hfails
    exact (Outcome.succeeds_andThen.mp hsucceeds).mono fun _ _ _ => trivial

end Urb

/-! ## The perfect links -/

section Links

variable {cfg : Membership} {me : ℕ} {machine : Machine} {sendto : Bool} {d : NetData} {msg : Msg}

/-- `HandledWell` for a call on the data. -/
def DataHandledWell (d : NetData) : Outcome ErrorCode NetData Unit → Prop
  | .ok _ _ => True
  | .error _ d' => Untouched d d'
  | .running _ => True
  | .undefined => False

theorem DataHandledWell.of_succeeds {outcome : Outcome ErrorCode NetData Unit}
    (h : outcome.Succeeds fun _ _ => True) : DataHandledWell d outcome := by
  cases outcome with
  | ok value d' => trivial
  | error code d' => exact h.elim
  | running d' => trivial
  | undefined => exact h

/-- The data when `deliver_beb` is called. -/
def deliveringTo (d : NetData) (msg : Msg) (table : UidTable) : NetData :=
  { d with
    sent := d.sent ++ [(msg.sender, ackMsg d.selfPid msg)]
    plDelivered := table
    deliveredBeb := d.deliveredBeb ++ [msg] }

theorem ExposedData.deliveringTo (h : ExposedData cfg me d) {table : UidTable}
    (hsized : table.Sized cfg) : ExposedData cfg me (deliveringTo d msg table) :=
  { h with plDelivered := hsized }

theorem urbHarmless_deliveringTo (table : UidTable) :
    UrbHarmless cfg (deliveringTo d msg table) msg.urbMsg ↔ UrbHarmless cfg d msg.urbMsg :=
  ⟨fun h => ⟨h.mid, h.fresh, h.counted, h.passed⟩, fun h => ⟨h.mid, h.fresh, h.counted, h.passed⟩⟩

/-- `deliver_urb` does not touch the delivered table. -/
theorem deliverUrbCall_frames (machine : Machine) (msg : UrbMsg) :
    Call.Frames NetData.plDelivered (deliverUrbCall machine msg) := by
  have hstart : Call.Frames NetData.plDelivered (deliverUrbStart machine msg) :=
    (deliverUrbStart_frames machine msg).map fun beside => beside.2.2.1
  have hend : Call.Frames NetData.plDelivered (deliverUrbEnd machine msg) :=
    (deliverUrbEnd_frames machine msg).map fun beside => beside.2.2.1
  refine hstart.bind fun newMsg => Call.Frames.bind ?_ fun _ => hend
  intro d
  have hkeeps : ∀ d', OnlyTasks d d' → d'.plDelivered = d.plDelivered := by
    rintro _ ⟨taskQ, enqueued, rfl⟩
    rfl
  exact (changesTasks_rebroadcast newMsg d).mono (fun _ => hkeeps) (fun _ d' h => hkeeps d' h.2)
    hkeeps

/-- The record of a message that was not recorded before changes the table. -/
theorem ne_of_records {table table' : UidTable} {mid : ℕ} (hrecords : table.Records mid table')
    (hnot : tableReadEntry table mid = 0) : table' ≠ table := by
  rintro rfl
  have hone := hrecords.entries mid hrecords.lt
  rw [if_pos rfl] at hone
  rw [tableReadEntry_of_lt hrecords.lt, hone] at hnot
  exact absurd hnot one_ne_zero

theorem sendFl_of_pid (sendto : Bool) {dest : ℕ} (hpos : dest ≠ 0) (hle : dest ≤ d.numProc)
    (ack : Msg) : sendFl sendto dest ack d =
      if sendto then .ok () { d with sent := d.sent ++ [(dest, ack)] } else .error .send d := by
  have hknown : ¬ d.numProc + 1 < dest := by omega
  have hinside : ¬ (dest = 0 ∨ dest = d.numProc + 1) := by omega
  simp only [sendFl, getAddr, Call.bind_apply, Call.state_apply, Outcome.ok_andThen,
    Call.ite_apply, if_neg hknown, if_neg hinside]
  cases sendto <;> rfl

/-- Neither a sender outside the address book nor one that it knows, but for `0` and
`num_proc + 1`. -/
theorem sendFl_outside (sendto : Bool) {dest : ℕ} (hout : dest = 0 ∨ dest = d.numProc + 1)
    (ack : Msg) : sendFl sendto dest ack d = .undefined := by
  have hknown : ¬ d.numProc + 1 < dest := by omega
  simp only [sendFl, getAddr, Call.bind_apply, Call.state_apply, Outcome.ok_andThen,
    Call.ite_apply, if_neg hknown, if_pos hout]
  rfl

theorem sendFl_unknown (sendto : Bool) {dest : ℕ} (hout : d.numProc + 1 < dest) (ack : Msg) :
    sendFl sendto dest ack d = .error .pid d := by
  simp only [sendFl, getAddr, Call.bind_apply, Call.state_apply, Outcome.ok_andThen,
    Call.ite_apply, if_pos hout]
  rfl

/-- The data when the acknowledgement is out. -/
def answering (d : NetData) (msg : Msg) : NetData :=
  { d with sent := d.sent ++ [(msg.sender, ackMsg d.selfPid msg)] }

theorem sendAck_of_pid (hpid : msg.sender ≠ 0) (hle : msg.sender ≤ d.numProc) :
    sendAck true msg d = .ok () (answering d msg) :=
  sendFl_of_pid true hpid hle (ackMsg d.selfPid msg)

/-- `deliver_pl` for a real message that is answered goes on with `is_delivered`. -/
theorem deliverPlCall_real (hmtype : msg.mtype ≠ ackNo) (machine : Machine) {d' : NetData}
    (hack : sendAck sendto msg d = .ok () d') :
    deliverPlCall machine sendto msg d = (recordDelivery machine msg d').andThen fun fresh =>
      if fresh then deliverUrbCall machine msg.urbMsg else pure () := by
  simp only [deliverPlCall, deliverPlStart, if_neg hmtype, Call.bind_apply, hack,
    Outcome.ok_andThen, Call.pure_apply, if_true]

/-- A real message whose acknowledgement does not go out goes no further. -/
theorem deliverPlCall_unanswered (hmtype : msg.mtype ≠ ackNo) (machine : Machine) :
    (∀ code, sendAck sendto msg d = .error code d →
      deliverPlCall machine sendto msg d = .error code d) ∧
    (sendAck sendto msg d = .undefined → deliverPlCall machine sendto msg d = .undefined) := by
  constructor
  · intro code hack
    simp only [deliverPlCall, deliverPlStart, if_neg hmtype, Call.bind_apply, hack,
      Outcome.error_andThen]
  · intro hack
    simp only [deliverPlCall, deliverPlStart, if_neg hmtype, Call.bind_apply, hack,
      Outcome.undefined_andThen]

/-- A message that is accepted is recorded, and `deliver_urb` is called. -/
theorem recordDelivery_accepted (h : ExposedData cfg me d) (haccepted : TakenIn sendto d msg)
    (machine : Machine) :
    (recordDelivery machine msg (answering d msg)).Succeeds fun fresh d' => fresh = true ∧
      ∃ table, d.plDelivered.Records msg.mid table ∧ table.Sized cfg ∧
        d' = deliveringTo d msg table := by
  obtain ⟨-, -, hnot, hcap, -⟩ := haccepted
  have hnot' : isDelivered (answering d msg) msg.mid = 0 := hnot
  simp only [recordDelivery, Call.bind_apply, Call.state_apply, Outcome.ok_andThen, if_pos hnot']
  have hwrite : (setDelivered machine msg.mid (answering d msg)).Succeeds fun _ d' =>
      ∃ table, d.plDelivered.Records msg.mid table ∧ table.Sized cfg ∧
        d' = { answering d msg with plDelivered := table } := by
    refine Outcome.succeeds_mapState.mpr ?_
    refine ((tableWriteEntry_succeeds machine.rounds (machine.junk .plDelivered) hcap).and
      (tableWriteEntry_sized machine.rounds (machine.junk .plDelivered) msg.mid
        h.plDelivered)).mono ?_
    exact fun _ table h => ⟨table, h.1, h.2, rfl⟩
  refine hwrite.andThen ?_
  rintro _ _ ⟨table, hrecords, hsized, rfl⟩
  exact ⟨rfl, table, hrecords, hsized, rfl⟩

theorem recordDelivery_returns (hrounds : 14 ≤ machine.rounds) (haccepted : TakenIn sendto d msg) :
    ∃ d', recordDelivery machine msg (answering d msg) = .ok true d' := by
  obtain ⟨-, -, hnot, hcap, hpos⟩ := haccepted
  have hnot' : isDelivered (answering d msg) msg.mid = 0 := hnot
  obtain ⟨table, hwrite⟩ :=
    tableWriteEntry_returns hrounds (machine.junk .plDelivered) hcap hpos
  have hwrite' : tableWriteEntry machine.rounds (machine.junk .plDelivered) msg.mid 1
      (answering d msg).plDelivered = .ok () table := hwrite
  simp only [recordDelivery, Call.bind_apply, Call.state_apply, Outcome.ok_andThen, if_pos hnot',
    setDelivered, Call.on_apply, hwrite', Outcome.mapState_ok]
  exact ⟨_, rfl⟩

/-- A message that is not accepted goes no further, and no error follows a change. -/
theorem deliverPlCall_notAccepted (hmtype : msg.mtype ≠ ackNo) (hpid : msg.sender ≠ 0)
    (hlast : msg.sender ≠ d.numProc + 1) (hnot : ¬ TakenIn sendto d msg) (machine : Machine) :
    DataHandledWell d (deliverPlCall machine sendto msg d) := by
  have hfails : ∀ code, sendAck sendto msg d = .error code d →
      deliverPlCall machine sendto msg d = .error code d :=
    (deliverPlCall_unanswered hmtype machine).1
  rcases lt_or_ge d.numProc msg.sender with hout | hle
  · rw [hfails .pid (sendFl_unknown sendto (by omega) _)]
    exact ⟨rfl, rfl, rfl, rfl, rfl⟩
  cases sendto with
  | false =>
      rw [hfails .send (sendFl_of_pid false hpid hle _)]
      exact ⟨rfl, rfl, rfl, rfl, rfl⟩
  | true =>
      rw [deliverPlCall_real hmtype machine (sendAck_of_pid hpid hle)]
      simp only [recordDelivery, Call.bind_apply, Call.state_apply, Outcome.ok_andThen,
        Call.ite_apply]
      by_cases hfresh : isDelivered (answering d msg) msg.mid = 0
      · rw [if_pos hfresh, setDelivered, Call.on_apply]
        rcases lt_or_ge maxSize msg.mid with hcap | hcap
        · rw [tableWriteEntry_of_cap_lt _ _ _ hcap]
          exact ⟨rfl, rfl, rfl, rfl, rfl⟩
        · -- a write to an empty table does not return
          have hsucceeds : (tableWriteEntry _ _ _ _ (answering d msg).plDelivered).Succeeds _ :=
            tableWriteEntry_succeeds machine.rounds (machine.junk .plDelivered) hcap
          cases hwrite : tableWriteEntry machine.rounds (machine.junk .plDelivered) msg.mid 1
              (answering d msg).plDelivered with
          | ok value table =>
              rw [hwrite] at hsucceeds
              exact absurd ⟨rfl, hle, hfresh, hcap, hsucceeds.pos⟩ hnot
          | error code table => rw [hwrite] at hsucceeds; exact hsucceeds.elim
          | running table => trivial
          | undefined => rw [hwrite] at hsucceeds; exact hsucceeds.elim
      · rw [if_neg hfresh]
        trivial

theorem setAck_handledWell (machine : Machine) (mid : ℕ) (d : NetData) :
    DataHandledWell d (setAck machine mid d) := by
  unfold setAck
  rw [Call.on_apply]
  rcases lt_or_ge maxSize mid with hcap | hcap
  · rw [tableWriteEntry_of_cap_lt _ _ _ hcap]
    exact ⟨rfl, rfl, rfl, rfl, rfl⟩
  · have hsucceeds : (tableWriteEntry _ _ _ _ d.plAcks).Succeeds _ :=
      tableWriteEntry_succeeds machine.rounds (machine.junk .plAcks) hcap
    exact .of_succeeds (Outcome.succeeds_mapState.mpr (hsucceeds.mono fun _ _ _ => trivial))

theorem deliverPlCall_handledWell_iff (hme : cfg.IsPid me) (h : ExposedData cfg me d)
    (hclock : msg.mtype ≠ ackNo → msg.urbMsg.lcbMsg.vecClock.length = cfg.numProc) :
    (∀ machine, DataHandledWell d (deliverPlCall machine sendto msg d)) ↔
      Harmless cfg sendto d msg := by
  constructor
  · intro hhandled hmtype
    have hwell := hhandled zeroMachine
    -- For the senders 0 and `N + 1` the answer reads outside of the address book.
    have hout : ¬ (msg.sender = 0 ∨ msg.sender = d.numProc + 1) := by
      intro hout
      rw [(deliverPlCall_unanswered hmtype zeroMachine).2 (sendFl_outside sendto hout _)] at hwell
      exact hwell
    push Not at hout
    refine ⟨hout.1, hout.2, fun haccepted => ?_⟩
    obtain rfl : sendto = true := haccepted.1
    rw [deliverPlCall_real hmtype zeroMachine (sendAck_of_pid hout.1 haccepted.2.1)] at hwell
    have hsucceeds := recordDelivery_accepted h haccepted zeroMachine
    obtain ⟨d', hreturn⟩ : ∃ d', recordDelivery zeroMachine msg (answering d msg) = .ok true d' :=
      recordDelivery_returns le_rfl haccepted
    rw [hreturn] at hsucceeds hwell
    obtain ⟨-, table, hrecords, hsized, rfl⟩ := hsucceeds
    rw [Outcome.ok_andThen, if_pos rfl] at hwell
    have hpos : 0 < uidTotal cfg := h.plDelivered.pos_iff.mp haccepted.2.2.2.2
    refine (urbHarmless_deliveringTo table).mp (urbHarmless_of_succeeds hme
      (h.deliveringTo hsized) hpos (hclock hmtype) (Nat.le_refl zeroMachine.rounds) ?_)
    -- An error after the copy has been recorded does not leave the state as it was.
    have hframe := deliverUrbCall_frames zeroMachine msg.urbMsg (deliveringTo d msg table)
    cases hurb : deliverUrbCall zeroMachine msg.urbMsg (deliveringTo d msg table) with
    | ok value d' => trivial
    | error code d' =>
        rw [hurb] at hwell hframe
        have hsame : table = d.plDelivered := hframe.symm.trans hwell.plDelivered
        exact absurd hsame (ne_of_records hrecords haccepted.2.2.1)
    | running d' => trivial
    | undefined => rw [hurb] at hwell; exact hwell
  · intro hharmless machine
    by_cases hmtype : msg.mtype = ackNo
    · have hcall : deliverPlCall machine sendto msg d = setAck machine msg.ackid d := by
        simp only [deliverPlCall, deliverPlStart, if_pos hmtype, Call.bind_apply]
        cases setAck machine msg.ackid d <;> rfl
      rw [hcall]
      exact setAck_handledWell machine msg.ackid d
    obtain ⟨hpid, hlast, hurb⟩ := hharmless hmtype
    by_cases haccepted : TakenIn sendto d msg
    · refine .of_succeeds ?_
      obtain rfl : sendto = true := haccepted.1
      rw [deliverPlCall_real hmtype machine (sendAck_of_pid hpid haccepted.2.1)]
      refine (recordDelivery_accepted h haccepted machine).andThen ?_
      rintro _ _ ⟨rfl, table, -, hsized, rfl⟩
      exact deliverUrbCall_succeeds hme (h.deliveringTo hsized)
        (h.plDelivered.pos_iff.mp haccepted.2.2.2.2) (hclock hmtype)
        ((urbHarmless_deliveringTo table).mpr (hurb haccepted)) machine
    · exact deliverPlCall_notAccepted hmtype hpid hlast haccepted machine

end Links

/-! ## The receiver thread -/

theorem receiverBody_eq {cfg : Membership} {d : NetData} (hnum : d.numProc = cfg.numProc)
    (machine : Machine) (sendto : Bool) (datagram : List UInt8) (nextMessage : Msg) :
    receiverBody machine sendto datagram (nextMessage, d) =
      (deliverPlCall machine sendto (receivedMsg datagram cfg.numProc nextMessage) d).mapState
        fun data => (receivedMsg datagram cfg.numProc nextMessage, data) := by
  have hlt : cfg.numProc < 2 ^ 32 := cfg.numProc_lt.trans (by norm_num)
  simp only [receiverBody, Call.bind_apply, Call.state_apply, Outcome.ok_andThen, Call.on_apply,
    hnum, receiveMsg_eq hlt, Outcome.mapState_ok]

/-- The receiver thread of a process that has had any datagrams before handles a datagram
well exactly when it is harmless. -/
theorem datagramHandled_iff {cfg : Membership} {numMsg me : ℕ} (hme : cfg.IsPid me)
    {P : NetProcess} (hP : (exposedSystem cfg numMsg me).Reachable P)
    (hrunning : P.status = .running) (hidle : P.receiver = .idle) (sendto : Bool)
    (datagram : List UInt8) (nextMessage : Msg) :
    (∀ machine, HandledWell P.data
        (receiverBody machine sendto datagram (nextMessage, P.data))) ↔
      Harmless cfg sendto P.data (datagramMsg datagram cfg.numProc) := by
  have h := exposedData_of_reachable hP hrunning hidle
  have hmap : ∀ machine, HandledWell P.data
      (receiverBody machine sendto datagram (nextMessage, P.data)) ↔
      DataHandledWell P.data (deliverPlCall machine sendto
        (receivedMsg datagram cfg.numProc nextMessage) P.data) := by
    intro machine
    rw [receiverBody_eq h.lcb.numProc]
    cases deliverPlCall machine sendto (receivedMsg datagram cfg.numProc nextMessage) P.data <;>
      exact Iff.rfl
  rw [forall_congr' hmap, deliverPlCall_handledWell_iff hme h receivedMsg_clock]
  unfold receivedMsg
  by_cases hmtype : (datagramMsg datagram cfg.numProc).mtype = ackNo
  · rw [if_pos hmtype]
    exact iff_of_true (fun hnot => absurd hmtype hnot) fun hnot => absurd hmtype hnot
  · rw [if_neg hmtype]

/-- The first message of process 2, from process 2, at process 1. -/
theorem datagramHandled_first : (exposedSystem fifoMembership 150 1).Reachable
      (NetProcess.initial fifoMembership 150 1) ∧
    ∀ machine, HandledWell (NetProcess.initial fifoMembership 150 1).data
      (receiverBody machine true (wordsBytes [3, 2, 2, 0, 3, 1, 2, 0, 0])
        (zeroMsg, (NetProcess.initial fifoMembership 150 1).data)) := by
  have hmsg : datagramMsg (wordsBytes [3, 2, 2, 0, 3, 1, 2, 0, 0]) fifoMembership.numProc =
      ⟨⟨⟨[0, 0], 2⟩, 1, 3⟩, 3, 2, 2, 0⟩ := by decide +kernel
  refine ⟨.init rfl, (datagramHandled_iff (P := NetProcess.initial fifoMembership 150 1)
    (by decide) (.init rfl) rfl rfl true (wordsBytes [3, 2, 2, 0, 3, 1, 2, 0, 0]) zeroMsg).mpr ?_⟩
  rw [hmsg]
  refine fun _ => ⟨by decide, by decide, fun _ => ⟨by decide, fun _ => ?_, by decide, ?_⟩⟩
  · refine ⟨by decide, by decide, by decide, ?_⟩
    have hroom : queueLen * 2 ^ 0 ≤ maxQueueSize queueLen :=
      le_maxQueueSize (by decide) (by decide)
    exact le_trans (by decide) hroom
  · refine fun _ _ => ⟨by decide, ?_⟩
    rintro - ⟨i, clock, rest, hfirst, -⟩
    exact hfirst.not_noPending (noPending_initial fifoMembership 1)

/-- An empty datagram is a message of process 0, and `get_addr` reads before the array. -/
theorem emptyDatagram_outside : (exposedSystem fifoMembership 150 1).Reachable
      (NetProcess.initial fifoMembership 150 1) ∧
    ¬ ∀ machine, HandledWell (NetProcess.initial fifoMembership 150 1).data
      (receiverBody machine true [] (zeroMsg, (NetProcess.initial fifoMembership 150 1).data)) := by
  refine ⟨.init rfl, fun hwell => ?_⟩
  exact hwell zeroMachine

end CausalBroadcast
