import CausalBroadcast.Reliable.Safety

/-!
# What a running process has recorded

While a process runs and the rows lie inside the tables, its urb ack table also has
every entry that it should have (`LiveInv`): its own for every message it has seen,
the sender's for every message that arrived, and a row with a majority belongs to a
message that was passed up, unless `deliver_urb` has not come to its test yet.
-/

namespace CausalBroadcast

/-! ## Rows -/

section Rows

variable {N s t q : ℕ} {table : UidTable}

/-- A recorded entry is still recorded after another one. -/
theorem tableReadEntry_record_eq_one {mid k : ℕ} (hmid : mid < table.totalEntries)
    (h : tableReadEntry table k = 1) : tableReadEntry (table.record mid) k = 1 := by
  rw [tableReadEntry_record hmid]
  split
  · rfl
  · exact h

/-- Recording an entry of one row does not change the test of another. -/
theorem canDeliver_record_of_ne (hN : table.noProcess = N) (hq : 1 ≤ q ∧ q ≤ N)
    (hrow : N * t + N < 2 ^ 32) (hne : t ≠ s) :
    canDeliver (table.record (rowId N s q)) t = canDeliver table t := by
  have hfilter : ((Finset.Icc 1 N).filter fun r =>
      (table.record (rowId N s q)).entries (rowId N t r) = 1) =
      (Finset.Icc 1 N).filter fun r => table.entries (rowId N t r) = 1 := by
    refine Finset.filter_congr fun r hr => ?_
    have hother : rowId N t r ≠ rowId N s q :=
      fun heq => hne (rowId_inj (Finset.mem_Icc.mp hr) hq heq).1
    show Function.update table.entries (rowId N s q) 1 (rowId N t r) = 1 ↔ _
    rw [Function.update_of_ne hother]
  have hN' : (table.record (rowId N s q)).noProcess = N := hN
  rw [canDeliver_eq hN' hrow, canDeliver_eq hN hrow, hfilter]
  rfl

end Rows

/-! ## The entries -/

/-- What holds of the data of a running process, for the messages `arrived` that
`deliver_urb` has got; the messages `untested` have not been tested yet. -/
structure LiveInv (cfg : Membership) (p : ℕ) (d : NetData) (arrived : List Msg)
    (untested : ℕ → Prop) : Prop where
  own : ∀ s, Seen d s → tableReadEntry d.urbacks (rowId cfg.numProc s p) = 1
  heard : ∀ m ∈ arrived, Seen d m.urbMsg.seenId ∧
    tableReadEntry d.urbacks (rowId cfg.numProc m.urbMsg.seenId m.sender) = 1
  tested : ∀ m ∈ arrived, untested m.urbMsg.seenId ∨ DeliveredLcb d m.urbMsg.seenId ∨
    canDeliver d.urbacks m.urbMsg.seenId = some false

section Live

variable {cfg : Membership} {W : ℕ → NetData} {p : ℕ} {d : NetData} {arrived : List Msg}

/-- A change of other data. -/
theorem LiveInv.frame {d' : NetData} {untested : ℕ → Prop} (h : LiveInv cfg p d arrived untested)
    (htable : d'.urbTable = d.urbTable) (hacks : d'.urbacks = d.urbacks)
    (hpassed : d'.deliveredLcb = d.deliveredLcb) : LiveInv cfg p d' arrived untested := by
  refine ⟨fun t ht => ?_, fun m hm => ?_, fun m hm => ?_⟩
  · unfold Seen at ht
    rw [htable] at ht
    rw [hacks]
    exact h.own t ht
  · unfold Seen
    rw [hacks, htable]
    exact h.heard m hm
  · unfold DeliveredLcb
    rw [hacks, hpassed]
    exact h.tested m hm

/-- Another entry is recorded, in a row that none of the tested messages has. -/
theorem LiveInv.record {untested : ℕ → Prop} (hlive : LiveInv cfg p d arrived untested)
    (hp : cfg.IsPid p) (hin : InTables cfg (withData W p d))
    (hsafe : SafeInv cfg (withData W p d) p d) {s q : ℕ} (hq : cfg.IsPid q)
    (hrow : rowId cfg.numProc s q < uidTotal cfg)
    {untested' : ℕ → Prop} (huntested : ∀ t, untested t → untested' t)
    (hs : ∀ m ∈ arrived, m.urbMsg.seenId = s → untested' s) :
    LiveInv cfg p { d with urbacks := d.urbacks.record (rowId cfg.numProc s q) } arrived
      untested' := by
  rw [← hsafe.urbacksTotal] at hrow
  refine ⟨fun t ht => tableReadEntry_record_eq_one hrow (hlive.own t ht), fun m hm => ?_,
    fun m hm => ?_⟩
  · obtain ⟨hseen, hread⟩ := hlive.heard m hm
    exact ⟨hseen, tableReadEntry_record_eq_one hrow hread⟩
  · by_cases hms : m.urbMsg.seenId = s
    · exact .inl (hms ▸ hs m hm hms)
    · have hbound := hin p hp m.urbMsg.seenId (by rw [withData_self]; exact (hlive.heard m hm).1)
      refine (hlive.tested m hm).imp (huntested _) (Or.imp_right fun htest => ?_)
      rw [← htest]
      exact canDeliver_record_of_ne hsafe.urbacksProcess hq (hbound.trans_lt (uidTotal_lt cfg)) hms

/-- A message is marked seen and its own entry is recorded. -/
theorem LiveInv.seeOwn {untested untested' : ℕ → Prop} (hlive : LiveInv cfg p d arrived untested)
    (hp : cfg.IsPid p) (hin : InTables cfg (withData W p d))
    (hsafe : SafeInv cfg (withData W p d) p d) {s : ℕ} (hsize : s < d.urbTable.totalEntries)
    (hrow : rowId cfg.numProc s p < uidTotal cfg)
    (huntested : ∀ t, untested t → untested' t)
    (hs : ∀ m ∈ arrived, m.urbMsg.seenId = s → untested' s) :
    LiveInv cfg p { d with
      urbTable := d.urbTable.mark s .see
      urbacks := d.urbacks.record (rowId cfg.numProc s p) } arrived untested' := by
  have hrecorded := hlive.record hp hin hsafe hp hrow huntested hs
  rw [← hsafe.urbacksTotal] at hrow
  refine ⟨fun t ht => ?_, fun m hm => ?_, hrecorded.tested⟩
  · rcases (isSeenUrb_see hsize t).mp ht with rfl | ht
    · show tableReadEntry (d.urbacks.record _) _ = 1
      rw [tableReadEntry_record hrow, if_pos rfl]
    · exact hrecorded.own t ht
  · obtain ⟨hseen, hread⟩ := hrecorded.heard m hm
    exact ⟨(isSeenUrb_see hsize _).mpr (.inr hseen), hread⟩

/-- One more message has arrived. -/
theorem LiveInv.concat {untested : ℕ → Prop} (hlive : LiveInv cfg p d arrived untested) {m : Msg}
    (hseen : Seen d m.urbMsg.seenId)
    (hread : tableReadEntry d.urbacks (rowId cfg.numProc m.urbMsg.seenId m.sender) = 1)
    (huntested : untested m.urbMsg.seenId) : LiveInv cfg p d (arrived ++ [m]) untested := by
  refine ⟨hlive.own, fun m' hmem => ?_, fun m' hmem => ?_⟩
  · rcases List.mem_append.mp hmem with hmem | hmem
    · exact hlive.heard m' hmem
    · rw [List.mem_singleton.mp hmem]
      exact ⟨hseen, hread⟩
  · rcases List.mem_append.mp hmem with hmem | hmem
    · exact hlive.tested m' hmem
    · rw [List.mem_singleton.mp hmem]
      exact .inl huntested

/-- The entry of the sender of a message that arrives lies inside the table. -/
theorem Arrives.row {m : Msg} (hm : Arrives cfg (withData W p d) p m)
    (hin : InTables cfg (withData W p d)) :
    m.urbMsg.mid = rowId cfg.numProc m.urbMsg.seenId m.sender ∧
      rowId cfg.numProc m.urbMsg.seenId m.sender < uidTotal cfg := by
  obtain ⟨hrow, hlt⟩ := hin.rowId hm.isPid hm.taskOf.genuine.seen hm.isPid
  exact ⟨hm.taskOf.genuine.mid.trans hrow, hlt⟩

section Calls

variable (h : NetInv cfg (withData W p d)) (hp : cfg.IsPid p)
include h hp

theorem LiveInv.sendUrb {untested : ℕ → Prop}
    (hlive : InTables cfg (withData W p d) → LiveInv cfg p d d.deliveredBeb untested)
    (machine : Machine) {i : ℕ} (lcbMsg : LcbMsg) (hi : 1 ≤ i)
    (hlength : d.sentUrb.length + 1 = i) (hid : seenIdOf cfg.numProc i p < 2 ^ 32) :
    (CausalBroadcast.sendUrb machine i lcbMsg d).Meets
      (fun _ d' => d'.plAcks = d.plAcks ∧
        (InTables cfg (withData W p d') → LiveInv cfg p d' d'.deliveredBeb untested))
      (fun _ _ => True)
      (fun d' => d'.plAcks = d.plAcks ∧
        (InTables cfg (withData W p d') → LiveInv cfg p d' d'.deliveredBeb untested)) := by
  have hdata := h.dataSelf hp
  have hfresh := h.fresh hp hi hlength
  set s := seenIdOf cfg.numProc i p with hs
  refine (sendUrb_meets machine hdata.urbTable_pos hdata.urbTable_lt i lcbMsg (s := s)
    (by rw [hdata.numProc, hdata.selfPid]; exact u32_of_lt hid)
    (by rw [hdata.numProc, hdata.selfPid])).mono ?_ (fun _ _ _ => trivial) ?_
  · rintro newMsg _ ⟨rfl, -, hsize, -, table, lcb, hwritten, -, rfl⟩
    refine ⟨rfl, fun hin => ?_⟩
    -- The rows lie inside the tables after the step, hence before it, where the invariant is
    -- known.
    have hin₀ := hin.anti (grows_withData (.sendUrb hsize lcbMsg table lcb _))
    have hsafe := h.safeSelf hp hin₀
    obtain ⟨hrow, hlt⟩ := hin.ownRow hp ((isSeenUrb_see hsize s).mpr (.inl rfl))
    rw [hrow] at hwritten
    obtain rfl := hwritten.eq_record (by rw [hsafe.urbacksTotal]; exact hlt)
    have hseen := (hlive hin₀).seeOwn hp hin₀ hsafe hsize hlt (fun _ => id)
      fun m hm hms => absurd (hms ▸ ((hlive hin₀).heard m hm).1) hfresh
    exact ⟨hseen.own, hseen.heard, hseen.tested⟩
  · rintro _ (⟨-, rfl⟩ | ⟨-, hsize, hout, table, -, rfl⟩) <;> refine ⟨rfl, fun hin => ?_⟩
    · have hold := hlive (hin.anti (grows_withData (.passUrb d lcbMsg)))
      exact ⟨hold.own, hold.heard, hold.tested⟩
    · have hsafe := h.safeSelf hp
        (hin.anti (grows_withData (.sendUrb hsize lcbMsg table d.lcb d.sentBeb)))
      obtain ⟨hrow, hlt⟩ := hin.ownRow hp ((isSeenUrb_see hsize s).mpr (.inl rfl))
      -- `set_ack_urb` grows the table without end only for a row that lies outside.
      rw [hsafe.urbacksTotal, hrow] at hout
      exact absurd hlt (not_lt.mpr hout)

/-- The row of a message that a process has not seen has no link acknowledgements. -/
theorem NetInv.unacked (hin : InTables cfg (withData W p d)) {s : ℕ} (hnot : ¬ Seen d s) {q : ℕ}
    (hq : cfg.IsPid q) : isAck d (rowId cfg.numProc s q) = 0 := by
  by_contra hack
  have hseen := h.seen_of_acknowledged hin hq ((h.safeSelf hp hin).plAcks s q hq hack)
  rw [withData_self] at hseen
  exact hnot hseen

/-- `deliver_urb` before `send_beb` leaves the message of `m` to be tested. -/
theorem LiveInv.deliverUrbStart {m : Msg} (hm : Arrives cfg (withData W p d) p m)
    (hlive : InTables cfg (withData W p d) → LiveInv cfg p d arrived fun _ => False)
    (machine : Machine) : (CausalBroadcast.deliverUrbStart machine m.urbMsg d).Meets
      (fun newMsg d' => d'.deliveredBeb = d.deliveredBeb ∧ (InTables cfg (withData W p d') →
        LiveInv cfg p d' (arrived ++ [m]) (· = m.urbMsg.seenId) ∧ (newMsg.isSome → ∀ q,
          cfg.IsPid q → isAck d' (rowId cfg.numProc m.urbMsg.seenId q) = 0)))
      (fun _ _ => True) (fun d' => ¬ InTables cfg (withData W p d')) := by
  have hdata := h.dataSelf hp
  have hgenuine := hm.taskOf.genuine
  have hgrows (table : UidTable) : d.Grows { d with urbacks := table } :=
    .of_eq rfl (fun _ => Iff.rfl) rfl rfl rfl
  have hgrows' (hsize : m.urbMsg.seenId < d.urbTable.totalEntries) (table : UidTable)
      (sentBeb : List UrbMsg) : d.Grows { d with
        urbTable := d.urbTable.mark m.urbMsg.seenId .see
        urbacks := table
        sentBeb := sentBeb } := .of_see hsize rfl (List.prefix_refl _) rfl rfl rfl
  -- what the first write does
  have hfirst (hin : InTables cfg (withData W p d)) {table : UidTable}
      (hwritten : d.urbacks.Written m.urbMsg.mid table) :
      LiveInv cfg p { d with urbacks := table } arrived (· = m.urbMsg.seenId) ∧
        table.totalEntries = uidTotal cfg ∧
        tableReadEntry table (rowId cfg.numProc m.urbMsg.seenId m.sender) = 1 := by
    obtain ⟨hmid, hlt⟩ := hm.row hin
    have htotal := (h.safeSelf hp hin).urbacksTotal
    rw [hmid] at hwritten
    obtain rfl := hwritten.eq_record (by rw [htotal]; exact hlt)
    refine ⟨(hlive hin).record hp hin (h.safeSelf hp hin) hm.isPid hlt (fun _ => False.elim)
      fun _ _ _ => rfl, htotal, ?_⟩
    rw [tableReadEntry_record (by rw [htotal]; exact hlt), if_pos rfl]
  refine (deliverUrbStart_meets machine hdata.urbTable_pos hdata.urbTable_lt m.urbMsg
    (by rw [hdata.numProc, hdata.selfPid])).mono ?_ (fun _ _ _ => trivial) ?_
  · rintro newMsg d' ⟨table, hwritten, hresult⟩
    cases newMsg with
    | none =>
        -- seen before: the message waits for its test with the entry of its sender
        obtain ⟨hseen, rfl⟩ := hresult
        refine ⟨rfl, fun hin => ⟨?_, nofun⟩⟩
        obtain ⟨hlive', -, hread⟩ := hfirst (hin.anti (grows_withData (hgrows table))) hwritten
        exact hlive'.concat hseen hread rfl
    | some newMsg =>
        obtain ⟨hnot, -, hsize, -, -, table', hwritten', rfl⟩ := hresult
        refine ⟨rfl, fun hin => ?_⟩
        have hin₀ := hin.anti (grows_withData (hgrows' hsize table' _))
        refine ⟨?_, fun _ q hq => h.unacked hp hin₀ (not_not.mpr hnot) hq⟩
        obtain ⟨hlive', htotal, hread⟩ := hfirst hin₀ hwritten
        have hself := (isSeenUrb_see hsize m.urbMsg.seenId).mpr (.inl rfl)
        obtain ⟨hrow, hlt⟩ := hin.ownRow hp hself
        rw [hrow] at hwritten'
        have hmid : rowId cfg.numProc m.urbMsg.seenId p < table.totalEntries := by
          rw [htotal]
          exact hlt
        obtain rfl := hwritten'.eq_record hmid
        -- the state between the two writes
        have hback : NetData.Grows { d with urbacks := table } d :=
          .of_eq rfl (fun _ => Iff.rfl) rfl rfl rfl
        have hin₁ := hin₀.anti (grows_withData hback)
        have hheard := h.hear hp hwritten fun hin => hgenuine.row hin hm.isPid
        have hrelayed := (hlive'.seeOwn hp hin₁ (hheard.safeSelf hp hin₁) hsize hlt (fun _ => id)
          fun _ _ _ => rfl).concat hself (tableReadEntry_record_eq_one hmid hread) rfl
        exact ⟨hrelayed.own, hrelayed.heard, hrelayed.tested⟩
  · -- in each of the three loops the id lies inside the table, so no round is run
    rintro _ ⟨table, hwritten, ⟨hout, rfl⟩ | ⟨hout, rfl⟩ | ⟨-, hsize, hout, table', -, rfl⟩⟩ hin
    · have hin₀ := hin.anti (grows_withData (hgrows table))
      obtain ⟨hmid, hlt⟩ := hm.row hin₀
      rw [(h.safeSelf hp hin₀).urbacksTotal, hmid] at hout
      exact absurd hlt (not_lt.mpr hout)
    · have hlt := lt_of_isSeenUrb_ne_zero hgenuine.seen
      rw [(h.data _ hm.isPid).urbTotal, ← hdata.urbTotal] at hlt
      exact absurd hlt (not_lt.mpr hout)
    · obtain ⟨-, htotal, -⟩ := hfirst (hin.anti (grows_withData (hgrows' hsize table' _))) hwritten
      obtain ⟨hrow, hlt⟩ := hin.ownRow hp ((isSeenUrb_see hsize m.urbMsg.seenId).mpr (.inl rfl))
      rw [htotal, hrow] at hout
      exact absurd hlt (not_lt.mpr hout)

/-- `deliver_urb` after `send_beb` tests the message. -/
theorem LiveInv.deliverUrbEnd {msg : UrbMsg} (hseen : Seen d msg.seenId)
    (hlive : InTables cfg (withData W p d) → LiveInv cfg p d arrived (· = msg.seenId))
    (machine : Machine) : (CausalBroadcast.deliverUrbEnd machine msg d).Meets
      (fun _ d' => d'.deliveredBeb = d.deliveredBeb ∧
        (InTables cfg (withData W p d') → LiveInv cfg p d' arrived fun _ => False))
      (fun _ _ => True)
      (fun d' => d'.deliveredBeb = d.deliveredBeb ∧
        (InTables cfg (withData W p d') → LiveInv cfg p d' arrived fun _ => False)) := by
  have hdata := h.dataSelf hp
  have hpass (d' : NetData) (hpass : PassedUp d msg d') : d'.deliveredBeb = d.deliveredBeb ∧
      (InTables cfg (withData W p d') → LiveInv cfg p d' arrived fun _ => False) := by
    have hgrows := hpass.grows
    obtain ⟨-, -, hsize, lcb, -, rfl⟩ := hpass
    refine ⟨rfl, fun hin => ?_⟩
    have hold := hlive (hin.anti (grows_withData hgrows))
    refine ⟨fun t ht => hold.own t ((seen_deliver hsize t).mp ht), fun m hm => ?_, fun m hm => ?_⟩
    · obtain ⟨hmseen, hread⟩ := hold.heard m hm
      exact ⟨(seen_deliver hsize _).mpr hmseen, hread⟩
    · have hmem : ∀ t, t ∈ d.deliveredLcb.map UrbMsg.seenId ∨ t = msg.seenId →
          t ∈ (d.deliveredLcb ++ [msg]).map UrbMsg.seenId := by
        intro t ht
        rw [List.map_append, List.mem_append]
        exact ht.imp_right List.mem_singleton.mpr
      -- the message that was to be tested is the one that is passed up
      rcases hold.tested m hm with htest | htest | htest
      · exact .inr (.inl (hmem _ (.inr htest)))
      · exact .inr (.inl (hmem _ (.inl htest)))
      · exact .inr (.inr htest)
  refine (deliverUrbEnd_meets machine hdata.urbTable_pos hdata.urbTable_lt msg).mono ?_
    (fun _ _ _ => trivial) ?_
  · rintro _ d' (hd | ⟨htest, rfl⟩)
    · exact hpass d' hd
    · refine ⟨rfl, fun hin => ?_⟩
      have hold := hlive hin
      refine ⟨hold.own, hold.heard, fun m hm => .inr ?_⟩
      rcases hold.tested m hm with hms | hms
      · rw [hms]
        exact htest.symm.imp_left ((h.safeSelf hp hin).delivered _)
      · exact hms
  · rintro d' (hd | ⟨hout, rfl⟩)
    · exact hpass d' hd
    · exact absurd (lt_of_isSeenUrb_ne_zero hseen) (not_lt.mpr hout)

/-- `deliver_pl` from `is_delivered` on, up to `send_beb` if it is called.  In that case
the message is still to be tested, and nobody has acknowledged it yet. -/
theorem LiveInv.deliverPlEnd {m : Msg} (hm : Arrives cfg (withData W p d) p m)
    (hlive : InTables cfg (withData W p d) → LiveInv cfg p d d.deliveredBeb fun _ => False)
    (machine : Machine) : (CausalBroadcast.deliverPlEnd machine m d).Meets
      (fun newMsg d' => InTables cfg (withData W p d') → match newMsg with
        | none => LiveInv cfg p d' d'.deliveredBeb fun _ => False
        | some _ => LiveInv cfg p d' d'.deliveredBeb (· = m.urbMsg.seenId) ∧
            ∀ q, cfg.IsPid q → isAck d' (rowId cfg.numProc m.urbMsg.seenId q) = 0)
      (fun _ _ => True)
      (fun d' => InTables cfg (withData W p d') →
        LiveInv cfg p d' d'.deliveredBeb fun _ => False) := by
  refine ((h.recordDelivery hp hm machine).and (recordDelivery_meets machine m d)).andThen
    (fun _ _ _ => trivial) (fun _ hd hin => absurd hin hd.1.2) ?_
  rintro fresh d₁ ⟨⟨hsound, -⟩, hresult⟩
  cases fresh with
  | false =>
      obtain ⟨-, rfl⟩ := hresult
      exact hlive
  | true =>
      obtain ⟨-, table, -, rfl⟩ := hresult
      have hm₁ := hm.mono (grows_withData hsound.grows)
      -- of the messages that have arrived the new one is left out until its row is set
      have hlive₁ (hin : InTables cfg (withData W p { d with
          plDelivered := table, deliveredBeb := d.deliveredBeb ++ [m] })) :
          LiveInv cfg p { d with plDelivered := table, deliveredBeb := d.deliveredBeb ++ [m] }
            d.deliveredBeb fun _ => False :=
        (hlive (hin.anti (grows_withData hsound.grows))).frame rfl rfl rfl
      refine ((hsound.inv.deliverUrbStart hp hm₁.isPid hm₁.taskOf.genuine machine).and
        (LiveInv.deliverUrbStart hsound.inv hp hm₁ hlive₁ machine)).andThen
        (fun _ _ _ => trivial) (fun _ hout hin => absurd hin hout.2) ?_
      rintro (_ | newMsg) d₂ ⟨⟨hsound₂, hseen, -⟩, harrived, hlive₂⟩
      · refine (LiveInv.deliverUrbEnd hsound₂.inv hp hseen (fun hin => (hlive₂ hin).1)
          machine).andThen (fun _ _ _ => trivial) ?_ ?_
        · rintro d₃ ⟨harrived₃, hlive₃⟩ hin
          rw [harrived₃, harrived]
          exact hlive₃ hin
        · rintro _ d₃ ⟨harrived₃, hlive₃⟩ hin
          rw [harrived₃, harrived]
          exact hlive₃ hin
      · intro hin
        obtain ⟨hlive', hacks⟩ := hlive₂ hin
        rw [harrived]
        exact ⟨hlive', hacks rfl⟩

end Calls

end Live

end CausalBroadcast
