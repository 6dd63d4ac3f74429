import CausalBroadcast.Reliable.Changes

/-!
# The calls keep the invariant of the data

Whatever a call comes to, the data it leaves satisfies the invariant (`Sound`).
The changes of a call are put together from the single ones, in an order in which
each keeps the invariant.
-/

namespace CausalBroadcast

/-- The data `d'` that a call of `p` makes of `d`. -/
structure Sound (cfg : Membership) (W : ℕ → NetData) (p : ℕ) (d d' : NetData) : Prop where
  grows : d.Grows d'
  sentBeb : d.sentBeb ⊆ d'.sentBeb
  inv : NetInv cfg (withData W p d')

/-- The same for a call that broadcasts no new message. -/
structure SoundAside (cfg : Membership) (W : ℕ → NetData) (p : ℕ) (d d' : NetData) : Prop
    extends Sound cfg W p d d' where
  sentUrb : d'.sentUrb = d.sentUrb

section Calls

variable {cfg : Membership} {W : ℕ → NetData} {p : ℕ} {d d' : NetData}

theorem SoundAside.trans {d'' : NetData} (h : SoundAside cfg W p d d')
    (h' : SoundAside cfg W p d' d'') : SoundAside cfg W p d d'' :=
  ⟨⟨h.grows.trans h'.grows, List.Subset.trans h.sentBeb h'.sentBeb, h'.inv⟩,
    h'.sentUrb.trans h.sentUrb⟩

theorem NetInv.sound (h : NetInv cfg (withData W p d)) : SoundAside cfg W p d d :=
  ⟨⟨.refl d, List.Subset.refl _, h⟩, rfl⟩

theorem DataInv.urbTable_pos (h : DataInv cfg W p d) : 0 < d.urbTable.totalEntries := by
  rw [h.urbTotal]
  exact urbTotal_pos cfg

theorem DataInv.urbTable_lt (h : DataInv cfg W p d) : d.urbTable.totalEntries < 2 ^ 32 := by
  rw [h.urbTotal]
  exact urbTotal_lt cfg

/-- What a message handed to `send_beb` says about the row it belongs to. -/
theorem Genuine.row (hin : InTables cfg W) {r : ℕ} (hr : cfg.IsPid r) {msg : UrbMsg}
    (hmsg : Genuine cfg W r msg) : msg.mid < uidTotal cfg ∧ ∃ s q, cfg.IsPid q ∧
      msg.mid = rowId cfg.numProc s q ∧ Seen (W q) s := by
  obtain ⟨hid, hsize⟩ := hin.rowId hr hmsg.seen hr
  exact ⟨by rw [hmsg.mid, hid]; exact hsize, msg.seenId, r, hr, hmsg.mid.trans hid, hmsg.seen⟩

variable (h : NetInv cfg (withData W p d)) (hp : cfg.IsPid p)
include h hp

/-! ## The main thread -/

/-- The id of the next own message is fresh. -/
theorem NetInv.fresh {i : ℕ} (hi : 1 ≤ i) (hlength : d.sentUrb.length + 1 = i) :
    ¬ Seen d (seenIdOf cfg.numProc i p) := by
  intro hseen
  obtain ⟨lcbMsg, hbroadcast⟩ := (h.dataSelf hp).seen _ hseen
  obtain ⟨j, hj, hsent, hid⟩ := hbroadcast.sent
  obtain ⟨rfl, horigin⟩ := seenIdOf_inj hi hj hp hbroadcast.isPid hid
  rw [← horigin, withData_self] at hsent
  have hlt := (List.getElem?_eq_some_iff.mp hsent).1
  omega

theorem NetInv.sendUrb (machine : Machine) {i : ℕ} {lcbMsg : LcbMsg} (hi : 1 ≤ i)
    (hlength : d.sentUrb.length + 1 = i) (hsender : lcbMsg.originalSender = p)
    (hid : seenIdOf cfg.numProc i p < 2 ^ 32) :
    (CausalBroadcast.sendUrb machine i lcbMsg d).Meets
      (fun newMsg d' => Sound cfg W p d d' ∧ newMsg ∈ d'.sentBeb ∧ d'.sentUrb.length = i ∧
        newMsg.seenId = seenIdOf cfg.numProc i p ∧ seenIdOf cfg.numProc (i + 1) p < 2 ^ 32)
      (fun _ d' => Sound cfg W p d d') (fun d' => Sound cfg W p d d') := by
  have hdata := h.dataSelf hp
  set s := seenIdOf cfg.numProc i p with hs
  set mid := u32 (cfg.numProc * s + p - 1) with hmid
  -- the changes one after another; `hseen` is what the next ones rely on
  have hpassed := h.passUrb hp hsender
  have hpassedSound : Sound cfg W p d { d with sentUrb := d.sentUrb ++ [lcbMsg] } :=
    ⟨.passUrb d lcbMsg, List.Subset.refl _, hpassed⟩
  have hbroadcast (hcap : s ≤ maxSizeUrb) :
      Broadcast cfg (withData W p { d with sentUrb := d.sentUrb ++ [lcbMsg] }) s lcbMsg := by
    refine ⟨hsender ▸ hp, hcap, i, hi, ?_, by rw [hsender]⟩
    rw [hsender, withData_self, show i - 1 = d.sentUrb.length by omega]
    exact List.getElem?_concat_length
  have hseen (hcap : s ≤ maxSizeUrb) (hsize : s < d.urbTable.totalEntries) :=
    hpassed.see hp hsize (hbroadcast hcap)
  have hheard (hcap : s ≤ maxSizeUrb) (hsize : s < d.urbTable.totalEntries) {table : UidTable}
      (hwritten : d.urbacks.Written mid table) := by
    refine (hseen hcap hsize).hear hp hwritten fun hin => ?_
    have hself := (isSeenUrb_see hsize s).mpr (.inl rfl)
    obtain ⟨hrow, hlt⟩ := hin.ownRow hp hself
    exact ⟨hrow.trans_lt hlt, s, p, hp, hrow, by rw [withData_self]; exact hself⟩
  refine (sendUrb_meets machine hdata.urbTable_pos hdata.urbTable_lt i lcbMsg (s := s)
    (by rw [hdata.numProc, hdata.selfPid]; exact u32_of_lt hid)
    (by rw [hdata.numProc, hdata.selfPid])).mono ?_ ?_ ?_
  · rintro newMsg _ ⟨rfl, hcap, hsize, hmidcap, table, lcb, hwritten, hsame, rfl⟩
    refine ⟨⟨.sendUrb hsize lcbMsg table lcb _, List.subset_append_left .., ?_⟩,
      List.mem_append_right _ (List.mem_singleton_self _), by simp [hlength], rfl, ?_⟩
    · refine ((hheard hcap hsize hwritten).setLcb hp hsame).handBeb hp
        ⟨?_, (hbroadcast hcap).mono (grows_withData ?_), rfl, hmidcap⟩
      · rw [withData_self]
        exact (isSeenUrb_see hsize s).mpr (.inl rfl)
      · exact .of_see hsize rfl (List.prefix_refl _) rfl rfl rfl
    · have hlt := cfg.numProc_lt
      have hstep : seenIdOf cfg.numProc (i + 1) p = s + cfg.numProc := by
        have hmul : cfg.numProc * i = cfg.numProc * (i - 1) + cfg.numProc := by
          rw [← Nat.mul_succ]
          congr 1
          omega
        have := hp.1
        rw [hs]
        unfold seenIdOf
        rw [Nat.add_sub_cancel, hmul]
        omega
      unfold maxSizeUrb at hcap
      omega
  · rintro code _ ⟨-, ⟨-, rfl⟩ | ⟨hcap, hsize, -, rfl⟩⟩
    · exact hpassedSound
    · exact ⟨.sendUrb hsize lcbMsg _ _ _, List.Subset.refl _, hseen hcap hsize⟩
  · rintro _ (⟨-, rfl⟩ | ⟨hcap, hsize, -, table, hwritten, rfl⟩)
    · exact hpassedSound
    · exact ⟨.sendUrb hsize lcbMsg _ _ _, List.Subset.refl _, hheard hcap hsize hwritten⟩

/-- The body of the loop of `send_beb`, in either thread. -/
theorem NetInv.sendBebBody {msg : UrbMsg} {k : ℕ} (hmsg : msg ∈ d.sentBeb) (hpos : 1 ≤ k)
    (hk : k ≤ d.numProc) : (CausalBroadcast.sendBebBody msg k d).Meets
      (fun _ d' => SoundAside cfg W p d d') (fun _ _ => False) (fun _ => False) := by
  have hdata := h.dataSelf hp
  refine (sendBebBody_meets hdata.queue msg k).mono ?_ (fun _ _ => id) fun _ => id
  rintro _ _ (⟨-, rfl⟩ | ⟨hne, queue, hwf, hcontents, rfl⟩)
  · exact h.sound
  · rw [hdata.selfPid, hdata.numProc] at *
    exact ⟨⟨⟨List.prefix_refl _, fun _ => id, List.subset_append_left .., List.Subset.refl _,
      List.Subset.refl _⟩,
      List.Subset.refl _, h.enqueue hp hwf hcontents
        ⟨⟨hpos, hk⟩, hne, hdata.sentBeb msg hmsg, rfl⟩⟩, rfl⟩

/-! ## The sender threads -/

theorem NetInv.dequeue : (onTaskQ CausalBroadcast.dequeue d).Meets
    (fun result d' => SoundAside cfg W p d d' ∧ ∀ task ∈ result, task ∈ d'.enqueued)
    (fun _ _ => False) (fun _ => False) := by
  have hdata := h.dataSelf hp
  refine (onTaskQ_dequeue_meets hdata.queue).mono ?_ (fun _ _ => id) fun _ => id
  rintro (_ | task) d' hresult
  · obtain rfl := hresult
    exact ⟨h.sound, fun _ hmem => absurd hmem (Option.not_mem_none _)⟩
  · obtain ⟨queue, hwf, hcontents, rfl⟩ := hresult
    have hsubset := hdata.contents
    rw [hcontents] at hsubset
    obtain ⟨htask, hrest⟩ := List.cons_subset.mp hsubset
    exact ⟨⟨⟨.of_eq rfl (fun _ => Iff.rfl) rfl rfl rfl, List.Subset.refl _,
      h.setTaskQ hp hwf hrest⟩, rfl⟩, fun _ hmem => Option.mem_some.mp hmem ▸ htask⟩

theorem NetInv.sendPlBody {task : QueueTask} (htask : task ∈ d.enqueued) (sendto : Bool) (i : ℕ) :
    (CausalBroadcast.sendPlBody sendto task i d).Meets
      (fun _ d' => SoundAside cfg W p d d')
      (fun _ d' => sendto = false ∧ d' = d) (fun _ => False) := by
  have hdata := h.dataSelf hp
  refine (sendPlBody_meets hdata.queue sendto task i).mono ?_ ?_ fun _ => id
  · rintro (_ | _) d' hresult
    · obtain ⟨queue, hwf, hcontents, rfl⟩ := hresult
      refine ⟨⟨.of_eq rfl (fun _ => Iff.rfl) rfl rfl rfl, List.Subset.refl _,
        h.setTaskQ hp hwf ?_⟩, rfl⟩
      rw [hcontents]
      exact List.append_subset.mpr ⟨hdata.contents, List.cons_subset.mpr ⟨htask, List.nil_subset _⟩⟩
    · obtain rfl := hresult
      exact ⟨⟨.of_send d _ _, List.Subset.refl _, h.sendTask hp htask⟩, rfl⟩
  · rintro _ _ ⟨hsendto | hpid, rfl⟩
    · exact ⟨hsendto, rfl⟩
    · have := (hdata.enqueued task htask).isPid.2
      rw [hdata.numProc] at hpid
      omega

/-! ## The receiver thread -/

/-- The part of `deliver_urb` before `send_beb`, for a message that `r` has handed on. -/
theorem NetInv.deliverUrbStart {r : ℕ} {msg : UrbMsg} (hr : cfg.IsPid r)
    (hmsg : Genuine cfg (withData W p d) r msg) (machine : Machine) :
    (CausalBroadcast.deliverUrbStart machine msg d).Meets
      (fun newMsg d' => SoundAside cfg W p d d' ∧ Seen d' msg.seenId ∧ ∀ msg' ∈ newMsg,
        msg' ∈ d'.sentBeb ∧ msg'.seenId = msg.seenId ∧ msg'.lcbMsg = msg.lcbMsg)
      (fun _ d' => SoundAside cfg W p d d') (fun d' => SoundAside cfg W p d d') := by
  have hdata := h.dataSelf hp
  set mid := u32 (cfg.numProc * msg.seenId + p - 1) with hmid
  -- The three changes of `deliver_urb`, each from the state that the one before leaves.
  have hheard {table : UidTable} (hwritten : d.urbacks.Written msg.mid table) :=
    h.hear hp hwritten fun hin => hmsg.row hin hr
  have hgrows (table : UidTable) : d.Grows { d with urbacks := table } :=
    .of_eq rfl (fun _ => Iff.rfl) rfl rfl rfl
  have hheardSound {table : UidTable} (hwritten : d.urbacks.Written msg.mid table) :
      SoundAside cfg W p d { d with urbacks := table } :=
    ⟨⟨hgrows table, List.Subset.refl _, hheard hwritten⟩, rfl⟩
  have hseen {table : UidTable} (hwritten : d.urbacks.Written msg.mid table)
      (hsize : msg.seenId < d.urbTable.totalEntries) :=
    (hheard hwritten).see hp hsize (hmsg.broadcast.mono (grows_withData (hgrows table)))
  have hgrows' (hsize : msg.seenId < d.urbTable.totalEntries) (table : UidTable)
      (sentBeb : List UrbMsg) : d.Grows { d with
        urbTable := d.urbTable.mark msg.seenId .see
        urbacks := table
        sentBeb := sentBeb } := .of_see hsize rfl (List.prefix_refl _) rfl rfl rfl
  have hrelayed {table table' : UidTable} (hwritten : d.urbacks.Written msg.mid table)
      (hsize : msg.seenId < d.urbTable.totalEntries) (hwritten' : table.Written mid table') := by
    refine (hseen hwritten hsize).hear hp hwritten' fun hin => ?_
    have hself := (isSeenUrb_see hsize msg.seenId).mpr (.inl rfl)
    obtain ⟨hrow, hlt⟩ := hin.ownRow hp hself
    exact ⟨hrow.trans_lt hlt, msg.seenId, p, hp, hrow, by rw [withData_self]; exact hself⟩
  refine (deliverUrbStart_meets machine hdata.urbTable_pos hdata.urbTable_lt msg
    (by rw [hdata.numProc, hdata.selfPid])).mono ?_ ?_ ?_
  · rintro newMsg d' ⟨table, hwritten, hresult⟩
    cases newMsg with
    | none =>
        obtain ⟨hself, rfl⟩ := hresult
        exact ⟨hheardSound hwritten, hself, fun _ hmem => absurd hmem (Option.not_mem_none _)⟩
    | some newMsg =>
        obtain ⟨-, -, hsize, hmidcap, rfl, table', hwritten', rfl⟩ := hresult
        refine ⟨⟨⟨hgrows' hsize _ _, List.subset_append_left .., ?_⟩, rfl⟩,
          (isSeenUrb_see hsize _).mpr (.inl rfl), fun msg' hmem => ?_⟩
        · refine (hrelayed hwritten hsize hwritten').handBeb hp ⟨?_,
            hmsg.broadcast.mono (grows_withData (hgrows' hsize _ _)), rfl, hmidcap⟩
          rw [withData_self]
          exact (isSeenUrb_see hsize _).mpr (.inl rfl)
        · obtain rfl := Option.mem_some.mp hmem
          exact ⟨List.mem_append_right _ (List.mem_singleton_self _), rfl, rfl⟩
  -- An error or an endless call stops after one of the changes; what it made before it stays.
  · rintro code _ ⟨-, ⟨-, rfl⟩ | ⟨table, hwritten, ⟨-, rfl⟩ | ⟨-, hsize, -, rfl⟩⟩⟩
    · exact h.sound
    · exact hheardSound hwritten
    · exact ⟨⟨hgrows' hsize _ _, List.Subset.refl _, hseen hwritten hsize⟩, rfl⟩
  · rintro _ ⟨table, hwritten, ⟨-, rfl⟩ | ⟨-, rfl⟩ | ⟨-, hsize, -, table', hwritten', rfl⟩⟩
    · exact hheardSound hwritten
    · exact hheardSound hwritten
    · have hinv := hrelayed hwritten hsize hwritten'
      exact ⟨⟨hgrows' hsize _ _, List.Subset.refl _, hinv⟩, rfl⟩

/-- The part of `deliver_urb` after `send_beb`. -/
theorem NetInv.deliverUrbEnd {msg : UrbMsg} (hseen : Seen d msg.seenId)
    (hbroadcast : Broadcast cfg (withData W p d) msg.seenId msg.lcbMsg) (machine : Machine) :
    (CausalBroadcast.deliverUrbEnd machine msg d).Meets (fun _ d' => SoundAside cfg W p d d')
      (fun _ d' => SoundAside cfg W p d d') (fun d' => SoundAside cfg W p d d') := by
  have hdata := h.dataSelf hp
  have hpass (d' : NetData) (hpass : PassedUp d msg d') : SoundAside cfg W p d d' := by
    obtain ⟨hinv, hgrows⟩ := h.passUp hp hpass hbroadcast hseen
    obtain ⟨-, -, -, lcb, -, rfl⟩ := hpass
    exact ⟨⟨hgrows, List.Subset.refl _, hinv⟩, rfl⟩
  refine (deliverUrbEnd_meets machine hdata.urbTable_pos hdata.urbTable_lt msg).mono ?_ ?_ ?_
  · rintro _ d' (hd | ⟨-, rfl⟩)
    · exact hpass d' hd
    · exact h.sound
  · rintro code d' (⟨-, hd⟩ | ⟨-, -, rfl⟩)
    · exact hpass d' hd
    · exact h.sound
  · rintro d' (hd | ⟨-, rfl⟩)
    · exact hpass d' hd
    · exact h.sound

/-- `deliver_pl` up to `is_delivered`, for a datagram that `r` has sent. -/
theorem NetInv.deliverPlStart {r : ℕ} {msg : Msg} (hr : cfg.IsPid r)
    (hsent : (p, msg) ∈ (withData W p d r).sent) (machine : Machine) (sendto : Bool) :
    (CausalBroadcast.deliverPlStart machine sendto msg d).Meets
      (fun _ d' => SoundAside cfg W p d d') (fun _ d' => SoundAside cfg W p d d')
      (fun d' => SoundAside cfg W p d d') := by
  have hrecord (hmtype : msg.mtype = ackNo) {table : UidTable}
      (hwritten : d.plAcks.Written msg.ackid table) :
      SoundAside cfg W p d { d with plAcks := table } := by
    refine ⟨⟨.of_eq rfl (fun _ => Iff.rfl) rfl rfl rfl, List.Subset.refl _,
      h.recordAck hp hwritten fun hin => ?_⟩, rfl⟩
    obtain ⟨s, -, hid, hlt⟩ := (h.ackOf hr hsent hmtype).exists_row hin hr
    exact ⟨hlt, s, r, hr, hid, msg, hsent, hmtype, hid⟩
  refine (deliverPlStart_meets machine sendto msg d).mono ?_ ?_ ?_
  · rintro (_ | _) d' hresult
    · obtain ⟨hmtype, -, table, hwritten, rfl⟩ := hresult
      exact hrecord hmtype hwritten
    · obtain ⟨hmtype, -, -, rfl⟩ := hresult
      have hm := h.arrives hr hsent hmtype
      rw [(h.dataSelf hp).selfPid]
      exact ⟨⟨.of_send d _ _, List.Subset.refl _, h.sendAck hp hm⟩, rfl⟩
  · rintro code _ ⟨-, rfl⟩
    exact h.sound
  · rintro _ ⟨hmtype, -, table, hwritten, rfl⟩
    exact hrecord hmtype hwritten

/-- From `is_delivered` up to `deliver_beb`.  Inside the tables the copy counts as
delivered afterwards: it is recorded now, or it was before. -/
theorem NetInv.recordDelivery {m : Msg} (hm : Arrives cfg (withData W p d) p m)
    (machine : Machine) : (CausalBroadcast.recordDelivery machine m d).Meets
      (fun _ d' => SoundAside cfg W p d d' ∧
        (InTables cfg (withData W p d') → DeliveredFrom d' m.sender m.urbMsg.seenId))
      (fun _ d' => SoundAside cfg W p d d')
      (fun d' => SoundAside cfg W p d d' ∧ ¬ InTables cfg (withData W p d')) := by
  have hmid : m.mid = m.urbMsg.mid := hm.taskOf.mid.trans hm.taskOf.genuine.mid.symm
  refine (recordDelivery_meets machine m d).mono ?_ ?_ ?_
  · rintro (_ | _) d' hresult
    · obtain ⟨hdelivered, rfl⟩ := hresult
      refine ⟨h.sound, fun hin => (h.safeSelf hp hin).plDelivered _ _ hm.isPid ?_⟩
      have hrow := hm.taskOf.mid.trans (hin.rowId hm.isPid hm.taskOf.genuine.seen hm.isPid).1
      rw [isDelivered, hrow] at hdelivered
      exact hdelivered
    · obtain ⟨hnot, table, hwritten, rfl⟩ := hresult
      exact ⟨⟨⟨⟨List.prefix_refl _, fun _ => id, List.Subset.refl _, List.Subset.refl _,
        List.subset_append_left ..⟩, List.Subset.refl _, h.deliverBeb hp hm hwritten hnot⟩, rfl⟩,
        fun _ => ⟨m, List.mem_append_right _ (List.mem_singleton_self m), rfl, rfl⟩⟩
  · rintro code _ ⟨-, hcap, -⟩
    exact absurd (hmid ▸ hm.taskOf.genuine.mid_le) (not_le.mpr hcap)
  · rintro _ ⟨hsize, table, rfl⟩
    obtain ⟨hout, hstuck⟩ := h.stuckDelivered hp hm table hsize
    have hgrows : d.Grows { d with plDelivered := table } :=
      .of_eq rfl (fun _ => Iff.rfl) rfl rfl rfl
    exact ⟨⟨⟨hgrows, List.Subset.refl _, hstuck⟩, rfl⟩,
      fun hin => hout (hin.anti (grows_withData hgrows))⟩

/-- `deliver_urb`, up to `send_beb` if it is called. -/
theorem NetInv.deliverUrb {r : ℕ} {msg : UrbMsg} (hr : cfg.IsPid r)
    (hmsg : Genuine cfg (withData W p d) r msg) (machine : Machine) :
    (CausalBroadcast.deliverUrb machine msg d).Meets
      (fun newMsg d' => SoundAside cfg W p d d' ∧ ∀ msg' ∈ newMsg, msg' ∈ d'.sentBeb ∧
        msg'.seenId = msg.seenId ∧ msg'.lcbMsg = msg.lcbMsg)
      (fun _ d' => SoundAside cfg W p d d') (fun d' => SoundAside cfg W p d d') := by
  refine (h.deliverUrbStart hp hr hmsg machine).andThen (fun _ _ => id) (fun _ => id) ?_
  rintro (_ | newMsg) d₁ ⟨hsound, hseen, hnew⟩
  · have hbroadcast := hmsg.broadcast.mono (grows_withData hsound.grows)
    refine (hsound.inv.deliverUrbEnd hp hseen hbroadcast machine).andThen
      (fun _ _ => hsound.trans) (fun _ => hsound.trans) fun _ d₂ hd => ?_
    exact ⟨hsound.trans hd, fun _ hmem => absurd hmem (Option.not_mem_none _)⟩
  · exact ⟨hsound, hnew⟩

/-- `deliver_pl` from `is_delivered` on, up to `send_beb` if it is called. -/
theorem NetInv.deliverPlEnd {m : Msg} (hm : Arrives cfg (withData W p d) p m)
    (machine : Machine) : (CausalBroadcast.deliverPlEnd machine m d).Meets
      (fun newMsg d' => (SoundAside cfg W p d d' ∧
        (InTables cfg (withData W p d') → DeliveredFrom d' m.sender m.urbMsg.seenId)) ∧
        ∀ msg' ∈ newMsg, msg' ∈ d'.sentBeb ∧ msg'.seenId = m.urbMsg.seenId ∧
          msg'.lcbMsg = m.urbMsg.lcbMsg)
      (fun _ d' => SoundAside cfg W p d d')
      (fun d' => SoundAside cfg W p d d' ∧
        (InTables cfg (withData W p d') → DeliveredFrom d' m.sender m.urbMsg.seenId)) := by
  refine (h.recordDelivery hp hm machine).andThen (fun _ _ => id)
    (fun _ hd => ⟨hd.1, fun hin => absurd hin hd.2⟩) ?_
  rintro (_ | _) d₁ ⟨hsound, hfrom⟩
  · exact ⟨⟨hsound, hfrom⟩, fun _ hmem => absurd hmem (Option.not_mem_none _)⟩
  · have hm₁ := hm.mono (grows_withData hsound.grows)
    -- what was delivered stays so in the call of `deliver_urb`
    have hfrom' {d₂ : NetData} (hd : SoundAside cfg W p d₁ d₂)
        (hin : InTables cfg (withData W p d₂)) : DeliveredFrom d₂ m.sender m.urbMsg.seenId :=
      hd.grows.deliveredFrom (hfrom (hin.anti (grows_withData hd.grows)))
    exact (hsound.inv.deliverUrb hp hm₁.isPid hm₁.taskOf.genuine machine).mono
      (fun _ _ hd => ⟨⟨hsound.trans hd.1, hfrom' hd.1⟩, hd.2⟩) (fun _ _ => hsound.trans)
      fun _ hd => ⟨hsound.trans hd, hfrom' hd⟩

end Calls

end CausalBroadcast
