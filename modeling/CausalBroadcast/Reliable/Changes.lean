import CausalBroadcast.Reliable.Effects
import CausalBroadcast.Reliable.Invariant

/-!
# Single changes of the data

The invariant of the data is kept by every single change that the calls make, one
lemma for each.  What a lemma asks about ids is asked only for runs in which the
rows of the messages lie inside the tables, like the facts about the tables.
-/

namespace CausalBroadcast

/-! ## Ids in the tables -/

section Ids

variable {cfg : Membership} {W : ℕ → NetData}

/-- The row of a message that some process has seen lies inside the tables. -/
theorem InTables.rowId (hin : InTables cfg W) {r s q : ℕ} (hr : cfg.IsPid r)
    (hseen : Seen (W r) s) (hq : cfg.IsPid q) :
    u32 (cfg.numProc * s + q - 1) = rowId cfg.numProc s q ∧
      CausalBroadcast.rowId cfg.numProc s q < uidTotal cfg :=
  u32_rowId hq (hin r hr s hseen)

/-- The own entry in the row of a message that the process has just seen. -/
theorem InTables.ownRow {W : ℕ → NetData} {p s : ℕ} {d : NetData}
    (hin : InTables cfg (withData W p d)) (hp : cfg.IsPid p) (hseen : Seen d s) :
    u32 (cfg.numProc * s + p - 1) = CausalBroadcast.rowId cfg.numProc s p ∧
      CausalBroadcast.rowId cfg.numProc s p < uidTotal cfg :=
  hin.rowId hp (by rw [withData_self]; exact hseen) hp

theorem TaskOf.mid {r : ℕ} {task : QueueTask} (h : TaskOf cfg W r task) :
    task.msg.mid = u32 (cfg.numProc * task.msg.urbMsg.seenId + r - 1) := by
  rw [h.eq, Nat.mul_comm]
  rfl

theorem TaskOf.ackid {r : ℕ} {task : QueueTask} (h : TaskOf cfg W r task) :
    task.msg.ackid = u32 (cfg.numProc * task.msg.urbMsg.seenId + task.pidDest - 1) := by
  rw [h.eq, Nat.mul_comm]
  rfl

theorem TaskOf.sender {r : ℕ} {task : QueueTask} (h : TaskOf cfg W r task) :
    task.msg.sender = r := by
  rw [h.eq]
  rfl

theorem TaskOf.mtype {r : ℕ} {task : QueueTask} (h : TaskOf cfg W r task) :
    task.msg.mtype ≠ ackNo := by
  rw [h.eq]
  exact zero_ne_one

/-- The datagrams that are acknowledgements answer tasks of those who get them. -/
theorem NetInv.ackOf (h : NetInv cfg W) {r dest : ℕ} {msg : Msg} (hr : cfg.IsPid r)
    (hsent : (dest, msg) ∈ (W r).sent) (hack : msg.mtype = ackNo) : AckOf cfg W r dest msg := by
  rcases (h.data r hr).sent dest msg hsent with ⟨-, hmtype⟩ | hanswers
  · exact absurd hack hmtype
  · exact hanswers

/-- The message that an acknowledgement answers, and its entry inside the tables. -/
theorem AckOf.exists_row {r dest : ℕ} {msg : Msg} (h : AckOf cfg W r dest msg)
    (hin : InTables cfg W) (hr : cfg.IsPid r) : ∃ s, Seen (W dest) s ∧
      msg.ackid = CausalBroadcast.rowId cfg.numProc s r ∧ msg.ackid < uidTotal cfg := by
  obtain ⟨s, hseen, hid⟩ := h.answers
  obtain ⟨hrow, hlt⟩ := hin.rowId h.isPid hseen hr
  have hid' : msg.ackid = CausalBroadcast.rowId cfg.numProc s r := by
    rw [hid, Nat.mul_comm, hrow]
  exact ⟨s, hseen, hid', hid'.trans_lt hlt⟩

/-- A process has seen what another one has acknowledged to it. -/
theorem NetInv.seen_of_acknowledged (h : NetInv cfg W) (hin : InTables cfg W) {p q s : ℕ}
    (hq : cfg.IsPid q) (hacked : Acknowledged cfg (W q) q p s) : Seen (W p) s := by
  obtain ⟨msg, hsent, hack, hid⟩ := hacked
  obtain ⟨s', hseen, hid', -⟩ := (h.ackOf hq hsent hack).exists_row hin hq
  obtain ⟨rfl, -⟩ := rowId_inj hq hq (hid.symm.trans hid')
  exact hseen

end Ids

/-! ## The changes -/

section Changes

variable {cfg : Membership} {W : ℕ → NetData} {p : ℕ} {d : NetData}

/-- A change of fields that other processes do not rely on. -/
theorem NetData.Grows.of_eq {d d' : NetData} (hsentUrb : d'.sentUrb = d.sentUrb)
    (hseen : ∀ s, Seen d' s ↔ Seen d s) (henqueued : d'.enqueued = d.enqueued)
    (hsent : d'.sent = d.sent) (hdelivered : d'.deliveredBeb = d.deliveredBeb) : d.Grows d' :=
  ⟨by rw [hsentUrb], fun s => (hseen s).mpr, by rw [henqueued]; exact List.Subset.refl _,
    by rw [hsent]; exact List.Subset.refl _, by rw [hdelivered]; exact List.Subset.refl _⟩

/-- A datagram is sent. -/
theorem NetData.Grows.of_send (d : NetData) (dest : ℕ) (msg : Msg) :
    d.Grows { d with sent := d.sent ++ [(dest, msg)] } :=
  ⟨List.prefix_refl _, fun _ => id, List.Subset.refl _, List.subset_append_left ..,
    List.Subset.refl _⟩

/-- A message is marked seen. -/
theorem NetData.Grows.of_see {d d' : NetData} {s : ℕ} (hsize : s < d.urbTable.totalEntries)
    (htable : d'.urbTable = d.urbTable.mark s .see) (hsentUrb : d.sentUrb <+: d'.sentUrb)
    (henqueued : d'.enqueued = d.enqueued) (hsent : d'.sent = d.sent)
    (hdelivered : d'.deliveredBeb = d.deliveredBeb) : d.Grows d' := by
  refine ⟨hsentUrb, fun t ht => ?_, by rw [henqueued]; exact List.Subset.refl _,
    by rw [hsent]; exact List.Subset.refl _, by rw [hdelivered]; exact List.Subset.refl _⟩
  unfold Seen
  rw [htable]
  exact (isSeenUrb_see hsize t).mpr (.inr ht)

/-- `send_urb` is called. -/
theorem NetData.Grows.passUrb (d : NetData) (lcbMsg : LcbMsg) :
    d.Grows { d with sentUrb := d.sentUrb ++ [lcbMsg] } :=
  ⟨List.prefix_append .., fun _ => id, List.Subset.refl _, List.Subset.refl _,
    List.Subset.refl _⟩

/-- `send_urb` is called and marks its message, whatever else it changes. -/
theorem NetData.Grows.sendUrb {d : NetData} {s : ℕ} (hsize : s < d.urbTable.totalEntries)
    (lcbMsg : LcbMsg) (table : UidTable) (lcb : Lcb) (sentBeb : List UrbMsg) :
    d.Grows { d with
      sentUrb := d.sentUrb ++ [lcbMsg]
      urbTable := d.urbTable.mark s .see
      urbacks := table
      lcb := lcb
      sentBeb := sentBeb } :=
  .of_see hsize rfl (List.prefix_append ..) rfl rfl rfl

/-- Marking a message delivered does not change what has been seen. -/
theorem seen_deliver {d : NetData} {s : ℕ} (hsize : s < d.urbTable.totalEntries) (k : ℕ) :
    Seen { d with urbTable := d.urbTable.mark s .deliver } k ↔ Seen d k := by
  unfold Seen
  rw [isSeenUrb_deliver hsize]

theorem PassedUp.grows {d d' : NetData} {msg : UrbMsg} (h : PassedUp d msg d') : d.Grows d' := by
  obtain ⟨-, -, hsize, lcb, -, rfl⟩ := h
  exact .of_eq rfl (seen_deliver hsize) rfl rfl rfl

section

variable (h : NetInv cfg (withData W p d)) (hp : cfg.IsPid p)
include h hp

/-- A message is passed to `send_urb`. -/
theorem NetInv.passUrb {lcbMsg : LcbMsg} (hsender : lcbMsg.originalSender = p) :
    NetInv cfg (withData W p { d with sentUrb := d.sentUrb ++ [lcbMsg] }) := by
  refine h.change hp (.passUrb d lcbMsg) (fun hold => { hold with sentUrb := ?_ })
    fun _ hold => { hold with }
  intro msg hmsg
  rcases List.mem_append.mp hmsg with hmsg | hmsg
  · exact hold.sentUrb msg hmsg
  · rw [List.mem_singleton.mp hmsg]
    exact hsender

/-- A message is marked seen. -/
theorem NetInv.see {s : ℕ} {lcbMsg : LcbMsg} (hsize : s < d.urbTable.totalEntries)
    (hbroadcast : Broadcast cfg (withData W p d) s lcbMsg) :
    NetInv cfg (withData W p { d with urbTable := d.urbTable.mark s .see }) := by
  have hgrows : d.Grows { d with urbTable := d.urbTable.mark s .see } :=
    .of_see hsize rfl (List.prefix_refl _) rfl rfl rfl
  refine h.change hp hgrows (fun hold => { hold with seen := fun t ht => ?_ })
    fun _ hold => { hold with deliveredLcb := fun msg hmsg => ?_, delivered := fun t ht => ?_ }
  · rcases (isSeenUrb_see hsize t).mp ht with rfl | ht
    · exact ⟨lcbMsg, hbroadcast.mono (grows_withData hgrows)⟩
    · exact hold.seen t ht
  · rw [isDeliveredUrb_see hsize]
    exact hold.deliveredLcb msg hmsg
  · rw [isDeliveredUrb_see hsize] at ht
    exact hold.delivered t ht

/-- Process `q` is recorded to have seen `s`. -/
theorem NetInv.hear {mid : ℕ} {table : UidTable} (hwritten : d.urbacks.Written mid table)
    (hid : InTables cfg (withData W p d) → mid < uidTotal cfg ∧
      ∃ s q, cfg.IsPid q ∧ mid = rowId cfg.numProc s q ∧ Seen (withData W p d q) s) :
    NetInv cfg (withData W p { d with urbacks := table }) := by
  have hgrows : d.Grows { d with urbacks := table } := .of_eq rfl (fun _ => Iff.rfl) rfl rfl rfl
  refine h.change hp hgrows (fun hold => { hold with }) fun hin hold => ?_
  obtain ⟨hmid, s, q, hq, rfl, hseen⟩ := hid (hin.anti (grows_withData hgrows))
  rw [← hold.urbacksTotal] at hmid
  obtain rfl := hwritten.eq_record hmid
  refine { hold with urbacks := fun t r hr hread => ?_ }
  rw [tableReadEntry_record hmid] at hread
  split at hread
  · obtain ⟨rfl, rfl⟩ := rowId_inj hr hq ‹_›
    exact (grows_withData hgrows r).seen t hseen
  · exact hold.urbacks t r hr hread

/-- An acknowledgement of `q` is recorded. -/
theorem NetInv.recordAck {mid : ℕ} {table : UidTable} (hwritten : d.plAcks.Written mid table)
    (hid : InTables cfg (withData W p d) → mid < uidTotal cfg ∧
      ∃ s q, cfg.IsPid q ∧ mid = rowId cfg.numProc s q ∧
        Acknowledged cfg (withData W p d q) q p s) :
    NetInv cfg (withData W p { d with plAcks := table }) := by
  have hgrows : d.Grows { d with plAcks := table } := .of_eq rfl (fun _ => Iff.rfl) rfl rfl rfl
  refine h.change hp hgrows (fun hold => { hold with }) fun hin hold => ?_
  obtain ⟨hmid, s, q, hq, rfl, hacked⟩ := hid (hin.anti (grows_withData hgrows))
  rw [← hold.plAcksTotal] at hmid
  obtain rfl := hwritten.eq_record hmid
  refine { hold with plAcks := fun t r hr hread => ?_ }
  rw [tableReadEntry_record hmid] at hread
  split at hread
  · obtain ⟨rfl, rfl⟩ := rowId_inj hr hq ‹_›
    exact (grows_withData hgrows r).acknowledged hacked
  · exact hold.plAcks t r hr hread

/-- A message is handed to `send_beb`. -/
theorem NetInv.handBeb {msg : UrbMsg} (hmsg : Genuine cfg (withData W p d) p msg) :
    NetInv cfg (withData W p { d with sentBeb := d.sentBeb ++ [msg] }) := by
  have hgrows : d.Grows { d with sentBeb := d.sentBeb ++ [msg] } :=
    .of_eq rfl (fun _ => Iff.rfl) rfl rfl rfl
  refine h.change hp hgrows (fun hold => { hold with sentBeb := fun msg' hmem => ?_ })
    fun _ hold => { hold with }
  rcases List.mem_append.mp hmem with hmem | hmem
  · exact hold.sentBeb msg' hmem
  · rw [List.mem_singleton.mp hmem]
    exact hmsg.mono (grows_withData hgrows)

/-- A task is enqueued. -/
theorem NetInv.enqueue {task : QueueTask} {queue : MsgQueue QueueTask} (hwf : queue.WellFormed)
    (hcontents : queue.contents = d.taskQ.contents ++ [task])
    (htask : TaskOf cfg (withData W p d) p task) :
    NetInv cfg (withData W p { d with taskQ := queue, enqueued := d.enqueued ++ [task] }) := by
  have hgrows : d.Grows { d with taskQ := queue, enqueued := d.enqueued ++ [task] } :=
    ⟨List.prefix_refl _, fun _ => id, List.subset_append_left .., List.Subset.refl _,
      List.Subset.refl _⟩
  refine h.change hp hgrows (fun hold => { hold with
    enqueued := fun task' hmem => ?_
    queue := hwf
    contents := ?_
    sent := fun dest msg hmem => ?_ }) fun _ hold => { hold with }
  · rcases List.mem_append.mp hmem with hmem | hmem
    · exact hold.enqueued task' hmem
    · rw [List.mem_singleton.mp hmem]
      exact htask.mono (grows_withData hgrows)
  · show queue.contents ⊆ d.enqueued ++ [task]
    rw [hcontents]
    exact List.append_subset.mpr ⟨List.Subset.trans hold.contents (List.subset_append_left ..),
      List.subset_append_right ..⟩
  · exact (hold.sent dest msg hmem).imp_left (And.imp_left (List.mem_append_left _))

/-- A task is moved from the queue or to it. -/
theorem NetInv.setTaskQ {queue : MsgQueue QueueTask} (hwf : queue.WellFormed)
    (hcontents : queue.contents ⊆ d.enqueued) :
    NetInv cfg (withData W p { d with taskQ := queue }) :=
  h.change hp (.of_eq rfl (fun _ => Iff.rfl) rfl rfl rfl)
    (fun hold => { hold with queue := hwf, contents := hcontents }) fun _ hold => { hold with }

/-- The message of a task is sent. -/
theorem NetInv.sendTask {task : QueueTask} (htask : task ∈ d.enqueued) :
    NetInv cfg (withData W p { d with sent := d.sent ++ [(task.pidDest, task.msg)] }) := by
  have hmtype := ((h.dataSelf hp).enqueued task htask).mtype
  refine h.change hp (.of_send d _ _)
    (fun hold => { hold with sent := fun dest msg hmem => ?_ }) fun _ hold => { hold with }
  rcases List.mem_append.mp hmem with hmem | hmem
  · exact hold.sent dest msg hmem
  · obtain ⟨rfl, rfl⟩ := Prod.mk.inj (List.mem_singleton.mp hmem)
    exact .inl ⟨htask, hmtype⟩

/-- The causal layer changes. -/
theorem NetInv.setLcb {lcb : Lcb} (hsame : d.lcb.SameProcess lcb) :
    NetInv cfg (withData W p { d with lcb := lcb }) :=
  h.change hp (.of_eq rfl (fun _ => Iff.rfl) rfl rfl rfl)
    (fun hold => { hold with
      selfPid := hsame.1.trans hold.selfPid, numProc := hsame.2.trans hold.numProc })
    fun _ hold => { hold with }

/-- What `can_deliver` accepts has been seen by a majority. -/
theorem NetInv.majority (hin : InTables cfg (withData W p d)) {s : ℕ} (hseen : Seen d s)
    (hmajority : canDeliver d.urbacks s = some true) : SeenByMajority cfg (withData W p d) s := by
  have hsafe := h.safeSelf hp hin
  have hrow : cfg.numProc * s + cfg.numProc ≤ uidTotal cfg :=
    hin p hp s (by rwa [withData_self])
  rw [canDeliver_eq hsafe.urbacksProcess (hrow.trans_lt (uidTotal_lt cfg))] at hmajority
  split_ifs at hmajority
  · exact absurd (Option.some.inj hmajority) (by decide)
  have hcount := of_decide_eq_true (Option.some.inj hmajority)
  have hsubset : ((Finset.Icc 1 cfg.numProc).filter fun q =>
      d.urbacks.entries (rowId cfg.numProc s q) = 1) ⊆
      (Finset.Icc 1 cfg.numProc).filter fun q => Seen (withData W p d q) s := by
    intro q hq
    obtain ⟨hrange, hentry⟩ := Finset.mem_filter.mp hq
    have hpid : cfg.IsPid q := Finset.mem_Icc.mp hrange
    refine Finset.mem_filter.mpr ⟨hrange, hsafe.urbacks s q hpid ?_⟩
    rw [tableReadEntry_of_lt (by rw [hsafe.urbacksTotal]; exact (rowId_lt hpid).trans_le hrow),
      hentry]
    exact one_ne_zero
  have hcard := Finset.card_le_card hsubset
  unfold SeenByMajority
  omega

/-- `deliver_lcb` is called for `msg`. -/
theorem NetInv.passUp {msg : UrbMsg} {d' : NetData} (hpass : PassedUp d msg d')
    (hbroadcast : Broadcast cfg (withData W p d) msg.seenId msg.lcbMsg)
    (hseen : Seen d msg.seenId) : NetInv cfg (withData W p d') ∧ d.Grows d' := by
  have hgrows := hpass.grows
  refine ⟨?_, hgrows⟩
  obtain ⟨hmajority, hnot, hsize, lcb, hsame, rfl⟩ := hpass
  refine (h.setLcb hp hsame).change hp (.of_eq rfl (seen_deliver hsize) rfl rfl rfl)
    (fun hold => { hold with seen := fun k hk => hold.seen k ((seen_deliver hsize k).mp hk) })
    fun hin hold => { hold with
      deliveredLcb := fun msg' hmem => ?_, deliveredLcbOnce := ?_, delivered := fun k hk => ?_ }
  · rw [isDeliveredUrb_deliver hsize]
    rcases List.mem_append.mp hmem with hmem | hmem
    · obtain ⟨hmsg, hmost, hdelivered⟩ := hold.deliveredLcb msg' hmem
      exact ⟨hmsg, hmost, .inr hdelivered⟩
    · rw [List.mem_singleton.mp hmem]
      have hmost := h.majority hp (hin.anti (grows_withData hgrows)) hseen hmajority
      exact ⟨hbroadcast.mono (grows_withData hgrows), hmost.mono (grows_withData hgrows), .inl rfl⟩
  · show ((d.deliveredLcb ++ [msg]).map UrbMsg.seenId).Nodup
    rw [List.map_append, List.nodup_append]
    refine ⟨hold.deliveredLcbOnce, List.nodup_singleton _, fun k hk j hj heq => ?_⟩
    obtain ⟨msg', hmem, rfl⟩ := List.mem_map.mp hk
    rw [List.map_singleton, List.mem_singleton] at hj
    exact (hold.deliveredLcb msg' hmem).2.2 (by rw [heq, hj]; exact hnot)
  · show k ∈ (d.deliveredLcb ++ [msg]).map UrbMsg.seenId
    rw [List.map_append, List.mem_append]
    rcases (isDeliveredUrb_deliver hsize k).mp hk with rfl | hk
    · exact .inr (List.mem_singleton_self _)
    · exact .inl (hold.delivered k hk)

end

/-! ### A message that arrives -/

/-- The process `p` gets the message `m` of a task that the sender of `m` has
enqueued for it. -/
structure Arrives (cfg : Membership) (W : ℕ → NetData) (p : ℕ) (m : Msg) : Prop where
  isPid : cfg.IsPid m.sender
  task : ⟨p, m⟩ ∈ (W m.sender).enqueued
  taskOf : TaskOf cfg W m.sender ⟨p, m⟩

theorem Arrives.mono {W' : ℕ → NetData} (hgrows : ∀ q, (W q).Grows (W' q)) {m : Msg}
    (h : Arrives cfg W p m) : Arrives cfg W' p m :=
  ⟨h.isPid, (hgrows m.sender).enqueued h.task, h.taskOf.mono hgrows⟩

/-- A datagram that is no acknowledgement is the message of a task of its sender. -/
theorem NetInv.arrives (h : NetInv cfg W) {r : ℕ} {msg : Msg} (hr : cfg.IsPid r)
    (hsent : (p, msg) ∈ (W r).sent) (hmtype : msg.mtype ≠ ackNo) : Arrives cfg W p msg := by
  rcases (h.data r hr).sent p msg hsent with ⟨hmem, -⟩ | hack
  · have htask := (h.data r hr).enqueued _ hmem
    have hsender : msg.sender = r := htask.sender
    exact ⟨hsender.symm ▸ hr, hsender.symm ▸ hmem, hsender.symm ▸ htask⟩
  · exact absurd hack.mtype hmtype

section

variable {m : Msg} (h : NetInv cfg (withData W p d)) (hp : cfg.IsPid p)
  (hm : Arrives cfg (withData W p d) p m)
include h hp hm

/-- `deliver_beb` is called. -/
theorem NetInv.deliverBeb {table : UidTable} (hwritten : d.plDelivered.Written m.mid table)
    (hnot : isDelivered d m.mid = 0) :
    NetInv cfg (withData W p { d with
      plDelivered := table, deliveredBeb := d.deliveredBeb ++ [m] }) := by
  have hgrows : d.Grows { d with plDelivered := table, deliveredBeb := d.deliveredBeb ++ [m] } :=
    ⟨List.prefix_refl _, fun _ => id, List.Subset.refl _, List.Subset.refl _,
      List.subset_append_left ..⟩
  refine h.change hp hgrows (fun hold => { hold with }) fun hin hold => ?_
  have hrow := (hin.anti (grows_withData hgrows)).rowId hm.isPid hm.taskOf.genuine.seen hm.isPid
  have hmid : m.mid = rowId cfg.numProc m.urbMsg.seenId m.sender := hm.taskOf.mid.trans hrow.1
  have hsize : m.mid < d.plDelivered.totalEntries := by
    rw [hold.plDeliveredTotal, hmid]
    exact hrow.2
  -- The row of the copy names the message and its sender, so it is recorded for no other copy.
  obtain rfl := hwritten.eq_record hsize
  refine { hold with
    plDelivered := fun t r hr hread => ?_
    deliveredBeb := fun m' hmem => ?_
    deliveredBebOnce := ?_ }
  · rw [tableReadEntry_record hsize] at hread
    split at hread
    · obtain ⟨rfl, rfl⟩ := rowId_inj hr hm.isPid (by rw [← hmid]; assumption)
      exact ⟨m, List.mem_append_right _ (List.mem_singleton_self m), rfl, rfl⟩
    · obtain ⟨m', hmem, hm'⟩ := hold.plDelivered t r hr hread
      exact ⟨m', List.mem_append_left _ hmem, hm'⟩
  · rw [tableReadEntry_record hsize]
    rcases List.mem_append.mp hmem with hmem | hmem
    · obtain ⟨hpid, htask, hread⟩ := hold.deliveredBeb m' hmem
      refine ⟨hpid, htask, ?_⟩
      split
      · exact one_ne_zero
      · exact hread
    · rw [List.mem_singleton.mp hmem, if_pos hmid.symm]
      exact ⟨hm.isPid, (grows_withData hgrows m.sender).enqueued hm.task, one_ne_zero⟩
  · show ((d.deliveredBeb ++ [m]).map fun m => (m.sender, m.urbMsg.seenId)).Nodup
    rw [List.map_append, List.nodup_append]
    refine ⟨hold.deliveredBebOnce, List.nodup_singleton _, fun key hkey key' hkey' heq => ?_⟩
    obtain ⟨m', hmem, rfl⟩ := List.mem_map.mp hkey
    rw [List.map_singleton, List.mem_singleton] at hkey'
    obtain ⟨hsender, hid⟩ := Prod.mk.inj (heq.trans hkey')
    -- A second delivery would find the row already set.
    have hread := (hold.deliveredBeb m' hmem).2.2
    rw [hsender, hid, ← hmid] at hread
    exact hread hnot

/-- The acknowledgement of a message that has arrived is sent. -/
theorem NetInv.sendAck :
    NetInv cfg (withData W p { d with sent := d.sent ++ [(m.sender, ackMsg p m)] }) := by
  have hgrows := NetData.Grows.of_send d m.sender (ackMsg p m)
  have hseen := (grows_withData hgrows m.sender).seen _ hm.taskOf.genuine.seen
  refine h.change hp hgrows (fun hold => { hold with sent := fun dest msg hmem => ?_ })
    fun _ hold => { hold with }
  rcases List.mem_append.mp hmem with hmem | hmem
  · exact hold.sent dest msg hmem
  · obtain ⟨rfl, rfl⟩ := Prod.mk.inj (List.mem_singleton.mp hmem)
    exact .inr ⟨rfl, hm.isPid, _, hseen, hm.taskOf.ackid.trans (by rw [Nat.mul_comm])⟩

/-- A write of the delivered table that does not end changes nothing that is
relied on, because it does not happen inside the tables. -/
theorem NetInv.stuckDelivered (table : UidTable) (hsize : d.plDelivered.totalEntries ≤ m.mid) :
    ¬ InTables cfg (withData W p d) ∧
      NetInv cfg (withData W p { d with plDelivered := table }) := by
  have hout : ¬ InTables cfg (withData W p d) := by
    intro hin
    have hrow := hin.rowId hm.isPid hm.taskOf.genuine.seen hm.isPid
    have hmid : m.mid = rowId cfg.numProc m.urbMsg.seenId m.sender := hm.taskOf.mid.trans hrow.1
    rw [(h.safeSelf hp hin).plDeliveredTotal, hmid] at hsize
    exact absurd hrow.2 (not_lt.mpr hsize)
  have hgrows : d.Grows { d with plDelivered := table } := .of_eq rfl (fun _ => Iff.rfl) rfl rfl rfl
  exact ⟨hout, h.change hp hgrows (fun hold => { hold with })
    fun hin => absurd (hin.anti (grows_withData hgrows)) hout⟩

end

end Changes

end CausalBroadcast
