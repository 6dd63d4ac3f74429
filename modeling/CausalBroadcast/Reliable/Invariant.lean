import CausalBroadcast.Reliable.Ids

/-!
# The invariant of the data

The data of all processes, `W : ℕ → NetData`.  Two groups of facts hold between any
two table operations:

* `DataInv`: what is broadcast, enqueued and sent comes from messages that their
  origins passed to `send_urb`, under the ids that the code computes for them;
* `SafeInv`: every entry of the uid tables stands for something that another
  process has done.  This needs the rows of the messages to lie inside the tables
  as they start (`InTables`), because a table that has grown may hold anything.

Both only look at facts of other processes that are never lost (`NetData.Grows`),
so a change of one process is judged on that process (`NetInv.update`).
-/

namespace CausalBroadcast

/-! ## The statements -/

/-- The message `s` is marked seen. -/
def Seen (d : NetData) (s : ℕ) : Prop := isSeenUrb d.urbTable s ≠ 0

instance (d : NetData) (s : ℕ) : Decidable (Seen d s) := inferInstanceAs (Decidable (_ ≠ 0))

/-- `deliver_beb` was called for the copy of `s` that `r` has sent. -/
def DeliveredFrom (d : NetData) (r s : ℕ) : Prop :=
  ∃ m ∈ d.deliveredBeb, m.sender = r ∧ m.urbMsg.seenId = s

/-- The process `q`, whose data is `d`, has acknowledged the copy of `s` that `r` has
sent. -/
def Acknowledged (cfg : Membership) (d : NetData) (q r s : ℕ) : Prop :=
  ∃ msg, (r, msg) ∈ d.sent ∧ msg.mtype = ackNo ∧ msg.ackid = rowId cfg.numProc s q

/-- The message `s` has been passed to `deliver_lcb`. -/
def DeliveredLcb (d : NetData) (s : ℕ) : Prop := s ∈ d.deliveredLcb.map UrbMsg.seenId

section Statements

variable (cfg : Membership) (W : ℕ → NetData)

/-- The origin of `lcbMsg` has passed it to `send_urb`, with the id `s`. -/
structure Broadcast (s : ℕ) (lcbMsg : LcbMsg) : Prop where
  isPid : cfg.IsPid lcbMsg.originalSender
  le : s ≤ maxSizeUrb
  sent : ∃ i, 1 ≤ i ∧ (W lcbMsg.originalSender).sentUrb[i - 1]? = some lcbMsg ∧
    s = seenIdOf cfg.numProc i lcbMsg.originalSender

/-- A message as `r` hands it to `send_beb`. -/
structure Genuine (r : ℕ) (msg : UrbMsg) : Prop where
  seen : Seen (W r) msg.seenId
  broadcast : Broadcast cfg W msg.seenId msg.lcbMsg
  mid : msg.mid = u32 (cfg.numProc * msg.seenId + r - 1)
  mid_le : msg.mid ≤ maxSize

/-- A task of `r`. -/
structure TaskOf (r : ℕ) (task : QueueTask) : Prop where
  isPid : cfg.IsPid task.pidDest
  ne : task.pidDest ≠ r
  genuine : Genuine cfg W r task.msg.urbMsg
  eq : task = bebTask cfg.numProc r task.msg.urbMsg task.pidDest

/-- An acknowledgement of `r` for `dest`. -/
structure AckOf (r dest : ℕ) (msg : Msg) : Prop where
  mtype : msg.mtype = ackNo
  isPid : cfg.IsPid dest
  answers : ∃ s, Seen (W dest) s ∧ msg.ackid = u32 (s * cfg.numProc + r - 1)

/-- The data of process `p`. -/
structure DataInv (p : ℕ) (d : NetData) : Prop where
  selfPid : d.selfPid = p
  numProc : d.numProc = cfg.numProc
  urbTotal : d.urbTable.totalEntries = urbTotal cfg
  sentUrb : ∀ lcbMsg ∈ d.sentUrb, lcbMsg.originalSender = p
  seen : ∀ s, Seen d s → ∃ lcbMsg, Broadcast cfg W s lcbMsg
  sentBeb : ∀ msg ∈ d.sentBeb, Genuine cfg W p msg
  enqueued : ∀ task ∈ d.enqueued, TaskOf cfg W p task
  queue : d.taskQ.WellFormed
  contents : d.taskQ.contents ⊆ d.enqueued
  sent : ∀ dest msg, (dest, msg) ∈ d.sent →
    (⟨dest, msg⟩ ∈ d.enqueued ∧ msg.mtype ≠ ackNo) ∨ AckOf cfg W p dest msg

/-- The rows of the messages that some process has marked seen lie inside the uid
tables as they start. -/
def InTables : Prop :=
  ∀ p, cfg.IsPid p → ∀ s, Seen (W p) s → cfg.numProc * s + cfg.numProc ≤ uidTotal cfg

/-- More than half of the processes have marked `s` seen. -/
def SeenByMajority (s : ℕ) : Prop :=
  cfg.numProc < 2 * ((Finset.Icc 1 cfg.numProc).filter fun q => Seen (W q) s).card

/-- What the tables of process `p` stand for. -/
structure SafeInv (p : ℕ) (d : NetData) : Prop where
  plAcksTotal : d.plAcks.totalEntries = uidTotal cfg
  plDeliveredTotal : d.plDelivered.totalEntries = uidTotal cfg
  urbacksTotal : d.urbacks.totalEntries = uidTotal cfg
  urbacksProcess : d.urbacks.noProcess = cfg.numProc
  urbacks : ∀ s q, cfg.IsPid q →
    tableReadEntry d.urbacks (rowId cfg.numProc s q) ≠ 0 → Seen (W q) s
  plAcks : ∀ s q, cfg.IsPid q →
    tableReadEntry d.plAcks (rowId cfg.numProc s q) ≠ 0 → Acknowledged cfg (W q) q p s
  plDelivered : ∀ s r, cfg.IsPid r →
    tableReadEntry d.plDelivered (rowId cfg.numProc s r) ≠ 0 → DeliveredFrom d r s
  deliveredBeb : ∀ m ∈ d.deliveredBeb, cfg.IsPid m.sender ∧ ⟨p, m⟩ ∈ (W m.sender).enqueued ∧
    tableReadEntry d.plDelivered (rowId cfg.numProc m.urbMsg.seenId m.sender) ≠ 0
  deliveredBebOnce : (d.deliveredBeb.map fun m => (m.sender, m.urbMsg.seenId)).Nodup
  deliveredLcb : ∀ msg ∈ d.deliveredLcb, Broadcast cfg W msg.seenId msg.lcbMsg ∧
    SeenByMajority cfg W msg.seenId ∧ isDeliveredUrb d.urbTable msg.seenId ≠ 0
  deliveredLcbOnce : (d.deliveredLcb.map UrbMsg.seenId).Nodup
  delivered : ∀ s, isDeliveredUrb d.urbTable s ≠ 0 → DeliveredLcb d s

/-- The invariant of the data. -/
structure NetInv : Prop where
  data : ∀ p, cfg.IsPid p → DataInv cfg W p (W p)
  safe : InTables cfg W → ∀ p, cfg.IsPid p → SafeInv cfg W p (W p)

end Statements

/-! ## Facts that are never lost -/

/-- What other processes may rely on. -/
structure NetData.Grows (d d' : NetData) : Prop where
  sentUrb : d.sentUrb <+: d'.sentUrb
  seen : ∀ s, Seen d s → Seen d' s
  enqueued : d.enqueued ⊆ d'.enqueued
  sent : d.sent ⊆ d'.sent
  deliveredBeb : d.deliveredBeb ⊆ d'.deliveredBeb

theorem NetData.Grows.refl (d : NetData) : d.Grows d :=
  ⟨List.prefix_refl _, fun _ => id, List.Subset.refl _, List.Subset.refl _, List.Subset.refl _⟩

theorem NetData.Grows.trans {d d' d'' : NetData} (h : d.Grows d') (h' : d'.Grows d'') :
    d.Grows d'' :=
  ⟨h.sentUrb.trans h'.sentUrb, fun s hs => h'.seen s (h.seen s hs),
    List.Subset.trans h.enqueued h'.enqueued, List.Subset.trans h.sent h'.sent,
    List.Subset.trans h.deliveredBeb h'.deliveredBeb⟩

theorem NetData.Grows.deliveredFrom {d d' : NetData} (h : d.Grows d') {r s : ℕ} :
    DeliveredFrom d r s → DeliveredFrom d' r s :=
  fun ⟨m, hmem, hm⟩ => ⟨m, h.deliveredBeb hmem, hm⟩

theorem NetData.Grows.acknowledged {cfg : Membership} {d d' : NetData} (h : d.Grows d')
    {q r s : ℕ} : Acknowledged cfg d q r s → Acknowledged cfg d' q r s :=
  fun ⟨msg, hmem, hmsg⟩ => ⟨msg, h.sent hmem, hmsg⟩

section Mono

variable {cfg : Membership} {W W' : ℕ → NetData} (hgrows : ∀ p, (W p).Grows (W' p))
include hgrows

theorem Broadcast.mono {s : ℕ} {lcbMsg : LcbMsg} (h : Broadcast cfg W s lcbMsg) :
    Broadcast cfg W' s lcbMsg := by
  obtain ⟨i, hi, hsent, hs⟩ := h.sent
  obtain ⟨rest, hrest⟩ := (hgrows lcbMsg.originalSender).sentUrb
  refine ⟨h.isPid, h.le, i, hi, ?_, hs⟩
  rw [← hrest, List.getElem?_append_left (List.getElem?_eq_some_iff.mp hsent).1]
  exact hsent

theorem Genuine.mono {r : ℕ} {msg : UrbMsg} (h : Genuine cfg W r msg) : Genuine cfg W' r msg :=
  ⟨(hgrows r).seen _ h.seen, h.broadcast.mono hgrows, h.mid, h.mid_le⟩

theorem TaskOf.mono {r : ℕ} {task : QueueTask} (h : TaskOf cfg W r task) : TaskOf cfg W' r task :=
  ⟨h.isPid, h.ne, h.genuine.mono hgrows, h.eq⟩

theorem AckOf.mono {r dest : ℕ} {msg : Msg} (h : AckOf cfg W r dest msg) :
    AckOf cfg W' r dest msg :=
  ⟨h.mtype, h.isPid, let ⟨s, hseen, hid⟩ := h.answers; ⟨s, (hgrows dest).seen s hseen, hid⟩⟩

theorem DataInv.mono {p : ℕ} {d : NetData} (h : DataInv cfg W p d) : DataInv cfg W' p d :=
  { h with
    seen := fun s hs => let ⟨lcbMsg, hbroadcast⟩ := h.seen s hs; ⟨lcbMsg, hbroadcast.mono hgrows⟩
    sentBeb := fun msg hmsg => (h.sentBeb msg hmsg).mono hgrows
    enqueued := fun task htask => (h.enqueued task htask).mono hgrows
    sent := fun dest msg hmem => (h.sent dest msg hmem).imp_right (AckOf.mono hgrows) }

theorem SeenByMajority.mono {s : ℕ} (h : SeenByMajority cfg W s) : SeenByMajority cfg W' s := by
  have hcard : ((Finset.Icc 1 cfg.numProc).filter fun q => Seen (W q) s).card ≤
      ((Finset.Icc 1 cfg.numProc).filter fun q => Seen (W' q) s).card :=
    Finset.card_le_card (Finset.monotone_filter_right _ fun q _ => (hgrows q).seen s)
  unfold SeenByMajority at *
  omega

theorem SafeInv.mono {p : ℕ} {d : NetData} (h : SafeInv cfg W p d) : SafeInv cfg W' p d :=
  { h with
    urbacks := fun s q hq hread => (hgrows q).seen s (h.urbacks s q hq hread)
    plAcks := fun s q hq hread => (hgrows q).acknowledged (h.plAcks s q hq hread)
    deliveredBeb := fun m hm =>
      let ⟨hpid, htask, hread⟩ := h.deliveredBeb m hm
      ⟨hpid, (hgrows m.sender).enqueued htask, hread⟩
    deliveredLcb := fun msg hmsg =>
      let ⟨hbroadcast, hmajority, hdelivered⟩ := h.deliveredLcb msg hmsg
      ⟨hbroadcast.mono hgrows, hmajority.mono hgrows, hdelivered⟩ }

theorem InTables.anti (h : InTables cfg W') : InTables cfg W :=
  fun p hp s hs => h p hp s ((hgrows p).seen s hs)

end Mono

/-! ## A change of one process -/

/-- The data of all processes, with `d` for process `p`. -/
def withData (W : ℕ → NetData) (p : ℕ) (d : NetData) : ℕ → NetData := Function.update W p d

@[simp] theorem withData_self (W : ℕ → NetData) (p : ℕ) (d : NetData) : withData W p d p = d :=
  Function.update_self ..

theorem withData_of_ne (W : ℕ → NetData) {p q : ℕ} (d : NetData) (h : q ≠ p) :
    withData W p d q = W q :=
  Function.update_of_ne h ..

@[simp] theorem withData_eq_self (W : ℕ → NetData) (p : ℕ) : withData W p (W p) = W :=
  Function.update_eq_self ..

section Update

variable {cfg : Membership} {W : ℕ → NetData} {p : ℕ} {d d' : NetData}

theorem grows_withData (hgrows : d.Grows d') :
    ∀ q, (withData W p d q).Grows (withData W p d' q) := by
  intro q
  by_cases hqp : q = p
  · rw [hqp, withData_self, withData_self]
    exact hgrows
  · rw [withData_of_ne W d hqp, withData_of_ne W d' hqp]
    exact .refl _

theorem NetInv.dataSelf (h : NetInv cfg (withData W p d)) (hp : cfg.IsPid p) :
    DataInv cfg (withData W p d) p d := by
  have hdata := h.data p hp
  rwa [withData_self] at hdata

theorem NetInv.safeSelf (h : NetInv cfg (withData W p d)) (hp : cfg.IsPid p)
    (hin : InTables cfg (withData W p d)) : SafeInv cfg (withData W p d) p d := by
  have hsafe := h.safe hin p hp
  rwa [withData_self] at hsafe

/-- Only the process that changes has to be looked at. -/
theorem NetInv.change (h : NetInv cfg (withData W p d)) (hp : cfg.IsPid p) (hgrows : d.Grows d')
    (hdata : DataInv cfg (withData W p d') p d → DataInv cfg (withData W p d') p d')
    (hsafe : InTables cfg (withData W p d') → SafeInv cfg (withData W p d') p d →
      SafeInv cfg (withData W p d') p d') : NetInv cfg (withData W p d') where
  data q hq := by
    by_cases hqp : q = p
    · rw [hqp, withData_self]
      exact hdata ((h.dataSelf hp).mono (grows_withData hgrows))
    · have hold := h.data q hq
      rw [withData_of_ne W _ hqp] at hold ⊢
      exact hold.mono (grows_withData hgrows)
  safe hin q hq := by
    have hin' := hin.anti (grows_withData hgrows)
    by_cases hqp : q = p
    · rw [hqp, withData_self]
      exact hsafe hin ((h.safeSelf hp hin').mono (grows_withData hgrows))
    · have hold := h.safe hin' q hq
      rw [withData_of_ne W _ hqp] at hold ⊢
      exact hold.mono (grows_withData hgrows)

end Update

end CausalBroadcast
