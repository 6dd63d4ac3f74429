import CausalBroadcast.Model.Fifo
import CausalBroadcast.Model.Queue
import CausalBroadcast.Model.Tables

/-!
# Growth with allocations that can fail

The operations of the task queue and of the tables, where `calloc` and `realloc` may
return the null pointer.  All four growth routines store what the allocation returns in
the only pointer to the block before they test it.  `Nullable σ` is the structure with
that pointer; while it is null, the data of the block mean nothing, and an operation
that goes to them ends in `undefined`.

`alloc k` says whether the `k`-th allocation of a call succeeds.  Where all do, the
operations are the ones of `Queue`, `Tables` and `Fifo` (`tableWriteEntry_present`,
`enqueue_present`).
-/

namespace CausalBroadcast

/-- A structure whose pointer to its elements may be null. -/
structure Nullable (σ : Type) where
  isNull : Bool
  data : σ

namespace Nullable

variable {σ Task : Type} [Inhabited Task]

/-- A call on the data. -/
def onData {α : Type} (call : Call ErrorCode σ α) : Call ErrorCode (Nullable σ) α :=
  Call.on Nullable.data (fun table data => { table with data := data }) call

/-- The allocation has returned null, and the pointer was overwritten with it. -/
def loseBlock : Call ErrorCode (Nullable σ) Unit := do
  Call.modify fun table => { table with isNull := true }
  Call.fail .memory

/-- The allocation has returned a block. -/
def newBlock : Call ErrorCode (Nullable σ) Unit :=
  Call.modify fun table => { table with isNull := false }

/-! ## The task queue -/

/-- `realloc_queue`: the loop copies from the old block, which a null pointer has not. -/
def reallocQueue (calloc : Bool) : Call ErrorCode (Nullable (MsgQueue Task)) Unit := do
  let old ← Call.state
  if calloc then
    if old.isNull ∧ 0 < old.data.noElem then
      Call.undef
    else do
      newBlock
      onData CausalBroadcast.reallocQueue
  else
    loseBlock

/-- `enqueue`, from the test of the pointer on. -/
def enqueueChecked (task : Task) : Call ErrorCode (Nullable (MsgQueue Task)) Unit := do
  let queue ← Call.state
  if queue.isNull then
    Call.fail .memory
  else
    onData (insertBack task)

/-- `enqueue`. -/
def enqueue (calloc : Bool) (task : Task) : Call ErrorCode (Nullable (MsgQueue Task)) Unit := do
  let queue ← Call.state
  if queue.data.noElem = queue.data.qsize then do
    reallocQueue calloc
    enqueueChecked task
  else
    enqueueChecked task

/-- `dequeue`. -/
def dequeue : Call ErrorCode (Nullable (MsgQueue Task)) (Option Task) := do
  let queue ← Call.state
  if queue.data.noElem = 0 then
    pure none
  else if queue.isNull then
    Call.undef
  else
    onData CausalBroadcast.dequeue

/-! ## The uid table -/

/-- One round of the loop of `table_write_entry`.  From a null pointer `realloc` makes a new
block, with nothing of the old entries. -/
def growTable (alloc : Bool) (junk : ℕ → ℕ → ℕ) : Call ErrorCode (Nullable UidTable) Unit := do
  let table ← Call.state
  if alloc then do
    if table.isNull then
      Call.modify fun table => { table with data := { table.data with
        entries := fun k => u32 (junk table.data.totalEntries k) } }
    else
      pure ()
    newBlock
    onData (CausalBroadcast.growTable junk)
  else
    loseBlock

/-- The loop of `table_write_entry`, and the ones of the other tables: `grow` as long as the
entry is outside. -/
def growTo {σ : Type} (totalEntries : σ → ℕ) (grow : Bool → Call ErrorCode (Nullable σ) Unit)
    (entryId : ℕ) : ℕ → (ℕ → Bool) → Call ErrorCode (Nullable σ) Unit
  | 0, _ => do
      let table ← Call.state
      if totalEntries table.data ≤ entryId then Call.outOfRounds else pure ()
  | rounds + 1, alloc => do
      let table ← Call.state
      if totalEntries table.data ≤ entryId then do
        grow (alloc 0)
        growTo totalEntries grow entryId rounds fun k => alloc (k + 1)
      else
        pure ()

/-- The assignment behind the loop of a table. -/
def storeIn {σ : Type} (change : σ → σ) : Call ErrorCode (Nullable σ) Unit := do
  let table ← Call.state
  if table.isNull then
    Call.undef
  else
    onData (Call.modify change)

/-- `table_write_entry`. -/
def tableWriteEntry (alloc : ℕ → Bool) (rounds : ℕ) (junk : ℕ → ℕ → ℕ) (mid value : ℕ) :
    Call ErrorCode (Nullable UidTable) Unit :=
  if maxSize < mid then
    Call.fail .table
  else do
    growTo UidTable.totalEntries (fun alloc => growTable alloc junk) mid rounds alloc
    storeIn fun table => { table with entries := Function.update table.entries mid value }

/-- `table_read_entry`; `none` is a read through the null pointer. -/
def tableReadEntry (table : Nullable UidTable) (mid : ℕ) : Option ℕ :=
  if table.data.totalEntries ≤ mid then some 0
  else if table.isNull then none
  else some (table.data.entries mid)

/-! ## The urb table -/

/-- `realloc_table`. -/
def reallocTable (alloc : Bool) : Call ErrorCode (Nullable UrbTable) Unit :=
  if alloc then do
    newBlock
    onData CausalBroadcast.reallocTable
  else
    loseBlock

/-- What `add_seen_urb` and `add_delivered_urb` share. -/
def addUrb (alloc : ℕ → Bool) (rounds seenId : ℕ) (mark : UrbEntry → UrbEntry) :
    Call ErrorCode (Nullable UrbTable) Unit :=
  if maxSizeUrb < seenId then
    Call.fail .table
  else do
    growTo UrbTable.totalEntries reallocTable seenId rounds alloc
    storeIn fun table => { table with
      values := Function.update table.values seenId (mark (table.values seenId)) }

/-- `add_delivered_urb`. -/
def addDeliveredUrb (alloc : ℕ → Bool) (rounds seenId : ℕ) :
    Call ErrorCode (Nullable UrbTable) Unit :=
  addUrb alloc rounds seenId .deliver

/-- `add_seen_urb`. -/
def addSeenUrb (alloc : ℕ → Bool) (rounds seenId : ℕ) :
    Call ErrorCode (Nullable UrbTable) Unit :=
  addUrb alloc rounds seenId .see

/-- `is_seen_urb` and `is_delivered_urb`; `none` is a read through the null pointer. -/
def readUrb (table : Nullable UrbTable) (seenId : ℕ) : Option UrbEntry :=
  if table.data.totalEntries ≤ seenId then some ⟨0, 0⟩
  else if table.isNull then none
  else some (table.data.values seenId)

/-! ## The pending table -/

/-- `realloc_pending`. -/
def reallocPending (alloc : Bool) : Call ErrorCode (Nullable PendingTable) Unit :=
  if alloc then do
    newBlock
    onData CausalBroadcast.reallocPending
  else
    loseBlock

/-- `add_pending`. -/
def addPending (alloc : ℕ → Bool) (rounds seenId value : ℕ) :
    Call ErrorCode (Nullable PendingTable) Unit :=
  if maxSizePending < seenId then
    Call.fail .table
  else do
    growTo PendingTable.totalEntries reallocPending seenId rounds alloc
    storeIn fun pending => { pending with bol := Function.update pending.bol seenId value }

/-- `get_pending`; `none` is a read through the null pointer. -/
def getPending (pending : Nullable PendingTable) (seenId : ℕ) : Option ℕ :=
  if pending.data.totalEntries ≤ seenId then some 0
  else if pending.isNull then none
  else some (pending.data.bol seenId)

/-! ## The branches of `enqueue` -/

section Enqueue

variable {queue : Nullable (MsgQueue Task)}

theorem enqueue_of_full (calloc : Bool) (task : Task)
    (hfull : queue.data.noElem = queue.data.qsize) :
    enqueue calloc task queue =
      (reallocQueue calloc queue).andThen fun _ => enqueueChecked task := by
  simp [enqueue, hfull]

theorem enqueue_of_room (calloc : Bool) (task : Task)
    (hroom : queue.data.noElem ≠ queue.data.qsize) :
    enqueue calloc task queue = enqueueChecked task queue := by
  simp [enqueue, hroom]

end Enqueue

/-! ## When all allocations succeed -/

section Succeed

variable {totalEntries : σ → ℕ} {grow : Bool → Call ErrorCode (Nullable σ) Unit}
  {entryId : ℕ}

/-- The structure with its block. -/
def present (data : σ) : Nullable σ := ⟨false, data⟩

@[simp] theorem data_present (data : σ) : (present data).data = data := rfl

@[simp] theorem isNull_present (data : σ) : (present data).isNull = false := rfl

theorem growTo_present (grow' : Call ErrorCode σ Unit) (loop' : ℕ → Call ErrorCode σ Unit)
    (hzero : ∀ data, loop' 0 data =
      if totalEntries data ≤ entryId then .running data else .ok () data)
    (hsucc : ∀ rounds data, loop' (rounds + 1) data =
      if totalEntries data ≤ entryId then (grow' data).andThen fun _ => loop' rounds
      else .ok () data)
    (hgrow : ∀ data, grow true (present data) = (grow' data).mapState present) (rounds : ℕ)
    (data : σ) : growTo totalEntries grow entryId rounds (fun _ => true) (present data) =
      (loop' rounds data).mapState present := by
  induction rounds generalizing data with
  | zero =>
      rw [growTo, hzero]
      by_cases hout : totalEntries data ≤ entryId
      · simp [present, hout]
      · simp [present, hout]
  | succ rounds ih =>
      rw [growTo, hsucc, Call.bind_apply, Call.state_apply, Outcome.ok_andThen]
      by_cases hout : totalEntries data ≤ entryId
      · have hround : (grow true >>= fun _ => growTo totalEntries grow entryId rounds
            fun _ => true) (present data) =
            ((grow' data).andThen fun _ => loop' rounds).mapState present := by
          rw [Call.bind_apply, hgrow]
          cases grow' data with
          | ok value data' => exact ih data'
          | error code data' => rfl
          | running data' => rfl
          | undefined => rfl
        simpa [present, hout] using hround
      · simp [present, hout]

theorem storeIn_present (change : σ → σ) (data : σ) :
    storeIn change (present data) = .ok () (present (change data)) := by
  simp [storeIn, present, onData]

/-- A loop and the assignment behind it, as all three tables have them. -/
theorem growTo_storeIn_present {grown : Call ErrorCode σ Unit} (change : σ → σ) {rounds : ℕ}
    {data : σ} (hgrow : growTo totalEntries grow entryId rounds (fun _ => true) (present data) =
      (grown data).mapState present) :
    (growTo totalEntries grow entryId rounds (fun _ => true) >>= fun _ => storeIn change)
        (present data) =
      ((grown >>= fun _ => Call.modify change) data).mapState present := by
  rw [Call.bind_apply, hgrow, Call.bind_apply]
  cases grown data with
  | ok value data' => exact storeIn_present change data'
  | error code data' => rfl
  | running data' => rfl
  | undefined => rfl

theorem tableWriteEntry_present (rounds : ℕ) (junk : ℕ → ℕ → ℕ) (mid value : ℕ) (table : UidTable) :
    tableWriteEntry (fun _ => true) rounds junk mid value (present table) =
      (CausalBroadcast.tableWriteEntry rounds junk mid value table).mapState present := by
  unfold tableWriteEntry CausalBroadcast.tableWriteEntry
  by_cases hcap : maxSize < mid
  · rw [if_pos hcap, if_pos hcap]
    rfl
  · rw [if_neg hcap, if_neg hcap]
    refine growTo_storeIn_present _ (growTo_present (CausalBroadcast.growTable junk)
      (growTableTo junk mid) (fun table => ?_) (fun rounds table => ?_) (fun table => rfl)
      rounds table)
    · simp [growTableTo]
    · simp [growTableTo]

theorem addUrb_present (rounds seenId : ℕ) (mark : UrbEntry → UrbEntry) (table : UrbTable) :
    addUrb (fun _ => true) rounds seenId mark (present table) =
      (CausalBroadcast.addUrb rounds seenId mark table).mapState present := by
  unfold addUrb CausalBroadcast.addUrb
  by_cases hcap : maxSizeUrb < seenId
  · rw [if_pos hcap, if_pos hcap]
    rfl
  · rw [if_neg hcap, if_neg hcap]
    refine growTo_storeIn_present _ (growTo_present CausalBroadcast.reallocTable
      (reallocTableTo seenId) (fun table => ?_) (fun rounds table => ?_) (fun table => rfl)
      rounds table)
    · simp [reallocTableTo]
    · simp [reallocTableTo]

theorem addPending_present (rounds seenId value : ℕ) (pending : PendingTable) :
    addPending (fun _ => true) rounds seenId value (present pending) =
      (CausalBroadcast.addPending rounds seenId value pending).mapState present := by
  unfold addPending CausalBroadcast.addPending
  by_cases hcap : maxSizePending < seenId
  · rw [if_pos hcap, if_pos hcap]
    rfl
  · rw [if_neg hcap, if_neg hcap]
    refine growTo_storeIn_present _ (growTo_present CausalBroadcast.reallocPending
      (reallocPendingTo seenId) (fun pending => ?_) (fun rounds pending => ?_)
      (fun pending => rfl) rounds pending)
    · simp [reallocPendingTo]
    · simp [reallocPendingTo]

theorem reallocQueue_present (queue : MsgQueue Task) :
    reallocQueue true (present queue) =
      (CausalBroadcast.reallocQueue queue).mapState present := by
  simp only [reallocQueue, present, newBlock, Call.bind_apply, Call.state_apply,
    Outcome.ok_andThen, Call.ite_apply, Bool.false_eq_true, false_and, if_true, if_false,
    Call.modify_apply]
  rfl

theorem enqueue_present (task : Task) (queue : MsgQueue Task) :
    enqueue true task (present queue) =
      (CausalBroadcast.enqueue task queue).mapState present := by
  have hinsert : ∀ queue : MsgQueue Task, enqueueChecked task (present queue) =
      (insertBack task queue).mapState present := fun queue => rfl
  by_cases hfull : queue.noElem = queue.qsize
  · have hrun : CausalBroadcast.enqueue task queue =
        (CausalBroadcast.reallocQueue queue).andThen fun _ => insertBack task := by
      simp [CausalBroadcast.enqueue, hfull]
    rw [enqueue_of_full true task hfull, reallocQueue_present, hrun]
    cases CausalBroadcast.reallocQueue queue with
    | ok value queue' => exact hinsert queue'
    | error code queue' => rfl
    | running queue' => rfl
    | undefined => rfl
  · have hrun : CausalBroadcast.enqueue task queue = insertBack task queue := by
      simp [CausalBroadcast.enqueue, hfull]
    rw [enqueue_of_room true task hfull, hinsert, hrun]

omit [Inhabited Task] in
theorem dequeue_present (queue : MsgQueue Task) :
    dequeue (present queue) = (CausalBroadcast.dequeue queue).mapState present := by
  by_cases hempty : queue.noElem = 0
  · simp [dequeue, CausalBroadcast.dequeue, present, hempty]
  · simp [dequeue, present, hempty, onData]
    rfl

end Succeed

end Nullable

end CausalBroadcast
