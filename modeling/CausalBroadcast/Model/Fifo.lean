import CausalBroadcast.Reliable.Ids

/-!
# The FIFO layer

`fifo.c`: messages of one origin are delivered in the order of their numbers.  The
pending table has a flag for every message that has been received, and the next
table counts the deliveries of each origin.

`realloc_pending` gives `realloc` a number of elements, of four bytes each, as a
number of bytes, and then clears memory behind the block.  That ends in
`undefined` (`reallocPending_eq`).
-/

namespace CausalBroadcast

/-- `MAX_SIZE_PENDING` of `fifo.c`. -/
def maxSizePending : ℕ := 1024 * 8

/-! ## The pending table -/

/-- `pending_t`. -/
structure PendingTable where
  noMsgs : ℕ
  noProcess : ℕ
  totalEntries : ℕ
  bol : ℕ → ℕ

abbrev PendingCall := Call ErrorCode PendingTable

/-- `init_pending`. -/
def initPending (noMsgs noProcess : ℕ) : PendingTable where
  noMsgs := noMsgs
  noProcess := noProcess
  totalEntries := u32 (noMsgs * noProcess)
  bol _ := 0

/-- `realloc_pending`: the block has `new_size` bytes afterwards, and `memset`
clears `new_size - old_size` bytes from element `old_size` on. -/
def reallocPending : PendingCall Unit := do
  let pending ← Call.state
  let oldSize := pending.totalEntries
  let newSize := u32 (pending.totalEntries * 2)
  if newSize < 4 * oldSize + u32Sub newSize oldSize then
    Call.undef
  else
    Call.modify fun pending => { pending with
      totalEntries := newSize
      noMsgs := u32 (pending.noMsgs * 2) }

/-- The loop of `add_pending`. -/
def reallocPendingTo (seenId : ℕ) : ℕ → PendingCall Unit
  | 0 => do
      let pending ← Call.state
      if pending.totalEntries ≤ seenId then Call.outOfRounds else pure ()
  | rounds + 1 => do
      let pending ← Call.state
      if pending.totalEntries ≤ seenId then do
        reallocPending
        reallocPendingTo seenId rounds
      else
        pure ()

/-- `add_pending`. -/
def addPending (rounds seenId value : ℕ) : PendingCall Unit :=
  if maxSizePending < seenId then
    Call.fail .table
  else do
    reallocPendingTo seenId rounds
    Call.modify fun pending =>
      { pending with bol := Function.update pending.bol seenId value }

/-- `get_pending`. -/
def getPending (pending : PendingTable) (seenId : ℕ) : ℕ :=
  if pending.totalEntries ≤ seenId then 0 else pending.bol seenId

/-! ## The next table -/

/-- `next_t`. -/
structure NextTable where
  noProcess : ℕ
  entries : List ℕ

/-- `init_next`. -/
def initNext (noProcess : ℕ) : NextTable where
  noProcess := noProcess
  entries := List.replicate noProcess 0

/-- `get_next`, as `deliver_fifo` keeps it in an `unsigned int`; the error code is
not told apart from a number there. -/
def getNext (next : NextTable) (pid : ℕ) : Option ℕ :=
  if next.noProcess < pid then some (2 ^ 32 + ErrorCode.table.toInt).toNat
  else (readEntry next.entries pid).map fun delivered => u32 (delivered + 1)

/-- `incr_next`. -/
def incrNext (pid : ℕ) : Call ErrorCode NextTable Unit := do
  let next ← Call.state
  if next.noProcess < pid then
    Call.fail .table
  else do
    let delivered ← Call.access (readEntry next.entries pid)
    Call.modify fun next =>
      { next with entries := next.entries.set (pid - 1) (u32 (delivered + 1)) }

/-! ## Delivery -/

/-- `fifo_msg_t`. -/
structure FifoMsg where
  sequenceNum : ℕ
  originalSender : ℕ
  deriving DecidableEq

/-- The part of `net_data_t` that `deliver_fifo` works on, with the lines given to
`write_log`. -/
structure FifoData where
  numProc : ℕ
  pending : PendingTable
  next : NextTable
  log : List LogLine

abbrev FifoCall := Call ErrorCode FifoData

/-- The data as `init_data` leaves it; there `noMsgs` is `ORIG_TABLE_SIZE`. -/
def FifoData.initial (cfg : Membership) (noMsgs : ℕ) : FifoData where
  numProc := cfg.numProc
  pending := initPending noMsgs cfg.numProc
  next := initNext cfg.numProc
  log := []

/-- A call on the pending table. -/
def onPending {α : Type} (call : PendingCall α) : FifoCall α :=
  Call.on FifoData.pending (fun data pending => { data with pending := pending }) call

/-- A call on the next table. -/
def onNext {α : Type} (call : Call ErrorCode NextTable α) : FifoCall α :=
  Call.on FifoData.next (fun data next => { data with next := next }) call

/-- The id of the message with the number `sequenceNum`. -/
def fifoId (numProc sequenceNum originalSender : ℕ) : ℕ :=
  u32Sub (numProc * u32Sub sequenceNum 1 + originalSender) 1

/-- `log_deliver` and the line it gives to `write_log`. -/
def logDeliver (msg : FifoMsg) : FifoCall Unit :=
  Call.modify fun data =>
    { data with log := data.log ++ [.deliver msg.originalSender msg.sequenceNum] }

/-- The loop of `deliver_fifo`; the number of the message and `next_idx` are counted
up separately. -/
def deliverNext : ℕ → FifoMsg → ℕ → FifoCall Unit
  | 0, msg, nextIdx => do
      let data ← Call.state
      if getPending data.pending (fifoId data.numProc nextIdx msg.originalSender) = 1 then
        Call.outOfRounds
      else
        pure ()
  | rounds + 1, msg, nextIdx => do
      let data ← Call.state
      if getPending data.pending (fifoId data.numProc nextIdx msg.originalSender) = 1 then do
        onNext (incrNext msg.originalSender)
        onPending (addPending rounds (fifoId data.numProc nextIdx msg.originalSender) 0)
        logDeliver msg
        deliverNext rounds { msg with sequenceNum := u32 (msg.sequenceNum + 1) }
          (u32 (nextIdx + 1))
      else
        pure ()

/-- `deliver_fifo`. -/
def deliverFifo (rounds : ℕ) (msg : FifoMsg) : FifoCall Unit := do
  let data ← Call.state
  onPending (addPending rounds (fifoId data.numProc msg.sequenceNum msg.originalSender) 1)
  let nextIdx ← Call.access (getNext data.next msg.originalSender)
  deliverNext rounds msg nextIdx

/-! ## What the calls on the tables do -/

/-- The table with one flag changed. -/
def PendingTable.set (pending : PendingTable) (seenId value : ℕ) : PendingTable :=
  { pending with bol := Function.update pending.bol seenId value }

section Pending

variable {pending : PendingTable} {seenId : ℕ}

/-- Growing the pending table writes behind its block. -/
theorem reallocPending_eq (hpos : 0 < pending.totalEntries) (hlt : pending.totalEntries < 2 ^ 32) :
    reallocPending pending = .undefined := by
  have hshort : u32 (pending.totalEntries * 2) <
      4 * pending.totalEntries +
        u32Sub (u32 (pending.totalEntries * 2)) pending.totalEntries := by
    unfold u32Sub u32
    omega
  simp [reallocPending, hshort]

theorem addPending_of_lt (rounds value : ℕ) (pending : PendingTable)
    (hcap : seenId ≤ maxSizePending) (hsize : seenId < pending.totalEntries) :
    addPending rounds seenId value pending = .ok () (pending.set seenId value) := by
  have hgrow : reallocPendingTo seenId rounds pending = .ok () pending := by
    cases rounds <;> simp [reallocPendingTo, not_le.mpr hsize]
  simp only [addPending, not_lt.mpr hcap, if_false, Call.bind_apply, hgrow, Outcome.ok_andThen]
  rfl

theorem addPending_of_cap_lt (rounds value : ℕ) (pending : PendingTable)
    (hcap : maxSizePending < seenId) :
    addPending rounds seenId value pending = .error .table pending := by
  simp [addPending, hcap]

theorem addPending_of_le (hpos : 0 < pending.totalEntries) (hlt : pending.totalEntries < 2 ^ 32)
    (rounds value : ℕ) (hcap : seenId ≤ maxSizePending) (hsize : pending.totalEntries ≤ seenId) :
    addPending (rounds + 1) seenId value pending = .undefined := by
  simp [addPending, not_lt.mpr hcap, reallocPendingTo, hsize, reallocPending_eq hpos hlt]

end Pending

theorem getNext_eq {next : NextTable} {pid : ℕ} (hpos : 1 ≤ pid) (hle : pid ≤ next.noProcess)
    (hlength : next.entries.length = next.noProcess) :
    getNext next pid = some (u32 (entry next.entries pid + 1)) := by
  rw [getNext, if_neg (not_lt.mpr hle), readEntry_eq_some hpos (hlength ▸ hle), Option.map_some]

theorem incrNext_eq {next : NextTable} {pid : ℕ} (hpos : 1 ≤ pid) (hle : pid ≤ next.noProcess)
    (hlength : next.entries.length = next.noProcess) : incrNext pid next = .ok ()
      { next with entries := next.entries.set (pid - 1) (u32 (entry next.entries pid + 1)) } := by
  have hread := readEntry_eq_some hpos (hlength ▸ hle : pid ≤ next.entries.length)
  simp [incrNext, not_lt.mpr hle, hread]

/-- Ids below `2 ^ 32` are not truncated. -/
theorem fifoId_eq {numProc i o : ℕ} (hi : 1 ≤ i) (ho : 1 ≤ o)
    (hnum : i < 2 ^ 32) (hlt : seenIdOf numProc i o < 2 ^ 32) :
    fifoId numProc i o = seenIdOf numProc i o := by
  have hnumber : u32Sub i 1 = i - 1 := by
    unfold u32Sub u32
    omega
  unfold fifoId seenIdOf u32Sub u32 at *
  rw [hnumber]
  omega

end CausalBroadcast
