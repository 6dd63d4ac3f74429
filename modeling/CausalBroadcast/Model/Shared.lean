import CausalBroadcast.Library.Mutex
import CausalBroadcast.Model.Allocation
import CausalBroadcast.Model.Log
import CausalBroadcast.Model.Pending

/-!
# What the threads share

The main thread, the receiver and the senders share the task queue, the log, the vector
clock and the ack table of the perfect link.  Each of the four has a mutex, and eight
functions lock one of them.

In the namespace `Locked` are these functions from their `pthread_mutex_lock` on, with an
`unlock` where the source has one.  `return error;` in the middle of a section is the early
return of the call before it: in `enqueue` when `realloc_queue` fails or the pointer is
null, in `write_log` when `write_to_file` fails, and in `get_vec_clock_copy` when
`alloc_vector` fails.  `dequeue` has an `unlock` on both of its ways out, and `set_ack`
keeps the error code until it has unlocked.
-/

namespace CausalBroadcast

/-- The mutexes. -/
inductive Mutex where
  /-- `queue_mutex` of `task_q`. -/
  | queueMutex
  /-- `loglok` of `logdata`. -/
  | loglok
  /-- `mutex` of `vector_clock`. -/
  | clockMutex
  /-- `table_mutex` of `pl_acks`. -/
  | tableMutex
  deriving DecidableEq

/-- The data behind a mutex. -/
@[reducible] def Mutex.Data (Task : Type) : Mutex → Type
  | queueMutex => Nullable (MsgQueue Task)
  | loglok => LogData
  | clockMutex => Lcb
  | tableMutex => Nullable UidTable

/-- A call on data behind its mutex. -/
abbrev GuardedCall (σ α : Type) := Call ErrorCode (Guarded σ) α

/-! ## The functions, from the locking on -/

namespace Locked

variable {Task : Type} [Inhabited Task]

/-- `enqueue`. -/
def enqueue (calloc : Bool) (elem : Task) : GuardedCall (Nullable (MsgQueue Task)) Unit := do
  let queue ← Guarded.read
  if queue.data.noElem = queue.data.qsize then do
    Guarded.inside (Nullable.reallocQueue calloc)
    Guarded.inside (Nullable.enqueueChecked elem)
    Guarded.unlock
  else do
    Guarded.inside (Nullable.enqueueChecked elem)
    Guarded.unlock

/-- `dequeue`; `none` is `EMPTY_QUEUE`. -/
def dequeue : GuardedCall (Nullable (MsgQueue Task)) (Option Task) := do
  let queue ← Guarded.read
  if queue.data.noElem = 0 then do
    Guarded.unlock
    pure none
  else if queue.isNull then
    Call.undef
  else do
    let elem ← Guarded.inside (Nullable.onData CausalBroadcast.dequeue)
    Guarded.unlock
    pure elem

/-- `write_log`.  `memcpy` returns the pointer that it is given. -/
def writeLog (accepted : ℕ) (line : List Char) : GuardedCall LogData Unit := do
  let log ← Guarded.read
  if log.bufMaxSize < line.length + log.bufCurrentSize then do
    Guarded.inside (writeToFile accepted)
    Guarded.inside (appendLine line)
    Guarded.unlock
  else do
    Guarded.inside (appendLine line)
    Guarded.unlock

/-- `alloc_vector` with the clock, in `get_vec_clock_copy`. -/
def allocVector (calloc : Bool) : LcbCall (List ℕ) :=
  if calloc then CausalBroadcast.getVecClockCopy else Call.fail .memory

/-- `get_vec_clock_copy`. -/
def getVecClockCopy (calloc : Bool) : GuardedCall Lcb (List ℕ) := do
  let clocky ← Guarded.inside (allocVector calloc)
  Guarded.unlock
  pure clocky

/-- The increment in `update_vec_clock`. -/
def countDelivery (pid : ℕ) : LcbCall ℕ := do
  let data ← Call.state
  let count ← Call.access (readEntry data.vectorClock pid)
  let seq := u32 (count + 1)
  Call.modify fun data => { data with vectorClock := data.vectorClock.set (pid - 1) seq }
  pure seq

/-- `update_vec_clock`, which has tested the pid before. -/
def updateVecClock (pid : ℕ) : GuardedCall Lcb ℕ := do
  let seq ← Guarded.inside (countDelivery pid)
  Guarded.unlock
  pure seq

/-- `test_vec_clock`.  It looks up the dependencies before it locks; nothing writes to
them. -/
def testVecClock (vector : List ℕ) (pid : ℕ) : GuardedCall Lcb Bool := do
  let isBigger ← Guarded.inside (CausalBroadcast.testVecClock vector pid)
  Guarded.unlock
  pure isBigger

/-- `table_read_entry`, on the ack table. -/
def readAck (mid : ℕ) : Call ErrorCode (Nullable UidTable) ℕ := do
  let table ← Call.state
  Call.access (table.tableReadEntry mid)

/-- `is_ack`. -/
def isAck (mid : ℕ) : GuardedCall (Nullable UidTable) ℕ := do
  let value ← Guarded.inside (readAck mid)
  Guarded.unlock
  pure value

/-- `set_ack`. -/
def setAck (alloc : ℕ → Bool) (rounds : ℕ) (junk : ℕ → ℕ → ℕ) (mid : ℕ) :
    GuardedCall (Nullable UidTable) Unit := do
  let error ← Guarded.inside (Nullable.tableWriteEntry alloc rounds junk mid 1).result
  Guarded.unlock
  Call.returning error

end Locked

/-! ## All of them -/

/-- The functions that lock a mutex, with what the calls they make will return. -/
inductive SharedOp (Task : Type) where
  | enqueue (calloc : Bool) (elem : Task)
  | dequeue
  | writeLog (accepted : ℕ) (line : List Char)
  | getVecClockCopy (calloc : Bool)
  | updateVecClock (pid : ℕ)
  | testVecClock (vector : List ℕ) (pid : ℕ)
  | isAck (mid : ℕ)
  | setAck (alloc : ℕ → Bool) (rounds : ℕ) (junk : ℕ → ℕ → ℕ) (mid : ℕ)

namespace SharedOp

variable {Task : Type} [Inhabited Task]

/-- The mutex of a function. -/
@[reducible] def lock : SharedOp Task → Mutex
  | enqueue .. => .queueMutex
  | dequeue => .queueMutex
  | writeLog .. => .loglok
  | getVecClockCopy .. => .clockMutex
  | updateVecClock .. => .clockMutex
  | testVecClock .. => .clockMutex
  | isAck .. => .tableMutex
  | setAck .. => .tableMutex

/-- What a function returns. -/
@[reducible] def Result : SharedOp Task → Type
  | enqueue .. => Unit
  | dequeue => Option Task
  | writeLog .. => Unit
  | getVecClockCopy .. => List ℕ
  | updateVecClock .. => ℕ
  | testVecClock .. => Bool
  | isAck .. => ℕ
  | setAck .. => Unit

/-- The one test that comes before the locking, in `update_vec_clock`. -/
def refuses : (op : SharedOp Task) → op.lock.Data Task → Option ErrorCode
  | updateVecClock pid, data => if data.numProc < pid then some .pid else none
  | enqueue .., _ => none
  | dequeue, _ => none
  | writeLog .., _ => none
  | getVecClockCopy .., _ => none
  | testVecClock .., _ => none
  | isAck .., _ => none
  | setAck .., _ => none

/-- What a function does from the locking on. -/
def locked : (op : SharedOp Task) → GuardedCall (op.lock.Data Task) op.Result
  | enqueue calloc elem => Locked.enqueue calloc elem
  | dequeue => Locked.dequeue
  | writeLog accepted line => Locked.writeLog accepted line
  | getVecClockCopy calloc => Locked.getVecClockCopy calloc
  | updateVecClock pid => Locked.updateVecClock pid
  | testVecClock vector pid => Locked.testVecClock vector pid
  | isAck mid => Locked.isAck mid
  | setAck alloc rounds junk mid => Locked.setAck alloc rounds junk mid

end SharedOp

/-- The functions and their mutexes. -/
def sharedOps (Task : Type) [Inhabited Task] :
    Locking ErrorCode (Mutex.Data Task) (SharedOp Task) where
  lock := SharedOp.lock
  Result := SharedOp.Result
  refuses := SharedOp.refuses
  locked := SharedOp.locked

/-! ## The work and the unlocking -/

namespace Locked

variable {Task : Type} [Inhabited Task]

/-- `enqueue` unlocks behind its work, and on no other way out. -/
theorem enqueue_eq_releasing (calloc : Bool) (elem : Task) :
    enqueue calloc elem = Guarded.releasing (Nullable.enqueue calloc elem) := by
  unfold enqueue Nullable.enqueue
  simp only [Guarded.inside_state, Guarded.releasing_ite, Guarded.releasing_bind,
    Guarded.releasing_unit]

omit [Inhabited Task] in
/-- `dequeue` unlocks on both of its ways out. -/
theorem dequeue_eq_releasing :
    (dequeue : GuardedCall (Nullable (MsgQueue Task)) (Option Task)) =
      Guarded.releasing Nullable.dequeue := by
  unfold dequeue Nullable.dequeue
  rw [Guarded.releasing_bind]
  simp only [Guarded.inside_state, Guarded.releasing_ite, Guarded.releasing_pure,
    Guarded.releasing_undef]
  rfl

/-- `write_log` unlocks behind its work, and on no other way out. -/
theorem writeLog_eq_releasing (accepted : ℕ) (line : List Char) :
    writeLog accepted line = Guarded.releasing (CausalBroadcast.writeLog accepted line) := by
  unfold writeLog CausalBroadcast.writeLog
  simp only [Guarded.inside_state, Guarded.releasing_ite, Guarded.releasing_bind,
    Guarded.releasing_unit]

/-- `update_vec_clock` with its test is the function of the causal layer. -/
theorem updateVecClock_eq_countDelivery (pid : ℕ) (data : Lcb) :
    CausalBroadcast.updateVecClock pid data =
      if data.numProc < pid then .error .pid data else countDelivery pid data := by
  unfold CausalBroadcast.updateVecClock countDelivery
  by_cases hpid : data.numProc < pid
  · simp [hpid]
  · simp [hpid]

end Locked

end CausalBroadcast
