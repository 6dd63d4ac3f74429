import CausalBroadcast.Model.Shared

/-!
# Which mutexes are released

`locksReleased_iff`: a function leaves the mutexes as it found them unless it fails
inside of its section (`SharedOp.FailsInside`), which only `enqueue`, `write_log` and
`get_vec_clock_copy` do.  In a run of any threads in which no function fails so, a held
mutex has a thread inside that will release it.  Once a function has failed so, its mutex
is held for ever, and no thread gets in behind it.
-/

namespace CausalBroadcast

variable {Task : Type} [Inhabited Task]

namespace SharedOp

/-- The function returns an error from the middle of its section: `enqueue` when the
queue is full and `calloc` returns null, or when an earlier one did, `write_log` when the
line does not fit and `fwrite` writes nothing, `get_vec_clock_copy` when `calloc` returns
null. -/
def FailsInside (op : SharedOp Task) (shared : Shared (Mutex.Data Task)) : Prop :=
  match op with
  | enqueue calloc _ =>
      let queue : Nullable (MsgQueue Task) := (shared .queueMutex).data
      (queue.data.noElem = queue.data.qsize ∧ calloc = false) ∨
        (queue.data.noElem ≠ queue.data.qsize ∧ queue.isNull = true)
  | writeLog accepted line =>
      let log : LogData := (shared .loglok).data
      log.bufMaxSize < line.length + log.bufCurrentSize ∧ (accepted = 0 ∨ log.pending = [])
  | getVecClockCopy calloc => calloc = false
  | dequeue => False
  | updateVecClock _ => False
  | testVecClock .. => False
  | isAck _ => False
  | setAck .. => False

end SharedOp

/-! ## The errors inside of the sections -/

omit [Inhabited Task] in
theorem insertBack_ne_error (task : Task) (queue : MsgQueue Task) (code : ErrorCode)
    (queue' : MsgQueue Task) : insertBack task queue ≠ .error code queue' := by
  unfold insertBack
  by_cases hroom : queue.back < queue.elems.length
  · simp [hroom]
  · simp [hroom]

theorem reallocQueue_ne_error (queue : MsgQueue Task) (code : ErrorCode)
    (queue' : MsgQueue Task) : reallocQueue queue ≠ .error code queue' := by
  unfold reallocQueue
  simp only [Call.bind_apply, Call.state_apply, Outcome.ok_andThen]
  cases copyElems queue queue.noElem 0 queue.front
      (List.replicate (u32 (queue.qsize * 2)) default) with
  | none => simp
  | some elems => simp

namespace Nullable

omit [Inhabited Task] in
theorem enqueueChecked_error_iff {task : Task} {queue : Nullable (MsgQueue Task)} :
    (∃ code queue', enqueueChecked task queue = .error code queue') ↔ queue.isNull = true := by
  cases hnull : queue.isNull with
  | true => simp [enqueueChecked, hnull]
  | false =>
      simp only [enqueueChecked, Call.bind_apply, Call.state_apply, Outcome.ok_andThen, hnull]
      constructor
      · rintro ⟨code, queue', h⟩
        cases hinsert : insertBack task queue.data with
        | ok value data => simp [onData, hinsert] at h
        | error code data => exact absurd hinsert (insertBack_ne_error task _ code data)
        | running data => simp [onData, hinsert] at h
        | undefined => simp [onData, hinsert] at h
      · intro h
        cases h

theorem enqueue_error_iff (calloc : Bool) (task : Task) (queue : Nullable (MsgQueue Task)) :
    (∃ code queue', enqueue calloc task queue = .error code queue') ↔
      (queue.data.noElem = queue.data.qsize ∧ calloc = false) ∨
        (queue.data.noElem ≠ queue.data.qsize ∧ queue.isNull = true) := by
  by_cases hfull : queue.data.noElem = queue.data.qsize
  · rw [enqueue_of_full calloc task hfull]
    cases calloc with
    | false => simp [reallocQueue, loseBlock, hfull]
    | true =>
        refine iff_of_false ?_ (by simp [hfull])
        rintro ⟨code, queue', h⟩
        by_cases hlost : queue.isNull = true ∧ 0 < queue.data.noElem
        · simp [reallocQueue, hlost] at h
        · cases hrealloc : CausalBroadcast.reallocQueue queue.data with
          | ok value data =>
              have hpresent : enqueueChecked task (present data) = .error code queue' := by
                simpa [reallocQueue, hlost, newBlock, onData, hrealloc, present] using h
              exact absurd (enqueueChecked_error_iff.mp ⟨code, queue', hpresent⟩) Bool.false_ne_true
          | error code data => exact absurd hrealloc (reallocQueue_ne_error _ code data)
          | running data => simp [reallocQueue, hlost, newBlock, onData, hrealloc] at h
          | undefined => simp [reallocQueue, hlost, newBlock, onData, hrealloc] at h
  · rw [enqueue_of_room calloc task hfull, enqueueChecked_error_iff]
    simp [hfull]

end Nullable

theorem writeToFile_error_iff {accepted : ℕ} {log : LogData} :
    (∃ code log', writeToFile accepted log = .error code log') ↔
      accepted = 0 ∨ log.pending = [] := by
  have hcount : min accepted log.pending.length = 0 ↔ accepted = 0 ∨ log.pending = [] := by
    rw [Nat.min_eq_zero_iff, List.length_eq_zero_iff]
  have hwrite : fwrite accepted (log.buffer.take log.bufCurrentSize) log =
      .ok (min accepted log.pending.length)
        { log with file := log.file ++ log.pending.take accepted } := rfl
  simp only [writeToFile, Call.bind_apply, Call.state_apply, Outcome.ok_andThen, hwrite]
  by_cases hnone : min accepted log.pending.length = 0
  · simp [hnone, hcount.mp hnone]
  · simp [hnone, hcount.not.mp hnone]

theorem appendLine_ne_error (line : List Char) (log : LogData) (code : ErrorCode) (log' : LogData) :
    appendLine line log ≠ .error code log' := by
  simp only [appendLine, Call.bind_apply, Call.state_apply, Outcome.ok_andThen]
  cases copyAt log.buffer log.bufCurrentSize line with
  | none => simp
  | some buffer => simp

theorem writeLog_error_iff {accepted : ℕ} {line : List Char} {log : LogData} :
    (∃ code log', writeLog accepted line log = .error code log') ↔
      log.bufMaxSize < line.length + log.bufCurrentSize ∧ (accepted = 0 ∨ log.pending = []) := by
  by_cases hfull : log.bufMaxSize < line.length + log.bufCurrentSize
  · have hrun : writeLog accepted line log =
        (writeToFile accepted log).andThen fun _ => appendLine line := by
      simp [writeLog, hfull]
    rw [hrun, ← writeToFile_error_iff]
    constructor
    · rintro ⟨code, log', h⟩
      refine ⟨hfull, ?_⟩
      cases hfile : writeToFile accepted log with
      | ok value emptied =>
          rw [hfile, Outcome.ok_andThen] at h
          exact absurd h (appendLine_ne_error line emptied code log')
      | error code log' => exact ⟨code, log', rfl⟩
      | running log' => rw [hfile] at h; cases h
      | undefined => rw [hfile] at h; cases h
    · rintro ⟨-, code, log', h⟩
      exact ⟨code, log', by rw [h, Outcome.error_andThen]⟩
  · refine iff_of_false ?_ fun h => hfull h.1
    rintro ⟨code, log', h⟩
    have hrun : writeLog accepted line log = appendLine line log := by simp [writeLog, hfull]
    rw [hrun] at h
    exact appendLine_ne_error line log code log' h

theorem allocVector_error_iff (calloc : Bool) (data : Lcb) :
    (∃ code data', Locked.allocVector calloc data = .error code data') ↔ calloc = false := by
  cases calloc with
  | false => simp [Locked.allocVector]
  | true => simp [Locked.allocVector, getVecClockCopy]

omit [Inhabited Task] in
theorem dequeue_ne_error (queue : Nullable (MsgQueue Task)) (code : ErrorCode)
    (queue' : Nullable (MsgQueue Task)) : Nullable.dequeue queue ≠ .error code queue' := by
  simp only [Nullable.dequeue, Call.bind_apply, Call.state_apply, Outcome.ok_andThen,
    Call.ite_apply]
  by_cases hempty : queue.data.noElem = 0
  · simp [hempty]
  · cases hnull : queue.isNull with
    | true => simp [hempty]
    | false =>
        simp only [hempty, if_false, Nullable.onData, Call.on_apply, dequeue, Call.bind_apply,
          Call.state_apply, Outcome.ok_andThen, Call.ite_apply]
        cases queue.data.elems[queue.data.front]? <;> simp

theorem countDelivery_ne_error (pid : ℕ) (data : Lcb) (code : ErrorCode) (data' : Lcb) :
    Locked.countDelivery pid data ≠ .error code data' := by
  simp only [Locked.countDelivery, Call.bind_apply, Call.state_apply, Outcome.ok_andThen]
  cases readEntry data.vectorClock pid with
  | none => exact nofun
  | some count => exact nofun

theorem readAck_ne_error (mid : ℕ) (table : Nullable UidTable) (code : ErrorCode)
    (table' : Nullable UidTable) : Locked.readAck mid table ≠ .error code table' := by
  simp only [Locked.readAck, Call.bind_apply, Call.state_apply, Outcome.ok_andThen]
  cases table.tableReadEntry mid with
  | none => exact nofun
  | some value => exact nofun

theorem testVecClock_ne_error (vector : List ℕ) (pid : ℕ) (data : Lcb) (code : ErrorCode)
    (data' : Lcb) : testVecClock vector pid data ≠ .error code data' := by
  intro h
  rcases testVecClock_cases vector pid data with hundefined | ⟨accepted, hok⟩
  · rw [hundefined] at h
    cases h
  · rw [hok] at h
    cases h

/-- A function that is not refused abandons its mutex exactly when it leaves it held. -/
theorem abandons_iff_leavesHeld {op : SharedOp Task} {shared : Shared (Mutex.Data Task)}
    (h : op.refuses (shared op.lock).data = none) :
    (sharedOps Task).Abandons op shared ↔ Guarded.LeavesHeld op.locked (shared op.lock).data :=
  ⟨And.right, fun hheld => ⟨h, hheld⟩⟩

/-- A function abandons its mutex exactly when it fails inside of its section. -/
theorem abandons_iff (op : SharedOp Task) (shared : Shared (Mutex.Data Task)) :
    (sharedOps Task).Abandons op shared ↔ op.FailsInside shared := by
  cases op with
  | enqueue calloc elem =>
      rw [abandons_iff_leavesHeld rfl]
      show Guarded.LeavesHeld (Locked.enqueue calloc elem) (shared .queueMutex).data ↔ _
      rw [Locked.enqueue_eq_releasing, Guarded.leavesHeld_releasing_iff]
      exact Nullable.enqueue_error_iff calloc elem (shared .queueMutex).data
  -- Both exits unlock, and `EMPTY_QUEUE` is a result.
  | dequeue =>
      refine iff_of_false (fun habandons => ?_) id
      have hheld : Guarded.LeavesHeld Locked.dequeue (shared .queueMutex).data := habandons.2
      rw [Locked.dequeue_eq_releasing, Guarded.leavesHeld_releasing_iff] at hheld
      obtain ⟨code, queue', herror⟩ := hheld
      exact dequeue_ne_error _ code queue' herror
  | writeLog accepted line =>
      rw [abandons_iff_leavesHeld rfl]
      show Guarded.LeavesHeld (Locked.writeLog accepted line) (shared .loglok).data ↔ _
      rw [Locked.writeLog_eq_releasing, Guarded.leavesHeld_releasing_iff]
      exact writeLog_error_iff
  | getVecClockCopy calloc =>
      rw [abandons_iff_leavesHeld rfl]
      exact Guarded.leavesHeld_releasing_iff.trans
        (allocVector_error_iff calloc (shared .clockMutex).data)
  | updateVecClock pid =>
      refine iff_of_false (fun habandons => ?_) id
      obtain ⟨code, data', herror⟩ := Guarded.leavesHeld_releasing_iff.mp habandons.2
      exact countDelivery_ne_error pid _ code data' herror
  | testVecClock vector pid =>
      refine iff_of_false (fun habandons => ?_) id
      obtain ⟨code, data', herror⟩ := Guarded.leavesHeld_releasing_iff.mp habandons.2
      exact testVecClock_ne_error vector pid _ code data' herror
  | isAck mid =>
      refine iff_of_false (fun habandons => ?_) id
      obtain ⟨code, table', herror⟩ := Guarded.leavesHeld_releasing_iff.mp habandons.2
      exact readAck_ne_error mid _ code table' herror
  -- It unlocks before it returns what `table_write_entry` has returned.
  | setAck alloc rounds junk mid =>
      exact iff_of_false (fun habandons =>
        Guarded.not_leavesHeld_releasingFirst _ _ habandons.2) id

/-! ## Runs -/

/-- The threads of a process. -/
abbrev sharedThreads (Thread Task : Type) [DecidableEq Thread] [Inhabited Task] :
    TransitionSystem (Threads Thread (Mutex.Data Task) (SharedOp Task)) :=
  (sharedOps Task).threads Thread

/-- The functions return with the mutexes they found unless they fail inside of their
section; and an error blocks others for ever exactly when it is one of these. -/
theorem locksReleased_iff (Thread Task : Type) [DecidableEq Thread] [Inhabited Task] :
    (∀ (op : SharedOp Task) (shared shared' : Shared (Mutex.Data Task)),
      ((sharedOps Task).call op shared).ReturnsIn shared' →
        ((∀ mutex, (shared' mutex).held = (shared mutex).held) ↔ ¬ op.FailsInside shared)) ∧
    (∀ s, ((sharedThreads Thread Task).restrict
        (Locking.LeavesWithout SharedOp.FailsInside)).Reachable s →
      ∀ mutex, (s.shared mutex).held = true → ∃ t op, s.inside t = some op ∧ op.lock = mutex) ∧
    ∀ (s s' later : Threads Thread (Mutex.Data Task) (SharedOp Task)) (t : Thread)
      (op : SharedOp Task), (sharedThreads Thread Task).Reachable s →
      (sharedThreads Thread Task).step s s' → s.inside t = some op → s'.inside t = none →
      op.FailsInside s.shared → (sharedThreads Thread Task).Steps s' later →
      (later.shared op.lock).held = true ∧
        ∀ t' op', later.inside t' = some op' → op'.lock ≠ op.lock := by
  refine ⟨fun op shared shared' hreturns => ?_, fun s hreach => ?_,
    fun s s' later t op hreach hstep hinside hout hfails hsteps => ?_⟩
  · rw [← abandons_iff]
    exact Locking.held_of_call hreturns
  · have hsame : (Locking.LeavesWithout SharedOp.FailsInside :
        Threads Thread (Mutex.Data Task) (SharedOp Task) → _ → Prop) =
        Locking.LeavesWithout (sharedOps Task).Abandons := by
      funext s s'
      simp only [Locking.LeavesWithout, abandons_iff]
    rw [hsame] at hreach
    exact Locking.inside_of_held hreach
  · have habandoned := Locking.abandoned_of_leave hreach hstep hinside hout
      ((abandons_iff op s.shared).mpr hfails)
    exact Locking.abandoned_forever habandoned hsteps

/-- A process whose queue is full, with all mutexes free. -/
def fullQueue : Shared (Mutex.Data ℕ)
  | .queueMutex => ⟨false, Nullable.present ⟨200, 200, 0, 0, List.replicate 200 7⟩⟩
  | .loglok => ⟨false, initLogData 64⟩
  | .clockMutex => ⟨false, Lcb.initial fifoMembership 1⟩
  | .tableMutex => ⟨false, Nullable.present (initTableUid 150 2)⟩

/-- An `enqueue` whose `calloc` returns null, after which a `dequeue` waits for ever. -/
theorem fullQueue_locked :
    ∃ left, (sharedOps ℕ).call (.enqueue false 8) fullQueue = .error .memory left ∧
      (fullQueue .queueMutex).held = false ∧ (left .queueMutex).held = true ∧
      (sharedOps ℕ).call .dequeue left = .running left := by
  refine ⟨_, rfl, rfl, rfl, ?_⟩
  rw [Locking.call, Call.bind_apply, Locking.enter_of_held rfl rfl, Outcome.running_andThen]

end CausalBroadcast
