import CausalBroadcast.Model.Shared

/-!
# What a failed allocation leaves behind

A growth routine has nothing but the null pointer left when its allocation fails, and
the rounds of the loop that went well before have changed the sizes.  For a table this
does no harm only where nothing could be read from the block anyway (`Spared`): there
are no entries, or the block was lost before.

The task queue is never left intact (`enqueue_not_intact`): `enqueue` keeps its mutex
when `realloc_queue` fails, so the next `dequeue` does not return.
-/

namespace CausalBroadcast

open Nullable

/-! ## Doubling an `unsigned int` -/

/-- `n * 2`. -/
def doubled (n : ℕ) : ℕ := u32 (n * 2)

theorem doubled_lt (n : ℕ) : doubled n < 2 ^ 32 := Nat.mod_lt _ (by norm_num)

theorem iterate_doubled {n : ℕ} (hn : n < 2 ^ 32) (r : ℕ) : doubled^[r] n = u32 (n * 2 ^ r) := by
  induction r with
  | zero => simp [u32_of_lt hn]
  | succ r ih =>
      rw [Function.iterate_succ_apply', ih, doubled, u32, u32, u32, Nat.mod_mul_mod, pow_succ 2 r,
        mul_assoc]

@[simp] theorem iterate_doubled_zero (r : ℕ) : doubled^[r] 0 = 0 := by
  rw [iterate_doubled (by norm_num), zero_mul]
  rfl

/-- Doubling changes every number but `0`, however often it is done. -/
theorem eq_zero_of_iterate_doubled {n r : ℕ} (hn : n < 2 ^ 32) (hr : 0 < r)
    (h : doubled^[r] n = n) : n = 0 := by
  have hmod : n * 2 ^ r ≡ n [MOD 2 ^ 32] := by
    rw [iterate_doubled hn] at h
    rw [Nat.ModEq, Nat.mod_eq_of_lt hn]
    exact h
  have hle : n ≤ n * 2 ^ r := Nat.le_mul_of_pos_right n (by positivity)
  have hdvd : 2 ^ 32 ∣ n * (2 ^ r - 1) := by
    rw [Nat.mul_sub, mul_one]
    exact (Nat.modEq_iff_dvd' hle).mp hmod.symm
  -- the second factor is odd, so the power of two divides the first
  have hodd : Odd (2 ^ r - 1) := by
    obtain ⟨k, rfl⟩ : ∃ k, r = k + 1 := ⟨r - 1, by omega⟩
    refine ⟨2 ^ k - 1, ?_⟩
    have hpos : 0 < 2 ^ k := by positivity
    rw [pow_succ]
    omega
  have hcoprime : Nat.Coprime (2 ^ 32) (2 ^ r - 1) :=
    Nat.Coprime.pow_left 32 (Nat.coprime_two_left.mpr hodd)
  exact Nat.eq_zero_of_dvd_of_lt (hcoprime.dvd_of_dvd_mul_right hdvd) hn

/-! ## Tables that grow -/

/-- The fields that a growing table has, and what is read outside of it. -/
structure TableView (σ β : Type) where
  noMsgs : σ → ℕ
  noProcess : σ → ℕ
  totalEntries : σ → ℕ
  values : σ → ℕ → β
  absent : β

namespace TableView

variable {σ β : Type} (view : TableView σ β)

/-- An entry; `none` is a read through the null pointer. -/
def read (table : Nullable σ) (entryId : ℕ) : Option β :=
  if view.totalEntries table.data ≤ entryId then some view.absent
  else if table.isNull then none
  else some (view.values table.data entryId)

/-- The sizes and all that can be read are the same. -/
structure Intact (table table' : Nullable σ) : Prop where
  noMsgs : view.noMsgs table'.data = view.noMsgs table.data
  noProcess : view.noProcess table'.data = view.noProcess table.data
  totalEntries : view.totalEntries table'.data = view.totalEntries table.data
  read : ∀ entryId, view.read table' entryId = view.read table entryId

/-- The growth that fails does so in the first round and finds no block to lose, or it
finds a table whose sizes are zero. -/
def Spared (alloc : ℕ → Bool) (table : Nullable σ) : Prop :=
  (alloc 0 = false ∧ (table.isNull = true ∨ view.totalEntries table.data = 0)) ∨
    (view.totalEntries table.data = 0 ∧ view.noMsgs table.data = 0)

/-- The sizes are `unsigned int`s. -/
structure Bounded (table : Nullable σ) : Prop where
  noMsgs : view.noMsgs table.data < 2 ^ 32
  totalEntries : view.totalEntries table.data < 2 ^ 32

/-- The table after `r` rounds that went well and one whose allocation failed. -/
structure FailedAfter (alloc : ℕ → Bool) (table table' : Nullable σ) (r : ℕ) : Prop where
  isNull : table'.isNull = true
  alloc : alloc 0 = false ↔ r = 0
  noMsgs : view.noMsgs table'.data = doubled^[r] (view.noMsgs table.data)
  noProcess : view.noProcess table'.data = view.noProcess table.data
  totalEntries : view.totalEntries table'.data = doubled^[r] (view.totalEntries table.data)
  first : r = 0 → table'.data = table.data

/-- What one round of a loop does. -/
structure Doubles (grow : Bool → Call ErrorCode (Nullable σ) Unit) : Prop where
  fails : ∀ table, grow false table = .error .memory { table with isNull := true }
  succeeds : ∀ table, (grow true table).Meets
    (fun _ table' => view.noMsgs table'.data = doubled (view.noMsgs table.data) ∧
      view.noProcess table'.data = view.noProcess table.data ∧
      view.totalEntries table'.data = doubled (view.totalEntries table.data))
    (fun _ _ => False) fun _ => False

variable {view} {alloc : ℕ → Bool} {table table' : Nullable σ}

/-- The exact effect of a failed growth on what can be read. -/
theorem FailedAfter.intact_iff {r : ℕ} (h : view.FailedAfter alloc table table' r)
    (hbounded : view.Bounded table) : view.Intact table table' ↔ view.Spared alloc table := by
  constructor
  · intro hintact
    rcases Nat.eq_zero_or_pos r with hr | hr
    · -- the header is untouched, so an entry inside tells whether there was a block
      refine .inl ⟨h.alloc.mpr hr, ?_⟩
      by_contra hblock
      rw [not_or] at hblock
      have hread := hintact.read 0
      have hinside : ¬ view.totalEntries table.data ≤ 0 := by omega
      have hinside' : ¬ view.totalEntries table'.data ≤ 0 := by
        rw [hintact.totalEntries]
        exact hinside
      rw [TableView.read, TableView.read, if_neg hinside, if_neg hinside', if_pos h.isNull,
        if_neg hblock.1] at hread
      cases hread
    · right
      exact ⟨eq_zero_of_iterate_doubled hbounded.totalEntries hr
          (h.totalEntries.symm.trans hintact.totalEntries),
        eq_zero_of_iterate_doubled hbounded.noMsgs hr (h.noMsgs.symm.trans hintact.noMsgs)⟩
  · intro hspared
    have hnone : view.totalEntries table.data = 0 →
        ∀ entryId, view.read table' entryId = view.read table entryId := by
      intro hzero entryId
      have hzero' : view.totalEntries table'.data = 0 := by
        rw [h.totalEntries, hzero, iterate_doubled_zero]
      rw [TableView.read, TableView.read, hzero, hzero', if_pos (Nat.zero_le _),
        if_pos (Nat.zero_le _)]
    rcases hspared with ⟨hfirst, hblock⟩ | ⟨hentries, hmsgs⟩
    · have hdata := h.first (h.alloc.mp hfirst)
      refine ⟨by rw [hdata], h.noProcess, by rw [hdata], ?_⟩
      rcases hblock with hnull | hzero
      · intro entryId
        rw [TableView.read, TableView.read, hdata, h.isNull, hnull]
      · exact hnone hzero
    · refine ⟨?_, h.noProcess, ?_, hnone hentries⟩
      · rw [h.noMsgs, hmsgs, iterate_doubled_zero]
      · rw [h.totalEntries, hentries, iterate_doubled_zero]

/-! ## The loop -/

theorem Bounded.of_doubled (hmsgs : view.noMsgs table'.data = doubled (view.noMsgs table.data))
    (hentries : view.totalEntries table'.data = doubled (view.totalEntries table.data)) :
    view.Bounded table' where
  noMsgs := hmsgs ▸ doubled_lt _
  totalEntries := hentries ▸ doubled_lt _

/-- A loop that ends with an error has failed in one of its rounds. -/
theorem growTo_meets {grow : Bool → Call ErrorCode (Nullable σ) Unit} (hgrow : view.Doubles grow)
    (entryId rounds : ℕ) :
    ∀ (alloc : ℕ → Bool) (table : Nullable σ), view.Bounded table →
      (growTo view.totalEntries grow entryId rounds alloc table).Meets
        (fun _ table' => view.Bounded table')
        (fun _ table' => view.Bounded table' ∧ ∃ r, view.FailedAfter alloc table table' r)
        fun _ => True := by
  -- a round takes the first answer of the allocator and leaves the later ones to the rest
  induction rounds with
  | zero =>
      intro alloc table hbounded
      rw [growTo, Call.bind_apply, Call.state_apply, Outcome.ok_andThen, Call.ite_apply]
      split
      · trivial
      · exact hbounded
  | succ rounds ih =>
      intro alloc table hbounded
      rw [growTo, Call.bind_apply, Call.state_apply, Outcome.ok_andThen, Call.ite_apply]
      split
      · rw [Call.bind_apply]
        cases hfirst : alloc 0 with
        | false =>
            rw [hgrow.fails, Outcome.error_andThen]
            exact ⟨⟨hbounded.noMsgs, hbounded.totalEntries⟩, 0, rfl, by simp [hfirst], rfl,
              rfl, rfl, fun _ => rfl⟩
        | true =>
            refine (hgrow.succeeds table).andThen (fun _ _ => False.elim) (fun _ _ => trivial)
              fun _ grown hgrown => ?_
            obtain ⟨hmsgs, hprocess, hentries⟩ := hgrown
            refine (ih (fun k => alloc (k + 1)) grown (.of_doubled hmsgs hentries)).mono
              (fun _ _ => id) (fun _ table' h => ?_) fun _ => id
            obtain ⟨hbounded', r, hfailed⟩ := h
            refine ⟨hbounded', r + 1, hfailed.isNull, by simp [hfirst], ?_, ?_, ?_, by simp⟩
            · rw [hfailed.noMsgs, hmsgs, Function.iterate_succ_apply]
            · rw [hfailed.noProcess, hprocess]
            · rw [hfailed.totalEntries, hentries, Function.iterate_succ_apply]
      · exact hbounded

/-- What holds of a call that writes to a table: if it fails for want of memory, it does
so in its loop. -/
def Writes (view : TableView σ β) (write : (ℕ → Bool) → Call ErrorCode (Nullable σ) Unit) : Prop :=
  ∀ alloc table, view.Bounded table → (write alloc table).Meets
    (fun _ table' => view.Bounded table')
    (fun code table' => view.Bounded table' ∧
      (code = .memory → ∃ r, view.FailedAfter alloc table table' r))
    fun _ => True

/-- The calls of all three tables are writes: a test of the id, the loop and an
assignment that leaves the sizes alone. -/
theorem writes_of_growTo {grow : Bool → Call ErrorCode (Nullable σ) Unit}
    (hgrow : view.Doubles grow) (change : σ → σ)
    (hmsgs : ∀ data, view.noMsgs (change data) = view.noMsgs data)
    (hentries : ∀ data, view.totalEntries (change data) = view.totalEntries data)
    (cap entryId rounds : ℕ) :
    view.Writes (fun alloc => if cap < entryId then Call.fail .table else
      growTo view.totalEntries grow entryId rounds alloc >>= fun _ => storeIn change) := by
  intro alloc table hbounded
  show ((if cap < entryId then _ else _ : Call ErrorCode (Nullable σ) Unit) table).Meets _ _ _
  rw [Call.ite_apply]
  split
  · exact ⟨hbounded, nofun⟩
  · refine (growTo_meets hgrow entryId rounds alloc table hbounded).andThen
      (fun code table' h => ⟨h.1, fun _ => h.2⟩) (fun _ => id) fun _ grown hgrown => ?_
    unfold storeIn
    rw [Call.bind_apply, Call.state_apply, Outcome.ok_andThen, Call.ite_apply]
    split
    · trivial
    · exact ⟨(hmsgs grown.data).trans_lt hgrown.noMsgs,
        (hentries grown.data).trans_lt hgrown.totalEntries⟩

/-! ## Runs -/

/-- A table from its initialization on, with one call after another. -/
def runs (init : ℕ → ℕ → σ) (calls : Set ((ℕ → Bool) → Call ErrorCode (Nullable σ) Unit)) :
    TransitionSystem (Nullable σ) where
  init table := ∃ noMsgs noProcess, noMsgs < 2 ^ 32 ∧ table = present (init noMsgs noProcess)
  step table table' := ∃ write ∈ calls, ∃ alloc, (write alloc table).ReturnsIn table'

/-- In every state of a run a call that fails for want of memory leaves the table intact
exactly if it is spared. -/
theorem intact_iff_of_reachable {init : ℕ → ℕ → σ}
    {calls : Set ((ℕ → Bool) → Call ErrorCode (Nullable σ) Unit)}
    (hinit : ∀ noMsgs noProcess, noMsgs < 2 ^ 32 → view.Bounded (present (init noMsgs noProcess)))
    (hcalls : ∀ write ∈ calls, view.Writes write) (hreach : (runs init calls).Reachable table)
    {write : (ℕ → Bool) → Call ErrorCode (Nullable σ) Unit} (hwrite : write ∈ calls)
    (herror : write alloc table = .error .memory table') :
    view.Intact table table' ↔ view.Spared alloc table := by
  have hbounded : view.Bounded table := by
    refine hreach.invariant (fun table h => ?_) fun table table' _ hbounded hstep => ?_
    · obtain ⟨noMsgs, noProcess, hlt, rfl⟩ := h
      exact hinit noMsgs noProcess hlt
    · obtain ⟨write, hwrite, alloc, hreturns⟩ := hstep
      have hmeets := hcalls write hwrite alloc table hbounded
      rcases hreturns with ⟨value, hrun⟩ | ⟨code, hrun⟩
      · rw [hrun] at hmeets
        exact hmeets
      · rw [hrun] at hmeets
        exact hmeets.1
  have hmeets := hcalls write hwrite alloc table hbounded
  rw [herror] at hmeets
  obtain ⟨r, hfailed⟩ := hmeets.2 rfl
  exact hfailed.intact_iff hbounded

end TableView

/-! ## The three tables -/

/-- The fields of a uid table. -/
def uidView : TableView UidTable ℕ where
  noMsgs := UidTable.noMsgs
  noProcess := UidTable.noProcess
  totalEntries := UidTable.totalEntries
  values := UidTable.entries
  absent := 0

/-- The fields of an urb table. -/
def urbView : TableView UrbTable UrbEntry where
  noMsgs := UrbTable.noMsgs
  noProcess := UrbTable.noProcess
  totalEntries := UrbTable.totalEntries
  values := UrbTable.values
  absent := ⟨0, 0⟩

/-- The fields of a pending table. -/
def pendingView : TableView PendingTable ℕ where
  noMsgs := PendingTable.noMsgs
  noProcess := PendingTable.noProcess
  totalEntries := PendingTable.totalEntries
  values := PendingTable.bol
  absent := 0

/-- The reads of the views are the functions of the source. -/
theorem uidView_read : uidView.read = Nullable.tableReadEntry := rfl

theorem urbView_read : urbView.read = readUrb := rfl

theorem pendingView_read : pendingView.read = Nullable.getPending := rfl

theorem growTable_doubles (junk : ℕ → ℕ → ℕ) :
    uidView.Doubles fun alloc => Nullable.growTable alloc junk where
  fails table := rfl
  succeeds table := by
    simp only [Nullable.growTable, Call.bind_apply, Call.state_apply, Outcome.ok_andThen, if_true,
      Call.ite_apply]
    by_cases hnull : table.isNull = true
    · simp [hnull, newBlock, onData, CausalBroadcast.growTable, uidView, doubled]
    · simp [hnull, newBlock, onData, CausalBroadcast.growTable, uidView, doubled]

theorem reallocTable_doubles : urbView.Doubles Nullable.reallocTable where
  fails table := rfl
  succeeds table := by
    simp only [Nullable.reallocTable, if_true, newBlock, onData, Call.bind_apply,
      Call.modify_apply, Outcome.ok_andThen, Call.on_apply, CausalBroadcast.reallocTable,
      Call.state_apply, Call.ite_apply]
    split
    · trivial
    · exact ⟨rfl, rfl, rfl⟩

theorem reallocPending_doubles : pendingView.Doubles Nullable.reallocPending where
  fails table := rfl
  succeeds table := by
    simp only [Nullable.reallocPending, if_true, newBlock, onData, Call.bind_apply,
      Call.modify_apply, Outcome.ok_andThen, Call.on_apply, CausalBroadcast.reallocPending,
      Call.state_apply, Call.ite_apply]
    split
    · trivial
    · exact ⟨rfl, rfl, rfl⟩

/-- The calls that can make a uid table grow. -/
def uidCalls : Set ((ℕ → Bool) → Call ErrorCode (Nullable UidTable) Unit) :=
  {write | ∃ rounds junk mid value,
    write = fun alloc => Nullable.tableWriteEntry alloc rounds junk mid value}

/-- The calls that can make the urb table grow. -/
def urbCalls : Set ((ℕ → Bool) → Call ErrorCode (Nullable UrbTable) Unit) :=
  {write | ∃ rounds seenId, (write = fun alloc => Nullable.addSeenUrb alloc rounds seenId) ∨
    write = fun alloc => Nullable.addDeliveredUrb alloc rounds seenId}

/-- The calls that can make the pending table grow. -/
def pendingCalls : Set ((ℕ → Bool) → Call ErrorCode (Nullable PendingTable) Unit) :=
  {write | ∃ rounds seenId value,
    write = fun alloc => Nullable.addPending alloc rounds seenId value}

theorem uidCalls_write {write} (h : write ∈ uidCalls) : uidView.Writes write := by
  obtain ⟨rounds, junk, mid, value, rfl⟩ := h
  exact TableView.writes_of_growTo (growTable_doubles junk)
    (fun table => { table with entries := Function.update table.entries mid value })
    (fun _ => rfl) (fun _ => rfl) maxSize mid rounds

theorem addUrb_writes (rounds seenId : ℕ) (mark : UrbEntry → UrbEntry) :
    urbView.Writes fun alloc => Nullable.addUrb alloc rounds seenId mark :=
  TableView.writes_of_growTo reallocTable_doubles
    (fun table => { table with
      values := Function.update table.values seenId (mark (table.values seenId)) })
    (fun _ => rfl) (fun _ => rfl) maxSizeUrb seenId rounds

theorem urbCalls_write {write} (h : write ∈ urbCalls) : urbView.Writes write := by
  obtain ⟨rounds, seenId, rfl | rfl⟩ := h
  · exact addUrb_writes rounds seenId .see
  · exact addUrb_writes rounds seenId .deliver

theorem pendingCalls_write {write} (h : write ∈ pendingCalls) : pendingView.Writes write := by
  obtain ⟨rounds, seenId, value, rfl⟩ := h
  exact TableView.writes_of_growTo reallocPending_doubles
    (fun pending => { pending with bol := Function.update pending.bol seenId value })
    (fun _ => rfl) (fun _ => rfl) maxSizePending seenId rounds

/-! ## The task queue -/

section Queue

variable {Task : Type} [Inhabited Task]

/-- `enqueue` with its mutex. -/
def lockedEnqueue (calloc : Bool) (task : Task) : GuardedCall (Nullable (MsgQueue Task)) Unit := do
  Guarded.lock
  Locked.enqueue calloc task

/-- `dequeue` with its mutex. -/
def lockedDequeue : GuardedCall (Nullable (MsgQueue Task)) (Option Task) := do
  Guarded.lock
  Locked.dequeue

/-- What `dequeue` returns; `none` if it does not return. -/
def dequeueAnswer (queue : Guarded (Nullable (MsgQueue Task))) : Option (Option Task) :=
  match lockedDequeue queue with
  | .ok task _ => some task
  | .error _ _ => none
  | .running _ => none
  | .undefined => none

/-- The indices are the same, and so is what `dequeue` returns. -/
structure QueueIntact (queue queue' : Guarded (Nullable (MsgQueue Task))) : Prop where
  noElem : queue'.data.data.noElem = queue.data.data.noElem
  qsize : queue'.data.data.qsize = queue.data.data.qsize
  front : queue'.data.data.front = queue.data.data.front
  back : queue'.data.data.back = queue.data.data.back
  answer : dequeueAnswer queue' = dequeueAnswer queue

/-- The queue from its initialization on, with one call after another. -/
def queueRuns (Task : Type) [Inhabited Task] :
    TransitionSystem (Guarded (Nullable (MsgQueue Task))) where
  init queue := ∃ size, 0 < size ∧ size < 2 ^ 32 ∧ queue = ⟨false, present (initQueue size)⟩
  step queue queue' := (∃ calloc task, (lockedEnqueue calloc task queue).ReturnsIn queue') ∨
    (lockedDequeue queue).ReturnsIn queue'

/-- A queue whose mutex is free has its block. -/
def QueueSound (queue : Guarded (Nullable (MsgQueue Task))) : Prop :=
  queue.held = false → ∃ data : MsgQueue Task, queue.data = present data ∧ data.WellFormed

theorem lockedEnqueue_of_held {queue : Guarded (Nullable (MsgQueue Task))}
    (h : queue.held = true) (calloc : Bool) (task : Task) :
    lockedEnqueue calloc task queue = .running queue := by
  rw [lockedEnqueue, Call.bind_apply, Guarded.lock_of_held h, Outcome.running_andThen]

omit [Inhabited Task] in
theorem lockedDequeue_of_held {queue : Guarded (Nullable (MsgQueue Task))}
    (h : queue.held = true) : lockedDequeue queue = .running queue := by
  rw [lockedDequeue, Call.bind_apply, Guarded.lock_of_held h, Outcome.running_andThen]

theorem lockedEnqueue_free (calloc : Bool) (task : Task) (data : Nullable (MsgQueue Task)) :
    lockedEnqueue calloc task ⟨false, data⟩ =
      Guarded.releasing (Nullable.enqueue calloc task) ⟨true, data⟩ := by
  rw [← Locked.enqueue_eq_releasing]
  rfl

omit [Inhabited Task] in
theorem lockedDequeue_free (data : Nullable (MsgQueue Task)) :
    lockedDequeue ⟨false, data⟩ = Guarded.releasing Nullable.dequeue ⟨true, data⟩ := by
  rw [← Locked.dequeue_eq_releasing]
  rfl

theorem enqueue_sound {data : MsgQueue Task} (h : data.WellFormed) (calloc : Bool) (task : Task) :
    (Nullable.enqueue calloc task (present data)).Meets
      (fun _ queue => ∃ data', queue = present data' ∧ data'.WellFormed) (fun _ _ => True)
      fun _ => False := by
  have hgood : (Nullable.enqueue true task (present data)).Meets
      (fun _ queue => ∃ data', queue = present data' ∧ data'.WellFormed) (fun _ _ => True)
      fun _ => False := by
    rw [enqueue_present]
    rcases enqueue_cases h task with hrun | ⟨data', hrun, hwf, -⟩
    · rw [hrun]
      trivial
    · rw [hrun]
      exact ⟨data', rfl, hwf⟩
  by_cases hfull : data.noElem = data.qsize
  · cases calloc with
    | true => exact hgood
    | false =>
        rw [enqueue_of_full false task hfull]
        trivial
  · rw [enqueue_of_room true task hfull] at hgood
    rw [enqueue_of_room calloc task hfull]
    exact hgood

theorem dequeue_sound {data : MsgQueue Task} (h : data.WellFormed) :
    ∃ task data', Nullable.dequeue (present data) = .ok task (present data') ∧
      data'.WellFormed := by
  rw [dequeue_present]
  rcases dequeue_eq h with ⟨-, hrun⟩ | ⟨task, rest, data', -, hrun, hwf, -⟩
  · exact ⟨none, data, by rw [hrun]; rfl, h⟩
  · exact ⟨some task, data', by rw [hrun]; rfl, hwf⟩

theorem sound_of_reachable {queue : Guarded (Nullable (MsgQueue Task))}
    (h : (queueRuns Task).Reachable queue) : QueueSound queue := by
  refine h.invariant (fun queue hinit _ => ?_) fun queue queue' _ hsound hstep => ?_
  · obtain ⟨size, hpos, hlt, rfl⟩ := hinit
    exact ⟨initQueue size, rfl, MsgQueue.initQueue_wellFormed hpos hlt⟩
  obtain ⟨held, contents⟩ := queue
  cases held with
  | true =>
      -- nothing returns behind a locked mutex
      rcases hstep with ⟨calloc, task, hreturns⟩ | hreturns
      · rw [lockedEnqueue_of_held rfl] at hreturns
        exact absurd hreturns (Outcome.not_returnsIn_running _ _)
      · rw [lockedDequeue_of_held rfl] at hreturns
        exact absurd hreturns (Outcome.not_returnsIn_running _ _)
  | false =>
      obtain ⟨data, rfl, hwf⟩ := hsound rfl
      rcases hstep with ⟨calloc, task, hreturns⟩ | hreturns
      · have hmeets := enqueue_sound hwf calloc task
        rw [lockedEnqueue_free] at hreturns
        rcases hreturns with ⟨value, hok⟩ | ⟨code, herror⟩
        · obtain ⟨after, hrun, rfl⟩ := Guarded.releasing_eq_ok hok
          rw [hrun] at hmeets
          obtain ⟨data', rfl, hwf'⟩ := hmeets
          exact fun _ => ⟨data', rfl, hwf'⟩
        · obtain ⟨after, -, rfl⟩ := Guarded.releasing_eq_error herror
          exact nofun
      · obtain ⟨task, data', hrun, hwf'⟩ := dequeue_sound hwf
        rw [lockedDequeue_free, Guarded.releasing_of_ok rfl hrun] at hreturns
        rw [← hreturns.ok_eq]
        exact fun _ => ⟨data', rfl, hwf'⟩

/-- An `enqueue` that fails leaves no queue that can be used. -/
theorem enqueue_not_intact {queue queue' : Guarded (Nullable (MsgQueue Task))}
    (h : (queueRuns Task).Reachable queue) {calloc : Bool} {task : Task} {code : ErrorCode}
    (herror : lockedEnqueue calloc task queue = .error code queue') :
    ¬ QueueIntact queue queue' := by
  have hsound := sound_of_reachable h
  obtain ⟨held, contents⟩ := queue
  cases held with
  | true =>
      rw [lockedEnqueue_of_held rfl] at herror
      cases herror
  | false =>
      obtain ⟨data, rfl, hwf⟩ := hsound rfl
      intro hintact
      have hheld : queue'.held = true := by
        rw [lockedEnqueue_free] at herror
        obtain ⟨after, -, rfl⟩ := Guarded.releasing_eq_error herror
        rfl
      have hafter : dequeueAnswer queue' = none := by
        rw [dequeueAnswer, lockedDequeue_of_held hheld]
      obtain ⟨answer, data', hrun, -⟩ := dequeue_sound hwf
      have hbefore : dequeueAnswer ⟨false, present data⟩ = some answer := by
        rw [dequeueAnswer, lockedDequeue_free, Guarded.releasing_of_ok rfl hrun]
      have hsame := hintact.answer
      rw [hafter, hbefore] at hsame
      cases hsame

end Queue

/-! ## All four structures -/

/-- A growth that fails leaves a table intact exactly when it is spared, and it never
leaves the task queue intact. -/
theorem failedGrowth_iff (Task : Type) [Inhabited Task] :
    (∀ table write alloc table', (TableView.runs initTableUid uidCalls).Reachable table →
      write ∈ uidCalls → write alloc table = .error .memory table' →
        (uidView.Intact table table' ↔ uidView.Spared alloc table)) ∧
    (∀ table write alloc table', (TableView.runs initUrbTable urbCalls).Reachable table →
      write ∈ urbCalls → write alloc table = .error .memory table' →
        (urbView.Intact table table' ↔ urbView.Spared alloc table)) ∧
    (∀ table write alloc table', (TableView.runs initPending pendingCalls).Reachable table →
      write ∈ pendingCalls → write alloc table = .error .memory table' →
        (pendingView.Intact table table' ↔ pendingView.Spared alloc table)) ∧
    ∀ queue calloc (task : Task) queue', (queueRuns Task).Reachable queue →
      lockedEnqueue calloc task queue = .error .memory queue' → ¬ QueueIntact queue queue' := by
  have hu32 : ∀ n, u32 n < 2 ^ 32 := fun n => Nat.mod_lt n (by norm_num)
  refine ⟨fun table write alloc table' hreach hwrite herror => ?_,
    fun table write alloc table' hreach hwrite herror => ?_,
    fun table write alloc table' hreach hwrite herror => ?_,
    fun queue calloc task queue' hreach herror => enqueue_not_intact hreach herror⟩
  · have hinit : ∀ noMsgs noProcess, noMsgs < 2 ^ 32 →
        uidView.Bounded (present (initTableUid noMsgs noProcess)) :=
      fun noMsgs noProcess hlt => ⟨hlt, hu32 _⟩
    exact TableView.intact_iff_of_reachable hinit (fun write => uidCalls_write) hreach hwrite herror
  · have hinit : ∀ noMsgs noProcess, noMsgs < 2 ^ 32 →
        urbView.Bounded (present (initUrbTable noMsgs noProcess)) :=
      fun noMsgs noProcess hlt => ⟨hlt, hu32 _⟩
    exact TableView.intact_iff_of_reachable hinit (fun write => urbCalls_write) hreach hwrite herror
  · have hinit : ∀ noMsgs noProcess, noMsgs < 2 ^ 32 →
        pendingView.Bounded (present (initPending noMsgs noProcess)) :=
      fun noMsgs noProcess hlt => ⟨hlt, hu32 _⟩
    exact TableView.intact_iff_of_reachable hinit (fun write => pendingCalls_write) hreach hwrite
      herror

-- A table that has lost its block is spared: another growth that fails changes nothing.
example : ∃ lost, Nullable.tableWriteEntry (fun _ => false) 4 (fun _ _ => 0) 600 1
      (present (initTableUid 150 2)) = .error .memory lost ∧
    uidView.Spared (fun _ => false) lost ∧
    Nullable.tableWriteEntry (fun _ => false) 4 (fun _ _ => 0) 600 1 lost = .error .memory lost ∧
    uidView.Intact lost lost :=
  ⟨_, rfl, .inl ⟨rfl, .inl rfl⟩, rfl, rfl, rfl, rfl, fun _ => rfl⟩

/-- The ack table of two processes after one acknowledgement: writing behind its end with a
`realloc` that returns null loses it. -/
theorem failedGrowth_loses :
    ∃ acked lost, (TableView.runs initTableUid uidCalls).Reachable acked ∧
      Nullable.tableWriteEntry (fun _ => false) 4 (fun _ _ => 0) 600 1 acked =
        .error .memory lost ∧
      Nullable.tableReadEntry acked 5 = some 1 ∧ Nullable.tableReadEntry lost 5 = none ∧
      ¬ uidView.Intact acked lost := by
  have hinit : (TableView.runs initTableUid uidCalls).Reachable (present (initTableUid 150 2)) :=
    .init ⟨150, 2, by norm_num, rfl⟩
  have hack : (fun alloc => Nullable.tableWriteEntry alloc 4 (fun _ _ => 0) 5 1) ∈ uidCalls :=
    ⟨4, fun _ _ => 0, 5, 1, rfl⟩
  refine ⟨_, _, hinit.step ⟨_, hack, fun _ => true, .inl ⟨(), rfl⟩⟩, rfl, rfl, rfl, ?_⟩
  intro hintact
  have hread := hintact.read 5
  rw [uidView_read] at hread
  exact absurd hread (by decide)

end CausalBroadcast
