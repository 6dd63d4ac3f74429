import CausalBroadcast.Model.Queue

/-!
# The task queue as a list

Any sequence of `enqueue` and `dequeue` calls on a fresh queue returns what the
same sequence returns on a list, and leaves a queue whose contents are that list.
A growth rewrites the layout and keeps the contents, so only the size counts: it
runs through `size`, `2 * size`, `4 * size` and so on, and the last of these that
is an `unsigned int`, `maxQueueSize`, is the most that the queue can hold.
-/

namespace CausalBroadcast

variable {Task : Type} [Inhabited Task]

/-- A call on the queue. -/
inductive QueueOp (Task : Type) where
  | enqueue (task : Task)
  | dequeue

/-- The call on a queue; it returns the task that `dequeue` gives out. -/
def QueueOp.call : QueueOp Task → QueueCall Task (Option Task)
  | .enqueue task => do
      CausalBroadcast.enqueue task
      pure none
  | .dequeue => CausalBroadcast.dequeue

/-- What the call returns. -/
def QueueOp.result : QueueOp Task → List Task → Option Task
  | .enqueue _, _ => none
  | .dequeue, tasks => tasks.head?

/-- The tasks after the call. -/
def QueueOp.after : QueueOp Task → List Task → List Task
  | .enqueue task, tasks => tasks ++ [task]
  | .dequeue, tasks => tasks.tail

/-- A sequence of calls on a queue, with what each of them returns. -/
def runQueue : List (QueueOp Task) → QueueCall Task (List (Option Task))
  | [] => pure []
  | op :: ops => do
      let result ← op.call
      let results ← runQueue ops
      pure (result :: results)

/-- What the calls return on a list. -/
def listResults : List (QueueOp Task) → List Task → List (Option Task)
  | [], _ => []
  | op :: ops, tasks => op.result tasks :: listResults ops (op.after tasks)

/-- The list after the calls. -/
def listAfter : List (QueueOp Task) → List Task → List Task
  | [], tasks => tasks
  | op :: ops, tasks => listAfter ops (op.after tasks)

/-- The largest size that doubling reaches from `size` below `2 ^ 32`. -/
def maxQueueSize (size : ℕ) : ℕ := size * 2 ^ Nat.log 2 ((2 ^ 32 - 1) / size)

/-- The list never has more than `most` tasks. -/
def StaysWithin (most : ℕ) : List (QueueOp Task) → List Task → Prop
  | [], _ => True
  | op :: ops, tasks => (op.after tasks).length ≤ most ∧ StaysWithin most ops (op.after tasks)

/-! ## The sizes of a queue -/

theorem maxQueueSize_lt {size : ℕ} (hpos : 0 < size) (hlt : size < 2 ^ 32) :
    maxQueueSize size < 2 ^ 32 := by
  have hquot : (2 ^ 32 - 1) / size ≠ 0 := (Nat.div_pos (by omega) hpos).ne'
  have hpow : 2 ^ Nat.log 2 ((2 ^ 32 - 1) / size) ≤ (2 ^ 32 - 1) / size :=
    Nat.pow_log_le_self 2 hquot
  have hmul := Nat.mul_le_mul_left size hpow
  have hdiv := Nat.mul_div_le (2 ^ 32 - 1) size
  unfold maxQueueSize
  omega

theorem le_maxQueueSize {size k : ℕ} (hpos : 0 < size) (hlt : size * 2 ^ k < 2 ^ 32) :
    size * 2 ^ k ≤ maxQueueSize size := by
  apply Nat.mul_le_mul_left
  apply Nat.pow_le_pow_right Nat.two_pos
  apply Nat.le_log_of_pow_le Nat.one_lt_two
  rw [Nat.le_div_iff_mul_le hpos, mul_comm]
  omega

/-- The queue has been doubled some number of times. -/
structure MsgQueue.GrownFrom (size : ℕ) (queue : MsgQueue Task) : Prop where
  wellFormed : queue.WellFormed
  doubled : ∃ k, queue.qsize = size * 2 ^ k

theorem MsgQueue.length_contents (queue : MsgQueue Task) :
    queue.contents.length = queue.noElem := by
  rw [MsgQueue.contents, List.length_map, List.length_range]

theorem initQueue_grownFrom {size : ℕ} (hpos : 0 < size) (hlt : size < 2 ^ 32) :
    (initQueue size : MsgQueue Task).GrownFrom size :=
  ⟨MsgQueue.initQueue_wellFormed hpos hlt, 0, by rw [pow_zero, mul_one]; exact u32_of_lt hlt⟩

omit [Inhabited Task] in
theorem insertBack_qsize {task : Task} {queue queue' : MsgQueue Task} {value : Unit}
    (h : insertBack task queue = .ok value queue') : queue'.qsize = queue.qsize := by
  simp only [insertBack, Call.bind_apply, Call.state_apply, Outcome.ok_andThen,
    Call.ite_apply] at h
  split at h
  · obtain ⟨-, rfl⟩ := Outcome.ok.inj h
    rfl
  · cases h

theorem reallocQueue_qsize {queue queue' : MsgQueue Task} {value : Unit}
    (h : reallocQueue queue = .ok value queue') : queue'.qsize = u32 (queue.qsize * 2) := by
  simp only [reallocQueue, Call.bind_apply, Call.state_apply, Outcome.ok_andThen] at h
  cases hcopy : copyElems queue queue.noElem 0 queue.front
      (List.replicate (u32 (queue.qsize * 2)) default) with
  | none => rw [hcopy] at h; cases h
  | some elems =>
      rw [hcopy] at h
      obtain ⟨-, rfl⟩ := Outcome.ok.inj h
      rfl

omit [Inhabited Task] in
theorem dequeue_qsize {queue queue' : MsgQueue Task} {result : Option Task}
    (h : dequeue queue = .ok result queue') : queue'.qsize = queue.qsize := by
  simp only [dequeue, Call.bind_apply, Call.state_apply, Outcome.ok_andThen, Call.ite_apply] at h
  split at h
  · obtain ⟨-, rfl⟩ := Outcome.ok.inj h
    rfl
  · cases hread : queue.elems[queue.front]? with
    | none => rw [hread] at h; cases h
    | some task =>
        rw [hread] at h
        obtain ⟨-, rfl⟩ := Outcome.ok.inj h
        rfl

/-! ## One call -/

section Step

variable {size : ℕ} {queue : MsgQueue Task}

/-- There is room: the task goes to the end. -/
theorem enqueue_grownFrom (hpos : 0 < size) (h : queue.GrownFrom size) (task : Task)
    (hroom : queue.noElem < maxQueueSize size) :
    ∃ queue', enqueue task queue = .ok () queue' ∧ queue'.GrownFrom size ∧
      queue'.contents = queue.contents ++ [task] := by
  obtain ⟨k, hk⟩ := h.doubled
  by_cases hfull : queue.noElem = queue.qsize
  · have hmore : k < Nat.log 2 ((2 ^ 32 - 1) / size) := by
      rw [hfull, hk, maxQueueSize] at hroom
      exact (Nat.pow_lt_pow_iff_right Nat.one_lt_two).mp (Nat.lt_of_mul_lt_mul_left hroom)
    have hlt : size < 2 ^ 32 := by
      have := h.wellFormed.qsize_lt
      rw [hk] at this
      exact (Nat.le_mul_of_pos_right size (Nat.two_pow_pos k)).trans_lt this
    have hdouble : queue.qsize * 2 = size * 2 ^ (k + 1) := by rw [hk, pow_succ, mul_assoc]
    have hbound : queue.qsize * 2 < 2 ^ 32 := by
      refine lt_of_le_of_lt ?_ (maxQueueSize_lt hpos hlt)
      rw [hdouble, maxQueueSize]
      exact Nat.mul_le_mul_left size (Nat.pow_le_pow_right Nat.two_pos hmore)
    obtain ⟨grown, hrealloc, hgrown, hspace, hcontents⟩ :=
      reallocQueue_eq h.wellFormed hfull hbound
    obtain ⟨queue', hinsert, hwf, happend⟩ := insertBack_eq hgrown hspace task
    have hsize : queue'.qsize = size * 2 ^ (k + 1) := by
      rw [insertBack_qsize hinsert, reallocQueue_qsize hrealloc, u32_of_lt hbound, hdouble]
    refine ⟨queue', ?_, ⟨hwf, k + 1, hsize⟩, by rw [happend, hcontents]⟩
    simp [enqueue, hfull, hrealloc, hinsert]
  · obtain ⟨queue', hinsert, hwf, happend⟩ :=
      insertBack_eq h.wellFormed (lt_of_le_of_ne h.wellFormed.noElem_le hfull) task
    have hsize := insertBack_qsize hinsert
    exact ⟨queue', by simp [enqueue, hfull, hinsert], ⟨hwf, k, hsize.trans hk⟩, happend⟩

/-- There is none: the doubled size is no `unsigned int`. -/
theorem enqueue_beyond (hpos : 0 < size) (h : queue.GrownFrom size) (task : Task)
    (hbeyond : maxQueueSize size ≤ queue.noElem) : enqueue task queue = .undefined := by
  obtain ⟨k, hk⟩ := h.doubled
  have hlt := h.wellFormed.qsize_lt
  have hle : queue.qsize ≤ maxQueueSize size := by
    rw [hk] at hlt ⊢
    exact le_maxQueueSize hpos hlt
  have hfull : queue.noElem = queue.qsize :=
    le_antisymm h.wellFormed.noElem_le (hle.trans hbeyond)
  have hover : 2 ^ 32 ≤ queue.qsize * 2 := by
    by_contra hless
    have hdouble : queue.qsize * 2 = size * 2 ^ (k + 1) := by rw [hk, pow_succ, mul_assoc]
    have hmore := le_maxQueueSize hpos (k := k + 1) (by rw [← hdouble]; exact not_le.mp hless)
    have hpos' : 0 < queue.qsize := (Nat.zero_le _).trans_lt h.wellFormed.front_lt
    omega
  have hshort : u32 (queue.qsize * 2) < queue.noElem := by
    unfold u32
    omega
  have hcopy := copyElems_short queue queue.noElem 0 queue.front
    (List.replicate (u32 (queue.qsize * 2)) default)
    (by rw [List.length_replicate]; omega) (by omega)
  rw [hfull] at hcopy
  simp [enqueue, reallocQueue, hfull, hcopy]

theorem QueueOp.call_eq (hpos : 0 < size) (h : queue.GrownFrom size) (op : QueueOp Task)
    (hfits : (op.after queue.contents).length ≤ maxQueueSize size) :
    ∃ queue', op.call queue = .ok (op.result queue.contents) queue' ∧ queue'.GrownFrom size ∧
      queue'.contents = op.after queue.contents := by
  cases op with
  | enqueue task =>
      have hroom : queue.noElem < maxQueueSize size := by
        rw [QueueOp.after, List.length_append, queue.length_contents] at hfits
        exact hfits
      obtain ⟨queue', henqueue, hgrown, hcontents⟩ := enqueue_grownFrom hpos h task hroom
      exact ⟨queue', by simp [QueueOp.call, henqueue, QueueOp.result], hgrown, hcontents⟩
  | dequeue =>
      obtain ⟨k, hk⟩ := h.doubled
      rcases dequeue_eq h.wellFormed with ⟨hnil, hdequeue⟩ |
        ⟨task, rest, queue', hcons, hdequeue, hwf, hcontents⟩
      · refine ⟨queue, ?_, h, ?_⟩
        · rw [QueueOp.call, hdequeue, hnil]
          rfl
        · rw [hnil]
          rfl
      · refine ⟨queue', ?_, ⟨hwf, k, (dequeue_qsize hdequeue).trans hk⟩, ?_⟩
        · rw [QueueOp.call, hdequeue, hcons]
          rfl
        · rw [hcontents, hcons]
          rfl

theorem QueueOp.call_beyond (hpos : 0 < size) (h : queue.GrownFrom size) (op : QueueOp Task)
    (hbeyond : ¬ (op.after queue.contents).length ≤ maxQueueSize size) :
    op.call queue = .undefined := by
  obtain ⟨k, hk⟩ := h.doubled
  have hlt := h.wellFormed.qsize_lt
  have hle : queue.noElem ≤ maxQueueSize size := by
    refine h.wellFormed.noElem_le.trans ?_
    rw [hk] at hlt ⊢
    exact le_maxQueueSize hpos hlt
  cases op with
  | enqueue task =>
      rw [QueueOp.after, List.length_append, queue.length_contents] at hbeyond
      have henqueue := enqueue_beyond hpos h task (by simpa using hbeyond)
      simp [QueueOp.call, henqueue]
  | dequeue =>
      rw [QueueOp.after, List.length_tail, queue.length_contents] at hbeyond
      omega

end Step

/-! ## Any sequence of calls -/

/-- The calls return on the queue what they return on a list, and the queue stands
for the list afterwards, with its indices in order. -/
def BehavesAsList (ops : List (QueueOp Task)) (queue : MsgQueue Task) : Prop :=
  ∃ queue', runQueue ops queue = .ok (listResults ops queue.contents) queue' ∧
    queue'.contents = listAfter ops queue.contents ∧ queue'.noElem ≤ queue'.qsize ∧
    queue'.front < queue'.qsize ∧ queue'.back < queue'.qsize ∧
    queue'.back = (queue'.front + queue'.noElem) % queue'.qsize

theorem behavesAsList_iff {size : ℕ} (hpos : 0 < size) (ops : List (QueueOp Task)) :
    ∀ {queue : MsgQueue Task}, queue.GrownFrom size →
      (BehavesAsList ops queue ↔ StaysWithin (maxQueueSize size) ops queue.contents) := by
  induction ops with
  | nil =>
      intro queue h
      have hwf := h.wellFormed
      have hback : queue.back < queue.qsize := by
        rw [hwf.back]
        exact Nat.mod_lt _ ((Nat.zero_le _).trans_lt hwf.front_lt)
      exact iff_of_true ⟨queue, rfl, rfl, hwf.noElem_le, hwf.front_lt, hback, hwf.back⟩ trivial
  | cons op ops ih =>
      intro queue h
      by_cases hfits : (op.after queue.contents).length ≤ maxQueueSize size
      · obtain ⟨queue', hcall, hgrown, hcontents⟩ := op.call_eq hpos h hfits
        have hrest := ih hgrown
        rw [hcontents] at hrest
        rw [StaysWithin, and_iff_right hfits, ← hrest]
        unfold BehavesAsList
        simp only [runQueue, listResults, listAfter, Call.bind_apply, hcall, Outcome.ok_andThen,
          hcontents]
        refine exists_congr fun queue'' => and_congr_left fun _ => ?_
        cases runQueue ops queue' <;> simp
      · refine iff_of_false ?_ fun hstays => hfits hstays.1
        rintro ⟨queue', hrun, -⟩
        simp [runQueue, op.call_beyond hpos h hfits] at hrun

/-- A fresh queue behaves as a list exactly as long as the list does not outgrow
`maxQueueSize`. -/
theorem queueRefinesList_iff {size : ℕ} (hpos : 0 < size) (hlt : size < 2 ^ 32)
    (ops : List (QueueOp Task)) :
    BehavesAsList ops (initQueue size) ↔ StaysWithin (maxQueueSize size) ops [] := by
  rw [behavesAsList_iff hpos ops (initQueue_grownFrom hpos hlt), MsgQueue.contents_initQueue]

/-- Two tasks in a queue of size one. -/
theorem queueRefinesList_growth :
    BehavesAsList [.enqueue 5, .enqueue 6, .dequeue, .dequeue, .dequeue]
      (initQueue 1 : MsgQueue ℕ) := by
  have hroom : 1 * 2 ^ 1 ≤ maxQueueSize 1 := le_maxQueueSize Nat.one_pos (by decide)
  refine (queueRefinesList_iff Nat.one_pos (by decide) _).mpr ⟨?_, ?_, ?_, ?_, ?_, trivial⟩
  all_goals simp only [QueueOp.after, List.nil_append, List.length_cons, List.length_nil,
    List.cons_append, List.tail_cons, List.tail_nil]
  all_goals omega

theorem enqueue_of_qsize_zero {queue : MsgQueue Task} (hqsize : queue.qsize = 0)
    (hnone : queue.noElem = 0) (task : Task) : enqueue task queue = .undefined := by
  have hzero : u32 0 = 0 := rfl
  simp [enqueue, hqsize, hnone, reallocQueue, hzero, copyElems, insertBack]

/-- `init_queue` takes a `size_t`; of `2 ^ 32` the field `qsize` keeps nothing. -/
theorem queue_sizeTruncated : ¬ BehavesAsList [.enqueue 5] (initQueue (2 ^ 32) : MsgQueue ℕ) := by
  have hqsize : (initQueue (2 ^ 32) : MsgQueue ℕ).qsize = 0 := Nat.mod_self _
  have henqueue := enqueue_of_qsize_zero hqsize rfl 5
  rintro ⟨queue', hrun, -⟩
  rw [runQueue, Call.bind_apply, QueueOp.call, Call.bind_apply, henqueue] at hrun
  cases hrun

end CausalBroadcast
