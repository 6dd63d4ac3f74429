import CausalBroadcast.Model.Data

/-!
# The task queue

`mqueue.c`: a circular buffer that `enqueue` doubles when it is full.  Memory
that `calloc` returns holds the default task.  An index outside the buffer ends in
`undefined`; that happens when the doubled size does not fit an `unsigned int`.

`MsgQueue.contents` is the list that a queue stands for, and
`MsgQueue.WellFormed` what its indices satisfy between calls: `enqueue` appends to
the contents (`enqueue_cases`) and `dequeue` takes their head (`dequeue_eq`).
-/

namespace CausalBroadcast

/-- `msg_queue_t`. -/
structure MsgQueue (Task : Type) where
  noElem : ℕ
  qsize : ℕ
  front : ℕ
  back : ℕ
  elems : List Task

variable {Task : Type} [Inhabited Task]

abbrev QueueCall (Task : Type) := Call ErrorCode (MsgQueue Task)

/-- `init_queue`; the field `qsize` is an `unsigned int`. -/
def initQueue (size : ℕ) : MsgQueue Task where
  noElem := 0
  qsize := u32 size
  front := 0
  back := 0
  elems := List.replicate size default

/-- The copying loop of `realloc_queue`, with `n` rounds to go. -/
def copyElems (old : MsgQueue Task) : ℕ → ℕ → ℕ → List Task → Option (List Task)
  | 0, _, _, elems => some elems
  | n + 1, i, index, elems => do
      let task ← old.elems[index]?
      if i < elems.length then
        copyElems old n (i + 1) ((index + 1) % old.qsize) (elems.set i task)
      else none

/-- `realloc_queue`. -/
def reallocQueue : QueueCall Task Unit := do
  let old ← Call.state
  let qsize := u32 (old.qsize * 2)
  let elems ← Call.access
    (copyElems old old.noElem 0 old.front (List.replicate qsize default))
  Call.modify fun _ =>
    { noElem := old.noElem, qsize := qsize, front := 0, back := old.noElem, elems := elems }

/-- The end of `enqueue`, when there is room. -/
def insertBack (task : Task) : QueueCall Task Unit := do
  let queue ← Call.state
  if queue.back < queue.elems.length then
    Call.modify fun queue => { queue with
      elems := queue.elems.set queue.back task
      noElem := queue.noElem + 1
      back := (queue.back + 1) % queue.qsize }
  else
    Call.undef

/-- `enqueue`. -/
def enqueue (task : Task) : QueueCall Task Unit := do
  let queue ← Call.state
  if queue.noElem = queue.qsize then do
    reallocQueue
    insertBack task
  else
    insertBack task

/-- `dequeue`; `none` is the return value `EMPTY_QUEUE`. -/
def dequeue : QueueCall Task (Option Task) := do
  let queue ← Call.state
  if queue.noElem = 0 then
    pure none
  else do
    let task ← Call.access queue.elems[queue.front]?
    Call.modify fun queue => { queue with
      noElem := queue.noElem - 1
      front := (queue.front + 1) % queue.qsize }
    pure (some task)

namespace MsgQueue

/-- The task in position `k`, counted from the front. -/
def nth (queue : MsgQueue Task) (k : ℕ) : Task :=
  queue.elems.getD ((queue.front + k) % queue.qsize) default

/-- The tasks of a queue, oldest first. -/
def contents (queue : MsgQueue Task) : List Task := (List.range queue.noElem).map queue.nth

/-- What holds of the indices of a queue between calls. -/
structure WellFormed (queue : MsgQueue Task) : Prop where
  length : queue.elems.length = queue.qsize
  qsize_lt : queue.qsize < 2 ^ 32
  noElem_le : queue.noElem ≤ queue.qsize
  front_lt : queue.front < queue.qsize
  back : queue.back = (queue.front + queue.noElem) % queue.qsize

theorem initQueue_wellFormed {size : ℕ} (hpos : 0 < size) (hlt : size < 2 ^ 32) :
    (initQueue size : MsgQueue Task).WellFormed where
  length := List.length_replicate.trans (u32_of_lt hlt).symm
  qsize_lt := (u32_le size).trans_lt hlt
  noElem_le := Nat.zero_le _
  front_lt := hpos.trans_eq (u32_of_lt hlt).symm
  back := by simp [initQueue]

@[simp] theorem contents_initQueue (size : ℕ) : (initQueue size : MsgQueue Task).contents = [] :=
  rfl

end MsgQueue

/-! ## `enqueue` appends -/

theorem copyElems_eq {old : MsgQueue Task} (hlength : old.elems.length = old.qsize) :
    ∀ (n i index : ℕ) (elems : List Task), index < old.qsize → i + n ≤ elems.length →
      ∃ elems', copyElems old n i index elems = some elems' ∧ elems'.length = elems.length ∧
        (∀ j < i, elems'.getD j default = elems.getD j default) ∧
        ∀ k < n, elems'.getD (i + k) default =
          old.elems.getD ((index + k) % old.qsize) default := by
  intro n
  induction n with
  | zero => exact fun i index elems _ _ => ⟨elems, rfl, rfl, fun _ _ => rfl, by simp⟩
  | succ n ih =>
      intro i index elems hindex hroom
      have hread : old.elems[index]? = some (old.elems.getD index default) := by
        rw [List.getD_eq_getElem?_getD, List.getElem?_eq_getElem (hlength.symm ▸ hindex)]
        rfl
      obtain ⟨elems', hcopy, hlength', hbefore, hcopied⟩ :=
        ih (i + 1) ((index + 1) % old.qsize) (elems.set i (old.elems.getD index default))
          (Nat.mod_lt _ (by omega)) (by rw [List.length_set]; omega)
      have hset : ∀ j, (elems.set i (old.elems.getD index default)).getD j default =
          if j = i then old.elems.getD index default else elems.getD j default := by
        intro j
        rw [List.getD_eq_getElem?_getD, List.getElem?_set, List.getD_eq_getElem?_getD]
        by_cases hj : i = j
        · subst hj
          rw [if_pos rfl, if_pos (by omega), if_pos rfl]
          rfl
        · rw [if_neg hj, if_neg (Ne.symm hj), List.getD_eq_getElem?_getD]
      -- The element at `i` is set now, and the rounds that are left do not touch it.
      refine ⟨elems', ?_, by rw [hlength', List.length_set], fun j hj => ?_, fun k hk => ?_⟩
      · rw [copyElems, hread]
        simp only [Option.bind_eq_bind, Option.bind_some]
        rw [if_pos (by omega), hcopy]
      · rw [hbefore j (by omega), hset, if_neg (by omega)]
      · cases k with
        | zero =>
            have := hbefore i (by omega)
            rw [hset, if_pos rfl] at this
            rw [Nat.add_zero, this, Nat.add_zero, Nat.mod_eq_of_lt hindex]
        | succ k =>
            have := hcopied k (by omega)
            rw [Nat.mod_add_mod] at this
            rw [show i + (k + 1) = i + 1 + k by omega, this]
            congr 2
            omega

omit [Inhabited Task] in
theorem copyElems_short (old : MsgQueue Task) :
    ∀ (n i index : ℕ) (elems : List Task), elems.length < i + n → 0 < n →
      copyElems old n i index elems = none := by
  intro n
  induction n with
  | zero => intro i index elems _ hpos; exact absurd hpos (lt_irrefl _)
  | succ n ih =>
      intro i index elems hshort _
      rw [copyElems]
      cases old.elems[index]? with
      | none => rfl
      | some task =>
          simp only [Option.bind_eq_bind, Option.bind_some]
          by_cases hi : i < elems.length
          · rw [if_pos hi]
            exact ih _ _ _ (by rw [List.length_set]; omega) (by omega)
          · rw [if_neg hi]

section Enqueue

variable {queue : MsgQueue Task}

theorem insertBack_eq (h : queue.WellFormed) (hroom : queue.noElem < queue.qsize) (task : Task) :
    ∃ queue', insertBack task queue = .ok () queue' ∧ queue'.WellFormed ∧
      queue'.contents = queue.contents ++ [task] := by
  have hpos : 0 < queue.qsize := (Nat.zero_le _).trans_lt h.front_lt
  have hback : queue.back < queue.qsize := h.back ▸ Nat.mod_lt _ hpos
  refine ⟨{ queue with
    elems := queue.elems.set queue.back task
    noElem := queue.noElem + 1
    back := (queue.back + 1) % queue.qsize }, by simp [insertBack, h.length, hback],
    ⟨?_, h.qsize_lt, hroom, h.front_lt, ?_⟩, ?_⟩
  · rw [List.length_set, h.length]
  · show (queue.back + 1) % queue.qsize = (queue.front + (queue.noElem + 1)) % queue.qsize
    rw [h.back, Nat.mod_add_mod, Nat.add_assoc]
  · unfold MsgQueue.contents
    rw [List.range_succ, List.map_append]
    congr 1
    · -- the positions in use are not the one that is written
      refine List.map_congr_left fun k hk => ?_
      have hlt : k < queue.noElem := List.mem_range.mp hk
      have hne : (queue.front + k) % queue.qsize ≠ queue.back := by
        rw [h.back]
        intro heq
        have hmod : (queue.front + k) ≡ (queue.front + queue.noElem) [MOD queue.qsize] := heq
        have hk := Nat.ModEq.add_left_cancel' _ hmod
        rw [Nat.ModEq, Nat.mod_eq_of_lt (by omega), Nat.mod_eq_of_lt hroom] at hk
        omega
      unfold MsgQueue.nth
      rw [List.getD_eq_getElem?_getD, List.getElem?_set, if_neg hne.symm,
        List.getD_eq_getElem?_getD]
    · unfold MsgQueue.nth
      simp only [List.map_cons, List.map_nil, ← h.back]
      rw [List.getD_eq_getElem?_getD, List.getElem?_set, if_pos rfl, if_pos (h.length ▸ hback)]
      rfl

theorem reallocQueue_eq (h : queue.WellFormed) (hfull : queue.noElem = queue.qsize)
    (hbound : queue.qsize * 2 < 2 ^ 32) :
    ∃ queue', reallocQueue queue = .ok () queue' ∧ queue'.WellFormed ∧
      queue'.noElem < queue'.qsize ∧ queue'.contents = queue.contents := by
  have hpos : 0 < queue.qsize := (Nat.zero_le _).trans_lt h.front_lt
  obtain ⟨elems, hcopy, hlength, -, hcopied⟩ := copyElems_eq h.length queue.noElem 0 queue.front
    (List.replicate (queue.qsize * 2) default) h.front_lt (by rw [List.length_replicate]; omega)
  rw [List.length_replicate] at hlength
  refine ⟨{ noElem := queue.noElem, qsize := queue.qsize * 2, front := 0, back := queue.noElem,
            elems := elems }, by simp [reallocQueue, u32_of_lt hbound, hcopy],
    ⟨hlength, hbound, ?_, ?_, ?_⟩, ?_, ?_⟩
  · show queue.noElem ≤ queue.qsize * 2
    omega
  · show 0 < queue.qsize * 2
    omega
  · show queue.noElem = (0 + queue.noElem) % (queue.qsize * 2)
    rw [Nat.zero_add, Nat.mod_eq_of_lt (by omega)]
  · show queue.noElem < queue.qsize * 2
    omega
  · refine List.map_congr_left fun k hk => ?_
    have hlt : k < queue.noElem := List.mem_range.mp hk
    have := hcopied k hlt
    unfold MsgQueue.nth
    rw [Nat.zero_add] at this
    show elems.getD ((0 + k) % (queue.qsize * 2)) default = _
    rw [Nat.zero_add, Nat.mod_eq_of_lt (by omega), this]

theorem enqueue_eq (h : queue.WellFormed) (hbound : queue.noElem < 2 ^ 31) (task : Task) :
    ∃ queue', enqueue task queue = .ok () queue' ∧ queue'.WellFormed ∧
      queue'.contents = queue.contents ++ [task] := by
  by_cases hfull : queue.noElem = queue.qsize
  · obtain ⟨grown, hrealloc, hgrown, hroom, hcontents⟩ :=
      reallocQueue_eq h hfull (by omega)
    obtain ⟨queue', hinsert, hwf, happend⟩ := insertBack_eq hgrown hroom task
    refine ⟨queue', ?_, hwf, by rw [happend, hcontents]⟩
    simp [enqueue, hfull, hrealloc, hinsert]
  · obtain ⟨queue', hinsert, hwf, happend⟩ :=
      insertBack_eq h (lt_of_le_of_ne h.noElem_le hfull) task
    exact ⟨queue', by simp [enqueue, hfull, hinsert], hwf, happend⟩

/-- When the size cannot be doubled, the copying loop leaves the new buffer. -/
theorem enqueue_cases (h : queue.WellFormed) (task : Task) :
    enqueue task queue = .undefined ∨ ∃ queue', enqueue task queue = .ok () queue' ∧
      queue'.WellFormed ∧ queue'.contents = queue.contents ++ [task] := by
  by_cases hbound : queue.noElem < 2 ^ 31
  · exact .inr (enqueue_eq h hbound task)
  by_cases hfull : queue.noElem = queue.qsize
  · left
    have hlt := h.qsize_lt
    have hshort : u32 (queue.qsize * 2) < queue.noElem := by
      unfold u32
      omega
    have hcopy := copyElems_short queue queue.noElem 0 queue.front
      (List.replicate (u32 (queue.qsize * 2)) default)
      (by rw [List.length_replicate]; omega) (by omega)
    rw [hfull] at hcopy
    simp [enqueue, reallocQueue, hfull, hcopy]
  · obtain ⟨queue', hinsert, hwf, happend⟩ :=
      insertBack_eq h (lt_of_le_of_ne h.noElem_le hfull) task
    exact .inr ⟨queue', by simp [enqueue, hfull, hinsert], hwf, happend⟩

/-! ## `dequeue` takes the head -/

theorem dequeue_eq (h : queue.WellFormed) :
    (queue.contents = [] ∧ dequeue queue = .ok none queue) ∨
      ∃ task rest queue', queue.contents = task :: rest ∧ dequeue queue = .ok (some task) queue' ∧
        queue'.WellFormed ∧ queue'.contents = rest := by
  have hpos : 0 < queue.qsize := (Nat.zero_le _).trans_lt h.front_lt
  cases hcount : queue.noElem with
  | zero => exact .inl ⟨by simp [MsgQueue.contents, hcount], by simp [dequeue, hcount]⟩
  | succ n =>
      right
      have hread : queue.elems[queue.front]? = some (queue.nth 0) := by
        unfold MsgQueue.nth
        rw [Nat.add_zero, Nat.mod_eq_of_lt h.front_lt, List.getD_eq_getElem?_getD,
          List.getElem?_eq_getElem (h.length.symm ▸ h.front_lt)]
        rfl
      refine ⟨queue.nth 0, (List.range n).map fun k => queue.nth (k + 1), { queue with
        noElem := n
        front := (queue.front + 1) % queue.qsize }, ?_, ?_, ⟨h.length, h.qsize_lt, ?_, ?_, ?_⟩, ?_⟩
      · rw [MsgQueue.contents, hcount, List.range_succ_eq_map, List.map_cons, List.map_map]
        rfl
      · simp [dequeue, hcount, hread]
      · have := h.noElem_le
        show n ≤ queue.qsize
        omega
      · exact Nat.mod_lt _ hpos
      · show queue.back = ((queue.front + 1) % queue.qsize + n) % queue.qsize
        rw [h.back, hcount, Nat.mod_add_mod]
        congr 1
        omega
      · refine List.map_congr_left fun k _ => ?_
        unfold MsgQueue.nth
        rw [Nat.mod_add_mod]
        congr 2
        omega

end Enqueue

end CausalBroadcast
