import CausalBroadcast.Library.Linked
import CausalBroadcast.Model.Pending

/-!
# The pending lists in memory

`add_veclist`, `remove_veclist` and `free_veclist` of `pending.c` on an explicit heap.
Nodes and clock arrays have addresses, and `none` is the null pointer.  Going through a
null pointer or to a freed block ends in `undefined`.

The addresses that `malloc` and `calloc` return are arguments of `add_veclist`, where
`none` says that the allocation failed.  The node of an `add_veclist` that fails later
is leaked; the heap forgets it.
-/

namespace CausalBroadcast

/-- `vec_clock_t`; the mutex of a clock in a list is not used. -/
structure VecClock where
  numProc : ℕ
  vector : Option ℕ

/-- `vec_node_t`. -/
structure VecNode where
  clock : VecClock
  next : Option ℕ
  previous : Option ℕ

/-- `vec_list_t`. -/
structure VecList where
  numElems : ℕ
  head : Option ℕ
  tail : Option ℕ

/-- The nodes and the arrays that are allocated, and the array `pending->lists`. -/
structure VecHeap where
  nodes : ℕ → Option VecNode
  vectors : ℕ → Option (List ℕ)
  lists : ℕ → VecList

abbrev VecCall := Call ErrorCode VecHeap

/-- What `init_veclist` makes of a list. -/
def initVeclist : VecList where
  numElems := 0
  head := none
  tail := none

namespace VecHeap

/-- The heap with `node` as the node at address `a`. -/
def setNode (heap : VecHeap) (a : ℕ) (node : Option VecNode) : VecHeap :=
  { heap with nodes := Function.update heap.nodes a node }

/-- The heap with `values` as the array at address `block`. -/
def setVector (heap : VecHeap) (block : ℕ) (values : Option (List ℕ)) : VecHeap :=
  { heap with vectors := Function.update heap.vectors block values }

/-- The heap with `list` as list `i`. -/
def setList (heap : VecHeap) (i : ℕ) (list : VecList) : VecHeap :=
  { heap with lists := Function.update heap.lists i list }

/-- Read the node behind a pointer. -/
def readNode (pointer : Option ℕ) : VecCall VecNode := do
  let heap ← Call.state
  Call.access (pointer.bind heap.nodes)

/-- Write a field of the node behind a pointer. -/
def writeNode (pointer : Option ℕ) (change : VecNode → VecNode) : VecCall Unit := do
  let a ← Call.access pointer
  let node ← readNode (some a)
  Call.modify (·.setNode a (some (change node)))

/-- `alloc_vector`; `block` is what `calloc` returns. -/
def allocVector (block : Option ℕ) (numProc : ℕ) (values : Option ℕ) : VecCall VecClock :=
  match block with
  | none => Call.fail .memory
  | some vector => do
      let heap ← Call.state
      let source ← Call.access (values.bind heap.vectors)
      if source.length < numProc then
        Call.undef
      else do
        Call.modify (·.setVector vector (some (source.take numProc)))
        pure ⟨numProc, some vector⟩

/-- `destroy_vector`. -/
def destroyVector (clock : VecClock) : VecCall Unit :=
  match clock.vector with
  | none => Call.fail .pointer
  | some vector => do
      let heap ← Call.state
      let _ ← Call.access (heap.vectors vector)
      Call.modify (·.setVector vector none)

/-- `add_veclist` on list `i`; `malloc` returns `node`, and `calloc` returns `block`. -/
def addVeclist (node block : Option ℕ) (clock : VecClock) (i : ℕ) : VecCall Unit :=
  if clock.vector = none then
    Call.fail .pointer
  else
    match node with
    | none => Call.fail .memory
    | some a => do
        let copy ← allocVector block clock.numProc clock.vector
        Call.modify (·.setNode a (some ⟨copy, none, none⟩))
        let heap ← Call.state
        let list := heap.lists i
        if list.numElems = 0 then
          Call.modify (·.setList i ⟨list.numElems + 1, some a, some a⟩)
        else do
          writeNode list.tail fun last => { last with next := some a }
          writeNode (some a) fun added => { added with previous := list.tail }
          Call.modify (·.setList i { list with numElems := list.numElems + 1, tail := some a })

/-- The part of `remove_veclist` for the list's head and the node's next links. -/
def unlinkNext (a i : ℕ) : VecCall Unit := do
  let node ← readNode (some a)
  let heap ← Call.state
  let list := heap.lists i
  if list.head = some a then
    Call.modify (·.setList i { list with head := node.next })
  else
    writeNode node.previous fun before => { before with next := node.next }

/-- The part of `remove_veclist` for the list's tail and the node's previous links. -/
def unlinkPrevious (a i : ℕ) : VecCall Unit := do
  let node ← readNode (some a)
  let heap ← Call.state
  let list := heap.lists i
  if list.tail = some a then
    Call.modify (·.setList i { list with tail := node.previous })
  else
    writeNode node.next fun after => { after with previous := node.previous }

/-- `remove_veclist` on list `i`. -/
def removeVeclist (node : Option ℕ) (i : ℕ) : VecCall Unit :=
  match node with
  | none => Call.fail .pointer
  | some a => do
      let removed ← readNode (some a)
      if removed.clock.vector = none then
        Call.fail .pointer
      else do
        unlinkNext a i
        unlinkPrevious a i
        let heap ← Call.state
        let list := heap.lists i
        Call.modify (·.setList i { list with numElems := list.numElems - 1 })
        destroyVector removed.clock
        Call.modify (·.setNode a none)

/-- The loop of `free_veclist`, for a number of rounds. -/
def freeVeclistLoop (i : ℕ) : ℕ → Option ℕ → VecCall Unit
  | _, none => pure ()
  | 0, some _ => Call.outOfRounds
  | rounds + 1, some a => do
      removeVeclist (some a) i
      let heap ← Call.state
      freeVeclistLoop i rounds (heap.lists i).head

/-- `free_veclist` on list `i`. -/
def freeVeclist (rounds i : ℕ) : VecCall Unit := do
  let heap ← Call.state
  freeVeclistLoop i rounds (heap.lists i).head
  let heap ← Call.state
  let list := heap.lists i
  Call.modify (·.setList i { list with head := none, tail := none })

/-! ## What the operations do to a heap -/

/-- The links of the node at an address. -/
def links (heap : VecHeap) (a : ℕ) : Option (Links ℕ) :=
  (heap.nodes a).map fun node => ⟨node.next, node.previous⟩

/-- The pointer to the clock array of the node at an address. -/
def vectorOf (heap : VecHeap) (a : ℕ) : Option ℕ := (heap.nodes a).bind (·.clock.vector)

/-- The clock of the node at an address. -/
def clockAt (heap : VecHeap) (a : ℕ) : Option (List ℕ) := (heap.vectorOf a).bind heap.vectors

/-- The heap `heap'` has the arrays of `heap`, and the nodes of `heap` with the links that
`change` makes of theirs. -/
structure Relinks (heap heap' : VecHeap) (change : ℕ → Links ℕ → Links ℕ) : Prop where
  vectors : heap'.vectors = heap.vectors
  vectorOf : heap'.vectorOf = heap.vectorOf
  links : ∀ b, heap'.links b = (heap.links b).map (change b)

section Spec

variable {heap : VecHeap} {a i : ℕ} {node : VecNode} {before after : List ℕ}

theorem readNode_eq (hnode : heap.nodes a = some node) :
    readNode (some a) heap = .ok node heap := by
  simp [readNode, hnode]

theorem writeNode_eq (hnode : heap.nodes a = some node) (change : VecNode → VecNode) :
    writeNode (some a) change heap = .ok () (heap.setNode a (some (change node))) := by
  simp [writeNode, readNode_eq hnode]

theorem node_of_links {l : Links ℕ} (h : heap.links a = some l) :
    ∃ node, heap.nodes a = some node ∧ node.next = l.next ∧ node.previous = l.previous := by
  obtain ⟨node, hnode, rfl⟩ := Option.map_eq_some_iff.mp h
  exact ⟨node, hnode, rfl, rfl⟩

theorem links_setNode (a b : ℕ) (node : VecNode) :
    (heap.setNode a (some node)).links b =
      if b = a then some ⟨node.next, node.previous⟩ else heap.links b := by
  unfold links setNode
  by_cases hb : b = a
  · simp [hb]
  · simp [hb]

theorem vectorOf_setNode (a b : ℕ) (node : VecNode) :
    (heap.setNode a (some node)).vectorOf b =
      if b = a then node.clock.vector else heap.vectorOf b := by
  unfold vectorOf setNode
  by_cases hb : b = a
  · simp [hb]
  · simp [hb]

/-- A write of links keeps the clocks of the nodes. -/
theorem relinks_setNode (hnode : heap.nodes a = some node) (change : VecNode → VecNode)
    (relink : Links ℕ → Links ℕ) (hclock : (change node).clock = node.clock)
    (hlinks : ⟨(change node).next, (change node).previous⟩ =
      relink ⟨node.next, node.previous⟩) :
    Relinks heap (heap.setNode a (some (change node))) fun b l =>
      if some a = some b then relink l else l where
  vectors := rfl
  vectorOf := by
    funext b
    rw [vectorOf_setNode, hclock]
    by_cases hb : b = a
    · rw [if_pos hb, hb, vectorOf, hnode]
      rfl
    · rw [if_neg hb]
  links b := by
    rw [links_setNode]
    by_cases hb : b = a
    · rw [if_pos hb, hb, links, hnode, hlinks, Option.map_some, Option.map_some, if_pos rfl]
    · simp [hb, Ne.symm hb]

theorem writeNode_next {l : Links ℕ} (hl : heap.links a = some l) (target : Option ℕ) :
    ∃ heap', writeNode (some a) (fun node => { node with next := target }) heap = .ok () heap' ∧
      heap'.lists = heap.lists ∧ Relinks heap heap' fun b l =>
        if some a = some b then { l with next := target } else l := by
  obtain ⟨node, hnode, -, -⟩ := node_of_links hl
  exact ⟨_, writeNode_eq hnode _, rfl, relinks_setNode hnode
    (fun node => { node with next := target }) (fun l => { l with next := target }) rfl rfl⟩

theorem writeNode_previous {l : Links ℕ} (hl : heap.links a = some l) (target : Option ℕ) :
    ∃ heap', writeNode (some a) (fun node => { node with previous := target }) heap =
      .ok () heap' ∧ heap'.lists = heap.lists ∧ Relinks heap heap' fun b l =>
        if some a = some b then { l with previous := target } else l := by
  obtain ⟨node, hnode, -, -⟩ := node_of_links hl
  exact ⟨_, writeNode_eq hnode _, rfl, relinks_setNode hnode
    (fun node => { node with previous := target }) (fun l => { l with previous := target }) rfl rfl⟩

theorem unlinkNext_eq (hnode : heap.links a = some ⟨after.head?, before.getLast?⟩)
    (hhead : (heap.lists i).head = (before ++ a :: after).head?) (hout : a ∉ before)
    (hbefore : ∀ last, before.getLast? = some last → ∃ l, heap.links last = some l) :
    ∃ heap', unlinkNext a i heap = .ok () heap' ∧
      heap'.lists =
        Function.update heap.lists i { heap.lists i with head := (before ++ after).head? } ∧
      Relinks heap heap' fun b l =>
        if before.getLast? = some b then { l with next := after.head? } else l := by
  obtain ⟨node, hread, hnext, hprevious⟩ := node_of_links hnode
  cases hlast : before.getLast? with
  | none =>
      obtain rfl := List.getLast?_eq_none_iff.mp hlast
      refine ⟨heap.setList i { heap.lists i with head := node.next }, ?_, by rw [hnext]; rfl,
        rfl, rfl, fun b => by simp; rfl⟩
      simp [unlinkNext, readNode_eq hread, hhead]
  | some last =>
      have hne : before ≠ [] := fun hnil => by rw [hnil] at hlast; cases hlast
      have hother : (heap.lists i).head ≠ some a := by
        intro heq
        rw [hhead, List.head?_append_of_ne_nil _ hne] at heq
        exact hout (List.mem_of_head? heq)
      have hsame : (heap.lists i).head = (before ++ after).head? := by
        rw [hhead, List.head?_append_of_ne_nil _ hne, List.head?_append_of_ne_nil _ hne]
      obtain ⟨l, hl⟩ := hbefore last hlast
      obtain ⟨heap', hwrite, hlists, hrelinks⟩ := writeNode_next hl after.head?
      refine ⟨heap', ?_, ?_, hrelinks⟩
      · simp only [unlinkNext, Call.bind_apply, readNode_eq hread, Outcome.ok_andThen,
          Call.state_apply, if_neg hother, hnext, hprevious, hlast, hwrite]
      · rw [hlists, ← hsame]
        exact (Function.update_eq_self i heap.lists).symm

theorem unlinkPrevious_eq (hnode : heap.links a = some ⟨after.head?, before.getLast?⟩)
    (htail : (heap.lists i).tail = (before ++ a :: after).getLast?) (hout : a ∉ after)
    (hafter : ∀ first, after.head? = some first → ∃ l, heap.links first = some l) :
    ∃ heap', unlinkPrevious a i heap = .ok () heap' ∧
      heap'.lists =
        Function.update heap.lists i { heap.lists i with tail := (before ++ after).getLast? } ∧
      Relinks heap heap' fun b l =>
        if after.head? = some b then { l with previous := before.getLast? } else l := by
  obtain ⟨node, hread, hnext, hprevious⟩ := node_of_links hnode
  -- The tail moves exactly when no node is behind.
  cases hfirst : after.head? with
  | none =>
      obtain rfl := List.head?_eq_none_iff.mp hfirst
      refine ⟨heap.setList i { heap.lists i with tail := node.previous }, ?_,
        by rw [hprevious, List.append_nil]; rfl, rfl, rfl, fun b => by simp; rfl⟩
      have hlast : (before ++ [a]).getLast? = some a := List.getLast?_concat ..
      simp [unlinkPrevious, readNode_eq hread, htail, hlast]
  | some first =>
      have hne : after ≠ [] := fun hnil => by rw [hnil] at hfirst; cases hfirst
      have hcons : (a :: after).getLast? = after.getLast? := by
        cases after with
        | nil => exact absurd rfl hne
        | cons b rest => exact List.getLast?_cons_cons ..
      have hother : (heap.lists i).tail ≠ some a := by
        intro heq
        rw [htail, List.getLast?_append_of_ne_nil _ (List.cons_ne_nil _ _), hcons] at heq
        exact hout (List.mem_of_getLast? heq)
      have hsame : (heap.lists i).tail = (before ++ after).getLast? := by
        rw [htail, List.getLast?_append_of_ne_nil _ (List.cons_ne_nil _ _), hcons,
          List.getLast?_append_of_ne_nil _ hne]
      obtain ⟨l, hl⟩ := hafter first hfirst
      obtain ⟨heap', hwrite, hlists, hrelinks⟩ := writeNode_previous hl before.getLast?
      refine ⟨heap', ?_, ?_, hrelinks⟩
      · simp only [unlinkPrevious, Call.bind_apply, readNode_eq hread, Outcome.ok_andThen,
          Call.state_apply, if_neg hother, hnext, hprevious, hfirst, hwrite]
      · rw [hlists, ← hsame]
        exact (Function.update_eq_self i heap.lists).symm

/-- What `remove_veclist` does with the node between `before` and `after`. -/
theorem removeVeclist_eq
    (h : DoublyLinked heap.links (heap.lists i).head (heap.lists i).tail (before ++ a :: after))
    {vector : ℕ} {values : List ℕ} (hvector : heap.vectorOf a = some vector)
    (hvalues : heap.vectors vector = some values) :
    ∃ heap', removeVeclist (some a) i heap = .ok () heap' ∧
      heap'.lists = Function.update heap.lists i
        ⟨(heap.lists i).numElems - 1, (before ++ after).head?, (before ++ after).getLast?⟩ ∧
      heap'.vectors = Function.update heap.vectors vector none ∧
      (∀ b ≠ a, heap'.vectorOf b = heap.vectorOf b) ∧
      ∀ b ≠ a, heap'.links b = (heap.links b).map fun l =>
        ⟨if before.getLast? = some b then after.head? else l.next,
          if after.head? = some b then before.getLast? else l.previous⟩ := by
  obtain ⟨hbeforeOut, hafterOut⟩ := DoublyLinked.not_mem_of_nodup_cut h.nodup
  obtain ⟨node, hnode, -, -⟩ := node_of_links h.links_eq
  have hnodeVector : node.clock.vector = some vector := by
    simpa [vectorOf, hnode] using hvector
  -- `remove_veclist` relinks the node before, then the node behind; the two do not see each
  -- other, as no node is in `before` and in `after`.
  obtain ⟨heap₁, hnext, hlists₁, hrelinks₁⟩ := unlinkNext_eq h.links_eq h.head hbeforeOut
    fun last hlast => by
      obtain ⟨rest, rfl⟩ := List.getLast?_eq_some_iff.mp hlast
      exact ⟨_, h.links rest last (a :: after) (by simp)⟩
  have hlinks₁ : heap₁.links a = some ⟨after.head?, before.getLast?⟩ := by
    rw [hrelinks₁.links, h.links_eq, Option.map_some,
      if_neg fun hlast => hbeforeOut (List.mem_of_getLast? hlast)]
  obtain ⟨heap₂, hprevious, hlists₂, hrelinks₂⟩ := unlinkPrevious_eq (i := i) hlinks₁
    (by rw [hlists₁, Function.update_self]; exact h.tail) hafterOut
    fun first hfirst => by
      obtain ⟨rest, rfl⟩ := List.head?_eq_some_iff.mp hfirst
      rw [hrelinks₁.links, h.links (before ++ [a]) first rest (by simp)]
      exact ⟨_, rfl⟩
  have hvalues₂ : heap₂.vectors vector = some values := by
    rw [hrelinks₂.vectors, hrelinks₁.vectors, hvalues]
  refine ⟨((heap₂.setList i { heap₂.lists i with
      numElems := (heap₂.lists i).numElems - 1 }).setVector vector none).setNode a none,
    ?_, ?_, ?_, fun b hb => ?_, fun b hb => ?_⟩
  · simp [removeVeclist, readNode_eq hnode, hnodeVector, hnext, hprevious, destroyVector,
      setList, hvalues₂]
  · show Function.update heap₂.lists i _ = _
    rw [hlists₂, hlists₁]
    simp
  · show Function.update heap₂.vectors vector none = _
    rw [hrelinks₂.vectors, hrelinks₁.vectors]
  · have hsame : heap₂.vectorOf b = heap.vectorOf b := by
      rw [hrelinks₂.vectorOf, hrelinks₁.vectorOf]
    rw [← hsame]
    simp [vectorOf, setNode, setVector, setList, hb]
  -- Both relinkings of one node, in one function.
  · have hsame : heap₂.links b = (heap.links b).map fun l =>
        ⟨if before.getLast? = some b then after.head? else l.next,
          if after.head? = some b then before.getLast? else l.previous⟩ := by
      rw [hrelinks₂.links, hrelinks₁.links, Option.map_map]
      congr 1
      funext l
      simp only [Function.comp_apply]
      split <;> split <;> rfl
    rw [← hsame]
    simp [links, setNode, setVector, setList, hb]

/-- What `add_veclist` does behind the nodes `before`. -/
theorem addVeclist_eq
    (h : DoublyLinked heap.links (heap.lists i).head (heap.lists i).tail before)
    (hnumElems : (heap.lists i).numElems = before.length) (hout : a ∉ before)
    {clock : VecClock} {values : List ℕ} (hvalues : clock.vector.bind heap.vectors = some values)
    (hlength : clock.numProc ≤ values.length) (block : ℕ) :
    ∃ heap', addVeclist (some a) (some block) clock i heap = .ok () heap' ∧
      heap'.lists = Function.update heap.lists i
        ⟨(heap.lists i).numElems + 1, (before ++ [a]).head?, some a⟩ ∧
      heap'.vectors =
        Function.update heap.vectors block (some (values.take clock.numProc)) ∧
      (∀ b, heap'.vectorOf b = if b = a then some block else heap.vectorOf b) ∧
      ∀ b, heap'.links b = if b = a then some ⟨none, before.getLast?⟩ else
        (heap.links b).map fun l =>
          if before.getLast? = some b then { l with next := some a } else l := by
  have hvector : clock.vector ≠ none := fun hnone => by rw [hnone] at hvalues; cases hvalues
  set heap₁ := (heap.setVector block (some (values.take clock.numProc))).setNode a
    (some ⟨⟨clock.numProc, some block⟩, none, none⟩) with hheap₁
  have hlinks₁ : ∀ b, heap₁.links b = if b = a then some ⟨none, none⟩ else heap.links b :=
    fun b => links_setNode a b _
  have hvectorOf₁ : ∀ b, heap₁.vectorOf b = if b = a then some block else heap.vectorOf b :=
    fun b => vectorOf_setNode a b _
  have hcopy : allocVector (some block) clock.numProc clock.vector heap =
      .ok ⟨clock.numProc, some block⟩
        (heap.setVector block (some (values.take clock.numProc))) := by
    simp [allocVector, hvalues, not_lt.mpr hlength]
  -- `num_elems` decides in the code; it is 0 exactly when there is no last node.
  cases hlast : before.getLast? with
  | none =>
      obtain rfl := List.getLast?_eq_none_iff.mp hlast
      have hzero : (heap₁.lists i).numElems = 0 := hnumElems
      refine ⟨heap₁.setList i ⟨(heap₁.lists i).numElems + 1, some a, some a⟩, ?_, rfl, rfl,
        hvectorOf₁, fun b => ?_⟩
      · simp only [addVeclist, if_neg hvector, Call.bind_apply, hcopy, Outcome.ok_andThen,
          Call.modify_apply, Call.state_apply]
        rw [← hheap₁, if_pos hzero, Call.modify_apply]
      · show heap₁.links b = _
        rw [hlinks₁]
        simp
  | some last =>
      have hne : before ≠ [] := fun hnil => by rw [hnil] at hlast; cases hlast
      have hlastOut : last ≠ a := fun heq => hout (heq ▸ List.mem_of_getLast? hlast)
      have hpositive : (heap₁.lists i).numElems ≠ 0 := by
        show (heap.lists i).numElems ≠ 0
        rw [hnumElems]
        exact fun hzero => hne (List.length_eq_zero_iff.mp hzero)
      have htail : (heap₁.lists i).tail = some last := h.tail.trans hlast
      obtain ⟨rest, hrest⟩ := List.getLast?_eq_some_iff.mp hlast
      have hl : heap₁.links last = some ⟨none, rest.getLast?⟩ := by
        rw [hlinks₁, if_neg hlastOut, h.links rest last [] hrest]
        rfl
      obtain ⟨heap₂, hnext, hlists₂, hrelinks₂⟩ := writeNode_next hl (some a)
      have hadded : heap₂.links a = some ⟨none, none⟩ := by
        rw [hrelinks₂.links, hlinks₁, if_pos rfl, Option.map_some,
          if_neg fun heq => hlastOut (Option.some.inj heq)]
      obtain ⟨heap₃, hprevious, hlists₃, hrelinks₃⟩ := writeNode_previous hadded (some last)
      refine ⟨heap₃.setList i { heap₁.lists i with
          numElems := (heap₁.lists i).numElems + 1, tail := some a }, ?_, ?_, ?_,
        fun b => ?_, fun b => ?_⟩
      · simp only [addVeclist, if_neg hvector, Call.bind_apply, hcopy, Outcome.ok_andThen,
          Call.modify_apply, Call.state_apply]
        rw [← hheap₁, if_neg hpositive, htail]
        simp only [Call.bind_apply, hnext, hprevious, Outcome.ok_andThen, Call.modify_apply]
      · show Function.update heap₃.lists i ⟨_, (heap.lists i).head, _⟩ = _
        rw [hlists₃, hlists₂, h.head, List.head?_append_of_ne_nil _ hne]
        rfl
      · show heap₃.vectors = _
        rw [hrelinks₃.vectors, hrelinks₂.vectors]
        rfl
      · show heap₃.vectorOf b = _
        rw [hrelinks₃.vectorOf, hrelinks₂.vectorOf, hvectorOf₁]
      · show heap₃.links b = _
        rw [hrelinks₃.links, hrelinks₂.links, hlinks₁]
        by_cases hb : b = a
        · subst hb
          simp [hlastOut]
        · simp only [if_neg hb, if_neg fun heq => hb (Option.some.inj heq).symm]
          cases heap.links b with
          | none => rfl
          | some l => rfl

end Spec

end VecHeap

end CausalBroadcast
