import CausalBroadcast.Library.Reachability
import CausalBroadcast.Model.VecList

/-!
# The pending lists are doubly linked lists

`VecHeap.Holds` says which nodes and clocks the lists of a heap have.  Each operation
keeps it, with the contents that one expects (`addVeclist_holds`,
`removeVeclist_holds`, `freeVeclist_holds`), and so does everything that leaves the
nodes of the lists alone.  `pendingLists_wellFormed` is what follows for runs, and
`addVeclist_represents` and `removeVeclist_represents` compare the lists with the ones
of `Lcb`.
-/

namespace CausalBroadcast

namespace VecHeap

/-- The next link of the node at an address. -/
def next (heap : VecHeap) (a : ℕ) : Option (Option ℕ) := (heap.links a).map Links.next

/-- The previous link of the node at an address. -/
def previous (heap : VecHeap) (a : ℕ) : Option (Option ℕ) := (heap.links a).map Links.previous

/-- List `i` has the entries `entries`, an address and a clock each, in this order. -/
structure ListIs (heap : VecHeap) (i : ℕ) (entries : List (ℕ × List ℕ)) : Prop where
  nodup : (entries.map Prod.fst).Nodup
  forward : Visits heap.next (heap.lists i).head (entries.map Prod.fst)
  backward : Visits heap.previous (heap.lists i).tail (entries.map Prod.fst).reverse
  numElems : (heap.lists i).numElems = entries.length
  head_eq_none_iff : (heap.lists i).head = none ↔ (heap.lists i).numElems = 0
  tail_eq_none_iff : (heap.lists i).tail = none ↔ (heap.lists i).numElems = 0
  clocks : ∀ e ∈ entries, heap.clockAt e.1 = some e.2

/-- The entries of a list are what a walk from its head sees. -/
theorem ListIs.eq_of_visits {heap : VecHeap} {i : ℕ} {entries : List (ℕ × List ℕ)}
    {nodes : List ℕ} (h : heap.ListIs i entries)
    (hnodes : Visits heap.next (heap.lists i).head nodes) :
    entries = nodes.map fun a => (a, (heap.clockAt a).getD []) := by
  have hclocks : entries.map (fun e => (e.1, (heap.clockAt e.1).getD [])) = entries.map id :=
    List.map_congr_left fun e he => by
      rw [h.clocks e he]
      rfl
  calc entries = entries.map fun e => (e.1, (heap.clockAt e.1).getD []) := by
        rw [hclocks, List.map_id]
    _ = (entries.map Prod.fst).map fun a => (a, (heap.clockAt a).getD []) := by
        rw [List.map_map]
        rfl
    _ = nodes.map fun a => (a, (heap.clockAt a).getD []) := by
        rw [h.forward.eq_of_visits hnodes]

/-- The lists have the entries `contents`, and they share no node and no array. -/
structure Holds (heap : VecHeap) (contents : ℕ → List (ℕ × List ℕ)) : Prop where
  linked : ∀ i, DoublyLinked heap.links (heap.lists i).head (heap.lists i).tail
    ((contents i).map Prod.fst)
  numElems : ∀ i, (heap.lists i).numElems = (contents i).length
  disjoint : ∀ i j, ∀ e ∈ contents i, ∀ e' ∈ contents j, e.1 = e'.1 → i = j
  clocks : ∀ i, ∀ e ∈ contents i, heap.clockAt e.1 = some e.2
  vectors : ∀ i j, ∀ e ∈ contents i, ∀ e' ∈ contents j,
    heap.vectorOf e.1 = heap.vectorOf e'.1 → e.1 = e'.1

variable {heap heap' : VecHeap} {contents : ℕ → List (ℕ × List ℕ)} {i : ℕ}

theorem Holds.listIs (h : heap.Holds contents) (i : ℕ) : heap.ListIs i (contents i) where
  nodup := (h.linked i).nodup
  forward := (h.linked i).visits_next
  backward := (h.linked i).visits_previous
  numElems := h.numElems i
  head_eq_none_iff := by
    rw [(h.linked i).visits_next.eq_none_iff, h.numElems, List.length_map]
  tail_eq_none_iff := by
    rw [(h.linked i).visits_previous.eq_none_iff, h.numElems, List.length_reverse,
      List.length_map]
  clocks := h.clocks i

/-- Two lists share no node. -/
theorem Holds.apart (h : heap.Holds contents) {j : ℕ} (hne : j ≠ i) :
    ∀ a ∈ (contents j).map Prod.fst, a ∉ (contents i).map Prod.fst := by
  intro a ha ha'
  obtain ⟨e, he, rfl⟩ := List.mem_map.mp ha
  obtain ⟨e', he', heq⟩ := List.mem_map.mp ha'
  exact hne (h.disjoint j i e he e' he' heq.symm)

theorem holds_of_init (hinit : ∀ i, heap.lists i = initVeclist) : heap.Holds fun _ => [] where
  linked i := by
    rw [hinit i]
    exact DoublyLinked.nil heap.links
  numElems i := by rw [hinit i]; rfl
  disjoint := by simp
  clocks := by simp
  vectors := by simp

/-! ## One operation -/

/-- The copy that `add_veclist` makes of a clock. -/
def valuesOf (heap : VecHeap) (clock : VecClock) : List ℕ :=
  ((clock.vector.bind heap.vectors).getD []).take clock.numProc

/-- The array of a clock is allocated and has all the entries. -/
def Readable (heap : VecHeap) (clock : VecClock) : Prop :=
  ∃ values, clock.vector.bind heap.vectors = some values ∧ clock.numProc ≤ values.length

theorem addVeclist_holds (h : heap.Holds contents) {clock : VecClock}
    (hclock : heap.Readable clock) {a block : ℕ} (ha : heap.nodes a = none)
    (hblock : heap.vectors block = none) (i : ℕ) :
    ∃ heap', addVeclist (some a) (some block) clock i heap = .ok () heap' ∧
      heap'.Holds (Function.update contents i (contents i ++ [(a, heap.valuesOf clock)])) := by
  obtain ⟨values, hvalues, hlength⟩ := hclock
  have hcopy : heap.valuesOf clock = values.take clock.numProc := by rw [valuesOf, hvalues]; rfl
  -- the blocks are new: what the lists have is allocated
  have hfresh : ∀ j, ∀ e ∈ contents j, e.1 ≠ a := by
    intro j e he heq
    have hclockAt := h.clocks j e he
    rw [clockAt, vectorOf, heq, ha] at hclockAt
    cases hclockAt
  have hfreshBlock : ∀ j, ∀ e ∈ contents j, heap.vectorOf e.1 ≠ some block := by
    intro j e he heq
    have hclockAt := h.clocks j e he
    rw [clockAt, heq, Option.bind_some, hblock] at hclockAt
    cases hclockAt
  have hout : ∀ j, a ∉ (contents j).map Prod.fst := by
    intro j hmem
    obtain ⟨e, he, heq⟩ := List.mem_map.mp hmem
    exact hfresh j e he heq
  obtain ⟨heap', hcall, hlists, hvectors, hvectorOf, hlinks⟩ := addVeclist_eq (h.linked i)
    ((h.numElems i).trans (List.length_map _).symm) (hout i) hvalues hlength block
  have hentries : ∀ j, ∀ e ∈ Function.update contents i
      (contents i ++ [(a, heap.valuesOf clock)]) j,
      (e = (a, heap.valuesOf clock) ∧ j = i) ∨ e ∈ contents j := by
    intro j e he
    by_cases hj : j = i
    · subst hj
      rw [Function.update_self, List.mem_append, List.mem_singleton] at he
      exact he.symm.imp (fun heq => ⟨heq, rfl⟩) id
    · rw [Function.update_of_ne hj] at he
      exact .inr he
  have hvectorOf_old : ∀ j, ∀ e ∈ contents j, heap'.vectorOf e.1 = heap.vectorOf e.1 :=
    fun j e he => by rw [hvectorOf, if_neg (hfresh j e he)]
  refine ⟨heap', hcall, fun j => ?_, fun j => ?_, fun j k e he e' he' heq => ?_,
    fun j e he => ?_, fun j k e he e' he' heq => ?_⟩
  · -- the list that grows, then the ones that share no node with it
    by_cases hj : j = i
    · subst hj
      rw [hlists, Function.update_self, Function.update_self, List.map_append]
      exact (h.linked j).append_of_map (hout j) rfl rfl hlinks
    · rw [hlists, Function.update_of_ne hj, Function.update_of_ne hj]
      exact (h.linked j).congr_of_append (hout j) (h.apart hj) hlinks
  · by_cases hj : j = i
    · subst hj
      simp [hlists, h.numElems]
    · simp [hlists, hj, h.numElems]
  · rcases hentries j e he with ⟨rfl, rfl⟩ | hold
    · rcases hentries k e' he' with ⟨-, rfl⟩ | hold'
      · rfl
      · exact absurd heq.symm (hfresh k e' hold')
    · rcases hentries k e' he' with ⟨rfl, -⟩ | hold'
      · exact absurd heq (hfresh j e hold)
      · exact h.disjoint j k e hold e' hold' heq
  · rcases hentries j e he with ⟨rfl, -⟩ | hold
    · rw [clockAt, hvectorOf, if_pos rfl, Option.bind_some, hvectors, Function.update_self, hcopy]
    · obtain ⟨vector, hvector, hread⟩ := Option.bind_eq_some_iff.mp (h.clocks j e hold)
      have hne : vector ≠ block := fun heq => hfreshBlock j e hold (heq ▸ hvector)
      rw [clockAt, hvectorOf_old j e hold, hvector, Option.bind_some, hvectors,
        Function.update_of_ne hne, hread]
  · rcases hentries j e he with ⟨rfl, -⟩ | hold
    · rcases hentries k e' he' with ⟨rfl, -⟩ | hold'
      · rfl
      · rw [hvectorOf, if_pos rfl, hvectorOf_old k e' hold'] at heq
        exact absurd heq.symm (hfreshBlock k e' hold')
    · rcases hentries k e' he' with ⟨rfl, -⟩ | hold'
      · rw [hvectorOf_old j e hold, hvectorOf, if_pos rfl] at heq
        exact absurd heq (hfreshBlock j e hold)
      · rw [hvectorOf_old j e hold, hvectorOf_old k e' hold'] at heq
        exact h.vectors j k e hold e' hold' heq

theorem filter_ne_of_nodup {left right : List (ℕ × List ℕ)} {e : ℕ × List ℕ}
    (hnodup : ((left ++ e :: right).map Prod.fst).Nodup) :
    (left ++ e :: right).filter (fun e' => e'.1 ≠ e.1) = left ++ right := by
  rw [List.map_append, List.map_cons] at hnodup
  obtain ⟨hleft, hright⟩ := DoublyLinked.not_mem_of_nodup_cut hnodup
  have hkeep : ∀ part : List (ℕ × List ℕ), e.1 ∉ part.map Prod.fst →
      part.filter (fun e' => e'.1 ≠ e.1) = part := by
    intro part hpart
    refine List.filter_eq_self.mpr fun e' he' => ?_
    exact decide_eq_true fun heq => hpart (heq ▸ List.mem_map_of_mem he')
  rw [List.filter_append, List.filter_cons_of_neg (by simp), hkeep left hleft, hkeep right hright]

theorem removeVeclist_holds (h : heap.Holds contents) {e : ℕ × List ℕ} (he : e ∈ contents i) :
    ∃ heap', removeVeclist (some e.1) i heap = .ok () heap' ∧
      heap'.Holds (Function.update contents i ((contents i).filter (fun e' => e'.1 ≠ e.1))) := by
  obtain ⟨left, right, hcut⟩ := List.append_of_mem he
  have hlinked := h.linked i
  have hfilter := filter_ne_of_nodup (hcut ▸ hlinked.nodup)
  rw [← hcut] at hfilter
  rw [hcut, List.map_append, List.map_cons] at hlinked
  obtain ⟨vector, hvector, hread⟩ := Option.bind_eq_some_iff.mp (h.clocks i e he)
  obtain ⟨heap', hcall, hlists, hvectors, hvectorOf, hlinks⟩ :=
    removeVeclist_eq hlinked hvector hread
  rw [hfilter]
  obtain ⟨hleftOut, hrightOut⟩ := DoublyLinked.not_mem_of_nodup_cut hlinked.nodup
  -- what is in a list afterwards was in it before, at another address
  have hentries : ∀ j, ∀ e' ∈ Function.update contents i (left ++ right) j,
      e' ∈ contents j ∧ e'.1 ≠ e.1 := by
    intro j e' he'
    by_cases hj : j = i
    · subst hj
      rw [Function.update_self] at he'
      refine ⟨by rw [hcut]; simp at he' ⊢; tauto, fun heq => ?_⟩
      rcases List.mem_append.mp he' with hmem | hmem
      · exact hleftOut (heq ▸ List.mem_map_of_mem hmem)
      · exact hrightOut (heq ▸ List.mem_map_of_mem hmem)
    · rw [Function.update_of_ne hj] at he'
      exact ⟨he', fun heq => hj (h.disjoint j i e' he' e he heq)⟩
  refine ⟨heap', hcall, fun j => ?_, fun j => ?_, fun j k e₁ he₁ e₂ he₂ heq => ?_,
    fun j e₁ he₁ => ?_, fun j k e₁ he₁ e₂ he₂ heq => ?_⟩
  · by_cases hj : j = i
    · subst hj
      rw [hlists, Function.update_self, Function.update_self, List.map_append]
      exact hlinked.unlink_of_map rfl rfl hlinks
    · rw [hlists, Function.update_of_ne hj, Function.update_of_ne hj]
      have hapart := h.apart hj
      rw [hcut, List.map_append, List.map_cons] at hapart
      exact (h.linked j).congr_of_unlink hapart hlinks
  · by_cases hj : j = i
    · subst hj
      simp [hlists, h.numElems, hcut]
    · simp [hlists, hj, h.numElems]
  · exact h.disjoint j k e₁ (hentries j e₁ he₁).1 e₂ (hentries k e₂ he₂).1 heq
  · obtain ⟨hold, hne⟩ := hentries j e₁ he₁
    obtain ⟨vector₁, hvector₁, hread₁⟩ := Option.bind_eq_some_iff.mp (h.clocks j e₁ hold)
    have hother : vector₁ ≠ vector := fun heq =>
      hne (h.vectors j i e₁ hold e he (by rw [hvector₁, hvector, heq]))
    rw [clockAt, hvectorOf _ hne, hvector₁, Option.bind_some, hvectors,
      Function.update_of_ne hother, hread₁]
  · obtain ⟨hold₁, hne₁⟩ := hentries j e₁ he₁
    obtain ⟨hold₂, hne₂⟩ := hentries k e₂ he₂
    rw [hvectorOf _ hne₁, hvectorOf _ hne₂] at heq
    exact h.vectors j k e₁ hold₁ e₂ hold₂ heq

/-- The loop frees the first node in each round; too few rounds leave it running. -/
theorem freeVeclistLoop_holds {entries : List (ℕ × List ℕ)} (rounds : ℕ)
    (h : heap.Holds contents) (hentries : contents i = entries) :
    (entries.length ≤ rounds ∧
      ∃ heap', freeVeclistLoop i rounds (heap.lists i).head heap = .ok () heap' ∧
        heap'.Holds (Function.update contents i [])) ∨
    (rounds < entries.length ∧
      ∃ heap', freeVeclistLoop i rounds (heap.lists i).head heap = .running heap') := by
  induction entries generalizing heap contents rounds with
  | nil =>
      have hhead : (heap.lists i).head = none := by rw [(h.linked i).head, hentries]; rfl
      refine .inl ⟨Nat.zero_le _, heap, ?_, ?_⟩
      · rw [hhead]
        cases rounds <;> rfl
      · rwa [← hentries, Function.update_eq_self]
  | cons e rest ih =>
      have hhead : (heap.lists i).head = some e.1 := by rw [(h.linked i).head, hentries]; rfl
      rw [hhead]
      cases rounds with
      | zero => exact .inr ⟨Nat.zero_lt_succ _, heap, rfl⟩
      -- The head that the removal leaves is the first node of the rest.
      | succ rounds =>
          obtain ⟨heap₁, hremove, hholds⟩ :=
            removeVeclist_holds (i := i) h (hentries ▸ List.mem_cons_self)
          have hfilter : (contents i).filter (fun e' => e'.1 ≠ e.1) = rest := by
            rw [hentries]
            exact filter_ne_of_nodup (hentries ▸ (h.linked i).nodup : ((([] ++ e :: rest :
              List (ℕ × List ℕ))).map Prod.fst).Nodup)
          rw [hfilter] at hholds
          have hround : freeVeclistLoop i (rounds + 1) (some e.1) heap =
              freeVeclistLoop i rounds (heap₁.lists i).head heap₁ := by
            simp [freeVeclistLoop, hremove]
          have hrest := ih rounds hholds (Function.update_self ..)
          rw [Function.update_idem] at hrest
          rw [hround, List.length_cons, Nat.succ_le_succ_iff, Nat.succ_lt_succ_iff]
          exact hrest

theorem freeVeclist_holds (rounds : ℕ) (h : heap.Holds contents) (i : ℕ) :
    ((contents i).length ≤ rounds ∧ ∃ heap', freeVeclist rounds i heap = .ok () heap' ∧
      heap'.Holds (Function.update contents i [])) ∨
    (rounds < (contents i).length ∧ ∃ heap', freeVeclist rounds i heap = .running heap') := by
  rcases freeVeclistLoop_holds rounds h rfl with ⟨hle, heap', hcall, hholds⟩ | ⟨hlt, heap', hcall⟩
  · -- the two assignments behind the loop change nothing
    have hlinked := hholds.linked i
    rw [Function.update_self] at hlinked
    have hlist : { heap'.lists i with head := none, tail := none } = heap'.lists i := by
      calc { heap'.lists i with head := none, tail := none }
          = ⟨(heap'.lists i).numElems, (heap'.lists i).head, (heap'.lists i).tail⟩ := by
            rw [hlinked.head, hlinked.tail]
            rfl
        _ = heap'.lists i := rfl
    have hsame : heap'.setList i { heap'.lists i with head := none, tail := none } = heap' := by
      rw [hlist, setList, Function.update_eq_self]
    exact .inl ⟨hle, heap', by simp [freeVeclist, hcall, hsame], hholds⟩
  · exact .inr ⟨hlt, heap', by simp [freeVeclist, hcall]⟩

/-! ## Runs -/

/-- The heap changes, but not in the nodes of the lists and their arrays. -/
def Elsewhere (heap heap' : VecHeap) : Prop :=
  heap'.lists = heap.lists ∧ ∀ i nodes, Visits heap.next (heap.lists i).head nodes →
    ∀ a ∈ nodes, heap'.nodes a = heap.nodes a ∧ heap'.clockAt a = heap.clockAt a

theorem Elsewhere.holds (h : heap.Holds contents) (helse : heap.Elsewhere heap') :
    heap'.Holds contents := by
  have hnodes : ∀ i, ∀ e ∈ contents i, heap'.nodes e.1 = heap.nodes e.1 ∧
      heap'.clockAt e.1 = heap.clockAt e.1 := fun i e he =>
    helse.2 i _ (h.linked i).visits_next e.1 (List.mem_map_of_mem he)
  refine ⟨fun i => ?_, fun i => ?_, h.disjoint, fun i e he => ?_, fun i j e he e' he' heq => ?_⟩
  · rw [helse.1]
    refine (h.linked i).congr fun b hb => ?_
    obtain ⟨e, he, rfl⟩ := List.mem_map.mp hb
    rw [links, (hnodes i e he).1, links]
  · rw [helse.1]
    exact h.numElems i
  · rw [(hnodes i e he).2]
    exact h.clocks i e he
  · refine h.vectors i j e he e' he' ?_
    rwa [vectorOf, vectorOf, (hnodes i e he).1, (hnodes j e' he').1] at heq

end VecHeap

/-- A call on the pending lists. -/
inductive VecListOp where
  | add (i : ℕ) (clock : VecClock) (a block : ℕ)
  | remove (i a : ℕ)
  | free (i : ℕ)

namespace VecListOp

open VecHeap

/-- The call, where the loop of `free_veclist` has `rounds` rounds. -/
def call (rounds : ℕ) : VecListOp → VecCall Unit
  | add i clock a block => addVeclist (some a) (some block) clock i
  | remove i a => VecHeap.removeVeclist (some a) i
  | free i => freeVeclist rounds i

/-- The blocks that are allocated are new, the clock that is added can be read, and the
node that is removed is in the list. -/
def Admissible (heap : VecHeap) : VecListOp → Prop
  | add _ clock a block =>
      heap.Readable clock ∧ heap.nodes a = none ∧ heap.vectors block = none
  | remove i a => ∃ nodes, Visits heap.next (heap.lists i).head nodes ∧ a ∈ nodes
  | free _ => True

/-- How many rounds `free_veclist` needs. -/
def enough (heap : VecHeap) : VecListOp → ℕ
  | free i => (heap.lists i).numElems
  | _ => 0

/-- What the lists have after the call. -/
def apply (heap : VecHeap) (contents : ℕ → List (ℕ × List ℕ)) :
    VecListOp → ℕ → List (ℕ × List ℕ)
  | add i clock a _ => Function.update contents i (contents i ++ [(a, heap.valuesOf clock)])
  | remove i a => Function.update contents i ((contents i).filter (fun e => e.1 ≠ a))
  | free i => Function.update contents i []

end VecListOp

/-- The heaps that calls on the pending lists lead to, with allocations that succeed,
among steps that leave the lists alone. -/
def vecLists : TransitionSystem VecHeap where
  init heap := ∀ i, heap.lists i = initVeclist
  step heap heap' := heap.Elsewhere heap' ∨
    ∃ (op : VecListOp) (rounds : ℕ), op.Admissible heap ∧ op.call rounds heap = .ok () heap'

namespace VecHeap

variable {heap : VecHeap} {contents : ℕ → List (ℕ × List ℕ)} {i : ℕ}

theorem Holds.mem_of_visits (h : heap.Holds contents) {nodes : List ℕ}
    (hnodes : Visits heap.next (heap.lists i).head nodes) {a : ℕ} (ha : a ∈ nodes) :
    ∃ e ∈ contents i, e.1 = a := by
  rw [hnodes.eq_of_visits (h.linked i).visits_next] at ha
  exact List.mem_map.mp ha

/-- What a call comes to: with enough rounds it returns. -/
theorem call_holds (h : heap.Holds contents) {op : VecListOp} (hop : op.Admissible heap)
    (rounds : ℕ) :
    (op.enough heap ≤ rounds ∧ ∃ heap', op.call rounds heap = .ok () heap' ∧
      heap'.Holds (op.apply heap contents)) ∨
    (rounds < op.enough heap ∧ ∃ heap', op.call rounds heap = .running heap') := by
  cases op with
  | add i clock a block =>
      obtain ⟨hclock, ha, hblock⟩ := hop
      exact .inl ⟨Nat.zero_le _, addVeclist_holds h hclock ha hblock i⟩
  | remove i a =>
      obtain ⟨nodes, hnodes, ha⟩ := hop
      obtain ⟨e, he, rfl⟩ := h.mem_of_visits hnodes ha
      exact .inl ⟨Nat.zero_le _, removeVeclist_holds h he⟩
  | free i =>
      have hfree := freeVeclist_holds rounds h i
      rwa [← h.numElems] at hfree

theorem exists_holds (hs : vecLists.Reachable heap) : ∃ contents, heap.Holds contents := by
  refine hs.invariant (I := fun heap => ∃ contents, heap.Holds contents)
    (fun heap hinit => ⟨_, holds_of_init hinit⟩) ?_
  intro heap heap' _ hholds hstep
  obtain ⟨contents, hholds⟩ := hholds
  rcases hstep with helse | ⟨op, rounds, hop, hcall⟩
  · exact ⟨contents, Elsewhere.holds hholds helse⟩
  · rcases call_holds hholds hop rounds with ⟨-, heap₁, hok, hnext⟩ | ⟨-, heap₁, hrunning⟩
    · obtain ⟨-, rfl⟩ := Outcome.ok.inj (hok.symm.trans hcall)
      exact ⟨_, hnext⟩
    · rw [hrunning] at hcall
      cases hcall

end VecHeap

/-- In every run the lists are well-formed doubly linked lists, and every call on them
returns and does to their entries what it is for. -/
theorem pendingLists_wellFormed {heap : VecHeap} (hs : vecLists.Reachable heap) :
    ∃ contents, (∀ i, heap.ListIs i (contents i)) ∧
      ∀ op : VecListOp, op.Admissible heap → ∀ rounds, op.enough heap ≤ rounds →
        ∃ heap', op.call rounds heap = .ok () heap' ∧
          ∀ i, heap'.ListIs i (op.apply heap contents i) := by
  obtain ⟨contents, hholds⟩ := VecHeap.exists_holds hs
  refine ⟨contents, hholds.listIs, fun op hop rounds hrounds => ?_⟩
  rcases VecHeap.call_holds hholds hop rounds with ⟨-, heap', hcall, hnext⟩ | ⟨hlt, -⟩
  · exact ⟨heap', hcall, hnext.listIs⟩
  · exact absurd hrounds (not_le.mpr hlt)

/-- The heap after a call that returns. -/
def VecHeap.after (heap : VecHeap) (op : VecListOp) : VecHeap :=
  match op.call 0 heap with
  | .ok _ heap' => heap'
  | _ => heap

theorem reachable_after {heap : VecHeap} (hs : vecLists.Reachable heap) {op : VecListOp}
    (hop : op.Admissible heap) : vecLists.Reachable (heap.after op) := by
  unfold VecHeap.after
  cases hcall : op.call 0 heap with
  | ok value heap' => exact hs.step (.inr ⟨op, 0, hop, hcall⟩)
  | error code heap' => exact hs
  | running heap' => exact hs
  | undefined => exact hs

/-- A heap without nodes, with three arrays of two entries. -/
def sourceTriple : VecHeap where
  nodes _ := none
  vectors block := [[5, 7], [6, 7], [6, 8]][block]?
  lists _ := initVeclist

/-- The heap with copies of the arrays in the first list. -/
def copiedTriple : VecHeap :=
  ((sourceTriple.after (.add 0 ⟨2, some 0⟩ 0 3)).after (.add 0 ⟨2, some 1⟩ 1 4)).after
    (.add 0 ⟨2, some 2⟩ 2 5)

theorem copiedTriple_reachable : vecLists.Reachable copiedTriple := by
  have hnone : vecLists.Reachable sourceTriple := .init fun _ => rfl
  have hone : vecLists.Reachable (sourceTriple.after (.add 0 ⟨2, some 0⟩ 0 3)) :=
    reachable_after hnone ⟨⟨[5, 7], rfl, le_refl _⟩, rfl, rfl⟩
  have htwo : vecLists.Reachable ((sourceTriple.after (.add 0 ⟨2, some 0⟩ 0 3)).after
      (.add 0 ⟨2, some 1⟩ 1 4)) :=
    reachable_after hone ⟨⟨[6, 7], rfl, le_refl _⟩, rfl, rfl⟩
  exact reachable_after htwo ⟨⟨[6, 8], rfl, le_refl _⟩, rfl, rfl⟩

theorem copiedTriple_visits :
    Visits copiedTriple.next (copiedTriple.lists 0).head [0, 1, 2] :=
  ⟨rfl, some 1, rfl, rfl, some 2, rfl, rfl, none, rfl, rfl⟩

/-- Of three nodes the one in the middle is removed. -/
theorem pendingLists_wellFormed_copiedTriple :
    ∃ heap', (VecListOp.remove 0 1).call 0 copiedTriple = .ok () heap' ∧
      heap'.ListIs 0 [(0, [5, 7]), (2, [6, 8])] := by
  obtain ⟨contents, hlists, hcalls⟩ := pendingLists_wellFormed copiedTriple_reachable
  obtain ⟨heap', hcall, hafter⟩ := hcalls (.remove 0 1) ⟨_, copiedTriple_visits, by decide⟩ 0 le_rfl
  have hcontents : contents 0 = [(0, [5, 7]), (1, [6, 7]), (2, [6, 8])] :=
    (hlists 0).eq_of_visits copiedTriple_visits
  have hfirst := hafter 0
  simp only [VecListOp.apply, Function.update_self, hcontents] at hfirst
  exact ⟨heap', hcall, hfirst⟩

/-! ## The lists of `Lcb` -/

namespace VecHeap

/-- The lists in memory carry the clocks of the lists in `data`. -/
def Represents (heap : VecHeap) (data : Lcb) : Prop :=
  ∃ contents, heap.Holds contents ∧
    ∀ i < data.lcbPending.length, (contents i).map Prod.snd = pendingList data i

variable {heap : VecHeap} {data : Lcb}

theorem pendingList_modify {change : List (List ℕ) → List (List ℕ)} {i j : ℕ}
    (hj : j < data.lcbPending.length) :
    pendingList { data with lcbPending := data.lcbPending.modify i change } j =
      if i = j then change (pendingList data j) else pendingList data j := by
  unfold pendingList
  rw [List.getD_eq_getElem?_getD, List.getElem?_modify, List.getD_eq_getElem?_getD,
    List.getElem?_eq_getElem hj]
  by_cases hi : i = j <;> simp [hi]

/-- `addPendingLcb` appends what `add_veclist` appends. -/
theorem addVeclist_represents (h : heap.Represents data) {pid : ℕ} (hpos : 1 ≤ pid)
    (hpid : pid ≤ data.lcbPending.length) {clock : VecClock} (hclock : heap.Readable clock)
    {a block : ℕ} (ha : heap.nodes a = none) (hblock : heap.vectors block = none) :
    ∃ heap' data', addVeclist (some a) (some block) clock (pid - 1) heap = .ok () heap' ∧
      addPendingLcb pid (heap.valuesOf clock) data = .ok () data' ∧ heap'.Represents data' := by
  obtain ⟨contents, hholds, hclocks⟩ := h
  obtain ⟨heap', hcall, hholds'⟩ := addVeclist_holds hholds hclock ha hblock (pid - 1)
  refine ⟨heap', { data with
      lcbPending := data.lcbPending.modify (pid - 1) (· ++ [heap.valuesOf clock]) },
    hcall, ?_, _, hholds', fun j hj => ?_⟩
  · simp [addPendingLcb, not_lt.mpr hpid, Nat.one_le_iff_ne_zero.mp hpos]
  · rw [List.length_modify] at hj
    rw [pendingList_modify hj]
    by_cases heq : pid - 1 = j
    · subst heq
      simp [hclocks _ hj]
    · rw [if_neg heq, Function.update_of_ne (Ne.symm heq), hclocks j hj]

/-- The model's `removeVeclist` at a cursor erases what `remove_veclist` unlinks. -/
theorem removeVeclist_represents {contents : ℕ → List (ℕ × List ℕ)} (h : heap.Holds contents)
    (hclocks : ∀ i < data.lcbPending.length, (contents i).map Prod.snd = pendingList data i)
    {i k : ℕ} (hk : k < (contents i).length) :
    ∃ heap' data', removeVeclist (some ((contents i)[k]).1) i heap = .ok () heap' ∧
      CausalBroadcast.removeVeclist i (.node k) data = .ok () data' ∧
      heap'.Represents data' := by
  obtain ⟨heap', hcall, hholds'⟩ := removeVeclist_holds h (List.getElem_mem hk)
  have hcut : contents i = (contents i).take k ++ (contents i)[k] :: (contents i).drop (k + 1) := by
    rw [List.getElem_cons_drop, List.take_append_drop]
  have hfilter : (contents i).filter (fun e => e.1 ≠ ((contents i)[k]).1) =
      (contents i).eraseIdx k := by
    have hnodup := (h.linked i).nodup
    rw [hcut] at hnodup
    rw [List.eraseIdx_eq_take_drop_succ, ← filter_ne_of_nodup hnodup, ← hcut]
  refine ⟨heap', { data with lcbPending := data.lcbPending.modify i (·.eraseIdx k) }, hcall, rfl,
    _, hholds', fun j hj => ?_⟩
  rw [List.length_modify] at hj
  rw [pendingList_modify hj]
  by_cases heq : i = j
  · subst heq
    rw [if_pos rfl, Function.update_self, hfilter, ← hclocks i hj, List.eraseIdx_map]
  · rw [if_neg heq, Function.update_of_ne (Ne.symm heq), hclocks j hj]

end VecHeap

end CausalBroadcast
