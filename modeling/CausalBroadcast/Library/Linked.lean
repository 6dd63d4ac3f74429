import CausalBroadcast.Library.Sequence
import Mathlib.Data.List.Induction
import Mathlib.Data.List.Nodup

/-!
# Doubly linked lists

Some addresses hold a node with two links, `next` and `previous`; an address without a
node has no links.  `DoublyLinked links head tail nodes` says that `nodes` are the
addresses of a list that starts at `head` and ends at `tail`.  The links are stated at
every way to cut the list at a node, so appending a node and unlinking one are read off
the cuts of the new list (`DoublyLinked.append`, `DoublyLinked.unlink`).

`Visits` is what a walk over the list sees: it goes from one end to the other, in
either direction (`DoublyLinked.visits_next`, `DoublyLinked.visits_previous`).
-/

/-- The links of a node. -/
@[ext] structure Links (A : Type*) where
  next : Option A
  previous : Option A

variable {A : Type*}

/-- Following `link` from `start` visits `nodes`, in this order, and comes to an end. -/
def Visits (link : A → Option (Option A)) : Option A → List A → Prop
  | start, [] => start = none
  | start, a :: rest => start = some a ∧ ∃ target, link a = some target ∧ Visits link target rest

namespace Visits

variable {link : A → Option (Option A)} {start : Option A} {nodes nodes' : List A}

theorem eq_of_visits (h : Visits link start nodes) (h' : Visits link start nodes') :
    nodes = nodes' := by
  induction nodes generalizing start nodes' with
  | nil =>
      cases nodes' with
      | nil => rfl
      | cons a rest =>
          have hnone : start = none := h
          exact absurd (hnone.symm.trans h'.1) (by simp)
  | cons a rest ih =>
      obtain ⟨hstart, target, hlink, hrest⟩ := h
      cases nodes' with
      | nil =>
          have hnone : start = none := h'
          exact absurd (hnone.symm.trans hstart) (by simp)
      | cons a' rest' =>
          obtain ⟨hstart', target', hlink', hrest'⟩ := h'
          obtain rfl : a = a' := Option.some.inj (hstart.symm.trans hstart')
          obtain rfl : target = target' := Option.some.inj (hlink.symm.trans hlink')
          rw [ih hrest hrest']

theorem eq_none_iff (h : Visits link start nodes) : start = none ↔ nodes.length = 0 := by
  cases nodes with
  | nil => exact ⟨fun _ => rfl, fun _ => h⟩
  | cons a rest => simp [h.1]

end Visits

/-- The nodes `nodes` make a doubly linked list from `head` to `tail`. -/
structure DoublyLinked (links : A → Option (Links A)) (head tail : Option A) (nodes : List A) :
    Prop where
  nodup : nodes.Nodup
  head : head = nodes.head?
  tail : tail = nodes.getLast?
  links : ∀ before a after, nodes = before ++ a :: after →
    links a = some ⟨after.head?, before.getLast?⟩

namespace DoublyLinked

variable {links links' : A → Option (Links A)} {head tail head' tail' : Option A}
  {nodes before after : List A} {a : A}

theorem nil (links : A → Option (Links A)) : DoublyLinked links none none [] :=
  ⟨List.nodup_nil, rfl, rfl, by simp⟩

theorem links_eq (h : DoublyLinked links head tail (before ++ a :: after)) :
    links a = some ⟨after.head?, before.getLast?⟩ := h.links before a after rfl

/-- Only the links of the nodes in the list matter. -/
theorem congr (h : DoublyLinked links head tail nodes) (hlinks : ∀ a ∈ nodes, links' a = links a) :
    DoublyLinked links' head tail nodes where
  nodup := h.nodup
  head := h.head
  tail := h.tail
  links before a after heq := by
    rw [hlinks a (by rw [heq]; simp), h.links before a after heq]

theorem visits_next (h : DoublyLinked links head tail nodes) :
    Visits (fun a => (links a).map Links.next) head nodes := by
  have hcut : ∀ after before, nodes = before ++ after →
      Visits (fun a => (links a).map Links.next) after.head? after := by
    intro after
    induction after with
    | nil => exact fun _ _ => rfl
    | cons a rest ih =>
        intro before heq
        refine ⟨rfl, rest.head?, ?_, ih (before ++ [a]) (by simpa using heq)⟩
        show (links a).map Links.next = _
        rw [h.links before a rest heq]
        rfl
  rw [h.head]
  exact hcut nodes [] rfl

theorem visits_previous (h : DoublyLinked links head tail nodes) :
    Visits (fun a => (links a).map Links.previous) tail nodes.reverse := by
  have hcut : ∀ before after, nodes = before ++ after →
      Visits (fun a => (links a).map Links.previous) before.getLast? before.reverse := by
    intro before
    induction before using List.reverseRecOn with
    | nil => exact fun _ _ => rfl
    | append_singleton rest a ih =>
        intro after heq
        rw [List.append_assoc, List.singleton_append] at heq
        rw [List.reverse_append, List.reverse_singleton, List.singleton_append]
        refine ⟨List.getLast?_concat .., rest.getLast?, ?_, ih (a :: after) heq⟩
        show (links a).map Links.previous = _
        rw [h.links rest a after heq]
        rfl
  rw [h.tail]
  exact hcut nodes [] (List.append_nil nodes).symm

theorem not_mem_of_nodup_cut (h : (before ++ a :: after).Nodup) : a ∉ before ∧ a ∉ after := by
  rw [List.nodup_middle, List.nodup_cons, List.mem_append, not_or] at h
  exact h.1

/-- A new node behind the last one.  Of the old nodes only the last gets a new link. -/
theorem append (h : DoublyLinked links head tail nodes) (hfresh : a ∉ nodes)
    (hhead : head' = (nodes ++ [a]).head?) (htail : tail' = some a)
    (hnew : links' a = some ⟨none, nodes.getLast?⟩)
    (hlast : ∀ rest last, nodes = rest ++ [last] → links' last = some ⟨some a, rest.getLast?⟩)
    (hrest : ∀ b ∈ nodes, nodes.getLast? ≠ some b → links' b = links b) :
    DoublyLinked links' head' tail' (nodes ++ [a]) where
  nodup := List.concat_eq_append ▸ List.Nodup.concat hfresh h.nodup
  head := hhead
  tail := htail.trans (List.getLast?_concat ..).symm
  links left b right heq := by
    rcases cut_of_concat heq with ⟨rfl, rfl, rfl⟩ | ⟨right, rfl, hnodes⟩
    · -- the cut at the new node
      exact hnew
    · cases right with
      | nil => exact hlast left b hnodes
      | cons d right =>
          have hmem : b ∈ nodes := by rw [hnodes]; simp
          have hne : nodes.getLast? ≠ some b := by
            intro hlastb
            rw [hnodes, List.getLast?_append_of_ne_nil _ (List.cons_ne_nil _ _),
              List.getLast?_cons_cons] at hlastb
            exact (not_mem_of_nodup_cut (hnodes ▸ h.nodup)).2 (List.mem_of_getLast? hlastb)
          rw [hrest b hmem hne, h.links left b (d :: right) hnodes]
          rfl

/-- The same, where the links are given as a change of the old ones. -/
theorem append_of_map [DecidableEq A] (h : DoublyLinked links head tail nodes) (hfresh : a ∉ nodes)
    (hhead : head' = (nodes ++ [a]).head?) (htail : tail' = some a)
    (hlinks : ∀ b, links' b = if b = a then some ⟨none, nodes.getLast?⟩ else
      (links b).map fun l => if nodes.getLast? = some b then { l with next := some a } else l) :
    DoublyLinked links' head' tail' (nodes ++ [a]) := by
  refine h.append hfresh hhead htail ((hlinks a).trans (if_pos rfl)) (fun rest last hnodes => ?_)
    fun b hb hlast => ?_
  · have hne : last ≠ a := fun heq => hfresh (by rw [hnodes, heq]; simp)
    rw [hlinks, if_neg hne, h.links rest last [] hnodes, hnodes]
    simp
  · have hne : b ≠ a := fun heq => hfresh (heq ▸ hb)
    rw [hlinks, if_neg hne]
    simp only [if_neg hlast, Option.map_id_fun', id]

/-- A list that shares no node with the one that grows stays as it is. -/
theorem congr_of_append [DecidableEq A] {others : List A}
    (h : DoublyLinked links head tail others) (hfresh : a ∉ others)
    (hapart : ∀ b ∈ others, b ∉ nodes)
    (hlinks : ∀ b, links' b = if b = a then some ⟨none, nodes.getLast?⟩ else
      (links b).map fun l => if nodes.getLast? = some b then { l with next := some a } else l) :
    DoublyLinked links' head tail others := by
  refine h.congr fun b hb => ?_
  have hne : b ≠ a := fun heq => hfresh (heq ▸ hb)
  have hlast : nodes.getLast? ≠ some b := fun heq => hapart b hb (List.mem_of_getLast? heq)
  rw [hlinks, if_neg hne]
  simp only [if_neg hlast, Option.map_id_fun', id]

/-- Unlinking a node.  The node before it gets a new next node, and the node after it
a new previous one. -/
theorem unlink (h : DoublyLinked links head tail (before ++ a :: after))
    (hhead : head' = (before ++ after).head?) (htail : tail' = (before ++ after).getLast?)
    (hbefore : ∀ rest last, before = rest ++ [last] →
      links' last = some ⟨after.head?, rest.getLast?⟩)
    (hafter : ∀ first rest, after = first :: rest →
      links' first = some ⟨rest.head?, before.getLast?⟩)
    (hrest : ∀ b ∈ before ++ after, before.getLast? ≠ some b → after.head? ≠ some b →
      links' b = links b) :
    DoublyLinked links' head' tail' (before ++ after) := by
  have hnodup : (before ++ after).Nodup :=
    h.nodup.sublist ((List.sublist_cons_self a after).append_left before)
  refine ⟨hnodup, hhead, htail, fun left b right heq => ?_⟩
  obtain ⟨hleftOut, hrightOut⟩ := not_mem_of_nodup_cut (heq ▸ hnodup)
  rcases List.append_eq_append_iff.mp heq with ⟨between, hleft, hright⟩ | ⟨between, hleft, hright⟩
  · -- the cut is in `after`
    cases between with
    | nil =>
        rw [hafter b right hright, hleft, List.append_nil]
    | cons first between =>
        have hlast : before.getLast? ≠ some b := fun hb =>
          hleftOut (hleft ▸ List.mem_append_left _ (List.mem_of_getLast? hb))
        have hfirst : after.head? ≠ some b := fun hb => by
          rw [hright] at hb
          exact hleftOut (by rw [hleft, ← Option.some.inj hb]; simp)
        rw [hrest b (by rw [hright]; simp) hlast hfirst,
          h.links (before ++ a :: first :: between) b right (by rw [hright]; simp), hleft,
          List.getLast?_append_of_ne_nil _ (List.cons_ne_nil _ _), List.getLast?_cons_cons,
          List.getLast?_append_of_ne_nil _ (List.cons_ne_nil _ _)]
  · cases between with
    | nil =>
        rw [hafter b right hright.symm, hleft, List.append_nil]
    | cons c between =>
        obtain ⟨rfl, rfl⟩ := List.cons.inj hright
        cases between with
        | nil => exact hbefore left b hleft
        | cons d between =>
            have hlast : before.getLast? ≠ some b := fun hb => by
              rw [hleft, List.getLast?_append_of_ne_nil _ (List.cons_ne_nil _ _),
                List.getLast?_cons_cons] at hb
              exact hrightOut (List.mem_append_left _ (List.mem_of_getLast? hb))
            have hfirst : after.head? ≠ some b := fun hb =>
              hrightOut (List.mem_append_right _ (List.mem_of_head? hb))
            rw [hrest b (by rw [hleft]; simp) hlast hfirst,
              h.links left b (d :: between ++ a :: after) (by rw [hleft]; simp)]
            rfl

/-- The same, where the links are given as a change of the old ones. -/
theorem unlink_of_map [DecidableEq A] (h : DoublyLinked links head tail (before ++ a :: after))
    (hhead : head' = (before ++ after).head?) (htail : tail' = (before ++ after).getLast?)
    (hlinks : ∀ b ≠ a, links' b = (links b).map fun l =>
      ⟨if before.getLast? = some b then after.head? else l.next,
        if after.head? = some b then before.getLast? else l.previous⟩) :
    DoublyLinked links' head' tail' (before ++ after) := by
  obtain ⟨hbeforeOut, hafterOut⟩ := not_mem_of_nodup_cut h.nodup
  -- no node stands on both sides of the one that goes
  have hapart : ∀ b ∈ before, b ∉ after := fun b hb hb' =>
    (List.nodup_append.mp h.nodup).2.2 b hb b (List.mem_cons_of_mem _ hb') rfl
  refine h.unlink hhead htail (fun rest last hcut => ?_) (fun first rest hcut => ?_)
    fun b hb hlast hfirst => ?_
  · have hmem : last ∈ before := by rw [hcut]; simp
    have hne : last ≠ a := fun heq => hbeforeOut (heq ▸ hmem)
    have hfirst : after.head? ≠ some last := fun heq =>
      hapart last hmem (List.mem_of_head? heq)
    have hold := h.links rest last (a :: after) (by rw [hcut]; simp)
    rw [hlinks last hne, hold, Option.map_some, if_neg hfirst, hcut, List.getLast?_concat,
      if_pos rfl]
  · have hmem : first ∈ after := by rw [hcut]; simp
    have hne : first ≠ a := fun heq => hafterOut (heq ▸ hmem)
    have hlast : before.getLast? ≠ some first := fun heq =>
      hapart first (List.mem_of_getLast? heq) hmem
    have hold := h.links (before ++ [a]) first rest (by rw [hcut]; simp)
    rw [hlinks first hne, hold, Option.map_some, if_neg hlast, hcut, List.head?_cons, if_pos rfl]
  · have hne : b ≠ a := by
      intro heq
      rcases List.mem_append.mp (heq ▸ hb) with hmem | hmem
      · exact hbeforeOut hmem
      · exact hafterOut hmem
    rw [hlinks b hne]
    simp only [if_neg hlast, if_neg hfirst, Option.map_id_fun', id]

/-- A list that shares no node with the one that shrinks stays as it is. -/
theorem congr_of_unlink [DecidableEq A] {others : List A}
    (h : DoublyLinked links head tail others)
    (hapart : ∀ b ∈ others, b ∉ before ++ a :: after)
    (hlinks : ∀ b ≠ a, links' b = (links b).map fun l =>
      ⟨if before.getLast? = some b then after.head? else l.next,
        if after.head? = some b then before.getLast? else l.previous⟩) :
    DoublyLinked links' head tail others := by
  refine h.congr fun b hb => ?_
  have hout := hapart b hb
  have hne : b ≠ a := fun heq => hout (by rw [heq]; simp)
  have hlast : before.getLast? ≠ some b := fun heq =>
    hout (List.mem_append_left _ (List.mem_of_getLast? heq))
  have hfirst : after.head? ≠ some b := fun heq =>
    hout (List.mem_append_right _ (List.mem_cons_of_mem _ (List.mem_of_head? heq)))
  rw [hlinks b hne]
  simp only [if_neg hlast, if_neg hfirst, Option.map_id_fun', id]

end DoublyLinked
