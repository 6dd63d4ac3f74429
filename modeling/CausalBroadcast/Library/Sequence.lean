import Mathlib.Data.List.Nodup
import Mathlib.Data.List.Infix
import Mathlib.Data.List.Perm.Subperm

/-!
# Sequences in which every element is enabled by the ones before it

`InSequence ready l` says that every element `a` of `l` satisfies `ready pre a`,
where `pre` is the part of `l` before it.

* `InSequence.exists_first`: a set that meets such a sequence has an element
  that only elements outside the set come before.  So no set of elements waits
  for itself.
* `checkEach_cases`: a loop that checks every element against the ones before it goes
  through exactly the sequences, and stops at the first element that is not enabled.
* `Saturates.perm`: when `ready` is monotone, the sequences that cannot be
  extended within a given list have the same elements.
-/

variable {α : Type*} {ready ready' : List α → α → Prop} {l l' all : List α} {a : α}

/-- A cut of a list with one more element is at that element or before it. -/
theorem cut_of_concat {before after : List α} {b : α} (h : l ++ [a] = before ++ b :: after) :
    (after = [] ∧ l = before ∧ a = b) ∨
      ∃ rest, after = rest ++ [a] ∧ l = before ++ b :: rest := by
  rcases List.eq_nil_or_concat after with rfl | ⟨rest, c, rfl⟩
  · obtain ⟨hl, hab⟩ := List.append_inj' h rfl
    exact .inl ⟨rfl, hl, by simpa using hab⟩
  · rw [List.concat_eq_append, ← List.cons_append, ← List.append_assoc] at h
    obtain ⟨hl, hac⟩ := List.append_inj' h rfl
    obtain rfl : a = c := by simpa using hac
    exact .inr ⟨rest, List.concat_eq_append, hl⟩

/-- Every element is `ready` after the elements before it. -/
def InSequence (ready : List α → α → Prop) (l : List α) : Prop :=
  ∀ pre a, pre ++ [a] <+: l → ready pre a

namespace InSequence

theorem nil : InSequence ready [] :=
  fun _ _ hpref => absurd (List.prefix_nil.mp hpref) (by simp)

theorem concat_iff : InSequence ready (l ++ [a]) ↔ InSequence ready l ∧ ready l a := by
  constructor
  · intro h
    exact ⟨fun pre b hpref => h pre b (hpref.trans (List.prefix_append ..)),
      h l a (List.prefix_refl _)⟩
  · rintro ⟨h, ha⟩ pre b hpref
    rcases List.prefix_concat_iff.mp hpref with heq | hpref
    · obtain ⟨rfl, hb⟩ := List.append_inj' heq rfl
      cases hb
      exact ha
    · exact h pre b hpref

theorem concat (h : InSequence ready l) (ha : ready l a) : InSequence ready (l ++ [a]) :=
  concat_iff.mpr ⟨h, ha⟩

theorem mono (h : InSequence ready l') (hpref : l <+: l') : InSequence ready l :=
  fun pre a hpre => h pre a (hpre.trans hpref)

theorem exists_of_mem (h : InSequence ready l) (hmem : a ∈ l) :
    ∃ pre, pre ++ [a] <+: l ∧ ready pre a := by
  obtain ⟨pre, post, hsplit⟩ := List.append_of_mem hmem
  have hpref : pre ++ [a] <+: l := ⟨post, by simp [hsplit]⟩
  exact ⟨pre, hpref, h pre a hpref⟩

/-- The first element of the sequence that lies in a set. -/
theorem exists_first (h : InSequence ready l) {inSet : α → Prop} (hmeets : ∃ a ∈ l, inSet a) :
    ∃ pre a, pre ++ [a] <+: l ∧ inSet a ∧ (∀ b ∈ pre, ¬ inSet b) ∧ ready pre a := by
  induction l using List.reverseRecOn with
  | nil => simp at hmeets
  | append_singleton l b ih =>
      obtain ⟨hl, hb⟩ := concat_iff.mp h
      by_cases hearlier : ∃ a ∈ l, inSet a
      · obtain ⟨pre, a, hpref, ha⟩ := ih hl hearlier
        exact ⟨pre, a, hpref.trans (List.prefix_append ..), ha⟩
      · obtain ⟨a, hmem, ha⟩ := hmeets
        have hab : a = b := by
          rcases List.mem_append.mp hmem with hmem | hmem
          · exact absurd ⟨a, hmem, ha⟩ hearlier
          · exact List.mem_singleton.mp hmem
        exact ⟨l, b, List.prefix_refl _, hab ▸ ha, fun c hc hset => hearlier ⟨c, hc, hset⟩, hb⟩

/-- The first element that is not ready. -/
theorem exists_first_not (h : ¬ InSequence ready l) :
    ∃ pre a, pre ++ [a] <+: l ∧ InSequence ready pre ∧ ¬ ready pre a := by
  induction l using List.reverseRecOn with
  | nil => exact absurd nil h
  | append_singleton l b ih =>
      by_cases hl : InSequence ready l
      · exact ⟨l, b, List.prefix_refl _, hl, fun hb => h (hl.concat hb)⟩
      · obtain ⟨pre, a, hpref, hfirst⟩ := ih hl
        exact ⟨pre, a, hpref.trans (List.prefix_append ..), hfirst⟩

/-- There is only one. -/
theorem first_not_unique {pre pre' : List α} {b : α} (hpref : pre ++ [a] <+: l)
    (hpre : InSequence ready pre) (ha : ¬ ready pre a) (hpref' : pre' ++ [b] <+: l)
    (hpre' : InSequence ready pre') (hb : ¬ ready pre' b) : pre = pre' ∧ a = b := by
  -- of two different ones the shorter would lie inside the other
  have hle : ∀ {pre pre' : List α} {a b : α}, pre ++ [a] <+: l → ¬ ready pre a →
      pre' ++ [b] <+: l → InSequence ready pre' → pre'.length ≤ pre.length := by
    intro pre pre' a b hpref ha hpref' hpre'
    by_contra hlt
    refine ha (hpre' pre a (List.prefix_of_prefix_length_le hpref
      ((List.prefix_append ..).trans hpref') ?_))
    rw [List.length_append, List.length_singleton]
    omega
  have hlength : pre.length = pre'.length :=
    le_antisymm (hle hpref' hb hpref hpre) (hle hpref ha hpref' hpre')
  have heq : pre ++ [a] = pre' ++ [b] :=
    (List.prefix_of_prefix_length_le hpref hpref' (by simp [hlength])).eq_of_length
      (by simp [hlength])
  obtain ⟨rfl, hlast⟩ := List.append_inj heq hlength
  exact ⟨rfl, by simpa using hlast⟩

end InSequence

/-! ## A loop that checks every element -/

section CheckEach

variable {σ ε : Type*} {step : σ → α → Except ε σ} {holds : List α → σ → Prop}
  {refusal : List α → α → ε}

/-- One step: an element that is ready is taken, and any other one ends the loop. -/
def ChecksEach (ready : List α → α → Prop) (step : σ → α → Except ε σ)
    (holds : List α → σ → Prop) (refusal : List α → α → ε) (l : List α) : Prop :=
  ∀ pre a s, pre ++ [a] <+: l → holds pre s →
    (ready pre a → ∃ s', step s a = .ok s' ∧ holds (pre ++ [a]) s') ∧
    (¬ ready pre a → step s a = .error (refusal pre a))

theorem foldlM_of_inSequence (h : ChecksEach ready step holds refusal l) {s : σ}
    (hs : holds [] s) {pre : List α} (hpref : pre <+: l) (hpre : InSequence ready pre) :
    ∃ s', pre.foldlM step s = .ok s' ∧ holds pre s' := by
  induction pre using List.reverseRecOn with
  | nil => exact ⟨s, rfl, hs⟩
  | append_singleton pre a ih =>
      obtain ⟨hpre, ha⟩ := InSequence.concat_iff.mp hpre
      obtain ⟨middle, hfold, hmiddle⟩ := ih ((List.prefix_append ..).trans hpref) hpre
      obtain ⟨s', hstep, hs'⟩ := (h pre a middle hpref hmiddle).1 ha
      refine ⟨s', ?_, hs'⟩
      rw [List.foldlM_append, hfold]
      show (step middle a >>= fun s => [].foldlM step s) = _
      rw [hstep]
      rfl

/-- The loop goes through a sequence, and otherwise stops at the first element that is not
ready. -/
theorem checkEach_cases (h : ChecksEach ready step holds refusal l) {s : σ} (hs : holds [] s) :
    (InSequence ready l ∧ ∃ s', l.foldlM step s = .ok s' ∧ holds l s') ∨
    ∃ pre a, pre ++ [a] <+: l ∧ InSequence ready pre ∧ ¬ ready pre a ∧
      l.foldlM step s = .error (refusal pre a) := by
  by_cases hl : InSequence ready l
  · exact .inl ⟨hl, foldlM_of_inSequence h hs (List.prefix_refl l) hl⟩
  · right
    obtain ⟨pre, a, hpref, hpre, ha⟩ := InSequence.exists_first_not hl
    obtain ⟨middle, hfold, hmiddle⟩ :=
      foldlM_of_inSequence h hs ((List.prefix_append ..).trans hpref) hpre
    have hstep := (h pre a middle hpref hmiddle).2 ha
    refine ⟨pre, a, hpref, hpre, ha, ?_⟩
    obtain ⟨rest, rfl⟩ := hpref
    rw [List.append_assoc, List.foldlM_append, hfold]
    show (step middle a >>= fun s => rest.foldlM step s) = _
    rw [hstep]
    rfl

end CheckEach

/-! ## Saturation -/

/-- Elements stay ready when more elements come before them. -/
def MonotoneReady (ready : List α → α → Prop) : Prop :=
  ∀ l l' a, l.Nodup → l ⊆ l' → ready l a → ready l' a

/-- `l` is a sequence from `all` that no further element of `all` extends. -/
structure Saturates (ready : List α → α → Prop) (l all : List α) : Prop where
  nodup : l.Nodup
  subset : l ⊆ all
  inSequence : InSequence ready l
  closed : ∀ a ∈ all, a ∉ l → ¬ ready l a

theorem Saturates.subset_of (hmono : MonotoneReady ready) (h : Saturates ready l all)
    (h' : Saturates ready l' all) : l ⊆ l' := by
  have hpref : ∀ pre, pre <+: l → pre ⊆ l' := by
    intro pre
    induction pre using List.reverseRecOn with
    | nil => exact fun _ => List.nil_subset _
    | append_singleton pre b ih =>
        intro hpre
        have hearlier : pre ⊆ l' := ih ((List.prefix_append ..).trans hpre)
        have hnodup : pre.Nodup := h.nodup.sublist (((List.prefix_append ..).trans hpre).sublist)
        have hready : ready l' b := hmono pre l' b hnodup hearlier (h.inSequence pre b hpre)
        have hall : b ∈ all := h.subset (hpre.subset (by simp))
        have hb : b ∈ l' := by
          by_contra hb
          exact h'.closed b hall hb hready
        exact List.append_subset.mpr ⟨hearlier, by simpa using hb⟩
  exact hpref l (List.prefix_refl _)

/-- The elements of a saturated sequence do not depend on the order in which they
were found. -/
theorem Saturates.perm (hmono : MonotoneReady ready) (h : Saturates ready l all)
    (h' : Saturates ready l' all) : l.Perm l' :=
  (List.perm_ext_iff_of_nodup h.nodup h'.nodup).mpr fun _ =>
    ⟨fun hmem => h.subset_of hmono h' hmem, fun hmem => h'.subset_of hmono h hmem⟩
