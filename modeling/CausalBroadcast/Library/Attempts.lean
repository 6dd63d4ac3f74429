import CausalBroadcast.Library.Call
import Mathlib.Data.List.Infix

/-!
# Sequences of calls against an abstract machine

`attemptAll call ops` makes one call after the other, going on after errors.  An
abstract machine has states in `μ` and the step function `next`; `reads` says when a
concrete state shows what an abstract state says.  `Follows` is the refinement: after
every part of the sequence the concrete state shows the abstract one.

`follows_of_good` and `not_bad_of_follows` are the two halves of an exact condition: an
invariant that all calls keep but the bad ones, and bad calls that spoil what is shown.
-/

variable {ε σ μ ω : Type*} {call : ω → Call ε σ Unit} {next : μ → ω → μ} {reads : μ → σ → Prop}
  {inv : μ → σ → Prop} {bad : ω → Prop} {ops : List ω} {m : μ} {s : σ}

/-- Make the calls, going on after errors. -/
def attemptAll (call : ω → Call ε σ Unit) : List ω → Call ε σ Unit
  | [] => pure ()
  | op :: ops => do
      Call.attempt (call op)
      attemptAll call ops

/-- After every part of the sequence the state shows the one of the abstract machine. -/
def Follows (call : ω → Call ε σ Unit) (next : μ → ω → μ) (reads : μ → σ → Prop) (m : μ) (s : σ)
    (ops : List ω) : Prop :=
  ∀ pre, pre <+: ops → ∃ s', attemptAll call pre s = .ok () s' ∧ reads (pre.foldl next m) s'

theorem attemptAll_concat (op : ω) (ops : List ω) (s : σ) : attemptAll call (ops ++ [op]) s =
    (attemptAll call ops s).andThen fun _ => Call.attempt (call op) := by
  induction ops generalizing s with
  | nil =>
      show (Call.attempt (call op) s).andThen _ = Call.attempt (call op) s
      cases Call.attempt (call op) s <;> rfl
  | cons first ops ih =>
      rw [List.cons_append, attemptAll, attemptAll, Call.bind_apply, Call.bind_apply]
      cases Call.attempt (call first) s with
      | ok value s' => exact ih s'
      | error code s' => rfl
      | running s' => rfl
      | undefined => rfl

/-- What every single call keeps, the sequence keeps. -/
theorem attemptAll_keeps {P : σ → Prop}
    (hstep : ∀ op s s', P s → Call.attempt (call op) s = .ok () s' → P s') {s' : σ}
    (hs : P s) (hrun : attemptAll call ops s = .ok () s') : P s' := by
  induction ops generalizing s with
  | nil =>
      obtain ⟨-, rfl⟩ := Outcome.ok.inj hrun
      exact hs
  | cons op ops ih =>
      rw [attemptAll, Call.bind_apply] at hrun
      cases hcall : Call.attempt (call op) s with
      | ok value s₁ =>
          rw [hcall] at hrun
          exact ih (hstep op s s₁ hs hcall) hrun
      | error code s₁ => rw [hcall] at hrun; cases hrun
      | running s₁ => rw [hcall] at hrun; cases hrun
      | undefined => rw [hcall] at hrun; cases hrun

/-- The first element of a list with some property. -/
theorem exists_first_of_mem (h : ∃ op ∈ ops, bad op) :
    ∃ pre op, pre ++ [op] <+: ops ∧ (∀ earlier ∈ pre, ¬ bad earlier) ∧ bad op := by
  induction ops with
  | nil => simp at h
  | cons first ops ih =>
      by_cases hfirst : bad first
      · exact ⟨[], first, ⟨ops, rfl⟩, by simp, hfirst⟩
      · obtain ⟨op, hmem, hbad⟩ := h
        rcases List.mem_cons.mp hmem with rfl | hmem
        · exact absurd hbad hfirst
        · obtain ⟨pre, op, hpre, hearlier, hbad⟩ := ih ⟨op, hmem, hbad⟩
          refine ⟨first :: pre, op, (List.prefix_cons_inj first).mpr hpre, ?_, hbad⟩
          rw [List.forall_mem_cons]
          exact ⟨hfirst, hearlier⟩

theorem attemptAll_of_good (hinv : inv m s)
    (hgood : ∀ m s op, inv m s → ¬ bad op →
      ∃ s', Call.attempt (call op) s = .ok () s' ∧ inv (next m op) s')
    (hops : ∀ op ∈ ops, ¬ bad op) :
    ∃ s', attemptAll call ops s = .ok () s' ∧ inv (ops.foldl next m) s' := by
  induction ops generalizing m s with
  | nil => exact ⟨s, rfl, hinv⟩
  | cons op ops ih =>
      rw [List.forall_mem_cons] at hops
      obtain ⟨s₁, hcall, hinv₁⟩ := hgood m s op hinv hops.1
      obtain ⟨s₂, hrun, hinv₂⟩ := ih hinv₁ hops.2
      exact ⟨s₂, by rw [attemptAll, Call.bind_apply, hcall, Outcome.ok_andThen, hrun], hinv₂⟩

theorem follows_of_good (hinv : inv m s)
    (hgood : ∀ m s op, inv m s → ¬ bad op →
      ∃ s', Call.attempt (call op) s = .ok () s' ∧ inv (next m op) s')
    (hreads : ∀ m s, inv m s → reads m s) (hops : ∀ op ∈ ops, ¬ bad op) :
    Follows call next reads m s ops := by
  intro pre hpre
  obtain ⟨s', hrun, hinv'⟩ :=
    attemptAll_of_good hinv hgood fun op hmem => hops op (hpre.subset hmem)
  exact ⟨s', hrun, hreads _ _ hinv'⟩

theorem not_bad_of_follows (hinv : inv m s)
    (hgood : ∀ m s op, inv m s → ¬ bad op →
      ∃ s', Call.attempt (call op) s = .ok () s' ∧ inv (next m op) s')
    (hbad : ∀ m s op s', inv m s → bad op → Call.attempt (call op) s = .ok () s' →
      ¬ reads (next m op) s')
    (hfollows : Follows call next reads m s ops) : ∀ op ∈ ops, ¬ bad op := by
  by_contra hsome
  push Not at hsome
  obtain ⟨pre, op, hpre, hearlier, hop⟩ := exists_first_of_mem hsome
  obtain ⟨s₁, hrun, hinv₁⟩ := attemptAll_of_good hinv hgood hearlier
  obtain ⟨s₂, hrun₂, hread⟩ := hfollows _ hpre
  rw [attemptAll_concat, hrun, Outcome.ok_andThen] at hrun₂
  rw [List.foldl_append] at hread
  exact hbad _ _ _ _ hinv₁ hop hrun₂ hread
