import Mathlib.Logic.Relation

/-!
# Runs of a transition system

A transition system is a set of initial states and a step relation.  This file
packages the inductions over runs that a development about such a system needs:

* `Reachable.invariant`: what holds initially and is preserved by every step
  from a reachable state holds in every reachable state;
* `Reachable.simulate`: a forward simulation of one system by another one, claimed
  as long as a bound `B` holds, where `B` can be lost but not regained;
* `CanReach.of_step` and `CanReach.backwards`: what some run from a state reaches, forwards
  by one step at a time, and backwards by what every step takes back;
* `restrict`: the runs all of whose steps meet a condition.
-/

/-- Initial states and steps. -/
structure TransitionSystem (σ : Type*) where
  init : σ → Prop
  step : σ → σ → Prop

namespace TransitionSystem

variable {σ : Type*} (T : TransitionSystem σ)

/-- The states that some run reaches. -/
inductive Reachable : σ → Prop
  | init {s : σ} (h : T.init s) : Reachable s
  | step {s t : σ} (hs : Reachable s) (h : T.step s t) : Reachable t

/-- The states `t` that some run from `s` reaches. -/
abbrev Steps (s t : σ) : Prop := Relation.ReflTransGen T.step s t

/-- The system whose steps are those steps of `T` that meet `allowed`. -/
def restrict (allowed : σ → σ → Prop) : TransitionSystem σ where
  init := T.init
  step s t := T.step s t ∧ allowed s t

variable {T}

theorem Reachable.steps {s t : σ} (hs : T.Reachable s) (h : T.Steps s t) : T.Reachable t := by
  induction h with
  | refl => exact hs
  | tail _ hstep ih => exact ih.step hstep

theorem Reachable.invariant {I : σ → Prop} (hinit : ∀ s, T.init s → I s)
    (hstep : ∀ s t, T.Reachable s → I s → T.step s t → I t) {s : σ} (hs : T.Reachable s) :
    I s := by
  induction hs with
  | init h => exact hinit _ h
  | step hs h ih => exact hstep _ _ hs ih h

theorem Reachable.of_restrict {allowed : σ → σ → Prop} {s : σ}
    (hs : (T.restrict allowed).Reachable s) : T.Reachable s := by
  induction hs with
  | init h => exact .init h
  | step _ h ih => exact ih.step h.1

/-- Where every step is allowed, nothing is restricted. -/
theorem Reachable.restrict {allowed : σ → σ → Prop} (hall : ∀ s t, allowed s t) {s : σ}
    (hs : T.Reachable s) : (T.restrict allowed).Reachable s := by
  induction hs with
  | init h => exact .init h
  | step _ h ih => exact ih.step ⟨h, hall _ _⟩

/-- Each reachable state of `T` is matched by a reachable state of `U`: the initial
states are, and from matching states every step of `T` is matched by a run of `U`. -/
theorem Reachable.simulate {τ : Type*} {U : TransitionSystem τ} {R : σ → τ → Prop}
    {B : σ → Prop} (hinit : ∀ s, T.init s → ∃ t, U.init t ∧ R s t)
    (hbound : ∀ s s', T.Reachable s → T.step s s' → B s' → B s)
    (hstep : ∀ s s' t, T.Reachable s → U.Reachable t → R s t → T.step s s' → B s' →
      ∃ t', U.Steps t t' ∧ R s' t') {s : σ} (hs : T.Reachable s) :
    B s → ∃ t, U.Reachable t ∧ R s t := by
  induction hs with
  | init h =>
      intro _
      obtain ⟨t, ht, hR⟩ := hinit _ h
      exact ⟨t, .init ht, hR⟩
  | @step s s' hs h ih =>
      intro hB
      obtain ⟨t, ht, hR⟩ := ih (hbound s s' hs h hB)
      obtain ⟨t', hsteps, hR'⟩ := hstep s s' t hs ht hR h hB
      exact ⟨t', ht.steps hsteps, hR'⟩

variable (T) in
/-- Some run from `s` reaches a state with `P`. -/
def CanReach (P : σ → Prop) (s : σ) : Prop := ∃ t, T.Steps s t ∧ P t

theorem CanReach.now {P : σ → Prop} {s : σ} (h : P s) : T.CanReach P s := ⟨s, .refl, h⟩

theorem CanReach.of_step {P : σ → Prop} {s t : σ} (h : T.CanReach P t) (hstep : T.step s t) :
    T.CanReach P s := by
  obtain ⟨u, hsteps, hP⟩ := h
  exact ⟨u, .head hstep hsteps, hP⟩

/-- What holds where `P` does, and before a step when it holds after it, holds of every
state from which `P` can be reached. -/
theorem CanReach.backwards {P J : σ → Prop} (hgoal : ∀ t, T.Reachable t → P t → J t)
    (hback : ∀ s t, T.Reachable s → T.step s t → J t → J s) {s : σ} (hs : T.Reachable s)
    (h : T.CanReach P s) : J s := by
  obtain ⟨t, hsteps, hP⟩ := h
  have hrun : ∀ {s : σ}, T.Steps s t → T.Reachable s → J s := by
    intro s hsteps
    induction hsteps using Relation.ReflTransGen.head_induction_on with
    | refl =>
        intro ht
        exact hgoal t ht hP
    | head hstep _ ih =>
        intro hs
        exact hback _ _ hs hstep (ih (hs.step hstep))
  exact hrun hsteps hs

end TransitionSystem
