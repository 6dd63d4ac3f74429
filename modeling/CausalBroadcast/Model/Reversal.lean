import CausalBroadcast.Model.Parser
import CausalBroadcast.Model.Pending

/-!
# Reversing the dependencies

`depends_on` and `alloc_reverse_dependencies` of `dependencies.c`.  Both loops of the
reversal count from zero, and `get_dependencies` reads the list behind a pid, one
before it: the first test reads `dep_lists[-1]`, so no call returns
(`allocReverseDependencies_undefined`).
-/

namespace CausalBroadcast

/-- A call on the matrix that is built; an error is the return of `NULL`. -/
abbrev ReverseCall := Call ErrorCode Dependencies

/-- `depends_on`: `1` if `target` is in the list of `source`.  A list that was never
set has no elements. -/
def dependsOn (reference : Dependencies) (source target : ℕ) : ReverseCall ℕ :=
  if reference.numProc ≤ source then
    Call.fail .args
  else
    match getDependencies reference.depLists source with
    | none => Call.fail .memory
    | some index => do
        let fromList ← Call.access (dependencyList reference.depLists (some index))
        pure (if target ∈ fromList then 1 else 0)

/-- The inner loop of `alloc_reverse_dependencies`: the buffer `tmp_pids` for `source`. -/
def reverseList (reference : Dependencies) (source : ℕ) : ReverseCall (List ℕ) :=
  (List.range reference.numProc).foldlM (fun tmpPids target => do
    let depTest ← dependsOn reference target source
    pure (if 0 < depTest then tmpPids ++ [target] else tmpPids)) []

/-- The body of the outer loop. -/
def reverseBody (reference : Dependencies) (source : ℕ) : ReverseCall Unit := do
  let tmpPids ← reverseList reference source
  let dependencies ← Call.state
  match getDependencies dependencies.depLists source with
  | none => Call.fail .memory
  | some index => do
      let _ ← Call.access (dependencyList dependencies.depLists (some index))
      Call.modify fun dependencies => { dependencies with
        depLists := dependencies.depLists.set index.toNat tmpPids }

/-- `alloc_reverse_dependencies`. -/
def allocReverseDependencies (reference : Dependencies) : Outcome ErrorCode Dependencies Unit :=
  (List.range reference.numProc).forM (reverseBody reference)
    (allocDependencies reference.numProc)

/-- `q` is in the list of `p`. -/
def Dependencies.Lists (dependencies : Dependencies) (p q : ℕ) : Prop :=
  q ∈ dependencies.depLists.getD (p - 1) []

/-- The reversal is the converse relation on the pids, without repetitions, and the
reversal of the reversal is the relation itself. -/
def ReversesTwice (reference : Dependencies) : Prop :=
  ∃ reverse twice, allocReverseDependencies reference = .ok () reverse ∧
    allocReverseDependencies reverse = .ok () twice ∧
    (∀ list ∈ reverse.depLists, list.Nodup) ∧
    ∀ p q, 1 ≤ p ∧ p ≤ reference.numProc → 1 ≤ q ∧ q ≤ reference.numProc →
      (reverse.Lists p q ↔ reference.Lists q p) ∧ (twice.Lists p q ↔ reference.Lists p q)

/-- Already the first test of the first list reads before the array. -/
theorem allocReverseDependencies_undefined {reference : Dependencies}
    (hpos : 1 ≤ reference.numProc) : allocReverseDependencies reference = .undefined := by
  have htest : ∀ matrix, dependsOn reference 0 0 matrix = .undefined := by
    intro matrix
    unfold dependsOn
    rw [if_neg (by omega)]
    rfl
  obtain ⟨n, hn⟩ : ∃ n, reference.numProc = n + 1 := ⟨_, (Nat.sub_add_cancel hpos).symm⟩
  have hlist : ∀ matrix, reverseList reference 0 matrix = .undefined := by
    intro matrix
    unfold reverseList
    rw [hn, List.range_succ_eq_map, List.foldlM_cons, Call.bind_apply, Call.bind_apply, htest]
    rfl
  unfold allocReverseDependencies
  rw [hn, List.range_succ_eq_map]
  show (reverseBody reference 0 >>= _ : ReverseCall Unit) _ = _
  rw [Call.bind_apply]
  unfold reverseBody
  rw [Call.bind_apply, hlist]
  rfl

/-- No matrix is reversed. -/
theorem not_reversesTwice {reference : Dependencies} (hpos : 1 ≤ reference.numProc) :
    ¬ ReversesTwice reference := by
  rintro ⟨reverse, twice, hreverse, -⟩
  rw [allocReverseDependencies_undefined hpos] at hreverse
  cases hreverse

/-- Two processes that depend on each other. -/
theorem not_reversesTwice_pair : ¬ ReversesTwice ⟨2, [[2], [1]]⟩ :=
  not_reversesTwice (by decide)

theorem reversal_outside : allocReverseDependencies ⟨2, [[2], [1]]⟩ = .undefined := by
  decide +kernel

end CausalBroadcast
