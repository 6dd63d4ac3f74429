import CausalBroadcast.Library.Call
import CausalBroadcast.Library.Reachability
import Mathlib.Logic.Function.Basic

/-!
# Data behind mutexes

A `Guarded σ` is a value with the mutex that protects it, which is held or free.  `lock`
and `unlock` are calls like others, so a function is written with its `unlock` on each way
out on which it has one.  A call that locks a mutex that is held does not go on: it is left
`running`.

Two forms of a section come back.  In `releasing` the `unlock` stands behind the work, and an
early return of the work passes it by; the mutex is left held exactly on an error
(`leavesHeld_releasing_iff`).  In `releasingFirst` the error code is kept until the mutex is
unlocked, and it is free on every return (`not_leavesHeld_releasingFirst`).

An operation of a `Locking` looks at its data, locks one mutex and goes on from there; it may
unlock or not.  `Locking.threads` is the system of threads that make such operations one
after another, in any interleaving.  A mutex is `Abandoned` when it is held and no thread is
inside.  The only way there is an operation that `Abandons` its mutex (`inside_of_held`,
`abandoned_of_leave`), and there is no way back (`abandoned_forever`).
-/

/-- A value and its mutex. -/
structure Guarded (σ : Type*) where
  held : Bool
  data : σ
  deriving DecidableEq

namespace Guarded

variable {ε σ α : Type*}

/-! ## Calls -/

/-- `pthread_mutex_lock`. -/
def lock : Call ε (Guarded σ) Unit := fun guarded =>
  if guarded.held then .running guarded else .ok () { guarded with held := true }

/-- `pthread_mutex_unlock`, which means nothing for a mutex that is free. -/
def unlock : Call ε (Guarded σ) Unit := fun guarded =>
  if guarded.held then .ok () { guarded with held := false } else .undefined

/-- Look at the data. -/
def read : Call ε (Guarded σ) σ := fun guarded => .ok guarded.data guarded

/-- A call on the data, which does nothing to the mutex. -/
def inside (call : Call ε σ α) : Call ε (Guarded σ) α :=
  Call.on Guarded.data (fun guarded data => { guarded with data := data }) call

@[simp] theorem read_apply (guarded : Guarded σ) :
    (read : Call ε (Guarded σ) σ) guarded = .ok guarded.data guarded := rfl

@[simp] theorem inside_apply (call : Call ε σ α) (guarded : Guarded σ) :
    inside call guarded =
      (call guarded.data).mapState fun data => { guarded with data := data } := rfl

@[simp] theorem inside_state : inside (Call.state : Call ε σ σ) = read := rfl

theorem lock_of_held {guarded : Guarded σ} (h : guarded.held = true) :
    (lock : Call ε (Guarded σ) Unit) guarded = .running guarded := if_pos h

theorem lock_of_free {guarded : Guarded σ} (h : guarded.held = false) :
    (lock : Call ε (Guarded σ) Unit) guarded = .ok () { guarded with held := true } := by
  rw [lock, h]
  rfl

theorem lock_eq_ok {guarded guarded' : Guarded σ}
    (h : (lock : Call ε (Guarded σ) Unit) guarded = .ok () guarded') :
    guarded.held = false ∧ guarded' = ⟨true, guarded.data⟩ := by
  unfold lock at h
  cases hheld : guarded.held with
  | true =>
      rw [hheld] at h
      cases h
  | false =>
      rw [hheld] at h
      exact ⟨rfl, (Outcome.ok.inj h).2.symm⟩

theorem eq_of_held {guarded : Guarded σ} (h : guarded.held = true) :
    guarded = ⟨true, guarded.data⟩ := by rw [← h]

@[simp] theorem unlock_held (data : σ) :
    (unlock : Call ε (Guarded σ) Unit) ⟨true, data⟩ = .ok () ⟨false, data⟩ := rfl

theorem unlock_eq_ok {guarded guarded' : Guarded σ}
    (h : (unlock : Call ε (Guarded σ) Unit) guarded = .ok () guarded') :
    guarded.held = true ∧ guarded' = ⟨false, guarded.data⟩ := by
  unfold unlock at h
  cases hheld : guarded.held with
  | true =>
      rw [hheld] at h
      exact ⟨rfl, (Outcome.ok.inj h).2.symm⟩
  | false =>
      rw [hheld] at h
      cases h

end Guarded

/-! ## Sections -/

namespace Guarded

variable {ε σ : Type*} {α : Type}

/-- From a locked mutex, the call returns without having unlocked it. -/
def LeavesHeld (call : Call ε (Guarded σ) α) (data : σ) : Prop :=
  ∃ guarded', (call ⟨true, data⟩).ReturnsIn guarded' ∧ guarded'.held = true

/-- The work of a section, and then the unlocking. -/
def releasing (call : Call ε σ α) : Call ε (Guarded σ) α := do
  let value ← inside call
  unlock
  pure value

/-- The work of a section, the unlocking, and then the return of what the work came to. -/
def releasingFirst {ε : Type} (call : Call ε σ α) : Call ε (Guarded σ) α := do
  let result ← inside call.result
  unlock
  Call.returning result

/-! What `releasing` is for a work that is written with early returns. -/

theorem releasing_bind {β : Type} (call : Call ε σ α) (next : α → Call ε σ β) :
    releasing (call >>= next) = inside call >>= fun value => releasing (next value) := by
  funext guarded
  simp only [releasing, Call.bind_apply, inside_apply]
  cases call guarded.data <;> rfl

theorem releasing_ite (p : Prop) [Decidable p] (yes no : Call ε σ α) :
    releasing (if p then yes else no) = if p then releasing yes else releasing no :=
  apply_ite releasing p yes no

theorem releasing_pure (value : α) :
    releasing (pure value : Call ε σ α) = unlock >>= fun _ => pure value := rfl

theorem releasing_unit (call : Call ε σ Unit) :
    releasing call = inside call >>= fun _ => unlock := by
  funext guarded
  simp only [releasing, Call.bind_apply, inside_apply]
  cases call guarded.data with
  | ok value data => cases guarded.held <;> rfl
  | error code data => rfl
  | running data => rfl
  | undefined => rfl

theorem releasing_undef : releasing (Call.undef : Call ε σ α) = Call.undef := rfl

section Releasing

variable {call : Call ε σ α} {guarded guarded' : Guarded σ}

theorem releasing_of_ok {value : α} {data : σ} (hheld : guarded.held = true)
    (h : call guarded.data = .ok value data) :
    releasing call guarded = .ok value ⟨false, data⟩ := by
  rw [releasing, Call.bind_apply, inside_apply, h, Outcome.mapState_ok, Outcome.ok_andThen, hheld]
  rfl

theorem releasing_of_error {code : ε} {data : σ} (h : call guarded.data = .error code data) :
    releasing call guarded = .error code ⟨guarded.held, data⟩ := by
  rw [releasing, Call.bind_apply, inside_apply, h, Outcome.mapState_error, Outcome.error_andThen]

theorem releasing_of_running {data : σ} (h : call guarded.data = .running data) :
    releasing call guarded = .running ⟨guarded.held, data⟩ := by
  rw [releasing, Call.bind_apply, inside_apply, h, Outcome.mapState_running,
    Outcome.running_andThen]

theorem releasing_of_undefined (h : call guarded.data = .undefined) :
    releasing call guarded = .undefined := by
  rw [releasing, Call.bind_apply, inside_apply, h, Outcome.mapState_undefined,
    Outcome.undefined_andThen]

theorem releasing_eq_ok {value : α} (h : releasing call guarded = .ok value guarded') :
    ∃ data, call guarded.data = .ok value data ∧ guarded' = ⟨false, data⟩ := by
  cases hcall : call guarded.data with
  | ok value' data =>
      rw [releasing, Call.bind_apply, inside_apply, hcall, Outcome.mapState_ok,
        Outcome.ok_andThen] at h
      obtain ⟨_, unlocked, hunlock, hpure⟩ := Outcome.ok_of_andThen h
      obtain ⟨-, rfl⟩ := unlock_eq_ok hunlock
      obtain ⟨rfl, rfl⟩ := Outcome.ok.inj hpure
      exact ⟨data, rfl, rfl⟩
  | error code data => rw [releasing_of_error hcall] at h; cases h
  | running data => rw [releasing_of_running hcall] at h; cases h
  | undefined => rw [releasing_of_undefined hcall] at h; cases h

theorem releasing_eq_error {code : ε} (h : releasing call guarded = .error code guarded') :
    ∃ data, call guarded.data = .error code data ∧ guarded' = ⟨guarded.held, data⟩ := by
  cases hcall : call guarded.data with
  | ok value data =>
      rw [releasing, Call.bind_apply, inside_apply, hcall, Outcome.mapState_ok,
        Outcome.ok_andThen, Call.bind_apply, unlock] at h
      cases hheld : guarded.held <;> rw [hheld] at h <;> cases h
  | error code' data =>
      rw [releasing_of_error hcall] at h
      obtain ⟨rfl, rfl⟩ := Outcome.error.inj h
      exact ⟨data, rfl, rfl⟩
  | running data => rw [releasing_of_running hcall] at h; cases h
  | undefined => rw [releasing_of_undefined hcall] at h; cases h

/-- The mutex is left held exactly by an error. -/
theorem leavesHeld_releasing_iff {data : σ} :
    LeavesHeld (releasing call) data ↔ ∃ code data', call data = .error code data' := by
  constructor
  · rintro ⟨guarded', ⟨value, hok⟩ | ⟨code, herror⟩, hheld⟩
    · obtain ⟨data', -, rfl⟩ := releasing_eq_ok hok
      cases hheld
    · obtain ⟨data', hcall, -⟩ := releasing_eq_error herror
      exact ⟨code, data', hcall⟩
  · rintro ⟨code, data', hcall⟩
    exact ⟨⟨true, data'⟩, .inr ⟨code, releasing_of_error hcall⟩, rfl⟩

end Releasing

/-- On every return the mutex is free. -/
theorem not_leavesHeld_releasingFirst {ε : Type} (call : Call ε σ α) (data : σ) :
    ¬ LeavesHeld (releasingFirst call) data := by
  rintro ⟨guarded', hreturns, hheld⟩
  rw [releasingFirst, Call.bind_apply, inside_apply, Call.result] at hreturns
  -- whatever the call has returned, it is returned behind the unlocking
  cases hcall : call data with
  | ok value data' =>
      rw [hcall] at hreturns
      rw [← hreturns.ok_eq] at hheld
      cases hheld
  | error code data' =>
      rw [hcall] at hreturns
      rw [← hreturns.error_eq] at hheld
      cases hheld
  | running data' =>
      rw [hcall] at hreturns
      exact Outcome.not_returnsIn_running _ _ hreturns
  | undefined =>
      rw [hcall] at hreturns
      exact Outcome.not_returnsIn_undefined _ hreturns

end Guarded

/-! ## Operations -/

/-- Operations on data that is split among the mutexes `l`, each with the part `D l`. -/
structure Locking (ε : Type*) {L : Type*} (D : L → Type*) (Op : Type*) where
  /-- The mutex an operation locks. -/
  lock : Op → L
  /-- What it returns. -/
  Result : Op → Type
  /-- The error it returns before it locks. -/
  refuses : (op : Op) → D (lock op) → Option ε
  /-- What it does once the mutex is locked, up to its return. -/
  locked : (op : Op) → Call ε (Guarded (D (lock op))) (Result op)

/-- The data behind all mutexes. -/
abbrev Shared {L : Type*} (D : L → Type*) := ∀ l, Guarded (D l)

/-- The data, and the operation each thread is inside of. -/
structure Threads (Thread : Type*) {L : Type*} (D : L → Type*) (Op : Type*) where
  shared : Shared D
  inside : Thread → Option Op

namespace Locking

variable {ε L Op : Type*} [DecidableEq L] {D : L → Type*} (P : Locking ε D Op)

/-- A call on the data behind one mutex. -/
def behind {α : Type} (l : L) (call : Call ε (Guarded (D l)) α) : Call ε (Shared D) α :=
  Call.on (fun shared => shared l) (fun shared guarded => Function.update shared l guarded) call

/-- The beginning of an operation, up to where it has locked the mutex. -/
def enter (op : Op) : Call ε (Shared D) Unit := fun shared =>
  match P.refuses op (shared (P.lock op)).data with
  | some code => .error code shared
  | none => behind (P.lock op) Guarded.lock shared

/-- The rest of it. -/
def leave (op : Op) : Call ε (Shared D) (P.Result op) := behind (P.lock op) (P.locked op)

/-- An operation, when no other thread comes in between. -/
def call (op : Op) : Call ε (Shared D) (P.Result op) := do
  P.enter op
  P.leave op

/-- The operation, when it has locked its mutex, returns without having unlocked it. -/
def Abandons (op : Op) (shared : Shared D) : Prop :=
  P.refuses op (shared (P.lock op)).data = none ∧
    Guarded.LeavesHeld (P.locked op) (shared (P.lock op)).data

section Call

variable {P} {op : Op} {shared shared' : Shared D}

theorem enter_of_refuses {code : ε} (h : P.refuses op (shared (P.lock op)).data = some code) :
    P.enter op shared = .error code shared := by
  unfold enter
  rw [h]

theorem enter_of_held (hrefuses : P.refuses op (shared (P.lock op)).data = none)
    (hheld : (shared (P.lock op)).held = true) : P.enter op shared = .running shared := by
  unfold enter behind
  rw [hrefuses, Call.on_apply, Guarded.lock_of_held hheld, Outcome.mapState_running,
    Function.update_eq_self]

theorem enter_of_free (hrefuses : P.refuses op (shared (P.lock op)).data = none)
    (hfree : (shared (P.lock op)).held = false) :
    P.enter op shared =
      .ok () (Function.update shared (P.lock op) ⟨true, (shared (P.lock op)).data⟩) := by
  unfold enter behind
  rw [hrefuses, Call.on_apply, Guarded.lock, hfree]
  rfl

/-- An operation gets into its section only when the mutex is free. -/
theorem enter_eq_ok (h : P.enter op shared = .ok () shared') :
    P.refuses op (shared (P.lock op)).data = none ∧ (shared (P.lock op)).held = false ∧
      shared' = Function.update shared (P.lock op) ⟨true, (shared (P.lock op)).data⟩ := by
  cases hrefuses : P.refuses op (shared (P.lock op)).data with
  | some code =>
      rw [enter_of_refuses hrefuses] at h
      cases h
  | none =>
      cases hheld : (shared (P.lock op)).held with
      | true =>
          rw [enter_of_held hrefuses hheld] at h
          cases h
      | false =>
          rw [enter_of_free hrefuses hheld] at h
          exact ⟨rfl, rfl, (Outcome.ok.inj h).2.symm⟩

theorem enter_eq_error {code : ε} (h : P.enter op shared = .error code shared') :
    P.refuses op (shared (P.lock op)).data = some code ∧ shared' = shared := by
  cases hrefuses : P.refuses op (shared (P.lock op)).data with
  | some code' =>
      rw [enter_of_refuses hrefuses] at h
      obtain ⟨rfl, rfl⟩ := Outcome.error.inj h
      exact ⟨rfl, rfl⟩
  | none =>
      cases hheld : (shared (P.lock op)).held with
      | true =>
          rw [enter_of_held hrefuses hheld] at h
          cases h
      | false =>
          rw [enter_of_free hrefuses hheld] at h
          cases h

theorem leave_returnsIn (h : (P.leave op shared).ReturnsIn shared') :
    ∃ guarded', (P.locked op (shared (P.lock op))).ReturnsIn guarded' ∧
      shared' = Function.update shared (P.lock op) guarded' := by
  unfold leave behind at h
  rw [Call.on_apply] at h
  cases hrun : P.locked op (shared (P.lock op)) with
  | ok value guarded' =>
      rw [hrun] at h
      exact ⟨guarded', .inl ⟨value, rfl⟩, h.ok_eq.symm⟩
  | error code guarded' =>
      rw [hrun] at h
      exact ⟨guarded', .inr ⟨code, rfl⟩, h.error_eq.symm⟩
  | running guarded' =>
      rw [hrun] at h
      exact absurd h (Outcome.not_returnsIn_running _ _)
  | undefined =>
      rw [hrun] at h
      exact absurd h (Outcome.not_returnsIn_undefined _)

omit [DecidableEq L] in
/-- An operation that comes out in `guarded'` abandons its mutex if it is held there. -/
theorem abandons_iff_held (hrefuses : P.refuses op (shared (P.lock op)).data = none)
    {guarded' : Guarded (D (P.lock op))}
    (h : (P.locked op ⟨true, (shared (P.lock op)).data⟩).ReturnsIn guarded') :
    P.Abandons op shared ↔ guarded'.held = true := by
  constructor
  · rintro ⟨-, left, hleft, hheld⟩
    rwa [h.unique hleft]
  · exact fun hheld => ⟨hrefuses, guarded', h, hheld⟩

/-- An operation leaves all mutexes as it found them unless it abandons its own. -/
theorem held_of_call (h : (P.call op shared).ReturnsIn shared') :
    (∀ l, (shared' l).held = (shared l).held) ↔ ¬ P.Abandons op shared := by
  rw [call, Call.bind_apply] at h
  cases henter : P.enter op shared with
  | ok value entered =>
      rw [henter, Outcome.ok_andThen] at h
      obtain ⟨hrefuses, hfree, rfl⟩ := enter_eq_ok henter
      obtain ⟨guarded', hleave, rfl⟩ := leave_returnsIn h
      rw [Function.update_self] at hleave
      have habandons := abandons_iff_held hrefuses hleave
      rw [Function.update_idem, habandons]
      constructor
      · intro hsame hheld
        have hlock := hsame (P.lock op)
        rw [Function.update_self, hfree, hheld] at hlock
        cases hlock
      · intro hnot l
        by_cases hl : l = P.lock op
        · subst hl
          rw [Function.update_self, hfree]
          exact Bool.not_eq_true _ ▸ hnot
        · rw [Function.update_of_ne hl]
  | error code shared'' =>
      rw [henter, Outcome.error_andThen] at h
      obtain ⟨hrefuses, rfl⟩ := enter_eq_error henter
      obtain rfl := h.error_eq
      constructor
      · intro _ habandons
        have hnone := habandons.1
        rw [hrefuses] at hnone
        cases hnone
      · exact fun _ _ => rfl
  | running shared'' =>
      rw [henter] at h
      exact absurd h (Outcome.not_returnsIn_running _ _)
  | undefined =>
      rw [henter] at h
      exact absurd h (Outcome.not_returnsIn_undefined _)

end Call

/-! ## Threads -/

section Threads

variable (Thread : Type*) [DecidableEq Thread]

/-- The steps of threads that make the operations. -/
inductive Step : Threads Thread D Op → Threads Thread D Op → Prop
  | refuse {s : Threads Thread D Op} {t : Thread} {op : Op} {code : ε} {shared' : Shared D}
      (hidle : s.inside t = none) (h : P.enter op s.shared = .error code shared') :
      Step s { s with shared := shared' }
  | enter {s : Threads Thread D Op} {t : Thread} {op : Op} {shared' : Shared D}
      (hidle : s.inside t = none) (h : P.enter op s.shared = .ok () shared') :
      Step s ⟨shared', Function.update s.inside t (some op)⟩
  | leave {s : Threads Thread D Op} {t : Thread} {op : Op} {shared' : Shared D}
      (hinside : s.inside t = some op) (h : (P.leave op s.shared).ReturnsIn shared') :
      Step s ⟨shared', Function.update s.inside t none⟩

/-- The threads, from any data behind free mutexes. -/
def threads : TransitionSystem (Threads Thread D Op) where
  init s := (∀ l, (s.shared l).held = false) ∧ ∀ t, s.inside t = none
  step := P.Step Thread

variable {Thread} {P}

/-- A thread that comes out of its section in this step does not do so by the condition
`fails`. -/
def LeavesWithout (fails : Op → Shared D → Prop) (s s' : Threads Thread D Op) : Prop :=
  ∀ t op, s.inside t = some op → s'.inside t = none → ¬ fails op s.shared

/-- What holds of threads that are inside of a section. -/
structure Orderly (P : Locking ε D Op) (s : Threads Thread D Op) : Prop where
  held : ∀ t op, s.inside t = some op →
    P.refuses op (s.shared (P.lock op)).data = none ∧ (s.shared (P.lock op)).held = true
  exclusive : ∀ t op t' op', s.inside t = some op → s.inside t' = some op' →
    P.lock op = P.lock op' → t = t'

/-- The mutex is held, and no thread will unlock it. -/
def Abandoned (P : Locking ε D Op) (l : L) (s : Threads Thread D Op) : Prop :=
  (s.shared l).held = true ∧ ∀ t op, s.inside t = some op → P.lock op ≠ l

variable {s s' : Threads Thread D Op}

/-- Who is inside after a thread has entered or left. -/
theorem inside_update {inside : Thread → Option Op} {t t' : Thread} {now : Option Op} {op : Op}
    (h : Function.update inside t now t' = some op) :
    (t' = t ∧ now = some op) ∨ (t' ≠ t ∧ inside t' = some op) := by
  by_cases ht : t' = t
  · subst ht
    rw [Function.update_self] at h
    exact .inl ⟨rfl, h⟩
  · rw [Function.update_of_ne ht] at h
    exact .inr ⟨ht, h⟩

theorem Orderly.step (h : Orderly P s) (hstep : P.Step Thread s s') : Orderly P s' := by
  cases hstep with
  | refuse hidle henter =>
      obtain ⟨-, rfl⟩ := enter_eq_error henter
      exact ⟨h.held, h.exclusive⟩
  | @enter t op _ hidle henter =>
      obtain ⟨hrefuses, hfree, rfl⟩ := enter_eq_ok henter
      -- the others are behind other mutexes
      have hother : ∀ t' op', s.inside t' = some op' → P.lock op' ≠ P.lock op := by
        intro t' op' hinside heq
        have hheld := (h.held t' op' hinside).2
        rw [heq, hfree] at hheld
        cases hheld
      constructor
      · intro t' op' hinside
        dsimp only at hinside ⊢
        rcases inside_update hinside with ⟨rfl, heq⟩ | ⟨hne, hinside⟩
        · cases heq
          rw [Function.update_self]
          exact ⟨hrefuses, rfl⟩
        · rw [Function.update_of_ne (hother t' op' hinside)]
          exact h.held t' op' hinside
      · intro t₁ op₁ t₂ op₂ hinside₁ hinside₂ hlock
        rcases inside_update hinside₁ with ⟨ht₁, heq₁⟩ | ⟨hne₁, hbefore₁⟩
        · rcases inside_update hinside₂ with ⟨ht₂, heq₂⟩ | ⟨hne₂, hbefore₂⟩
          · rw [ht₁, ht₂]
          · cases heq₁
            exact absurd hlock.symm (hother t₂ op₂ hbefore₂)
        · rcases inside_update hinside₂ with ⟨ht₂, heq₂⟩ | ⟨hne₂, hbefore₂⟩
          · cases heq₂
            exact absurd hlock (hother t₁ op₁ hbefore₁)
          · exact h.exclusive t₁ op₁ t₂ op₂ hbefore₁ hbefore₂ hlock
  | @leave t op _ hinside hleave =>
      obtain ⟨guarded', hbody, rfl⟩ := leave_returnsIn hleave
      -- who is inside afterwards was so before, and not with this mutex
      have hstill : ∀ {t' op'}, Function.update s.inside t none t' = some op' →
          t' ≠ t ∧ s.inside t' = some op' := by
        intro t' op' hinside'
        rcases inside_update hinside' with ⟨rfl, heq⟩ | hstill
        · cases heq
        · exact hstill
      constructor
      · intro t' op' hinside'
        obtain ⟨hne, hinside'⟩ := hstill hinside'
        have hlock : P.lock op' ≠ P.lock op := fun heq =>
          hne (h.exclusive t' op' t op hinside' hinside heq)
        dsimp only
        rw [Function.update_of_ne hlock]
        exact h.held t' op' hinside'
      · intro t₁ op₁ t₂ op₂ hinside₁ hinside₂ hlock
        exact h.exclusive t₁ op₁ t₂ op₂ (hstill hinside₁).2 (hstill hinside₂).2 hlock

theorem orderly_of_reachable (h : (P.threads Thread).Reachable s) : Orderly P s := by
  refine h.invariant (fun s hinit => ?_) fun s s' _ horderly hstep => horderly.step hstep
  have hnone : ∀ {t op}, s.inside t ≠ some op := fun {t op} hinside => by
    rw [hinit.2 t] at hinside
    cases hinside
  exact ⟨fun t op hinside => absurd hinside hnone, fun t op _ _ hinside => absurd hinside hnone⟩

/-- While no operation abandons its mutex, a held mutex has a thread inside. -/
theorem inside_of_held
    (h : ((P.threads Thread).restrict (LeavesWithout P.Abandons)).Reachable s) :
    ∀ l, (s.shared l).held = true → ∃ t op, s.inside t = some op ∧ P.lock op = l := by
  refine h.invariant (I := fun s => ∀ l, (s.shared l).held = true →
    ∃ t op, s.inside t = some op ∧ P.lock op = l) (fun s hinit l hheld => ?_)
    fun s s' hreach hheld hstep => ?_
  · rw [hinit.1 l] at hheld
    cases hheld
  have horderly := orderly_of_reachable hreach.of_restrict
  obtain ⟨hstep, hleaves⟩ := hstep
  intro l hheld'
  cases hstep with
  | refuse hidle henter =>
      obtain ⟨-, rfl⟩ := enter_eq_error henter
      exact hheld l hheld'
  | @enter t op _ hidle henter =>
      obtain ⟨hrefuses, hfree, rfl⟩ := enter_eq_ok henter
      dsimp only at hheld'
      by_cases hl : l = P.lock op
      · exact ⟨t, op, Function.update_self .., hl.symm⟩
      · have hheld' : (s.shared l).held = true := by rwa [Function.update_of_ne hl] at hheld'
        obtain ⟨t', op', hinside, hlock⟩ := hheld l hheld'
        have ht : t' ≠ t := by
          rintro rfl
          rw [hidle] at hinside
          cases hinside
        exact ⟨t', op', (Function.update_of_ne ht ..).trans hinside, hlock⟩
  -- Its own mutex is free after it, unless it has abandoned it; the others keep their threads.
  | @leave t op _ hinside hleave =>
      obtain ⟨guarded', hbody, rfl⟩ := leave_returnsIn hleave
      obtain ⟨hrefuses, hentered⟩ := horderly.held t op hinside
      dsimp only at hheld'
      by_cases hl : l = P.lock op
      · subst hl
        rw [Function.update_self] at hheld'
        rw [Guarded.eq_of_held hentered] at hbody
        exact absurd ⟨hrefuses, guarded', hbody, hheld'⟩
          (hleaves t op hinside (Function.update_self ..))
      · have hheld' : (s.shared l).held = true := by rwa [Function.update_of_ne hl] at hheld'
        obtain ⟨t', op', hinside', hlock⟩ := hheld l hheld'
        have ht : t' ≠ t := by
          rintro rfl
          rw [hinside] at hinside'
          cases hinside'
          exact hl hlock.symm
        exact ⟨t', op', (Function.update_of_ne ht ..).trans hinside', hlock⟩

/-- The step by which a thread abandons its mutex. -/
theorem abandoned_of_leave (h : (P.threads Thread).Reachable s) (hstep : P.Step Thread s s')
    {t : Thread} {op : Op} (hinside : s.inside t = some op) (hout : s'.inside t = none)
    (habandons : P.Abandons op s.shared) : Abandoned P (P.lock op) s' := by
  have horderly := orderly_of_reachable h
  cases hstep with
  | refuse hidle henter =>
      rw [hinside] at hout
      cases hout
  | @enter t' op' _ hidle henter =>
      dsimp only at hout
      rcases eq_or_ne t t' with rfl | hne
      · rw [Function.update_self] at hout
        cases hout
      · rw [Function.update_of_ne hne, hinside] at hout
        cases hout
  | @leave t' op' _ hinside' hleave =>
      obtain ⟨guarded', hbody, rfl⟩ := leave_returnsIn hleave
      dsimp only at hout
      rcases eq_or_ne t t' with rfl | hne
      · rw [hinside] at hinside'
        cases hinside'
        refine ⟨?_, fun t' op' hinside' hlock => ?_⟩
        · dsimp only
          rw [Function.update_self]
          obtain ⟨hrefuses, hentered⟩ := horderly.held t op hinside
          rw [Guarded.eq_of_held hentered] at hbody
          exact (abandons_iff_held hrefuses hbody).mp habandons
        · rcases inside_update hinside' with ⟨rfl, heq⟩ | ⟨hne, hinside'⟩
          · cases heq
          · exact hne (horderly.exclusive t' op' t op hinside' hinside hlock)
      · rw [Function.update_of_ne hne, hinside] at hout
        cases hout

theorem Abandoned.step {l : L} (h : Abandoned P l s) (hstep : P.Step Thread s s') :
    Abandoned P l s' := by
  cases hstep with
  | refuse hidle henter =>
      obtain ⟨-, rfl⟩ := enter_eq_error henter
      exact h
  | @enter t op _ hidle henter =>
      obtain ⟨hrefuses, hfree, rfl⟩ := enter_eq_ok henter
      have hl : P.lock op ≠ l := by
        rintro rfl
        rw [h.1] at hfree
        cases hfree
      refine ⟨(congrArg Guarded.held (Function.update_of_ne hl.symm ..)).trans h.1,
        fun t' op' hinside => ?_⟩
      rcases inside_update hinside with ⟨rfl, heq⟩ | ⟨hne, hinside⟩
      · cases heq
        exact hl
      · exact h.2 t' op' hinside
  | @leave t op _ hinside hleave =>
      obtain ⟨guarded', hbody, rfl⟩ := leave_returnsIn hleave
      refine ⟨(congrArg Guarded.held (Function.update_of_ne (h.2 t op hinside).symm ..)).trans h.1,
        fun t' op' hinside' => ?_⟩
      rcases inside_update hinside' with ⟨rfl, heq⟩ | ⟨hne, hinside'⟩
      · cases heq
      · exact h.2 t' op' hinside'

/-- A mutex that is abandoned stays so. -/
theorem abandoned_forever {l : L} (h : Abandoned P l s) (hsteps : (P.threads Thread).Steps s s') :
    Abandoned P l s' := by
  induction hsteps with
  | refl => exact h
  | tail _ hstep ih => exact ih.step hstep

end Threads

end Locking
