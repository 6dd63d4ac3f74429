import Mathlib.Order.Defs.Unbundled
import Mathlib.Tactic.TypeStar

/-!
# Calls of C functions

A C function that reports failure through its return code is read here as a
`Call`: it takes a state and comes to an `Outcome`.  The early return
`if (error) return error;` is the monadic bind, so a body that is a sequence of
checked calls is written as a `do` block.

Two outcomes are not returns.  `running` says that the call has not returned
after the number of loop rounds it was given; it carries the state reached.
`undefined` says that the call did something to which C gives no meaning (a
read outside an array, a use of freed memory); it carries no state, because
nothing is known about one.

`Outcome.Meets` is the weakest-precondition reading of an outcome: one condition
for a normal return, one for an error return, one for a call still running.  It
asks nothing of an undefined outcome.
-/

universe u

/-- What a call comes to. -/
inductive Outcome (ε σ α : Type*) where
  | ok (value : α) (state : σ)
  | error (code : ε) (state : σ)
  | running (state : σ)
  | undefined
  deriving DecidableEq

/-- A C function on a state `σ` with error codes in `ε` and result `α`. -/
def Call (ε σ α : Type*) := σ → Outcome ε σ α

namespace Outcome

variable {ε σ τ α β : Type*}

/-- Go on after a normal return. -/
def andThen (outcome : Outcome ε σ α) (next : α → Call ε σ β) : Outcome ε σ β :=
  match outcome with
  | ok value state => next value state
  | error code state => error code state
  | running state => running state
  | undefined => undefined

@[simp] theorem ok_andThen (value : α) (state : σ) (next : α → Call ε σ β) :
    (ok value state : Outcome ε σ α).andThen next = next value state := rfl

@[simp] theorem error_andThen (code : ε) (state : σ) (next : α → Call ε σ β) :
    (error code state : Outcome ε σ α).andThen next = error code state := rfl

@[simp] theorem running_andThen (state : σ) (next : α → Call ε σ β) :
    (running state : Outcome ε σ α).andThen next = running state := rfl

@[simp] theorem undefined_andThen (next : α → Call ε σ β) :
    (undefined : Outcome ε σ α).andThen next = undefined := rfl

theorem andThen_assoc {γ : Type*} (outcome : Outcome ε σ α) (next : α → Call ε σ β)
    (rest : β → Call ε σ γ) : (outcome.andThen next).andThen rest =
      outcome.andThen fun value state => (next value state).andThen rest := by
  cases outcome <;> rfl

theorem ok_of_andThen {outcome : Outcome ε σ α} {next : α → Call ε σ β} {result : β}
    {final : σ} (h : outcome.andThen next = ok result final) :
    ∃ value state, outcome = ok value state ∧ next value state = ok result final := by
  cases outcome with
  | ok value state => exact ⟨value, state, rfl, h⟩
  | error code state => cases h
  | running state => cases h
  | undefined => cases h

/-- Put the state of an outcome back into a larger one. -/
def mapState (put : σ → τ) : Outcome ε σ α → Outcome ε τ α
  | ok value state => ok value (put state)
  | error code state => error code (put state)
  | running state => running (put state)
  | undefined => undefined

@[simp] theorem mapState_ok (put : σ → τ) (value : α) (state : σ) :
    mapState put (ok value state : Outcome ε σ α) = ok value (put state) := rfl

@[simp] theorem mapState_error (put : σ → τ) (code : ε) (state : σ) :
    mapState put (error code state : Outcome ε σ α) = error code (put state) := rfl

@[simp] theorem mapState_running (put : σ → τ) (state : σ) :
    mapState put (running state : Outcome ε σ α) = running (put state) := rfl

@[simp] theorem mapState_undefined (put : σ → τ) :
    mapState put (undefined : Outcome ε σ α) = undefined := rfl

/-- The outcome satisfies `Q` if it is a normal return, `E` if it is an error
return and `R` if the call is still running. -/
def Meets (outcome : Outcome ε σ α) (Q : α → σ → Prop) (E : ε → σ → Prop) (R : σ → Prop) :
    Prop :=
  match outcome with
  | ok value state => Q value state
  | error code state => E code state
  | running state => R state
  | undefined => True

/-- The call has returned, with or without an error. -/
def Returned : Outcome ε σ α → Prop
  | ok _ _ => True
  | error _ _ => True
  | running _ => False
  | undefined => False

/-- The call has returned, with or without an error, in the state `state`. -/
def ReturnsIn (outcome : Outcome ε σ α) (state : σ) : Prop :=
  (∃ value, outcome = ok value state) ∨ ∃ code, outcome = error code state

theorem ReturnsIn.ok_eq {value : α} {state state' : σ}
    (h : (ok value state : Outcome ε σ α).ReturnsIn state') : state = state' := by
  rcases h with ⟨value', heq⟩ | ⟨code, heq⟩
  · exact (ok.inj heq).2
  · cases heq

theorem ReturnsIn.error_eq {code : ε} {state state' : σ}
    (h : (error code state : Outcome ε σ α).ReturnsIn state') : state = state' := by
  rcases h with ⟨value, heq⟩ | ⟨code', heq⟩
  · cases heq
  · exact (error.inj heq).2

theorem ReturnsIn.unique {outcome : Outcome ε σ α} {state state' : σ}
    (h : outcome.ReturnsIn state) (h' : outcome.ReturnsIn state') : state = state' := by
  rcases h with ⟨value, rfl⟩ | ⟨code, rfl⟩
  · exact h'.ok_eq
  · exact h'.error_eq

theorem not_returnsIn_running (state state' : σ) :
    ¬ (running state : Outcome ε σ α).ReturnsIn state' := by
  rintro (⟨value, heq⟩ | ⟨code, heq⟩)
  · cases heq
  · cases heq

theorem not_returnsIn_undefined (state : σ) :
    ¬ (undefined : Outcome ε σ α).ReturnsIn state := by
  rintro (⟨value, heq⟩ | ⟨code, heq⟩)
  · cases heq
  · cases heq

/-- The outcome satisfies `Q` if it is a normal return, and it is no error return and
has a meaning. -/
def Succeeds (outcome : Outcome ε σ α) (Q : α → σ → Prop) : Prop :=
  match outcome with
  | ok value state => Q value state
  | error _ _ => False
  | running _ => True
  | undefined => False

section Succeeds

variable {Q Q' : α → σ → Prop}

theorem Succeeds.mono {outcome : Outcome ε σ α} (h : outcome.Succeeds Q)
    (hQ : ∀ value state, Q value state → Q' value state) : outcome.Succeeds Q' := by
  cases outcome with
  | ok value state => exact hQ value state h
  | error code state => exact h
  | running state => trivial
  | undefined => exact h

/-- What a sequence of calls needs to succeed. -/
theorem succeeds_andThen {outcome : Outcome ε σ α} {next : α → Call ε σ β} {P : β → σ → Prop} :
    (outcome.andThen next).Succeeds P ↔
      outcome.Succeeds fun value state => (next value state).Succeeds P := by
  cases outcome <;> exact Iff.rfl

/-- The rule for a sequence of calls. -/
theorem Succeeds.andThen {outcome : Outcome ε σ α} {next : α → Call ε σ β} {P : β → σ → Prop}
    (h : outcome.Succeeds Q)
    (hnext : ∀ value state, Q value state → (next value state).Succeeds P) :
    (outcome.andThen next).Succeeds P :=
  succeeds_andThen.mpr (h.mono hnext)

theorem Succeeds.meets {outcome : Outcome ε σ α} (h : outcome.Succeeds Q) :
    outcome.Meets Q (fun _ _ => True) fun _ => True := by
  cases outcome with
  | ok value state => exact h
  | error code state => trivial
  | running state => trivial
  | undefined => trivial

theorem Succeeds.and {outcome : Outcome ε σ α} {E : ε → σ → Prop} {R : σ → Prop}
    (h : outcome.Succeeds Q) (h' : outcome.Meets Q' E R) :
    outcome.Succeeds fun value state => Q value state ∧ Q' value state := by
  cases outcome with
  | ok value state => exact ⟨h, h'⟩
  | error code state => exact h
  | running state => trivial
  | undefined => exact h

theorem succeeds_mapState {outcome : Outcome ε σ α} {put : σ → τ} {P : α → τ → Prop} :
    (outcome.mapState put).Succeeds P ↔
      outcome.Succeeds fun value state => P value (put state) := by
  cases outcome <;> exact Iff.rfl

end Succeeds

section Meets

variable {Q Q' : α → σ → Prop} {E E' : ε → σ → Prop} {R R' : σ → Prop}

@[simp] theorem meets_ok {value : α} {state : σ} :
    (ok value state : Outcome ε σ α).Meets Q E R ↔ Q value state := Iff.rfl

@[simp] theorem meets_error {code : ε} {state : σ} :
    (error code state : Outcome ε σ α).Meets Q E R ↔ E code state := Iff.rfl

@[simp] theorem meets_running {state : σ} :
    (running state : Outcome ε σ α).Meets Q E R ↔ R state := Iff.rfl

@[simp] theorem meets_undefined : (undefined : Outcome ε σ α).Meets Q E R := trivial

theorem Meets.mono {outcome : Outcome ε σ α} (h : outcome.Meets Q E R)
    (hQ : ∀ value state, Q value state → Q' value state)
    (hE : ∀ code state, E code state → E' code state)
    (hR : ∀ state, R state → R' state) : outcome.Meets Q' E' R' := by
  cases outcome with
  | ok value state => exact hQ value state h
  | error code state => exact hE code state h
  | running state => exact hR state h
  | undefined => trivial

theorem Meets.and {outcome : Outcome ε σ α} (h : outcome.Meets Q E R)
    (h' : outcome.Meets Q' E' R') :
    outcome.Meets (fun value state => Q value state ∧ Q' value state)
      (fun code state => E code state ∧ E' code state) fun state => R state ∧ R' state := by
  cases outcome with
  | ok value state => exact ⟨h, h'⟩
  | error code state => exact ⟨h, h'⟩
  | running state => exact ⟨h, h'⟩
  | undefined => trivial

/-- The rule for a sequence of calls. -/
theorem Meets.andThen {outcome : Outcome ε σ α} {next : α → Call ε σ β} {P : β → σ → Prop}
    (h : outcome.Meets Q E R) (hE : ∀ code state, E code state → E' code state)
    (hR : ∀ state, R state → R' state)
    (hnext : ∀ value state, Q value state → (next value state).Meets P E' R') :
    (outcome.andThen next).Meets P E' R' := by
  cases outcome with
  | ok value state => exact hnext value state h
  | error code state => exact hE code state h
  | running state => exact hR state h
  | undefined => trivial

theorem Meets.mapState {outcome : Outcome ε σ α} {put : σ → τ} {P : α → τ → Prop}
    {F : ε → τ → Prop} {S : τ → Prop}
    (h : outcome.Meets (fun value state => P value (put state))
      (fun code state => F code (put state)) (fun state => S (put state))) :
    (outcome.mapState put).Meets P F S := by
  cases outcome <;> exact h

end Meets

end Outcome

namespace Call

variable {ε σ τ α β : Type*}

instance {ε σ : Type*} : Monad (Call ε σ) where
  pure value := fun state => .ok value state
  bind call next := fun state => (call state).andThen next

@[simp] theorem pure_apply {ε σ : Type*} {α : Type u} (value : α) (state : σ) :
    (pure value : Call ε σ α) state = .ok value state := rfl

@[simp] theorem bind_apply {ε σ : Type*} {α β : Type u} (call : Call ε σ α)
    (next : α → Call ε σ β) (state : σ) :
    (call >>= next) state = (call state).andThen next := rfl

@[simp] theorem ite_apply (p : Prop) [Decidable p] (yes no : Call ε σ α) (state : σ) :
    (if p then yes else no : Call ε σ α) state = if p then yes state else no state := by
  split <;> rfl

/-- Read the state. -/
def state : Call ε σ σ := fun s => .ok s s

/-- Change the state. -/
def modify (change : σ → σ) : Call ε σ Unit := fun s => .ok () (change s)

/-- Return the error `code`. -/
def fail (code : ε) : Call ε σ α := fun s => .error code s

/-- Do something that C gives no meaning to. -/
def undef : Call ε σ α := fun _ => .undefined

/-- Stop looking at the call: its loop has used up the rounds it was given. -/
def outOfRounds : Call ε σ α := fun s => .running s

/-- The value of a memory access; `none` is an access out of bounds. -/
def access : Option α → Call ε σ α
  | some value => fun s => .ok value s
  | none => undef

/-- Run a call on a part of the state. -/
def on (get : σ → τ) (put : σ → τ → σ) (call : Call ε τ α) : Call ε σ α :=
  fun s => (call (get s)).mapState (put s)

/-- Make a call, and return the error `code` whatever error it returns. -/
def failAs (code : ε) (call : Call ε σ Unit) : Call ε σ Unit := fun s =>
  match call s with
  | .error _ s' => .error code s'
  | outcome => outcome

/-- Make a call and go on whether it returns an error or not. -/
def attempt (call : Call ε σ Unit) : Call ε σ Unit := fun s =>
  match call s with
  | .error _ s' => .ok () s'
  | outcome => outcome

/-- Make a call, and take what it returns for a value, an error as well. -/
def result (call : Call ε σ α) : Call ε σ (Except ε α) := fun s =>
  match call s with
  | .ok value s' => .ok (.ok value) s'
  | .error code s' => .ok (.error code) s'
  | .running s' => .running s'
  | .undefined => .undefined

/-- Return what a call has returned. -/
def returning : Except ε α → Call ε σ α
  | .ok value => fun s => .ok value s
  | .error code => fail code

@[simp] theorem state_apply (s : σ) : (state : Call ε σ σ) s = .ok s s := rfl

@[simp] theorem modify_apply (change : σ → σ) (s : σ) :
    (modify change : Call ε σ Unit) s = .ok () (change s) := rfl

@[simp] theorem fail_apply (code : ε) (s : σ) : (fail code : Call ε σ α) s = .error code s := rfl

@[simp] theorem undef_apply (s : σ) : (undef : Call ε σ α) s = .undefined := rfl

@[simp] theorem outOfRounds_apply (s : σ) : (outOfRounds : Call ε σ α) s = .running s := rfl

@[simp] theorem access_some (value : α) (s : σ) :
    (access (some value) : Call ε σ α) s = .ok value s := rfl

@[simp] theorem access_none (s : σ) : (access none : Call ε σ α) s = .undefined := rfl

@[simp] theorem on_apply (get : σ → τ) (put : σ → τ → σ) (call : Call ε τ α) (s : σ) :
    on get put call s = (call (get s)).mapState (put s) := rfl

theorem attempt_of_ok {call : Call ε σ Unit} {s s' : σ} (h : call s = .ok () s') :
    attempt call s = .ok () s' := by
  unfold attempt
  rw [h]

theorem attempt_of_error {call : Call ε σ Unit} {code : ε} {s s' : σ}
    (h : call s = .error code s') : attempt call s = .ok () s' := by
  unfold attempt
  rw [h]

/-- A call that was attempted has returned, with or without an error. -/
theorem attempt_meets {call : Call ε σ Unit} {s s' : σ} {Q : Unit → σ → Prop} {E : ε → σ → Prop}
    {R : σ → Prop} (h : (call s).Meets Q E R) (hrun : attempt call s = .ok () s') :
    Q () s' ∨ ∃ code, E code s' := by
  unfold attempt at hrun
  cases hcall : call s with
  | ok value s₁ =>
      rw [hcall] at h hrun
      obtain ⟨-, rfl⟩ := Outcome.ok.inj hrun
      exact .inl h
  | error code s₁ =>
      rw [hcall] at h hrun
      obtain ⟨-, rfl⟩ := Outcome.ok.inj hrun
      exact .inr ⟨code, h⟩
  | running s₁ => rw [hcall] at hrun; cases hrun
  | undefined => rw [hcall] at hrun; cases hrun

theorem attempt_of_undefined {call : Call ε σ Unit} {s : σ} (h : call s = .undefined) :
    attempt call s = .undefined := by
  unfold attempt
  rw [h]

/-! ## What a call leaves alone -/

/-- However the call ends, if that has a meaning, it has left this part of the state
alone. -/
def Frames (get : σ → τ) (call : Call ε σ α) : Prop :=
  ∀ s, (call s).Meets (fun _ s' => get s' = get s) (fun _ s' => get s' = get s)
    fun s' => get s' = get s

namespace Frames

variable {get : σ → τ}

/-- So has every part of this part. -/
theorem map {υ : Type*} {call : Call ε σ α} (h : Frames get call) (part : τ → υ) :
    Frames (fun s => part (get s)) call := fun s =>
  (h s).mono (fun _ _ => congrArg part) (fun _ _ => congrArg part) fun _ => congrArg part

theorem pure {ε σ τ : Type*} {α : Type u} {get : σ → τ} (value : α) :
    Frames get (Pure.pure value : Call ε σ α) := fun _ => rfl

theorem state : Frames get (Call.state : Call ε σ σ) := fun _ => rfl

theorem fail (code : ε) : Frames get (Call.fail code : Call ε σ α) := fun _ => rfl

theorem undef : Frames get (Call.undef : Call ε σ α) := fun _ => trivial

theorem modify {change : σ → σ} (h : ∀ s, get (change s) = get s) :
    Frames get (Call.modify change : Call ε σ Unit) := h

theorem access (value : Option α) : Frames get (Call.access value : Call ε σ α) := by
  cases value with
  | none => exact undef
  | some value => exact fun _ => rfl

theorem on {υ : Type*} {part : σ → υ} {put : σ → υ → σ} (h : ∀ s t, get (put s t) = get s)
    (call : Call ε υ α) : Frames get (Call.on part put call) := by
  intro s
  rw [Call.on_apply]
  cases call (part s) with
  | ok value t => exact h s t
  | error code t => exact h s t
  | running t => exact h s t
  | undefined => trivial

theorem bind {ε σ τ : Type*} {α β : Type u} {get : σ → τ} {call : Call ε σ α}
    {next : α → Call ε σ β} (hcall : Frames get call) (hnext : ∀ value, Frames get (next value)) :
    Frames get (call >>= next) := by
  intro s
  rw [Call.bind_apply]
  exact (hcall s).andThen (fun _ _ => id) (fun _ => id) fun value s' h =>
    (hnext value s').mono (fun _ _ h' => h'.trans h) (fun _ _ h' => h'.trans h)
      fun _ h' => h'.trans h

theorem failAs {call : Call ε σ Unit} (hcall : Frames get call) (code : ε) :
    Frames get (Call.failAs code call) := by
  intro s
  have h := hcall s
  unfold Call.failAs
  cases hrun : call s with
  | ok value s' => rw [hrun] at h; exact h
  | error code' s' => rw [hrun] at h; exact h
  | running s' => rw [hrun] at h; exact h
  | undefined => trivial

theorem ite {p : Prop} [Decidable p] {yes no : Call ε σ α} (hyes : Frames get yes)
    (hno : Frames get no) : Frames get (if p then yes else no) := by
  split
  · exact hyes
  · exact hno

end Frames

/-! ## Where a call leads -/

/-- However the call ends, if that has a meaning, the state it leaves is related to the
one it found; the code of an error is one of `codes`. -/
def Moves (r : σ → σ → Prop) (codes : ε → Prop) (call : Call ε σ α) : Prop :=
  ∀ s, (call s).Meets (fun _ s' => r s s') (fun code s' => codes code ∧ r s s') fun s' => r s s'

namespace Moves

variable {r : σ → σ → Prop} {codes : ε → Prop}

/-- A call that leaves a part alone does not move in a relation that looks only there. -/
theorem of_frames {get : σ → τ} {call : Call ε σ α} (h : Frames get call)
    (hr : ∀ s s', get s' = get s → r s s') : Moves r (fun _ => True) call := fun s =>
  (h s).mono (fun _ s' => hr s s') (fun _ s' heq => ⟨trivial, hr s s' heq⟩) fun s' => hr s s'

theorem modify {change : σ → σ} (h : ∀ s, r s (change s)) :
    Moves r codes (Call.modify change : Call ε σ Unit) := h

theorem undef : Moves r codes (Call.undef : Call ε σ α) := fun _ => trivial

theorem ite {p : Prop} [Decidable p] {yes no : Call ε σ α} (hyes : Moves r codes yes)
    (hno : Moves r codes no) : Moves r codes (if p then yes else no) := by
  split
  · exact hyes
  · exact hno

section Refl

variable [Std.Refl r]

theorem pure {ε σ : Type*} {α : Type u} {r : σ → σ → Prop} {codes : ε → Prop} [Std.Refl r]
    (value : α) : Moves r codes (Pure.pure value : Call ε σ α) := fun s => refl_of r s

theorem state : Moves r codes (Call.state : Call ε σ σ) := fun s => refl_of r s

theorem outOfRounds : Moves r codes (Call.outOfRounds : Call ε σ α) := fun s => refl_of r s

theorem fail {code : ε} (h : codes code) : Moves r codes (Call.fail code : Call ε σ α) :=
  fun s => ⟨h, refl_of r s⟩

theorem access (value : Option α) : Moves r codes (Call.access value : Call ε σ α) := by
  cases value with
  | none => exact undef
  | some value => exact fun s => refl_of r s

end Refl

theorem bind {ε σ : Type*} {α β : Type u} {r : σ → σ → Prop} {codes : ε → Prop} [IsTrans σ r]
    {call : Call ε σ α} {next : α → Call ε σ β} (hcall : Moves r codes call)
    (hnext : ∀ value, Moves r codes (next value)) : Moves r codes (call >>= next) := by
  intro s
  rw [Call.bind_apply]
  refine (hcall s).andThen (fun _ _ => id) (fun _ => id) fun value s' h => ?_
  exact (hnext value s').mono (fun _ _ => trans_of r h) (fun _ _ => And.imp_right (trans_of r h))
    fun _ => trans_of r h

end Moves

end Call
