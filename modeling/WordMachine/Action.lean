/-
Operations that may fail.

An `Action σ α` runs on a state of type `σ` and ends either with a result or with a fault. In both
cases the state that it left is part of the outcome: a failing operation is not undone, so "a
failure changes nothing" is a property that an operation has or lacks.

* `Action.bind_of_ok` and `Action.bind_of_error` compute a sequence of two actions,
  `Action.bind_eq_ok` and `Action.bind_eq_error` take one apart.

`Action.focus` runs an action on one part of a larger state. The equation for a given part,
for instance `Store.onMemory_apply`, says that the part is replaced by what the action left, on
success and on failure alike.
-/
import WordMachine.Fault

namespace WordMachine

/-- An operation on a state that ends with a result or a fault, and with the state it left. -/
abbrev Action (σ α : Type) := EStateM Fault σ α

/-- How an action ended: a result or a fault, and the state that it left. -/
abbrev Outcome (σ α : Type) := EStateM.Result Fault σ α

namespace Outcome

variable {σ τ α : Type}

/-- The same outcome with the state that was left put into another one. -/
def within (f : τ → σ) : Outcome τ α → Outcome σ α
  | .ok a t => .ok a (f t)
  | .error e t => .error e (f t)

@[simp]
theorem within_ok (f : τ → σ) (a : α) (t : τ) : within f (.ok a t) = .ok a (f t) := rfl

@[simp]
theorem within_error (f : τ → σ) (e : Fault) (t : τ) :
    within f (.error e t : Outcome τ α) = .error e (f t) := rfl

/-- The state that an action left. -/
def state : Outcome σ α → σ
  | .ok _ s => s
  | .error _ s => s

/-- The result or the fault of an action. -/
def toExcept : Outcome σ α → Except Fault α
  | .ok a _ => .ok a
  | .error e _ => .error e

end Outcome

namespace Action

variable {σ τ α : Type}

/-- Ends with a fault and leaves the state as it is. -/
def fail (f : Fault) : Action σ α := fun s => .error f s

/-- The result of a computation that does not look at the state. -/
def ofExcept (x : Except Fault α) : Action σ α := fun s =>
  match x with
  | .ok a => .ok a s
  | .error f => .error f s

/-! ### Sequences -/

variable {β : Type}

@[simp]
theorem pure_apply (a : α) (s : σ) : (pure a : Action σ α) s = .ok a s := rfl

theorem bind_of_ok {x : Action σ α} {f : α → Action σ β} {s t : σ} {a : α}
    (h : x s = .ok a t) : (x >>= f) s = f a t := by
  simp [bind, EStateM.bind, h]

theorem bind_of_error {x : Action σ α} {f : α → Action σ β} {s t : σ} {e : Fault}
    (h : x s = .error e t) : (x >>= f) s = .error e t := by
  simp [bind, EStateM.bind, h]

/-- A sequence succeeds if both its actions do, one after the other. -/
theorem bind_eq_ok {x : Action σ α} {f : α → Action σ β} {s t : σ} {b : β} :
    (x >>= f) s = .ok b t ↔ ∃ a u, x s = .ok a u ∧ f a u = .ok b t := by
  cases h : x s with
  | ok a u => simp [bind_of_ok h, and_assoc]
  | error e u => simp [bind_of_error h]

/-- A sequence fails in its first action, or after it in its second. -/
theorem bind_eq_error {x : Action σ α} {f : α → Action σ β} {s t : σ} {e : Fault} :
    (x >>= f) s = .error e t ↔
      x s = .error e t ∨ ∃ a u, x s = .ok a u ∧ f a u = .error e t := by
  cases h : x s with
  | ok a u => simp [bind_of_ok h, and_assoc]
  | error e u => simp [bind_of_error h]

@[simp]
theorem fail_apply (f : Fault) (s : σ) : (fail f : Action σ α) s = .error f s := rfl

@[simp]
theorem ofExcept_ok (a : α) (s : σ) : (ofExcept (.ok a) : Action σ α) s = .ok a s := rfl

@[simp]
theorem ofExcept_error (f : Fault) (s : σ) :
    (ofExcept (.error f) : Action σ α) s = .error f s := rfl

/-! ### Parts of a state -/

/-- Runs an action on a part of the state. The part is taken out of the state while the action
runs, so that it is updated in place when nothing else refers to it. -/
@[inline]
def focus [Inhabited τ] (part : σ → τ) (put : τ → σ → σ) (x : Action τ α) : Action σ α := fun s =>
  let t := part s
  let s := put default s
  Outcome.within (put · s) (x t)

end Action

end WordMachine
