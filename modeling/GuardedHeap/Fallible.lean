/-!
# Computations that can fail

A computation starts in a state and ends in one, with a value or with a failure.
A failure keeps the state as it was left, so that a failed call changed nothing
is a statement to be proved and not an assumption.

Refusals can be caught, and what was done before can be undone; an overflow
ends everything.
-/

namespace GuardedHeap

/-- How a computation ends without a value: it is refused for a cause, or an
exact word operation overflows. -/
inductive Failure (ε : Type)
  | refused (error : ε)
  | overflow
  deriving DecidableEq

namespace Failure

/-- Give a refusal another cause. -/
def map {ε δ : Type} (change : ε → δ) : Failure ε → Failure δ
  | .refused error => .refused (change error)
  | .overflow => .overflow

@[simp] theorem map_refused {ε δ : Type} (change : ε → δ) (error : ε) :
    (refused error).map change = .refused (change error) := rfl

@[simp] theorem map_overflow {ε δ : Type} (change : ε → δ) :
    (overflow : Failure ε).map change = .overflow := rfl

end Failure

/-- A computation on a state that can fail. -/
abbrev Fallible (ε σ : Type) := EStateM (Failure ε) σ

namespace Fallible

variable {ε σ α : Type}

/-- Refuse a call for a cause. -/
def refuse (error : ε) : Fallible ε σ α :=
  throw (.refused error)

/-- The value of an exact word operation, without which nothing goes on. -/
def exactly : Option α → Fallible ε σ α
  | none => throw .overflow
  | some value => pure value

/-- The value of a check, or its refusal. -/
def ofCheck : Except ε α → Fallible ε σ α
  | .error error => refuse error
  | .ok value => pure value

/-- The value of a check of the state, or its refusal. -/
def query (look : σ → Except ε α) : Fallible ε σ α := fun state =>
  match look state with
  | .error error => .error (.refused error) state
  | .ok value => .ok value state

/-- The value of a look at the state, or its failure. -/
def inspect (look : σ → Except (Failure ε) α) : Fallible ε σ α := fun state =>
  match look state with
  | .error failure => .error failure state
  | .ok value => .ok value state

/-- Take note of a refusal and continue. An overflow is no refusal. -/
def attempt (computation : Fallible ε σ α) : Fallible ε σ (Except ε α) := fun state =>
  match computation state with
  | .ok value state => .ok (.ok value) state
  | .error (.refused error) state => .ok (.error error) state
  | .error .overflow state => .error .overflow state

/-- A computation goes on with the value of its first part. -/
theorem bind_of_ok
    {β : Type}
    {first : Fallible ε σ α}
    {before after : σ}
    {value : α}
    (succeeds : first before = .ok value after)
    (next : α → Fallible ε σ β) :
    (first >>= next) before = next value after := by
  show EStateM.bind first next before = _
  rw [EStateM.bind, succeeds]

/-- A computation ends with the failure of its first part. -/
theorem bind_of_error
    {β : Type}
    {first : Fallible ε σ α}
    {before after : σ}
    {failure : Failure ε}
    (fails : first before = .error failure after)
    (next : α → Fallible ε σ β) :
    (first >>= next) before = .error failure after := by
  show EStateM.bind first next before = _
  rw [EStateM.bind, fails]

/-- A computation that fails does so in its first part or behind it. -/
theorem error_of_bind
    {β : Type}
    {first : Fallible ε σ α}
    {next : α → Fallible ε σ β}
    {before after : σ}
    {failure : Failure ε}
    (fails : (first >>= next) before = .error failure after) :
    first before = .error failure after ∨
      ∃ value middle, first before = .ok value middle ∧
        next value middle = .error failure after := by
  cases answer : first before with
  | ok value middle =>
      rw [bind_of_ok answer] at fails
      exact Or.inr ⟨value, middle, rfl, fails⟩
  | error other middle =>
      rw [bind_of_error answer] at fails
      cases fails
      exact Or.inl rfl

/-- A computation that goes on without failing fails where its first part does. -/
theorem error_of_bind_pure
    {β : Type}
    {first : Fallible ε σ α}
    {before after : σ}
    {failure : Failure ε}
    {change : α → β}
    (fails : (do pure (change (← first))) before = .error failure after) :
    first before = .error failure after := by
  obtain failed | ⟨value, middle, _, unfailing⟩ := error_of_bind fails
  · exact failed
  · cases unfailing

/-- A computation that succeeds goes through the value of its first part. -/
theorem ok_of_bind
    {β : Type}
    {first : Fallible ε σ α}
    {next : α → Fallible ε σ β}
    {before after : σ}
    {result : β}
    (succeeds : (first >>= next) before = .ok result after) :
    ∃ value middle, first before = .ok value middle ∧ next value middle = .ok result after := by
  cases answer : first before with
  | ok value middle =>
      rw [bind_of_ok answer] at succeeds
      exact ⟨value, middle, rfl, succeeds⟩
  | error failure middle =>
      rw [bind_of_error answer] at succeeds
      cases succeeds

/-- A computation that only changes its value succeeds where it did. -/
theorem ok_of_bind_pure
    {β : Type}
    {first : Fallible ε σ α}
    {before after : σ}
    {result : β}
    {change : α → β}
    (succeeds : (do pure (change (← first))) before = .ok result after) :
    ∃ value, first before = .ok value after ∧ change value = result := by
  obtain ⟨value, middle, answer, changed⟩ := ok_of_bind succeeds
  cases changed
  exact ⟨value, answer, rfl⟩

/-- A success is noted as one. -/
theorem attempt_of_ok
    {computation : Fallible ε σ α}
    {before after : σ}
    {value : α}
    (succeeds : computation before = .ok value after) :
    attempt computation before = .ok (.ok value) after := by
  rw [attempt, succeeds]

/-- A refusal is noted and what was done before it stays done. -/
theorem attempt_of_refused
    {computation : Fallible ε σ α}
    {before after : σ}
    {error : ε}
    (refused : computation before = .error (.refused error) after) :
    attempt computation before = .ok (.error error) after := by
  rw [attempt, refused]

theorem attempt_of_overflow
    {computation : Fallible ε σ α}
    {before after : σ}
    (overflows : computation before = .error .overflow after) :
    attempt computation before = .error .overflow after := by
  rw [attempt, overflows]

@[simp] theorem refuse_apply (error : ε) (state : σ) :
    (refuse error : Fallible ε σ α) state = .error (.refused error) state := rfl

@[simp] theorem exactly_none (state : σ) :
    (exactly none : Fallible ε σ α) state = .error .overflow state := rfl

@[simp] theorem exactly_some (value : α) (state : σ) :
    (exactly (some value) : Fallible ε σ α) state = .ok value state := rfl

@[simp] theorem ofCheck_error (error : ε) (state : σ) :
    (ofCheck (.error error) : Fallible ε σ α) state = .error (.refused error) state := rfl

@[simp] theorem ofCheck_ok (value : α) (state : σ) :
    (ofCheck (.ok value) : Fallible ε σ α) state = .ok value state := rfl

end Fallible

end GuardedHeap
