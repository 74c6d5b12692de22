import GuardedHeap.World

/-!
# Preserved invariants

A computation preserves an invariant of the state if the invariant holds wherever it
ends, with a value or with a failure. Together with the invariant go the causes for
which the computation may refuse and what is known of its value. The rules below follow
the ways in which computations are put together.
-/

namespace GuardedHeap
namespace Fallible

variable {ε σ α β : Type}

/-- A computation that ends in states of an invariant, refuses for allowed causes only and
yields values that are described. -/
structure Preserves
    (invariant : σ → Prop)
    (allowed : ε → Prop)
    (yields : α → Prop)
    (computation : Fallible ε σ α) : Prop where
  ok : ∀ before value after, invariant before → computation before = .ok value after →
    invariant after ∧ yields value
  error : ∀ before failure after, invariant before →
    computation before = .error failure after →
    invariant after ∧ ∀ error, failure = .refused error → allowed error

variable {invariant : σ → Prop}
variable {allowed : ε → Prop}
variable {yields described : α → Prop}

theorem Preserves.weaken
    {computation : Fallible ε σ α}
    (preserves : Preserves invariant allowed yields computation)
    (weaker : ∀ value, yields value → described value) :
    Preserves invariant allowed described computation where
  ok before value after holds ended :=
    (preserves.ok before value after holds ended).imp_right (weaker value)
  error := preserves.error

/-- What follows may rely on what is known of the value before it. -/
theorem Preserves.bind
    {first : Fallible ε σ α}
    {next : α → Fallible ε σ β}
    {described : β → Prop}
    (preserves : Preserves invariant allowed yields first)
    (following : ∀ value, yields value → Preserves invariant allowed described (next value)) :
    Preserves invariant allowed described (first >>= next) where
  ok before value after holds ended := by
    cases result : first before with
    | ok middleValue middle =>
        obtain ⟨middleHolds, known⟩ := preserves.ok before middleValue middle holds result
        rw [bind_of_ok result] at ended
        exact (following middleValue known).ok middle value after middleHolds ended
    | error failure middle =>
        rw [bind_of_error result] at ended
        cases ended
  error before failure after holds ended := by
    cases result : first before with
    | ok middleValue middle =>
        obtain ⟨middleHolds, known⟩ := preserves.ok before middleValue middle holds result
        rw [bind_of_ok result] at ended
        exact (following middleValue known).error middle failure after middleHolds ended
    | error middleFailure middle =>
        rw [bind_of_error result] at ended
        cases ended
        exact preserves.error before failure after holds result

theorem preserves_pure
    {value : α}
    (known : yields value) :
    Preserves invariant allowed yields (pure value : Fallible ε σ α) where
  ok _ _ _ holds ended := by
    cases ended
    exact ⟨holds, known⟩
  error _ _ _ _ ended := by cases ended

/-- Forgetting or changing a value is no step. -/
theorem Preserves.map
    {computation : Fallible ε σ α}
    (preserves : Preserves invariant allowed yields computation)
    (change : α → β) :
    Preserves invariant allowed (fun _ => True) (do pure (change (← computation))) :=
  preserves.bind fun _ _ => preserves_pure trivial

theorem preserves_refuse
    {error : ε}
    (isAllowed : allowed error) :
    Preserves invariant allowed yields (refuse error : Fallible ε σ α) where
  ok _ _ _ _ ended := by cases ended
  error _ _ _ holds ended := by
    cases ended
    refine ⟨holds, ?_⟩
    rintro _ ⟨⟩
    exact isAllowed

/-- A check tells what it has checked. -/
theorem preserves_ofCheck
    {check : Except ε α}
    (isAllowed : ∀ error, check = .error error → allowed error) :
    Preserves invariant allowed (fun value => check = .ok value)
      (ofCheck check : Fallible ε σ α) := by
  cases check with
  | ok value => exact preserves_pure rfl
  | error error => exact preserves_refuse (isAllowed error rfl)

theorem preserves_exactly (result? : Option α) :
    Preserves invariant allowed (fun value => result? = some value)
      (exactly result? : Fallible ε σ α) := by
  cases result? with
  | some value => exact preserves_pure rfl
  | none =>
      refine ⟨fun _ _ _ _ ended => (by cases ended), fun _ _ _ holds ended => ?_⟩
      cases ended
      exact ⟨holds, nofun⟩

/-- A look at the state preserves whatever holds of it. -/
theorem preserves_query
    {look : σ → Except ε α}
    (isAllowed : ∀ state error, look state = .error error → allowed error) :
    Preserves invariant allowed (fun _ => True) (query look) where
  ok before value after holds ended := by
    unfold query at ended
    split at ended
    · cases ended
    · cases ended
      exact ⟨holds, trivial⟩
  error before failure after holds ended := by
    unfold query at ended
    split at ended
    · rename_i error found
      cases ended
      refine ⟨holds, ?_⟩
      rintro _ ⟨⟩
      exact isAllowed before error found
    · cases ended

theorem preserves_get : Preserves invariant allowed invariant (get : Fallible ε σ σ) where
  ok _ _ _ holds ended := by
    cases ended
    exact ⟨holds, holds⟩
  error _ _ _ _ ended := by cases ended

theorem preserves_modify
    {change : σ → σ}
    (keeps : ∀ state, invariant state → invariant (change state)) :
    Preserves invariant allowed (fun _ => True) (modify change : Fallible ε σ Unit) where
  ok before _ _ holds ended := by
    cases ended
    exact ⟨keeps before holds, trivial⟩
  error _ _ _ _ ended := by cases ended

/-- A refusal that is taken note of was allowed. -/
theorem Preserves.attempt
    {computation : Fallible ε σ α}
    (preserves : Preserves invariant allowed yields computation) :
    Preserves invariant allowed (fun result => ∀ error, result = .error error → allowed error)
      (attempt computation) where
  ok before result after holds ended := by
    cases found : computation before with
    | ok value middle =>
        rw [attempt_of_ok found] at ended
        cases ended
        exact ⟨(preserves.ok _ _ _ holds found).1, nofun⟩
    | error failure middle =>
        obtain ⟨middleHolds, isAllowed⟩ := preserves.error _ _ _ holds found
        cases failure with
        | refused error =>
            rw [attempt_of_refused found] at ended
            cases ended
            refine ⟨middleHolds, ?_⟩
            rintro _ ⟨⟩
            exact isAllowed error rfl
        | overflow =>
            rw [attempt_of_overflow found] at ended
            cases ended
  error before failure after holds ended := by
    cases found : computation before with
    | ok value middle =>
        rw [attempt_of_ok found] at ended
        cases ended
    | error middleFailure middle =>
        cases middleFailure with
        | refused error =>
            rw [attempt_of_refused found] at ended
            cases ended
        | overflow =>
            rw [attempt_of_overflow found] at ended
            cases ended
            exact ⟨(preserves.error _ _ _ holds found).1, nofun⟩

end Fallible
end GuardedHeap
