import GuardedHeap.World

/-!
# Followed computations

One computation follows another one if it succeeds wherever the other one does, with a
corresponding value, and ends in a corresponding state. Nothing is said where the other one
fails. The rules below follow the ways in which computations are put together.
-/

namespace GuardedHeap

/-- A check that passes, with the same value, wherever another one does. -/
def Weaker {ε α : Type} (check weaker : Except ε α) : Prop :=
  ∀ value, check = .ok value → weaker = .ok value

namespace Weaker

variable {ε α β : Type}

theorem refl (check : Except ε α) : Weaker check check :=
  fun _ passes => passes

theorem map
    {check weaker : Except ε α}
    (weak : Weaker check weaker)
    (change : α → β) :
    Weaker (check.map change) (weaker.map change) := by
  intro value passes
  cases found : check with
  | error error =>
      rw [found] at passes
      cases passes
  | ok inner =>
      rw [found] at passes
      rw [weak inner found]
      exact passes

/-- Weaker checks one after the other are weaker. -/
theorem bind
    {check weaker : Except ε α}
    {next next' : α → Except ε β}
    (weak : Weaker check weaker)
    (goesOn : ∀ value, Weaker (next value) (next' value)) :
    Weaker (check >>= next) (weaker >>= next') := by
  intro value passes
  cases found : check with
  | error error =>
      rw [found] at passes
      cases passes
  | ok inner =>
      rw [found] at passes
      rw [weak inner found]
      exact goesOn inner value passes

/-- To check less is weaker. -/
theorem without
    (check : Except ε β)
    (rest : Except ε α) :
    Weaker (check >>= fun _ => rest) rest := by
  intro value passes
  cases check with
  | error error => cases passes
  | ok _ => exact passes

theorem trans
    {check weaker weakest : Except ε α}
    (first : Weaker check weaker)
    (second : Weaker weaker weakest) :
    Weaker check weakest :=
  fun value passes => second value (first value passes)

end Weaker

namespace Fallible

variable {ε σ τ α β α' β' : Type}

/-- A computation that succeeds wherever another one does, with related values, and keeps the
states of the two related. -/
def Follows
    (related : σ → τ → Prop)
    (same : α → β → Prop)
    (leader : Fallible ε σ α)
    (follower : Fallible ε τ β) : Prop :=
  ∀ before before', related before before' →
    ∀ value after, leader before = .ok value after →
      ∃ value' after', follower before' = .ok value' after' ∧ same value value' ∧
        related after after'

variable {related : σ → τ → Prop}
variable {same : α → β → Prop}
variable {alike : α' → β' → Prop}

theorem follows_self (computation : Fallible ε σ α) : Follows Eq Eq computation computation := by
  rintro before _ rfl value after succeeds
  exact ⟨value, after, succeeds, rfl, rfl⟩

theorem follows_pure
    {value : α}
    {value' : β}
    (known : same value value') :
    Follows related same (pure value : Fallible ε σ α) (pure value') := by
  intro before before' alike _ _ succeeds
  cases succeeds
  exact ⟨value', before', rfl, known, alike⟩

theorem Follows.bind
    {leader : Fallible ε σ α}
    {follower : Fallible ε τ β}
    {next : α → Fallible ε σ α'}
    {next' : β → Fallible ε τ β'}
    (follows : Follows related same leader follower)
    (goesOn : ∀ value value', same value value' →
      Follows related alike (next value) (next' value')) :
    Follows related alike (leader >>= next) (follower >>= next') := by
  intro before before' beside result after succeeds
  cases first : leader before with
  | error failure middle =>
      rw [bind_of_error first] at succeeds
      cases succeeds
  | ok value middle =>
      rw [bind_of_ok first] at succeeds
      obtain ⟨value', middle', first', known, besideMiddle⟩ :=
        follows before before' beside value middle first
      rw [bind_of_ok first']
      exact goesOn value value' known middle middle' besideMiddle result after succeeds

/-- Changing the value of both computations in one way. -/
theorem Follows.map
    {leader : Fallible ε σ α}
    {follower : Fallible ε τ α}
    (follows : Follows related Eq leader follower)
    (change : α → β) :
    Follows related Eq (do pure (change (← leader))) (do pure (change (← follower))) :=
  follows.bind fun _ _ equal => follows_pure (congrArg change equal)

/-- What refuses is followed by anything. -/
theorem follows_refuse
    (error : ε)
    (follower : Fallible ε τ β) :
    Follows related same (refuse error : Fallible ε σ α) follower := by
  intro _ _ _ _ _ succeeds
  cases succeeds

theorem follows_exactly (result? : Option α) :
    Follows related Eq (exactly result? : Fallible ε σ α) (exactly result?) := by
  cases result? with
  | some value => exact follows_pure rfl
  | none =>
      intro _ _ _ _ _ succeeds
      cases succeeds

theorem follows_ofCheck
    {check : Except ε α}
    {check' : Except ε β}
    (passes : ∀ value, check = .ok value → ∃ value', check' = .ok value' ∧ same value value') :
    Follows related same (ofCheck check : Fallible ε σ α) (ofCheck check') := by
  cases check with
  | error error => exact follows_refuse error _
  | ok value =>
      obtain ⟨value', rfl, known⟩ := passes value rfl
      exact follows_pure known

theorem follows_weaker
    {check weaker : Except ε α}
    (weak : Weaker check weaker) :
    Follows related Eq (ofCheck check : Fallible ε σ α) (ofCheck weaker) :=
  follows_ofCheck fun value passes => ⟨value, weak value passes, rfl⟩

theorem follows_query
    {look weaker : σ → Except ε α}
    (weak : ∀ state, Weaker (look state) (weaker state)) :
    Follows Eq Eq (query look) (query weaker) := by
  rintro before _ rfl value after succeeds
  cases found : look before with
  | error error => simp [query, found] at succeeds
  | ok seen =>
      obtain ⟨rfl, rfl⟩ : seen = value ∧ before = after := by simpa [query, found] using succeeds
      exact ⟨seen, before, by simp [query, weak before seen found], rfl, rfl⟩

theorem follows_get : Follows related related (get : Fallible ε σ σ) get := by
  intro before before' beside _ _ succeeds
  cases succeeds
  exact ⟨before', before', rfl, beside, beside⟩

theorem follows_modify
    {change : σ → σ}
    {change' : τ → τ}
    (keeps : ∀ state state', related state state' → related (change state) (change' state')) :
    Follows related Eq (modify change : Fallible ε σ Unit) (modify change') := by
  intro before before' beside _ _ succeeds
  cases succeeds
  exact ⟨(), change' before', rfl, rfl, keeps before before' beside⟩

/-- A refusal that is taken note of is no matter if nothing succeeds after it. -/
theorem Follows.attempt_bind
    {leader : Fallible ε σ α}
    {follower : Fallible ε τ β}
    {next : Except ε α → Fallible ε σ α'}
    {next' : Except ε β → Fallible ε τ β'}
    (follows : Follows related same leader follower)
    (goesOn : ∀ value value', same value value' →
      Follows related alike (next (.ok value)) (next' (.ok value')))
    (stops : ∀ error before value after, next (.error error) before ≠ .ok value after) :
    Follows related alike (attempt leader >>= next) (attempt follower >>= next') := by
  intro before before' beside result after succeeds
  cases first : leader before with
  | ok value middle =>
      rw [bind_of_ok (attempt_of_ok first)] at succeeds
      obtain ⟨value', middle', first', known, besideMiddle⟩ :=
        follows before before' beside value middle first
      rw [bind_of_ok (attempt_of_ok first')]
      exact goesOn value value' known middle middle' besideMiddle result after succeeds
  | error failure middle =>
      cases failure with
      | refused error =>
          rw [bind_of_ok (attempt_of_refused first)] at succeeds
          exact absurd succeeds (stops error middle result after)
      | overflow =>
          rw [bind_of_error (attempt_of_overflow first)] at succeeds
          cases succeeds

end Fallible
end GuardedHeap
