import GuardedHeap.World

/-!
# Computations without overflow

A computation is steady under an invariant of the state if it preserves the invariant and
ends with a value or with a refusal: none of its exact word operations overflows. What is
known of a value goes from each part of a computation to the next one, so a check that was
passed bounds the arithmetic behind it.

Where an invariant has stages, because something is counted, a computation leads from every
stage to one that is a number of steps later. Steps of the parts of a computation add up.
-/

namespace GuardedHeap
namespace Fallible

variable {ε σ α β : Type}

/-- The ways in which a computation ends without an overflow, in states of an invariant and
with values that are described. -/
inductive Settled (invariant : σ → Prop) (yields : α → Prop) :
    EStateM.Result (Failure ε) σ α → Prop
  | value
      {found : α}
      {after : σ}
      (holds : invariant after)
      (known : yields found) :
      Settled invariant yields (.ok found after)
  | refused
      {error : ε}
      {after : σ}
      (holds : invariant after) :
      Settled invariant yields (.error (.refused error) after)

variable {invariant : σ → Prop}
variable {yields described : α → Prop}
variable {computation : Fallible ε σ α}

/-- What follows starts where a computation ended, or does not start at all. -/
theorem Settled.bind
    {last : σ → Prop}
    {next : α → Fallible ε σ β}
    {described : β → Prop}
    {state : σ}
    (settled : Settled invariant yields (computation state))
    (refused : ∀ after, invariant after → last after)
    (following : ∀ value after, yields value → invariant after →
      Settled last described (next value after)) :
    Settled last described ((computation >>= next) state) := by
  generalize ended : computation state = result at settled
  cases settled with
  | value holds known =>
      rw [bind_of_ok ended]
      exact following _ _ known holds
  | refused holds =>
      rw [bind_of_error ended]
      exact .refused (refused _ holds)

/-- What is known of a value is known of the one that was taken note of. -/
theorem Settled.attempt
    {state : σ}
    (settled : Settled invariant yields (computation state)) :
    ∃ result after, attempt computation state = .ok result after ∧ invariant after ∧
      ∀ value, result = .ok value → yields value := by
  generalize ended : computation state = result at settled
  cases settled with
  | @value found after holds known =>
      refine ⟨.ok found, after, attempt_of_ok ended, holds, ?_⟩
      rintro _ ⟨⟩
      exact known
  | @refused error after holds =>
      exact ⟨.error error, after, attempt_of_refused ended, holds, nofun⟩

/-- A computation that preserves an invariant, yields values that are described and never
ends in an overflow. -/
def Steady
    (invariant : σ → Prop)
    (yields : α → Prop)
    (computation : Fallible ε σ α) : Prop :=
  ∀ state, invariant state → Settled invariant yields (computation state)

theorem Steady.weaken
    (steady : Steady invariant yields computation)
    (weaker : ∀ value, yields value → described value) :
    Steady invariant described computation := by
  intro state holds
  have settled := steady state holds
  generalize computation state = result at settled ⊢
  cases settled with
  | value holds known => exact .value holds (weaker _ known)
  | refused holds => exact .refused holds

/-- What follows may rely on what is known of the value before it. -/
theorem Steady.bind
    {next : α → Fallible ε σ β}
    {described : β → Prop}
    (steady : Steady invariant yields computation)
    (following : ∀ value, yields value → Steady invariant described (next value)) :
    Steady invariant described (computation >>= next) :=
  fun state holds =>
    (steady state holds).bind (fun _ => id) fun value after known => following value known after

theorem steady_pure
    {value : α}
    (known : yields value) :
    Steady invariant yields (pure value : Fallible ε σ α) :=
  fun _ holds => .value holds known

/-- Changing a value is no step, and what was known of it may be forgotten. -/
theorem Steady.map
    (steady : Steady invariant yields computation)
    (change : α → β) :
    Steady invariant (fun _ => True) (do pure (change (← computation))) :=
  steady.bind fun _ _ => steady_pure trivial

theorem steady_refuse {error : ε} :
    Steady invariant yields (refuse error : Fallible ε σ α) :=
  fun _ holds => .refused holds

theorem steady_ofCheck (check : Except ε α) :
    Steady invariant (fun value => check = .ok value) (ofCheck check : Fallible ε σ α) := by
  cases check with
  | ok value => exact steady_pure rfl
  | error error => exact steady_refuse

/-- An exact word operation is steady if its result is a word. -/
theorem steady_exactly
    {result? : Option α}
    {value : α}
    (isWord : result? = some value) :
    Steady invariant (fun found => result? = some found) (exactly result? : Fallible ε σ α) := by
  subst isWord
  exact steady_pure rfl

theorem steady_query
    {look : σ → Except ε α}
    (known : ∀ state value, look state = .ok value → yields value) :
    Steady invariant yields (query look) := by
  intro state holds
  unfold query
  cases seen : look state with
  | ok value => exact .value holds (known state value seen)
  | error error => exact .refused holds

theorem steady_get : Steady invariant invariant (get : Fallible ε σ σ) :=
  fun _ holds => .value holds holds

theorem steady_modify
    {change : σ → σ}
    (keeps : ∀ state, invariant state → invariant (change state)) :
    Steady invariant (fun _ => True) (modify change : Fallible ε σ Unit) :=
  fun state holds => .value (keeps state holds) trivial

theorem Steady.attempt (steady : Steady invariant yields computation) :
    Steady invariant (fun result => ∀ value, result = .ok value → yields value)
      (attempt computation) := by
  intro state holds
  obtain ⟨result, after, attempted, holdsAfter, known⟩ := (steady state holds).attempt
  rw [attempted]
  exact .value holdsAfter known

/-- What holds at a stage holds at all later ones. -/
class Lasting (stage : Nat → σ → Prop) : Prop where
  later : ∀ {first last state}, first ≤ last → stage first state → stage last state

variable {stage : Nat → σ → Prop}
variable {steps more : Nat}

/-- A computation that leads from every stage of an invariant to the one that is some steps
later, yields values that are described and never ends in an overflow. -/
def Leads
    (stage : Nat → σ → Prop)
    (steps : Nat)
    (yields : α → Prop)
    (computation : Fallible ε σ α) : Prop :=
  ∀ first state, stage first state →
    Settled (stage (first + steps)) yields (computation state)

/-- What is steady at every stage takes no steps. -/
theorem leads_of_steady (steady : ∀ first, Steady (stage first) yields computation) :
    Leads stage 0 yields computation :=
  steady

theorem Leads.within
    [Lasting stage]
    (leads : Leads stage steps yields computation)
    (ordered : steps ≤ more) :
    Leads stage more yields computation := by
  intro first state holds
  have settled := leads first state holds
  generalize computation state = result at settled ⊢
  have reached := Nat.add_le_add_left ordered first
  cases settled with
  | value holds known => exact .value (Lasting.later reached holds) known
  | refused holds => exact .refused (Lasting.later reached holds)

/-- What is known of a value where the computation succeeds may be described as well. -/
theorem Leads.known
    {described : α → Prop}
    (leads : Leads stage steps yields computation)
    (known : ∀ {first state value after}, stage first state →
      computation state = .ok value after → described value) :
    Leads stage steps (fun value => yields value ∧ described value) computation := by
  intro first state holds
  have settled := leads first state holds
  generalize ended : computation state = result at settled ⊢
  cases settled with
  | value holdsAfter yielded => exact .value holdsAfter ⟨yielded, known holds ended⟩
  | refused holdsAfter => exact .refused holdsAfter

section Lasting

variable [Lasting stage]
variable {next : α → Fallible ε σ β}
variable {described : β → Prop}

/-- Steps of two parts add up. -/
theorem Leads.bind
    (leads : Leads stage steps yields computation)
    (following : ∀ value, yields value → Leads stage more described (next value)) :
    Leads stage (steps + more) described (computation >>= next) := by
  intro first state holds
  rw [← Nat.add_assoc]
  exact (leads first state holds).bind (fun _ => Lasting.later (Nat.le_add_right _ _))
    fun value after known => following value known _ after

theorem Leads.then_steady
    (leads : Leads stage steps yields computation)
    (following : ∀ value, yields value → ∀ first, Steady (stage first) described (next value)) :
    Leads stage steps described (computation >>= next) :=
  leads.bind fun value known => leads_of_steady (following value known)

theorem Leads.after_steady
    (steady : ∀ first, Steady (stage first) yields computation)
    (following : ∀ value, yields value → Leads stage steps described (next value)) :
    Leads stage steps described (computation >>= next) := by
  rw [← Nat.zero_add steps]
  exact (leads_of_steady steady).bind following

end Lasting

end Fallible

end GuardedHeap
