import GuardedHeap.Proofs.Arena.Calls

/-!
# Arenas that were told to fail

Once an arena was told how many more attempts may succeed, each attempt uses up one of them,
whether it is to hand out a region or to move a live one, and whether or not the region fits.
What is left after any number of calls is thus the count less the attempts among them, and
`Arena.Served.limited_exactly` reads off from this how every call is answered.
-/

namespace GuardedHeap
namespace Arena

/-- The arenas to which calls lead, whatever memory holds at each of them, and the number of
attempts among the calls. -/
inductive Served (first : Arena) : Nat → Arena → Prop
  | start : Served first 0 first
  | called
      {used : Nat}
      {arena : Arena}
      (earlier : Served first used arena)
      (memory : Memory)
      (call : Allocator.Call) :
      Served first (used + arena.attempts call) (arena.perform memory call).2.1

namespace Served

variable {first arena : Arena}
variable {used : Nat}

theorem capacity
    (served : Served first used arena)
    (small : first.capacity ≤ largestCapacity) :
    arena.capacity = first.capacity := by
  induction served with
  | start => rfl
  | called earlier memory call inductionHypothesis =>
      exact (credit_perform (inductionHypothesis ▸ small) memory call).2.trans inductionHypothesis

/-- The attempts are taken off the credit, until none is left. -/
theorem credit
    (served : Served first used arena)
    (small : first.capacity ≤ largestCapacity) :
    arena.credit = first.credit.map (· - used) := by
  induction served with
  | start => cases first.credit <;> rfl
  | called earlier memory call inductionHypothesis =>
      have spent := (credit_perform (earlier.capacity small ▸ small) memory call).1
      rw [spent, inductionHypothesis, Option.map_map]
      congr 1
      funext left
      exact Nat.sub_sub _ _ _

/-- What becomes of the calls to an arena that was told to let only some more attempts succeed.
As many attempts get a region if and only if it fits, which is then the next one. All others
change nothing, just as an attempt to move what is not live, which is not counted. Ending a
region is as if no limit was set. When the arena recovers, attempts get a region if and only
if it fits, for as long as no new limit is set. -/
theorem limited_exactly
    (small : first.capacity ≤ largestCapacity)
    {limit : Nat}
    (served : Served (first.failAfter limit) used arena)
    (memory : Memory) :
    (∀ call size, arena.asked? call = some size →
      (used < limit → (arena.perform memory call).1 =
        if arena.Fits size then some (arena.addressOf arena.next) else none) ∧
      (limit ≤ used → arena.perform memory call = (none, arena, memory))) ∧
    (∀ address newSize, arena.sizeAt? address = none →
      arena.perform memory (.reallocate address newSize) = (none, arena, memory) ∧
      arena.attempts (.reallocate address newSize) = 0) ∧
    (∀ address, arena.perform memory (.free address) =
      (none, { arena.recover.free address with credit := arena.credit }, memory)) ∧
    (∀ usedLater later, Served arena.recover usedLater later →
      ∀ memory call size, later.asked? call = some size →
        (later.perform memory call).1 =
          if later.Fits size then some (later.addressOf later.next) else none) := by
  have bounded : arena.capacity ≤ largestCapacity := served.capacity small ▸ small
  have left : arena.credit = some (limit - used) := served.credit small
  refine ⟨fun call size asks => ⟨fun paid => ?paid, fun unpaid => ?unpaid⟩, ?stale, ?ended,
    ?recovered⟩
  case paid =>
    have pays : arena.credit ≠ some 0 := by
      rw [left]
      simp
      omega
    rw [answer_of_asked bounded asks memory]
    simp only [pays, ne_eq, not_false_eq_true, true_and]
  case unpaid =>
    have broke : arena.credit = some 0 := by
      rw [left]
      simp
      omega
    exact perform_of_broke broke asks memory
  case stale =>
    intro address newSize stale
    exact ⟨perform_of_stale stale memory newSize, by simp [attempts, asked?, stale]⟩
  case ended =>
    intro address
    show (none, arena.free address, memory) = _
    rw [← free_eq_free_recover]
  case recovered =>
    intro usedLater later servedLater memory call size asks
    have boundedLater : later.capacity ≤ largestCapacity := servedLater.capacity bounded ▸ bounded
    have unlimited : later.credit = none := servedLater.credit bounded
    rw [answer_of_asked boundedLater asks memory]
    simp [unlimited]

/-- Two attempts may succeed. The first is too large and the second gets a region. One more
attempt is refused although it would fit, until the arena recovers. -/
theorem limited_exactly_of_two_attempts :
    let arena : Arena := { base := ⟨4096⟩, capacity := 64 }
    let attempted := ((arena.failAfter 2).perform .zero (.allocate 65)).2.1
    let granted := attempted.perform .zero (.allocate 8)
    arena.capacity ≤ largestCapacity ∧
      Served (arena.failAfter 2) 2 granted.2.1 ∧
      granted.1 = some ⟨4096⟩ ∧
      granted.2.1.Fits 8 ∧
      granted.2.1.perform .zero (.allocate 8) = (none, granted.2.1, .zero) ∧
      granted.2.1.perform .zero (.reallocate ⟨5000⟩ 8) = (none, granted.2.1, .zero) ∧
      (granted.2.1.recover.perform .zero (.allocate 8)).1 = some ⟨4112⟩ := by
  intro arena attempted granted
  have small : arena.capacity ≤ largestCapacity := by decide
  have afterFirst : Served (arena.failAfter 2) 1 attempted :=
    .called .start .zero (.allocate 65)
  have afterBoth : Served (arena.failAfter 2) 2 granted.2.1 :=
    afterFirst.called .zero (.allocate 8)
  have second := ((limited_exactly small afterFirst .zero).1 (.allocate 8) 8 rfl).1 (by decide)
  obtain ⟨attempts, stale, -, recovered⟩ := limited_exactly small afterBoth .zero
  refine ⟨small, afterBoth, second.trans (by decide +kernel), by decide +kernel, ?third, ?moved,
    ?later⟩
  case third => exact (attempts (.allocate 8) 8 rfl).2 (Nat.le_refl 2)
  case moved => exact (stale ⟨5000⟩ 8 (by decide +kernel)).1
  case later => exact (recovered 0 _ .start .zero (.allocate 8) 8 rfl).trans (by decide +kernel)

end Served
end Arena
end GuardedHeap
