import GuardedHeap.Arena

/-!
# Outcomes of an arena's calls

The ways in which an arena sets a region apart, hands one out and moves one.
Whether an attempt is paid for is decided before it is known to fit, so an
attempt that does not fit uses up credit as well.
-/

namespace GuardedHeap
namespace Arena

/-- Paying changes nothing but the credit. -/
theorem pay?_eq_some
    {arena paid : Arena}
    (pays : arena.pay? = some paid) :
    paid = { arena with credit := paid.credit } := by
  unfold pay? at pays
  split at pays
  · cases pays
    rfl
  · contradiction
  · cases pays
    rfl

/-- The ways in which setting a region apart ends. -/
inductive ReserveOutcome (arena : Arena) (size : UInt64) : Option UInt64 × Arena → Prop
  | unpaid (broke : arena.pay? = none) : ReserveOutcome arena size (none, arena)
  | full
      (paid : Arena)
      (pays : arena.pay? = some paid)
      (noRoom : arena.nextAfter? size = none) :
      ReserveOutcome arena size (none, { arena with credit := paid.credit })
  | reserved
      (paid : Arena)
      {next : UInt64}
      (pays : arena.pay? = some paid)
      (room : arena.nextAfter? size = some next) :
      ReserveOutcome arena size (some arena.next, { arena with
        next
        live := arena.live.insert arena.next size
        allocations := arena.allocations + 1
        credit := paid.credit })

theorem reserve_outcome (arena : Arena) (size : UInt64) :
    ReserveOutcome arena size (arena.reserve size) := by
  unfold reserve
  cases pays : arena.pay? with
  | none => exact .unpaid pays
  | some paid =>
      have same := pay?_eq_some pays
      dsimp only
      rw [same]
      have samePlan : ({ arena with credit := paid.credit } : Arena).nextAfter? size =
          arena.nextAfter? size := rfl
      rw [samePlan]
      cases room : arena.nextAfter? size with
      | none => exact .full paid pays room
      | some next => exact .reserved paid pays room

/-- The ways in which handing out a region ends. -/
inductive AllocateOutcome (arena : Arena) (memory : Memory) (size : UInt64) :
    Option Address × Arena × Memory → Prop
  | refused
      (credit : Option Nat)
      (failed : (arena.reserve size).1 = none) :
      AllocateOutcome arena memory size (none, { arena with credit }, memory)
  | granted
      {next : UInt64}
      (credit : Option Nat)
      (room : arena.nextAfter? size = some next) :
      AllocateOutcome arena memory size
        (some (arena.addressOf arena.next),
          { arena with
            next
            live := arena.live.insert arena.next size
            allocations := arena.allocations + 1
            credit },
          memory.fill (arena.addressOf arena.next) size.toNat freshByte)

theorem allocate_outcome (arena : Arena) (memory : Memory) (size : UInt64) :
    AllocateOutcome arena memory size (arena.allocate memory size) := by
  have outcome := reserve_outcome arena size
  unfold allocate
  generalize reserved : arena.reserve size = result at outcome
  have failed : result.1 = none → (arena.reserve size).1 = none := fun none => by
    rw [reserved, none]
  cases outcome with
  | unpaid broke => exact .refused arena.credit (failed rfl)
  | full paid pays noRoom => exact .refused _ (failed rfl)
  | reserved paid pays room => exact .granted _ room

/-- An arena without a limit hands out a region that fits. -/
theorem allocate_of_room
    {arena : Arena}
    {size next : UInt64}
    (unlimited : arena.credit = none)
    (room : arena.nextAfter? size = some next)
    (memory : Memory) :
    ∃ granted, arena.allocate memory size =
      (some (arena.addressOf arena.next), granted,
        memory.fill (arena.addressOf arena.next) size.toNat freshByte) := by
  have pays : arena.pay? = some arena := by
    rw [pay?, unlimited]
  have reserved : arena.reserve size = (some arena.next, { arena with
      next, live := arena.live.insert arena.next size, allocations := arena.allocations + 1 }) := by
    rw [reserve, pays]
    dsimp only
    rw [room]
  exact ⟨_, by rw [allocate, reserved]; rfl⟩

/-- The ways in which moving a region ends. -/
inductive ReallocateOutcome
    (arena : Arena)
    (memory : Memory)
    (address : Address)
    (newSize : UInt64) :
    Option Address × Arena × Memory → Prop
  | unknown (dead : arena.sizeAt? address = none) :
      ReallocateOutcome arena memory address newSize (none, arena, memory)
  | refused
      {size : UInt64}
      (credit : Option Nat)
      (live : arena.sizeAt? address = some size)
      (failed : (arena.reserve newSize).1 = none) :
      ReallocateOutcome arena memory address newSize (none, { arena with credit }, memory)
  | moved
      {size next : UInt64}
      (credit : Option Nat)
      (live : arena.sizeAt? address = some size)
      (room : arena.nextAfter? newSize = some next) :
      ReallocateOutcome arena memory address newSize
        (some (arena.addressOf arena.next),
          { arena with
            next
            live := (arena.live.insert arena.next newSize).erase (arena.offsetOf address)
            allocations := arena.allocations + 1
            credit },
          (memory.fill (arena.addressOf arena.next) newSize.toNat freshByte).copy
            address (arena.addressOf arena.next) (min size newSize).toNat)

theorem reallocate_outcome
    (arena : Arena)
    (memory : Memory)
    (address : Address)
    (newSize : UInt64) :
    ReallocateOutcome arena memory address newSize
      (arena.reallocate memory address newSize) := by
  unfold reallocate
  cases live : arena.sizeAt? address with
  | none => exact .unknown live
  | some size =>
      have outcome := allocate_outcome arena memory newSize
      dsimp only
      generalize arena.allocate memory newSize = result at outcome
      cases outcome with
      | refused credit failed => exact .refused credit live failed
      | granted credit room => exact .moved credit live room

end Arena
end GuardedHeap
