import GuardedHeap.Proofs.Allocator.Basic
import GuardedHeap.Proofs.Arena.Holds

/-!
# Calls of an arena

An arena answers the calls of an allocator by itself: it sets regions apart, moves them and
ends them. Asking for a region and moving a live one are attempts to get a region, for which an
arena has to pay; moving an address that is not live and ending a region are none.

An attempt succeeds if it is paid for and the region ends within the capacity, whatever memory
holds. `Arena.answer_of_asked` says so for both kinds of attempt.
-/

namespace GuardedHeap

/-- A call asks for at least one byte, or for none at all. -/
def Allocator.Call.Sized : Allocator.Call → Prop
  | .allocate size => size ≠ 0
  | .reallocate _ newSize => newSize ≠ 0
  | .free _ => True

namespace Arena

/-- Answer a call, and give the arena and memory afterwards. Ending a region answers nothing. -/
def perform
    (arena : Arena)
    (memory : Memory) :
    Allocator.Call → Option Address × Arena × Memory
  | .allocate size => arena.allocate memory size
  | .reallocate address newSize => arena.reallocate memory address newSize
  | .free address => (none, arena.free address, memory)

/-- The size of the region that a call attempts to get. -/
def asked? (arena : Arena) : Allocator.Call → Option UInt64
  | .allocate size => some size
  | .reallocate address newSize => (arena.sizeAt? address).map fun _ => newSize
  | .free _ => none

/-- How many attempts to get a region a call is. -/
def attempts (arena : Arena) (call : Allocator.Call) : Nat :=
  if (arena.asked? call).isSome then 1 else 0

/-- A region of a size ends within the capacity. -/
def Fits (arena : Arena) (size : UInt64) : Prop :=
  arena.next.toNat + size.toNat ≤ arena.capacity.toNat

instance (arena : Arena) (size : UInt64) : Decidable (arena.Fits size) :=
  inferInstanceAs (Decidable (_ ≤ _))

/-- The ways in which a call of an arena ends. -/
inductive PerformOutcome (arena : Arena) (memory : Memory) :
    Allocator.Call → Option Address × Arena × Memory → Prop
  | refused
      {call : Allocator.Call}
      (credit : Option Nat)
      (asks : ∀ address, call ≠ .free address) :
      PerformOutcome arena memory call (none, { arena with credit }, memory)
  | granted
      {size next : UInt64}
      (credit : Option Nat)
      (room : arena.nextAfter? size = some next) :
      PerformOutcome arena memory (.allocate size)
        (some (arena.addressOf arena.next),
          { arena with
            next
            live := arena.live.insert arena.next size
            allocations := arena.allocations + 1
            credit },
          memory.fill (arena.addressOf arena.next) size.toNat freshByte)
  | moved
      {address : Address}
      {size newSize next : UInt64}
      (credit : Option Nat)
      (live : arena.sizeAt? address = some size)
      (room : arena.nextAfter? newSize = some next) :
      PerformOutcome arena memory (.reallocate address newSize)
        (some (arena.addressOf arena.next),
          { arena with
            next
            live := (arena.live.insert arena.next newSize).erase (arena.offsetOf address)
            allocations := arena.allocations + 1
            credit },
          (memory.fill (arena.addressOf arena.next) newSize.toNat freshByte).copy
            address (arena.addressOf arena.next) (min size newSize).toNat)
  | ended
      {address : Address}
      {size : UInt64}
      (live : arena.sizeAt? address = some size) :
      PerformOutcome arena memory (.free address)
        (none,
          { arena with
            live := arena.live.erase (arena.offsetOf address)
            frees := arena.frees + 1 },
          memory)
  | stray
      {address : Address}
      (dead : arena.sizeAt? address = none) :
      PerformOutcome arena memory (.free address)
        (none, { arena with invalidFrees := arena.invalidFrees + 1 }, memory)

theorem perform_outcome
    (arena : Arena)
    (memory : Memory)
    (call : Allocator.Call) :
    PerformOutcome arena memory call (arena.perform memory call) := by
  cases call with
  | allocate size =>
      have outcome := allocate_outcome arena memory size
      rw [perform]
      generalize arena.allocate memory size = result at outcome
      cases outcome with
      | refused credit failed => exact .refused credit (by simp)
      | granted credit room => exact .granted credit room
  | reallocate address newSize =>
      have outcome := reallocate_outcome arena memory address newSize
      rw [perform]
      generalize arena.reallocate memory address newSize = result at outcome
      cases outcome with
      | unknown dead => exact .refused arena.credit (by simp)
      | refused credit live failed => exact .refused credit (by simp)
      | moved credit live room => exact .moved credit live room
  | free address =>
      rw [perform, free]
      cases live : arena.sizeAt? address with
      | none => exact .stray live
      | some size => exact .ended live

variable {arena : Arena}
variable {call : Allocator.Call}
variable {size : UInt64}

/-- There is a region after the next one if and only if the next one fits. -/
theorem isSome_nextAfter?_iff
    (small : arena.capacity ≤ largestCapacity) :
    (arena.nextAfter? size).isSome ↔ arena.Fits size := by
  have words : UInt64.size = 0x10000000000000000 := rfl
  have bound : arena.capacity.toNat ≤ 0x8000000000000000 - 16 := UInt64.le_iff_toNat_le.mp small
  constructor
  · intro isSome
    obtain ⟨next, room⟩ := Option.isSome_iff_exists.mp isSome
    exact (nextAfter?_eq_some (by omega) room).1
  · intro fits
    unfold Fits at fits
    have sum : (arena.next + size).toNat = arena.next.toNat + size.toNat := by
      rw [UInt64.toNat_add]
      omega
    have added : Word.add? arena.next size = some (arena.next + size) :=
      if_pos (by omega)
    have within : arena.next + size ≤ arena.capacity := by
      rw [UInt64.le_iff_toNat_le, sum]
      exact fits
    have raises : Word.add? (arena.next + size) 15 = some (arena.next + size + 15) :=
      if_pos (by rw [sum]; change _ + 15 < _; omega)
    simp [nextAfter?, added, within, Word.alignUp?, raises]

/-- An arena cannot pay if and only if it has no credit left. -/
theorem pay?_eq_none_iff : arena.pay? = none ↔ arena.credit = some 0 := by
  unfold pay?
  split <;> simp_all

/-- Paying takes one unit off the credit, if there is a limit. -/
theorem credit_of_pay?
    {paid : Arena}
    (pays : arena.pay? = some paid) :
    paid.credit = arena.credit.map (· - 1) := by
  unfold pay? at pays
  split at pays
  · rename_i unlimited
    cases pays
    simp [unlimited]
  · cases pays
  · rename_i left limited
    cases pays
    simp [limited]

/-- An arena that cannot pay sets no region apart. -/
theorem reserve_of_broke
    (broke : arena.credit = some 0)
    (size : UInt64) :
    arena.reserve size = (none, arena) := by
  rw [reserve, pay?_eq_none_iff.mpr broke]

/-- Whether a region is set apart depends on credit and room. The attempt costs one unit of
credit in any case. -/
theorem reserve_eq
    (small : arena.capacity ≤ largestCapacity)
    (size : UInt64) :
    (arena.reserve size).1 =
        (if arena.credit ≠ some 0 ∧ arena.Fits size then some arena.next else none) ∧
      (arena.reserve size).2.credit = arena.credit.map (· - 1) ∧
      (arena.reserve size).2.capacity = arena.capacity := by
  have solvent : ∀ {paid : Arena}, arena.pay? = some paid → arena.credit ≠ some 0 := by
    intro paid pays broke
    rw [pay?_eq_none_iff.mpr broke] at pays
    cases pays
  have outcome := reserve_outcome arena size
  generalize arena.reserve size = result at outcome
  cases outcome with
  | unpaid broke => simp [pay?_eq_none_iff.mp broke]
  | full paid pays noRoom =>
      have full : ¬ arena.Fits size := by
        rw [← isSome_nextAfter?_iff small, noRoom]
        simp
      simp [full, credit_of_pay? pays]
  | reserved paid pays room =>
      have fits : arena.Fits size := by
        rw [← isSome_nextAfter?_iff small, room]
        rfl
      simp [fits, solvent pays, credit_of_pay? pays]

/-- Handing out a region answers its address and leaves the arena that set it apart. -/
theorem allocate_eq
    (arena : Arena)
    (memory : Memory)
    (size : UInt64) :
    (arena.allocate memory size).1 = (arena.reserve size).1.map arena.addressOf ∧
      (arena.allocate memory size).2.1 = (arena.reserve size).2 := by
  have outcome := reserve_outcome arena size
  unfold allocate
  generalize arena.reserve size = result at outcome
  cases outcome with
  | unpaid broke => exact ⟨rfl, rfl⟩
  | full paid pays noRoom => exact ⟨rfl, rfl⟩
  | reserved paid pays room => exact ⟨rfl, rfl⟩

/-- Moving a live region is answered as handing one out is, and costs the same. -/
theorem reallocate_eq
    {address : Address}
    {live : UInt64}
    (found : arena.sizeAt? address = some live)
    (memory : Memory)
    (newSize : UInt64) :
    (arena.reallocate memory address newSize).1 = (arena.allocate memory newSize).1 ∧
      (arena.reallocate memory address newSize).2.1.credit =
        (arena.allocate memory newSize).2.1.credit ∧
      (arena.reallocate memory address newSize).2.1.capacity =
        (arena.allocate memory newSize).2.1.capacity := by
  unfold reallocate
  rw [found]
  dsimp only
  rcases arena.allocate memory newSize with ⟨_ | moved, after, changed⟩ <;>
    exact ⟨rfl, rfl, rfl⟩

/-- An attempt that is paid for gets the next region if that fits, and one that is not paid for
gets none. -/
theorem answer_of_asked
    (small : arena.capacity ≤ largestCapacity)
    (asks : arena.asked? call = some size)
    (memory : Memory) :
    (arena.perform memory call).1 =
      if arena.credit ≠ some 0 ∧ arena.Fits size then some (arena.addressOf arena.next)
      else none := by
  have answer : (arena.allocate memory size).1 =
      if arena.credit ≠ some 0 ∧ arena.Fits size then some (arena.addressOf arena.next)
      else none := by
    rw [(allocate_eq arena memory size).1, (reserve_eq small size).1]
    split <;> rfl
  cases call with
  | allocate asked =>
      cases asks
      exact answer
  | reallocate address newSize =>
      obtain ⟨live, found, rfl⟩ := Option.map_eq_some_iff.mp asks
      exact (reallocate_eq found memory newSize).1.trans answer
  | free address => cases asks

/-- A call that has to be paid for by an arena without credit changes nothing. -/
theorem perform_of_broke
    (broke : arena.credit = some 0)
    (asks : arena.asked? call = some size)
    (memory : Memory) :
    arena.perform memory call = (none, arena, memory) := by
  have refused : arena.allocate memory size = (none, arena, memory) := by
    rw [allocate, reserve_of_broke broke]
  cases call with
  | allocate asked =>
      cases asks
      exact refused
  | reallocate address newSize =>
      obtain ⟨live, found, rfl⟩ := Option.map_eq_some_iff.mp asks
      show arena.reallocate memory address newSize = _
      rw [reallocate, found]
      dsimp only
      rw [refused]
  | free address => cases asks

/-- A region cannot be moved from where none is live. -/
theorem perform_of_stale
    {address : Address}
    (stale : arena.sizeAt? address = none)
    (memory : Memory)
    (newSize : UInt64) :
    arena.perform memory (.reallocate address newSize) = (none, arena, memory) := by
  rw [perform, reallocate, stale]

/-- Ending a region does not depend on the credit and keeps it. -/
theorem free_eq_free_recover
    (arena : Arena)
    (address : Address) :
    arena.free address = { arena.recover.free address with credit := arena.credit } := by
  have same : arena.recover.sizeAt? address = arena.sizeAt? address := rfl
  unfold free
  rw [same]
  cases arena.sizeAt? address <;> rfl

/-- A call uses up as much credit as it makes attempts, and never changes the capacity. -/
theorem credit_perform
    (small : arena.capacity ≤ largestCapacity)
    (memory : Memory)
    (call : Allocator.Call) :
    (arena.perform memory call).2.1.credit = arena.credit.map (· - arena.attempts call) ∧
      (arena.perform memory call).2.1.capacity = arena.capacity := by
  have granted : ∀ size, (arena.allocate memory size).2.1.credit = arena.credit.map (· - 1) ∧
      (arena.allocate memory size).2.1.capacity = arena.capacity := by
    intro size
    rw [(allocate_eq arena memory size).2]
    exact (reserve_eq small size).2
  cases call with
  | allocate size => exact granted size
  | reallocate address newSize =>
      cases found : arena.sizeAt? address with
      | none => simp [perform_of_stale found, attempts, asked?, found]
      | some live =>
          obtain ⟨-, credit, capacity⟩ := reallocate_eq found memory newSize
          have attempt : arena.attempts (.reallocate address newSize) = 1 := by
            simp [attempts, asked?, found]
          rw [attempt]
          exact ⟨credit.trans (granted newSize).1, capacity.trans (granted newSize).2⟩
  | free address =>
      have kept : (arena.free address).credit = arena.credit ∧
          (arena.free address).capacity = arena.capacity := by
        unfold free
        cases arena.sizeAt? address <;> exact ⟨rfl, rfl⟩
      simp [perform, attempts, asked?, kept]

end Arena
end GuardedHeap
