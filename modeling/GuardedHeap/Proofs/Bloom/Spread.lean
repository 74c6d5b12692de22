import GuardedHeap.Proofs.Bloom.Contents
import Mathlib.Data.Nat.ModEq
import Mathlib.Data.Nat.Prime.Basic

/-!
# How positions spread

The positions of a word lie an odd distance apart. In a filter whose size is a power of two
such a distance can be undone: two steps lead to the same position exactly if they are
congruent modulo the size. Words wrap around at a multiple of that size, which changes no
position. So a word has as many positions as it has hashes until it has all of them.
-/

namespace GuardedHeap
namespace Bloom

variable {filter : Bloom}
variable {size : UInt64}
variable {exponent : Nat}

/-- The position of a word after a number of steps. -/
def positionAt (size word : UInt64) (step : Nat) : UInt64 :=
  (primaryHash word + UInt64.ofNat step * secondaryHash word) % size

theorem positions_eq_map (word : UInt64) :
    filter.positions word =
      (List.range filter.hashes.toNat).map (positionAt filter.bits.size word) := rfl

theorem positionAt_zero (size word : UInt64) :
    positionAt size word 0 = primaryHash word % size := by
  have nowhere : UInt64.ofNat 0 * secondaryHash word = 0 := UInt64.zero_mul
  rw [positionAt, nowhere, UInt64.add_zero]

/-- A word has its first position where its first hash leads. -/
theorem head?_positions
    (hashed : filter.hashes ≠ 0)
    (word : UInt64) :
    (filter.positions word).head? = some (primaryHash word % filter.bits.size) := by
  have counted : filter.hashes.toNat ≠ 0 := fun zero => hashed (UInt32.toNat_inj.mp zero)
  obtain ⟨others, count⟩ := Nat.exists_eq_succ_of_ne_zero counted
  rw [positions_eq_map, count, List.range_succ_eq_map, List.map_cons, List.head?_cons,
    positionAt_zero]

theorem odd_secondaryHash (word : UInt64) : Odd (secondaryHash word).toNat := by
  rw [Nat.odd_iff, secondaryHash, UInt64.toNat_or]
  exact Nat.or_mod_two_eq_one.mpr (Or.inr rfl)

/-- A power of two that is a word divides the number of words. -/
theorem dvd_of_power (power : size.toNat = 2 ^ exponent) : 2 ^ exponent ∣ 2 ^ 64 := by
  have isWord : 2 ^ exponent < 2 ^ 64 := power ▸ size.toNat_lt
  exact Nat.pow_dvd_pow 2 (Nat.pow_lt_pow_iff_right (by decide) |>.mp isWord).le

/-- Below a power of two, positions are the ones that exact numbers give. -/
theorem toNat_positionAt
    (power : size.toNat = 2 ^ exponent)
    (word : UInt64)
    (step : Nat) :
    (positionAt size word step).toNat =
      ((primaryHash word).toNat + step * (secondaryHash word).toNat) % 2 ^ exponent := by
  have divides := dvd_of_power power
  -- The step and the product wrap around at a multiple of the size.
  have product : step % 2 ^ 64 * (secondaryHash word).toNat % 2 ^ 64 ≡
      step * (secondaryHash word).toNat [MOD 2 ^ exponent] :=
    Nat.ModEq.of_dvd divides
      ((Nat.mod_modEq _ _).trans ((Nat.mod_modEq step _).mul_right _))
  rw [positionAt, UInt64.toNat_mod, UInt64.toNat_add, UInt64.toNat_mul, UInt64.toNat_ofNat',
    power, Nat.mod_mod_of_dvd _ divides]
  exact product.add_left _

/-- An odd distance leads to the same position only after a multiple of the size. -/
theorem positionAt_eq_iff
    (power : size.toNat = 2 ^ exponent)
    (word : UInt64)
    (first second : Nat) :
    positionAt size word first = positionAt size word second ↔
      first ≡ second [MOD 2 ^ exponent] := by
  have coprime : Nat.gcd (2 ^ exponent) (secondaryHash word).toNat = 1 :=
    Nat.Coprime.pow_left exponent (Nat.coprime_two_left.mpr (odd_secondaryHash word))
  rw [← UInt64.toNat_inj, toNat_positionAt power, toNat_positionAt power]
  constructor
  · intro same
    exact Nat.ModEq.cancel_right_of_coprime coprime (Nat.ModEq.add_left_cancel' _ same)
  · intro congruent
    exact (congruent.mul_right _).add_left _

/-- Values that come back exactly after each period are as many as were taken, up to the
period. -/
theorem card_image_of_periodic
    {values : Nat → UInt64}
    {period : Nat}
    (positive : 0 < period)
    (periodic : ∀ first second, values first = values second ↔ first ≡ second [MOD period])
    (count : Nat) :
    ((Finset.range count).image values).card = min count period := by
  have onePeriod : (Finset.range count).image values =
      (Finset.range (min count period)).image values := by
    apply Finset.Subset.antisymm
    · intro value present
      obtain ⟨step, inside, rfl⟩ := Finset.mem_image.mp present
      have before : step % period < count :=
        (Nat.mod_le step period).trans_lt (Finset.mem_range.mp inside)
      refine Finset.mem_image.mpr ⟨step % period, Finset.mem_range.mpr ?_, ?_⟩
      · exact lt_min before (Nat.mod_lt step positive)
      · exact (periodic _ _).mpr (Nat.mod_modEq step period)
    · exact Finset.image_subset_image (Finset.range_mono (min_le_left count period))
  have apart : Set.InjOn values (Finset.range (min count period)) := by
    intro first firstInside second secondInside same
    have firstBelow := lt_min_iff.mp (Finset.mem_range.mp firstInside)
    have secondBelow := lt_min_iff.mp (Finset.mem_range.mp secondInside)
    exact ((periodic first second).mp same).eq_of_lt_of_lt firstBelow.2 secondBelow.2
  rw [onePeriod, Finset.card_image_of_injOn apart, Finset.card_range]

/-- A word has as many positions as hashes, and all positions once it has more hashes. -/
theorem card_positions
    (power : filter.bits.size.toNat = 2 ^ exponent)
    (word : UInt64) :
    (filter.positions word).toFinset.card = min filter.hashes.toNat (2 ^ exponent) := by
  have image : (filter.positions word).toFinset =
      (Finset.range filter.hashes.toNat).image (positionAt filter.bits.size word) := by
    ext position
    simp [positions_eq_map]
  rw [image]
  exact card_image_of_periodic (Nat.two_pow_pos exponent) (positionAt_eq_iff power word) _

/-- The first word that is put into a filter turns on as many bits as it has positions. -/
theorem Knows.count_of_put
    {memory : Memory}
    (knows : filter.Knows memory ∅)
    (power : filter.bits.size.toNat = 2 ^ exponent)
    (word : UInt64) :
    ∃ after, filter.put word memory = .ok () after ∧
      filter.bits.count after = .ok (min filter.hashes.toNat (2 ^ exponent)) after := by
  obtain ⟨after, performed, knowsWord, _⟩ := knows.request (.put word)
  have marked : filter.marks (insert word ∅) = (filter.positions word).toFinset := by
    rw [marks_insert, marks_empty, Finset.union_empty]
  refine ⟨after, performed, ?_⟩
  rw [knowsWord.shown.count knowsWord.packed, Request.learn, marked, card_positions power]

/-- In a filter whose size is a power of two, each word has a position for each hash, all of
them are below the size, and as many of them differ as possible. -/
theorem positions_spread
    (power : filter.bits.size.toNat = 2 ^ exponent)
    (word : UInt64) :
    (filter.positions word).length = filter.hashes.toNat ∧
      (∀ position ∈ filter.positions word, position < filter.bits.size) ∧
      (filter.positions word).toFinset.card = min filter.hashes.toNat (2 ^ exponent) := by
  have nonempty : filter.bits.size ≠ 0 := by
    intro isEmpty
    rw [isEmpty] at power
    exact absurd power.symm (Nat.two_pow_pos exponent).ne'
  refine ⟨?_, fun _ => lt_of_mem_positions nonempty, card_positions power word⟩
  rw [positions_eq_map, List.length_map, List.length_range]

/-- In a filter that was made of eight bits, a word with eleven hashes has all positions. -/
theorem positions_spread_of_eight_bits :
    let stack : Stack := .instrumented 0 1 .arena
    let factory : Factory := ⟨stack.allocator, .production, 1⟩
    let before := World.initial { base := ⟨4096⟩, capacity := 1024 }
    ∃ filter opened, create factory 8 11 before = .ok filter opened ∧
      filter.bits.size.toNat = 2 ^ 3 ∧
      (filter.positions 12345).length = 11 ∧
      (∀ position ∈ filter.positions 12345, position < 8) ∧
      (filter.positions 12345).toFinset.card = 8 := by
  intro stack factory before
  obtain ⟨granted, allocated⟩ := Stack.instrumented_allocate_of_room 0 1 before
    (by decide : (1 : UInt64) ≠ 0) (by decide) rfl
    (by decide +kernel : before.arena.nextAfter? (1 + 24) = some 32)
  have allocates : factory.allocator.allocate 1 before = _ := allocated
  obtain ⟨set, opened, made, size_eq, _⟩ := BitSet.create_of_granted
    (by decide : (8 : UInt64) ≠ 0) (by decide : Bits.bytesFor? 8 = some 1) allocates
  have created : create factory 8 11 before = .ok ⟨set, 11⟩ opened := Fallible.bind_of_ok made _
  have power : (Bloom.mk set 11).bits.size.toNat = 2 ^ 3 := by
    rw [size_eq]
    rfl
  obtain ⟨length, below, distinct⟩ := positions_spread power 12345
  rw [size_eq] at below
  exact ⟨_, opened, created, power, length, below, distinct⟩

end Bloom
end GuardedHeap
