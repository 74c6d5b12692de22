import GuardedHeap.Proofs.Bloom.Spread
import Mathlib.Data.LawfulXor.Basic
import Mathlib.Logic.Equiv.Defs

/-!
# Mixing loses nothing

A word is mixed in steps that can each be undone. Moving its bits down and adding them to it
keeps the bits at the top, from which the others come back; a product with an odd word is
undone by a product with that word's inverse. So mixing only changes the order of the words,
different words have different hashes, and what two words with the same first position have
lost is the quotient of the hash by the size.
-/

namespace GuardedHeap
namespace Word

/-- Nothing is left of a word that is moved three times by a third of its width. -/
theorem shiftRight_thrice
    {distance : UInt64}
    (far : 22 ≤ distance.toNat)
    (within : distance.toNat < 64)
    (word : UInt64) :
    word >>> distance >>> distance >>> distance = 0 := by
  have small : word.toNat < 2 ^ (distance.toNat + (distance.toNat + distance.toNat)) :=
    word.toNat_lt.trans_le (Nat.pow_le_pow_right (by decide) (by omega))
  apply UInt64.toNat_inj.mp
  simp only [UInt64.toNat_shiftRight, Nat.mod_eq_of_lt within]
  rw [← Nat.shiftRight_add, ← Nat.shiftRight_add, Nat.shiftRight_eq_div_pow]
  exact Nat.div_eq_of_lt small

/-- The permutation that adds to each word, without carry, the same word moved down. Shifts of
the sum that are added to it cancel all but the word and its third shift, which is empty. -/
def shifted
    (distance : UInt64)
    (far : 22 ≤ distance.toNat)
    (within : distance.toNat < 64) :
    Equiv.Perm UInt64 where
  toFun word := word ^^^ (word >>> distance)
  invFun word := word ^^^ (word >>> distance) ^^^ (word >>> distance >>> distance)
  left_inv word := by
    simp only [UInt64.shiftRight_xor, shiftRight_thrice far within, UInt64.xor_zero]
    rw [← UInt64.xor_assoc, xor_cancel_right, xor_cancel_right]
  right_inv word := by
    simp only [UInt64.shiftRight_xor, shiftRight_thrice far within, UInt64.xor_zero]
    rw [UInt64.xor_assoc word, xor_cancel_right]

/-- The permutation that multiplies each word by a factor that has an inverse. -/
def scaled
    (factor inverse : UInt64)
    (unit : factor * inverse = 1) :
    Equiv.Perm UInt64 where
  toFun word := word * factor
  invFun word := word * inverse
  left_inv word := calc
    word * factor * inverse = word * (factor * inverse) := UInt64.mul_assoc word factor inverse
    _ = word := by rw [unit, UInt64.mul_one]
  right_inv word := calc
    word * inverse * factor = word * (inverse * factor) := UInt64.mul_assoc word inverse factor
    _ = word := by rw [UInt64.mul_comm inverse, unit, UInt64.mul_one]

/-- The permutation that adds a fixed word to each word without carry. -/
def seeded (seed : UInt64) : Equiv.Perm UInt64 :=
  Function.Involutive.toPerm (fun word => word ^^^ seed) fun word => xor_cancel_right word seed

/-- Words with the same quotient and remainder are the same. -/
theorem eq_of_div_of_mod
    {left right divisor : UInt64}
    (quotients : left / divisor = right / divisor)
    (remainders : left % divisor = right % divisor) :
    left = right := by
  have exactQuotients := congrArg UInt64.toNat quotients
  have exactRemainders := congrArg UInt64.toNat remainders
  rw [UInt64.toNat_div, UInt64.toNat_div] at exactQuotients
  rw [UInt64.toNat_mod, UInt64.toNat_mod] at exactRemainders
  apply UInt64.toNat_inj.mp
  rw [← Nat.div_add_mod left.toNat divisor.toNat, exactQuotients, exactRemainders,
    Nat.div_add_mod]

end Word

namespace Bloom

open Word (shifted scaled seeded)

/-- Mixing as five steps each of which can be undone. -/
def mixing : Equiv.Perm UInt64 :=
  shifted 30 (by decide) (by decide)
    |>.trans (scaled 0xBF58476D1CE4E5B9 0x96DE1B173F119089 (by decide))
    |>.trans (shifted 27 (by decide) (by decide))
    |>.trans (scaled 0x94D049BB133111EB 0x319642B2D24D8EC3 (by decide))
    |>.trans (shifted 31 (by decide) (by decide))

theorem mixing_eq_mix : ⇑mixing = mix := rfl

theorem primaryHash_bijective : Function.Bijective primaryHash :=
  ((seeded primarySeed).trans mixing).bijective

/-- Mixing is a bijection, so different words have different hashes. Two words have their
first position in common exactly if their hashes have the same remainder by the size, and
then the quotients, which the positions do not show, differ. -/
theorem first_positions_meet_by_reduction :
    Function.Bijective mix ∧
      (∀ left right, left ≠ right → primaryHash left ≠ primaryHash right) ∧
      ∀ filter : Bloom, filter.hashes ≠ 0 → ∀ left right, left ≠ right →
        ((filter.positions left).head? = (filter.positions right).head? ↔
          primaryHash left % filter.bits.size = primaryHash right % filter.bits.size ∧
            primaryHash left / filter.bits.size ≠ primaryHash right / filter.bits.size) := by
  refine ⟨mixing_eq_mix ▸ mixing.bijective, fun _ _ => primaryHash_bijective.injective.ne, ?_⟩
  intro filter hashed left right differ
  rw [head?_positions hashed, head?_positions hashed, Option.some_inj]
  constructor
  · intro remainders
    refine ⟨remainders, fun quotients => ?_⟩
    exact differ (primaryHash_bijective.injective (Word.eq_of_div_of_mod quotients remainders))
  · exact And.left

/-- In a filter of 1024 bits, two words that were mixed apart have one first position. -/
theorem first_positions_meet_by_reduction_of_two_words :
    let filter : Bloom := ⟨⟨.empty, 1024⟩, 8⟩
    filter.hashes ≠ 0 ∧ (56 : UInt64) ≠ 61 ∧
      (filter.positions 56).head? = some 580 ∧ (filter.positions 61).head? = some 580 ∧
      primaryHash 56 ≠ primaryHash 61 ∧
      primaryHash 56 / filter.bits.size ≠ primaryHash 61 / filter.bits.size := by
  intro filter
  have hashed : filter.hashes ≠ 0 := by decide
  have differ : (56 : UInt64) ≠ 61 := by decide
  have left : (filter.positions 56).head? = some 580 := by decide
  have right : (filter.positions 61).head? = some 580 := by decide
  obtain ⟨_, apart, meet⟩ := first_positions_meet_by_reduction
  have reduced := (meet filter hashed 56 61 differ).mp (left.trans right.symm)
  exact ⟨hashed, differ, left, right, apart 56 61 differ, reduced.2⟩

end Bloom
end GuardedHeap
