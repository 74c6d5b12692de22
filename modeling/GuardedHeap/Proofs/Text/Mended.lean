import GuardedHeap.Proofs.Text.Surrogates

/-!
# Mended text

Any code units can be shown as text. What a unit adds to it depends on its two neighbours alone: a
surrogate that is not part of a pair becomes the replacement character, and everything else stays
what it is, in order. The decoder, which goes through the units from the front and takes pairs
out of them, comes to the same text, as no pair overlaps another one.
-/

namespace GuardedHeap
namespace Text

/-- What a code unit adds to a text, given the units around it. A high surrogate stands for the
pair that it begins, and the low one behind it adds nothing. -/
def shown (before? : Option UInt16) (unit : UInt16) (next? : Option UInt16) : List Char :=
  if isHigh unit then [(next?.filter isLow).elim replacement (pairChar unit)]
  else if isLow unit then if before?.any isHigh then [] else [replacement]
  else [Char.ofNat unit.toNat]

/-- What code units add to a text, the first of them behind another one. -/
def mendFrom (before? : Option UInt16) : List UInt16 → List Char
  | [] => []
  | unit :: rest => shown before? unit rest.head? ++ mendFrom (some unit) rest

/-- The text of any code units. -/
def mend (units : List UInt16) : List Char :=
  mendFrom none units

section Steps

variable {before? : Option UInt16}
variable {unit high low : UInt16}
variable {rest : List UInt16}

theorem mendFrom_single
    (notHigh : isHigh unit = false)
    (notLow : isLow unit = false) :
    mendFrom before? (unit :: rest) = Char.ofNat unit.toNat :: mendFrom (some unit) rest := by
  simp [mendFrom, shown, notHigh, notLow]

theorem mendFrom_pair
    (first : isHigh high = true)
    (second : isLow low = true) :
    mendFrom before? (high :: low :: rest) = pairChar high low :: mendFrom (some low) rest := by
  have notHigh : ¬ isHigh low = true := Bool.eq_false_iff.mp (isHigh_of_isLow second)
  have partner : (some low).filter isLow = some low := Option.filter_eq_some_iff.mpr ⟨rfl, second⟩
  have begun : (some high).any isHigh = true := (Option.any_some ..).trans first
  rw [mendFrom, mendFrom, shown, shown, if_pos first, if_neg notHigh, if_pos second, if_pos begun,
    List.head?_cons, partner, Option.elim_some, List.nil_append, List.singleton_append]

theorem mendFrom_high
    (first : isHigh high = true)
    (alone : ∀ next ∈ rest.head?, isLow next = false) :
    mendFrom before? (high :: rest) = replacement :: mendFrom (some high) rest := by
  have none_low : rest.head?.filter isLow = none := by
    simpa [Option.filter_eq_none_iff] using alone
  simp [mendFrom, shown, first, none_low]

theorem mendFrom_low
    (second : isLow low = true)
    (alone : before?.any isHigh = false) :
    mendFrom before? (low :: rest) = replacement :: mendFrom (some low) rest := by
  have notHigh := isHigh_of_isLow second
  simp [mendFrom, shown, second, notHigh, alone]

end Steps

/-- Behind a unit that does not begin a pair with them, code units are decoded to what they add
to a text. -/
theorem mendFrom_eq
    {before? : Option UInt16}
    {units : List UInt16}
    (apart : ∀ low ∈ units.head?, isLow low = true → before?.any isHigh = false) :
    mendFrom before? units = ofUnitsLossy units := by
  unfold ofUnitsLossy
  -- A part ends with a unit that is no high surrogate, or else no low surrogate is behind it.
  induction parts units generalizing before? with
  | nil => rfl
  | single notHigh notLow _ inductionHypothesis =>
      rw [mendFrom_single notHigh notLow, decodeUnits_single notHigh notLow, List.map_cons,
        inductionHypothesis (fun _ _ _ => (Option.any_some ..).trans notHigh), Option.getD_some]
  | pair first second _ inductionHypothesis =>
      have notHigh := isHigh_of_isLow second
      rw [mendFrom_pair first second, decodeUnits_pair first second, List.map_cons,
        inductionHypothesis (fun _ _ _ => (Option.any_some ..).trans notHigh), Option.getD_some]
  | high first alone _ inductionHypothesis =>
      rw [mendFrom_high first alone, decodeUnits_high first alone, List.map_cons,
        inductionHypothesis (fun next found isSecond =>
          absurd isSecond (Bool.eq_false_iff.mp (alone next found))), Option.getD_none]
  | @low low _ second _ inductionHypothesis =>
      have notHigh := isHigh_of_isLow second
      rw [mendFrom_low second (apart low rfl second), decodeUnits_low second, List.map_cons,
        inductionHypothesis (fun _ _ _ => (Option.any_some ..).trans notHigh), Option.getD_none]

theorem ofUnitsLossy_eq_mend (units : List UInt16) : ofUnitsLossy units = mend units :=
  (mendFrom_eq fun _ _ _ => rfl).symm

/-- There is nothing to mend in the units of a text. -/
theorem ofUnitsLossy_units (text : List Char) : ofUnitsLossy (units text) = text := by
  rw [ofUnitsLossy, (spells_units text).decodeUnits_eq, List.map_map]
  exact List.map_id text

end Text
end GuardedHeap
