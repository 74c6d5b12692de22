import GuardedHeap.Text.Units

/-!
# Surrogates

Which code units are text, and which text they are. A unit that is no surrogate is a character,
and so is a high surrogate in front of a low one. Code units are text exactly if every surrogate
is part of such a pair.
-/

namespace GuardedHeap
namespace Text

/-- Code units stand for the characters of a text, each a single unit or a pair. -/
inductive Spells : List UInt16 → List Char → Prop
  | nil : Spells [] []
  | single
      {unit : UInt16}
      {char : Char}
      {units : List UInt16}
      {text : List Char}
      (code : char.toNat = unit.toNat)
      (others : Spells units text) :
      Spells (unit :: units) (char :: text)
  | pair
      {high low : UInt16}
      {char : Char}
      {units : List UInt16}
      {text : List Char}
      (first : isHigh high = true)
      (second : isLow low = true)
      (code : char.toNat =
        0x10000 + (high.toNat - 0xD800) * 0x400 + (low.toNat - 0xDC00))
      (others : Spells units text) :
      Spells (high :: low :: units) (char :: text)

/-- Every high surrogate stands in front of a low one, and every low one behind a high one. -/
structure Paired (units : List UInt16) : Prop where
  followed : ∀ index high, units[index]? = some high → isHigh high = true →
    ∃ low, units[index + 1]? = some low ∧ isLow low = true
  preceded : ∀ index low, units[index]? = some low → isLow low = true →
    ∃ before high, index = before + 1 ∧ units[before]? = some high ∧ isHigh high = true

theorem isHigh_iff (unit : UInt16) :
    isHigh unit = true ↔ 0xD800 ≤ unit.toNat ∧ unit.toNat < 0xDC00 := by
  simp only [isHigh, Bool.and_eq_true, decide_eq_true_eq, UInt16.le_iff_toNat_le,
    UInt16.lt_iff_toNat_lt, UInt16.reduceToNat]

theorem isLow_iff (unit : UInt16) :
    isLow unit = true ↔ 0xDC00 ≤ unit.toNat ∧ unit.toNat < 0xE000 := by
  simp only [isLow, Bool.and_eq_true, decide_eq_true_eq, UInt16.le_iff_toNat_le,
    UInt16.lt_iff_toNat_lt, UInt16.reduceToNat]

/-- No unit is both a high and a low surrogate. -/
theorem isLow_of_isHigh {unit : UInt16} (high : isHigh unit = true) : isLow unit = false := by
  rw [isHigh_iff] at high
  rw [← Bool.not_eq_true, isLow_iff]
  omega

theorem isHigh_of_isLow {unit : UInt16} (low : isLow unit = true) : isHigh unit = false := by
  rw [isLow_iff] at low
  rw [← Bool.not_eq_true, isHigh_iff]
  omega

theorem toNat_ofNat_of_valid {code : Nat} (valid : code.isValidChar) :
    (Char.ofNat code).toNat = code := by
  rw [Char.ofNat, dif_pos valid]
  rfl

/-- A unit that is no surrogate is the code of a character. -/
theorem toNat_ofNat_of_plain
    {unit : UInt16}
    (notHigh : isHigh unit = false)
    (notLow : isLow unit = false) :
    (Char.ofNat unit.toNat).toNat = unit.toNat := by
  have := unit.toNat_lt
  rw [← Bool.not_eq_true, isHigh_iff] at notHigh
  rw [← Bool.not_eq_true, isLow_iff] at notLow
  exact toNat_ofNat_of_valid (by unfold Nat.isValidChar; omega)

/-- The code of a character is no surrogate. -/
theorem not_surrogate_of_code
    {char : Char}
    {unit : UInt16}
    (code : char.toNat = unit.toNat) :
    isHigh unit = false ∧ isLow unit = false := by
  have valid : char.toNat < 0xD800 ∨ 0xDFFF < char.toNat ∧ char.toNat < 0x110000 := char.valid
  rw [code] at valid
  rw [← Bool.not_eq_true, ← Bool.not_eq_true, isHigh_iff, isLow_iff]
  omega

theorem toNat_pairChar
    {high low : UInt16}
    (first : isHigh high = true)
    (second : isLow low = true) :
    (pairChar high low).toNat =
      0x10000 + (high.toNat - 0xD800) * 0x400 + (low.toNat - 0xDC00) := by
  rw [isHigh_iff] at first
  rw [isLow_iff] at second
  exact toNat_ofNat_of_valid (by unfold Nat.isValidChar; omega)

/-- Code units taken apart from the front, into characters and surrogates that are not part of
a pair. -/
inductive Parts : List UInt16 → Prop
  | nil : Parts []
  | single
      {unit : UInt16}
      {rest : List UInt16}
      (notHigh : isHigh unit = false)
      (notLow : isLow unit = false)
      (others : Parts rest) :
      Parts (unit :: rest)
  | pair
      {high low : UInt16}
      {rest : List UInt16}
      (first : isHigh high = true)
      (second : isLow low = true)
      (others : Parts rest) :
      Parts (high :: low :: rest)
  | high
      {high : UInt16}
      {rest : List UInt16}
      (first : isHigh high = true)
      (alone : ∀ next ∈ rest.head?, isLow next = false)
      (others : Parts rest) :
      Parts (high :: rest)
  | low
      {low : UInt16}
      {rest : List UInt16}
      (second : isLow low = true)
      (others : Parts rest) :
      Parts (low :: rest)

theorem parts : (units : List UInt16) → Parts units
  | [] => .nil
  | unit :: rest => by
      cases second : isLow unit with
      | true => exact .low second (parts rest)
      | false =>
          cases first : isHigh unit with
          | false => exact .single first second (parts rest)
          | true =>
              cases rest with
              | nil => exact .high first (by simp) .nil
              | cons next rest =>
                  cases behind : isLow next with
                  | true => exact .pair first behind (parts rest)
                  | false => exact .high first (by simp [behind]) (parts (next :: rest))

/-! ### Decoding, one character after the other -/

theorem decodeOnto_append
    (done before : List (Option Char))
    (units : List UInt16) :
    decodeOnto (done ++ before) units = decodeOnto done units ++ before := by
  fun_induction decodeOnto done units with
  | case1 => rfl
  | case2 done unit lone => simp [decodeOnto, lone]
  | case3 done unit plain => simp [decodeOnto, plain]
  | case4 done high low rest first second inductionHypothesis =>
      rw [← inductionHypothesis, decodeOnto, if_pos first, if_pos second, List.cons_append]
  | case5 done high next rest first alone inductionHypothesis =>
      rw [← inductionHypothesis, decodeOnto, if_pos first, if_neg alone, List.cons_append]
  | case6 done unit next rest notHigh low inductionHypothesis =>
      rw [← inductionHypothesis, decodeOnto, if_neg notHigh, if_pos low, List.cons_append]
  | case7 done unit next rest notHigh notLow inductionHypothesis =>
      rw [← inductionHypothesis, decodeOnto, if_neg notHigh, if_neg notLow, List.cons_append]

/-- What is put in front while decoding is the first of what is decoded. -/
theorem decodeUnits_of_step
    {units rest : List UInt16}
    {first : Option Char}
    (step : decodeOnto [] units = decodeOnto [first] rest) :
    decodeUnits units = first :: decodeUnits rest := by
  have behind : decodeOnto [first] rest = decodeOnto [] rest ++ [first] :=
    decodeOnto_append [] [first] rest
  rw [decodeUnits, step, behind, List.reverse_append, decodeUnits]
  rfl

section Steps

variable {unit high low : UInt16}
variable {rest : List UInt16}

@[simp] theorem decodeUnits_nil : decodeUnits [] = [] := rfl

theorem decodeUnits_single
    (notHigh : isHigh unit = false)
    (notLow : isLow unit = false) :
    decodeUnits (unit :: rest) = some (Char.ofNat unit.toNat) :: decodeUnits rest := by
  apply decodeUnits_of_step
  cases rest <;> simp [decodeOnto, notHigh, notLow]

theorem decodeUnits_pair
    (first : isHigh high = true)
    (second : isLow low = true) :
    decodeUnits (high :: low :: rest) = some (pairChar high low) :: decodeUnits rest := by
  apply decodeUnits_of_step
  rw [decodeOnto, if_pos first, if_pos second]

/-- A high surrogate without a low one behind it is no character. -/
theorem decodeUnits_high
    (isFirst : isHigh high = true)
    (alone : ∀ next ∈ rest.head?, isLow next = false) :
    decodeUnits (high :: rest) = none :: decodeUnits rest := by
  apply decodeUnits_of_step
  cases rest with
  | nil => simp [decodeOnto, isFirst]
  | cons next rest =>
      have notLow : isLow next = false := alone next rfl
      simp [decodeOnto, isFirst, notLow]

/-- A low surrogate without a high one before it is no character. -/
theorem decodeUnits_low (isSecond : isLow low = true) :
    decodeUnits (low :: rest) = none :: decodeUnits rest := by
  have notHigh := isHigh_of_isLow isSecond
  apply decodeUnits_of_step
  cases rest <;> simp [decodeOnto, isSecond, notHigh]

end Steps

/-! ### Text and its units -/

theorem ofUnits?_eq_some_iff_decodeUnits (units : List UInt16) (text : List Char) :
    ofUnits? units = some text ↔ decodeUnits units = text.map some := by
  unfold ofUnits?
  induction decodeUnits units generalizing text with
  | nil => cases text <;> simp
  | cons first others inductionHypothesis =>
      cases first with
      | none => cases text <;> simp
      | some char =>
          have step : (some char :: others).mapM id = (others.mapM id).map (char :: ·) := by
            rw [List.mapM_cons]
            cases others.mapM id <;> rfl
          rw [step, Option.map_eq_some_iff]
          cases text with
          | nil => simp
          | cons other text =>
              simp only [inductionHypothesis, List.map_cons, List.cons.injEq, Option.some.injEq,
                exists_eq_right_right]
              exact and_comm

/-- Units that are decoded without a gap spell the text that they are decoded to. -/
theorem spells_of_decodeUnits
    {units : List UInt16}
    {text : List Char}
    (decoded : decodeUnits units = text.map some) :
    Spells units text := by
  induction parts units generalizing text with
  | nil =>
      rw [decodeUnits_nil] at decoded
      rw [List.map_eq_nil_iff.mp decoded.symm]
      exact .nil
  | single notHigh notLow _ inductionHypothesis =>
      rw [decodeUnits_single notHigh notLow, eq_comm, List.map_eq_cons_iff] at decoded
      obtain ⟨char, text, rfl, same, others⟩ := decoded
      rw [Option.some.inj same]
      exact .single (toNat_ofNat_of_plain notHigh notLow) (inductionHypothesis others.symm)
  | pair first second _ inductionHypothesis =>
      rw [decodeUnits_pair first second, eq_comm, List.map_eq_cons_iff] at decoded
      obtain ⟨char, text, rfl, same, others⟩ := decoded
      rw [Option.some.inj same]
      exact .pair first second (toNat_pairChar first second) (inductionHypothesis others.symm)
  | high first alone =>
      rw [decodeUnits_high first alone, eq_comm, List.map_eq_cons_iff] at decoded
      obtain ⟨char, text, -, lone, -⟩ := decoded
      cases lone
  | low second =>
      rw [decodeUnits_low second, eq_comm, List.map_eq_cons_iff] at decoded
      obtain ⟨char, text, -, lone, -⟩ := decoded
      cases lone

/-- Units that spell a text are decoded to this text. -/
theorem Spells.decodeUnits_eq
    {units : List UInt16}
    {text : List Char}
    (spells : Spells units text) :
    decodeUnits units = text.map some := by
  induction spells with
  | nil => rfl
  | single code _ inductionHypothesis =>
      obtain ⟨notHigh, notLow⟩ := not_surrogate_of_code code
      rw [decodeUnits_single notHigh notLow, inductionHypothesis, ← code, Char.ofNat_toNat,
        List.map_cons]
  | pair first second code _ inductionHypothesis =>
      rw [decodeUnits_pair first second, inductionHypothesis, pairChar, ← code,
        Char.ofNat_toNat, List.map_cons]

/-- Code units are those of a text exactly if they spell it. -/
theorem ofUnits?_eq_some_iff (units : List UInt16) (text : List Char) :
    ofUnits? units = some text ↔ Spells units text := by
  rw [ofUnits?_eq_some_iff_decodeUnits]
  exact ⟨spells_of_decodeUnits, Spells.decodeUnits_eq⟩

/-- The units of text spell it. -/
theorem spells_units (text : List Char) : Spells (units text) text := by
  unfold units
  induction text with
  | nil => exact .nil
  | cons char text inductionHypothesis =>
      have valid : char.toNat < 0xD800 ∨ 0xDFFF < char.toNat ∧ char.toNat < 0x110000 := char.valid
      rw [List.flatMap_cons, unitsOfChar]
      by_cases small : char.toNat < 0x10000
      case pos =>
        rw [if_pos small]
        refine .single ?_ inductionHypothesis
        rw [UInt16.toNat_ofNat', Nat.mod_eq_of_lt small]
      case neg =>
        rw [if_neg small]
        refine .pair ?_ ?_ ?_ inductionHypothesis
        · rw [isHigh_iff, UInt16.toNat_ofNat']
          omega
        · rw [isLow_iff, UInt16.toNat_ofNat']
          omega
        · rw [UInt16.toNat_ofNat', UInt16.toNat_ofNat']
          omega

/-- There is one way to spell a text. -/
theorem Spells.eq_units
    {units : List UInt16}
    {text : List Char}
    (spells : Spells units text) :
    units = Text.units text := by
  induction spells with
  | nil => rfl
  | @single unit char units text code _ inductionHypothesis =>
      have small : char.toNat < 0x10000 := code ▸ unit.toNat_lt
      rw [inductionHypothesis, Text.units, Text.units, List.flatMap_cons, unitsOfChar,
        if_pos small, code, UInt16.ofNat_toNat, List.singleton_append]
  | @pair high low char units text first second code _ inductionHypothesis =>
      rw [isHigh_iff] at first
      rw [isLow_iff] at second
      have large : ¬ char.toNat < 0x10000 := by omega
      have sameHigh : UInt16.ofNat (0xD800 + (char.toNat - 0x10000) / 0x400) = high := by
        apply UInt16.toNat_inj.mp
        rw [UInt16.toNat_ofNat']
        omega
      have sameLow : UInt16.ofNat (0xDC00 + (char.toNat - 0x10000) % 0x400) = low := by
        apply UInt16.toNat_inj.mp
        rw [UInt16.toNat_ofNat']
        omega
      rw [inductionHypothesis, Text.units, Text.units, List.flatMap_cons, unitsOfChar,
        if_neg large]
      simp only [sameHigh, sameLow, List.cons_append, List.nil_append]

/-! ### Pairs -/

section Pairs

variable {unit high low : UInt16}
variable {rest : List UInt16}

theorem paired_nil : Paired [] where
  followed _ _ found := by cases found
  preceded _ _ found := by cases found

/-- A unit that is no surrogate is not part of a pair. -/
theorem paired_cons_iff
    (notHigh : isHigh unit = false)
    (notLow : isLow unit = false) :
    Paired (unit :: rest) ↔ Paired rest := by
  constructor
  · rintro ⟨followed, preceded⟩
    refine ⟨fun index high found => followed (index + 1) high found, ?_⟩
    intro index low found isSecond
    obtain ⟨before, high, same, behind, isFirst⟩ := preceded (index + 1) low found isSecond
    cases Nat.succ.inj same
    cases index with
    | zero =>
        cases behind
        rw [notHigh] at isFirst
        cases isFirst
    | succ before => exact ⟨before, high, rfl, behind, isFirst⟩
  · rintro ⟨followed, preceded⟩
    constructor
    · intro index high found isFirst
      cases index with
      | zero =>
          cases found
          rw [notHigh] at isFirst
          cases isFirst
      | succ index => exact followed index high found isFirst
    · intro index low found isSecond
      cases index with
      | zero =>
          cases found
          rw [notLow] at isSecond
          cases isSecond
      | succ index =>
          obtain ⟨before, high, rfl, behind, isFirst⟩ := preceded index low found isSecond
          exact ⟨before + 1, high, rfl, behind, isFirst⟩

/-- A pair at the front does not pair with what comes behind it. -/
theorem paired_pair_iff
    (first : isHigh high = true)
    (second : isLow low = true) :
    Paired (high :: low :: rest) ↔ Paired rest := by
  constructor
  · rintro ⟨followed, preceded⟩
    refine ⟨fun index other found => followed (index + 2) other found, ?_⟩
    intro index other found isSecond
    obtain ⟨before, unit, same, behind, isFirst⟩ := preceded (index + 2) other found isSecond
    cases Nat.succ.inj same
    cases index with
    | zero =>
        cases behind
        rw [isHigh_of_isLow second] at isFirst
        cases isFirst
    | succ before => exact ⟨before, unit, rfl, behind, isFirst⟩
  · rintro ⟨followed, preceded⟩
    constructor
    · intro index other found isFirst
      match index with
      | 0 => exact ⟨low, rfl, second⟩
      | 1 =>
          cases found
          rw [isHigh_of_isLow second] at isFirst
          cases isFirst
      | index + 2 => exact followed index other found isFirst
    · intro index other found isSecond
      match index with
      | 0 =>
          cases found
          rw [isLow_of_isHigh first] at isSecond
          cases isSecond
      | 1 => exact ⟨0, high, rfl, rfl, first⟩
      | index + 2 =>
          obtain ⟨before, unit, rfl, behind, isFirst⟩ := preceded index other found isSecond
          exact ⟨before + 2, unit, rfl, behind, isFirst⟩

theorem not_paired_of_high
    (first : isHigh high = true)
    (alone : ∀ next ∈ rest.head?, isLow next = false) :
    ¬ Paired (high :: rest) := by
  intro paired
  obtain ⟨next, behind, second⟩ := paired.followed 0 high rfl first
  rw [List.getElem?_cons_succ, ← List.head?_eq_getElem?] at behind
  rw [alone next behind] at second
  cases second

theorem not_paired_of_low (second : isLow low = true) : ¬ Paired (low :: rest) := by
  intro paired
  obtain ⟨before, high, impossible, -⟩ := paired.preceded 0 low rfl second
  cases impossible

end Pairs

/-- Code units are text exactly if every surrogate is part of a pair. -/
theorem exists_spells_iff_paired (units : List UInt16) :
    (∃ text, Spells units text) ↔ Paired units := by
  constructor
  · rintro ⟨text, spells⟩
    induction spells with
    | nil => exact paired_nil
    | single code _ inductionHypothesis =>
        obtain ⟨notHigh, notLow⟩ := not_surrogate_of_code code
        exact (paired_cons_iff notHigh notLow).mpr inductionHypothesis
    | pair first second _ _ inductionHypothesis =>
        exact (paired_pair_iff first second).mpr inductionHypothesis
  · intro paired
    induction parts units with
    | nil => exact ⟨[], .nil⟩
    | @single unit rest notHigh notLow _ inductionHypothesis =>
        obtain ⟨text, spells⟩ := inductionHypothesis ((paired_cons_iff notHigh notLow).mp paired)
        exact ⟨Char.ofNat unit.toNat :: text,
          .single (toNat_ofNat_of_plain notHigh notLow) spells⟩
    | @pair high low rest first second _ inductionHypothesis =>
        obtain ⟨text, spells⟩ := inductionHypothesis ((paired_pair_iff first second).mp paired)
        exact ⟨pairChar high low :: text,
          .pair first second (toNat_pairChar first second) spells⟩
    | high first alone => exact absurd paired (not_paired_of_high first alone)
    | low second => exact absurd paired (not_paired_of_low second)

end Text
end GuardedHeap
