import GuardedHeap.Proofs.Text.Surrogates
import GuardedHeap.Text.Encoding

/-!
# Groups of bytes

Bytes stand for code units in groups of one, two or three. The high bits of the first byte say
how long the group is, all others continue it, and the bits that are left make the code unit.

Decoding goes from group to group. Bytes have code units exactly if they are groups one behind
the other, and there is only one way to take them apart.
-/

namespace GuardedHeap
namespace Text

/-- A group of bytes, by the bits that these hold beside those that make them a group. -/
inductive Group
  | one (bits : Fin 0x80)
  | two (high : Fin 0x20) (low : Fin 0x40)
  | three (high : Fin 0x10) (middle low : Fin 0x40)
  deriving DecidableEq

namespace Group

/-- The bytes of a group. The first is below 0x80, from 0xC0 to 0xDF or from 0xE0 to 0xEF, and
those behind it are from 0x80 to 0xBF. -/
def bytes : Group → List UInt8
  | .one bits => [UInt8.ofNat bits]
  | .two high low => [UInt8.ofNat (0xC0 + high), UInt8.ofNat (0x80 + low)]
  | .three high middle low =>
      [UInt8.ofNat (0xE0 + high), UInt8.ofNat (0x80 + middle), UInt8.ofNat (0x80 + low)]

/-- The code unit of a group. -/
def unit : Group → UInt16
  | .one bits => UInt16.ofNat bits
  | .two high low => UInt16.ofNat (high * 0x40 + low)
  | .three high middle low => UInt16.ofNat (high * 0x1000 + middle * 0x40 + low)

end Group

section Bytes

/-- Bytes below 0x80 stand for themselves. -/
theorem lead_ofByte_one {byte : UInt8} (small : byte.toNat < 0x80) : Lead.ofByte byte = .one := by
  have below : byte < 0x80 := UInt8.lt_iff_toNat_lt.mpr small
  rw [Lead.ofByte, if_pos below]

theorem lead_ofByte_two
    {high : Nat}
    (small : high < 0x20) :
    Lead.ofByte (UInt8.ofNat (0xC0 + high)) = .two := by
  have exact : (UInt8.ofNat (0xC0 + high)).toNat = 0xC0 + high := by
    rw [UInt8.toNat_ofNat']
    omega
  simp only [Lead.ofByte, UInt8.lt_iff_toNat_lt, exact, UInt8.reduceToNat]
  rw [if_neg (by omega), if_neg (by omega), if_pos (by omega)]

theorem lead_ofByte_three
    {high : Nat}
    (small : high < 0x10) :
    Lead.ofByte (UInt8.ofNat (0xE0 + high)) = .three := by
  have exact : (UInt8.ofNat (0xE0 + high)).toNat = 0xE0 + high := by
    rw [UInt8.toNat_ofNat']
    omega
  simp only [Lead.ofByte, UInt8.lt_iff_toNat_lt, exact, UInt8.reduceToNat]
  rw [if_neg (by omega), if_neg (by omega), if_neg (by omega), if_pos (by omega)]

/-- How many bytes a first byte announces depends on the range that it is in. -/
inductive Announces (lead : UInt8) : Lead → Prop
  | one (below : lead.toNat < 0x80) : Announces lead .one
  | two (least : 0xC0 ≤ lead.toNat) (below : lead.toNat < 0xE0) : Announces lead .two
  | three (least : 0xE0 ≤ lead.toNat) (below : lead.toNat < 0xF0) : Announces lead .three
  | invalid : Announces lead .invalid

theorem announces (lead : UInt8) : Announces lead (Lead.ofByte lead) := by
  simp only [Lead.ofByte, UInt8.lt_iff_toNat_lt, UInt8.reduceToNat]
  split
  case isTrue below => exact .one below
  case isFalse =>
    split
    case isTrue => exact .invalid
    case isFalse least =>
      split
      case isTrue below => exact .two (Nat.le_of_not_lt least) below
      case isFalse least =>
        split
        case isTrue below => exact .three (Nat.le_of_not_lt least) below
        case isFalse => exact .invalid

theorem isContinuation_iff (byte : UInt8) :
    isContinuation byte = true ↔ 0x80 ≤ byte.toNat ∧ byte.toNat < 0xC0 := by
  simp only [isContinuation, Bool.and_eq_true, decide_eq_true_eq, UInt8.le_iff_toNat_le,
    UInt8.lt_iff_toNat_lt, UInt8.reduceToNat]

theorem toNat_continuing (bits : Fin 0x40) : (UInt8.ofNat (0x80 + bits)).toNat = 0x80 + bits := by
  rw [UInt8.toNat_ofNat']
  omega

theorem isContinuation_continuing (bits : Fin 0x40) :
    isContinuation (UInt8.ofNat (0x80 + bits)) = true := by
  rw [isContinuation_iff, toNat_continuing]
  omega

end Bytes

/-- A group at the front is decoded to its code unit, whatever comes behind it. -/
theorem decodeBytesOnto_group
    (index : Nat)
    (done : List UInt16)
    (group : Group)
    (rest : List UInt8) :
    decodeBytesOnto index done (group.bytes ++ rest) =
      decodeBytesOnto (index + group.bytes.length) (group.unit :: done) rest := by
  cases group with
  | one bits =>
      have exact : (UInt8.ofNat bits).toNat = bits := by
        rw [UInt8.toNat_ofNat']
        omega
      have lead : Lead.ofByte (UInt8.ofNat bits) = .one := lead_ofByte_one (by omega)
      rw [Group.bytes, Group.unit, List.singleton_append, decodeBytesOnto.eq_def]
      simp only [lead, exact, List.length_cons, List.length_nil, Nat.zero_add]
  | two high low =>
      have lead : Lead.ofByte (UInt8.ofNat (0xC0 + high)) = .two := lead_ofByte_two high.isLt
      have unit : unitOfTwo (UInt8.ofNat (0xC0 + high)) (UInt8.ofNat (0x80 + low)) =
          UInt16.ofNat (high * 0x40 + low) := by
        rw [unitOfTwo, toNat_continuing, UInt8.toNat_ofNat']
        exact congrArg UInt16.ofNat (by omega)
      rw [Group.bytes, Group.unit, List.cons_append, List.singleton_append,
        decodeBytesOnto.eq_def]
      simp only [lead, isContinuation_continuing, if_true, unit, List.length_cons,
        List.length_nil, Nat.zero_add]
  | three high middle low =>
      have lead : Lead.ofByte (UInt8.ofNat (0xE0 + high)) = .three := lead_ofByte_three high.isLt
      have unit : unitOfThree (UInt8.ofNat (0xE0 + high)) (UInt8.ofNat (0x80 + middle))
          (UInt8.ofNat (0x80 + low)) =
          UInt16.ofNat (high * 0x1000 + middle * 0x40 + low) := by
        rw [unitOfThree, toNat_continuing, toNat_continuing, UInt8.toNat_ofNat']
        exact congrArg UInt16.ofNat (by omega)
      rw [Group.bytes, Group.unit, List.cons_append, List.cons_append, List.singleton_append,
        decodeBytesOnto.eq_def]
      simp only [lead, isContinuation_continuing, if_true, unit, List.length_cons,
        List.length_nil, Nat.zero_add]

/-- Groups one behind the other are decoded to their code units. -/
theorem decodeBytesOnto_groups
    (index : Nat)
    (done : List UInt16)
    (groups : List Group) :
    decodeBytesOnto index done (groups.flatMap Group.bytes) =
      .ok ((groups.map Group.unit).reverse ++ done) := by
  induction groups generalizing index done with
  | nil => rfl
  | cons group groups inductionHypothesis =>
      rw [List.flatMap_cons, decodeBytesOnto_group, inductionHypothesis, List.map_cons,
        List.reverse_cons, List.append_assoc, List.singleton_append]

section Inversion

variable {lead second third : UInt8}

/-- A byte that stands for itself is a group. -/
theorem exists_group_of_one (found : Lead.ofByte lead = .one) :
    ∃ group : Group, group.bytes = [lead] ∧ group.unit = UInt16.ofNat lead.toNat := by
  have announced := announces lead
  rw [found] at announced
  obtain ⟨below⟩ := announced
  refine ⟨.one ⟨lead.toNat, below⟩, ?_, rfl⟩
  rw [Group.bytes, UInt8.ofNat_toNat]

theorem ofNat_continuation (continues : isContinuation second = true) :
    UInt8.ofNat (0x80 + second.toNat % 0x40) = second := by
  obtain ⟨least, below⟩ := (isContinuation_iff second).mp continues
  apply UInt8.toNat_inj.mp
  rw [UInt8.toNat_ofNat']
  omega

/-- Two bytes of which the first announces the second are a group. -/
theorem exists_group_of_two
    (found : Lead.ofByte lead = .two)
    (continues : isContinuation second = true) :
    ∃ group : Group, group.bytes = [lead, second] ∧ group.unit = unitOfTwo lead second := by
  have announced := announces lead
  rw [found] at announced
  obtain ⟨-⟩ | ⟨least, below⟩ := announced
  have leading : UInt8.ofNat (0xC0 + lead.toNat % 0x20) = lead := by
    apply UInt8.toNat_inj.mp
    rw [UInt8.toNat_ofNat']
    omega
  refine ⟨.two ⟨lead.toNat % 0x20, by omega⟩ ⟨second.toNat % 0x40, by omega⟩, ?_, rfl⟩
  rw [Group.bytes, leading, ofNat_continuation continues]

/-- Three bytes of which the first announces the others are a group. -/
theorem exists_group_of_three
    (found : Lead.ofByte lead = .three)
    (continues : isContinuation second = true)
    (ends : isContinuation third = true) :
    ∃ group : Group, group.bytes = [lead, second, third] ∧
      group.unit = unitOfThree lead second third := by
  have announced := announces lead
  rw [found] at announced
  obtain ⟨-⟩ | ⟨-⟩ | ⟨least, below⟩ := announced
  have leading : UInt8.ofNat (0xE0 + lead.toNat % 0x10) = lead := by
    apply UInt8.toNat_inj.mp
    rw [UInt8.toNat_ofNat']
    omega
  refine ⟨.three ⟨lead.toNat % 0x10, by omega⟩ ⟨second.toNat % 0x40, by omega⟩
    ⟨third.toNat % 0x40, by omega⟩, ?_, rfl⟩
  rw [Group.bytes, leading, ofNat_continuation continues, ofNat_continuation ends]

/-- A group in front of groups. -/
theorem exists_groups_cons
    {front rest : List UInt8}
    {done units : List UInt16}
    {unit : UInt16}
    (first : ∃ group : Group, group.bytes = front ∧ group.unit = unit)
    (others : ∃ groups : List Group, groups.flatMap Group.bytes = rest ∧
      units = (groups.map Group.unit).reverse ++ unit :: done) :
    ∃ groups : List Group, groups.flatMap Group.bytes = front ++ rest ∧
      units = (groups.map Group.unit).reverse ++ done := by
  obtain ⟨group, rfl, rfl⟩ := first
  obtain ⟨groups, rfl, rfl⟩ := others
  refine ⟨group :: groups, List.flatMap_cons, ?_⟩
  rw [List.map_cons, List.reverse_cons, List.append_assoc, List.singleton_append]

/-- What is decoded to code units are groups one behind the other. -/
theorem exists_groups_of_decodeBytesOnto
    {index : Nat}
    {done units : List UInt16}
    {bytes : List UInt8}
    (decoded : decodeBytesOnto index done bytes = .ok units) :
    ∃ groups : List Group, groups.flatMap Group.bytes = bytes ∧
      units = (groups.map Group.unit).reverse ++ done := by
  fun_induction decodeBytesOnto index done bytes with
  | case1 =>
      cases decoded
      exact ⟨[], rfl, rfl⟩
  | case2 index done lead rest found inductionHypothesis =>
      exact exists_groups_cons (exists_group_of_one found) (inductionHypothesis decoded)
  | case4 index done lead second rest found continues inductionHypothesis =>
      exact exists_groups_cons (exists_group_of_two found continues) (inductionHypothesis decoded)
  | case9 index done lead second third rest found continues ends inductionHypothesis =>
      exact exists_groups_cons (exists_group_of_three found continues ends)
        (inductionHypothesis decoded)
  | _ => cases decoded

end Inversion

/-- Bytes have code units exactly if they are groups that have these code units. -/
theorem decodeBytes_eq_ok_iff (bytes : List UInt8) (units : List UInt16) :
    decodeBytes bytes = .ok units ↔
      ∃ groups : List Group, groups.flatMap Group.bytes = bytes ∧
        groups.map Group.unit = units := by
  unfold decodeBytes
  constructor
  · intro decoded
    cases answer : decodeBytesOnto 0 [] bytes with
    | error error =>
        rw [answer] at decoded
        cases decoded
    | ok found =>
        obtain ⟨groups, split, rfl⟩ := exists_groups_of_decodeBytesOnto answer
        rw [answer] at decoded
        cases decoded
        refine ⟨groups, split, ?_⟩
        rw [List.append_nil, List.reverse_reverse]
  · rintro ⟨groups, rfl, rfl⟩
    rw [decodeBytesOnto_groups, List.append_nil]
    exact congrArg Except.ok (List.reverse_reverse _)

namespace Group

theorem bytes_ne_nil (group : Group) : group.bytes ≠ [] := by
  cases group <;> exact List.cons_ne_nil _ _

/-- A group ends where its first byte says, so bytes begin with one group at most. -/
theorem eq_of_bytes_append
    {first second : Group}
    {rest others : List UInt8}
    (same : first.bytes ++ rest = second.bytes ++ others) :
    first = second ∧ rest = others := by
  -- Groups of two lengths differ in the first byte, others in the byte that has other bits.
  cases first <;> cases second <;>
    simp only [bytes, List.cons_append, List.nil_append, List.cons.injEq, ← UInt8.toNat_inj,
      UInt8.toNat_ofNat', one.injEq, two.injEq, three.injEq, reduceCtorEq, false_and,
      Fin.ext_iff] at same ⊢ <;>
    grind

/-- There is one way to take bytes apart into groups. -/
theorem flatMap_bytes_injective
    {first second : List Group}
    (same : first.flatMap bytes = second.flatMap bytes) :
    first = second := by
  induction first generalizing second with
  | nil =>
      cases second with
      | nil => rfl
      | cons group others =>
          rw [List.flatMap_nil, List.flatMap_cons] at same
          exact absurd (List.append_eq_nil_iff.mp same.symm).1 group.bytes_ne_nil
  | cons group groups inductionHypothesis =>
      cases second with
      | nil =>
          rw [List.flatMap_nil, List.flatMap_cons] at same
          exact absurd (List.append_eq_nil_iff.mp same).1 group.bytes_ne_nil
      | cons other others =>
          rw [List.flatMap_cons, List.flatMap_cons] at same
          obtain ⟨rfl, behind⟩ := eq_of_bytes_append same
          rw [inductionHypothesis behind]

end Group

/-- Bytes are decoded to a text exactly if they are groups whose code units spell it. -/
theorem decode_eq_ok_iff (bytes : List UInt8) (text : List Char) :
    decode bytes = .ok text ↔
      ∃ groups : List Group, groups.flatMap Group.bytes = bytes ∧
        Spells (groups.map Group.unit) text := by
  unfold decode
  constructor
  · intro decoded
    cases answer : decodeBytes bytes with
    | error error =>
        rw [answer] at decoded
        cases decoded
    | ok units =>
        obtain ⟨groups, split, rfl⟩ := (decodeBytes_eq_ok_iff _ _).mp answer
        refine ⟨groups, split, (ofUnits?_eq_some_iff _ _).mp ?_⟩
        rw [answer] at decoded
        dsimp only at decoded
        cases found : ofUnits? (groups.map Group.unit) with
        | none =>
            rw [found] at decoded
            cases decoded
        | some other =>
            rw [found] at decoded
            cases decoded
            rfl
  · rintro ⟨groups, split, spells⟩
    rw [(decodeBytes_eq_ok_iff _ _).mpr ⟨groups, split, rfl⟩]
    dsimp only
    rw [(ofUnits?_eq_some_iff _ _).mpr spells]

end Text
end GuardedHeap
