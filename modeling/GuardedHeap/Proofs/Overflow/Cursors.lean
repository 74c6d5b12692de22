import GuardedHeap.Proofs.Access.Framed
import GuardedHeap.Proofs.Access.Outcome
import GuardedHeap.Proofs.Overflow.Steady

/-!
# No overflow at cursors

A cursor never leaves its block: it stands at an offset that is at most the size, so the
count of bytes behind it can be subtracted, and it moves over no more bytes than these. The
lengths that are added up for text are at most twice those of the text as it is held, which
are signed words.
-/

namespace GuardedHeap

open Fallible (Steady steady_pure steady_refuse steady_ofCheck steady_exactly steady_get
  steady_modify)

namespace Word

theorem total_append (left right : List Nat) :
    total (left ++ right) = total left + total right := by
  induction left with
  | nil => exact (Nat.zero_add _).symm
  | cons number numbers inductionHypothesis =>
      rw [List.cons_append, total_cons, total_cons, inductionHypothesis, Nat.add_assoc]

end Word

namespace Text

/-- The count of bytes of text as it is held, one to four for each character. -/
def heldLength (text : List Char) : Nat :=
  Word.total (text.map Char.utf8Size)

/-- A character has no more units than bytes, and its encoding at most twice as many bytes. -/
theorem unitsOfChar_le (char : Char) :
    (unitsOfChar char).length ≤ char.utf8Size ∧
      Word.total ((unitsOfChar char).map unitLength) ≤ 2 * char.utf8Size := by
  by_cases firstPlane : char.toNat < 0x10000
  · have units_eq : unitsOfChar char = [UInt16.ofNat char.toNat] := if_pos firstPlane
    have held := char.utf8Size_pos
    rw [units_eq, List.length_singleton, List.map_singleton, Word.total_cons, Word.total_nil]
    refine ⟨held, ?_⟩
    by_cases short : char.toNat < 0x800
    · have small : UInt16.ofNat char.toNat < 0x800 := by
        rw [UInt16.lt_iff_toNat_lt, UInt16.toNat_ofNat_of_lt' firstPlane]
        exact short
      have := unitLength_le_two small
      omega
    · have several : char.utf8Size ≠ 1 := by
        intro one
        have ascii : char.toNat ≤ 0x7F :=
          UInt32.le_iff_toNat_le.mp (Char.utf8Size_eq_one_iff.mp one)
        omega
      have := unitLength_le (UInt16.ofNat char.toNat)
      omega
  · obtain ⟨high, low, units_eq⟩ : ∃ high low, unitsOfChar char = [high, low] :=
      ⟨_, _, if_neg firstPlane⟩
    have beyond : 0xFFFF < char.toNat := by omega
    have four := Char.utf8Size_eq_four_iff.mpr (UInt32.lt_iff_toNat_lt.mpr beyond)
    have := unitLength_le high
    have := unitLength_le low
    rw [units_eq, four]
    simp only [List.length_cons, List.length_nil, List.map_cons, List.map_nil,
      Word.total_cons, Word.total_nil]
    omega

theorem units_cons (char : Char) (text : List Char) :
    units (char :: text) = unitsOfChar char ++ units text := rfl

theorem le_of_encodedLength
    {text : List Char}
    {length : Nat}
    (counted : encodedLength text = .ok length) :
    length ≤ largestLength := by
  unfold encodedLength at counted
  split at counted
  · rename_i fits
    cases counted
    exact fits
  · cases counted

theorem length_units_le (text : List Char) : (units text).length ≤ heldLength text := by
  induction text with
  | nil => exact Nat.le_refl _
  | cons char text inductionHypothesis =>
      have := (unitsOfChar_le char).1
      rw [units_cons, List.length_append, heldLength, List.map_cons, Word.total_cons]
      exact Nat.add_le_add this inductionHypothesis

theorem totalLength_le (text : List Char) : totalLength text ≤ 2 * heldLength text := by
  induction text with
  | nil => exact Nat.le_refl _
  | cons char text inductionHypothesis =>
      have := (unitsOfChar_le char).2
      rw [totalLength, units_cons, List.map_append, Word.total_append, heldLength,
        List.map_cons, Word.total_cons, Nat.mul_add]
      exact Nat.add_le_add this inductionHypothesis

end Text

namespace Datum

/-- A byte string or a text that a program can hold: its length is a signed word. -/
def Sized : Datum → Prop
  | .bytes value => value.length ≤ 0x7FFFFFFFFFFFFFFF
  | .units text => Text.heldLength text ≤ 0x7FFFFFFFFFFFFFFF
  | .counted text => Text.heldLength text ≤ 0x7FFFFFFFFFFFFFFF
  | _ => True

/-- The sum that is made before it is known whether a value can be written, if it is a word:
that of the encoded units of counted text. -/
def sum? : Datum → Option UInt64
  | .counted text => Word.ofNat? (Text.totalLength text)
  | _ => some 0

theorem Sized.exists_sum
    {datum : Datum}
    (sized : datum.Sized) :
    ∃ sum, datum.sum? = some sum := by
  cases datum with
  | counted text =>
      have isWord : Text.totalLength text < 0x10000000000000000 := by
        have held : Text.heldLength text ≤ 0x7FFFFFFFFFFFFFFF := sized
        have := Text.totalLength_le text
        omega
      exact ⟨_, if_pos isWord⟩
  | _ => exact ⟨0, rfl⟩

/-- Every portion of a value is counted by a word. -/
theorem Sized.length_of_mem
    {datum : Datum}
    {pieces : List (List UInt8)}
    (sized : datum.Sized)
    (written : datum.pieces = .ok pieces)
    {piece : List UInt8}
    (present : piece ∈ pieces) :
    piece.length < 0x10000000000000000 := by
  cases datum with
  | bytes value =>
      cases written
      rw [List.mem_singleton.mp present]
      exact Nat.lt_of_le_of_lt sized (by decide)
  | units text =>
      cases written
      obtain ⟨unit, _, rfl⟩ := List.mem_map.mp present
      rw [Word.length_bigEndian]
      decide
  | counted text =>
      simp only [Datum.pieces] at written
      cases encoded : Text.encode text with
      | error error =>
          rw [encoded] at written
          cases written
      | ok body =>
          rw [encoded] at written
          cases written
          have short := Text.length_of_encode encoded
          rcases List.mem_cons.mp present with rfl | present
          · rw [Word.length_bigEndian]
            decide
          · rw [List.mem_singleton.mp present]
            exact Nat.lt_of_le_of_lt short (by decide)
  | _ =>
      cases written
      rw [List.mem_singleton.mp present, Word.length_bigEndian]
      decide

end Datum

namespace Output

variable {σ : Type} [Output σ]
variable {invariant : σ → Prop}

/-- An output that accepts portions without overflow accepts values without overflow. -/
theorem steady_write
    (portion : ∀ bytes : List UInt8, bytes.length < 0x10000000000000000 →
      Steady invariant (fun _ => True) (writeBytes (σ := σ) bytes))
    {datum : Datum}
    (sized : datum.Sized) :
    Steady invariant (fun _ => True) (write (σ := σ) datum) := by
  apply (steady_ofCheck _).bind
  intro pieces written
  have areWords : ∀ piece ∈ pieces, piece.length < 0x10000000000000000 :=
    fun piece present => sized.length_of_mem written present
  clear written
  induction pieces with
  | nil => exact steady_pure trivial
  | cons piece pieces inductionHypothesis =>
      apply (portion piece (areWords piece (.head _))).bind
      exact fun _ _ => inductionHypothesis fun other present => areWords other (.tail _ present)

end Output

namespace Cursor

/-- A cursor stands in a block, at most at its end. -/
structure StandsIn (block : Block) (cursor : Cursor) : Prop where
  block_eq : cursor.block = block
  offset_le : cursor.offset.toNat ≤ block.size.toNat

theorem standsIn_start (block : Block) : StandsIn block (start block) :=
  ⟨rfl, Nat.zero_le _⟩

variable {block : Block}

/-- The cursor of a state stands in a block. -/
abbrev Stands (block : Block) (state : Cursor × Memory) : Prop :=
  StandsIn block state.1

theorem steady_current :
    Steady (Stands block) (StandsIn block) current :=
  steady_get.bind fun _ stands => steady_pure stands

theorem steady_moveTo
    {offset : UInt64}
    (standing : offset.toNat ≤ block.size.toNat) :
    Steady (Stands block) (fun _ => True) (moveTo offset) :=
  steady_modify fun _ stands => ⟨stands.block_eq, standing⟩

theorem steady_available :
    Steady (Stands block) (fun _ => True) available := by
  apply steady_current.bind
  intro cursor stands
  have ordered : cursor.offset.toNat ≤ cursor.block.size.toNat := by
    rw [stands.block_eq]
    exact stands.offset_le
  exact (steady_exactly (if_pos ordered)).weaken fun _ _ => trivial

theorem steady_setOffset (offset : UInt64) :
    Steady (Stands block) (fun _ => True) (setOffset offset) := by
  apply steady_current.bind
  intro cursor stands
  dsimp only
  split
  · exact steady_refuse
  · rename_i within
    rw [stands.block_eq] at within
    exact steady_moveTo (UInt64.le_iff_toNat_le.mp (UInt64.not_lt.mp within))

theorem steady_shift (distance : Int64) :
    Steady (Stands block) (fun _ => True) (shift distance) := by
  apply steady_current.bind
  intro cursor _
  split
  · exact steady_refuse
  · exact steady_setOffset _

/-- Skipping stops at the end of the block. -/
theorem steady_skip (count : UInt64) :
    Steady (Stands block) (fun _ => True) (skip count) := by
  rintro ⟨⟨block, offset⟩, memory⟩ ⟨rfl, standing⟩
  have standing : offset.toNat ≤ block.size.toNat := standing
  have left := UInt64.toNat_sub_of_le _ _ (UInt64.le_iff_toNat_le.mpr standing)
  have room : offset.toNat + (min count (block.size - offset)).toNat ≤ block.size.toNat := by
    have := UInt64.le_iff_toNat_le.mp (Std.min_le_right : min count (block.size - offset) ≤ _)
    omega
  have moves : advance (min count (block.size - offset)) (⟨block, offset⟩, memory) = _ :=
    advance_of_fits (Nat.lt_of_le_of_lt room block.size.toNat_lt)
  rw [skip, Fallible.bind_of_ok (available_of_le standing), Fallible.bind_of_ok moves]
  refine .value ⟨rfl, ?_⟩ trivial
  rw [toNat_add_of_room room]
  exact room

theorem steady_ensure (needed : UInt64) :
    Steady (Stands block) (fun _ => True) (ensure needed) := by
  apply steady_available.bind
  intro left _
  split
  · exact steady_refuse
  · exact steady_pure trivial

theorem steady_readBytes (count : UInt64) :
    Steady (Stands block) (fun _ => True) (readBytes count) := by
  rintro ⟨⟨block, offset⟩, memory⟩ ⟨rfl, standing⟩
  have standing : offset.toNat ≤ block.size.toNat := standing
  have outcome : ReadOutcome block offset count memory _ := readBytes_outcome standing
  generalize readBytes count (⟨block, offset⟩, memory) = result at outcome
  cases outcome with
  | noRoom full => exact .refused ⟨rfl, standing⟩
  | untouchable refused => exact .refused ⟨rfl, standing⟩
  | transferred bytes room =>
      refine .value ⟨rfl, ?_⟩ trivial
      rw [toNat_add_of_room room]
      exact room

theorem steady_readNumber (width : UInt64) :
    Steady (Stands block) (fun _ => True) (readNumber width) :=
  (steady_readBytes width).map _

theorem steady_readCounted :
    Steady (Stands block) (fun _ => True) readCounted := by
  apply steady_current.bind
  intro cursor stands
  refine Steady.bind (Steady.attempt (?body : Steady _ (fun _ => True) _)) ?rest
  case body =>
    apply (steady_readNumber 2).bind
    intro length _
    apply (steady_readBytes _).bind
    intro bytes _
    cases Text.decode bytes with
    | error error => exact steady_refuse
    | ok text => exact steady_pure trivial
  case rest =>
    intro result _
    cases result with
    | ok text => exact steady_pure trivial
    | error error => exact (steady_moveTo stands.offset_le).bind fun _ _ => steady_refuse

theorem steady_read (type : DatumType) :
    Steady (Stands block) (fun _ => True) (read type) := by
  cases type with
  | bytes count => exact (steady_readBytes count).map _
  | counted => exact steady_readCounted.map _
  | _ => exact (steady_readNumber _).map _

theorem steady_writeBytes
    {bytes : List UInt8}
    (isWord : bytes.length < 0x10000000000000000) :
    Steady (Stands block) (fun _ => True) (writeBytes bytes) := by
  rintro ⟨⟨block, offset⟩, memory⟩ ⟨rfl, standing⟩
  have standing : offset.toNat ≤ block.size.toNat := standing
  have outcome : WriteOutcome block offset bytes memory _ := writeBytes_outcome standing isWord
  generalize writeBytes bytes (⟨block, offset⟩, memory) = result at outcome
  cases outcome with
  | noRoom full => exact .refused ⟨rfl, standing⟩
  | untouchable room refused => exact .refused ⟨rfl, standing⟩
  | transferred room located =>
      have exact : (UInt64.ofNat bytes.length).toNat = bytes.length :=
        UInt64.toNat_ofNat_of_lt' isWord
      rw [← exact] at room
      refine .value ⟨rfl, ?_⟩ trivial
      rw [toNat_add_of_room room]
      exact room

/-- The count of encoded bytes and the two bytes before them is a word. -/
theorem steady_writeCounted (text : List Char) :
    Steady (Stands block) (fun _ => True) (writeCounted text) := by
  unfold writeCounted
  cases encoded : Text.encode text with
  | error error => exact steady_refuse
  | ok body =>
      have short : body.length ≤ 0xFFFF := Text.length_of_encode encoded
      have counted : 2 + body.length < 0x10000000000000000 := by omega
      have count : (Word.bigEndian 2 body.length).length < 0x10000000000000000 := by
        rw [Word.length_bigEndian]
        decide
      apply (steady_exactly (if_pos counted)).bind
      intro needed _
      apply (steady_ensure needed).bind
      intro _ _
      apply (steady_writeBytes count).bind
      exact fun _ _ => steady_writeBytes (by omega)

theorem steady_write
    {datum : Datum}
    (sized : datum.Sized) :
    Steady (Stands block) (fun _ => True) (write datum) := by
  have plain : Steady (Stands block) (fun _ => True) (Output.write datum) :=
    Output.steady_write (fun _ isWord => steady_writeBytes isWord) sized
  cases datum with
  | counted text => exact steady_writeCounted text
  | _ => exact plain

end Cursor

namespace Measure

theorem steady_add (count : UInt64) :
    Steady (fun _ => True) (fun _ => True) (add count) :=
  steady_modify fun _ holds => holds

/-- The size of a value is a word before it is added. -/
theorem steady_write
    {datum : Datum}
    (sized : datum.Sized) :
    Steady (fun _ => True) (fun _ => True) (write datum) := by
  have plain : Steady (fun _ => True) (fun _ => True) (Output.write datum) :=
    Output.steady_write (σ := Measure)
      (fun _ isWord => (steady_exactly (if_pos isWord)).bind fun count _ => steady_add count) sized
  cases datum with
  | int8 | int16 | int32 | int64 | bytes => exact plain
  | units text =>
      have isWord : 2 * (Text.units text).length < 0x10000000000000000 := by
        have held : Text.heldLength text ≤ 0x7FFFFFFFFFFFFFFF := sized
        have := Text.length_units_le text
        omega
      exact (steady_exactly (if_pos isWord)).bind fun count _ => steady_add count
  | counted text =>
      simp only [write, Datum.carrier]
      cases counted : Text.encodedLength text with
      | error error => exact steady_refuse
      | ok length =>
          have isWord : 2 + length < 0x10000000000000000 := by
            have short : length ≤ 0xFFFF := Text.le_of_encodedLength counted
            omega
          exact (steady_exactly (if_pos isWord)).bind fun count _ => steady_add count
  | _ => exact steady_add _

end Measure
end GuardedHeap
