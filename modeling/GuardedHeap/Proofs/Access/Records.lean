import GuardedHeap.Proofs.Access.Gets

/-!
# Records

A record is a list of values. Its size is what a measure says; in a block with exactly that
size a cursor writes all values, and another one reads them back and stands after each of
them where the first one did. In a smaller block one of the values is refused at the end.
-/

namespace GuardedHeap

/-- Write values in turn until one is refused. -/
def Output.writeEach
    {σ : Type}
    (write : Datum → Fallible AccessError σ Unit) :
    List Datum → Fallible AccessError σ Unit
  | [] => pure ()
  | datum :: data => do
      write datum
      writeEach write data

/-- Read values of some types in turn until one is refused. -/
def Cursor.readEach : List DatumType → CursorM (List Datum)
  | [] => pure []
  | type :: types => do
      let datum ← read type
      let data ← readEach types
      pure (datum :: data)

namespace Datum

/-- The values as which a value is read back: text without a count is read back unit by
unit. -/
def readings : Datum → List Datum
  | .units text => (Text.units text).map .codeUnit
  | datum => [datum]

/-- What is read back has the bytes of what was written. -/
theorem allEncoded_readings (datum : Datum) : allEncoded datum.readings = datum.encoded := by
  cases datum with
  | units text =>
      have single : ∀ unit, (codeUnit unit).encoded = Word.bigEndian 2 unit.toNat :=
        fun _ => encoded_of_number rfl
      calc allEncoded ((Text.units text).map codeUnit)
        _ = (Text.units text).flatMap fun unit => (codeUnit unit).encoded := List.flatMap_map ..
        _ = (Text.units text).flatMap fun unit => Word.bigEndian 2 unit.toNat := by
            simp only [single]
        _ = (units text).encoded := List.flatMap_def ..
  | _ => exact List.append_nil _

/-- Reading back a record gives the readings of its values. -/
theorem allEncoded_flatMap_readings (data : List Datum) :
    allEncoded (data.flatMap readings) = allEncoded data := by
  induction data with
  | nil => rfl
  | cons datum data inductionHypothesis =>
      rw [List.flatMap_cons, allEncoded_append, allEncoded_readings, inductionHypothesis,
        allEncoded_cons]

/-- What is there to be stored has pieces, and its bytes can be counted. -/
theorem Storable.exists_pieces
    {datum : Datum}
    (storable : datum.Storable) :
    (∃ pieces, datum.pieces = .ok pieces) ∧ datum.encoded.length < UInt64.size := by
  cases datum with
  | bytes value =>
      refine ⟨⟨_, rfl⟩, ?_⟩
      rw [encoded_bytes]
      exact storable
  | units text =>
      refine ⟨⟨_, rfl⟩, ?_⟩
      rw [length_encoded_units]
      exact storable
  | counted text =>
      have fits : Text.totalLength text ≤ Text.largestLength := storable
      refine ⟨⟨_, pieces_counted fits⟩, ?_⟩
      rw [length_encoded_counted fits]
      unfold Text.largestLength at fits
      unfold UInt64.size
      omega
  | _ =>
      refine ⟨⟨_, rfl⟩, ?_⟩
      rw [length_encoded_of_number rfl]
      decide

end Datum

open Output (writeEach)

variable {fields : List Datum}

/-- A measure adds the count of the bytes of a record. -/
theorem Measure.writeEach_of_storable
    (storable : ∀ field ∈ fields, field.Storable)
    (measure : Measure) :
    ∃ after, writeEach Measure.write fields measure = .ok () after ∧
      after.size.toNat =
        min (measure.size.toNat + (Datum.allEncoded fields).length) 0xFFFFFFFFFFFFFFFF := by
  induction fields generalizing measure with
  | nil =>
      have := measure.size.toNat_lt
      refine ⟨measure, rfl, ?_⟩
      rw [Datum.allEncoded_nil, List.length_nil]
      omega
  | cons field fields inductionHypothesis =>
      obtain ⟨⟨pieces, coded⟩, isWord⟩ := (storable field (.head _)).exists_pieces
      have first := write_of_pieces coded isWord measure
      obtain ⟨after, rest, size_eq⟩ := inductionHypothesis
        (fun other present => storable other (.tail _ present)) (measure.plus field.encoded.length)
      refine ⟨after, by rw [writeEach, Fallible.bind_of_ok first, rest], ?_⟩
      rw [size_eq, plus, Word.toNat_saturatingAdd, UInt64.toNat_ofNat_of_lt' isWord,
        Datum.allEncoded_cons, List.length_append]
      omega

namespace Cursor

/-- A cursor puts the bytes of a record. -/
theorem puts_writeEach (storable : ∀ field ∈ fields, field.Storable) :
    Puts (writeEach write fields) (Datum.allEncoded fields) := by
  induction fields with
  | nil => exact puts_pure
  | cons field fields inductionHypothesis =>
      obtain ⟨⟨pieces, coded⟩, isWord⟩ := (storable field (.head _)).exists_pieces
      have rest := inductionHypothesis fun other present => storable other (.tail _ present)
      exact (puts_write coded isWord).bind rest

/-- A cursor gets values that are read back one by one from their bytes. -/
theorem gets_readEach
    {data : List Datum}
    (readable : ∀ datum ∈ data, Gets (read datum.type) datum datum.encoded) :
    Gets (readEach (data.map Datum.type)) data (Datum.allEncoded data) := by
  induction data with
  | nil => exact gets_pure []
  | cons datum data inductionHypothesis =>
      have rest := inductionHypothesis fun other present => readable other (.tail _ present)
      exact (readable datum (.head _)).bind (rest.map (datum :: ·))

/-- Whatever a storable value is read back as can be got from its bytes. -/
theorem gets_read_of_mem_readings
    {datum reading : Datum}
    (storable : datum.Storable)
    (present : reading ∈ datum.readings) :
    Gets (read reading.type) reading reading.encoded := by
  cases datum with
  | units text =>
      obtain ⟨unit, _, rfl⟩ := List.mem_map.mp present
      exact gets_read trivial fun _ => nofun
  | _ =>
      obtain rfl := List.mem_singleton.mp present
      exact gets_read storable fun _ => nofun

/-- A cursor gets a record back from its bytes. -/
theorem gets_record (storable : ∀ field ∈ fields, field.Storable) :
    Gets (readEach ((fields.flatMap Datum.readings).map Datum.type))
      (fields.flatMap Datum.readings) (Datum.allEncoded fields) := by
  rw [← Datum.allEncoded_flatMap_readings]
  refine gets_readEach fun reading present => ?_
  obtain ⟨field, inFields, inReadings⟩ := List.mem_flatMap.mp present
  exact gets_read_of_mem_readings (storable field inFields) inReadings

end Cursor

namespace Record

open Cursor (readEach start)

variable {block : Block}
variable {memory : Memory}

/-- Up to some value of a record, one cursor wrote the values and another one read them back
from what was written in the end, and both stand at the same offset. -/
def InStep
    (block : Block)
    (memory written : Memory)
    (earlier : List Datum) :
    Prop :=
  ∃ offset middle,
    writeEach Cursor.write earlier (start block, memory) = .ok () (⟨block, offset⟩, middle) ∧
    readEach ((earlier.flatMap Datum.readings).map Datum.type) (start block, written) =
      .ok (earlier.flatMap Datum.readings) (⟨block, offset⟩, written)

/-- A record is written to a block, the cursor ends behind its last byte, and all values are
read back. -/
def RoundTrips
    (fields : List Datum)
    (block : Block)
    (memory : Memory)
    (total : UInt64) :
    Prop :=
  ∃ written,
    writeEach Cursor.write fields (start block, memory) = .ok () (⟨block, total⟩, written) ∧
    ∀ earlier later, fields = earlier ++ later → InStep block memory written earlier

/-- Records for which a block has room are written to it and read back. -/
theorem roundTrips_of_room
    (storable : ∀ field ∈ fields, field.Storable)
    (inside : block.Inside)
    (fits : (Datum.allEncoded fields).length ≤ block.size.toNat)
    (memory : Memory) :
    RoundTrips fields block memory (UInt64.ofNat (Datum.allEncoded fields).length) := by
  have start_eq : block.address.add 0 = block.address := Address.add_zero _
  have room : (0 : UInt64).toNat + (Datum.allEncoded fields).length ≤ block.size.toNat := by
    rwa [UInt64.toNat_zero, Nat.zero_add]
  obtain ⟨written, wrote, written_eq⟩ :=
    (Cursor.puts_writeEach storable).room block 0 memory inside room
  rw [UInt64.zero_add] at wrote
  rw [start_eq] at written_eq
  have isWord := Nat.lt_of_le_of_lt fits block.size.toNat_lt
  have holds : written.Holds block.address (Datum.allEncoded fields) :=
    Memory.holds_of_get_eq_overlay (Nat.le_of_lt isWord) written_eq
  refine ⟨written, wrote, ?_⟩
  rintro earlier later rfl
  have storableEarlier : ∀ field ∈ earlier, field.Storable :=
    fun field present => storable field (List.mem_append_left later present)
  rw [Datum.allEncoded_append, List.length_append] at room
  rw [Datum.allEncoded_append, Memory.holds_append_iff] at holds
  have roomEarlier := Nat.le_trans (Nat.le_add_right _ _) (Nat.add_assoc .. ▸ room)
  obtain ⟨middle, put, _⟩ :=
    (Cursor.puts_writeEach storableEarlier).room block 0 memory inside roomEarlier
  have got := Cursor.gets_record storableEarlier block 0 written inside roomEarlier
    (start_eq.symm ▸ holds.1)
  exact ⟨_, middle, put, got⟩

/-- A record is written to any block with the measured size and read back from it, and it is
refused at the end of any smaller block. A measure loses count of a record that has more
bytes than a word can count, but no block has room for all of these. -/
theorem records_round_trip
    (storable : ∀ field ∈ fields, field.Storable) :
    ∃ measured, writeEach Measure.write fields {} = .ok () measured ∧
      (∀ block memory, block.Inside → block.size = max 1 measured.size →
        (Datum.allEncoded fields).length < UInt64.size →
          RoundTrips fields block memory measured.size) ∧
      ∀ block memory, block.Inside → block.size < measured.size →
        ∃ needed available after, writeEach Cursor.write fields (start block, memory) =
          .error (.refused (.endOfBlock needed available)) after := by
  obtain ⟨measured, wrote, size_eq⟩ := Measure.writeEach_of_storable storable {}
  have size_eq : measured.size.toNat =
      min (Datum.allEncoded fields).length 0xFFFFFFFFFFFFFFFF := by
    rw [size_eq, show ({} : Measure).size.toNat = 0 from rfl, Nat.zero_add]
  refine ⟨measured, wrote, ?exactly, ?smaller⟩
  case exactly =>
    intro block memory inside exact isWord
    have total : measured.size.toNat = (Datum.allEncoded fields).length := by
      unfold UInt64.size at isWord
      omega
    have large : measured.size ≤ block.size := by
      rw [exact]
      show measured.size ≤ if 1 ≤ measured.size then measured.size else 1
      split
      case isTrue => exact UInt64.le_refl _
      case isFalse isEmpty => exact UInt64.le_of_lt (UInt64.not_le.mp isEmpty)
    rw [show measured.size = UInt64.ofNat (Datum.allEncoded fields).length by
      rw [← total, UInt64.ofNat_toNat]]
    refine roundTrips_of_room storable inside ?_ memory
    rw [← total]
    exact UInt64.le_iff_toNat_le.mp large
  case smaller =>
    intro block memory inside smaller
    rw [UInt64.lt_iff_toNat_lt] at smaller
    refine (Cursor.puts_writeEach storable).full block 0 memory inside (Nat.zero_le _) ?_
    rw [UInt64.toNat_zero]
    omega

/-- A flag, text of three code units, a counted text, a number and two bytes take eighteen bytes,
and no fewer. -/
theorem records_round_trip_of_short_record :
    let fields : List Datum :=
      [.bool true, .units ['a', '𝄞'], .counted ['a', 'é'], .float32 0x7FC00001, .bytes [1, 2]]
    let block : Block := .whole ⟨⟨⟨4096⟩, 18⟩, true, none⟩
    let smaller : Block := .whole ⟨⟨⟨4096⟩, 17⟩, true, none⟩
    (∀ field ∈ fields, field.Storable) ∧
      RoundTrips fields block .zero 18 ∧
      ∃ needed available after, writeEach Cursor.write fields (start smaller, .zero) =
        .error (.refused (.endOfBlock needed available)) after := by
  intro fields block smaller
  have storable : ∀ field ∈ fields, field.Storable := by
    simp only [fields, List.forall_mem_cons]
    refine ⟨trivial, ?_, ?_, trivial, ?_, List.forall_mem_nil _⟩
    all_goals
      unfold Datum.Storable
      decide +kernel
  have total : writeEach Measure.write fields {} = .ok () ⟨18⟩ := rfl
  obtain ⟨measured, wrote, exactly, refused⟩ := records_round_trip storable
  obtain rfl : (⟨18⟩ : Measure) = measured := by
    rw [total] at wrote
    injection wrote
  have isWord : (Datum.allEncoded fields).length < UInt64.size := by decide +kernel
  exact ⟨storable, exactly block .zero (Block.inside_whole (by decide)) rfl isWord,
    refused smaller .zero (Block.inside_whole (by decide)) (by decide)⟩

end Record
end GuardedHeap
