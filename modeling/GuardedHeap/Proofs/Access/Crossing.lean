import GuardedHeap.Proofs.Access.Framed
import GuardedHeap.Proofs.Access.Gets
import GuardedHeap.Proofs.Access.Puts

/-!
# Crossing the end of a block

What needs more bytes than are left behind a cursor is refused at the end of the block. The
cursor then stands where it stood, and no byte of memory has changed, also where a request
takes several steps: a counted text is read back from where it started, and is not written
before there is room for all of it.

Bare code units are the exception. They are written one by one, so those for which there is
room have been written when the next one is refused, and the cursor stands behind them.
-/

namespace GuardedHeap

/-- Bytes spell a number that has as many digits. -/
theorem Word.ofBigEndian_lt (bytes : List UInt8) :
    ofBigEndian bytes < Nat.pow 256 bytes.length := by
  have spelled := congrArg ofLittleEndian (littleEndian_ofLittleEndian bytes.reverse)
  rw [ofLittleEndian_littleEndian, List.length_reverse] at spelled
  rw [ofBigEndian, ← spelled]
  exact Nat.mod_lt _ (Nat.pow_pos (by decide))

/-- Bytes in portions of two. -/
theorem Output.length_flatten_of_two
    {portions : List (List UInt8)}
    (two : ∀ portion ∈ portions, portion.length = 2) :
    portions.flatten.length = portions.length * 2 := by
  induction portions with
  | nil => rfl
  | cons portion portions inductionHypothesis =>
      rw [List.flatten_cons, List.length_append, two portion (.head _),
        inductionHypothesis fun other present => two other (.tail _ present), List.length_cons]
      omega

theorem Output.take_flatten_of_two
    {portions : List (List UInt8)}
    (two : ∀ portion ∈ portions, portion.length = 2)
    (count : Nat) :
    portions.flatten.take (count * 2) = (portions.take count).flatten := by
  induction portions generalizing count with
  | nil => simp
  | cons portion portions inductionHypothesis =>
      cases count with
      | zero => simp
      | succ count =>
          have length_eq := two portion (.head _)
          have rest := inductionHypothesis (fun other present => two other (.tail _ present)) count
          rw [List.take_succ_cons, List.flatten_cons, List.flatten_cons, List.take_append,
            length_eq, ← rest, List.take_of_length_le (by omega)]
          congr 2
          omega

/-- Portions are written like the first ones and then the others. -/
theorem Output.writePieces_append
    {σ : Type}
    [Output σ]
    (first second : List (List UInt8)) :
    (writePieces (first ++ second) : Fallible AccessError σ Unit) =
      writePieces first >>= fun _ => writePieces second := by
  induction first with
  | nil => exact (pure_bind _ _).symm
  | cons piece first inductionHypothesis =>
      rw [List.cons_append, writePieces, inductionHypothesis, writePieces, bind_assoc]

/-- The bytes that a value of a type takes from a place on. Counted text says itself how many
these are. -/
def DatumType.lengthAt (memory : Memory) (place : Address) : DatumType → Nat
  | .uint8 | .int8 | .bool => 1
  | .uint16 | .int16 | .codeUnit => 2
  | .uint32 | .int32 | .float32 => 4
  | .uint64 | .int64 | .float64 => 8
  | .bytes count => count.toNat
  | .counted => 2 + Word.ofBigEndian (memory.read place 2)

namespace Cursor

/-- The bytes that all of a request needs, behind the place where it starts. -/
def Request.needed (memory : Memory) (place : Address) : Request → Nat
  | .write datum => datum.encoded.length
  | .read type => type.lengthAt memory place
  | .setOffset _ => 0
  | .shift _ => 0
  | .skip _ => 0

/-- The bytes that have been put when a request crosses the end of a block, with room for so
many. -/
def Request.putBefore (room : Nat) : Request → List UInt8
  | .write (.units text) => (Datum.units text).encoded.take (room / 2 * 2)
  | _ => []

/-- The byte string that a request writes, if it writes one, has a length. -/
def Request.Sized : Request → Prop
  | .write (.bytes value) => value.length < 0x10000000000000000
  | _ => True

/-- A computation is refused at the end of the block and leaves everything as it was. -/
def AtEnd {α : Type} (computation : CursorM α) (state : Cursor × Memory) : Prop :=
  ∃ needed available, computation state = .error (.refused (.endOfBlock needed available)) state

/-- A computation puts bytes where the cursor stands, moves the cursor behind them, and is then
refused at the end of the block. -/
def EndsAfter
    (computation : CursorM Unit)
    (put : List UInt8)
    (block : Block)
    (offset : UInt64)
    (memory : Memory) : Prop :=
  ∃ needed available after, computation (⟨block, offset⟩, memory) =
      .error (.refused (.endOfBlock needed available))
        (⟨block, offset + UInt64.ofNat put.length⟩, after) ∧
    after.get = Memory.overlay memory.get (block.address.add offset) put

variable {block : Block}
variable {offset count : UInt64}
variable {memory : Memory}

/-- What leaves everything as it was has put nothing. -/
theorem AtEnd.endsAfter
    {computation : CursorM Unit}
    (atEnd : AtEnd computation (⟨block, offset⟩, memory)) :
    EndsAfter computation [] block offset memory := by
  obtain ⟨needed, available, refused⟩ := atEnd
  refine ⟨needed, available, memory, ?_, rfl⟩
  rw [List.length_nil, show UInt64.ofNat 0 = 0 from rfl, UInt64.add_zero]
  exact refused

/-- Where encoded text is refused, counted text is, and the cursor goes back. -/
theorem readCounted_of_refused
    {moved : UInt64}
    {after : Memory}
    {error : AccessError}
    (refused : readEncoded (⟨block, offset⟩, memory) =
      .error (.refused error) (⟨block, moved⟩, after)) :
    readCounted (⟨block, offset⟩, memory) = .error (.refused error) (⟨block, offset⟩, after) := by
  show (Fallible.attempt readEncoded >>= _) (⟨block, offset⟩, memory) = _
  rw [Fallible.bind_of_ok (Fallible.attempt_of_refused refused)]
  rfl

theorem AtEnd.bind
    {α β : Type}
    {computation : CursorM α}
    {state : Cursor × Memory}
    (atEnd : AtEnd computation state)
    (next : α → CursorM β) :
    AtEnd (computation >>= next) state := by
  obtain ⟨needed, available, refused⟩ := atEnd
  exact ⟨needed, available, Fallible.bind_of_error refused next⟩

/-- What is read is what memory has where the cursor stands. -/
theorem readBytes_of_room
    (inside : block.Inside)
    (fits : offset.toNat + count.toNat ≤ block.size.toNat) :
    readBytes count (⟨block, offset⟩, memory) =
      .ok (memory.read (block.address.add offset) count.toNat)
        (⟨block, offset + count⟩, memory) := by
  have advanced := Nat.lt_of_le_of_lt fits block.size.toNat_lt
  rw [readBytes, Fallible.bind_of_ok (ensure_of_room fits), Fallible.bind_of_ok (current_apply _),
    Fallible.bind_of_ok (onMemory_of_ok (inside.read fits memory)),
    Fallible.bind_of_ok (advance_of_fits advanced)]
  rfl

theorem readNumber_of_room
    (inside : block.Inside)
    (fits : offset.toNat + count.toNat ≤ block.size.toNat) :
    readNumber count (⟨block, offset⟩, memory) =
      .ok (Word.ofBigEndian (memory.read (block.address.add offset) count.toNat))
        (⟨block, offset + count⟩, memory) := by
  rw [readNumber, Fallible.bind_of_ok (readBytes_of_room inside fits)]
  rfl

section Refusals

variable (standing : offset.toNat ≤ block.size.toNat)

include standing

theorem atEnd_ensure (full : block.size.toNat < offset.toNat + count.toNat) :
    AtEnd (ensure count) (⟨block, offset⟩, memory) :=
  ⟨_, _, ensure_of_full standing full⟩

theorem atEnd_readBytes (full : block.size.toNat < offset.toNat + count.toNat) :
    AtEnd (readBytes count) (⟨block, offset⟩, memory) :=
  (atEnd_ensure standing full).bind _

theorem atEnd_readNumber (full : block.size.toNat < offset.toNat + count.toNat) :
    AtEnd (readNumber count) (⟨block, offset⟩, memory) :=
  (atEnd_readBytes standing full).bind _

theorem atEnd_writeBytes
    {bytes : List UInt8}
    (isWord : bytes.length < UInt64.size)
    (full : block.size.toNat < offset.toNat + bytes.length) :
    AtEnd (writeBytes bytes) (⟨block, offset⟩, memory) := by
  have exact : (UInt64.ofNat bytes.length).toNat = bytes.length :=
    UInt64.toNat_ofNat_of_lt' isWord
  rw [writeBytes, Word.ofNat?, if_pos isWord]
  exact (atEnd_ensure standing (exact.symm ▸ full)).bind _

/-- Counted text is refused before its count is written, if there is no room for all of it. -/
theorem atEnd_writeCounted
    {text : List Char}
    (fits : Text.totalLength text ≤ Text.largestLength)
    (full : block.size.toNat < offset.toNat + (2 + Text.totalLength text)) :
    AtEnd (writeCounted text) (⟨block, offset⟩, memory) := by
  have isWord : 2 + Text.totalLength text < UInt64.size := by
    unfold Text.largestLength at fits
    unfold UInt64.size
    omega
  have exact : (UInt64.ofNat (2 + Text.totalLength text)).toNat = 2 + Text.totalLength text :=
    UInt64.toNat_ofNat_of_lt' isWord
  rw [writeCounted, Text.encode_of_fits fits]
  dsimp only
  rw [Text.length_flatMap_encodeUnit, Word.ofNat?, if_pos isWord]
  exact (atEnd_ensure standing (exact.symm ▸ full)).bind _

/-- Encoded text after its count is refused where the count or the text crosses the end. -/
theorem readEncoded_of_full
    (inside : block.Inside)
    (full : block.size.toNat <
      offset.toNat + DatumType.counted.lengthAt memory (block.address.add offset)) :
    ∃ needed available moved, readEncoded (⟨block, offset⟩, memory) =
      .error (.refused (.endOfBlock needed available)) (⟨block, moved⟩, memory) := by
  by_cases room : offset.toNat + (2 : UInt64).toNat ≤ block.size.toNat
  case neg =>
    have crossing : AtEnd (readNumber 2) (⟨block, offset⟩, memory) :=
      atEnd_readNumber standing (Nat.lt_of_not_le room)
    obtain ⟨needed, available, refused⟩ := crossing.bind _
    exact ⟨needed, available, offset, refused⟩
  case pos =>
    let stored := memory.read (block.address.add offset) 2
    have counted : readNumber 2 (⟨block, offset⟩, memory) =
        .ok (Word.ofBigEndian stored) (⟨block, offset + 2⟩, memory) :=
      readNumber_of_room inside room
    have small : Word.ofBigEndian stored < 0x10000 := by
      have bounded := Word.ofBigEndian_lt stored
      rwa [Memory.length_read] at bounded
    have exact : (UInt64.ofNat (Word.ofBigEndian stored)).toNat = Word.ofBigEndian stored :=
      UInt64.toNat_ofNat_of_lt' (by unfold UInt64.size; omega)
    have moved : (offset + 2).toNat = offset.toNat + 2 :=
      Word.toNat_add_ofNat (Nat.lt_of_le_of_lt room block.size.toNat_lt)
    have rest : block.size.toNat <
        (offset + 2).toNat + (UInt64.ofNat (Word.ofBigEndian stored)).toNat := by
      rw [moved, exact]
      exact Nat.add_assoc .. ▸ full
    have crossing : AtEnd (readBytes (UInt64.ofNat (Word.ofBigEndian stored)))
        (⟨block, offset + 2⟩, memory) := atEnd_readBytes (moved.symm ▸ room) rest
    obtain ⟨needed, available, refused⟩ := crossing.bind _
    exact ⟨needed, available, offset + 2, (Fallible.bind_of_ok counted _).trans refused⟩

/-- Counted text is not read in part: the cursor goes back to the count. -/
theorem atEnd_readCounted
    (inside : block.Inside)
    (full : block.size.toNat <
      offset.toNat + DatumType.counted.lengthAt memory (block.address.add offset)) :
    AtEnd readCounted (⟨block, offset⟩, memory) := by
  obtain ⟨needed, available, moved, refused⟩ := readEncoded_of_full standing inside full
  exact ⟨needed, available, readCounted_of_refused refused⟩

theorem atEnd_read
    {type : DatumType}
    (inside : block.Inside)
    (full : block.size.toNat <
      offset.toNat + type.lengthAt memory (block.address.add offset)) :
    AtEnd (read type) (⟨block, offset⟩, memory) := by
  cases type with
  | bytes count => exact (atEnd_readBytes standing full).bind _
  | counted => exact (atEnd_readCounted standing inside full).bind _
  | _ =>
      refine AtEnd.bind (atEnd_readNumber standing ?_) _
      exact full

/-- A value of a single portion is refused as this portion is. -/
theorem atEnd_write_of_portion
    {datum : Datum}
    {portion : List UInt8}
    (coded : datum.pieces = .ok [portion])
    (isWord : portion.length < UInt64.size)
    (full : block.size.toNat < offset.toNat + datum.encoded.length) :
    AtEnd (Output.write datum) (⟨block, offset⟩, memory) := by
  have single : datum.encoded = portion := by
    rw [Datum.encoded_of_pieces coded, List.flatten_cons, List.flatten_nil, List.append_nil]
  rw [single] at full
  rw [Output.write, coded]
  exact (atEnd_writeBytes standing isWord full).bind _

theorem atEnd_write_of_number
    {datum : Datum}
    {width value : Nat}
    (coded : datum.pieces = Datum.number width value)
    (isWord : width < UInt64.size)
    (full : block.size.toNat < offset.toNat + datum.encoded.length) :
    AtEnd (Output.write datum) (⟨block, offset⟩, memory) :=
  atEnd_write_of_portion standing coded (by rwa [Word.length_bigEndian]) full

/-- A value is refused before any of its bytes is written, unless it consists of bare code
units. -/
theorem atEnd_write
    {datum : Datum}
    (sized : (Request.write datum).Sized)
    (single : ∀ text, datum ≠ .units text)
    (full : block.size.toNat < offset.toNat + datum.encoded.length) :
    AtEnd (write datum) (⟨block, offset⟩, memory) := by
  cases datum with
  | bytes value => exact atEnd_write_of_portion standing rfl sized full
  | units text => exact absurd rfl (single text)
  | counted text =>
      by_cases fits : Text.totalLength text ≤ Text.largestLength
      case pos =>
        rw [Datum.length_encoded_counted fits] at full
        exact atEnd_writeCounted standing fits full
      case neg =>
        rw [Datum.encoded_of_overlong ⟨rfl, Nat.lt_of_not_le fits⟩] at full
        exact absurd standing (Nat.not_le.mpr full)
  | _ => exact atEnd_write_of_number standing rfl (by decide) full

/-- Portions of two bytes each are written as long as there is room for the next one. -/
theorem writePieces_of_full
    {portions : List (List UInt8)}
    (two : ∀ portion ∈ portions, portion.length = 2)
    (inside : block.Inside)
    (full : block.size.toNat < offset.toNat + portions.flatten.length) :
    EndsAfter (Output.writePieces portions)
      (portions.flatten.take ((block.size.toNat - offset.toNat) / 2 * 2)) block offset memory := by
  have := block.size.toNat_lt
  let count := (block.size.toNat - offset.toNat) / 2
  let put := portions.flatten.take (count * 2)
  have enough : count < portions.length := by
    rw [Output.length_flatten_of_two two] at full
    omega
  have cut : put = (portions.take count).flatten := Output.take_flatten_of_two two count
  have length_eq : put.length = count * 2 := by
    rw [cut, Output.length_flatten_of_two fun portion present =>
      two portion (List.mem_of_mem_take present), List.length_take]
    omega
  have first : Puts (Output.writePieces (portions.take count)) put := by
    rw [cut]
    exact puts_writePieces (by rw [← cut, length_eq]; unfold UInt64.size; omega)
  have moved : (offset + UInt64.ofNat put.length).toNat = offset.toNat + put.length :=
    Word.toNat_add_ofNat (by omega)
  obtain ⟨after, wrote, written⟩ := first.room block offset memory inside (by omega)
  have next : portions[count].length = 2 := two _ (List.getElem_mem enough)
  have crossing : AtEnd (writeBytes portions[count])
      (⟨block, offset + UInt64.ofNat put.length⟩, after) := by
    apply atEnd_writeBytes
    · omega
    · rw [next]
      decide
    · rw [moved, next]
      omega
  obtain ⟨needed, available, refused⟩ :=
    crossing.bind fun _ => Output.writePieces (portions.drop (count + 1))
  have split : (Output.writePieces portions : CursorM Unit) =
      Output.writePieces (portions.take count) >>= fun _ =>
        Output.writePieces (portions[count] :: portions.drop (count + 1)) := by
    rw [← Output.writePieces_append, ← List.drop_eq_getElem_cons enough, List.take_append_drop]
  exact ⟨needed, available, after, by rw [split, Fallible.bind_of_ok wrote]; exact refused, written⟩

end Refusals

/-- A request that needs more bytes than are left is refused at the end of the block. The cursor
stays where it is and memory as it was, but for the bare code units for which there was room:
these have been written, and the cursor stands behind them. -/
theorem crossing_refused
    {request : Request}
    (inside : block.Inside)
    (standing : offset.toNat ≤ block.size.toNat)
    (sized : request.Sized)
    (crosses : block.size.toNat <
      offset.toNat + request.needed memory (block.address.add offset)) :
    EndsAfter request.run (request.putBefore (block.size.toNat - offset.toNat)) block offset
      memory := by
  have nothing : ¬ block.size.toNat < offset.toNat + 0 := Nat.not_lt.mpr standing
  cases request with
  | read type => exact ((atEnd_read standing inside crosses).bind _).endsAfter
  | setOffset target => exact absurd crosses nothing
  | shift distance => exact absurd crosses nothing
  | skip count => exact absurd crosses nothing
  | write datum =>
      cases datum with
      | units text =>
          have two : ∀ portion ∈ (Text.units text).map fun unit => Word.bigEndian 2 unit.toNat,
              portion.length = 2 := by
            intro portion present
            obtain ⟨unit, -, rfl⟩ := List.mem_map.mp present
            exact Word.length_bigEndian _ _
          exact writePieces_of_full standing two inside crosses
      | _ => exact (atEnd_write standing sized nofun crosses).endsAfter

/-- In a block of three bytes, a text that says to have five is not read, and of two code units
the first one is written. -/
theorem crossing_refused_of_three_bytes :
    let block : Block := .whole ⟨⟨⟨4096⟩, 3⟩, true, none⟩
    let memory := Memory.zero.write ⟨4096⟩ [0, 5, 97]
    let reading : Request := .read .counted
    let writing : Request := .write (.units ['a', 'b'])
    block.Inside ∧ reading.needed memory ⟨4096⟩ = 7 ∧ writing.needed memory ⟨4096⟩ = 4 ∧
      EndsAfter reading.run [] block 0 memory ∧ EndsAfter writing.run [0, 97] block 0 memory := by
  intro block memory reading writing
  have inside : block.Inside := Block.inside_whole (by decide)
  have toRead : reading.needed memory ⟨4096⟩ = 7 := by decide +kernel
  have toWrite : writing.needed memory ⟨4096⟩ = 4 := by decide +kernel
  have start : block.address.add 0 = ⟨4096⟩ := Address.add_zero _
  refine ⟨inside, toRead, toWrite, ?_, ?_⟩
  · show EndsAfter reading.run (reading.putBefore 3) block 0 memory
    exact crossing_refused inside (Nat.zero_le _) trivial (by rw [start, toRead]; decide)
  · have put : writing.putBefore (block.size.toNat - (0 : UInt64).toNat) = [0, 97] := by
      decide +kernel
    have ends : EndsAfter writing.run
        (writing.putBefore (block.size.toNat - (0 : UInt64).toNat)) block 0 memory :=
      crossing_refused inside (Nat.zero_le _) trivial (by rw [start, toWrite]; decide)
    rwa [put] at ends

/-- Two code units do not fit in a block of three bytes, yet the first of them has been written
when the second one is refused, and the cursor has moved. -/
theorem units_written_before_refusal :
    let block : Block := .whole ⟨⟨⟨4096⟩, 3⟩, true, none⟩
    let request : Request := .write (.units ['a', 'b'])
    block.Inside ∧ block.size.toNat < request.needed .zero block.address ∧
      ∃ after, request.run (⟨block, 0⟩, .zero) =
          .error (.refused (.endOfBlock 2 1)) (⟨block, 2⟩, after) ∧
        after.get ⟨4097⟩ ≠ Memory.zero.get ⟨4097⟩ := by
  refine ⟨Block.inside_whole (by decide), by decide +kernel, _, rfl, ?_⟩
  decide +kernel

end Cursor
end GuardedHeap
