import GuardedHeap.Proofs.Access.Transfers
import GuardedHeap.Proofs.Memory.Confined
import GuardedHeap.Proofs.Overflow.Cursors

/-!
# Positions of cursors

A cursor stands in its block, at most at its end, whatever was asked of it before, what was
refused included, and whatever happened to memory in between. So the distance to the end is a
difference that is not negative, and no move overflows. Where a cursor stands after a request
that succeeds can be said beforehand as a number: as many bytes further as the value has, or
where the distance of the move leads to, or as far towards the end as it should. After one that
is refused it stands where it stood, and memory is as it was, unless text was written, which is
written in several steps.
-/

namespace GuardedHeap

/-- The count of bytes of a value when it is written. -/
def Datum.width : Datum → Nat
  | .uint8 _ | .int8 _ | .bool _ => 1
  | .uint16 _ | .int16 _ | .codeUnit _ => 2
  | .uint32 _ | .int32 _ | .float32 _ => 4
  | .uint64 _ | .int64 _ | .float64 _ => 8
  | .bytes value => value.length
  | .units text => 2 * (Text.units text).length
  | .counted text => 2 + Text.totalLength text

theorem Datum.length_flatten_of_pieces
    {datum : Datum}
    {pieces : List (List UInt8)}
    (coded : datum.pieces = .ok pieces) :
    pieces.flatten.length = datum.width := by
  rw [← encoded_of_pieces coded]
  cases datum with
  | bytes value => rw [encoded_bytes, width]
  | units text => rw [length_encoded_units, width]
  | counted text => rw [length_encoded_counted (fits_of_pieces coded), width]
  | _ => exact length_encoded_of_number rfl

namespace Word

variable {word target : UInt64}
variable {distance : Int64}

/-- A signed distance is no longer than a word says. -/
theorem toNat_ofNat_natAbs (distance : Int64) :
    (UInt64.ofNat distance.toInt.natAbs).toNat = distance.toInt.natAbs := by
  have := distance.le_toInt
  have := distance.toInt_lt
  exact UInt64.toNat_ofNat_of_lt' (by unfold UInt64.size; omega)

/-- A word that was moved by a signed distance is the exact sum. -/
theorem toNat_of_shift?_eq_some (moved : shift? word distance = some target) :
    (target.toNat : Int) = word.toNat + distance.toInt := by
  have length_eq := toNat_ofNat_natAbs distance
  unfold shift? at moved
  split at moved
  · have := toNat_of_sub?_eq_some moved
    omega
  · have := toNat_of_add?_eq_some moved
    omega

/-- A word is not moved to where no word is. -/
theorem outside_of_shift?_eq_none (refused : shift? word distance = none) :
    (word.toNat : Int) + distance.toInt < 0 ∨
      0x10000000000000000 ≤ (word.toNat : Int) + distance.toInt := by
  have length_eq := toNat_ofNat_natAbs distance
  unfold shift? at refused
  split at refused
  · unfold sub? at refused
    split at refused
    · cases refused
    · omega
  · unfold add? UInt64.size at refused
    split at refused
    · cases refused
    · omega

end Word

namespace Cursor

/-- Whether text is written, which takes several steps. -/
def Request.WritesText : Request → Prop
  | .write (.units _) | .write (.counted _) => True
  | _ => False

/-- Where a cursor of a block stands after a request that succeeds, as an exact number. -/
def Request.target (block : Block) (offset : UInt64) (memory : Memory) : Request → Int
  | .write datum => offset.toNat + datum.width
  | .read type => offset.toNat + type.lengthAt memory (block.address.add offset)
  | .setOffset target => target.toNat
  | .shift distance => offset.toNat + distance.toInt
  | .skip count => offset.toNat + min count.toNat (block.size.toNat - offset.toNat)

/-- The ways in which something ends that leads a cursor to a target: the cursor is there, or it
is refused. Either way the cursor stands in its block. What is whole leaves everything as it was
when it is refused. -/
inductive Lands
    {α : Type}
    (block : Block)
    (offset : UInt64)
    (memory : Memory)
    (target : Int)
    (whole : Prop) :
    EStateM.Result (Failure AccessError) (Cursor × Memory) α → Prop
  | done
      {value : α}
      {moved : UInt64}
      {after : Memory}
      (exact : (moved.toNat : Int) = target)
      (standing : moved.toNat ≤ block.size.toNat) :
      Lands block offset memory target whole (.ok value (⟨block, moved⟩, after))
  | refused
      {error : AccessError}
      {moved : UInt64}
      {after : Memory}
      (standing : moved.toNat ≤ block.size.toNat)
      (unchanged : whole → moved = offset ∧ after = memory) :
      Lands block offset memory target whole
        (.error (.refused error) (⟨block, moved⟩, after))

section Landing

variable {α β : Type}
variable {block : Block}
variable {offset count : UInt64}
variable {memory : Memory}
variable {target : Int}
variable {whole : Prop}
variable {computation : CursorM α}

/-- A value may be changed on the way. -/
theorem Lands.map
    (lands : Lands block offset memory target whole (computation (⟨block, offset⟩, memory)))
    (change : α → β) :
    Lands block offset memory target whole
      ((do pure (change (← computation)) : CursorM β) (⟨block, offset⟩, memory)) := by
  generalize ended : computation (⟨block, offset⟩, memory) = result at lands
  cases lands with
  | done exact standing =>
      rw [Fallible.bind_of_ok ended]
      exact .done exact standing
  | refused standing unchanged =>
      rw [Fallible.bind_of_error ended]
      exact .refused standing unchanged

/-- What is whole is so in part. -/
theorem Lands.weaken
    {part : Prop}
    {result : EStateM.Result (Failure AccessError) (Cursor × Memory) α}
    (lands : Lands block offset memory target whole result)
    (weaker : part → whole) :
    Lands block offset memory target part result := by
  cases lands with
  | done exact standing => exact .done exact standing
  | refused standing unchanged => exact .refused standing fun isPart => unchanged (weaker isPart)

/-- Of what is not whole it does not matter where it started. -/
theorem Lands.later
    {offset' : UInt64}
    {memory' : Memory}
    {result : EStateM.Result (Failure AccessError) (Cursor × Memory) α}
    (lands : Lands block offset memory target whole result) :
    Lands block offset' memory' target False result := by
  cases lands with
  | done exact standing => exact .done exact standing
  | refused standing unchanged => exact .refused standing False.elim

/-- What is done in several steps leads on from where the first one ended, and is not whole. -/
theorem Lands.bind
    {next : α → CursorM β}
    {last : Int}
    (lands : Lands block offset memory target whole (computation (⟨block, offset⟩, memory)))
    (following : ∀ value moved after, (moved.toNat : Int) = target →
      moved.toNat ≤ block.size.toNat →
        Lands block moved after last False (next value (⟨block, moved⟩, after))) :
    Lands block offset memory last False
      ((computation >>= next) (⟨block, offset⟩, memory)) := by
  generalize ended : computation (⟨block, offset⟩, memory) = result at lands
  cases lands with
  | done exact standing =>
      rw [Fallible.bind_of_ok ended]
      exact (following _ _ _ exact standing).later
  | refused standing unchanged =>
      rw [Fallible.bind_of_error ended]
      exact .refused standing False.elim

end Landing

/-! ### Requests -/

section Requests

variable {block : Block}
variable {offset count : UInt64}
variable {memory : Memory}
variable (standing : offset.toNat ≤ block.size.toNat)

include standing

theorem lands_setOffset (target : UInt64) :
    Lands block offset memory target.toNat True
      (setOffset target (⟨block, offset⟩, memory)) := by
  rw [setOffset, Fallible.bind_of_ok (current_apply _)]
  dsimp only
  split
  · exact .refused standing fun _ => ⟨rfl, rfl⟩
  · rename_i within
    exact .done rfl (UInt64.le_iff_toNat_le.mp (UInt64.not_lt.mp within))

theorem lands_shift (distance : Int64) :
    Lands block offset memory (offset.toNat + distance.toInt) True
      (shift distance (⟨block, offset⟩, memory)) := by
  rw [shift, Fallible.bind_of_ok (current_apply _)]
  dsimp only
  cases moved : Word.shift? offset distance with
  | none => exact .refused standing fun _ => ⟨rfl, rfl⟩
  | some target =>
      rw [← Word.toNat_of_shift?_eq_some moved]
      exact lands_setOffset standing target

/-- Skipping goes as far as it should, at most to the end of the block. -/
theorem skip_of_standing (count : UInt64) :
    ∃ skipped, skip count (⟨block, offset⟩, memory) =
        .ok skipped (⟨block, offset + skipped⟩, memory) ∧
      skipped.toNat = min count.toNat (block.size.toNat - offset.toNat) ∧
      (offset + skipped).toNat = offset.toNat + skipped.toNat := by
  have left := UInt64.toNat_sub_of_le _ _ (UInt64.le_iff_toNat_le.mpr standing)
  have skipped_eq : (min count (block.size - offset)).toNat =
      min count.toNat (block.size.toNat - offset.toNat) := by
    rw [← left, Nat.min_def, Std.min_eq_if]
    split <;> rename_i ordered
    · rw [if_pos (UInt64.le_iff_toNat_le.mp ordered)]
    · rw [if_neg fun less => ordered (UInt64.le_iff_toNat_le.mpr less)]
  have room : offset.toNat + (min count (block.size - offset)).toNat ≤ block.size.toNat := by
    omega
  have moves : advance (min count (block.size - offset)) (⟨block, offset⟩, memory) = _ :=
    advance_of_fits (Nat.lt_of_le_of_lt room block.size.toNat_lt)
  refine ⟨_, ?_, skipped_eq, toNat_add_of_room room⟩
  rw [skip, Fallible.bind_of_ok (available_of_le standing), Fallible.bind_of_ok moves]
  rfl

theorem lands_readBytes :
    Lands block offset memory (offset.toNat + count.toNat) True
      (readBytes count (⟨block, offset⟩, memory)) := by
  have outcome : ReadOutcome block offset count memory _ := readBytes_outcome standing
  generalize readBytes count (⟨block, offset⟩, memory) = result at outcome
  cases outcome with
  | noRoom full => exact .refused standing fun _ => ⟨rfl, rfl⟩
  | untouchable refused => exact .refused standing fun _ => ⟨rfl, rfl⟩
  | transferred bytes room =>
      have moved := toNat_add_of_room room
      exact .done (by rw [moved]; rfl) (by rwa [moved])

theorem lands_readNumber :
    Lands block offset memory (offset.toNat + count.toNat) True
      (readNumber count (⟨block, offset⟩, memory)) :=
  (lands_readBytes standing).map _

/-- What is read is what memory has where the cursor stands, in whatever block. -/
theorem bytes_of_readBytes
    {bytes : List UInt8}
    {after : Cursor × Memory}
    (reads : readBytes count (⟨block, offset⟩, memory) = .ok bytes after) :
    bytes = memory.read (block.address.add offset) count.toNat := by
  by_cases full : block.size.toNat < offset.toNat + count.toNat
  case pos =>
    rw [readBytes, Fallible.bind_of_error (ensure_of_full standing full)] at reads
    cases reads
  case neg =>
    rw [readBytes, Fallible.bind_of_ok (ensure_of_room (Nat.le_of_not_lt full)),
      Fallible.bind_of_ok (current_apply _)] at reads
    obtain ⟨found, middle, looked, rest⟩ := Fallible.ok_of_bind reads
    obtain ⟨_, _, _, rest⟩ := Fallible.ok_of_bind rest
    cases rest
    cases located : block.locateRange offset count with
    | error error =>
        simp only [onMemory, Block.read, Fallible.query, Block.bytesAt, located, Except.map]
          at looked
        cases looked
    | ok start? =>
        rw [onMemory_of_ok (Block.read_of_locateRange located memory)] at looked
        cases looked
        rfl

/-- Counted text takes its count and as many bytes as the count says. -/
theorem lands_readEncoded :
    Lands block offset memory
      (offset.toNat + DatumType.counted.lengthAt memory (block.address.add offset)) False
      (readEncoded (⟨block, offset⟩, memory)) := by
  cases counted : readNumber 2 (⟨block, offset⟩, memory) with
  | error failure middle =>
      obtain ⟨error, rfl, rfl⟩ :=
        refused_of_readBytes standing (Fallible.error_of_bind_pure counted)
      rw [readEncoded, Fallible.bind_of_error counted]
      exact .refused standing False.elim
  | ok length middle =>
      obtain ⟨bytes, reads, rfl⟩ := Fallible.ok_of_bind_pure counted
      have stored := bytes_of_readBytes standing reads
      obtain ⟨rfl, room⟩ := moves_of_readBytes standing reads
      have moved : ((offset + 2).toNat : Int) = offset.toNat + 2 := by
        have lands := @lands_readBytes block offset 2 memory standing
        rw [reads] at lands
        cases lands with
        | done exact _ => exact exact
      have small : Word.ofBigEndian bytes < 0x10000 := by
        have bounded := Word.ofBigEndian_lt bytes
        have two : bytes.length = 2 := by rw [stored, Memory.length_read]; rfl
        rwa [two] at bounded
      have exact : (UInt64.ofNat (Word.ofBigEndian bytes)).toNat = Word.ofBigEndian bytes :=
        UInt64.toNat_ofNat_of_lt' (by unfold UInt64.size; omega)
      rw [readEncoded, Fallible.bind_of_ok counted]
      apply ((lands_readBytes room).bind _).later
      intro body last after landed within
      cases Text.decode body with
      | error error => exact .refused within False.elim
      | ok text =>
          refine .done ?_ within
          rw [landed, exact, moved, DatumType.lengthAt, stored, Int.add_assoc]
          rfl

theorem lands_readCounted :
    Lands block offset memory
      (offset.toNat + DatumType.counted.lengthAt memory (block.address.add offset)) True
      (readCounted (⟨block, offset⟩, memory)) := by
  have lands := @lands_readEncoded block offset memory standing
  cases encoded : readEncoded (⟨block, offset⟩, memory) with
  | ok text middle =>
      rw [encoded] at lands
      have read : readCounted (⟨block, offset⟩, memory) = .ok text middle := by
        show (Fallible.attempt readEncoded >>= _) (⟨block, offset⟩, memory) = _
        rw [Fallible.bind_of_ok (Fallible.attempt_of_ok encoded)]
        rfl
      rw [read]
      cases lands with
      | done exact standing => exact .done exact standing
  | error failure middle =>
      obtain ⟨error, moved, rfl, rfl⟩ := refused_of_readEncoded standing encoded
      rw [readCounted_of_refused encoded]
      exact .refused standing fun _ => ⟨rfl, rfl⟩

theorem lands_read_of_number
    {type : DatumType}
    (change : Nat → Datum)
    (width : count.toNat = type.lengthAt memory (block.address.add offset)) :
    Lands block offset memory
      (offset.toNat + type.lengthAt memory (block.address.add offset)) True
      ((do pure (change (← readNumber count)) : CursorM Datum) (⟨block, offset⟩, memory)) := by
  rw [← width]
  exact (lands_readNumber standing).map change

theorem lands_read (type : DatumType) :
    Lands block offset memory
      (offset.toNat + type.lengthAt memory (block.address.add offset)) True
      (read type (⟨block, offset⟩, memory)) := by
  cases type with
  | bytes count => exact (lands_readBytes standing).map _
  | counted => exact (lands_readCounted standing).map _
  | _ => exact lands_read_of_number standing _ (by rfl)

theorem lands_writeBytes
    {bytes : List UInt8}
    (isWord : bytes.length < UInt64.size) :
    Lands block offset memory (offset.toNat + bytes.length) True
      (writeBytes bytes (⟨block, offset⟩, memory)) := by
  have exact : (UInt64.ofNat bytes.length).toNat = bytes.length :=
    UInt64.toNat_ofNat_of_lt' isWord
  have outcome : WriteOutcome block offset bytes memory _ := writeBytes_outcome standing isWord
  generalize writeBytes bytes (⟨block, offset⟩, memory) = result at outcome
  cases outcome with
  | noRoom full => exact .refused standing fun _ => ⟨rfl, rfl⟩
  | untouchable room refused => exact .refused standing fun _ => ⟨rfl, rfl⟩
  | transferred room located =>
      have moved : (offset + UInt64.ofNat bytes.length).toNat = offset.toNat + bytes.length :=
        Word.toNat_add_ofNat (Nat.lt_of_le_of_lt room block.size.toNat_lt)
      exact .done (by rw [moved]; rfl) (by rwa [moved])

/-- Portions are written one behind the other, until one is refused. -/
theorem lands_writePieces
    {pieces : List (List UInt8)}
    (areWords : ∀ piece ∈ pieces, piece.length < UInt64.size) :
    Lands block offset memory (offset.toNat + pieces.flatten.length) False
      (Output.writePieces pieces (⟨block, offset⟩, memory)) := by
  induction pieces generalizing offset memory with
  | nil => exact .done rfl standing
  | cons piece pieces inductionHypothesis =>
      apply (lands_writeBytes standing (areWords piece (.head _))).bind
      intro _ moved after landed within
      have rest := @inductionHypothesis moved after within fun other present =>
        areWords other (.tail _ present)
      rw [landed] at rest
      rw [List.flatten_cons, List.length_append, Int.natCast_add, ← Int.add_assoc]
      exact rest

/-- A value of a single portion is written as a whole. -/
theorem lands_write_of_portion
    {datum : Datum}
    {portion : List UInt8}
    (coded : datum.pieces = .ok [portion])
    (isWord : portion.length < UInt64.size) :
    Lands block offset memory (offset.toNat + datum.width) True
      (Output.write datum (⟨block, offset⟩, memory)) := by
  have length_eq : portion.length = datum.width := by
    rw [← Datum.length_flatten_of_pieces coded, List.flatten_cons, List.flatten_nil,
      List.append_nil]
  rw [Output.write, coded, Fallible.bind_of_ok (Fallible.ofCheck_ok _ _), ← length_eq]
  exact (lands_writeBytes standing isWord).map fun _ => ()

theorem lands_write_of_number
    {datum : Datum}
    {width value : Nat}
    (coded : datum.pieces = Datum.number width value)
    (isWord : width < UInt64.size) :
    Lands block offset memory (offset.toNat + datum.width) True
      (Output.write datum (⟨block, offset⟩, memory)) :=
  lands_write_of_portion standing coded (by rwa [Word.length_bigEndian])

theorem lands_writeUnits (text : List Char) :
    Lands block offset memory (offset.toNat + (Datum.units text).width) False
      (Output.write (.units text) (⟨block, offset⟩, memory)) := by
  have coded : (Datum.units text).pieces =
      .ok ((Text.units text).map fun unit => Word.bigEndian 2 unit.toNat) := rfl
  rw [Output.write, coded, Fallible.bind_of_ok (Fallible.ofCheck_ok _ _),
    ← Datum.length_flatten_of_pieces coded]
  apply lands_writePieces standing
  intro piece present
  obtain ⟨unit, -, rfl⟩ := List.mem_map.mp present
  rw [Word.length_bigEndian]
  decide

theorem lands_writeCounted (text : List Char) :
    Lands block offset memory (offset.toNat + (Datum.counted text).width) False
      (writeCounted text (⟨block, offset⟩, memory)) := by
  unfold writeCounted
  cases encoded : Text.encode text with
  | error error => exact .refused standing False.elim
  | ok body =>
      have coded : (Datum.counted text).pieces = .ok [Word.bigEndian 2 body.length, body] := by
        rw [Datum.pieces, encoded]
      have short : body.length ≤ Text.largestLength := Text.length_of_encode encoded
      have isWord : 2 + body.length < UInt64.size := by
        unfold Text.largestLength at short
        unfold UInt64.size
        omega
      have areWords : ∀ piece ∈ [Word.bigEndian 2 body.length, body],
          piece.length < UInt64.size := by
        simp only [List.mem_cons, List.not_mem_nil, or_false, forall_eq_or_imp, forall_eq,
          Word.length_bigEndian]
        omega
      have same : (Output.writePieces [Word.bigEndian 2 body.length, body] : CursorM Unit) =
          (writeBytes (Word.bigEndian 2 body.length) >>= fun _ => writeBytes body) := by
        simp only [Output.writePieces, bind_pure_unit]
        rfl
      dsimp only
      rw [Word.ofNat?, if_pos isWord, Fallible.bind_of_ok (Fallible.exactly_some _ _), ← same,
        ← Datum.length_flatten_of_pieces coded]
      by_cases full : block.size.toNat < offset.toNat + (UInt64.ofNat (2 + body.length)).toNat
      · rw [Fallible.bind_of_error (ensure_of_full standing full)]
        exact .refused standing False.elim
      · rw [Fallible.bind_of_ok (ensure_of_room (Nat.le_of_not_lt full))]
        exact lands_writePieces standing areWords

/-- A value is written as a whole, or is text, or is refused. -/
theorem lands_write
    {datum : Datum}
    (sized : (Request.write datum).Sized) :
    Lands block offset memory (offset.toNat + datum.width) (¬ (Request.write datum).WritesText)
      (write datum (⟨block, offset⟩, memory)) := by
  cases datum with
  | bytes value => exact (lands_write_of_portion standing rfl sized).weaken fun _ => trivial
  | units text => exact (lands_writeUnits standing text).weaken fun whole => whole trivial
  | counted text => exact (lands_writeCounted standing text).weaken fun whole => whole trivial
  | _ => exact (lands_write_of_number standing rfl (by decide)).weaken fun _ => trivial

/-- Every request leads to its target or is refused. -/
theorem Request.lands
    {request : Request}
    (sized : request.Sized) :
    Lands block offset memory (request.target block offset memory) (¬ request.WritesText)
      (request.run (⟨block, offset⟩, memory)) := by
  cases request with
  | write datum => exact lands_write standing sized
  | read type => exact ((lands_read standing type).map _).weaken fun _ => trivial
  | setOffset target => exact (lands_setOffset standing target).weaken fun _ => trivial
  | shift distance => exact (lands_shift standing distance).weaken fun _ => trivial
  | skip count =>
      obtain ⟨skipped, skips, exact, moved⟩ := @skip_of_standing block offset memory standing count
      rw [Request.run, Fallible.bind_of_ok skips]
      refine .done ?_ ?_
      · rw [moved, exact, Request.target]
        rfl
      · omega

end Requests

/-! ### Runs -/

/-- The states of a cursor and of memory that a client meets. The cursor starts where the block
does. The client goes on after requests that were refused, and between requests anything may
happen to memory. -/
inductive Reached (block : Block) : Cursor × Memory → Prop
  | start (memory : Memory) : Reached block (Cursor.start block, memory)
  | asked
      {state : Cursor × Memory}
      {request : Request}
      (reached : Reached block state)
      (sized : request.Sized) :
      Reached block (Fallible.final request.run state)
  | disturbed
      {state : Cursor × Memory}
      (reached : Reached block state)
      (memory : Memory) :
      Reached block (state.1, memory)

/-- What can be said of a cursor beforehand. It stands in its block. The count of bytes behind it
is the exact difference, and no request overflows. A request that succeeds leads to its target;
skipping always succeeds and tells how far it went, and shifting succeeds exactly if it leads
to a place in the block. What fails changes nothing, unless it writes text. -/
structure Precise (block : Block) (state : Cursor × Memory) : Prop where
  block_eq : state.1.block = block
  offset_le : state.1.offset.toNat ≤ block.size.toNat
  available : ∃ left, available state = .ok left state ∧
    left.toNat + state.1.offset.toNat = block.size.toNat
  isWord : ∀ (request : Request) after, request.Sized →
    request.run state ≠ .error .overflow after
  lands : ∀ (request : Request) after, request.Sized → request.run state = .ok () after →
    after.1.block = block ∧
      (after.1.offset.toNat : Int) = request.target block state.1.offset state.2
  skips : ∀ count, ∃ skipped after, skip count state = .ok skipped after ∧
    skipped.toNat = min count.toNat (block.size.toNat - state.1.offset.toNat)
  shifts_iff : ∀ distance, (∃ after, shift distance state = .ok () after) ↔
    0 ≤ (state.1.offset.toNat : Int) + distance.toInt ∧
      (state.1.offset.toNat : Int) + distance.toInt ≤ block.size.toNat
  unchanged : ∀ (request : Request) failure after, request.Sized → ¬ request.WritesText →
    request.run state = .error failure after → after = state

section Runs

variable {block : Block}
variable {offset : UInt64}
variable {memory : Memory}
variable {state : Cursor × Memory}

/-- A cursor stands in its block after every request. -/
theorem stands_final
    {request : Request}
    (stands : Stands block state)
    (sized : request.Sized) :
    Stands block (Fallible.final request.run state) := by
  obtain ⟨⟨block, offset⟩, memory⟩ := state
  obtain ⟨rfl, standing⟩ := stands
  have lands := @Request.lands _ _ memory standing request sized
  unfold Fallible.final
  generalize request.run (⟨block, offset⟩, memory) = result at lands
  cases lands with
  | done exact standing => exact ⟨rfl, standing⟩
  | refused standing unchanged => exact ⟨rfl, standing⟩

theorem Reached.stands (reached : Reached block state) : Stands block state := by
  induction reached with
  | start memory => exact standsIn_start block
  | asked _ sized inductionHypothesis => exact stands_final inductionHypothesis sized
  | disturbed _ memory inductionHypothesis => exact inductionHypothesis

/-- Shifting succeeds exactly if it leads to a place in the block. -/
theorem shifts_iff
    (standing : offset.toNat ≤ block.size.toNat)
    (distance : Int64) :
    (∃ after, shift distance (⟨block, offset⟩, memory) = .ok () after) ↔
      0 ≤ (offset.toNat : Int) + distance.toInt ∧
        (offset.toNat : Int) + distance.toInt ≤ block.size.toNat := by
  constructor
  · rintro ⟨after, shifts⟩
    have lands := @lands_shift _ _ memory standing distance
    rw [shifts] at lands
    cases lands with
    | done exact standing => omega
  · rintro ⟨notBefore, notBehind⟩
    have := block.size.toNat_lt
    cases moved : Word.shift? offset distance with
    | none =>
        have := Word.outside_of_shift?_eq_none moved
        omega
    | some target =>
        have exact := Word.toNat_of_shift?_eq_some moved
        have within : ¬ block.size < target := by
          rw [UInt64.lt_iff_toNat_lt]
          omega
        refine ⟨(⟨block, target⟩, memory), ?_⟩
        rw [shift, Fallible.bind_of_ok (current_apply _)]
        dsimp only
        rw [moved]
        dsimp only
        rw [setOffset, Fallible.bind_of_ok (current_apply _)]
        dsimp only
        rw [if_neg within]
        rfl

/-- Wherever a cursor was led by any requests, failed ones included, and whatever happened to
memory, it stands in its block, no request overflows, one that succeeds leads exactly to its
target, and one that is refused changes nothing, unless it writes text. -/
theorem positions_exact (reached : Reached block state) : Precise block state := by
  have stands := reached.stands
  obtain ⟨⟨block, offset⟩, memory⟩ := state
  obtain ⟨rfl, standing⟩ := stands
  have standing : offset.toNat ≤ block.size.toNat := standing
  have left := UInt64.toNat_sub_of_le _ _ (UInt64.le_iff_toNat_le.mpr standing)
  refine ⟨rfl, standing, ⟨_, available_of_le standing, ?_⟩, fun request after sized overflows => ?_,
    fun request after sized succeeds => ?_, fun count => ?_, shifts_iff standing,
    fun request failure after sized whole fails => ?_⟩
  · rw [left]
    exact Nat.sub_add_cancel standing
  · have lands := @Request.lands _ _ memory standing request sized
    rw [overflows] at lands
    cases lands
  · have lands := @Request.lands _ _ memory standing request sized
    rw [succeeds] at lands
    cases lands with
    | done exact standing => exact ⟨rfl, exact⟩
  · obtain ⟨skipped, skips, exact, -⟩ := @skip_of_standing block offset memory standing count
    exact ⟨skipped, _, skips, exact⟩
  · have lands := @Request.lands _ _ memory standing request sized
    rw [fails] at lands
    cases lands with
    | refused standing unchanged =>
        obtain ⟨rfl, rfl⟩ := unchanged whole
        rfl

/-- A cursor close to the end of a view that is as long as the address space and lies for the most
part behind its root: eight bytes are refused there, and skipping them leads to the end. -/
theorem positions_exact_of_long_view :
    let block : Block := .view ⟨⟨⟨0x1000⟩, 16⟩, false, none⟩ ⟨⟨0x1000⟩, 0xFFFFFFFFFFFFFFFF⟩
    let state := Fallible.final (Request.setOffset 0xFFFFFFFFFFFFFFFA).run (start block, .zero)
    Reached block state ∧ Precise block state ∧ state.1.offset = 0xFFFFFFFFFFFFFFFA ∧
      (∃ skipped after, skip 8 state = .ok skipped after ∧ skipped.toNat = 5) ∧
      ¬ ∃ after, shift 6 state = .ok () after := by
  intro block state
  have reached : Reached block state := .asked (.start .zero) trivial
  have precise : Precise block state := positions_exact reached
  have offset_eq : state.1.offset = 0xFFFFFFFFFFFFFFFA := rfl
  refine ⟨reached, precise, offset_eq, ?_, ?_⟩
  · obtain ⟨skipped, after, skips, exact⟩ := precise.skips 8
    rw [offset_eq] at exact
    exact ⟨skipped, after, skips, exact.trans (by decide)⟩
  · rw [precise.shifts_iff, offset_eq]
    decide

end Runs

end Cursor
end GuardedHeap
