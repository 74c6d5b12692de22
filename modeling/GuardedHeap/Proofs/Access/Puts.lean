import GuardedHeap.Access.Cursor
import GuardedHeap.Proofs.Access.Written
import GuardedHeap.Proofs.Block.Inside

/-!
# What cursors put

A computation puts bytes if it writes them where the cursor stands and moves the cursor
behind them whenever there is room in the block, and otherwise is refused at the end of the
block. What is put together from such computations puts their bytes one behind the other,
so a cursor puts the bytes of a value, and those of many values.
-/

namespace GuardedHeap
namespace Cursor

variable {block : Block}
variable {offset count : UInt64}
variable {memory : Memory}

section Steps

@[simp] theorem current_apply (state : Cursor × Memory) :
    current state = .ok state.1 state := rfl

theorem available_of_le (standing : offset.toNat ≤ block.size.toNat) :
    available (⟨block, offset⟩, memory) = .ok (block.size - offset) (⟨block, offset⟩, memory) := by
  show Fallible.exactly (Word.sub? block.size offset) _ = _
  rw [Word.sub?, if_pos standing]
  rfl

theorem ensure_of_room (fits : offset.toNat + count.toNat ≤ block.size.toNat) :
    ensure count (⟨block, offset⟩, memory) = .ok () (⟨block, offset⟩, memory) := by
  have standing : offset.toNat ≤ block.size.toNat := Nat.le_trans (Nat.le_add_right _ _) fits
  have left := UInt64.toNat_sub_of_le _ _ (UInt64.le_iff_toNat_le.mpr standing)
  have roomy : ¬ block.size - offset < count := by
    rw [UInt64.lt_iff_toNat_lt]
    omega
  rw [ensure, Fallible.bind_of_ok (available_of_le standing), if_neg roomy]
  rfl

/-- Bytes for which there is no room are refused. -/
theorem ensure_of_full
    (standing : offset.toNat ≤ block.size.toNat)
    (full : block.size.toNat < offset.toNat + count.toNat) :
    ensure count (⟨block, offset⟩, memory) =
      .error (.refused (.endOfBlock count (block.size - offset))) (⟨block, offset⟩, memory) := by
  have left := UInt64.toNat_sub_of_le _ _ (UInt64.le_iff_toNat_le.mpr standing)
  have tight : block.size - offset < count := by
    rw [UInt64.lt_iff_toNat_lt]
    omega
  rw [ensure, Fallible.bind_of_ok (available_of_le standing), if_pos tight]
  rfl

theorem advance_of_fits (fits : offset.toNat + count.toNat < UInt64.size) :
    advance count (⟨block, offset⟩, memory) = .ok () (⟨block, offset + count⟩, memory) := by
  show (Fallible.exactly (Word.add? offset count) >>= moveTo) (⟨block, offset⟩, memory) = _
  rw [Word.add?, if_pos fits]
  rfl

theorem onMemory_of_ok
    {α : Type}
    {computation : MemoryM α}
    {value : α}
    {cursor : Cursor}
    {after : Memory}
    (ended : computation memory = .ok value after) :
    onMemory computation (cursor, memory) = .ok value (cursor, after) := by
  simp only [onMemory, ended]

end Steps

/-- The computation puts bytes where the cursor stands, if there is room for them, and is
refused if there is none. -/
structure Puts (computation : CursorM Unit) (bytes : List UInt8) : Prop where
  room : ∀ block offset memory, block.Inside →
    offset.toNat + bytes.length ≤ block.size.toNat →
      ∃ after, computation (⟨block, offset⟩, memory) =
          .ok () (⟨block, offset + UInt64.ofNat bytes.length⟩, after) ∧
        after.get = Memory.overlay memory.get (block.address.add offset) bytes
  full : ∀ block offset memory, block.Inside → offset.toNat ≤ block.size.toNat →
    block.size.toNat < offset.toNat + bytes.length →
      ∃ needed available after, computation (⟨block, offset⟩, memory) =
        .error (.refused (.endOfBlock needed available)) after

variable {computation next : CursorM Unit}
variable {bytes more : List UInt8}

theorem puts_pure : Puts (pure ()) [] where
  room block offset memory _ _ := by
    refine ⟨memory, ?_, rfl⟩
    rw [List.length_nil, show UInt64.ofNat 0 = 0 from rfl, UInt64.add_zero]
    rfl
  full block offset memory _ standing full := absurd standing (Nat.not_le.mpr full)

/-- Bytes are put one behind the other. -/
theorem Puts.bind
    (puts : Puts computation bytes)
    (putsMore : Puts next more) :
    Puts (computation >>= fun _ => next) (bytes ++ more) where
  room block offset memory inside fits := by
    rw [List.length_append] at fits
    have := block.size.toNat_lt
    have moved : (offset + UInt64.ofNat bytes.length).toNat = offset.toNat + bytes.length :=
      Word.toNat_add_ofNat (by omega)
    obtain ⟨middle, first, firstWritten⟩ := puts.room block offset memory inside (by omega)
    obtain ⟨after, second, secondWritten⟩ :=
      putsMore.room block _ middle inside (by rw [moved]; omega)
    refine ⟨after, ?_, ?_⟩
    · rw [Fallible.bind_of_ok first, second, List.length_append, UInt64.ofNat_add,
        UInt64.add_assoc]
    · rw [secondWritten, firstWritten, Memory.overlay_append, Address.add_add]
  full block offset memory inside standing full := by
    rw [List.length_append] at full
    by_cases fits : offset.toNat + bytes.length ≤ block.size.toNat
    · have := block.size.toNat_lt
      have moved : (offset + UInt64.ofNat bytes.length).toNat = offset.toNat + bytes.length :=
        Word.toNat_add_ofNat (by omega)
      obtain ⟨middle, first, _⟩ := puts.room block offset memory inside fits
      obtain ⟨needed, available, after, second⟩ := putsMore.full block _ middle inside
        (by rw [moved]; exact fits) (by rw [moved]; omega)
      exact ⟨needed, available, after, by rw [Fallible.bind_of_ok first, second]⟩
    · obtain ⟨needed, available, after, first⟩ :=
        puts.full block offset memory inside standing (Nat.lt_of_not_le fits)
      exact ⟨needed, available, after, Fallible.bind_of_error first _⟩

theorem puts_writeBytes (isWord : bytes.length < UInt64.size) : Puts (writeBytes bytes) bytes := by
  have exact : (UInt64.ofNat bytes.length).toNat = bytes.length :=
    UInt64.toNat_ofNat_of_lt' isWord
  refine ⟨fun block offset memory inside fits => ?room,
    fun block offset memory inside standing full => ?full⟩
  case room =>
    obtain ⟨after, wrote, written⟩ := inside.write fits memory
    refine ⟨after, ?_, written⟩
    have enough : offset.toNat + (UInt64.ofNat bytes.length).toNat ≤ block.size.toNat := by
      rwa [exact]
    have advanced := Nat.lt_of_le_of_lt enough block.size.toNat_lt
    rw [writeBytes, Word.ofNat?, if_pos isWord, Fallible.bind_of_ok (Fallible.exactly_some _ _),
      Fallible.bind_of_ok (ensure_of_room enough)]
    rw [Fallible.bind_of_ok (current_apply _), Fallible.bind_of_ok (onMemory_of_ok wrote)]
    exact advance_of_fits advanced
  case full =>
    have tight : block.size.toNat < offset.toNat + (UInt64.ofNat bytes.length).toNat := by
      rwa [exact]
    rw [writeBytes, Word.ofNat?, if_pos isWord, Fallible.bind_of_ok (Fallible.exactly_some _ _)]
    exact ⟨_, _, _, Fallible.bind_of_error (ensure_of_full standing tight) _⟩

/-- A check for room before bytes are put changes nothing but when they are refused. -/
theorem Puts.ensured
    (puts : Puts computation bytes)
    (isWord : bytes.length < UInt64.size) :
    Puts (ensure (UInt64.ofNat bytes.length) >>= fun _ => computation) bytes := by
  have exact : (UInt64.ofNat bytes.length).toNat = bytes.length :=
    UInt64.toNat_ofNat_of_lt' isWord
  refine ⟨fun block offset memory inside fits => ?room,
    fun block offset memory inside standing full => ?full⟩
  case room =>
    obtain ⟨after, put, written⟩ := puts.room block offset memory inside fits
    refine ⟨after, ?_, written⟩
    rw [Fallible.bind_of_ok (ensure_of_room (by rwa [exact])), put]
  case full =>
    exact ⟨_, _, _, Fallible.bind_of_error (ensure_of_full standing (by rwa [exact])) _⟩

theorem puts_writePieces
    {pieces : List (List UInt8)}
    (isWord : pieces.flatten.length < UInt64.size) :
    Puts (Output.writePieces pieces) pieces.flatten := by
  induction pieces with
  | nil => exact puts_pure
  | cons piece pieces inductionHypothesis =>
      rw [List.flatten_cons, List.length_append] at isWord
      rw [List.flatten_cons]
      have first : Puts (writeBytes piece) piece := puts_writeBytes (by omega)
      exact first.bind (inductionHypothesis (by omega))

/-- A text is put behind the count of its bytes, and nothing is put if there is not enough
room for both. -/
theorem puts_writeCounted
    {text : List Char}
    (fits : Text.totalLength text ≤ Text.largestLength) :
    Puts (writeCounted text) (Datum.counted text).encoded := by
  let body := (Text.units text).flatMap Text.encodeUnit
  let count := Word.bigEndian 2 body.length
  have length_eq : (count ++ body).length = 2 + body.length := by simp [count]
  have isWord : (count ++ body).length < UInt64.size := by
    rw [length_eq, Text.length_flatMap_encodeUnit]
    unfold Text.largestLength at fits
    unfold UInt64.size
    omega
  have same : writeCounted text = (ensure (UInt64.ofNat (count ++ body).length) >>= fun _ =>
      writeBytes count >>= fun _ => writeBytes body) := by
    rw [writeCounted, Text.encode_of_fits fits]
    dsimp only
    rw [Word.ofNat?, if_pos (length_eq ▸ isWord), length_eq]
    rfl
  rw [List.length_append] at isWord
  have puts : Puts (writeBytes count >>= fun _ => writeBytes body) (count ++ body) :=
    (puts_writeBytes (by omega)).bind (puts_writeBytes (by omega))
  rw [same, Datum.encoded_counted fits, ← Text.length_flatMap_encodeUnit]
  exact puts.ensured (by rwa [List.length_append])

/-- A cursor puts the bytes of a value. -/
theorem puts_write
    {datum : Datum}
    {pieces : List (List UInt8)}
    (coded : datum.pieces = .ok pieces)
    (isWord : datum.encoded.length < UInt64.size) :
    Puts (write datum) datum.encoded := by
  have whole : Puts (Output.write datum) datum.encoded := by
    have same : (Output.write datum : CursorM Unit) = Output.writePieces pieces := by
      rw [Output.write, coded]
      rfl
    rw [same]
    rw [Datum.encoded_of_pieces coded] at isWord ⊢
    exact puts_writePieces isWord
  cases datum with
  | counted text => exact puts_writeCounted (Datum.fits_of_pieces coded)
  | _ => exact whole

/-- A text that is too long is refused before anything is put. -/
theorem write_of_overlong
    {datum : Datum}
    {text : List Char}
    (overlong : datum.Overlong text)
    (state : Cursor × Memory) :
    write datum state =
      .error (.refused (.ofCoding (.tooLong (Text.totalLength text)))) state := by
  obtain ⟨rfl, long⟩ := overlong
  rw [write, writeCounted, Text.encode_of_long long]
  rfl

end Cursor
end GuardedHeap
