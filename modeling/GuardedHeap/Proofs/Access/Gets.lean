import GuardedHeap.Proofs.Access.Puts

/-!
# What cursors get

A computation gets a value from bytes if, wherever a cursor stands before these bytes, it
answers the value and moves the cursor behind them. What is put together from such
computations gets its value from the bytes of its parts, one behind the other, so a cursor
gets every value back from the bytes of the value.
-/

namespace GuardedHeap

/-- Values that are there to be stored: byte strings and text whose sizes are words, and
counted text whose count fits. -/
def Datum.Storable : Datum → Prop
  | .bytes value => value.length < 0x10000000000000000
  | .units text => 2 * (Text.units text).length < 0x10000000000000000
  | .counted text => Text.totalLength text ≤ Text.largestLength
  | _ => True

namespace Cursor

/-- The computation gets the value from the bytes. -/
def Gets {α : Type} (computation : CursorM α) (value : α) (bytes : List UInt8) : Prop :=
  ∀ (block : Block) (offset : UInt64) (memory : Memory), block.Inside →
    offset.toNat + bytes.length ≤ block.size.toNat →
    memory.Holds (block.address.add offset) bytes →
      computation (⟨block, offset⟩, memory) =
        .ok value (⟨block, offset + UInt64.ofNat bytes.length⟩, memory)

variable {α β : Type}
variable {computation : CursorM α}
variable {value : α}
variable {bytes more : List UInt8}

theorem gets_pure (value : α) : Gets (pure value) value [] := by
  intro block offset memory _ _ _
  rw [List.length_nil, show UInt64.ofNat 0 = 0 from rfl, UInt64.add_zero]
  rfl

theorem Gets.bind
    {next : α → CursorM β}
    {result : β}
    (gets : Gets computation value bytes)
    (getsMore : Gets (next value) result more) :
    Gets (computation >>= next) result (bytes ++ more) := by
  intro block offset memory inside fits holds
  rw [List.length_append] at fits
  have := block.size.toNat_lt
  have moved : (offset + UInt64.ofNat bytes.length).toNat = offset.toNat + bytes.length :=
    Word.toNat_add_ofNat (by omega)
  obtain ⟨holdsFirst, holdsMore⟩ := (Memory.holds_append_iff _ _).mp holds
  rw [Address.add_add] at holdsMore
  have first := gets block offset memory inside (by omega) holdsFirst
  have second := getsMore block _ memory inside (by rw [moved]; omega) holdsMore
  rw [Fallible.bind_of_ok first, second, List.length_append, UInt64.ofNat_add, UInt64.add_assoc]

/-- What is made of a value is got from the same bytes. -/
theorem Gets.map
    (gets : Gets computation value bytes)
    (change : α → β) :
    Gets (do pure (change (← computation))) (change value) bytes := by
  have mapped : Gets (computation >>= fun value => pure (change value)) (change value)
      (bytes ++ []) := gets.bind (gets_pure (change value))
  rwa [List.append_nil] at mapped

theorem Gets.attempt
    (gets : Gets computation value bytes) :
    Gets (Fallible.attempt computation) (.ok value) bytes :=
  fun block offset memory inside fits holds =>
    Fallible.attempt_of_ok (gets block offset memory inside fits holds)

theorem gets_readBytes (isWord : bytes.length < UInt64.size) :
    Gets (readBytes (UInt64.ofNat bytes.length)) bytes bytes := by
  intro block offset memory inside fits holds
  have exact : (UInt64.ofNat bytes.length).toNat = bytes.length :=
    UInt64.toNat_ofNat_of_lt' isWord
  have enough : offset.toNat + (UInt64.ofNat bytes.length).toNat ≤ block.size.toNat := by
    rwa [exact]
  have found : block.read offset (UInt64.ofNat bytes.length) memory = .ok bytes memory := by
    rw [inside.read enough, exact, holds]
  rw [readBytes, Fallible.bind_of_ok (ensure_of_room enough),
    Fallible.bind_of_ok (current_apply _),
    Fallible.bind_of_ok (onMemory_of_ok found),
    Fallible.bind_of_ok (advance_of_fits (Nat.lt_of_le_of_lt enough block.size.toNat_lt))]
  rfl

/-- A number that its portion has room for is got back from its bytes. -/
theorem gets_readNumber
    {width number : Nat}
    (isWord : width < UInt64.size)
    (small : number < Nat.pow 256 width) :
    Gets (readNumber (UInt64.ofNat width)) number (Word.bigEndian width number) := by
  have length_eq : (Word.bigEndian width number).length = width := Word.length_bigEndian _ _
  have gets : Gets (readBytes (UInt64.ofNat (Word.bigEndian width number).length)) _ _ :=
    gets_readBytes (length_eq.symm ▸ isWord)
  have exact : Word.ofBigEndian (Word.bigEndian width number) = number := by
    rw [Word.ofBigEndian_bigEndian]
    exact Nat.mod_eq_of_lt small
  rw [length_eq] at gets
  have mapped := gets.map Word.ofBigEndian
  rwa [exact] at mapped

/-- Encoded text behind its count, with the cursor left wherever it comes to stand. -/
def readEncoded : CursorM (List Char) := do
  let length ← readNumber 2
  let bytes ← readBytes (UInt64.ofNat length)
  match Text.decode bytes with
  | .error error => Fallible.refuse (.ofCoding error)
  | .ok text => pure text

/-- A text is got back from its counted form. -/
theorem gets_readCounted
    {text : List Char}
    (fits : Text.totalLength text ≤ Text.largestLength) :
    Gets readCounted text (Datum.counted text).encoded := by
  let body := (Text.units text).flatMap Text.encodeUnit
  have length_eq : body.length = Text.totalLength text := Text.length_flatMap_encodeUnit text
  have small : body.length < 0x10000 := by
    unfold Text.largestLength at fits
    omega
  have count : Gets (readNumber 2) body.length (Word.bigEndian 2 body.length) :=
    gets_readNumber (by decide) small
  have rest : Gets (readBytes (UInt64.ofNat body.length)) body body :=
    gets_readBytes (by unfold UInt64.size; omega)
  intro block offset memory inside enough holds
  have whole : Gets readEncoded text (Word.bigEndian 2 body.length ++ (body ++ [])) := by
    refine count.bind (rest.bind ?_)
    rw [Text.decode_encoded]
    exact gets_pure text
  rw [List.append_nil] at whole
  have attempted := whole.attempt block offset memory inside
  rw [Datum.encoded_counted fits, ← length_eq] at enough holds ⊢
  rw [readCounted, Fallible.bind_of_ok (current_apply _)]
  exact Fallible.bind_of_ok (attempted enough holds) _

/-- A value that is such a number is got back by its type. -/
theorem gets_read_of_number
    {datum : Datum}
    {width number : Nat}
    {change : Nat → Datum}
    (coded : datum.pieces = Datum.number width number)
    (reads : read datum.type = do pure (change (← readNumber (UInt64.ofNat width))))
    (isWord : width < UInt64.size)
    (small : number < Nat.pow 256 width)
    (same : change number = datum) :
    Gets (read datum.type) datum datum.encoded := by
  have gets := (gets_readNumber isWord small).map change
  rw [same, ← reads] at gets
  rw [Datum.encoded_of_number coded]
  exact gets

/-- A value is got back by its type. -/
theorem gets_read
    {datum : Datum}
    (storable : datum.Storable)
    (single : ∀ text, datum ≠ .units text) :
    Gets (read datum.type) datum datum.encoded := by
  cases datum with
  | uint8 value =>
      refine gets_read_of_number rfl rfl (by decide) value.toNat_lt ?_
      rw [UInt8.ofNat_toNat]
  | int8 value =>
      refine gets_read_of_number rfl rfl (by decide) value.toUInt8.toNat_lt ?_
      rw [UInt8.ofNat_toNat, Int8.toInt8_toUInt8]
  | bool value =>
      cases value with
      | false => exact gets_read_of_number rfl rfl (by decide) (by decide) rfl
      | true => exact gets_read_of_number rfl rfl (by decide) (by decide) rfl
  | uint16 value =>
      refine gets_read_of_number rfl rfl (by decide) value.toNat_lt ?_
      rw [UInt16.ofNat_toNat]
  | int16 value =>
      refine gets_read_of_number rfl rfl (by decide) value.toUInt16.toNat_lt ?_
      rw [UInt16.ofNat_toNat, Int16.toInt16_toUInt16]
  | codeUnit value =>
      refine gets_read_of_number rfl rfl (by decide) value.toNat_lt ?_
      rw [UInt16.ofNat_toNat]
  | uint32 value =>
      refine gets_read_of_number rfl rfl (by decide) value.toNat_lt ?_
      rw [UInt32.ofNat_toNat]
  | int32 value =>
      refine gets_read_of_number rfl rfl (by decide) value.toUInt32.toNat_lt ?_
      rw [UInt32.ofNat_toNat, Int32.toInt32_toUInt32]
  | uint64 value =>
      refine gets_read_of_number rfl rfl (by decide) value.toNat_lt ?_
      rw [UInt64.ofNat_toNat]
  | int64 value =>
      refine gets_read_of_number rfl rfl (by decide) value.toUInt64.toNat_lt ?_
      rw [UInt64.ofNat_toNat, Int64.toInt64_toUInt64]
  | float32 bits =>
      refine gets_read_of_number rfl rfl (by decide) bits.toNat_lt ?_
      rw [UInt32.ofNat_toNat]
  | float64 bits =>
      refine gets_read_of_number rfl rfl (by decide) bits.toNat_lt ?_
      rw [UInt64.ofNat_toNat]
  | bytes value =>
      rw [Datum.encoded_bytes]
      exact (gets_readBytes storable).map Datum.bytes
  | units text => exact absurd rfl (single text)
  | counted text => exact (gets_readCounted storable).map Datum.counted

end Cursor
end GuardedHeap
