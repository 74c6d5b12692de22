import GuardedHeap.Proofs.Memory.Range

/-!
# Words in memory

A word occupies the eight addresses from its own on, which may wrap around the
address space. Two words are apart if none of these addresses is shared. A word
is read back where it was written, keeps its value while others are written
apart from it, and determines the bytes that it occupies.
-/

namespace GuardedHeap
namespace Memory

/-- An address is one of the eight of a word. -/
def InWord (word address : Address) : Prop :=
  (address.offsetFrom word).toNat < 8

instance (word address : Address) : Decidable (InWord word address) :=
  inferInstanceAs (Decidable (_ < _))

/-- The addresses of a word that does not wrap around. -/
theorem inWord_iff
    {word : Address}
    (fits : word.value.toNat + 8 ≤ 0x10000000000000000)
    (address : Address) :
    InWord word address ↔
      word.value.toNat ≤ address.value.toNat ∧ address.value.toNat < word.value.toNat + 8 :=
  (Extent.contains_iff_offset_lt (show (⟨word, 8⟩ : Extent).stop ≤ 0x10000000000000000 from fits)
    address).symm

theorem get_writeWord_of_not_inWord
    (memory : Memory)
    {word address : Address}
    (value : UInt64)
    (outside : ¬ InWord word address) :
    (memory.writeWord word value).get address = memory.get address :=
  get_write_of_far _ _ _ _ (by simpa [InWord] using outside)

/-- A word depends on its own eight bytes only. -/
theorem readWord_congr
    {left right : Memory}
    {word : Address}
    (same : ∀ address, InWord word address → left.get address = right.get address) :
    left.readWord word = right.readWord word := by
  unfold readWord
  rw [read_eq_of_near (by decide) same]

@[simp] theorem readWord_writeWord_self
    (memory : Memory)
    (word : Address)
    (value : UInt64) :
    (memory.writeWord word value).readWord word = value := by
  have back := read_write_self memory word (Word.littleEndian 8 value.toNat)
    (by rw [Word.length_littleEndian]; decide)
  rw [Word.length_littleEndian] at back
  have inRange : value.toNat % Nat.pow 256 8 = value.toNat := Nat.mod_eq_of_lt value.toNat_lt
  rw [readWord, writeWord, back, Word.ofLittleEndian_littleEndian, inRange]
  exact UInt64.ofNat_toNat

/-- The eight bytes of a word, in its number. -/
theorem toNat_readWord (memory : Memory) (word : Address) :
    (memory.readWord word).toNat = Word.ofLittleEndian (memory.read word 8) := by
  have bounded := Word.ofLittleEndian_littleEndian 8 (Word.ofLittleEndian (memory.read word 8))
  have bytes := Word.littleEndian_ofLittleEndian (memory.read word 8)
  rw [length_read] at bytes
  rw [bytes] at bounded
  rw [readWord, UInt64.toNat_ofNat']
  exact bounded.symm

/-- Words of one value have the same bytes. -/
theorem get_eq_of_readWord_eq
    {left right : Memory}
    {word address : Address}
    (same : left.readWord word = right.readWord word)
    (inside : InWord word address) :
    left.get address = right.get address := by
  have bytes : left.read word 8 = right.read word 8 := by
    have numbers := congrArg UInt64.toNat same
    rw [toNat_readWord, toNat_readWord] at numbers
    have leftBytes := Word.littleEndian_ofLittleEndian (left.read word 8)
    have rightBytes := Word.littleEndian_ofLittleEndian (right.read word 8)
    rw [length_read] at leftBytes rightBytes
    rw [← leftBytes, numbers, rightBytes]
  have place : ∀ memory : Memory,
      (memory.read word 8)[(address.offsetFrom word).toNat]? = some (memory.get address) := by
    intro memory
    rw [List.getElem?_eq_getElem (by rw [length_read]; exact inside), getElem_read]
    simp
  have found := place left
  rw [bytes, place right] at found
  exact (Option.some.inj found).symm

/-- Two words that share no address. -/
def WordsApart (left right : Address) : Prop :=
  ∀ address, InWord left address → ¬ InWord right address

/-- Words whose distance is known, in either direction at least eight, are
apart. -/
theorem wordsApart_add
    (word : Address)
    {distance : UInt64}
    (far : 8 ≤ distance.toNat)
    (near : distance.toNat + 8 ≤ 0x10000000000000000) :
    WordsApart word (word.add distance) := by
  intro address inside
  have := word.value.toNat_lt
  have := address.value.toNat_lt
  simp only [InWord, Address.offsetFrom, Address.value_add, UInt64.toNat_sub,
    UInt64.toNat_add] at inside ⊢
  omega

theorem readWord_writeWord_of_apart
    (memory : Memory)
    {written word : Address}
    (value : UInt64)
    (apart : WordsApart word written) :
    (memory.writeWord written value).readWord word = memory.readWord word :=
  readWord_congr fun address inside =>
    get_writeWord_of_not_inWord memory value (apart address inside)

end Memory
end GuardedHeap
