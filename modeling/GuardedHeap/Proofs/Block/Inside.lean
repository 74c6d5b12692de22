import GuardedHeap.Proofs.Block.Confinement

/-!
# Blocks inside their roots

A block that lies in its root, and with it in the address space, can be read and written in
every range that it has, be it checked or not. What was written there is found again.
-/

namespace GuardedHeap

namespace Memory

variable {memory after : Memory}
variable {start : Address}

/-- Memory has some bytes from an address on. -/
def Holds (memory : Memory) (start : Address) (bytes : List UInt8) : Prop :=
  memory.read start bytes.length = bytes

theorem read_add
    (memory : Memory)
    (start : Address)
    (first second : Nat) :
    memory.read start (first + second) =
      memory.read start first ++ memory.read (start.add (UInt64.ofNat first)) second := by
  have behind : ∀ step, start.add (UInt64.ofNat (first + step)) =
      (start.add (UInt64.ofNat first)).add (UInt64.ofNat step) := by
    intro step
    rw [Address.add_add, UInt64.ofNat_add]
  simp only [read_eq_map, List.range_add, List.map_append, List.map_map, Function.comp_def, behind]

/-- Bytes that are held are held in parts, one behind the other. -/
theorem holds_append_iff (first second : List UInt8) :
    memory.Holds start (first ++ second) ↔
      memory.Holds start first ∧
        memory.Holds (start.add (UInt64.ofNat first.length)) second := by
  unfold Holds
  rw [List.length_append, read_add]
  constructor
  · exact fun same => List.append_inj same (length_read ..)
  · rintro ⟨sameFirst, sameSecond⟩
    rw [sameFirst, sameSecond]

/-- Bytes that were laid over memory are held. -/
theorem holds_of_get_eq_overlay
    {bytes : List UInt8}
    (short : bytes.length ≤ 0x10000000000000000)
    (written : after.get = overlay memory.get start bytes) :
    after.Holds start bytes := by
  rw [Holds, read_congr (written.trans (get_write memory start bytes).symm)]
  exact read_write_self memory start bytes short

/-- Of bytes that are held, every part is read from its place. -/
theorem Holds.read_part
    {bytes : List UInt8}
    {skipped length : Nat}
    (holds : memory.Holds start bytes)
    (fits : skipped + length ≤ bytes.length) :
    memory.read (start.add (UInt64.ofNat skipped)) length = (bytes.drop skipped).take length := by
  rw [← List.take_append_drop skipped bytes, holds_append_iff,
    List.length_take_of_le (by omega)] at holds
  have part := holds.2
  rw [← List.take_append_drop length (bytes.drop skipped), holds_append_iff] at part
  have found := part.1
  rwa [Holds, List.length_take_of_le (by rw [List.length_drop]; omega)] at found

end Memory

namespace Block

section Located

variable {block : Block}
variable {offset length : UInt64}
variable {start? : Option Address}
variable {bytes : List UInt8}

/-- What is read from a range that is found is what memory has there. -/
theorem read_of_locateRange
    (located : block.locateRange offset length = .ok start?)
    (memory : Memory) :
    block.read offset length memory =
      .ok (memory.read (block.address.add offset) length.toNat) memory := by
  obtain ⟨-, starts⟩ := locate_eq_ok_iff.mp (locateRange_eq_ok_iff.mp located).2
  have bytes : block.bytesAt memory offset length =
      .ok (memory.read (block.address.add offset) length.toNat) := by
    rw [bytesAt, located, starts]
    by_cases isEmpty : length = 0
    · subst isEmpty
      rfl
    · rw [if_neg isEmpty]
      rfl
  rw [Block.read, Fallible.query, bytes]

theorem write_of_locateRange
    (isWord : bytes.length < UInt64.size)
    (located : block.locateRange offset (UInt64.ofNat bytes.length) = .ok start?)
    (memory : Memory) :
    block.write offset bytes memory =
      .ok () (start?.elim memory fun start => memory.write start bytes) := by
  rw [Block.write, Word.ofNat?, if_pos isWord, Fallible.bind_of_ok (Fallible.exactly_some _ memory),
    located]
  cases start? <;> rfl

theorem write_of_refused
    {error : HeapError}
    (isWord : bytes.length < UInt64.size)
    (refused : block.locateRange offset (UInt64.ofNat bytes.length) = .error error)
    (memory : Memory) :
    block.write offset bytes memory = .error (.refused error) memory := by
  rw [Block.write, Word.ofNat?, if_pos isWord, Fallible.bind_of_ok (Fallible.exactly_some _ memory),
    refused]
  rfl

/-- Bytes that are counted as none are none. -/
theorem eq_nil_of_counted
    (isWord : bytes.length < UInt64.size)
    (isEmpty : UInt64.ofNat bytes.length = 0) :
    bytes = [] := by
  rw [← List.length_eq_zero_iff, ← UInt64.toNat_ofNat_of_lt' isWord, isEmpty, UInt64.toNat_zero]

/-- Bytes are laid over what memory had where their range is found. -/
theorem get_of_locateRange
    (isWord : bytes.length < UInt64.size)
    (located : block.locateRange offset (UInt64.ofNat bytes.length) = .ok start?)
    (memory : Memory) :
    (start?.elim memory fun start => memory.write start bytes).get =
      Memory.overlay memory.get (block.address.add offset) bytes := by
  obtain ⟨-, rfl⟩ := locate_eq_ok_iff.mp (locateRange_eq_ok_iff.mp located).2
  by_cases isEmpty : UInt64.ofNat bytes.length = 0
  · rw [if_pos isEmpty, eq_nil_of_counted isWord isEmpty]
    rfl
  · rw [if_neg isEmpty]
    exact Memory.get_write _ _ _

/-- Bytes that were written are held by memory, in a range that lies in the root. -/
theorem ok_of_write
    {memory after : Memory}
    (written : block.write offset bytes memory = .ok () after) :
    bytes.length < UInt64.size ∧ after.Holds (block.address.add offset) bytes ∧
      (bytes = [] ∨ block.root.extent.withinRoot (block.address.add offset)
        (UInt64.ofNat bytes.length) = .ok ()) := by
  by_cases isWord : bytes.length < UInt64.size
  case neg =>
    rw [write, Word.ofNat?, if_neg isWord] at written
    cases written
  case pos =>
    cases located : block.locateRange offset (UInt64.ofNat bytes.length) with
    | error error =>
        rw [write_of_refused isWord located] at written
        cases written
    | ok start? =>
        rw [write_of_locateRange isWord located] at written
        cases written
        refine ⟨isWord, ?_, ?_⟩
        · exact Memory.holds_of_get_eq_overlay (Nat.le_of_lt isWord)
            (get_of_locateRange isWord located memory)
        · obtain ⟨isEmpty | within, -⟩ :=
            locate_eq_ok_iff.mp (locateRange_eq_ok_iff.mp located).2
          · exact .inl (eq_nil_of_counted isWord isEmpty)
          · exact .inr within

end Located

/-- A block that lies in its root and ends within the address space. -/
structure Inside (block : Block) : Prop where
  start_le : block.root.extent.start ≤ block.extent.start
  stop_le : block.extent.stop ≤ block.root.extent.stop
  bounded : block.extent.stop ≤ 0x10000000000000000

/-- A root lies in itself. -/
theorem inside_whole
    {root : Root}
    (bounded : root.extent.stop ≤ 0x10000000000000000) :
    (whole root).Inside :=
  ⟨Nat.le_refl _, Nat.le_refl _, bounded⟩

namespace Inside

variable {block : Block}
variable {offset length : UInt64}

/-- A range of the block is found in memory. -/
theorem locate
    (inside : block.Inside)
    (fits : offset.toNat + length.toNat ≤ block.size.toNat) :
    block.locate offset length =
      .ok (if length = 0 then none else some (block.address.add offset)) := by
  unfold Block.locate
  by_cases isEmpty : length = 0
  · rw [if_pos isEmpty, if_pos isEmpty]
  · have := inside.bounded
    have := Word.toNat_pos isEmpty
    have starts : (block.address.add offset).value.toNat =
        block.extent.start + offset.toNat := Address.toNat_add (by
      unfold Extent.stop Extent.start size at *
      change block.extent.address.value.toNat + _ < _
      omega)
    have within : block.root.extent.withinRoot (block.address.add offset) length = .ok () := by
      rw [Extent.withinRoot_eq_ok_iff, starts]
      have := inside.start_le
      have := inside.stop_le
      unfold Extent.stop size at *
      omega
    rw [if_neg isEmpty, if_neg isEmpty]
    simp only [within]
    rfl

/-- Every range of the block is located, whatever its mode. -/
theorem locateRange
    (inside : block.Inside)
    (fits : offset.toNat + length.toNat ≤ block.size.toNat) :
    block.locateRange offset length =
      .ok (if length = 0 then none else some (block.address.add offset)) := by
  have range : block.checkRange offset length = .ok () := by
    unfold checkRange
    split
    · exact (Extent.checkSpan_eq_ok_iff _ _ _).mpr fits
    · rfl
  rw [Block.locateRange, range]
  exact inside.locate fits

/-- Bytes for which there is room are written to their place, and to no other one. -/
theorem write
    {bytes : List UInt8}
    (inside : block.Inside)
    (fits : offset.toNat + bytes.length ≤ block.size.toNat)
    (memory : Memory) :
    ∃ after, block.write offset bytes memory = .ok () after ∧
      after.get = Memory.overlay memory.get (block.address.add offset) bytes := by
  have isWord : bytes.length < UInt64.size :=
    Nat.lt_of_le_of_lt (Nat.le_trans (Nat.le_add_left _ _) fits) block.size.toNat_lt
  have exact : (UInt64.ofNat bytes.length).toNat = bytes.length :=
    UInt64.toNat_ofNat_of_lt' isWord
  have located := inside.locateRange (exact.symm ▸ fits)
  exact ⟨_, write_of_locateRange isWord located memory, get_of_locateRange isWord located memory⟩

/-- What is read is what memory has there. -/
theorem read
    (inside : block.Inside)
    (fits : offset.toNat + length.toNat ≤ block.size.toNat)
    (memory : Memory) :
    block.read offset length memory =
      .ok (memory.read (block.address.add offset) length.toNat) memory :=
  read_of_locateRange (inside.locateRange fits) memory

end Inside
end Block
end GuardedHeap
