import GuardedHeap.Proofs.Run.Basic

/-!
# Heaps of byte arrays

To a client, a heap is a list of arrays of bytes that have nothing to do with each
other. Bytes are unknown until the client writes them, and an array that moves takes
its known bytes along as far as it has room. Addresses are the heap's choice, as long
as arrays do not touch each other, and a call may be refused, which changes nothing.

A history is one of such a heap if `replay` accepts it: it refuses a grant that
touches a live array, a call on an address where no array starts, and the sight of a
byte that is known to be another one. The main result says that every history of a
stack is accepted.
-/

namespace GuardedHeap

/-- An array of bytes in a range of memory. Some of its bytes are known. -/
structure Cells where
  extent : Extent
  bytes : List (Option UInt8)
  sized : bytes.length = extent.size.toNat

namespace Cells

/-- An array without known bytes. -/
def unknown (block : Extent) : Cells where
  extent := block
  bytes := List.replicate block.size.toNat none
  sized := List.length_replicate

/-- An array with the bytes of another one, as far as these go. -/
def moveTo (cells : Cells) (block : Extent) : Cells where
  extent := block
  bytes := (cells.bytes ++ List.replicate block.size.toNat none).take block.size.toNat
  sized := by simp

/-- Know the byte at an address, if that is one of the array. -/
def write (cells : Cells) (address : Address) (value : UInt8) : Cells where
  extent := cells.extent
  bytes := cells.bytes.set (address.offsetFrom cells.extent.address).toNat (some value)
  sized := by rw [List.length_set, cells.sized]

/-- What is known of the byte at an address. -/
def at? (cells : Cells) (address : Address) : Option UInt8 :=
  cells.bytes[(address.offsetFrom cells.extent.address).toNat]?.join

theorem at?_eq_some_iff
    (cells : Cells)
    (address : Address)
    (known : UInt8) :
    cells.at? address = some known ↔
      cells.bytes[(address.offsetFrom cells.extent.address).toNat]? = some (some known) :=
  Option.join_eq_some_iff

@[simp] theorem at?_unknown (block : Extent) (address : Address) :
    (unknown block).at? address = none := by
  rw [Option.eq_none_iff_forall_ne_some]
  intro known found
  rw [at?_eq_some_iff] at found
  have none_eq := List.eq_of_mem_replicate (List.mem_of_getElem? found)
  cases none_eq

/-- Known bytes lie in the array. -/
theorem offset_lt_of_at?
    {cells : Cells}
    {address : Address}
    {known : UInt8}
    (found : cells.at? address = some known) :
    (address.offsetFrom cells.extent.address).toNat < cells.extent.size.toNat := by
  rw [at?_eq_some_iff] at found
  rw [← cells.sized]
  exact (List.getElem?_eq_some_iff.mp found).1

/-- A byte is known because it was written just now or because it was before. -/
theorem of_at?_write
    {cells : Cells}
    {address other : Address}
    {value known : UInt8}
    (found : (cells.write address value).at? other = some known) :
    other = address ∧ known = value ∨ other ≠ address ∧ cells.at? other = some known := by
  by_cases same : other = address
  · subst same
    have inside := offset_lt_of_at? found
    rw [at?_eq_some_iff] at found
    rw [write] at found inside
    rw [List.getElem?_set_self (by rw [cells.sized]; exact inside)] at found
    cases found
    exact Or.inl ⟨rfl, rfl⟩
  · have offsets : (address.offsetFrom cells.extent.address).toNat ≠
        (other.offsetFrom cells.extent.address).toNat := by
      intro equal
      apply same
      rw [← Address.add_offsetFrom other cells.extent.address,
        ← UInt64.toNat_inj.mp equal, Address.add_offsetFrom]
    rw [at?_eq_some_iff] at found
    rw [write, List.getElem?_set_ne offsets] at found
    exact Or.inr ⟨same, (at?_eq_some_iff _ _ _).mpr found⟩

/-- What is known of an array that moved was known before, at the same offset. -/
theorem of_at?_moveTo
    {cells : Cells}
    {block : Extent}
    {address : Address}
    {known : UInt8}
    (found : (cells.moveTo block).at? address = some known) :
    cells.at? (cells.extent.address.add (address.offsetFrom block.address)) = some known := by
  rw [at?_eq_some_iff] at found ⊢
  rw [Address.offsetFrom_add]
  have taken : (cells.bytes ++ List.replicate block.size.toNat none)[
      (address.offsetFrom block.address).toNat]? = some (some known) := by
    rw [moveTo] at found
    have inside := (List.getElem?_eq_some_iff.mp found).1
    rw [List.length_take] at inside
    rwa [List.getElem?_take_of_lt (by omega)] at found
  by_cases inside : (address.offsetFrom block.address).toNat < cells.bytes.length
  · rwa [List.getElem?_append_left inside] at taken
  · rw [List.getElem?_append_right (by omega)] at taken
    have none_eq := List.eq_of_mem_replicate (List.mem_of_getElem? taken)
    cases none_eq

end Cells

/-- A list of arrays. -/
abbrev ByteHeap := List Cells

namespace ByteHeap

/-- The ranges of all arrays. -/
def extents (heap : ByteHeap) : List Extent :=
  heap.map Cells.extent

/-- All arrays are apart from a range. -/
def Clear (heap : ByteHeap) (block : Extent) : Prop :=
  ∀ cells ∈ heap, block.Apart cells.extent

/-- An address is in one of the arrays. -/
def Covers (heap : ByteHeap) (address : Address) : Prop :=
  ∃ cells ∈ heap, cells.extent.Contains address

/-- A byte is not known to be another one. -/
def Allows (heap : ByteHeap) (address : Address) (value : UInt8) : Prop :=
  ∀ cells ∈ heap, cells.at? address = none ∨ cells.at? address = some value

instance (heap : ByteHeap) (block : Extent) : Decidable (heap.Clear block) :=
  inferInstanceAs (Decidable (∀ _ ∈ _, _))

instance (heap : ByteHeap) (address : Address) : Decidable (heap.Covers address) :=
  inferInstanceAs (Decidable (∃ _ ∈ _, _))

instance (heap : ByteHeap) (address : Address) (value : UInt8) :
    Decidable (heap.Allows address value) :=
  inferInstanceAs (Decidable (∀ _ ∈ _, _))

/-- The array that starts at an address. -/
def arrayAt? (heap : ByteHeap) (address : Address) : Option Cells :=
  heap.find? fun cells => cells.extent.address = address

/-- The arrays that do not start at an address. -/
def without (heap : ByteHeap) (address : Address) : ByteHeap :=
  heap.filter fun cells => cells.extent.address ≠ address

/-- What becomes of a heap by an observation, if that can be made of it. -/
def step (heap : ByteHeap) : Observation → Option ByteHeap
  | .granted block => if heap.Clear block then some (.unknown block :: heap) else none
  | .moved previous block =>
      match heap.arrayAt? previous with
      | none => none
      | some cells =>
          if (heap.without previous).Clear block then
            some (cells.moveTo block :: heap.without previous)
          else none
  | .ended address => (heap.arrayAt? address).map fun _ => heap.without address
  | .wrote address value =>
      if heap.Covers address then some (heap.map fun cells => cells.write address value) else none
  | .saw address value =>
      if heap.Covers address ∧ heap.Allows address value then some heap else none
  | .refused .. => some heap
  | .limited _ => some heap
  | .recovered => some heap

/-- The heap after a history, if that is one of a heap. -/
def replay : List Observation → Option ByteHeap
  | [] => some []
  | latest :: earlier => (replay earlier).bind fun heap => heap.step latest

/-- A heap has an array for each live block, and what it knows of them is true. -/
structure Represents (heap : ByteHeap) (memory : Memory) (blocks : List Extent) : Prop where
  extents : heap.extents = blocks
  known : ∀ cells ∈ heap, ∀ address value, cells.at? address = some value →
    memory.get address = value

namespace Represents

variable {heap : ByteHeap}
variable {memory after : Memory}
variable {blocks : List Extent}
variable {range block : Extent}
variable {address : Address}

theorem extent_mem
    (represents : heap.Represents memory blocks)
    {cells : Cells}
    (present : cells ∈ heap) :
    cells.extent ∈ blocks :=
  represents.extents ▸ List.mem_map_of_mem present

/-- What is known of an array is known of bytes in its range. -/
theorem contains
    (represents : heap.Represents memory blocks)
    (placed : Placed range blocks)
    {cells : Cells}
    {value : UInt8}
    (present : cells ∈ heap)
    (found : cells.at? address = some value) :
    cells.extent.Contains address := by
  rw [Extent.contains_iff_offset_lt (placed.stop_le (represents.extent_mem present))]
  exact Cells.offset_lt_of_at? found

/-- Memory that has the same bytes in all blocks is described as well. -/
theorem spared
    (represents : heap.Represents memory blocks)
    (placed : Placed range blocks)
    (same : ∀ block ∈ blocks, ∀ address, block.Contains address →
      after.get address = memory.get address) :
    heap.Represents after blocks where
  extents := represents.extents
  known cells present address value found := by
    rw [same _ (represents.extent_mem present) address
      (represents.contains placed present found)]
    exact represents.known cells present address value found

theorem without (represents : heap.Represents memory blocks) (address : Address) :
    (heap.without address).Represents memory (Extent.without blocks address) where
  extents := by
    rw [← represents.extents, ByteHeap.extents, ByteHeap.without, ByteHeap.extents,
      Extent.without, List.filter_map]
    rfl
  known cells present := represents.known cells (List.mem_filter.mp present).1

/-- An array starts at the address of every live block. -/
theorem arrayAt?
    (represents : heap.Represents memory blocks)
    (present : block ∈ blocks) :
    ∃ cells ∈ heap, heap.arrayAt? block.address = some cells ∧
      cells.extent.address = block.address := by
  rw [← represents.extents] at present
  obtain ⟨cells, inHeap, rfl⟩ := List.mem_map.mp present
  cases found : heap.arrayAt? cells.extent.address with
  | none =>
      have missing := List.find?_eq_none.mp found cells inHeap
      simp at missing
  | some first =>
      have starts := List.find?_some found
      exact ⟨first, List.mem_of_find?_eq_some found, rfl, of_decide_eq_true starts⟩

theorem clear
    (represents : heap.Represents memory blocks)
    (placed : Placed range (block :: blocks)) :
    heap.Clear block :=
  fun _ present => placed.apart_head (represents.extent_mem present)

theorem covers
    (represents : heap.Represents memory blocks)
    (present : block ∈ blocks)
    (inside : block.Contains address) :
    heap.Covers address := by
  rw [← represents.extents] at present
  obtain ⟨cells, inHeap, rfl⟩ := List.mem_map.mp present
  exact ⟨cells, inHeap, inside⟩

theorem allows (represents : heap.Represents memory blocks) (address : Address) :
    heap.Allows address (memory.get address) := by
  intro cells present
  cases found : cells.at? address with
  | none => exact Or.inl rfl
  | some known =>
      rw [represents.known cells present address known found]
      exact Or.inr rfl

theorem granted
    (represents : heap.Represents memory blocks)
    (block : Extent) :
    ByteHeap.Represents (.unknown block :: heap) memory (block :: blocks) where
  extents := congrArg (block :: ·) represents.extents
  known := by
    refine List.forall_mem_cons.mpr ⟨fun address value found => ?_, represents.known⟩
    rw [Cells.at?_unknown] at found
    cases found

/-- An array that moved knows what was carried over. -/
theorem moved
    {before : Memory}
    {cells : Cells}
    (represents : heap.Represents memory blocks)
    (known : ∀ address value, cells.at? address = some value → before.get address = value)
    (carries : ∀ offset : UInt64, offset.toNat < cells.extent.size.toNat →
      offset.toNat < block.size.toNat →
        memory.get (block.address.add offset) = before.get (cells.extent.address.add offset)) :
    ByteHeap.Represents (cells.moveTo block :: heap) memory (block :: blocks) where
  extents := congrArg (block :: ·) represents.extents
  known := by
    refine List.forall_mem_cons.mpr ⟨fun address value found => ?_, represents.known⟩
    have old := Cells.of_at?_moveTo found
    have inNew := Cells.offset_lt_of_at? found
    have inOld := Cells.offset_lt_of_at? old
    rw [Address.offsetFrom_add] at inOld
    have carried := carries (address.offsetFrom block.address) inOld inNew
    rw [Address.add_offsetFrom, known _ _ old] at carried
    exact carried

theorem wrote
    (represents : heap.Represents memory blocks)
    (address : Address)
    (value : UInt8) :
    ByteHeap.Represents (heap.map fun cells => cells.write address value)
      (memory.set address value) blocks where
  extents := by
    rw [← represents.extents, ByteHeap.extents, List.map_map]
    rfl
  known := by
    intro cells present other known found
    obtain ⟨old, inHeap, rfl⟩ := List.mem_map.mp present
    rcases Cells.of_at?_write found with ⟨rfl, rfl⟩ | ⟨differs, before⟩
    · exact Memory.get_set_self memory _ _
    · rw [Memory.get_set_of_ne memory value differs]
      exact represents.known old inHeap other known before

end Represents

end ByteHeap

namespace Stack

variable {stack : Stack}
variable {arena : Arena}
variable {history : List Observation}
variable {world : World}

/-- Every history is accepted by a heap of arrays that represents memory. -/
theorem Run.replay
    (run : Run stack arena history world)
    (overArena : stack.store = .arena)
    (distinct : stack.layers.Nodup)
    (fresh : arena.Fresh) :
    ∃ heap, ByteHeap.replay history = some heap ∧
      heap.Represents world.memory (ledger history) := by
  have keeps := stack.keeps arena.range overArena distinct
  induction run with
  | start memory => exact ⟨[], rfl, ⟨rfl, by simp⟩⟩
  | granted earlier answered inductionHypothesis =>
      obtain ⟨heap, replayed, represents⟩ := inductionHypothesis
      have books := earlier.books overArena distinct fresh
      obtain ⟨after, spares⟩ := keeps.allocate books answered
      have spared := represents.spared (keeps.placed books) spares.memory
      refine ⟨_, ?_, spared.granted _⟩
      rw [ByteHeap.replay, replayed, Option.bind_some, ByteHeap.step,
        if_pos (spared.clear (keeps.placed after))]
  | moved earlier admitted answered inductionHypothesis =>
      obtain ⟨heap, replayed, represents⟩ := inductionHypothesis
      have books := earlier.books overArena distinct fresh
      obtain ⟨block, live, rfl⟩ := books.live_of_moved admitted answered
      obtain ⟨cells, present, array, starts⟩ := represents.arrayAt? live
      rw [← starts] at answered array ⊢
      have same := (keeps.placed books).perm_cons_without (represents.extent_mem present)
      have ready := keeps.perm books same
      obtain ⟨after, spares, carries⟩ := keeps.reallocate ready answered
      have others := (represents.without cells.extent.address).spared
        (keeps.placed ready).tail spares.memory
      refine ⟨_, ?_, others.moved (represents.known cells present) carries⟩
      rw [ByteHeap.replay, replayed, Option.bind_some, ByteHeap.step, array]
      dsimp only
      rw [if_pos (others.clear (keeps.placed after))]
  | ended earlier admitted answered inductionHypothesis =>
      obtain ⟨heap, replayed, represents⟩ := inductionHypothesis
      have books := earlier.books overArena distinct fresh
      obtain ⟨block, live, rfl⟩ := books.live_of_ended admitted answered
      obtain ⟨cells, present, array, starts⟩ := represents.arrayAt? live
      have same := (keeps.placed books).perm_cons_without live
      have ready := keeps.perm books same
      obtain ⟨after, freed, books, spares⟩ := keeps.free ready
      rw [freed] at answered
      cases answered
      refine ⟨_, ?_, (represents.without block.address).spared (keeps.placed ready).tail
        spares.memory⟩
      rw [ByteHeap.replay, replayed, Option.bind_some, ByteHeap.step, array]
      rfl
  | refused earlier admitted answered inductionHypothesis =>
      obtain ⟨heap, replayed, represents⟩ := inductionHypothesis
      have unchanged := (stack.call_atomic _ _ _ _ answered).2
      refine ⟨heap, by rw [ByteHeap.replay, replayed]; rfl, represents.extents, ?_⟩
      intro cells present address value found
      rw [unchanged.memory]
      exact represents.known cells present address value found
  | wrote earlier live inside value inductionHypothesis =>
      obtain ⟨heap, replayed, represents⟩ := inductionHypothesis
      refine ⟨_, ?_, represents.wrote _ value⟩
      rw [ByteHeap.replay, replayed, Option.bind_some, ByteHeap.step,
        if_pos (represents.covers live inside)]
  | saw earlier live inside inductionHypothesis =>
      obtain ⟨heap, replayed, represents⟩ := inductionHypothesis
      refine ⟨heap, ?_, represents⟩
      rw [ByteHeap.replay, replayed, Option.bind_some, ByteHeap.step,
        if_pos ⟨represents.covers live inside, represents.allows _⟩]
  | limited earlier count inductionHypothesis =>
      obtain ⟨heap, replayed, represents⟩ := inductionHypothesis
      exact ⟨heap, by rw [ByteHeap.replay, replayed]; rfl, represents⟩
  | recovered earlier inductionHypothesis =>
      obtain ⟨heap, replayed, represents⟩ := inductionHypothesis
      exact ⟨heap, by rw [ByteHeap.replay, replayed]; rfl, represents⟩

/-- A stack is a heap of byte arrays: whatever a client does, what it sees is what a
heap of independent arrays could show, the known bytes of all arrays are in memory,
and live blocks do not touch each other. -/
theorem refines_byteHeap
    (stack : Stack)
    (arena : Arena)
    (history : List Observation)
    (world : World)
    (overArena : stack.store = .arena)
    (distinct : stack.layers.Nodup)
    (fresh : arena.Fresh)
    (run : Run stack arena history world) :
    (∃ heap, ByteHeap.replay history = some heap ∧
      heap.Represents world.memory (ledger history)) ∧
    (ledger history).Pairwise Extent.Apart ∧
    ∀ block ∈ ledger history, block.stop ≤ 0x10000000000000000 := by
  have placed := (stack.keeps arena.range overArena distinct).placed
    (run.books overArena distinct fresh)
  exact ⟨run.replay overArena distinct fresh, placed.apart, fun block => placed.stop_le⟩

/-- A byte that is written into the first block of an arena is read again. -/
theorem refines_byteHeap_of_first_block :
    let arena : Arena := { base := ⟨4096⟩, capacity := 1024 }
    let history : List Observation :=
      [.saw ⟨4113⟩ 7, .wrote ⟨4113⟩ 7, .granted ⟨⟨4112⟩, 5⟩]
    ∃ world, Run (instrumented 0 1 .arena) arena history world ∧
      ((∃ heap, ByteHeap.replay history = some heap ∧
        heap.Represents world.memory (ledger history)) ∧
      (ledger history).Pairwise Extent.Apart ∧
      ∀ block ∈ ledger history, block.stop ≤ 0x10000000000000000) := by
  intro arena history
  have fresh : arena.Fresh := ⟨⟨⟨4096⟩, 1024, rfl⟩, by decide, by decide⟩
  obtain ⟨world, first⟩ := Run.exists_granted 0 1 (by decide : (5 : UInt64) ≠ 0) (by decide)
    (rfl : arena.credit = none) (by decide +kernel : arena.nextAfter? (5 + 24) = some 32)
  have written := first.wrote (.head _) (by decide : Extent.Contains _ ⟨4113⟩) 7
  have seen := written.saw (.head _) (by decide : Extent.Contains _ ⟨4113⟩)
  rw [Memory.get_set_self] at seen
  exact ⟨_, seen, refines_byteHeap _ arena history _ rfl (by decide) fresh seen⟩

end Stack

end GuardedHeap
