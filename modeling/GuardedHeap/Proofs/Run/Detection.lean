import GuardedHeap.Proofs.Run.Basic

/-!
# Overwritten guard words

A client that leaves its blocks overwrites guard words. As long as the size word of a
live block is what it was, every change of the two stamps is found by the next call
on the block, which tells the first stamp that differs and what stands there now, and
reaches no allocator below. Once the words are put back, the block ends as if nothing
had happened.

The size word decides where the footer is looked for. A size that no block can have is
told as such; any other one is believed exactly if a footer stamp stands where it
leads to.
-/

namespace GuardedHeap

namespace Memory

/-- Two memories have the same bytes in a word. -/
def SameWord (word : Address) (left right : Memory) : Prop :=
  ∀ address, InWord word address → left.get address = right.get address

/-- Words are the same if their bytes are. -/
theorem sameWord_iff
    (word : Address)
    (left right : Memory) :
    SameWord word left right ↔ left.readWord word = right.readWord word :=
  ⟨readWord_congr, fun same _ inside => get_eq_of_readWord_eq same inside⟩

end Memory

namespace Extent

/-- The address of the word that holds the size of a block. -/
def sizeWord (block : Extent) : Address :=
  block.address.sub 16

/-- The address of the stamp before a block. -/
def headerWord (block : Extent) : Address :=
  block.address.sub 8

/-- The address of the stamp behind a block. -/
def footerWord (block : Extent) : Address :=
  block.address.add block.size

theorem headerOf_sizeWord (block : Extent) :
    Guard.headerOf block.sizeWord = block.headerWord := by
  simp only [Guard.headerOf, sizeWord, headerWord, Address.add, Address.sub]
  congr 1
  rw [UInt64.sub_eq_add_neg, UInt64.sub_eq_add_neg, UInt64.add_assoc]
  rfl

theorem footerOf_sizeWord (block : Extent) (size : UInt64) :
    Guard.footerOf block.sizeWord size = block.address.add size := by
  rw [Guard.footerOf, ← Address.add_add]
  exact congrArg (fun address : Address => address.add size)
    (block.address.add_sub_cancel Guard.headerBytes)

theorem blockOf_sizeWord (block : Extent) : Guard.blockOf block.sizeWord = block.address :=
  block.address.add_sub_cancel Guard.headerBytes

end Extent

namespace Guard

variable (memory : Memory)
variable (block : Extent)

/-- A size word that no block can have is told, unless both words before the block
are those of one that ended. -/
theorem fetch_of_bad_size
    (senseless : memory.readWord block.sizeWord = 0 ∨
      largestSize < memory.readWord block.sizeWord)
    (notEnded : memory.readWord block.headerWord ≠ cleanup) :
    fetch memory block.sizeWord = .error (.refused
      (.corrupted block.address .size largestSize (memory.readWord block.sizeWord))) := by
  have finding := fetch_finding memory block.sizeWord
  rw [← block.headerOf_sizeWord] at notEnded
  generalize fetch memory block.sizeWord = result at finding
  cases finding with
  | ended sizeWord headerWord => exact absurd headerWord notEnded
  | badSize _ _ => rw [block.blockOf_sizeWord]
  | badHeader nonempty bounded _ => exact absurd senseless (by simp [nonempty, bounded])
  | badFooter nonempty bounded _ _ => exact absurd senseless (by simp [nonempty, bounded])
  | intact nonempty bounded words =>
      rw [words.sizeWord] at senseless
      exact absurd senseless (by simp [nonempty, bounded])

/-- A header stamp that differs is told if the size is one that a block can have. -/
theorem fetch_of_bad_header
    (nonempty : memory.readWord block.sizeWord ≠ 0)
    (bounded : memory.readWord block.sizeWord ≤ largestSize)
    (differs : memory.readWord block.headerWord ≠ headerStamp) :
    fetch memory block.sizeWord = .error (.refused
      (.corrupted block.address .header headerStamp (memory.readWord block.headerWord))) := by
  have finding := fetch_finding memory block.sizeWord
  rw [← block.headerOf_sizeWord] at differs ⊢
  generalize fetch memory block.sizeWord = result at finding
  cases finding with
  | ended sizeWord _ => exact absurd bounded (by rw [sizeWord]; decide)
  | badSize senseless _ => exact absurd senseless (by simp [nonempty, bounded])
  | badHeader _ _ _ => rw [block.blockOf_sizeWord]
  | badFooter _ _ header _ => exact absurd header differs
  | intact _ _ words => exact absurd words.headerWord differs

/-- Behind an intact header, a block is judged by the stamp to which its size leads. -/
theorem fetch_of_header
    (nonempty : memory.readWord block.sizeWord ≠ 0)
    (bounded : memory.readWord block.sizeWord ≤ largestSize)
    (header : memory.readWord block.headerWord = headerStamp) :
    let size := memory.readWord block.sizeWord
    let found := memory.readWord (block.address.add size)
    fetch memory block.sizeWord =
      if found = footerStamp then .ok size
      else .error (.refused (.corrupted block.address .footer footerStamp found)) := by
  dsimp only
  have finding := fetch_finding memory block.sizeWord
  rw [← block.headerOf_sizeWord] at header
  rw [← block.footerOf_sizeWord]
  generalize fetch memory block.sizeWord = result at finding
  cases finding with
  | ended sizeWord _ => exact absurd bounded (by rw [sizeWord]; decide)
  | badSize senseless _ => exact absurd senseless (by simp [nonempty, bounded])
  | badHeader _ _ differs => exact absurd header differs
  | badFooter _ _ _ differs => rw [if_neg differs, block.blockOf_sizeWord]
  | intact _ _ words => rw [words.sizeWord, if_pos words.footerWord]

end Guard

/-- Every overwriting of guard words around a block is found by the next call on it,
which names the word and what stands there, changes nothing, and does not depend on
the allocator below. -/
structure Guarded.Detects
    (layer : Nat)
    (owns : Bool)
    (block : Extent)
    (world : World)
    (overwritten : Memory) : Prop where
  header :
    Memory.SameWord block.sizeWord overwritten world.memory →
    ¬ Memory.SameWord block.headerWord overwritten world.memory →
    ∀ inner, (Allocator.guarded layer owns inner).Refuses block.address
      (.corrupted block.address .header Guard.headerStamp
        (overwritten.readWord block.headerWord))
      { world with memory := overwritten }
  footer :
    Memory.SameWord block.sizeWord overwritten world.memory →
    Memory.SameWord block.headerWord overwritten world.memory →
    ¬ Memory.SameWord block.footerWord overwritten world.memory →
    ∀ inner, (Allocator.guarded layer owns inner).Refuses block.address
      (.corrupted block.address .footer Guard.footerStamp
        (overwritten.readWord block.footerWord))
      { world with memory := overwritten }
  restored :
    Memory.SameWord block.sizeWord overwritten world.memory →
    Memory.SameWord block.headerWord overwritten world.memory →
    Memory.SameWord block.footerWord overwritten world.memory →
    ∃ after, (Allocator.guarded layer owns (.raw .arena)).free block.address
      { world with memory := overwritten } = .ok () after
  senseless :
    Memory.SameWord block.headerWord overwritten world.memory →
    overwritten.readWord block.sizeWord = 0 ∨
      Guard.largestSize < overwritten.readWord block.sizeWord →
    ∀ inner, (Allocator.guarded layer owns inner).Refuses block.address
      (.corrupted block.address .size Guard.largestSize
        (overwritten.readWord block.sizeWord))
      { world with memory := overwritten }
  believed : ∀ size,
    Memory.SameWord block.headerWord overwritten world.memory →
    overwritten.readWord block.sizeWord = size →
    size ≠ 0 → size ≤ Guard.largestSize →
    (Guard.fetch overwritten block.sizeWord = .ok size ↔
      overwritten.readWord (block.address.add size) = Guard.footerStamp) ∧
    (overwritten.readWord (block.address.add size) ≠ Guard.footerStamp →
      ∀ inner, (Allocator.guarded layer owns inner).Refuses block.address
        (.corrupted block.address .footer Guard.footerStamp
          (overwritten.readWord (block.address.add size)))
        { world with memory := overwritten })

namespace Guarded

variable {range block : Extent}
variable {rest : List Extent}
variable {layer : Nat}
variable {world : World}

/-- A live block ends as long as its own guard words are intact, whatever other bytes
of memory are. -/
theorem Books.exists_free
    (books : Books layer (Raw.Books range) world (block :: rest))
    (owns : Bool)
    {memory : Memory}
    (fetched : Guard.fetch memory block.around.address = .ok block.size) :
    ∃ after, (Allocator.guarded layer owns (.raw .arena)).free block.address
      { world with memory } = .ok () after := by
  let changed : World := { world with memory }
  -- the arena's books are not about memory, so they stand for the cleared one too
  have below : Raw.Books range (changed.cleared block.around.address block.size)
      (block.around :: rest.map Extent.around) := books.inner
  obtain ⟨after, freed, _⟩ := (Raw.keeps range).free below
  have found : Guard.fetch changed.memory block.around.address = .ok block.size := fetched
  obtain ⟨_, ended⟩ := free_of_freed (books.marked.regionOf? (Raw.keeps range)) found freed
  exact ⟨_, ended⟩

/-- What is wrong around a live block is found. -/
theorem Books.detects
    (books : Books layer (Raw.Books range) world (block :: rest))
    (owns : Bool)
    (overwritten : Memory) :
    Detects layer owns block world overwritten := by
  have around : Guard.regionOf? block.address = some block.sizeWord :=
    books.marked.regionOf? (Raw.keeps range)
  obtain ⟨nonempty, bounded, words⟩ :=
    (Guard.fetch_eq_ok_iff _ _ _).mp (books.marked.fetch (Raw.keeps range))
  have size : world.memory.readWord block.sizeWord = block.size := words.sizeWord
  have header : world.memory.readWord block.headerWord = Guard.headerStamp := by
    rw [← block.headerOf_sizeWord]
    exact words.headerWord
  have footer : world.memory.readWord block.footerWord = Guard.footerStamp := by
    rw [Extent.footerWord, ← block.footerOf_sizeWord]
    exact words.footerWord
  -- a word is what it was if it still holds what the layer stored there
  have sized : Memory.SameWord block.sizeWord overwritten world.memory →
      overwritten.readWord block.sizeWord = block.size :=
    fun same => ((Memory.sameWord_iff _ _ _).mp same).trans size
  have headed : Memory.SameWord block.headerWord overwritten world.memory ↔
      overwritten.readWord block.headerWord = Guard.headerStamp := by
    rw [Memory.sameWord_iff, header]
  have footed : Memory.SameWord block.footerWord overwritten world.memory ↔
      overwritten.readWord (block.address.add block.size) = Guard.footerStamp := by
    rw [Memory.sameWord_iff, footer]
    rfl
  have judged (sameSize : Memory.SameWord block.sizeWord overwritten world.memory)
      (sameHeader : Memory.SameWord block.headerWord overwritten world.memory) :=
    Guard.fetch_of_header overwritten block
      (by rw [sized sameSize]; exact nonempty) (by rw [sized sameSize]; exact bounded)
      (headed.mp sameHeader)
  let changed : World := { world with memory := overwritten }
  have refuses (error : HeapError)
      (fetched : Guard.fetch changed.memory block.sizeWord = .error (.refused error)) :
      ∀ inner, (Allocator.guarded layer owns inner).Refuses block.address error changed :=
    Allocator.refuses_of_fetch around fetched layer owns
  refine ⟨?header, ?footer, ?restored, ?senseless, ?believed⟩
  case header =>
    intro sameSize differs
    have fetched := Guard.fetch_of_bad_header overwritten block
      (by rw [sized sameSize]; exact nonempty) (by rw [sized sameSize]; exact bounded)
      (fun stamped => differs (headed.mpr stamped))
    exact refuses _ fetched
  case footer =>
    intro sameSize sameHeader differs
    have fetched := judged sameSize sameHeader
    dsimp only at fetched
    rw [sized sameSize, if_neg fun stamped => differs (footed.mpr stamped)] at fetched
    exact refuses _ fetched
  case restored =>
    intro sameSize sameHeader sameFooter
    have fetched := judged sameSize sameHeader
    dsimp only at fetched
    rw [sized sameSize, if_pos (footed.mp sameFooter)] at fetched
    exact books.exists_free owns fetched
  case senseless =>
    intro sameHeader senseless
    have notEnded : overwritten.readWord block.headerWord ≠ Guard.cleanup := by
      rw [headed.mp sameHeader]
      decide
    exact refuses _ (Guard.fetch_of_bad_size overwritten block senseless notEnded)
  case believed =>
    rintro size sameHeader rfl nonempty bounded
    have fetched := Guard.fetch_of_header overwritten block nonempty bounded (headed.mp sameHeader)
    dsimp only at fetched
    refine ⟨⟨fun passed => ?_, fun stamped => by rw [fetched, if_pos stamped]⟩,
      fun differs => ?_⟩
    · by_contra differs
      rw [fetched, if_neg differs] at passed
      cases passed
    · rw [if_neg differs] at fetched
      exact refuses _ fetched

end Guarded

namespace Stack

/-- In every world that a run reaches, every overwriting of the guard words of a live
block is found. -/
theorem corruption_detected
    (layer : Nat)
    (owns : Bool)
    (arena : Arena)
    (history : List Observation)
    (world : World)
    (block : Extent)
    (overwritten : Memory)
    (fresh : arena.Fresh)
    (run : Run (.guarded layer owns (.raw .arena)) arena history world)
    (live : block ∈ ledger history) :
    Guarded.Detects layer owns block world overwritten := by
  have distinct : (Stack.guarded layer owns (.raw .arena)).layers.Nodup := by simp [layers]
  have keeps := Stack.keeps arena.range rfl distinct
  have books := run.books rfl distinct fresh
  exact Guarded.Books.detects
    (keeps.perm books ((keeps.placed books).perm_cons_without live)) owns overwritten

/-- The last byte of the header stamp of a first block is overwritten. -/
theorem corruption_detected_before_first_block :
    let arena : Arena := { base := ⟨4096⟩, capacity := 1024 }
    let block : Extent := ⟨⟨4112⟩, 5⟩
    ∃ world, Run (.guarded 0 true (.raw .arena)) arena [.granted block] world ∧
      let overwritten := world.memory.set ⟨4111⟩ (world.memory.get ⟨4111⟩ + 1)
      overwritten.get ⟨4111⟩ ≠ world.memory.get ⟨4111⟩ ∧
        Guarded.Detects 0 true block world overwritten := by
  intro arena block
  have fresh : arena.Fresh := ⟨⟨⟨4096⟩, 1024, rfl⟩, by decide, by decide⟩
  obtain ⟨world, granted⟩ := Run.allocate_guarded 0 true (by decide : (5 : UInt64) ≠ 0)
    (by decide) (rfl : arena.credit = none)
    (by decide +kernel : arena.nextAfter? (5 + 24) = some 32)
  have run : Run (.guarded 0 true (.raw .arena)) arena [.granted block] world :=
    .granted (.start .zero) granted
  refine ⟨world, run, ?_,
    corruption_detected 0 true arena _ world block _ fresh run (.head _)⟩
  rw [Memory.get_set_self]
  exact fun same => absurd same (by grind)

end Stack
end GuardedHeap
