import GuardedHeap.Guard
import GuardedHeap.Proofs.Memory.Words

/-!
# Intact guard words

The three guard words of a region never overlap, so each of them reads back what
was stored. A region is intact when its words are those of a block of some size,
and these are exactly the regions that `fetch` accepts. Guard words that were
cleared around an intact block can be stored again without a trace.
-/

namespace GuardedHeap
namespace Guard

open Memory (InWord WordsApart)

/-- A block whose region is not larger than the address space. -/
def Fits (size : UInt64) : Prop :=
  size.toNat + 24 < 0x10000000000000000

instance (size : UInt64) : Decidable (Fits size) :=
  inferInstanceAs (Decidable (_ < _))

/-- The address of the footer stamp of a region, whether or not it wraps
around. -/
def footerOf (region : Address) (size : UInt64) : Address :=
  region.add (headerBytes + size)

theorem Fits.footerOf?_eq_some
    {size : UInt64}
    (fits : Fits size)
    (region : Address) :
    footerOf? region size = some (footerOf region size) := by
  have bound : headerBytes.toNat + size.toNat < 0x10000000000000000 := by
    change 16 + size.toNat < 0x10000000000000000
    unfold Fits at fits
    omega
  simp [footerOf?, Word.add?, bound, footerOf]

/-- The region around a block starts sixteen bytes before it. -/
theorem toNat_of_regionOf?_eq_some
    {block region : Address}
    (around : regionOf? block = some region) :
    region.value.toNat + 16 = block.value.toNat ∧ blockOf region = block := by
  obtain ⟨value, subtracted, rfl⟩ := Option.map_eq_some_iff.mp around
  have exact := Word.toNat_of_sub?_eq_some subtracted
  refine ⟨exact, ?_⟩
  unfold Word.sub? at subtracted
  split at subtracted
  · cases subtracted
    exact Address.add_sub_cancel block headerBytes
  · cases subtracted

theorem Fits.regionSize?_eq_some
    {size : UInt64}
    (fits : Fits size) :
    regionSize? size = some (size + 24) := by
  have bound : size.toNat + (headerBytes + footerBytes).toNat < 0x10000000000000000 := fits
  rw [regionSize?, Word.add?, if_pos bound]
  rfl

theorem regionSize?_eq_none
    {size : UInt64}
    (large : ¬ Fits size) :
    regionSize? size = none := by
  have bound : ¬ size.toNat + (headerBytes + footerBytes).toNat < 0x10000000000000000 := large
  rw [regionSize?, Word.add?, if_neg bound]

theorem Fits.toNat_add
    {size : UInt64}
    (fits : Fits size) :
    (size + 24).toNat = size.toNat + 24 := by
  rw [UInt64.toNat_add]
  exact Nat.mod_eq_of_lt fits

theorem fits_of_le_largestSize
    {size : UInt64}
    (bounded : size ≤ largestSize) :
    Fits size := by
  have bound : size.toNat ≤ 2 ^ 63 - 1 := UInt64.le_iff_toNat_le.mp bounded
  unfold Fits
  omega

theorem Fits.toNat_headerBytes_add
    {size : UInt64}
    (fits : Fits size) :
    (headerBytes + size).toNat = 16 + size.toNat := by
  unfold Fits at fits
  rw [UInt64.toNat_add, show headerBytes.toNat = 16 from rfl]
  omega

theorem region_apart_header (region : Address) :
    WordsApart region (headerOf region) :=
  Memory.wordsApart_add region (by decide) (by decide)

theorem Fits.region_apart_footer
    {size : UInt64}
    (fits : Fits size)
    (region : Address) :
    WordsApart region (footerOf region size) := by
  have distance := fits.toNat_headerBytes_add
  unfold Fits at fits
  exact Memory.wordsApart_add region (by omega) (by omega)

theorem Fits.header_apart_footer
    {size : UInt64}
    (fits : Fits size)
    (region : Address) :
    WordsApart (headerOf region) (footerOf region size) := by
  have behind : footerOf region size = (headerOf region).add (8 + size) := by
    rw [headerOf, Address.add_add, ← UInt64.add_assoc]
    rfl
  have distance : (8 + size).toNat = 8 + size.toNat := by
    unfold Fits at fits
    rw [UInt64.toNat_add, show (8 : UInt64).toNat = 8 from rfl]
    omega
  unfold Fits at fits
  rw [behind]
  exact Memory.wordsApart_add _ (by omega) (by omega)

/-- An address is one of the guard words' in a region. -/
def InWords (region : Address) (size : UInt64) (address : Address) : Prop :=
  InWord region address ∨ InWord (headerOf region) address ∨
    InWord (footerOf region size) address

theorem get_mark_of_not_inWords
    (memory : Memory)
    {region address : Address}
    {size : UInt64}
    (sizeWord headerWord footerWord : UInt64)
    (outside : ¬ InWords region size address) :
    (mark memory region (footerOf region size) sizeWord headerWord footerWord).get address =
      memory.get address := by
  simp only [InWords, not_or] at outside
  obtain ⟨notSize, notHeader, notFooter⟩ := outside
  rw [mark, Memory.get_writeWord_of_not_inWord _ _ notFooter,
    Memory.get_writeWord_of_not_inWord _ _ notHeader,
    Memory.get_writeWord_of_not_inWord _ _ notSize]

/-- Three words around a block read back as they were written. -/
theorem Fits.readWord_mark
    {size : UInt64}
    (fits : Fits size)
    (memory : Memory)
    (region : Address)
    (sizeWord headerWord footerWord : UInt64) :
    let marked := mark memory region (footerOf region size) sizeWord headerWord footerWord
    marked.readWord region = sizeWord ∧
      marked.readWord (headerOf region) = headerWord ∧
      marked.readWord (footerOf region size) = footerWord := by
  refine ⟨?_, ?_, Memory.readWord_writeWord_self _ _ _⟩
  · rw [mark, Memory.readWord_writeWord_of_apart _ _ (fits.region_apart_footer region),
      Memory.readWord_writeWord_of_apart _ _ (region_apart_header region),
      Memory.readWord_writeWord_self]
  · rw [mark, Memory.readWord_writeWord_of_apart _ _ (fits.header_apart_footer region),
      Memory.readWord_writeWord_self]

/-- The guard words in a region are those of a live block of a size. -/
structure Intact (memory : Memory) (region : Address) (size : UInt64) : Prop where
  sizeWord : memory.readWord region = size
  headerWord : memory.readWord (headerOf region) = headerStamp
  footerWord : memory.readWord (footerOf region size) = footerStamp

/-- Whether a region is intact depends on the bytes of its guard words. -/
theorem Intact.congr
    {before after : Memory}
    {region : Address}
    {size : UInt64}
    (intact : Intact before region size)
    (same : ∀ address, InWords region size address →
      after.get address = before.get address) :
    Intact after region size where
  sizeWord := by
    rw [← intact.sizeWord]
    exact Memory.readWord_congr fun address inside => same address (Or.inl inside)
  headerWord := by
    rw [← intact.headerWord]
    exact Memory.readWord_congr fun address inside => same address (Or.inr (Or.inl inside))
  footerWord := by
    rw [← intact.footerWord]
    exact Memory.readWord_congr fun address inside => same address (Or.inr (Or.inr inside))

theorem Fits.intact_store
    {size : UInt64}
    (fits : Fits size)
    (memory : Memory)
    (region : Address) :
    Intact (store memory region (footerOf region size) size) region size := by
  obtain ⟨sizeWord, headerWord, footerWord⟩ :=
    fits.readWord_mark memory region size headerStamp footerStamp
  exact ⟨sizeWord, headerWord, footerWord⟩

/-- Storing the guard words of an intact region after they were cleared gives
back every byte. -/
theorem Intact.get_store_clear
    {memory changed : Memory}
    {region : Address}
    {size : UInt64}
    (intact : Intact memory region size)
    (fits : Fits size)
    (unchanged : changed.get = (clear memory region (footerOf region size)).get) :
    (store changed region (footerOf region size) size).get = memory.get := by
  have stored := fits.intact_store changed region
  funext address
  by_cases inside : InWords region size address
  · rcases inside with inSize | inHeader | inFooter
    · exact Memory.get_eq_of_readWord_eq (stored.sizeWord.trans intact.sizeWord.symm) inSize
    · exact Memory.get_eq_of_readWord_eq (stored.headerWord.trans intact.headerWord.symm) inHeader
    · exact Memory.get_eq_of_readWord_eq (stored.footerWord.trans intact.footerWord.symm) inFooter
  · rw [store, get_mark_of_not_inWords _ _ _ _ inside, unchanged, clear,
      get_mark_of_not_inWords _ _ _ _ inside]

/-- What `fetch` can find in a region, in the order in which the words are
judged. -/
inductive Finding (memory : Memory) (region : Address) :
    Except (Failure HeapError) UInt64 → Prop
  | ended
      (sizeWord : memory.readWord region = cleanup)
      (headerWord : memory.readWord (headerOf region) = cleanup) :
      Finding memory region (.error (.refused (.doubleFree (blockOf region))))
  | badSize
      (senseless : memory.readWord region = 0 ∨ largestSize < memory.readWord region)
      (notEnded : ¬ (memory.readWord region = cleanup ∧
        memory.readWord (headerOf region) = cleanup)) :
      Finding memory region (.error (.refused
        (.corrupted (blockOf region) .size largestSize (memory.readWord region))))
  | badHeader
      (nonempty : memory.readWord region ≠ 0)
      (bounded : memory.readWord region ≤ largestSize)
      (headerWord : memory.readWord (headerOf region) ≠ headerStamp) :
      Finding memory region (.error (.refused
        (.corrupted (blockOf region) .header headerStamp (memory.readWord (headerOf region)))))
  | badFooter
      (nonempty : memory.readWord region ≠ 0)
      (bounded : memory.readWord region ≤ largestSize)
      (headerWord : memory.readWord (headerOf region) = headerStamp)
      (footerWord : memory.readWord (footerOf region (memory.readWord region)) ≠ footerStamp) :
      Finding memory region (.error (.refused
        (.corrupted (blockOf region) .footer footerStamp
          (memory.readWord (footerOf region (memory.readWord region))))))
  | intact
      {size : UInt64}
      (nonempty : size ≠ 0)
      (bounded : size ≤ largestSize)
      (words : Intact memory region size) :
      Finding memory region (.ok size)

/-- Looking at guard words finds one of these things and never overflows. -/
theorem fetch_finding (memory : Memory) (region : Address) :
    Finding memory region (fetch memory region) := by
  unfold fetch
  dsimp only
  split
  · rename_i ended
    exact .ended ended.1 ended.2
  rename_i notEnded
  split
  · rename_i senseless
    exact .badSize senseless notEnded
  rename_i sensible
  simp only [not_or, UInt64.not_lt] at sensible
  obtain ⟨nonempty, bounded⟩ := sensible
  split
  · rename_i badHeader
    exact .badHeader nonempty bounded badHeader
  rename_i header
  rw [(fits_of_le_largestSize bounded).footerOf?_eq_some region]
  dsimp only
  split
  · rename_i badFooter
    exact .badFooter nonempty bounded (Decidable.not_not.mp header) badFooter
  · rename_i footer
    exact .intact nonempty bounded
      ⟨rfl, Decidable.not_not.mp header, Decidable.not_not.mp footer⟩

/-- Guard words that are not accepted are a cause for a refusal. -/
theorem refused_of_fetch_eq_error
    {memory : Memory}
    {region : Address}
    {failure : Failure HeapError}
    (fetched : fetch memory region = .error failure) :
    ∃ error, failure = .refused error := by
  have finding := fetch_finding memory region
  rw [fetched] at finding
  cases finding <;> exact ⟨_, rfl⟩

/-- The regions that are accepted are the intact ones of blocks that a size word
can describe. -/
theorem fetch_eq_ok_iff
    (memory : Memory)
    (region : Address)
    (size : UInt64) :
    fetch memory region = .ok size ↔
      size ≠ 0 ∧ size ≤ largestSize ∧ Intact memory region size := by
  constructor
  · intro fetched
    have finding := fetch_finding memory region
    rw [fetched] at finding
    cases finding with
    | intact nonempty bounded words => exact ⟨nonempty, bounded, words⟩
  · rintro ⟨nonempty, bounded, words⟩
    have notCleared : size ≠ cleanup := by
      rintro rfl
      exact absurd bounded (by decide)
    have footer := (fits_of_le_largestSize bounded).footerOf?_eq_some region
    simp [fetch, words.sizeWord, words.headerWord, words.footerWord, notCleared,
      nonempty, UInt64.not_lt.mpr bounded, footer]

end Guard
end GuardedHeap
