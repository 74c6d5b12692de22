import GuardedHeap.Proofs.Block.Confinement
import GuardedHeap.Proofs.Memory.Preserved

/-!
# What operations on blocks leave alone

An operation on blocks changes no byte outside the root of its target, and refuses
only for reasons of bounds. It never tells an error by which an allocator says that an
address is not its own or that guard words were overwritten.
-/

namespace GuardedHeap

/-- Whether an error tells of an address that is not live, or of guard words that were
overwritten. -/
def HeapError.trips : HeapError → Bool
  | .unknownAddress _ => true
  | .doubleFree _ => true
  | .corrupted .. => true
  | _ => false

/-- An error that does not trip. -/
abbrev HeapError.Harmless (error : HeapError) : Prop :=
  error.trips = false

/-- A memory has the bytes of another one outside a region. -/
def Memory.SameOutside (region : Address → Prop) (original memory : Memory) : Prop :=
  ∀ address, ¬ region address → memory.get address = original.get address

namespace Extent

theorem harmless_of_checkSpan
    {offset length size : UInt64}
    {error : HeapError}
    (refused : checkSpan offset length size = .error error) :
    error.Harmless := by
  unfold checkSpan at refused
  split at refused
  · cases refused
    rfl
  · split at refused
    · cases refused
    · cases refused
      rfl

theorem harmless_of_withinRoot
    {root : Extent}
    {start : Address}
    {length : UInt64}
    {error : HeapError}
    (refused : root.withinRoot start length = .error error) :
    error.Harmless := by
  unfold withinRoot at refused
  split at refused
  · cases refused
    rfl
  · exact harmless_of_checkSpan refused

theorem harmless_of_slice
    {extent : Extent}
    {checked : Bool}
    {offset size : UInt64}
    {error : HeapError}
    (refused : extent.slice checked offset size = .error error) :
    error.Harmless := by
  unfold slice at refused
  split at refused
  · cases span : checkSpan offset size extent.size with
    | error cause =>
        rw [span] at refused
        cases refused
        exact harmless_of_checkSpan span
    | ok _ =>
        rw [span] at refused
        cases refused
  · cases refused

theorem harmless_of_sliceLast
    {extent : Extent}
    {checked : Bool}
    {size : UInt64}
    {error : HeapError}
    (refused : extent.sliceLast checked size = .error error) :
    error.Harmless := by
  unfold sliceLast at refused
  split at refused
  · cases refused
    rfl
  · cases refused

end Extent

/-- A check refuses for a cause of its first part, or for one of the rest. -/
theorem Fallible.error_of_check_bind
    {ε α β : Type}
    {first : Except ε α}
    {next : α → Except ε β}
    {error : ε}
    (refused : (first >>= next) = .error error) :
    first = .error error ∨ ∃ value, first = .ok value ∧ next value = .error error := by
  cases first with
  | error cause =>
      cases refused
      exact Or.inl rfl
  | ok value => exact Or.inr ⟨value, rfl, refused⟩

namespace Block

theorem harmless_of_locate
    {block : Block}
    {offset length : UInt64}
    {error : HeapError}
    (refused : block.locate offset length = .error error) :
    error.Harmless := by
  unfold locate at refused
  split at refused
  · cases refused
  · cases within : block.root.extent.withinRoot (block.address.add offset) length with
    | error cause =>
        simp only [within] at refused
        cases refused
        exact Extent.harmless_of_withinRoot within
    | ok _ =>
        simp only [within] at refused
        cases refused

theorem harmless_of_locateRange
    {block : Block}
    {offset length : UInt64}
    {error : HeapError}
    (refused : block.locateRange offset length = .error error) :
    error.Harmless := by
  unfold locateRange at refused
  rcases Fallible.error_of_check_bind refused with outside | ⟨_, _, outside⟩
  · unfold checkRange at outside
    split at outside
    · exact Extent.harmless_of_checkSpan outside
    · cases outside
  · exact harmless_of_locate outside

theorem harmless_of_locateEach
    {source target : Block}
    {sourceOffset targetOffset length : UInt64}
    {error : HeapError}
    (refused : source.locateEach sourceOffset target targetOffset length = .error error) :
    error.Harmless := by
  unfold locateEach at refused
  rcases Fallible.error_of_check_bind refused with outside | ⟨first, _, refused⟩
  · exact harmless_of_locate outside
  rcases Fallible.error_of_check_bind refused with outside | ⟨second, _, refused⟩
  · exact harmless_of_locate outside
  cases first <;> cases second <;> cases refused

theorem harmless_of_locateBoth
    {source target : Block}
    {sourceOffset targetOffset length : UInt64}
    {error : HeapError}
    (refused : source.locateBoth sourceOffset target targetOffset length = .error error) :
    error.Harmless := by
  unfold locateBoth at refused
  split at refused
  · rcases Fallible.error_of_check_bind refused with outside | ⟨_, _, refused⟩
    · exact Extent.harmless_of_checkSpan outside
    rcases Fallible.error_of_check_bind refused with outside | ⟨_, _, refused⟩
    · exact Extent.harmless_of_checkSpan outside
    · exact harmless_of_locateEach refused
  · exact harmless_of_locateEach refused

theorem harmless_of_slice
    {block : Block}
    {offset size : UInt64}
    {error : HeapError}
    (refused : block.slice offset size = .error error) :
    error.Harmless := by
  unfold slice at refused
  cases extent : block.extent.slice block.checked offset size with
  | error cause =>
      rw [extent] at refused
      cases refused
      exact Extent.harmless_of_slice extent
  | ok part =>
      rw [extent] at refused
      cases refused

theorem harmless_of_sliceLast
    {block : Block}
    {size : UInt64}
    {error : HeapError}
    (refused : block.sliceLast size = .error error) :
    error.Harmless := by
  unfold sliceLast at refused
  cases extent : block.extent.sliceLast block.checked size with
  | error cause =>
      rw [extent] at refused
      cases refused
      exact Extent.harmless_of_sliceLast extent
  | ok part =>
      rw [extent] at refused
      cases refused

section Preserves

open Fallible (Preserves)
open HeapError (Harmless)
open Memory (SameOutside)

variable {region : Address → Prop}
variable {original : Memory}
variable {invariant : Memory → Prop}
variable {block source target left right : Block}

theorem preserves_read (offset length : UInt64) :
    Preserves invariant Harmless (fun _ => True) (block.read offset length) := by
  apply Fallible.preserves_query
  intro memory error refused
  unfold bytesAt at refused
  cases located : block.locateRange offset length with
  | error cause =>
      rw [located] at refused
      cases refused
      exact harmless_of_locateRange located
  | ok start =>
      rw [located] at refused
      cases refused

theorem preserves_compareTo (leftOffset rightOffset length : UInt64) :
    Preserves invariant Harmless (fun _ => True)
      (left.compareTo leftOffset right rightOffset length) := by
  apply (Fallible.preserves_ofCheck fun _ => harmless_of_locateBoth).bind
  intro starts _
  cases starts with
  | none => exact Fallible.preserves_pure trivial
  | some starts => exact Fallible.preserves_get.map _

theorem preserves_write
    (rooted : block.Rooted)
    (within : ∀ address, block.InRoot address → region address)
    (offset : UInt64)
    (bytes : List UInt8) :
    Preserves (SameOutside region original) Harmless (fun _ => True)
      (block.write offset bytes) := by
  apply (Fallible.preserves_exactly _).bind
  intro length counted
  apply (Fallible.preserves_ofCheck fun _ => harmless_of_locateRange).bind
  intro start located
  cases start with
  | none => exact Fallible.preserves_pure trivial
  | some start =>
      apply Fallible.preserves_modify
      intro memory same address outside
      rw [← same address outside]
      apply Memory.get_write_of_far
      rw [← Word.toNat_of_ofNat?_eq_some counted]
      exact Nat.le_of_not_lt fun near =>
        outside (within address (inRoot_of_locateRange rooted located near))

theorem preserves_fill
    (rooted : block.Rooted)
    (within : ∀ address, block.InRoot address → region address)
    (value : UInt8) :
    Preserves (SameOutside region original) Harmless (fun _ => True) (block.fill value) := by
  apply (Fallible.preserves_ofCheck fun _ => harmless_of_locate).bind
  intro start located
  cases start with
  | none => exact Fallible.preserves_pure trivial
  | some start =>
      apply Fallible.preserves_modify
      intro memory same address outside
      rw [← same address outside]
      apply Memory.get_fill_of_far
      exact Nat.le_of_not_lt fun near =>
        outside (within address (inRoot_of_locate rooted located near))

theorem preserves_copyTo
    (rooted : target.Rooted)
    (within : ∀ address, target.InRoot address → region address)
    (sourceOffset targetOffset length : UInt64) :
    Preserves (SameOutside region original) Harmless (fun _ => True)
      (source.copyTo sourceOffset target targetOffset length) := by
  apply (Fallible.preserves_ofCheck fun _ => harmless_of_locateBoth).bind
  intro starts located
  cases starts with
  | none => exact Fallible.preserves_pure trivial
  | some starts =>
      obtain ⟨_, fromTarget⟩ := locate_of_locateBoth located
      apply Fallible.preserves_modify
      intro memory same address outside
      rw [← same address outside]
      apply Memory.get_copy_of_far
      exact Nat.le_of_not_lt fun near =>
        outside (within address (inRoot_of_locate rooted fromTarget near))

theorem preserves_getByte (offset : UInt64) :
    Preserves invariant Harmless (fun _ => True) (block.getByte offset) :=
  (preserves_read offset 1).map _

/-- An operation changes no byte outside the root of its target. -/
theorem Operation.preserves
    {operation : Operation}
    (rooted : ∀ block ∈ operation.target?, block.Rooted)
    (within : ∀ address, operation.Targets address → region address) :
    Preserves (SameOutside region original) Harmless (fun _ => True) operation.run := by
  have inside : ∀ block ∈ operation.target?, ∀ address, block.InRoot address →
      region address :=
    fun block present address contains => within address ⟨block, present, contains⟩
  cases operation with
  | fill target value => exact (preserves_fill (rooted _ rfl) (inside _ rfl) value).map _
  | copyTo source sourceOffset target targetOffset length =>
      exact (preserves_copyTo (rooted _ rfl) (inside _ rfl) _ _ _).map _
  | copyAllTo source target =>
      exact (preserves_copyTo (rooted _ rfl) (inside _ rfl) _ _ _).map _
  | copyPrefixTo source target length =>
      exact (preserves_copyTo (rooted _ rfl) (inside _ rfl) _ _ _).map _
  | compareTo left leftOffset right rightOffset length =>
      exact (preserves_compareTo _ _ _).map _
  | compareAll left right => exact (preserves_compareTo _ _ _).map _
  | comparePrefix left right length => exact (preserves_compareTo _ _ _).map _
  | read source offset length => exact (preserves_read _ _).map _
  | write target offset bytes =>
      exact (preserves_write (rooted _ rfl) (inside _ rfl) _ _).map _
  | getByte source offset => exact (preserves_getByte _).map _
  | putByte target offset value =>
      exact (preserves_write (rooted _ rfl) (inside _ rfl) _ _).map _

end Preserves

end Block
end GuardedHeap
