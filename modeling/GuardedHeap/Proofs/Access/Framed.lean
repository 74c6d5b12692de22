import GuardedHeap.Access.Cursor
import GuardedHeap.Bloom
import GuardedHeap.Proofs.Block.Framed

/-!
# What sets, filters and cursors leave alone

Sets, filters and cursors are built on blocks, and change bytes of the roots of these
only. As with blocks, their refusals are about bounds, about the end of a block or about
text.
-/

namespace GuardedHeap

open Fallible (Preserves)
open HeapError (Harmless)
open Memory (SameOutside)

variable {region : Address → Prop}
variable {original : Memory}

namespace BitSet

/-- What can be asked of a set. -/
inductive Request
  | insert (index : UInt64)
  | toggle (index : UInt64)
  | erase (index : UInt64)
  | contains (index : UInt64)
  | clear
  | count
  deriving DecidableEq

/-- Do what is asked of a set. -/
def Request.run (set : BitSet) : Request → MemoryM Unit
  | .insert index => set.insert index
  | .toggle index => set.toggle index
  | .erase index => set.erase index
  | .contains index => do
      let _ ← set.contains index
      pure ()
  | .clear => set.clear
  | .count => do
      let _ ← set.count
      pure ()

variable {set : BitSet}

theorem preserves_checkIndex
    {invariant : Memory → Prop}
    (index : UInt64) :
    Preserves invariant Harmless (fun _ => True) (set.checkIndex index) := by
  unfold checkIndex
  split
  · exact Fallible.preserves_refuse rfl
  · exact Fallible.preserves_pure trivial

theorem preserves_contains
    {invariant : Memory → Prop}
    (index : UInt64) :
    Preserves invariant Harmless (fun _ => True) (set.contains index) := by
  apply (preserves_checkIndex index).bind
  intro _ _
  exact (Block.preserves_getByte _).map _

theorem preserves_update
    (rooted : set.block.Rooted)
    (within : ∀ address, set.block.InRoot address → region address)
    (change : UInt8 → UInt8 → UInt8)
    (index : UInt64) :
    Preserves (SameOutside region original) Harmless (fun _ => True)
      (set.update change index) := by
  apply (preserves_checkIndex index).bind
  intro _ _
  apply (Block.preserves_getByte _).bind
  intro byte _
  exact Block.preserves_write rooted within _ _

theorem Request.preserves
    (rooted : set.block.Rooted)
    (within : ∀ address, set.block.InRoot address → region address)
    (request : Request) :
    Preserves (SameOutside region original) Harmless (fun _ => True) (request.run set) := by
  cases request with
  | insert index => exact preserves_update rooted within _ index
  | toggle index => exact preserves_update rooted within _ index
  | erase index => exact preserves_update rooted within _ index
  | contains index => exact (preserves_contains index).map _
  | clear => exact Block.preserves_fill rooted within 0
  | count => exact ((Block.preserves_read _ _).map _).map _

end BitSet

namespace Bloom

/-- What can be asked of a filter. -/
inductive Request
  | put (word : UInt64)
  | contains (word : UInt64)
  | clear
  deriving DecidableEq

/-- Do what is asked of a filter. -/
def Request.run (filter : Bloom) : Request → MemoryM Unit
  | .put word => filter.put word
  | .contains word => do
      let _ ← filter.contains word
      pure ()
  | .clear => filter.clear

theorem preserves_insertAll
    {set : BitSet}
    (rooted : set.block.Rooted)
    (within : ∀ address, set.block.InRoot address → region address)
    (positions : List UInt64) :
    Preserves (SameOutside region original) Harmless (fun _ => True)
      (insertAll set positions) := by
  induction positions with
  | nil => exact Fallible.preserves_pure trivial
  | cons position positions inductionHypothesis =>
      apply (BitSet.preserves_update rooted within _ position).bind
      exact fun _ _ => inductionHypothesis

theorem preserves_containsAll
    {set : BitSet}
    {invariant : Memory → Prop}
    (positions : List UInt64) :
    Preserves invariant Harmless (fun _ => True) (containsAll set positions) := by
  induction positions with
  | nil => exact Fallible.preserves_pure trivial
  | cons position positions inductionHypothesis =>
      apply (BitSet.preserves_contains position).bind
      intro isOn _
      cases isOn with
      | true => exact inductionHypothesis
      | false => exact Fallible.preserves_pure trivial

theorem Request.preserves
    {filter : Bloom}
    (rooted : filter.bits.block.Rooted)
    (within : ∀ address, filter.bits.block.InRoot address → region address)
    (request : Request) :
    Preserves (SameOutside region original) Harmless (fun _ => True) (request.run filter) := by
  cases request with
  | put word => exact preserves_insertAll rooted within _
  | contains word => exact (preserves_containsAll _).map _
  | clear => exact Block.preserves_fill rooted within 0

end Bloom

/-- Whether an error comes from one of memory that trips. -/
def AccessError.trips : AccessError → Bool
  | .memory error => error.trips
  | _ => false

/-- An error that does not trip. -/
abbrev AccessError.Harmless (error : AccessError) : Prop :=
  error.trips = false

namespace Cursor

/-- What can be asked of a cursor. -/
inductive Request
  | write (datum : Datum)
  | read (type : DatumType)
  | setOffset (offset : UInt64)
  | shift (distance : Int64)
  | skip (count : UInt64)
  deriving DecidableEq

/-- Do what is asked of a cursor. -/
def Request.run : Request → CursorM Unit
  | .write datum => Cursor.write datum
  | .read type => do
      let _ ← Cursor.read type
      pure ()
  | .setOffset offset => Cursor.setOffset offset
  | .shift distance => Cursor.shift distance
  | .skip count => do
      let _ ← Cursor.skip count
      pure ()

/-- A cursor stands in a block, and memory is as it was outside a region. -/
structure Stays
    (block : Block)
    (region : Address → Prop)
    (original : Memory)
    (state : Cursor × Memory) : Prop where
  block_eq : state.1.block = block
  memory : SameOutside region original state.2

variable {block : Block}

theorem preserves_current :
    Preserves (Stays block region original) AccessError.Harmless
      (fun cursor => cursor.block = block) current :=
  Fallible.preserves_get.bind fun _ stays => Fallible.preserves_pure stays.block_eq

theorem preserves_moveTo (offset : UInt64) :
    Preserves (Stays block region original) AccessError.Harmless (fun _ => True)
      (moveTo offset) :=
  Fallible.preserves_modify fun _ stays => ⟨stays.block_eq, stays.memory⟩

theorem preserves_onMemory
    {α : Type}
    {computation : MemoryM α}
    {yields : α → Prop}
    (preserves : Preserves (SameOutside region original) Harmless yields computation) :
    Preserves (Stays block region original) AccessError.Harmless yields
      (onMemory computation) where
  ok before value after stays ended := by
    obtain ⟨cursor, memory⟩ := before
    unfold onMemory at ended
    cases result : computation memory with
    | ok found middle =>
        simp only [result] at ended
        cases ended
        obtain ⟨same, known⟩ := preserves.ok _ _ _ stays.memory result
        exact ⟨⟨stays.block_eq, same⟩, known⟩
    | error failure middle =>
        simp only [result] at ended
        cases ended
  error before failure after stays ended := by
    obtain ⟨cursor, memory⟩ := before
    unfold onMemory at ended
    cases result : computation memory with
    | ok found middle =>
        simp only [result] at ended
        cases ended
    | error cause middle =>
        simp only [result] at ended
        cases ended
        obtain ⟨same, harmless⟩ := preserves.error _ _ _ stays.memory result
        refine ⟨⟨stays.block_eq, same⟩, ?_⟩
        cases cause with
        | refused error =>
            rintro _ ⟨⟩
            exact harmless error rfl
        | overflow => exact nofun

theorem preserves_available :
    Preserves (Stays block region original) AccessError.Harmless (fun _ => True)
      available := by
  apply preserves_current.bind
  intro cursor _
  exact (Fallible.preserves_exactly _).weaken fun _ _ => trivial

theorem preserves_setOffset (offset : UInt64) :
    Preserves (Stays block region original) AccessError.Harmless (fun _ => True)
      (setOffset offset) := by
  apply preserves_current.bind
  intro cursor _
  dsimp only
  split
  · exact Fallible.preserves_refuse rfl
  · exact preserves_moveTo offset

theorem preserves_shift (distance : Int64) :
    Preserves (Stays block region original) AccessError.Harmless (fun _ => True)
      (shift distance) := by
  apply preserves_current.bind
  intro cursor _
  split
  · exact Fallible.preserves_refuse rfl
  · exact preserves_setOffset _

theorem preserves_advance (count : UInt64) :
    Preserves (Stays block region original) AccessError.Harmless (fun _ => True)
      (advance count) := by
  apply preserves_current.bind
  intro cursor _
  apply (Fallible.preserves_exactly _).bind
  exact fun target _ => preserves_moveTo target

theorem preserves_skip (count : UInt64) :
    Preserves (Stays block region original) AccessError.Harmless (fun _ => True)
      (skip count) := by
  apply preserves_available.bind
  intro left _
  apply (preserves_advance _).bind
  exact fun _ _ => Fallible.preserves_pure trivial

theorem preserves_ensure (needed : UInt64) :
    Preserves (Stays block region original) AccessError.Harmless (fun _ => True)
      (ensure needed) := by
  apply preserves_available.bind
  intro left _
  split
  · exact Fallible.preserves_refuse rfl
  · exact Fallible.preserves_pure trivial

theorem preserves_readBytes (count : UInt64) :
    Preserves (Stays block region original) AccessError.Harmless (fun _ => True)
      (readBytes count) := by
  apply (preserves_ensure count).bind
  intro _ _
  apply preserves_current.bind
  intro cursor _
  apply (preserves_onMemory (Block.preserves_read _ _)).bind
  intro bytes _
  apply (preserves_advance count).bind
  exact fun _ _ => Fallible.preserves_pure trivial

theorem preserves_readNumber (width : UInt64) :
    Preserves (Stays block region original) AccessError.Harmless (fun _ => True)
      (readNumber width) :=
  (preserves_readBytes width).map _

theorem preserves_readCounted :
    Preserves (Stays block region original) AccessError.Harmless (fun _ => True)
      readCounted := by
  apply preserves_current.bind
  intro cursor _
  refine Preserves.bind (Preserves.attempt (?body : Preserves _ _ (fun _ => True) _)) ?rest
  case body =>
    apply (preserves_readNumber 2).bind
    intro length _
    apply (preserves_readBytes _).bind
    intro bytes _
    cases Text.decode bytes with
    | error error => exact Fallible.preserves_refuse rfl
    | ok text => exact Fallible.preserves_pure trivial
  case rest =>
    intro result harmless
    cases result with
    | ok text => exact Fallible.preserves_pure trivial
    | error error =>
        apply (preserves_moveTo _).bind
        exact fun _ _ => Fallible.preserves_refuse (harmless error rfl)

theorem preserves_read (type : DatumType) :
    Preserves (Stays block region original) AccessError.Harmless (fun _ => True)
      (read type) := by
  cases type with
  | bytes count => exact (preserves_readBytes count).map _
  | counted => exact preserves_readCounted.map _
  | _ => exact (preserves_readNumber _).map _

theorem preserves_writeBytes
    (rooted : block.Rooted)
    (within : ∀ address, block.InRoot address → region address)
    (bytes : List UInt8) :
    Preserves (Stays block region original) AccessError.Harmless (fun _ => True)
      (writeBytes bytes) := by
  apply (Fallible.preserves_exactly _).bind
  intro count _
  apply (preserves_ensure count).bind
  intro _ _
  apply preserves_current.bind
  rintro cursor rfl
  apply (preserves_onMemory (Block.preserves_write rooted within _ _)).bind
  exact fun _ _ => preserves_advance count

theorem preserves_writePieces
    (rooted : block.Rooted)
    (within : ∀ address, block.InRoot address → region address)
    (pieces : List (List UInt8)) :
    Preserves (Stays block region original) AccessError.Harmless (fun _ => True)
      (Output.writePieces pieces) := by
  induction pieces with
  | nil => exact Fallible.preserves_pure trivial
  | cons piece pieces inductionHypothesis =>
      apply (preserves_writeBytes rooted within piece).bind
      exact fun _ _ => inductionHypothesis

/-- Text that cannot be encoded is no matter of memory. -/
theorem harmless_of_pieces
    {datum : Datum}
    {error : AccessError}
    (refused : datum.pieces = .error error) :
    error.Harmless := by
  cases datum with
  | counted text =>
      simp only [Datum.pieces] at refused
      cases encoded : Text.encode text with
      | error cause =>
          rw [encoded] at refused
          cases refused
          rfl
      | ok body =>
          rw [encoded] at refused
          cases refused
  | _ => cases refused

theorem preserves_write
    (rooted : block.Rooted)
    (within : ∀ address, block.InRoot address → region address)
    (datum : Datum) :
    Preserves (Stays block region original) AccessError.Harmless (fun _ => True)
      (write datum) := by
  have pieces : Preserves (Stays block region original) AccessError.Harmless (fun _ => True)
      (Output.write datum) := by
    apply (Fallible.preserves_ofCheck fun _ => harmless_of_pieces).bind
    exact fun pieces _ => preserves_writePieces rooted within pieces
  cases datum with
  | counted text =>
      show Preserves _ _ _ (writeCounted text)
      unfold writeCounted
      cases Text.encode text with
      | error error => exact Fallible.preserves_refuse rfl
      | ok body =>
          apply (Fallible.preserves_exactly _).bind
          intro needed _
          apply (preserves_ensure needed).bind
          intro _ _
          apply (preserves_writeBytes rooted within _).bind
          exact fun _ _ => preserves_writeBytes rooted within _
  | _ => exact pieces

theorem Request.preserves
    (rooted : block.Rooted)
    (within : ∀ address, block.InRoot address → region address)
    (request : Request) :
    Preserves (Stays block region original) AccessError.Harmless (fun _ => True)
      request.run := by
  cases request with
  | write datum => exact preserves_write rooted within datum
  | read type => exact (preserves_read type).map _
  | setOffset offset => exact preserves_setOffset offset
  | shift distance => exact preserves_shift distance
  | skip count => exact (preserves_skip count).map _

end Cursor
end GuardedHeap
