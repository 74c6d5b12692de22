import GuardedHeap.Access.Cursor
import GuardedHeap.Proofs.Block.Loosened

/-!
# Cursors over loosened blocks

What a cursor does in a block that checks its arguments, it does in the same way in one that
does not. A cursor looks after the end of its block itself, so nothing more than the blocks
below has to be compared.
-/

namespace GuardedHeap
namespace Cursor

open Fallible (Follows follows_pure follows_refuse follows_exactly follows_modify)

/-- A cursor at the same place of a block that checks no more. -/
structure LoosenedTo (strict loose : Cursor) : Prop where
  block : strict.block.LoosenedTo loose.block
  offset_eq : loose.offset = strict.offset

/-- Cursors at the same place of such blocks, over the same memory. -/
def Beside (strict loose : Cursor × Memory) : Prop :=
  strict.1.LoosenedTo loose.1 ∧ loose.2 = strict.2

theorem follows_current : Follows Beside LoosenedTo current current :=
  Fallible.follows_get.bind fun _ _ beside => follows_pure beside.1

theorem follows_moveTo (offset : UInt64) : Follows Beside Eq (moveTo offset) (moveTo offset) :=
  follows_modify fun _ _ beside => ⟨⟨beside.1.block, rfl⟩, beside.2⟩

theorem follows_onMemory
    {α : Type}
    {leader follower : MemoryM α}
    (follows : Follows Eq Eq leader follower) :
    Follows Beside Eq (onMemory leader) (onMemory follower) := by
  rintro ⟨cursor, _⟩ ⟨looseCursor, memory⟩ ⟨loosened, rfl⟩ value after succeeds
  cases below : leader memory with
  | error failure middle => simp [onMemory, below] at succeeds
  | ok found middle =>
      obtain ⟨rfl, rfl⟩ : found = value ∧ (cursor, middle) = after := by
        simpa [onMemory, below] using succeeds
      obtain ⟨_, _, alike, rfl, rfl⟩ := follows memory memory rfl found middle below
      exact ⟨found, (looseCursor, middle), by simp [onMemory, alike], rfl, loosened, rfl⟩

theorem follows_available : Follows Beside Eq available available := by
  apply follows_current.bind
  intro cursor loose loosened
  rw [loosened.block.size_eq, loosened.offset_eq]
  exact follows_exactly _

theorem follows_setOffset (offset : UInt64) :
    Follows Beside Eq (setOffset offset) (setOffset offset) := by
  apply follows_current.bind
  intro cursor loose loosened
  simp only [loosened.block.size_eq]
  split
  · exact follows_refuse _ _
  · exact follows_moveTo offset

theorem follows_shift (distance : Int64) :
    Follows Beside Eq (shift distance) (shift distance) := by
  apply follows_current.bind
  intro cursor loose loosened
  simp only [loosened.offset_eq]
  split
  · exact follows_refuse _ _
  · exact follows_setOffset _

theorem follows_advance (count : UInt64) : Follows Beside Eq (advance count) (advance count) := by
  apply follows_current.bind
  intro cursor loose loosened
  rw [loosened.offset_eq]
  apply (follows_exactly _).bind
  rintro target _ rfl
  exact follows_moveTo target

theorem follows_skip (count : UInt64) : Follows Beside Eq (skip count) (skip count) := by
  apply follows_available.bind
  rintro left _ rfl
  apply (follows_advance _).bind
  exact fun _ _ _ => follows_pure rfl

theorem follows_ensure (needed : UInt64) : Follows Beside Eq (ensure needed) (ensure needed) := by
  apply follows_available.bind
  rintro left _ rfl
  split
  · exact follows_refuse _ _
  · exact follows_pure rfl

theorem follows_readBytes (count : UInt64) :
    Follows Beside Eq (readBytes count) (readBytes count) := by
  apply (follows_ensure count).bind
  intro _ _ _
  apply follows_current.bind
  intro cursor loose loosened
  rw [loosened.offset_eq]
  apply (follows_onMemory (loosened.block.follows_read _ _)).bind
  rintro bytes _ rfl
  apply (follows_advance count).bind
  exact fun _ _ _ => follows_pure rfl

theorem follows_readNumber (width : UInt64) :
    Follows Beside Eq (readNumber width) (readNumber width) :=
  (follows_readBytes width).map _

/-- The one refusal that is taken note of ends the reading all the same. -/
theorem follows_readCounted : Follows Beside Eq readCounted readCounted := by
  apply follows_current.bind
  intro cursor loose loosened
  refine Follows.attempt_bind (?body : Follows Beside Eq _ _) ?goesOn ?stops
  case body =>
    apply (follows_readNumber 2).bind
    rintro length _ rfl
    apply (follows_readBytes _).bind
    rintro bytes _ rfl
    cases Text.decode bytes with
    | error error => exact follows_refuse _ _
    | ok text => exact follows_pure rfl
  case goesOn =>
    rintro text _ rfl
    exact follows_pure rfl
  case stops =>
    intro error before text after succeeds
    cases succeeds

theorem follows_read (type : DatumType) : Follows Beside Eq (read type) (read type) := by
  cases type with
  | bytes count => exact (follows_readBytes count).map _
  | counted => exact follows_readCounted.map _
  | _ => exact (follows_readNumber _).map _

theorem follows_writeBytes (bytes : List UInt8) :
    Follows Beside Eq (writeBytes bytes) (writeBytes bytes) := by
  apply (follows_exactly _).bind
  rintro count _ rfl
  apply (follows_ensure count).bind
  intro _ _ _
  apply follows_current.bind
  intro cursor loose loosened
  rw [loosened.offset_eq]
  apply (follows_onMemory (loosened.block.follows_write _ _)).bind
  exact fun _ _ _ => follows_advance count

theorem follows_writePieces (pieces : List (List UInt8)) :
    Follows Beside Eq (Output.writePieces pieces : CursorM Unit)
      (Output.writePieces pieces) := by
  induction pieces with
  | nil => exact follows_pure rfl
  | cons piece pieces inductionHypothesis =>
      apply (follows_writeBytes piece).bind
      exact fun _ _ _ => inductionHypothesis

theorem follows_write (datum : Datum) : Follows Beside Eq (write datum) (write datum) := by
  have pieces : Follows Beside Eq (Output.write datum : CursorM Unit) (Output.write datum) := by
    apply (Fallible.follows_weaker (.refl datum.pieces)).bind
    rintro pieces _ rfl
    exact follows_writePieces pieces
  cases datum with
  | counted text =>
      show Follows Beside Eq (writeCounted text) (writeCounted text)
      unfold writeCounted
      cases Text.encode text with
      | error error => exact follows_refuse _ _
      | ok body =>
          apply (follows_exactly _).bind
          rintro needed _ rfl
          apply (follows_ensure needed).bind
          intro _ _ _
          apply (follows_writeBytes _).bind
          exact fun _ _ _ => follows_writeBytes _
  | _ => exact pieces

end Cursor
end GuardedHeap
