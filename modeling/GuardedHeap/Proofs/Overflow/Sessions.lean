import GuardedHeap.Proofs.Access.Programs
import GuardedHeap.Proofs.Overflow.Blocks
import GuardedHeap.Proofs.Overflow.Cursors

/-!
# No overflow in sessions

A session works with many blocks and cursors over one memory. Each of its cursors stands in
the block in which it was opened, whatever commands are given, and this is all that the
commands need: none of them overflows.
-/

namespace GuardedHeap
namespace Session

open Fallible (Steady steady_get steady_modify steady_ofCheck steady_pure)

variable {α : Type}

/-- Every cursor stands in its block. -/
def Standing (session : Session) : Prop :=
  ∀ name, (session.cursors.get name).StandsIn (session.cursors.get name).block

/-- Bytes and texts of a command are as long as those that a program can hold. -/
def Command.Sized : Command → Prop
  | .write _ _ bytes => bytes.length < 0x10000000000000000
  | .access _ (.write datum) => datum.Sized
  | _ => True

/-- The sum that is made before a command is carried out, if it is a word. -/
def Command.sum? : Command → Option UInt64
  | .access _ (.write datum) => datum.sum?
  | _ => some 0

theorem Command.Sized.exists_sum
    {command : Command}
    (sized : command.Sized) :
    ∃ sum, command.sum? = some sum := by
  cases command with
  | access cursor request =>
      cases request with
      | write datum => exact Datum.Sized.exists_sum sized
      | _ => exact ⟨0, rfl⟩
  | _ => exact ⟨0, rfl⟩

theorem steady_block (name : Nat) : Steady Standing (fun _ => True) (block name) :=
  steady_get.map _

theorem steady_nameBlock (name : Nat) (block : Block) :
    Steady Standing (fun _ => True) (nameBlock name block) :=
  steady_modify fun _ standing => standing

theorem standing_set
    {session : Session}
    {cursor : Cursor}
    (standing : session.Standing)
    (stands : cursor.StandsIn cursor.block)
    (name : Nat)
    (memory : Memory) :
    Standing { session with cursors := session.cursors.set name cursor, memory } := by
  intro other
  show ((session.cursors.set name cursor).get other).StandsIn
    ((session.cursors.set name cursor).get other).block
  rw [Table.get_set]
  split
  · exact stands
  · exact standing other

theorem steady_openCursor (name : Nat) (block : Block) :
    Steady Standing (fun _ => True) (nameCursor name (Cursor.start block)) :=
  steady_modify fun session standing =>
    standing_set standing (Cursor.standsIn_start block) name session.memory

theorem steady_onMemory
    {yields : α → Prop}
    {computation : MemoryM α}
    (steady : Steady (fun _ => True) yields computation) :
    Steady Standing yields (onMemory computation) := by
  intro session standing
  have settled := steady session.memory trivial
  unfold onMemory
  generalize computation session.memory = result at settled ⊢
  cases settled with
  | value _ known => exact .value standing known
  | refused _ => exact .refused standing

theorem steady_onCursor
    {yields : α → Prop}
    {computation : CursorM α}
    (steady : ∀ block, Steady (Cursor.Stands block) yields computation)
    (name : Nat) :
    Steady Standing yields (onCursor name computation) := by
  intro session standing
  have settled := steady _ (session.cursors.get name, session.memory) (standing name)
  unfold onCursor
  generalize computation (session.cursors.get name, session.memory) = result at settled ⊢
  cases settled with
  | @value found after stands known =>
      refine .value (standing_set standing ?_ name after.2) known
      exact ⟨rfl, stands.block_eq ▸ stands.offset_le⟩
  | @refused error after stands =>
      refine .refused (standing_set standing ?_ name after.2)
      exact ⟨rfl, stands.block_eq ▸ stands.offset_le⟩

theorem steady_check (check : Except HeapError α) :
    Steady Standing (fun _ => True) (onMemory (Fallible.ofCheck check)) :=
  steady_onMemory ((steady_ofCheck check).weaken fun _ _ => trivial)

theorem steady_keep (name : Nat) (cut : Except HeapError Block) :
    Steady Standing (fun _ => True) (keep name cut) :=
  (steady_check cut).bind fun part _ =>
    (steady_nameBlock name part).bind fun _ _ => steady_pure trivial

/-- What is done with one block and memory. -/
theorem steady_one
    {computation : Block → MemoryM α}
    (steady : ∀ block, Steady (fun _ => True) (fun _ => True) (computation block))
    (name : Nat)
    (change : α → Answer) :
    Steady Standing (fun _ => True)
      (do pure (change (← onMemory (computation (← block name))))) :=
  (steady_block name).bind fun block _ => (steady_onMemory (steady block)).map change

/-- What is done with two blocks and memory. -/
theorem steady_two
    {computation : Block → Block → MemoryM α}
    (steady : ∀ first second, Steady (fun _ => True) (fun _ => True) (computation first second))
    (first second : Nat)
    (change : α → Answer) :
    Steady Standing (fun _ => True)
      (do pure (change (← onMemory (computation (← block first) (← block second))))) :=
  (steady_block first).bind fun one _ => (steady_block second).bind fun other _ =>
    (steady_onMemory (steady one other)).map change

theorem steady_answerOf
    {block : Block}
    {request : Cursor.Request}
    (sized : ∀ datum, request = .write datum → datum.Sized) :
    Steady (Cursor.Stands block) (fun _ => True) (answerOf request) := by
  cases request with
  | write datum => exact (Cursor.steady_write (sized datum rfl)).map _
  | read type => exact (Cursor.steady_read type).map _
  | setOffset offset => exact (Cursor.steady_setOffset offset).map _
  | shift distance => exact (Cursor.steady_shift distance).map _
  | skip count => exact (Cursor.steady_skip count).map _

/-- No command of a session overflows, and cursors stay in their blocks. -/
theorem Command.steady
    {command : Command}
    (sized : command.Sized) :
    Steady Standing (fun _ => True) command.run := by
  cases command with
  | addressAt name offset => exact (steady_block name).bind fun _ _ => (steady_check _).map _
  | offsetOf name address => exact (steady_block name).bind fun _ _ => (steady_check _).map _
  | available name address => exact (steady_block name).bind fun _ _ => (steady_check _).map _
  | slice name outer offset size => exact (steady_block outer).bind fun _ _ => steady_keep name _
  | sliceFirst name outer size => exact (steady_block outer).bind fun _ _ => steady_keep name _
  | sliceLast name outer size => exact (steady_block outer).bind fun _ _ => steady_keep name _
  | fill target value => exact steady_one (fun _ => Block.steady_fill value) target _
  | copyTo source sourceOffset target targetOffset length =>
      exact steady_two (fun _ _ => Block.steady_copyTo sourceOffset targetOffset length)
        source target _
  | copyAllTo source target =>
      exact steady_two (fun _ _ => Block.steady_copyTo _ _ _) source target _
  | copyPrefixTo source target length =>
      exact steady_two (fun _ _ => Block.steady_copyTo 0 0 length) source target _
  | compareTo left leftOffset right rightOffset length =>
      exact steady_two (fun _ _ => Block.steady_compareTo leftOffset rightOffset length)
        left right _
  | compareAll left right =>
      exact steady_two (fun _ _ => Block.steady_compareTo _ _ _) left right _
  | comparePrefix left right length =>
      exact steady_two (fun _ _ => Block.steady_compareTo 0 0 length) left right _
  | read source offset length =>
      exact steady_one (fun _ => (Block.steady_read offset length).weaken fun _ _ => trivial)
        source _
  | write target offset bytes =>
      exact steady_one (fun _ => Block.steady_write sized offset) target _
  | getByte source offset => exact steady_one (fun _ => Block.steady_getByte offset) source _
  | putByte target offset value =>
      have single : [value].length < 0x10000000000000000 := Nat.lt_of_sub_eq_succ rfl
      exact steady_one (fun _ => Block.steady_write single offset) target _
  | openCursor name outer =>
      exact (steady_block outer).bind fun _ _ => (steady_openCursor name _).map _
  | room cursor => exact (steady_onCursor (fun _ => Cursor.steady_available) cursor).map _
  | position cursor =>
      have standing : ∀ block, Steady (Cursor.Stands block) (fun _ => True) Cursor.current :=
        fun _ => Cursor.steady_current.weaken fun _ _ => trivial
      exact (steady_onCursor standing cursor).map _
  | access cursor request =>
      have sizes : ∀ datum, request = .write datum → datum.Sized := by
        rintro datum rfl
        exact sized
      exact steady_onCursor (fun _ => steady_answerOf sizes) cursor

end Session
end GuardedHeap
