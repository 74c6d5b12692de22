import GuardedHeap.Proofs.Access.Framed
import GuardedHeap.Proofs.Access.Loosened
import GuardedHeap.Table

/-!
# Programs on a root

A program cuts views out of a root, opens cursors in them, and reads and writes through all
of these. Every answer decides how it goes on. It names blocks and cursors by numbers, and so
can be run over any root.

Checking only rejects: a program that runs over a root without a failure runs in the same
way over one that checks less.
-/

namespace GuardedHeap

/-- What a program works with. -/
structure Session where
  blocks : Table Block
  cursors : Table Cursor
  memory : Memory

/-- A computation of a program. -/
abbrev SessionM := Fallible AccessError Session

namespace Session

/-- A session in which the name 0 stands for a root, over any memory. -/
def start (root : Root) (memory : Memory) : Session where
  blocks := Table.empty.set 0 (.whole root)
  cursors := Table.empty
  memory := memory

/-- The block that a name stands for. -/
def block (name : Nat) : SessionM Block := do
  pure ((← get).blocks.get name)

/-- Let a name stand for a block. -/
def nameBlock (name : Nat) (block : Block) : SessionM Unit :=
  modify fun session => { session with blocks := session.blocks.set name block }

/-- Let a name stand for a cursor. -/
def nameCursor (name : Nat) (cursor : Cursor) : SessionM Unit :=
  modify fun session => { session with cursors := session.cursors.set name cursor }

/-- Run a computation on memory for a session. -/
def onMemory {α : Type} (computation : MemoryM α) : SessionM α := fun session =>
  match computation session.memory with
  | .ok value memory => .ok value { session with memory }
  | .error failure memory => .error (failure.map .memory) { session with memory }

/-- Run a computation at the cursor that a name stands for. -/
def onCursor {α : Type} (name : Nat) (computation : CursorM α) : SessionM α := fun session =>
  match computation (session.cursors.get name, session.memory) with
  | .ok value (cursor, memory) =>
      .ok value { session with cursors := session.cursors.set name cursor, memory }
  | .error failure (cursor, memory) =>
      .error failure { session with cursors := session.cursors.set name cursor, memory }

/-- What a program can do with what it has named. New blocks and cursors get the name that is
given first. -/
inductive Command
  | addressAt (block : Nat) (offset : UInt64)
  | offsetOf (block : Nat) (address : Address)
  | available (block : Nat) (address : Address)
  | slice (name block : Nat) (offset size : UInt64)
  | sliceFirst (name block : Nat) (size : UInt64)
  | sliceLast (name block : Nat) (size : UInt64)
  | fill (target : Nat) (value : UInt8)
  | copyTo
      (source : Nat)
      (sourceOffset : UInt64)
      (target : Nat)
      (targetOffset length : UInt64)
  | copyAllTo (source target : Nat)
  | copyPrefixTo (source target : Nat) (length : UInt64)
  | compareTo
      (left : Nat)
      (leftOffset : UInt64)
      (right : Nat)
      (rightOffset length : UInt64)
  | compareAll (left right : Nat)
  | comparePrefix (left right : Nat) (length : UInt64)
  | read (source : Nat) (offset length : UInt64)
  | write (target : Nat) (offset : UInt64) (bytes : List UInt8)
  | getByte (source : Nat) (offset : UInt64)
  | putByte (target : Nat) (offset : UInt64) (value : UInt8)
  | openCursor (name block : Nat)
  | room (cursor : Nat)
  | position (cursor : Nat)
  | access (cursor : Nat) (request : Cursor.Request)

/-- What a program is told. A block is shown by its extent. -/
inductive Answer
  | done
  | address (address : Address)
  | count (count : UInt64)
  | extent (extent : Extent)
  | order (ordering : Ordering)
  | bytes (bytes : List UInt8)
  | byte (value : UInt8)
  | datum (datum : Datum)
  deriving DecidableEq

/-- Do what is asked of a cursor and tell what it gives. -/
def answerOf : Cursor.Request → CursorM Answer
  | .write datum => do
      Cursor.write datum
      pure .done
  | .read type => do pure (.datum (← Cursor.read type))
  | .setOffset offset => do
      Cursor.setOffset offset
      pure .done
  | .shift distance => do
      Cursor.shift distance
      pure .done
  | .skip count => do pure (.count (← Cursor.skip count))

/-- Keep what was cut out of a block. -/
def keep (name : Nat) (cut : Except HeapError Block) : SessionM Answer := do
  let part ← onMemory (Fallible.ofCheck cut)
  nameBlock name part
  pure (.extent part.extent)

/-- Do what a command says. -/
def Command.run : Command → SessionM Answer
  | .addressAt name offset => do
      let block ← block name
      pure (.address (← onMemory (Fallible.ofCheck (block.addressAt offset))))
  | .offsetOf name address => do
      let block ← block name
      pure (.count (← onMemory (Fallible.ofCheck (block.offsetOf address))))
  | .available name address => do
      let block ← block name
      pure (.count (← onMemory (Fallible.ofCheck (block.available address))))
  | .slice name outer offset size => do keep name ((← block outer).slice offset size)
  | .sliceFirst name outer size => do keep name ((← block outer).sliceFirst size)
  | .sliceLast name outer size => do keep name ((← block outer).sliceLast size)
  | .fill target value => do
      onMemory ((← block target).fill value)
      pure .done
  | .copyTo source sourceOffset target targetOffset length => do
      onMemory ((← block source).copyTo sourceOffset (← block target) targetOffset length)
      pure .done
  | .copyAllTo source target => do
      onMemory ((← block source).copyAllTo (← block target))
      pure .done
  | .copyPrefixTo source target length => do
      onMemory ((← block source).copyPrefixTo (← block target) length)
      pure .done
  | .compareTo left leftOffset right rightOffset length => do
      pure (.order (← onMemory
        ((← block left).compareTo leftOffset (← block right) rightOffset length)))
  | .compareAll left right => do
      pure (.order (← onMemory ((← block left).compareAll (← block right))))
  | .comparePrefix left right length => do
      pure (.order (← onMemory ((← block left).comparePrefix (← block right) length)))
  | .read source offset length => do
      pure (.bytes (← onMemory ((← block source).read offset length)))
  | .write target offset bytes => do
      onMemory ((← block target).write offset bytes)
      pure .done
  | .getByte source offset => do
      pure (.byte (← onMemory ((← block source).getByte offset)))
  | .putByte target offset value => do
      onMemory ((← block target).putByte offset value)
      pure .done
  | .openCursor name outer => do
      nameCursor name (Cursor.start (← block outer))
      pure .done
  | .room cursor => do pure (.count (← onCursor cursor Cursor.available))
  | .position cursor => do pure (.count (← onCursor cursor Cursor.current).offset)
  | .access cursor request => onCursor cursor (answerOf request)

/-- A finite program, in which each answer decides how to go on. -/
inductive Program
  | done
  | ask (command : Command) (next : Answer → Program)

/-- Run a program up to its end or to the first failure. It yields all answers, in order. -/
def Program.run : Program → SessionM (List Answer)
  | .done => pure []
  | .ask command next => do
      let answer ← command.run
      pure (answer :: (← (next answer).run))

/-! ### Running over a root that checks less -/

/-- Each name stands for a block or a cursor that checks no more, and memory is the same. -/
structure LoosenedTo (strict loose : Session) : Prop where
  blocks : ∀ name, (strict.blocks.get name).LoosenedTo (loose.blocks.get name)
  cursors : ∀ name, (strict.cursors.get name).LoosenedTo (loose.cursors.get name)
  memory_eq : loose.memory = strict.memory

open Fallible (Follows follows_pure follows_modify)

theorem loosened_start
    {strict loose : Root}
    (sameExtent : loose.extent = strict.extent)
    (less : loose.checked = true → strict.checked = true)
    (memory : Memory) :
    (start strict memory).LoosenedTo (start loose memory) := by
  refine ⟨fun name => ?_, fun name => ⟨.refl _, rfl⟩, rfl⟩
  simp only [start, Table.get_set]
  split
  · exact .of_root sameExtent less
  · exact .refl _

theorem follows_block (name : Nat) :
    Follows LoosenedTo Block.LoosenedTo (block name) (block name) :=
  Fallible.follows_get.bind fun _ _ loosened => follows_pure (loosened.blocks name)

theorem follows_nameBlock
    {strict loose : Block}
    (loosened : strict.LoosenedTo loose)
    (name : Nat) :
    Follows LoosenedTo Eq (nameBlock name strict) (nameBlock name loose) := by
  apply follows_modify
  intro before before' beside
  refine ⟨fun other => ?_, beside.cursors, beside.memory_eq⟩
  simp only [Table.get_set]
  split
  · exact loosened
  · exact beside.blocks other

theorem follows_nameCursor
    {strict loose : Cursor}
    (loosened : strict.LoosenedTo loose)
    (name : Nat) :
    Follows LoosenedTo Eq (nameCursor name strict) (nameCursor name loose) := by
  apply follows_modify
  intro before before' beside
  refine ⟨beside.blocks, fun other => ?_, beside.memory_eq⟩
  simp only [Table.get_set]
  split
  · exact loosened
  · exact beside.cursors other

theorem follows_onMemory
    {α β : Type}
    {same : α → β → Prop}
    {leader : MemoryM α}
    {follower : MemoryM β}
    (follows : Follows Eq same leader follower) :
    Follows LoosenedTo same (onMemory leader) (onMemory follower) := by
  intro before before' beside value after succeeds
  unfold onMemory at *
  rw [beside.memory_eq]
  cases below : leader before.memory with
  | error failure memory => simp [below] at succeeds
  | ok found memory =>
      simp only [below] at succeeds
      cases succeeds
      obtain ⟨value', _, alike, known, rfl⟩ := follows before.memory _ rfl value memory below
      rw [alike]
      exact ⟨value', { before' with memory }, rfl, known, beside.blocks, beside.cursors, rfl⟩

theorem follows_onCursor
    {α β : Type}
    {same : α → β → Prop}
    {leader : CursorM α}
    {follower : CursorM β}
    (follows : Follows Cursor.Beside same leader follower)
    (name : Nat) :
    Follows LoosenedTo same (onCursor name leader) (onCursor name follower) := by
  intro before before' beside value after succeeds
  unfold onCursor at *
  cases below : leader (before.cursors.get name, before.memory) with
  | error failure state => simp [below] at succeeds
  | ok found state =>
      simp only [below] at succeeds
      cases succeeds
      obtain ⟨value', state', alike, known, loosened, memory_eq⟩ :=
        follows _ (before'.cursors.get name, before'.memory)
          ⟨beside.cursors name, beside.memory_eq⟩ value state below
      simp only [alike]
      refine ⟨value', _, rfl, known, beside.blocks, fun other => ?_, memory_eq⟩
      simp only [Table.get_set]
      split
      · exact loosened
      · exact beside.cursors other

theorem follows_keep
    {cut looseCut : Except HeapError Block}
    (passes : ∀ part, cut = .ok part → ∃ loose, looseCut = .ok loose ∧ part.LoosenedTo loose)
    (name : Nat) :
    Follows LoosenedTo Eq (keep name cut) (keep name looseCut) := by
  apply (follows_onMemory (Fallible.follows_ofCheck passes)).bind
  intro part loose loosened
  apply (follows_nameBlock loosened name).bind
  intro _ _ _
  exact follows_pure (congrArg Answer.extent loosened.extent_eq.symm)

theorem follows_answerOf (request : Cursor.Request) :
    Follows Cursor.Beside Eq (answerOf request) (answerOf request) := by
  cases request with
  | write datum => exact (Cursor.follows_write datum).map _
  | read type => exact (Cursor.follows_read type).map _
  | setOffset offset => exact (Cursor.follows_setOffset offset).map _
  | shift distance => exact (Cursor.follows_shift distance).map _
  | skip count => exact (Cursor.follows_skip count).map _

/-- What is done with one block and memory. -/
theorem follows_one
    {α : Type}
    {computation : Block → MemoryM α}
    (follows : ∀ {strict loose : Block}, strict.LoosenedTo loose →
      Follows Eq Eq (computation strict) (computation loose))
    (name : Nat)
    (change : α → Answer) :
    Follows LoosenedTo Eq (do pure (change (← onMemory (computation (← block name)))))
      (do pure (change (← onMemory (computation (← block name))))) := by
  apply (follows_block name).bind
  intro strict loose loosened
  exact (follows_onMemory (follows loosened)).map change

/-- What is done with two blocks and memory. -/
theorem follows_two
    {α : Type}
    {computation : Block → Block → MemoryM α}
    (follows : ∀ {strict loose strict' loose' : Block},
      strict.LoosenedTo loose → strict'.LoosenedTo loose' →
        Follows Eq Eq (computation strict strict') (computation loose loose'))
    (first second : Nat)
    (change : α → Answer) :
    Follows LoosenedTo Eq
      (do pure (change (← onMemory (computation (← block first) (← block second)))))
      (do pure (change (← onMemory (computation (← block first) (← block second))))) := by
  apply (follows_block first).bind
  intro strict loose fromFirst
  apply (follows_block second).bind
  intro strict' loose' fromSecond
  exact (follows_onMemory (follows fromFirst fromSecond)).map change

/-- A command that succeeds does so over a root that checks less, and gives the same. -/
theorem Command.follows (command : Command) : Follows LoosenedTo Eq command.run command.run := by
  cases command with
  | addressAt name offset =>
      exact follows_one (fun loosened =>
        Fallible.follows_weaker (loosened.weaker_addressAt offset)) name _
  | offsetOf name address =>
      exact follows_one (fun loosened =>
        Fallible.follows_weaker (loosened.weaker_offsetOf address)) name _
  | available name address =>
      exact follows_one (fun loosened =>
        Fallible.follows_weaker (loosened.weaker_available address)) name _
  | slice name outer offset size =>
      apply (follows_block outer).bind
      intro strict loose loosened
      exact follows_keep (fun _ cut => loosened.slice cut) name
  | sliceFirst name outer size =>
      apply (follows_block outer).bind
      intro strict loose loosened
      exact follows_keep (fun _ cut => loosened.slice cut) name
  | sliceLast name outer size =>
      apply (follows_block outer).bind
      intro strict loose loosened
      exact follows_keep (fun _ cut => loosened.sliceLast cut) name
  | fill target value => exact follows_one (fun loosened => loosened.follows_fill value) target _
  | copyTo source sourceOffset target targetOffset length =>
      exact follows_two (fun fromSource fromTarget =>
        fromSource.follows_copyTo fromTarget sourceOffset targetOffset length) source target _
  | copyAllTo source target =>
      exact follows_two (fun fromSource fromTarget =>
        fromSource.follows_copyAllTo fromTarget) source target _
  | copyPrefixTo source target length =>
      exact follows_two (fun fromSource fromTarget =>
        fromSource.follows_copyTo fromTarget 0 0 length) source target _
  | compareTo left leftOffset right rightOffset length =>
      exact follows_two (fun fromLeft fromRight =>
        fromLeft.follows_compareTo fromRight leftOffset rightOffset length) left right _
  | compareAll left right =>
      exact follows_two (fun fromLeft fromRight =>
        fromLeft.follows_compareAll fromRight) left right _
  | comparePrefix left right length =>
      exact follows_two (fun fromLeft fromRight =>
        fromLeft.follows_compareTo fromRight 0 0 length) left right _
  | read source offset length =>
      exact follows_one (fun loosened => loosened.follows_read offset length) source _
  | write target offset bytes =>
      exact follows_one (fun loosened => loosened.follows_write offset bytes) target _
  | getByte source offset =>
      exact follows_one (fun loosened => (loosened.follows_read offset 1).map _) source _
  | putByte target offset value =>
      exact follows_one (fun loosened => loosened.follows_write offset [value]) target _
  | openCursor name outer =>
      apply (follows_block outer).bind
      intro strict loose loosened
      have opened : (Cursor.start strict).LoosenedTo (Cursor.start loose) := ⟨loosened, rfl⟩
      exact (follows_nameCursor opened name).map _
  | room cursor => exact (follows_onCursor Cursor.follows_available cursor).map _
  | position cursor =>
      apply (follows_onCursor Cursor.follows_current cursor).bind
      intro strict loose loosened
      exact follows_pure (congrArg Answer.count loosened.offset_eq.symm)
  | access cursor request => exact follows_onCursor (follows_answerOf request) cursor

/-- A program that runs without a failure does so over a root that checks less, is told the
same and leaves the same. -/
theorem Program.follows (program : Program) : Follows LoosenedTo Eq program.run program.run := by
  induction program with
  | done => exact follows_pure rfl
  | ask command next inductionHypothesis =>
      -- Both runs are told the same, and so go on with the same program.
      apply command.follows.bind
      rintro answer _ rfl
      exact (inductionHypothesis answer).map _

/-- Checking only rejects. Whatever program runs over a root without a failure runs over an
unchecked root of the same place without a failure, with the same answers, and leaves the
same memory. -/
theorem checking_only_rejects
    {strict loose : Root}
    (sameExtent : loose.extent = strict.extent)
    (unchecked : loose.checked = false)
    (program : Program)
    (memory : Memory)
    {answers : List Answer}
    {after : Session}
    (succeeds : program.run (start strict memory) = .ok answers after) :
    ∃ looseAfter, program.run (start loose memory) = .ok answers looseAfter ∧
      looseAfter.memory = after.memory := by
  have less : loose.checked = true → strict.checked = true := by simp [unchecked]
  obtain ⟨_, looseAfter, same, rfl, beside⟩ := program.follows _ _
    (loosened_start sameExtent less memory) answers after succeeds
  exact ⟨looseAfter, same, beside.memory_eq⟩

/-- A number is written at a cursor in a view, and one of its bytes decides which address is
asked for. -/
theorem checking_only_rejects_of_view :
    let program : Program :=
      .ask (.slice 1 0 4 8) fun _ =>
        .ask (.openCursor 0 1) fun _ =>
          .ask (.access 0 (.write (.uint16 0x102))) fun _ =>
            .ask (.getByte 1 1) fun
              | .byte value => .ask (.addressAt 1 value.toUInt64) fun _ => .done
              | _ => .done
    let answers : List Answer :=
      [.extent ⟨⟨0x1004⟩, 8⟩, .done, .done, .byte 2, .address ⟨0x1006⟩]
    let strict : Root := ⟨⟨⟨0x1000⟩, 16⟩, true, none⟩
    let loose : Root := ⟨⟨⟨0x1000⟩, 16⟩, false, none⟩
    ∃ after, program.run (start strict .zero) = .ok answers after ∧
      ∃ looseAfter, program.run (start loose .zero) = .ok answers looseAfter ∧
        looseAfter.memory = after.memory := by
  intro program answers strict loose
  have sameExtent : loose.extent = strict.extent := rfl
  have succeeds : ∃ after, program.run (start strict .zero) = .ok answers after := by
    unfold program answers strict
    exact ⟨_, rfl⟩
  obtain ⟨after, same⟩ := succeeds
  exact ⟨after, same, checking_only_rejects sameExtent rfl program .zero same⟩

end Session
end GuardedHeap
