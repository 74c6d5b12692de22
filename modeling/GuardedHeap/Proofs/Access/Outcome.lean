import GuardedHeap.Proofs.Access.Puts

/-!
# Outcomes of transfers

The ways in which a cursor reads or writes some bytes, in whatever block: there is no room for
them, or their range cannot be touched, and then everything is as it was; or they are
transferred, and the cursor stands behind them, still in its block.
-/

namespace GuardedHeap

namespace Cursor

variable {block : Block}
variable {offset count : UInt64}
variable {memory : Memory}

/-- A cursor moves over bytes in its block without wrapping around. -/
theorem toNat_add_of_room (room : offset.toNat + count.toNat ≤ block.size.toNat) :
    (offset + count).toNat = offset.toNat + count.toNat := by
  have := block.size.toNat_lt
  rw [UInt64.toNat_add]
  omega

/-- The ways in which some bytes are read. -/
inductive ReadOutcome (block : Block) (offset count : UInt64) (memory : Memory) :
    EStateM.Result (Failure AccessError) (Cursor × Memory) (List UInt8) → Prop
  | noRoom (full : block.size.toNat < offset.toNat + count.toNat) :
      ReadOutcome block offset count memory
        (.error (.refused (.endOfBlock count (block.size - offset))) (⟨block, offset⟩, memory))
  | untouchable
      {error : HeapError}
      (refused : block.locateRange offset count = .error error) :
      ReadOutcome block offset count memory
        (.error (.refused (.memory error)) (⟨block, offset⟩, memory))
  | transferred
      (bytes : List UInt8)
      (room : offset.toNat + count.toNat ≤ block.size.toNat) :
      ReadOutcome block offset count memory (.ok bytes (⟨block, offset + count⟩, memory))

theorem readBytes_outcome (standing : offset.toNat ≤ block.size.toNat) :
    ReadOutcome block offset count memory (readBytes count (⟨block, offset⟩, memory)) := by
  by_cases full : block.size.toNat < offset.toNat + count.toNat
  · rw [readBytes, Fallible.bind_of_error (ensure_of_full standing full)]
    exact .noRoom full
  have room := Nat.le_of_not_lt full
  rw [readBytes, Fallible.bind_of_ok (ensure_of_room room),
    Fallible.bind_of_ok (current_apply _)]
  cases located : block.locateRange offset count with
  | error error =>
      have refused : onMemory (block.read offset count) (⟨block, offset⟩, memory) =
          .error (.refused (.memory error)) (⟨block, offset⟩, memory) := by
        simp only [onMemory, Block.read, Fallible.query, Block.bytesAt, located, Except.map]
        rfl
      rw [Fallible.bind_of_error refused]
      exact .untouchable located
  | ok start? =>
      obtain ⟨bytes, found⟩ : ∃ bytes, onMemory (block.read offset count)
          (⟨block, offset⟩, memory) = .ok bytes (⟨block, offset⟩, memory) := by
        simp only [onMemory, Block.read, Fallible.query, Block.bytesAt, located, Except.map]
        exact ⟨_, rfl⟩
      have moves : advance count (⟨block, offset⟩, memory) =
          .ok () (⟨block, offset + count⟩, memory) :=
        advance_of_fits (Nat.lt_of_le_of_lt room block.size.toNat_lt)
      rw [Fallible.bind_of_ok found, Fallible.bind_of_ok moves]
      exact .transferred bytes room

/-- Reading bytes fails by a refusal, and changes nothing. -/
theorem refused_of_readBytes
    {failure : Failure AccessError}
    {after : Cursor × Memory}
    (standing : offset.toNat ≤ block.size.toNat)
    (fails : readBytes count (⟨block, offset⟩, memory) = .error failure after) :
    ∃ error, failure = .refused error ∧ after = (⟨block, offset⟩, memory) := by
  have outcome : ReadOutcome block offset count memory _ := readBytes_outcome standing
  rw [fails] at outcome
  cases outcome with
  | noRoom full => exact ⟨_, rfl, rfl⟩
  | untouchable refused => exact ⟨_, rfl, rfl⟩

/-- Reading bytes moves the cursor behind them, still in its block. -/
theorem moves_of_readBytes
    {bytes : List UInt8}
    {after : Cursor × Memory}
    (standing : offset.toNat ≤ block.size.toNat)
    (reads : readBytes count (⟨block, offset⟩, memory) = .ok bytes after) :
    after = (⟨block, offset + count⟩, memory) ∧ (offset + count).toNat ≤ block.size.toNat := by
  have outcome : ReadOutcome block offset count memory _ := readBytes_outcome standing
  rw [reads] at outcome
  cases outcome with
  | transferred _ room => exact ⟨rfl, (toNat_add_of_room room).symm ▸ room⟩

/-- The ways in which some bytes are written. -/
inductive WriteOutcome (block : Block) (offset : UInt64) (bytes : List UInt8) (memory : Memory) :
    EStateM.Result (Failure AccessError) (Cursor × Memory) Unit → Prop
  | noRoom (full : block.size.toNat < offset.toNat + bytes.length) :
      WriteOutcome block offset bytes memory
        (.error (.refused (.endOfBlock (UInt64.ofNat bytes.length) (block.size - offset)))
          (⟨block, offset⟩, memory))
  | untouchable
      {error : HeapError}
      (room : offset.toNat + bytes.length ≤ block.size.toNat)
      (refused : block.locateRange offset (UInt64.ofNat bytes.length) = .error error) :
      WriteOutcome block offset bytes memory
        (.error (.refused (.memory error)) (⟨block, offset⟩, memory))
  | transferred
      {start? : Option Address}
      (room : offset.toNat + bytes.length ≤ block.size.toNat)
      (located : block.locateRange offset (UInt64.ofNat bytes.length) = .ok start?) :
      WriteOutcome block offset bytes memory
        (.ok () (⟨block, offset + UInt64.ofNat bytes.length⟩,
          start?.elim memory fun start => memory.write start bytes))

theorem writeBytes_outcome
    {bytes : List UInt8}
    (standing : offset.toNat ≤ block.size.toNat)
    (isWord : bytes.length < UInt64.size) :
    WriteOutcome block offset bytes memory (writeBytes bytes (⟨block, offset⟩, memory)) := by
  have exact : (UInt64.ofNat bytes.length).toNat = bytes.length :=
    UInt64.toNat_ofNat_of_lt' isWord
  rw [writeBytes, Word.ofNat?, if_pos isWord, Fallible.bind_of_ok (Fallible.exactly_some _ _)]
  by_cases full : block.size.toNat < offset.toNat + bytes.length
  · have tight : block.size.toNat < offset.toNat + (UInt64.ofNat bytes.length).toNat := by
      rwa [exact]
    rw [Fallible.bind_of_error (ensure_of_full standing tight)]
    exact .noRoom full
  have room := Nat.le_of_not_lt full
  have roomy : offset.toNat + (UInt64.ofNat bytes.length).toNat ≤ block.size.toNat := by
    rwa [exact]
  rw [Fallible.bind_of_ok (ensure_of_room roomy), Fallible.bind_of_ok (current_apply _)]
  cases located : block.locateRange offset (UInt64.ofNat bytes.length) with
  | error error =>
      have refused : onMemory (block.write offset bytes) (⟨block, offset⟩, memory) =
          .error (.refused (.memory error)) (⟨block, offset⟩, memory) := by
        have below := Block.write_of_refused isWord located memory
        simp only [onMemory, below]
        rfl
      rw [Fallible.bind_of_error refused]
      exact .untouchable room located
  | ok start? =>
      have written := Block.write_of_locateRange isWord located memory
      have moves : ∀ memory, advance (UInt64.ofNat bytes.length) (⟨block, offset⟩, memory) =
          .ok () (⟨block, offset + UInt64.ofNat bytes.length⟩, memory) := fun memory =>
        advance_of_fits (Nat.lt_of_le_of_lt roomy block.size.toNat_lt)
      rw [Fallible.bind_of_ok (onMemory_of_ok written), moves]
      exact .transferred room located

end Cursor
end GuardedHeap
