import GuardedHeap.Proofs.Access.Crossing
import GuardedHeap.Proofs.Access.Outcome

/-!
# Failed transfers of text

Counted text is transferred in two steps, its count and its body. Reading goes back to where
it started when a step fails. Writing looks beforehand whether there is room for both, but in a
block that is not checked there may be room where memory may not be touched: the count of a text
is then written although its body is refused, and stays. This is the only way in which a transfer
that fails leaves anything behind, and it never happens to a block that lies in its root.
-/

namespace GuardedHeap
namespace Cursor

variable {block : Block}
variable {offset : UInt64}
variable {memory : Memory}
variable {text : List Char}
variable {failure : Failure AccessError}
variable {after : Cursor × Memory}

/-- Reading encoded text fails by a refusal, and changes at most where the cursor stands. -/
theorem refused_of_readEncoded
    (standing : offset.toNat ≤ block.size.toNat)
    (fails : readEncoded (⟨block, offset⟩, memory) = .error failure after) :
    ∃ error moved, failure = .refused error ∧ after = (⟨block, moved⟩, memory) := by
  obtain uncounted | ⟨length, middle, counted, fails⟩ := Fallible.error_of_bind fails
  · obtain ⟨error, rfl, rfl⟩ :=
      refused_of_readBytes standing (Fallible.error_of_bind_pure uncounted)
    exact ⟨error, offset, rfl, rfl⟩
  obtain ⟨_, reads, _⟩ := Fallible.ok_of_bind_pure counted
  obtain ⟨rfl, standing⟩ := moves_of_readBytes standing reads
  obtain unread | ⟨body, middle, reads, fails⟩ := Fallible.error_of_bind fails
  · obtain ⟨error, rfl, rfl⟩ := refused_of_readBytes standing unread
    exact ⟨error, _, rfl, rfl⟩
  obtain ⟨rfl, _⟩ := moves_of_readBytes standing reads
  cases decoded : Text.decode body with
  | error error =>
      rw [decoded] at fails
      cases fails
      exact ⟨_, _, rfl, rfl⟩
  | ok text =>
      rw [decoded] at fails
      cases fails

/-- Reading counted text that fails leaves everything as it was. -/
theorem unchanged_of_readCounted
    (standing : offset.toNat ≤ block.size.toNat)
    (fails : readCounted (⟨block, offset⟩, memory) = .error failure after) :
    after = (⟨block, offset⟩, memory) := by
  cases encoded : readEncoded (⟨block, offset⟩, memory) with
  | ok text middle =>
      have read : readCounted (⟨block, offset⟩, memory) = .ok text middle := by
        show (Fallible.attempt readEncoded >>= _) (⟨block, offset⟩, memory) = _
        rw [Fallible.bind_of_ok (Fallible.attempt_of_ok encoded)]
        rfl
      rw [read] at fails
      cases fails
  | error cause middle =>
      obtain ⟨error, moved, rfl, rfl⟩ := refused_of_readEncoded standing encoded
      rw [readCounted_of_refused encoded] at fails
      cases fails
      rfl

/-- A text of which only the count was written: there is room for all of it, and the range of
the count may be touched, but that of the body may not. -/
def Torn
    (block : Block)
    (offset : UInt64)
    (memory : Memory)
    (text : List Char)
    (failure : Failure AccessError)
    (after : Cursor × Memory) : Prop :=
  ∃ body error, Text.encode text = .ok body ∧
    offset.toNat + 2 + body.length ≤ block.size.toNat ∧
    block.locateRange offset 2 = .ok (some (block.address.add offset)) ∧
    block.locateRange (offset + 2) (UInt64.ofNat body.length) = .error error ∧
    failure = .refused (.memory error) ∧
    after = (⟨block, offset + 2⟩,
      memory.write (block.address.add offset) (Word.bigEndian 2 body.length))

/-- What has room for its count and its body, and is refused behind the count, is torn. -/
theorem torn_of_writeBytes
    {body : List UInt8}
    {start? : Option Address}
    (encoded : Text.encode text = .ok body)
    (room : offset.toNat + 2 + body.length ≤ block.size.toNat)
    (located : block.locateRange offset 2 = .ok start?)
    (fails : writeBytes body (⟨block, offset + 2⟩,
        start?.elim memory fun start => memory.write start (Word.bigEndian 2 body.length)) =
      .error failure after) :
    Torn block offset memory text failure after := by
  have short : body.length ≤ Text.largestLength := Text.length_of_encode encoded
  have isWord : body.length < UInt64.size := Nat.lt_of_le_of_lt short (by decide)
  have start : start? = some (block.address.add offset) :=
    (Block.locate_eq_ok_iff.mp (Block.locateRange_eq_ok_iff.mp located).2).2
  subst start
  dsimp only [Option.elim_some] at fails
  have behind : (offset + 2).toNat = offset.toNat + 2 :=
    @toNat_add_of_room block offset 2 (Nat.le_trans (Nat.le_add_right _ _) room)
  have standing : (offset + 2).toNat ≤ block.size.toNat := by
    rw [behind]
    exact Nat.le_trans (Nat.le_add_right _ _) room
  have outcome : WriteOutcome block (offset + 2) body
      (memory.write (block.address.add offset) (Word.bigEndian 2 body.length)) _ :=
    writeBytes_outcome standing isWord
  rw [fails] at outcome
  cases outcome with
  | noRoom full =>
      rw [behind] at full
      exact absurd room (Nat.not_le_of_lt full)
  | untouchable _ refused => exact ⟨body, _, encoded, room, located, refused, rfl, rfl⟩

/-- Writing counted text that fails leaves everything as it was, or the count alone was
written. -/
theorem unchanged_or_torn_of_writeCounted
    (standing : offset.toNat ≤ block.size.toNat)
    (fails : writeCounted text (⟨block, offset⟩, memory) = .error failure after) :
    after = (⟨block, offset⟩, memory) ∨ Torn block offset memory text failure after := by
  unfold writeCounted at fails
  cases encoded : Text.encode text with
  | error error =>
      rw [encoded] at fails
      cases fails
      exact Or.inl rfl
  | ok body =>
      have short : body.length ≤ Text.largestLength := Text.length_of_encode encoded
      have isWord : 2 + body.length < UInt64.size := by
        unfold Text.largestLength at short
        unfold UInt64.size
        omega
      have exact : (UInt64.ofNat (2 + body.length)).toNat = 2 + body.length :=
        UInt64.toNat_ofNat_of_lt' isWord
      rw [encoded] at fails
      dsimp only at fails
      rw [Word.ofNat?, if_pos isWord, Fallible.bind_of_ok (Fallible.exactly_some _ _)] at fails
      by_cases full : block.size.toNat < offset.toNat + (UInt64.ofNat (2 + body.length)).toNat
      · rw [Fallible.bind_of_error (ensure_of_full standing full)] at fails
        cases fails
        exact Or.inl rfl
      rw [Fallible.bind_of_ok (ensure_of_room (Nat.le_of_not_lt full))] at fails
      have counting : WriteOutcome block offset (Word.bigEndian 2 body.length) memory _ :=
        writeBytes_outcome standing (by rw [Word.length_bigEndian]; decide)
      obtain uncounted | ⟨_, middle, counted, fails⟩ := Fallible.error_of_bind fails
      · rw [uncounted] at counting
        cases counting with
        | noRoom full => exact Or.inl rfl
        | untouchable room refused => exact Or.inl rfl
      rw [counted] at counting
      cases counting with
      | transferred _ located =>
          rw [Word.length_bigEndian] at located fails
          refine Or.inr (torn_of_writeBytes encoded ?_ located fails)
          rw [exact] at full
          omega

/-- Nothing is torn in a block that lies in its root. -/
theorem Torn.not_inside
    (torn : Torn block offset memory text failure after) :
    ¬ block.Inside := by
  intro inside
  obtain ⟨body, error, encoded, room, _, refused, _⟩ := torn
  have short : body.length ≤ Text.largestLength := Text.length_of_encode encoded
  have exact : (UInt64.ofNat body.length).toNat = body.length :=
    UInt64.toNat_ofNat_of_lt' (by unfold Text.largestLength at short; unfold UInt64.size; omega)
  have behind : (offset + 2).toNat = offset.toNat + 2 :=
    @toNat_add_of_room block offset 2 (Nat.le_trans (Nat.le_add_right _ _) room)
  rw [inside.locateRange (by rw [behind, exact]; exact room)] at refused
  cases refused

/-- A transfer of counted text that fails leaves the cursor and every byte of memory as they
were, in whatever block, with one exception: the count of a text has been written when the body
that there is room for lies where the block may not be touched. There is no exception in a block
that lies in its root. -/
theorem failed_transfers_unchanged
    (standing : offset.toNat ≤ block.size.toNat) :
    (∀ failure after, readCounted (⟨block, offset⟩, memory) = .error failure after →
      after = (⟨block, offset⟩, memory)) ∧
    ∀ text failure after, writeCounted text (⟨block, offset⟩, memory) = .error failure after →
      (after = (⟨block, offset⟩, memory) ∨ Torn block offset memory text failure after) ∧
      (block.Inside → after = (⟨block, offset⟩, memory)) := by
  refine ⟨fun failure after => unchanged_of_readCounted standing,
    fun text failure after fails => ?_⟩
  have ended := unchanged_or_torn_of_writeCounted standing fails
  exact ⟨ended, fun inside => ended.resolve_right fun torn => torn.not_inside inside⟩

/-- In a view of eight bytes onto a root of three, no text is read across the end of the root,
and the cursor stays where it stood. -/
theorem failed_transfers_unchanged_of_wide_view :
    let block : Block := .view ⟨⟨⟨4096⟩, 3⟩, false, none⟩ ⟨⟨4096⟩, 8⟩
    (2 : UInt64).toNat ≤ block.size.toNat ∧
      ∃ failure after, readCounted (⟨block, 2⟩, .zero) = .error failure after ∧
        after = (⟨block, 2⟩, .zero) := by
  have fails : readCounted (⟨.view ⟨⟨⟨4096⟩, 3⟩, false, none⟩ ⟨⟨4096⟩, 8⟩, 2⟩, .zero) =
      .error (.refused (.memory (.outOfBounds 2 2 3)))
        (⟨.view ⟨⟨⟨4096⟩, 3⟩, false, none⟩ ⟨⟨4096⟩, 8⟩, 2⟩, .zero) :=
    readCounted_of_refused rfl
  exact ⟨by decide, _, _, fails, (failed_transfers_unchanged (by decide)).1 _ _ fails⟩

/-- In a view of eight bytes onto a root of three, the count of a text of two bytes is written
before the text is refused, and the cursor stays behind it. -/
theorem count_written_before_refusal :
    let block : Block := .view ⟨⟨⟨4096⟩, 3⟩, false, none⟩ ⟨⟨4096⟩, 8⟩
    ∃ after, writeCounted ['a', 'b'] (⟨block, 0⟩, .zero) =
        .error (.refused (.memory (.outOfBounds 2 2 3))) (⟨block, 2⟩, after) ∧
      after.get ⟨4097⟩ ≠ Memory.zero.get ⟨4097⟩ := by
  refine ⟨_, rfl, ?_⟩
  decide +kernel

end Cursor
end GuardedHeap
