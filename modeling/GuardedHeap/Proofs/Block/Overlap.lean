import GuardedHeap.Proofs.Block.Inside

/-!
# Copies and comparisons

Ranges of two blocks may overlap, as views of one root or of roots that overlap themselves, and each
of the blocks has a mode of its own. A copy nevertheless leaves at each place of the target the byte
that memory had at that place of the source before, and a comparison is the lexicographic order of
the bytes that memory has on both sides. Which ranges are accepted does not depend on the order of
the two sides, so exchanging them turns a comparison around.
-/

namespace GuardedHeap

/-- A check that passes goes through the value of its first part. -/
theorem Fallible.ok_of_check_bind
    {ε α β : Type}
    {first : Except ε α}
    {next : α → Except ε β}
    {result : β}
    (passes : (first >>= next) = .ok result) :
    ∃ value, first = .ok value ∧ next value = .ok result := by
  cases first with
  | error error => cases passes
  | ok value => exact ⟨value, rfl, passes⟩

namespace Block

/-! ### The order of bytes -/

section Order

variable {left right : List UInt8}

theorem compareBytes_eq_lt_iff : compareBytes left right = .lt ↔ left < right := by
  induction left generalizing right with
  | nil => cases right <;> simp [compareBytes]
  | cons first left inductionHypothesis =>
      cases right with
      | nil => simp [compareBytes]
      | cons second right =>
          rw [compareBytes, Ordering.then_eq_lt, inductionHypothesis, List.cons_lt_cons_iff,
            Std.compare_eq_lt, Std.compare_eq_iff_eq]

theorem compareBytes_eq_eq_iff : compareBytes left right = .eq ↔ left = right := by
  induction left generalizing right with
  | nil => cases right <;> simp [compareBytes]
  | cons first left inductionHypothesis =>
      cases right with
      | nil => simp [compareBytes]
      | cons second right =>
          rw [compareBytes, Ordering.then_eq_eq, inductionHypothesis, List.cons.injEq,
            Std.compare_eq_iff_eq]

theorem swap_compareBytes (left right : List UInt8) :
    (compareBytes left right).swap = compareBytes right left := by
  induction left generalizing right with
  | nil => cases right <;> rfl
  | cons first left inductionHypothesis =>
      cases right with
      | nil => rfl
      | cons second right =>
          rw [compareBytes, compareBytes, Ordering.swap_then, inductionHypothesis,
            ← Std.OrientedOrd.eq_swap]

end Order

/-! ### Ranges of two blocks -/

variable {block source target left right : Block}
variable {strict : Bool}
variable {offset sourceOffset targetOffset leftOffset rightOffset length : UInt64}
variable {memory after : Memory}

/-- A range without bytes, or one that lies in the root. If that is asked, it lies in the block,
too. -/
def Accepts (block : Block) (strict : Bool) (offset length : UInt64) : Prop :=
  (strict = true → offset.toNat + length.toNat ≤ block.size.toNat) ∧
    (length = 0 ∨ block.root.extent.withinRoot (block.address.add offset) length = .ok ())

/-- The addresses of a range of a block, which may reach around the address space. -/
def Covers (block : Block) (offset length : UInt64) (address : Address) : Prop :=
  (address.offsetFrom (block.address.add offset)).toNat < length.toNat

theorem locate_of_accepts (accepts : block.Accepts strict offset length) :
    block.locate offset length =
      .ok (if length = 0 then none else some (block.address.add offset)) :=
  locate_eq_ok_iff.mpr ⟨accepts.2, rfl⟩

/-- Ranges of two blocks that are accepted together. A checked block is strict with the range of
the other block, too. -/
def AcceptBoth
    (source : Block)
    (sourceOffset : UInt64)
    (target : Block)
    (targetOffset length : UInt64) : Prop :=
  source.Accepts (source.checked || target.checked) sourceOffset length ∧
    target.Accepts (source.checked || target.checked) targetOffset length

section

variable (accepted : AcceptBoth source sourceOffset target targetOffset length)

include accepted

theorem AcceptBoth.swap : AcceptBoth target targetOffset source sourceOffset length := by
  unfold AcceptBoth
  rw [Bool.or_comm]
  exact accepted.symm

theorem AcceptBoth.locateBoth :
    source.locateBoth sourceOffset target targetOffset length =
      .ok (if length = 0 then none
        else some (source.address.add sourceOffset, target.address.add targetOffset)) := by
  have each : source.locateEach sourceOffset target targetOffset length =
      .ok (if length = 0 then none
        else some (source.address.add sourceOffset, target.address.add targetOffset)) := by
    rw [locateEach, locate_of_accepts accepted.1, locate_of_accepts accepted.2]
    by_cases isEmpty : length = 0
    · simp only [if_pos isEmpty]
      rfl
    · simp only [if_neg isEmpty]
      rfl
  unfold Block.locateBoth
  split
  case isTrue strict =>
    rw [(Extent.checkSpan_eq_ok_iff _ _ _).mpr (accepted.1.1 strict),
      (Extent.checkSpan_eq_ok_iff _ _ _).mpr (accepted.2.1 strict)]
    exact each
  case isFalse => exact each

end

/-- No other ranges of two blocks are located. -/
theorem acceptBoth_of_locateBoth
    {starts? : Option (Address × Address)}
    (located : source.locateBoth sourceOffset target targetOffset length = .ok starts?) :
    AcceptBoth source sourceOffset target targetOffset length := by
  have each : source.locateEach sourceOffset target targetOffset length = .ok starts? →
      source.Accepts false sourceOffset length ∧ target.Accepts false targetOffset length := by
    intro located
    obtain ⟨_, fromSource, located⟩ := Fallible.ok_of_check_bind located
    obtain ⟨_, fromTarget, -⟩ := Fallible.ok_of_check_bind located
    exact ⟨⟨nofun, (locate_eq_ok_iff.mp fromSource).1⟩,
      ⟨nofun, (locate_eq_ok_iff.mp fromTarget).1⟩⟩
  unfold locateBoth at located
  split at located
  case isTrue strict =>
    obtain ⟨_, spanSource, located⟩ := Fallible.ok_of_check_bind located
    obtain ⟨_, spanTarget, located⟩ := Fallible.ok_of_check_bind located
    obtain ⟨fromSource, fromTarget⟩ := each located
    exact ⟨⟨fun _ => (Extent.checkSpan_eq_ok_iff _ _ _).mp spanSource, fromSource.2⟩,
      ⟨fun _ => (Extent.checkSpan_eq_ok_iff _ _ _).mp spanTarget, fromTarget.2⟩⟩
  case isFalse unchecked =>
    rw [Bool.not_eq_true] at unchecked
    unfold AcceptBoth
    rw [unchecked]
    exact each located

theorem not_acceptBoth_of_locateBoth
    {error : HeapError}
    (refused : source.locateBoth sourceOffset target targetOffset length = .error error) :
    ¬ AcceptBoth source sourceOffset target targetOffset length := by
  intro accepted
  rw [accepted.locateBoth] at refused
  cases refused

/-! ### Copies and comparisons -/

theorem copyTo_of_refused
    {error : HeapError}
    (refused : source.locateBoth sourceOffset target targetOffset length = .error error)
    (memory : Memory) :
    source.copyTo sourceOffset target targetOffset length memory =
      .error (.refused error) memory := by
  rw [copyTo, refused]
  rfl

theorem copyTo_of_acceptBoth
    (accepted : AcceptBoth source sourceOffset target targetOffset length)
    (memory : Memory) :
    ∃ after, source.copyTo sourceOffset target targetOffset length memory = .ok () after ∧
      after.get = (memory.copy (source.address.add sourceOffset)
        (target.address.add targetOffset) length.toNat).get := by
  unfold copyTo
  rw [accepted.locateBoth]
  by_cases isEmpty : length = 0
  · subst isEmpty
    exact ⟨memory, rfl, (Memory.get_write _ _ []).symm⟩
  · rw [if_neg isEmpty]
    exact ⟨_, rfl, rfl⟩

theorem compareTo_of_refused
    {error : HeapError}
    (refused : left.locateBoth leftOffset right rightOffset length = .error error)
    (memory : Memory) :
    left.compareTo leftOffset right rightOffset length memory =
      .error (.refused error) memory := by
  rw [compareTo, refused]
  rfl

/-- What a copy leaves behind. At each place of the target memory has the byte that it had at that
place of the source before, no other byte has changed, and if the ranges have no address in common,
a comparison finds them equal. -/
structure Copied
    (source : Block)
    (sourceOffset : UInt64)
    (target : Block)
    (targetOffset length : UInt64)
    (memory after : Memory) : Prop where
  bytes : ∀ place : UInt64, place.toNat < length.toNat →
    after.get ((target.address.add targetOffset).add place) =
      memory.get ((source.address.add sourceOffset).add place)
  others : ∀ address, ¬ target.Covers targetOffset length address →
    after.get address = memory.get address
  equal : (∀ address, source.Covers sourceOffset length address →
      ¬ target.Covers targetOffset length address) →
    source.compareTo sourceOffset target targetOffset length after = .ok .eq after

/-- The bytes that memory has in a range of a block, each looked up at its own address. -/
def contents (block : Block) (memory : Memory) (offset length : UInt64) : List UInt8 :=
  (List.range length.toNat).map fun place =>
    memory.get ((block.address.add offset).add (UInt64.ofNat place))

theorem contents_eq_read
    (block : Block)
    (memory : Memory)
    (offset length : UInt64) :
    block.contents memory offset length =
      memory.read (block.address.add offset) length.toNat :=
  (Memory.read_eq_map ..).symm

theorem compareTo_of_acceptBoth
    (accepted : AcceptBoth left leftOffset right rightOffset length)
    (memory : Memory) :
    left.compareTo leftOffset right rightOffset length memory =
      .ok (compareBytes (left.contents memory leftOffset length)
        (right.contents memory rightOffset length)) memory := by
  rw [contents_eq_read, contents_eq_read]
  unfold compareTo
  rw [accepted.locateBoth]
  by_cases isEmpty : length = 0
  · subst isEmpty
    rfl
  · rw [if_neg isEmpty]
    rfl

/-- Ranges that agree place by place have the same contents. -/
theorem contents_congr
    (same : ∀ place : UInt64, place.toNat < length.toNat →
      after.get ((target.address.add targetOffset).add place) =
        memory.get ((source.address.add sourceOffset).add place)) :
    target.contents after targetOffset length = source.contents memory sourceOffset length := by
  refine List.map_congr_left fun place present => same _ ?_
  have inside : place < length.toNat := List.mem_range.mp present
  rw [UInt64.toNat_ofNat_of_lt' (Nat.lt_trans inside length.toNat_lt)]
  exact inside

/-- What a comparison finds: the lexicographic order of the bytes that memory has on both sides,
which is turned around with the sides. -/
structure Compared
    (left : Block)
    (leftOffset : UInt64)
    (right : Block)
    (rightOffset length : UInt64)
    (memory : Memory)
    (ordering : Ordering) : Prop where
  less : ordering = .lt ↔
    left.contents memory leftOffset length < right.contents memory rightOffset length
  equal : ordering = .eq ↔
    left.contents memory leftOffset length = right.contents memory rightOffset length
  greater : ordering = .gt ↔
    right.contents memory rightOffset length < left.contents memory leftOffset length
  swapped : right.compareTo rightOffset left leftOffset length memory =
    .ok ordering.swap memory

/-- The ways in which a copy ends. Both ranges must be accepted, and if one of the blocks is
checked, both must lie in their blocks. Otherwise nothing changes. -/
inductive CopyOutcome
    (source : Block)
    (sourceOffset : UInt64)
    (target : Block)
    (targetOffset length : UInt64)
    (memory : Memory) :
    EStateM.Result (Failure HeapError) Memory Unit → Prop
  | copied
      {after : Memory}
      (accepted : AcceptBoth source sourceOffset target targetOffset length)
      (copied : Copied source sourceOffset target targetOffset length memory after) :
      CopyOutcome source sourceOffset target targetOffset length memory (.ok () after)
  | refused
      (error : HeapError)
      (rejected : ¬ AcceptBoth source sourceOffset target targetOffset length) :
      CopyOutcome source sourceOffset target targetOffset length memory
        (.error (.refused error) memory)

/-- The ways in which a comparison ends. -/
inductive CompareOutcome
    (left : Block)
    (leftOffset : UInt64)
    (right : Block)
    (rightOffset length : UInt64)
    (memory : Memory) :
    EStateM.Result (Failure HeapError) Memory Ordering → Prop
  | compared
      {ordering : Ordering}
      (accepted : AcceptBoth left leftOffset right rightOffset length)
      (compared : Compared left leftOffset right rightOffset length memory ordering) :
      CompareOutcome left leftOffset right rightOffset length memory (.ok ordering memory)
  | refused
      (error : HeapError)
      (rejected : ¬ AcceptBoth left leftOffset right rightOffset length) :
      CompareOutcome left leftOffset right rightOffset length memory
        (.error (.refused error) memory)

theorem copied_of_acceptBoth
    (accepted : AcceptBoth source sourceOffset target targetOffset length)
    (same : after.get = (memory.copy (source.address.add sourceOffset)
      (target.address.add targetOffset) length.toNat).get) :
    Copied source sourceOffset target targetOffset length memory after := by
  have short : length.toNat ≤ 0x10000000000000000 := Nat.le_of_lt length.toNat_lt
  have bytes : ∀ place : UInt64, place.toNat < length.toNat →
      after.get ((target.address.add targetOffset).add place) =
        memory.get ((source.address.add sourceOffset).add place) := by
    intro place inside
    rw [same]
    exact Memory.get_copy_of_near memory _ _ short inside
  have others : ∀ address, ¬ target.Covers targetOffset length address →
      after.get address = memory.get address := by
    intro address outside
    rw [same]
    exact Memory.get_copy_of_far _ _ _ _ _ (Nat.le_of_not_lt outside)
  refine ⟨bytes, others, fun apart => ?_⟩
  -- Nothing was written to the source, so the bytes that were copied are still there.
  have kept : source.contents after sourceOffset length =
      source.contents memory sourceOffset length := by
    refine contents_congr fun place inside => others _ (apart _ ?_)
    rw [Covers, Address.offsetFrom_add]
    exact inside
  rw [compareTo_of_acceptBoth accepted, kept, contents_congr bytes,
    compareBytes_eq_eq_iff.mpr rfl]

theorem compared_of_acceptBoth
    (accepted : AcceptBoth left leftOffset right rightOffset length) :
    Compared left leftOffset right rightOffset length memory
      (compareBytes (left.contents memory leftOffset length)
        (right.contents memory rightOffset length)) := by
  refine ⟨compareBytes_eq_lt_iff, compareBytes_eq_eq_iff, ?_, ?_⟩
  · rw [← compareBytes_eq_lt_iff, ← swap_compareBytes, Ordering.swap_eq_gt]
  · rw [swap_compareBytes]
    exact compareTo_of_acceptBoth accepted.swap memory

theorem copyTo_outcome
    (source : Block)
    (sourceOffset : UInt64)
    (target : Block)
    (targetOffset length : UInt64)
    (memory : Memory) :
    CopyOutcome source sourceOffset target targetOffset length memory
      (source.copyTo sourceOffset target targetOffset length memory) := by
  cases located : source.locateBoth sourceOffset target targetOffset length with
  | error error =>
      rw [copyTo_of_refused located]
      exact .refused error (not_acceptBoth_of_locateBoth located)
  | ok starts =>
      have accepted := acceptBoth_of_locateBoth located
      obtain ⟨after, copied, same⟩ := copyTo_of_acceptBoth accepted memory
      rw [copied]
      exact .copied accepted (copied_of_acceptBoth accepted same)

theorem compareTo_outcome
    (left : Block)
    (leftOffset : UInt64)
    (right : Block)
    (rightOffset length : UInt64)
    (memory : Memory) :
    CompareOutcome left leftOffset right rightOffset length memory
      (left.compareTo leftOffset right rightOffset length memory) := by
  cases located : left.locateBoth leftOffset right rightOffset length with
  | error error =>
      rw [compareTo_of_refused located]
      exact .refused error (not_acceptBoth_of_locateBoth located)
  | ok starts =>
      have accepted := acceptBoth_of_locateBoth located
      rw [compareTo_of_acceptBoth accepted]
      exact .compared accepted (compared_of_acceptBoth accepted)

/-- Whatever ranges of two blocks are copied or compared, a copy is complete and exact or changes
nothing, and a comparison is the order of the bytes or finds none. -/
theorem ranges_copied_and_compared
    (left : Block)
    (leftOffset : UInt64)
    (right : Block)
    (rightOffset length : UInt64)
    (memory : Memory) :
    CopyOutcome left leftOffset right rightOffset length memory
        (left.copyTo leftOffset right rightOffset length memory) ∧
      CompareOutcome left leftOffset right rightOffset length memory
        (left.compareTo leftOffset right rightOffset length memory) :=
  ⟨copyTo_outcome left leftOffset right rightOffset length memory,
    compareTo_outcome left leftOffset right rightOffset length memory⟩

/-- Six of eight bytes are moved on by two over themselves, and arrive as they were before. Until
then each of them is smaller than the one that lies two bytes further on. -/
theorem ranges_copied_and_compared_of_overlap :
    let block : Block := .whole ⟨⟨⟨4096⟩, 8⟩, true, none⟩
    let memory := Memory.zero.write ⟨4096⟩ [1, 2, 3, 4, 5, 6, 7, 8]
    (∃ after, block.copyTo 0 block 2 6 memory = .ok () after ∧
        block.contents after 2 6 = [1, 2, 3, 4, 5, 6]) ∧
      block.compareTo 0 block 2 6 memory = .ok .lt memory := by
  intro block memory
  have accepted : AcceptBoth block 0 block 2 6 := by
    refine ⟨⟨fun _ => by decide, .inr ?_⟩, ⟨fun _ => by decide, .inr ?_⟩⟩ <;>
      exact (Extent.withinRoot_eq_ok_iff _ _ _).mpr (by decide)
  obtain ⟨copies, compares⟩ := ranges_copied_and_compared block 0 block 2 6 memory
  constructor
  · generalize block.copyTo 0 block 2 6 memory = ended at copies ⊢
    cases copies with
    | refused _ rejected => exact absurd accepted rejected
    | copied _ copied =>
        have before : block.contents memory 0 6 = [1, 2, 3, 4, 5, 6] := by decide +kernel
        exact ⟨_, rfl, (contents_congr copied.bytes).trans before⟩
  · generalize block.compareTo 0 block 2 6 memory = ended at compares ⊢
    cases compares with
    | refused _ rejected => exact absurd accepted rejected
    | compared _ compared =>
        have smaller : block.contents memory 0 6 < block.contents memory 2 6 := by decide +kernel
        rw [compared.less.mpr smaller]

end Block
end GuardedHeap
