import GuardedHeap.Proofs.Block.Checked

/-!
# Exact bounds

Reading, writing, filling, copying and comparing checked blocks succeeds exactly if all
ranges lie in their blocks, whatever the root has beside them, and reaches the bytes of these
blocks alone. The reason for the latter is that a checked block acts as if it were a root of
its own.
-/

namespace GuardedHeap

namespace MemoryM

variable {α β : Type}

/-- A computation on memory succeeds exactly under a condition, whatever memory holds. It is
otherwise out of bounds and changes nothing. -/
structure Accepts (computation : MemoryM α) (condition : Prop) : Prop where
  passes_iff : ∀ memory, (∃ value after, computation memory = .ok value after) ↔ condition
  refuses : ∀ memory failure after, computation memory = .error failure after →
    after = memory ∧ ∃ error : HeapError, failure = .refused error ∧ error.OutOfBounds

variable {condition : Prop}

/-- What always succeeds after a check is accepted as the check is. -/
theorem accepts_check
    {check : Except HeapError β}
    {next : β → MemoryM α}
    (decides : Decides check condition)
    (goesOn : ∀ value memory, ∃ result after, next value memory = .ok result after) :
    Accepts (Fallible.ofCheck check >>= next) condition := by
  cases check with
  | ok value =>
      have holds := decides.passes_iff.mp ⟨value, rfl⟩
      refine ⟨fun memory => iff_of_true (goesOn value memory) holds, ?_⟩
      intro memory failure after fails
      obtain ⟨result, ends, succeeds⟩ := goesOn value memory
      have same : (Fallible.ofCheck (.ok value) >>= next) memory = .ok result ends := succeeds
      rw [same] at fails
      cases fails
  | error error =>
      have outside := decides.refuses error rfl
      refine ⟨fun memory => iff_of_false ?_ fun holds => ?_, ?_⟩
      · rintro ⟨value, after, succeeds⟩
        cases succeeds
      · obtain ⟨value, passes⟩ := decides.passes_iff.mpr holds
        cases passes
      · intro memory failure after fails
        cases fails
        exact ⟨rfl, error, rfl, outside⟩

/-- A look at memory is accepted as what it sees is. -/
theorem accepts_query
    {look : Memory → Except HeapError α}
    (decides : ∀ memory, Decides (look memory) condition) :
    Accepts (Fallible.query look) condition := by
  have atEach : ∀ memory, Fallible.query look memory =
      (Fallible.ofCheck (look memory) >>= pure : MemoryM α) memory := by
    intro memory
    unfold Fallible.query
    cases look memory <;> rfl
  have accepts : ∀ memory, Accepts (Fallible.ofCheck (look memory) >>= pure) condition :=
    fun memory => accepts_check (decides memory) fun value memory => ⟨value, memory, rfl⟩
  constructor
  · intro memory
    rw [atEach memory]
    exact (accepts memory).passes_iff memory
  · intro memory failure after fails
    rw [atEach memory] at fails
    exact (accepts memory).refuses memory failure after fails

/-- Changing the value of a computation does not change what is accepted. -/
theorem Accepts.bind_pure
    {computation : MemoryM α}
    (accepts : Accepts computation condition)
    (change : α → β) :
    Accepts (do pure (change (← computation))) condition := by
  constructor
  · intro memory
    rw [← accepts.passes_iff memory]
    constructor
    · rintro ⟨result, after, succeeds⟩
      obtain ⟨value, passed, -⟩ := Fallible.ok_of_bind_pure succeeds
      exact ⟨value, after, passed⟩
    · rintro ⟨value, after, passed⟩
      exact ⟨change value, after, Fallible.bind_of_ok passed _⟩
  · intro memory failure after fails
    exact accepts.refuses memory failure after (Fallible.error_of_bind_pure fails)

end MemoryM

namespace Block

/-- A block as a root of its own. -/
def narrowed (block : Block) : Block :=
  .whole ⟨block.extent, block.checked, none⟩

@[simp] theorem size_narrowed (block : Block) : block.narrowed.size = block.size := rfl

theorem spans_all (block : Block) : block.Spans 0 block.size :=
  Nat.le_of_eq (Nat.zero_add _)

namespace Strict

variable {block source target : Block}
variable {offset sourceOffset targetOffset length : UInt64}

theorem toInside (strict : block.Strict) : block.Inside :=
  ⟨strict.inside.1, strict.inside.2, Nat.le_of_lt strict.ends⟩

theorem narrowed (strict : block.Strict) : block.narrowed.Strict :=
  strict_whole strict.checked strict.ends

theorem locateRange_of_not_spans
    (strict : block.Strict)
    (outside : ¬ block.Spans offset length) :
    block.locateRange offset length = .error (.outOfBounds offset length block.size) := by
  have refused : Extent.checkSpan offset length block.size =
      .error (.outOfBounds offset length block.size) := Extent.checkSpan_of_not_fits outside
  rw [locateRange, checkRange, strict.checked, if_pos rfl, refused]
  rfl

theorem decides_locateRange
    (strict : block.Strict)
    (offset length : UInt64) :
    Decides (block.locateRange offset length) (block.Spans offset length) := by
  by_cases spans : block.Spans offset length
  · exact .of_ok (strict.toInside.locateRange spans) spans
  · exact .of_error (strict.locateRange_of_not_spans spans) spans

/-- Two ranges are located one after the other once both are known to lie in their blocks. -/
theorem locateBoth_eq
    (strict : source.Strict)
    (sourceOffset : UInt64)
    (target : Block)
    (targetOffset length : UInt64) :
    source.locateBoth sourceOffset target targetOffset length = (do
      Extent.checkSpan sourceOffset length source.size
      Extent.checkSpan targetOffset length target.size
      source.locateEach sourceOffset target targetOffset length) := by
  rw [locateBoth, strict.checked]
  rfl

theorem locateBoth_of_spans
    (strictSource : source.Strict)
    (strictTarget : target.Strict)
    (inSource : source.Spans sourceOffset length)
    (inTarget : target.Spans targetOffset length) :
    source.locateBoth sourceOffset target targetOffset length =
      .ok (if length = 0 then none
        else some (source.address.add sourceOffset, target.address.add targetOffset)) := by
  have fromSource := strictSource.toInside.locate inSource
  have fromTarget := strictTarget.toInside.locate inTarget
  rw [strictSource.locateBoth_eq, (Extent.checkSpan_eq_ok_iff _ _ _).mpr inSource,
    (Extent.checkSpan_eq_ok_iff _ _ _).mpr inTarget]
  show source.locateEach sourceOffset target targetOffset length = _
  rw [locateEach, fromSource, fromTarget]
  by_cases isEmpty : length = 0
  · simp only [if_pos isEmpty]
    rfl
  · simp only [if_neg isEmpty]
    rfl

theorem locateBoth_of_source_outside
    (strict : source.Strict)
    (outside : ¬ source.Spans sourceOffset length) :
    source.locateBoth sourceOffset target targetOffset length =
      .error (.outOfBounds sourceOffset length source.size) := by
  rw [strict.locateBoth_eq, Extent.checkSpan_of_not_fits outside]
  rfl

theorem locateBoth_of_target_outside
    (strict : source.Strict)
    (inSource : source.Spans sourceOffset length)
    (outside : ¬ target.Spans targetOffset length) :
    source.locateBoth sourceOffset target targetOffset length =
      .error (.outOfBounds targetOffset length target.size) := by
  rw [strict.locateBoth_eq, (Extent.checkSpan_eq_ok_iff _ _ _).mpr inSource,
    Extent.checkSpan_of_not_fits outside]
  rfl

theorem decides_locateBoth
    (strictSource : source.Strict)
    (strictTarget : target.Strict)
    (sourceOffset targetOffset length : UInt64) :
    Decides (source.locateBoth sourceOffset target targetOffset length)
      (source.Spans sourceOffset length ∧ target.Spans targetOffset length) := by
  by_cases inSource : source.Spans sourceOffset length
  case neg =>
    exact .of_error (strictSource.locateBoth_of_source_outside inSource) fun both =>
      inSource both.1
  case pos =>
    by_cases inTarget : target.Spans targetOffset length
    · exact .of_ok (strictSource.locateBoth_of_spans strictTarget inSource inTarget)
        ⟨inSource, inTarget⟩
    · exact .of_error (strictSource.locateBoth_of_target_outside inSource inTarget) fun both =>
        inTarget both.2

/-! ### What is accepted -/

section Accepted

open MemoryM (Accepts)

theorem accepts_fill
    (strict : block.Strict)
    (value : UInt8) :
    Accepts (block.fill value) True := by
  refine MemoryM.accepts_check (.of_ok (strict.toInside.locate (spans_all block)) trivial) ?_
  intro start memory
  cases start <;> exact ⟨_, _, rfl⟩

theorem accepts_copyTo
    (strictSource : source.Strict)
    (strictTarget : target.Strict)
    (sourceOffset targetOffset length : UInt64) :
    Accepts (source.copyTo sourceOffset target targetOffset length)
      (source.Spans sourceOffset length ∧ target.Spans targetOffset length) := by
  refine MemoryM.accepts_check (strictSource.decides_locateBoth strictTarget _ _ _) ?_
  intro starts memory
  cases starts <;> exact ⟨_, _, rfl⟩

theorem accepts_compareTo
    (strictLeft : source.Strict)
    (strictRight : target.Strict)
    (leftOffset rightOffset length : UInt64) :
    Accepts (source.compareTo leftOffset target rightOffset length)
      (source.Spans leftOffset length ∧ target.Spans rightOffset length) := by
  refine MemoryM.accepts_check (strictLeft.decides_locateBoth strictRight _ _ _) ?_
  intro starts memory
  cases starts <;> exact ⟨_, _, rfl⟩

theorem accepts_read
    (strict : block.Strict)
    (offset length : UInt64) :
    Accepts (block.read offset length) (block.Spans offset length) :=
  MemoryM.accepts_query fun _ => (strict.decides_locateRange offset length).map _

theorem accepts_write
    {bytes : List UInt8}
    (strict : block.Strict)
    (isWord : bytes.length < 0x10000000000000000)
    (offset : UInt64) :
    Accepts (block.write offset bytes)
      (offset.toNat + bytes.length ≤ block.size.toNat) := by
  have exact : (UInt64.ofNat bytes.length).toNat = bytes.length :=
    UInt64.toNat_ofNat_of_lt' isWord
  have counted : Word.ofNat? bytes.length = some (UInt64.ofNat bytes.length) := if_pos isWord
  have decides := strict.decides_locateRange offset (UInt64.ofNat bytes.length)
  unfold Spans at decides
  rw [exact] at decides
  unfold write
  rw [counted]
  refine MemoryM.accepts_check decides ?_
  intro start memory
  cases start <;> exact ⟨_, _, rfl⟩

end Accepted

/-! ### Blocks as roots of their own -/

theorem locateRange_narrowed
    (strict : block.Strict)
    (offset length : UInt64) :
    block.narrowed.locateRange offset length = block.locateRange offset length := by
  by_cases spans : block.Spans offset length
  · rw [strict.toInside.locateRange spans, strict.narrowed.toInside.locateRange spans]
    rfl
  · rw [strict.locateRange_of_not_spans spans, strict.narrowed.locateRange_of_not_spans spans]
    rfl

theorem locateBoth_narrowed
    (strictSource : source.Strict)
    (strictTarget : target.Strict)
    (sourceOffset targetOffset length : UInt64) :
    source.narrowed.locateBoth sourceOffset target.narrowed targetOffset length =
      source.locateBoth sourceOffset target targetOffset length := by
  by_cases inSource : source.Spans sourceOffset length
  case neg =>
    rw [strictSource.locateBoth_of_source_outside inSource,
      strictSource.narrowed.locateBoth_of_source_outside inSource]
    rfl
  case pos =>
    by_cases inTarget : target.Spans targetOffset length
    · rw [strictSource.locateBoth_of_spans strictTarget inSource inTarget,
        strictSource.narrowed.locateBoth_of_spans strictTarget.narrowed inSource inTarget]
      rfl
    · have outside : ¬ target.narrowed.Spans targetOffset length := inTarget
      rw [strictSource.locateBoth_of_target_outside inSource inTarget,
        strictSource.narrowed.locateBoth_of_target_outside inSource outside]
      rfl

theorem fill_narrowed
    (strict : block.Strict)
    (value : UInt8) :
    block.narrowed.fill value = block.fill value := by
  have located : block.narrowed.locate 0 block.narrowed.size = block.locate 0 block.size := by
    rw [strict.toInside.locate (spans_all block),
      strict.narrowed.toInside.locate (spans_all block.narrowed)]
    rfl
  unfold fill
  rw [located]
  rfl

theorem copyTo_narrowed
    (strictSource : source.Strict)
    (strictTarget : target.Strict)
    (sourceOffset targetOffset length : UInt64) :
    source.narrowed.copyTo sourceOffset target.narrowed targetOffset length =
      source.copyTo sourceOffset target targetOffset length := by
  rw [copyTo, strictSource.locateBoth_narrowed strictTarget]
  rfl

theorem compareTo_narrowed
    (strictLeft : source.Strict)
    (strictRight : target.Strict)
    (leftOffset rightOffset length : UInt64) :
    source.narrowed.compareTo leftOffset target.narrowed rightOffset length =
      source.compareTo leftOffset target rightOffset length := by
  rw [compareTo, strictLeft.locateBoth_narrowed strictRight]
  rfl

theorem read_narrowed
    (strict : block.Strict)
    (offset length : UInt64) :
    block.narrowed.read offset length = block.read offset length := by
  simp only [read, bytesAt, strict.locateRange_narrowed]

theorem write_narrowed
    (strict : block.Strict)
    (offset : UInt64)
    (bytes : List UInt8) :
    block.narrowed.write offset bytes = block.write offset bytes := by
  simp only [write, strict.locateRange_narrowed]

end Strict

namespace Operation

/-- The same operation on other blocks. -/
def mapBlocks (change : Block → Block) : Operation → Operation
  | .fill target value => .fill (change target) value
  | .copyTo source sourceOffset target targetOffset length =>
      .copyTo (change source) sourceOffset (change target) targetOffset length
  | .copyAllTo source target => .copyAllTo (change source) (change target)
  | .copyPrefixTo source target length => .copyPrefixTo (change source) (change target) length
  | .compareTo left leftOffset right rightOffset length =>
      .compareTo (change left) leftOffset (change right) rightOffset length
  | .compareAll left right => .compareAll (change left) (change right)
  | .comparePrefix left right length => .comparePrefix (change left) (change right) length
  | .read source offset length => .read (change source) offset length
  | .write target offset bytes => .write (change target) offset bytes
  | .getByte source offset => .getByte (change source) offset
  | .putByte target offset value => .putByte (change target) offset value

theorem blocks_mapBlocks (change : Block → Block) (operation : Operation) :
    (operation.mapBlocks change).blocks = operation.blocks.map change := by
  cases operation <;> rfl

theorem target?_mapBlocks (change : Block → Block) (operation : Operation) :
    (operation.mapBlocks change).target? = operation.target?.map change := by
  cases operation <;> rfl

/-- The ranges that an operation is about lie in their blocks. -/
def Fits : Operation → Prop
  | .fill .. => True
  | .copyTo source sourceOffset target targetOffset length =>
      source.Spans sourceOffset length ∧ target.Spans targetOffset length
  | .copyAllTo source target => source.Spans 0 source.size ∧ target.Spans 0 source.size
  | .copyPrefixTo source target length => source.Spans 0 length ∧ target.Spans 0 length
  | .compareTo left leftOffset right rightOffset length =>
      left.Spans leftOffset length ∧ right.Spans rightOffset length
  | .compareAll left right => left.Spans 0 left.size ∧ right.Spans 0 left.size
  | .comparePrefix left right length => left.Spans 0 length ∧ right.Spans 0 length
  | .read source offset length => source.Spans offset length
  | .write target offset bytes => offset.toNat + bytes.length ≤ target.size.toNat
  | .getByte source offset => source.Spans offset 1
  | .putByte target offset _ => target.Spans offset 1

/-- The bytes to be written are counted by a word. -/
def Sized : Operation → Prop
  | .write _ _ bytes => bytes.length < 0x10000000000000000
  | _ => True

/-- The bytes of the blocks of an operation themselves. -/
def Touches (operation : Operation) (address : Address) : Prop :=
  ∃ block ∈ operation.blocks, block.extent.Contains address

/-- The bytes of the block that an operation changes. -/
def Changes (operation : Operation) (address : Address) : Prop :=
  ∃ block ∈ operation.target?, block.extent.Contains address

/-- An operation succeeds exactly if its ranges fit, is otherwise out of bounds without
effect, and reaches the bytes of its blocks alone. -/
structure Exact (operation : Operation) : Prop where
  accepts : MemoryM.Accepts operation.run operation.Fits
  confined : MemoryM.Confined operation.Touches operation.Changes operation.run

variable {operation : Operation}

theorem accepts_of_strict
    (sized : operation.Sized)
    (strict : ∀ block ∈ operation.blocks, block.Strict) :
    MemoryM.Accepts operation.run operation.Fits := by
  cases operation <;>
    simp only [blocks, List.mem_cons, List.not_mem_nil, or_false, forall_eq_or_imp,
      forall_eq] at strict
  case fill => exact (strict.accepts_fill _).bind_pure _
  case copyTo | copyAllTo | copyPrefixTo =>
    exact (strict.1.accepts_copyTo strict.2 _ _ _).bind_pure _
  case compareTo | compareAll | comparePrefix =>
    exact (strict.1.accepts_compareTo strict.2 _ _ _).bind_pure _
  case read => exact (strict.accepts_read _ _).bind_pure _
  case write => exact (strict.accepts_write sized _).bind_pure _
  case getByte => exact ((strict.accepts_read _ _).bind_pure _).bind_pure _
  case putByte => exact (strict.accepts_write (Nat.lt_of_sub_eq_succ rfl) _).bind_pure _

/-- Checked blocks act as roots of their own. -/
theorem run_narrowed (strict : ∀ block ∈ operation.blocks, block.Strict) :
    (operation.mapBlocks narrowed).run = operation.run := by
  cases operation <;>
    simp only [blocks, List.mem_cons, List.not_mem_nil, or_false, forall_eq_or_imp,
      forall_eq] at strict
  case fill => simp only [mapBlocks, run, strict.fill_narrowed]
  case copyTo | copyAllTo | copyPrefixTo =>
    simp only [mapBlocks, run, Block.copyAllTo, Block.copyPrefixTo, size_narrowed,
      strict.1.copyTo_narrowed strict.2]
  case compareTo | compareAll | comparePrefix =>
    simp only [mapBlocks, run, Block.compareAll, Block.comparePrefix, size_narrowed,
      strict.1.compareTo_narrowed strict.2]
  case read => simp only [mapBlocks, run, strict.read_narrowed]
  case write => simp only [mapBlocks, run, strict.write_narrowed]
  case getByte => simp only [mapBlocks, run, Block.getByte, strict.read_narrowed]
  case putByte => simp only [mapBlocks, run, Block.putByte, strict.write_narrowed]

theorem touches_of_reaches_narrowed
    {address : Address}
    (reached : (operation.mapBlocks narrowed).Reaches address) :
    operation.Touches address := by
  obtain ⟨block, present, inside⟩ := reached
  rw [blocks_mapBlocks] at present
  obtain ⟨outer, among, rfl⟩ := List.mem_map.mp present
  exact ⟨outer, among, inside⟩

theorem changes_of_targets_narrowed
    {address : Address}
    (reached : (operation.mapBlocks narrowed).Targets address) :
    operation.Changes address := by
  obtain ⟨block, present, inside⟩ := reached
  rw [target?_mapBlocks] at present
  obtain ⟨outer, among, rfl⟩ := Option.map_eq_some_iff.mp present
  exact ⟨outer, among, inside⟩

/-- What an operation on checked blocks does is decided by the bytes of these blocks, and
stays in them. -/
theorem confined_of_strict (strict : ∀ block ∈ operation.blocks, block.Strict) :
    MemoryM.Confined operation.Touches operation.Changes operation.run := by
  -- As roots of their own, the blocks confine the operation to themselves.
  have confined : MemoryM.Confined (operation.mapBlocks narrowed).Reaches
      (operation.mapBlocks narrowed).Targets (operation.mapBlocks narrowed).run := by
    refine Operation.confined ?_
    rw [blocks_mapBlocks]
    intro block present
    obtain ⟨outer, among, rfl⟩ := List.mem_map.mp present
    exact Nat.le_of_lt (strict outer among).ends
  rw [run_narrowed strict] at confined
  refine confined.mono ?_ (fun _ => touches_of_reaches_narrowed) fun _ =>
    changes_of_targets_narrowed
  rintro address ⟨block, target, inside⟩
  exact ⟨block, mem_blocks_of_target target, inside⟩

end Operation

/-- The bounds of a block are exact: its arithmetic accepts what stays in the block, refuses
all else as out of bounds, goes to offsets and back, and cuts out parts that lie in the
block, in however many steps. -/
structure Exact (block : Block) : Prop where
  addressAt : ∀ offset, Decides (block.addressAt offset) (offset.toNat ≤ block.size.toNat)
  offsetOf : ∀ address, Decides (block.offsetOf address)
    (block.extent.start ≤ address.value.toNat ∧ address.value.toNat ≤ block.extent.stop)
  available : ∀ address, Decides (block.available address)
    (block.extent.start ≤ address.value.toNat ∧ address.value.toNat ≤ block.extent.stop)
  slice : ∀ offset size, Decides (block.slice offset size) (block.Spans offset size)
  sliceFirst : ∀ size, Decides (block.sliceFirst size) (block.Spans 0 size)
  sliceLast : ∀ size, Decides (block.sliceLast size) (size.toNat ≤ block.size.toNat)
  offsetOf_addressAt : ∀ offset, offset.toNat ≤ block.size.toNat →
    (do block.offsetOf (← block.addressAt offset)) = .ok offset
  available_addressAt : ∀ offset, offset.toNat ≤ block.size.toNat →
    (do block.available (← block.addressAt offset)) = .ok (block.size - offset)
  parts : ∀ part, PartOf block part → part.extent.Within block.extent

/-- Views of checked roots that end before the address space does have exact bounds, and so
have all operations on them, also on views of different roots. -/
theorem checked_bounds_exact :
    (∀ block : Block, block.OfCheckedRoot → block.Exact) ∧
      ∀ operation : Operation, operation.Sized →
        (∀ block ∈ operation.blocks, block.OfCheckedRoot) → operation.Exact := by
  constructor
  · intro block checked
    have strict := checked.strict
    exact {
      addressAt := strict.decides_addressAt
      offsetOf := strict.decides_offsetOf
      available := strict.decides_available
      slice := strict.decides_slice
      sliceFirst := strict.decides_slice 0
      sliceLast := strict.decides_sliceLast
      offsetOf_addressAt := fun _ => strict.offsetOf_addressAt
      available_addressAt := fun _ => strict.available_addressAt
      parts := fun _ reached => (reached.within strict).2 }
  · intro operation sized checked
    have strict : ∀ block ∈ operation.blocks, block.Strict :=
      fun block present => (checked block present).strict
    exact ⟨Operation.accepts_of_strict sized strict, Operation.confined_of_strict strict⟩

/-- Copying within a root from one view to a view of this view. -/
theorem checked_bounds_exact_of_nested_views :
    let root : Root := ⟨⟨⟨0x1000⟩, 16⟩, true, none⟩
    let outer : Block := .view root ⟨⟨0x1004⟩, 8⟩
    let inner : Block := .view root ⟨⟨0x1006⟩, 4⟩
    let operation : Operation := .copyTo outer 4 inner 0 4
    (outer.Exact ∧ PartOf outer inner) ∧ operation.Exact := by
  intro root outer inner operation
  have cutOuter : (whole root).slice 4 8 = .ok outer := rfl
  have cutInner : outer.slice 2 4 = .ok inner := rfl
  have outerView : ViewOf root outer := .slice .whole cutOuter
  have innerView : ViewOf root inner := .slice outerView cutInner
  have outerChecked : outer.OfCheckedRoot := ⟨root, outerView, rfl, by decide⟩
  have innerChecked : inner.OfCheckedRoot := ⟨root, innerView, rfl, by decide⟩
  refine ⟨⟨checked_bounds_exact.1 outer outerChecked, .slice .whole cutInner⟩, ?_⟩
  refine checked_bounds_exact.2 operation trivial fun block present => ?_
  simp only [operation, Operation.blocks, List.mem_cons, List.not_mem_nil, or_false] at present
  rcases present with rfl | rfl
  · exact outerChecked
  · exact innerChecked

end Block
end GuardedHeap
