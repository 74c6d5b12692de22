import GuardedHeap.Block.Transfer
import GuardedHeap.Proofs.Memory.Confined

/-!
# Confinement of blocks

A view may start before its root, end behind it or wrap around the address
space, but no operation follows it there. What an operation does depends on the
bytes of the roots of its blocks alone, and only bytes of the root of its target
change. All of this rests on `withinRoot`, which accepts a range exactly if it
lies in the root without wrapping around.
-/

namespace GuardedHeap

namespace Extent

/-- Distances that are not negative are exact. -/
theorem offsetFrom?_eq_some_iff
    (address base : Address)
    (distance : UInt64) :
    address.offsetFrom? base = some distance ↔
      base.value.toNat ≤ address.value.toNat ∧ distance = address.offsetFrom base := by
  unfold Address.offsetFrom? Word.sub?
  by_cases ordered : base.value.toNat ≤ address.value.toNat
  · simp [ordered, Address.offsetFrom, eq_comm]
  · simp [ordered]

/-- A range of memory is accepted exactly if it lies in the root. -/
theorem withinRoot_eq_ok_iff
    (root : Extent)
    (start : Address)
    (length : UInt64) :
    root.withinRoot start length = .ok () ↔
      root.start ≤ start.value.toNat ∧ start.value.toNat + length.toNat ≤ root.stop := by
  unfold withinRoot Extent.stop Extent.start
  cases found : start.offsetFrom? root.address with
  | none =>
      have before : ¬ root.address.value.toNat ≤ start.value.toNat := by
        intro ordered
        have distance := (offsetFrom?_eq_some_iff start root.address _).mpr ⟨ordered, rfl⟩
        rw [found] at distance
        cases distance
      simp [before]
  | some distance =>
      obtain ⟨ordered, exact⟩ := (offsetFrom?_eq_some_iff start root.address distance).mp found
      have natural := Address.toNat_offsetFrom_of_le ordered
      rw [← exact] at natural
      simp only [checkSpan_eq_ok_iff]
      omega

end Extent

namespace Block

/-- A view that is reached from a root by cutting parts out of parts. -/
inductive ViewOf (root : Root) : Block → Prop
  | whole : ViewOf root (.whole root)
  | slice
      {block view : Block}
      {offset size : UInt64}
      (outer : ViewOf root block)
      (cut : block.slice offset size = .ok view) :
      ViewOf root view
  | first
      {block view : Block}
      {size : UInt64}
      (outer : ViewOf root block)
      (cut : block.sliceFirst size = .ok view) :
      ViewOf root view
  | last
      {block view : Block}
      {size : UInt64}
      (outer : ViewOf root block)
      (cut : block.sliceLast size = .ok view) :
      ViewOf root view

section Cutting

variable {block part : Block}
variable {offset size : UInt64}

/-- A part starts at its offset, modulo the size of the address space. Out of a checked block only
parts are cut that lie in it. -/
theorem eq_of_slice
    (cut : block.slice offset size = .ok part) :
    part = .view block.root ⟨block.address.add offset, size⟩ ∧
      (block.checked = true → offset.toNat + size.toNat ≤ block.size.toNat) := by
  rw [← Extent.checkSpan_eq_ok_iff]
  unfold slice Extent.slice at cut
  cases mode : block.checked with
  | false =>
      rw [mode] at cut
      cases cut
      exact ⟨rfl, by rintro ⟨⟩⟩
  | true =>
      rw [mode, if_pos rfl] at cut
      change Except.map _ (Except.map _ (Extent.checkSpan offset size block.size)) = _ at cut
      cases span : Extent.checkSpan offset size block.size with
      | error error =>
          rw [span] at cut
          cases cut
      | ok _ =>
          rw [span] at cut
          cases cut
          exact ⟨rfl, fun _ => rfl⟩

theorem eq_of_sliceLast
    (cut : block.sliceLast size = .ok part) :
    part = .view block.root ⟨block.address.add (block.size - size), size⟩ ∧
      (block.checked = true → size.toNat ≤ block.size.toNat) := by
  unfold sliceLast Extent.sliceLast at cut
  by_cases large : block.checked = true ∧ block.extent.size < size
  · rw [if_pos large] at cut
    cases cut
  · rw [if_neg large] at cut
    cases cut
    refine ⟨rfl, fun checked => ?_⟩
    rw [← UInt64.le_iff_toNat_le]
    exact UInt64.not_lt.mp fun behind => large ⟨checked, behind⟩

theorem root_of_slice (cut : block.slice offset size = .ok part) : part.root = block.root := by
  rw [(eq_of_slice cut).1, root_view]

theorem root_of_sliceLast (cut : block.sliceLast size = .ok part) : part.root = block.root := by
  rw [(eq_of_sliceLast cut).1, root_view]

end Cutting

/-- However often parts are cut out of parts, the root stays the same. -/
theorem ViewOf.root_eq
    {root : Root}
    {block : Block}
    (view : ViewOf root block) :
    block.root = root := by
  induction view with
  | whole => rfl
  | slice outer cut inductionHypothesis => exact (root_of_slice cut).trans inductionHypothesis
  | first outer cut inductionHypothesis => exact (root_of_slice cut).trans inductionHypothesis
  | last outer cut inductionHypothesis =>
      exact (root_of_sliceLast cut).trans inductionHypothesis

/-- The bytes of a root, counted from its first address without wrapping
around. -/
def InRoot (block : Block) (address : Address) : Prop :=
  block.root.extent.Contains address

/-- A root that ends within the address space. -/
def Rooted (block : Block) : Prop :=
  block.root.extent.stop ≤ 0x10000000000000000

section Located

variable {block : Block}
variable {offset length : UInt64}
variable {start? : Option Address}

/-- A range is located where it starts, if it lies in the root or has no bytes. -/
theorem locate_eq_ok_iff :
    block.locate offset length = .ok start? ↔
      (length = 0 ∨ block.root.extent.withinRoot (block.address.add offset) length = .ok ()) ∧
        start? = if length = 0 then none else some (block.address.add offset) := by
  unfold locate
  by_cases isEmpty : length = 0
  · simp [isEmpty, eq_comm]
  · simp only [isEmpty, false_or]
    cases block.root.extent.withinRoot (block.address.add offset) length with
    | error error => simp [Except.map]
    | ok _ => simp [Except.map, eq_comm]

/-- A range that is to be read or written has to lie in its block too, if this is checked. -/
theorem locateRange_eq_ok_iff :
    block.locateRange offset length = .ok start? ↔
      (block.checked = true → offset.toNat + length.toNat ≤ block.size.toNat) ∧
        block.locate offset length = .ok start? := by
  rw [← Extent.checkSpan_eq_ok_iff]
  unfold locateRange checkRange
  cases block.checked with
  | false => exact (and_iff_right (by simp)).symm
  | true =>
      cases Extent.checkSpan offset length block.size with
      | error error => exact iff_of_false (by rintro ⟨⟩) (by simp)
      | ok _ => exact (and_iff_right (by simp)).symm

variable {start address : Address}

/-- A range that was located lies in the root. -/
theorem inRoot_of_locate
    (rooted : block.Rooted)
    (located : block.locate offset length = .ok (some start))
    (near : (address.offsetFrom start).toNat < length.toNat) :
    block.InRoot address := by
  obtain ⟨isEmpty | within, starts⟩ := locate_eq_ok_iff.mp located
  case inl => simp [isEmpty] at near
  case inr =>
    split at starts
    case isTrue => cases starts
    case isFalse =>
      cases starts
      obtain ⟨after, before⟩ := (Extent.withinRoot_eq_ok_iff _ _ _).mp within
      have range : (⟨block.address.add offset, length⟩ : Extent).Contains address :=
        (Extent.contains_iff_offset_lt (Nat.le_trans before rooted) address).mpr near
      exact ⟨Nat.le_trans after range.1, Nat.lt_of_lt_of_le range.2 before⟩

theorem inRoot_of_locateRange
    (rooted : block.Rooted)
    (located : block.locateRange offset length = .ok (some start))
    (near : (address.offsetFrom start).toNat < length.toNat) :
    block.InRoot address :=
  inRoot_of_locate rooted (locateRange_eq_ok_iff.mp located).2 near

end Located

/-- Two ranges that were located are those of either block on its own. -/
theorem locate_of_locateEach
    {source target : Block}
    {sourceOffset targetOffset length : UInt64}
    {sourceStart targetStart : Address}
    (located : source.locateEach sourceOffset target targetOffset length =
      .ok (some (sourceStart, targetStart))) :
    source.locate sourceOffset length = .ok (some sourceStart) ∧
      target.locate targetOffset length = .ok (some targetStart) := by
  unfold locateEach at located
  cases fromSource : source.locate sourceOffset length with
  | error error =>
      rw [fromSource] at located
      cases located
  | ok first =>
      cases fromTarget : target.locate targetOffset length with
      | error error =>
          rw [fromSource, fromTarget] at located
          cases located
      | ok second =>
          rw [fromSource, fromTarget] at located
          cases first <;> cases second <;> cases located
          exact ⟨rfl, rfl⟩

theorem locate_of_locateBoth
    {source target : Block}
    {sourceOffset targetOffset length : UInt64}
    {sourceStart targetStart : Address}
    (located : source.locateBoth sourceOffset target targetOffset length =
      .ok (some (sourceStart, targetStart))) :
    source.locate sourceOffset length = .ok (some sourceStart) ∧
      target.locate targetOffset length = .ok (some targetStart) := by
  apply locate_of_locateEach
  unfold locateBoth at located
  split at located
  · cases spanSource : Extent.checkSpan sourceOffset length source.size with
    | error error =>
        rw [spanSource] at located
        cases located
    | ok _ =>
        cases spanTarget : Extent.checkSpan targetOffset length target.size with
        | error error =>
            rw [spanSource, spanTarget] at located
            cases located
        | ok _ =>
            rw [spanSource, spanTarget] at located
            exact located
  · exact located

section Confined

open MemoryM (Confined)

variable {reads writes : Address → Prop}

theorem confined_fill
    {block : Block}
    (rooted : block.Rooted)
    (target : ∀ address, block.InRoot address → writes address)
    (value : UInt8) :
    Confined reads writes (block.fill value) := by
  refine MemoryM.confined_check fun start located => ?_
  cases start with
  | none => exact MemoryM.confined_pure ()
  | some start =>
      exact MemoryM.confined_fill value fun address near =>
        target address (inRoot_of_locate rooted located near)

theorem confined_write
    {block : Block}
    (rooted : block.Rooted)
    (target : ∀ address, block.InRoot address → writes address)
    (offset : UInt64)
    (bytes : List UInt8) :
    Confined reads writes (block.write offset bytes) := by
  refine MemoryM.confined_exactly fun length counted => ?_
  refine MemoryM.confined_check fun start located => ?_
  cases start with
  | none => exact MemoryM.confined_pure ()
  | some start =>
      refine MemoryM.confined_write fun address near => ?_
      rw [← Word.toNat_of_ofNat?_eq_some counted] at near
      exact target address (inRoot_of_locateRange rooted located near)

theorem confined_copyTo
    {source target : Block}
    (sourceRooted : source.Rooted)
    (targetRooted : target.Rooted)
    (read : ∀ address, source.InRoot address → reads address)
    (written : ∀ address, target.InRoot address → writes address)
    (sourceOffset targetOffset length : UInt64) :
    Confined reads writes (source.copyTo sourceOffset target targetOffset length) := by
  refine MemoryM.confined_check fun starts located => ?_
  cases starts with
  | none => exact MemoryM.confined_pure ()
  | some starts =>
      obtain ⟨fromSource, fromTarget⟩ := locate_of_locateBoth located
      apply MemoryM.confined_copy (Nat.le_of_lt length.toNat_lt)
      · exact fun address near => read address (inRoot_of_locate sourceRooted fromSource near)
      · exact fun address near => written address (inRoot_of_locate targetRooted fromTarget near)

theorem confined_compareTo
    {left right : Block}
    (leftRooted : left.Rooted)
    (rightRooted : right.Rooted)
    (leftRead : ∀ address, left.InRoot address → reads address)
    (rightRead : ∀ address, right.InRoot address → reads address)
    (leftOffset rightOffset length : UInt64) :
    Confined reads writes (left.compareTo leftOffset right rightOffset length) := by
  refine MemoryM.confined_check fun starts located => ?_
  cases starts with
  | none => exact MemoryM.confined_pure Ordering.eq
  | some starts =>
      obtain ⟨fromLeft, fromRight⟩ := locate_of_locateBoth located
      have short := Nat.le_of_lt length.toNat_lt
      refine .of_look (fun _ => rfl) fun first second agree => ?_
      have leftBytes : first.read starts.1 length.toNat = second.read starts.1 length.toNat :=
        Memory.read_eq_of_near short fun address near =>
          agree address (leftRead address (inRoot_of_locate leftRooted fromLeft near))
      have rightBytes : first.read starts.2 length.toNat = second.read starts.2 length.toNat :=
        Memory.read_eq_of_near short fun address near =>
          agree address (rightRead address (inRoot_of_locate rightRooted fromRight near))
      show Except.ok (compareBytes _ _) = Except.ok (compareBytes _ _)
      rw [leftBytes, rightBytes]

theorem confined_read
    {block : Block}
    (rooted : block.Rooted)
    (source : ∀ address, block.InRoot address → reads address)
    (offset length : UInt64) :
    Confined reads writes (block.read offset length) := by
  refine MemoryM.confined_query fun left right agree => ?_
  unfold bytesAt
  cases located : block.locateRange offset length with
  | error error => rfl
  | ok start =>
      cases start with
      | none => rfl
      | some start =>
          have bytes : left.read start length.toNat = right.read start length.toNat :=
            Memory.read_eq_of_near (Nat.le_of_lt length.toNat_lt) fun address near =>
              agree address (source address (inRoot_of_locateRange rooted located near))
          simp only [Except.map, bytes]

end Confined

/-- The operations on blocks that touch memory. -/
inductive Operation
  | fill (target : Block) (value : UInt8)
  | copyTo
      (source : Block)
      (sourceOffset : UInt64)
      (target : Block)
      (targetOffset length : UInt64)
  | copyAllTo (source target : Block)
  | copyPrefixTo (source target : Block) (length : UInt64)
  | compareTo
      (left : Block)
      (leftOffset : UInt64)
      (right : Block)
      (rightOffset length : UInt64)
  | compareAll (left right : Block)
  | comparePrefix (left right : Block) (length : UInt64)
  | read (source : Block) (offset length : UInt64)
  | write (target : Block) (offset : UInt64) (bytes : List UInt8)
  | getByte (source : Block) (offset : UInt64)
  | putByte (target : Block) (offset : UInt64) (value : UInt8)

namespace Operation

/-- What an operation gives. -/
inductive Answer
  | done
  | order (ordering : Ordering)
  | bytes (bytes : List UInt8)
  | byte (value : UInt8)

/-- Carry out an operation. -/
def run : Operation → MemoryM Answer
  | .fill target value => do
      target.fill value
      pure .done
  | .copyTo source sourceOffset target targetOffset length => do
      source.copyTo sourceOffset target targetOffset length
      pure .done
  | .copyAllTo source target => do
      source.copyAllTo target
      pure .done
  | .copyPrefixTo source target length => do
      source.copyPrefixTo target length
      pure .done
  | .compareTo left leftOffset right rightOffset length => do
      pure (.order (← left.compareTo leftOffset right rightOffset length))
  | .compareAll left right => do pure (.order (← left.compareAll right))
  | .comparePrefix left right length => do pure (.order (← left.comparePrefix right length))
  | .read source offset length => do pure (.bytes (← source.read offset length))
  | .write target offset bytes => do
      target.write offset bytes
      pure .done
  | .getByte source offset => do pure (.byte (← source.getByte offset))
  | .putByte target offset value => do
      target.putByte offset value
      pure .done

/-- The blocks that an operation is about. -/
def blocks : Operation → List Block
  | .fill target _ => [target]
  | .copyTo source _ target _ _ => [source, target]
  | .copyAllTo source target => [source, target]
  | .copyPrefixTo source target _ => [source, target]
  | .compareTo left _ right _ _ => [left, right]
  | .compareAll left right => [left, right]
  | .comparePrefix left right _ => [left, right]
  | .read source _ _ => [source]
  | .write target _ _ => [target]
  | .getByte source _ => [source]
  | .putByte target _ _ => [target]

/-- The block that an operation changes, if it changes one. -/
def target? : Operation → Option Block
  | .fill target _ => some target
  | .copyTo _ _ target _ _ => some target
  | .copyAllTo _ target => some target
  | .copyPrefixTo _ target _ => some target
  | .compareTo .. => none
  | .compareAll .. => none
  | .comparePrefix .. => none
  | .read .. => none
  | .write target _ _ => some target
  | .getByte .. => none
  | .putByte target _ _ => some target

/-- An operation is about the block that it changes. -/
theorem mem_blocks_of_target
    {operation : Operation}
    {block : Block}
    (target : block ∈ operation.target?) :
    block ∈ operation.blocks := by
  cases operation <;> cases target <;> simp [blocks]

/-- The bytes of the roots of all blocks of an operation. -/
def Reaches (operation : Operation) (address : Address) : Prop :=
  ∃ block ∈ operation.blocks, block.InRoot address

/-- The bytes of the root of the target of an operation. -/
def Targets (operation : Operation) (address : Address) : Prop :=
  ∃ block ∈ operation.target?, block.InRoot address

theorem confined
    {operation : Operation}
    (rooted : ∀ block ∈ operation.blocks, block.Rooted) :
    MemoryM.Confined operation.Reaches operation.Targets operation.run := by
  have reaches : ∀ block ∈ operation.blocks, ∀ address, block.InRoot address →
      operation.Reaches address :=
    fun block present address inside => ⟨block, present, inside⟩
  have targets : ∀ block ∈ operation.target?, ∀ address, block.InRoot address →
      operation.Targets address :=
    fun block present address inside => ⟨block, present, inside⟩
  cases operation <;>
    simp only [blocks, target?, List.mem_cons, List.not_mem_nil, or_false, forall_eq_or_imp,
      forall_eq, Option.mem_def, Option.some.injEq, forall_eq', reduceCtorEq, false_imp_iff,
      implies_true] at rooted reaches targets
  case fill => exact (Block.confined_fill rooted targets _).bind_pure _
  case copyTo | copyAllTo | copyPrefixTo =>
    exact (Block.confined_copyTo rooted.1 rooted.2 reaches.1 targets _ _ _).bind_pure _
  case compareTo | compareAll | comparePrefix =>
    exact (Block.confined_compareTo rooted.1 rooted.2 reaches.1 reaches.2 _ _ _).bind_pure _
  case read => exact (Block.confined_read rooted reaches _ _).bind_pure _
  case write | putByte => exact (Block.confined_write rooted targets _ _).bind_pure _
  case getByte => exact ((Block.confined_read rooted reaches _ _).bind_pure _).bind_pure _

/-- No operation on views of roots reaches outside the roots, in either mode and
with whatever arguments: it gives the same answer in memories that agree on the
roots, changes no byte outside the root of its target, and no byte at all when it
fails. -/
theorem confined_to_roots
    (operation : Operation)
    (views : ∀ block ∈ operation.blocks,
      ∃ root, Block.ViewOf root block ∧ root.extent.stop ≤ 0x10000000000000000) :
    MemoryM.Confined operation.Reaches operation.Targets operation.run := by
  apply confined
  intro block present
  obtain ⟨root, view, bounded⟩ := views block present
  rw [Block.Rooted, view.root_eq]
  exact bounded

/-- A view that starts before its root and ends behind it is confined to the
root. -/
theorem confined_to_roots_of_wide_view :
    let root : Root := ⟨⟨⟨0x1000⟩, 16⟩, false, none⟩
    let wide : Block := .view root ⟨⟨0xFF8⟩, 32⟩
    let operation : Operation := .copyTo (.whole root) 0 wide 16 8
    (Block.whole root).slice 0xFFFFFFFFFFFFFFF8 32 = .ok wide ∧
      MemoryM.Confined operation.Reaches operation.Targets operation.run := by
  intro root wide operation
  have start : (⟨0x1000⟩ : Address).add 0xFFFFFFFFFFFFFFF8 = ⟨0xFF8⟩ := by decide
  have cut : (Block.whole root).slice 0xFFFFFFFFFFFFFFF8 32 = .ok wide := by
    show Except.ok (Block.view root ⟨Address.add ⟨0x1000⟩ 0xFFFFFFFFFFFFFFF8, 32⟩) = _
    rw [start]
  refine ⟨cut, confined_to_roots operation fun block present => ⟨root, ?_, by decide⟩⟩
  simp only [operation, blocks, List.mem_cons, List.not_mem_nil, or_false] at present
  rcases present with rfl | rfl
  · exact .whole
  · exact .slice .whole cut

end Operation

end Block
end GuardedHeap
