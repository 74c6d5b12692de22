import GuardedHeap.Block.Bounds

/-!
# Blocks

A root is a block that an allocator handed out, or one that was named by hand.
It says whether its operations are checked and which factory made it. A view is
a window onto a root: a range of addresses that may, in unchecked mode, even
lie outside. Views of views are views of the root.
-/

namespace GuardedHeap

/-- A block with a mode and the number of the factory that made it. -/
structure Root where
  extent : Extent
  checked : Bool
  origin : Option Nat
  deriving DecidableEq, Inhabited

namespace Root

/-- The block without bytes, at the null address. -/
def empty : Root :=
  ⟨⟨.null, 0⟩, false, none⟩

/-- A block named by hand. No factory takes it back. -/
def detached (address : Address) (size : UInt64) (checked : Bool) : Root :=
  ⟨⟨address, size⟩, checked, none⟩

end Root

/-- A root, or a view of one. -/
inductive Block
  | whole (root : Root)
  | view (root : Root) (extent : Extent)
  deriving Inhabited

namespace Block

/-- The root of a block. -/
def root : Block → Root
  | .whole root => root
  | .view root _ => root

/-- The root that a view is part of. A root is part of nothing. -/
def parent? : Block → Option Root
  | .whole _ => none
  | .view root _ => some root

/-- The range of addresses of a block. -/
def extent : Block → Extent
  | .whole root => root.extent
  | .view _ extent => extent

@[simp] theorem root_whole (root : Root) : (whole root).root = root := rfl

@[simp] theorem root_view (root : Root) (extent : Extent) :
    (view root extent).root = root := rfl

@[simp] theorem extent_whole (root : Root) : (whole root).extent = root.extent := rfl

@[simp] theorem extent_view (root : Root) (extent : Extent) :
    (view root extent).extent = extent := rfl

/-- The first address of a block. -/
def address (block : Block) : Address :=
  block.extent.address

/-- The number of bytes of a block. -/
def size (block : Block) : UInt64 :=
  block.extent.size

/-- The mode of a block is that of its root. -/
def checked (block : Block) : Bool :=
  block.root.checked

/-- Blocks are shown by their extents. -/
def text (block : Block) : String :=
  block.extent.text

/-- Blocks are equal if they have the same extent, be they roots or views. -/
instance : BEq Block where
  beq left right := left.extent == right.extent

instance : Hashable Block where
  hash block := hash block.extent

/-- The view of the whole root of a block. -/
def rootView (block : Block) : Block :=
  .view block.root block.root.extent

/-- The address at an offset of a block. -/
def addressAt (block : Block) (offset : UInt64) : Except HeapError Address :=
  block.extent.addressAt block.checked offset

/-- The offset of an address in a block. -/
def offsetOf (block : Block) (address : Address) : Except HeapError UInt64 :=
  block.extent.offsetOf block.checked address

/-- The bytes from an address to the end of a block. -/
def available (block : Block) (address : Address) : Except HeapError UInt64 :=
  block.extent.available block.checked address

/-- The view of `size` bytes at an offset of a block. -/
def slice (block : Block) (offset size : UInt64) : Except HeapError Block :=
  (block.extent.slice block.checked offset size).map (.view block.root)

/-- The view of the first `size` bytes of a block. -/
def sliceFirst (block : Block) (size : UInt64) : Except HeapError Block :=
  block.slice 0 size

/-- The view of the last `size` bytes of a block. -/
def sliceLast (block : Block) (size : UInt64) : Except HeapError Block :=
  (block.extent.sliceLast block.checked size).map (.view block.root)

end Block
end GuardedHeap
