import GuardedHeap.Address
import GuardedHeap.Memory.Page
import Std.Data.TreeMap

/-!
# Memory

The whole address space, one byte at every address and zero where nothing was
written. Ranges wrap around at the end of the address space.

What memory holds is the function `get`, and each operation comes with the
lemma that gives this function afterwards: a byte is replaced by `set`, bytes
are laid over the old ones by `write`, and a range becomes constant by `fill`.
Reading and writing run from page to page, so a page is looked up once and not
for each of its bytes.
-/

namespace GuardedHeap

/-- A byte at every address. -/
structure Memory where
  pages : Std.TreeMap UInt64 Page

namespace Memory

/-- Memory in which every byte is zero. -/
def zero : Memory := ⟨∅⟩

instance : Inhabited Memory := ⟨zero⟩

/-- The page of an address. -/
def pageOf (address : Address) : UInt64 :=
  address.value / 256

/-- The place of an address in its page. -/
def indexOf (address : Address) : Fin 256 :=
  ⟨(address.value % 256).toNat, by
    rw [UInt64.toNat_mod]
    exact Nat.mod_lt _ (by decide)⟩

/-- An address is determined by its page and its place there. -/
theorem eq_of_page_index
    {left right : Address}
    (samePage : pageOf left = pageOf right)
    (sameIndex : indexOf left = indexOf right) :
    left = right := by
  cases left with
  | mk left =>
    cases right with
    | mk right =>
      have pages : left.toNat / 256 = right.toNat / 256 := by
        simpa [pageOf] using congrArg UInt64.toNat samePage
      have indices : left.toNat % 256 = right.toNat % 256 := by
        simpa [indexOf] using congrArg Fin.val sameIndex
      have equal : left.toNat = right.toNat := by omega
      exact congrArg Address.mk (UInt64.toNat_inj.mp equal)

/-- The page around an address. -/
def pageAt (memory : Memory) (address : Address) : Page :=
  (memory.pages[pageOf address]?).getD (.uniform 0)

/-- Replace the page around an address. -/
def setPage (memory : Memory) (address : Address) (page : Page) : Memory :=
  ⟨memory.pages.insert (pageOf address) page⟩

/-- The byte at an address. -/
def get (memory : Memory) (address : Address) : UInt8 :=
  (memory.pageAt address).get (indexOf address)

/-- Replace the byte at an address. -/
def set (memory : Memory) (address : Address) (value : UInt8) : Memory :=
  memory.setPage address ((memory.pageAt address).set (indexOf address) value)

@[simp] theorem get_zero (address : Address) : zero.get address = 0 := by
  simp [get, pageAt, zero, Page.get]

/-- A replaced page is found around all of its addresses. -/
theorem pageAt_setPage
    (memory : Memory)
    (address other : Address)
    (page : Page) :
    (memory.setPage address page).pageAt other =
      if pageOf other = pageOf address then page else memory.pageAt other := by
  unfold pageAt setPage
  rw [Std.TreeMap.getElem?_insert]
  by_cases same : pageOf other = pageOf address
  · simp [same]
  · have differs : ¬ pageOf address = pageOf other := fun equal => same equal.symm
    simp [same, differs]

/-- Memory reads back what was put at an address and keeps its other bytes. -/
theorem get_set
    (memory : Memory)
    (address other : Address)
    (value : UInt8) :
    (memory.set address value).get other =
      if other = address then value else memory.get other := by
  unfold get set
  rw [pageAt_setPage]
  by_cases samePage : pageOf other = pageOf address
  · rw [if_pos samePage, Page.get_set]
    by_cases same : other = address
    · simp [same]
    · have differs : indexOf other ≠ indexOf address := fun sameIndex =>
        same (eq_of_page_index samePage sameIndex)
      rw [if_neg differs, if_neg same]
      unfold pageAt
      rw [samePage]
  · have differs : other ≠ address := fun same => samePage (by rw [same])
    rw [if_neg samePage, if_neg differs]

@[simp] theorem get_set_self
    (memory : Memory)
    (address : Address)
    (value : UInt8) :
    (memory.set address value).get address = value := by
  simp [get_set]

/-- Replacing a byte does not change the byte at another address. -/
theorem get_set_of_ne
    (memory : Memory)
    {address other : Address}
    (value : UInt8)
    (differs : other ≠ address) :
    (memory.set address value).get other = memory.get other := by
  simp [get_set, differs]

/-- Whether an address is the last one of its page. -/
def endsPage (address : Address) : Bool :=
  (indexOf address).val == 255

/-- The bytes of `count` addresses behind those that were `done` before, last
first. The page around the first address is at hand. -/
def readOnto
    (memory : Memory)
    (page : Page)
    (address : Address)
    (done : List UInt8) :
    Nat → List UInt8
  | 0 => done
  | count + 1 =>
      let done := page.get (indexOf address) :: done
      let next := address.add 1
      if endsPage address then memory.readOnto (memory.pageAt next) next done count
      else memory.readOnto page next done count

/-- The `count` bytes from an address on. -/
def read (memory : Memory) (start : Address) (count : Nat) : List UInt8 :=
  (memory.readOnto (memory.pageAt start) start [] count).reverse

/-- Lay bytes over memory. The page around the first address is at hand and not
yet part of memory. -/
def writeOnto (memory : Memory) (page : Page) (address : Address) : List UInt8 → Memory
  | [] => memory.setPage address page
  | byte :: bytes =>
      let page := page.set (indexOf address) byte
      let next := address.add 1
      if endsPage address then
        let memory := memory.setPage address page
        memory.writeOnto (memory.pageAt next) next bytes
      else memory.writeOnto page next bytes

/-- Replace the bytes from an address on. -/
def write (memory : Memory) (start : Address) (bytes : List UInt8) : Memory :=
  memory.writeOnto (memory.pageAt start) start bytes

/-- Replace `count` bytes from an address on by one value, byte by byte. -/
def fillBytes (memory : Memory) (start : Address) (value : UInt8) : Nat → Memory
  | 0 => memory
  | count + 1 => (memory.set start value).fillBytes (start.add 1) value count

/-- Replace `count` whole pages by one value, from the page of an address on. -/
def fillPages (memory : Memory) (start : Address) (value : UInt8) : Nat → Memory
  | 0 => memory
  | count + 1 =>
      (memory.setPage start (.uniform value)).fillPages (start.add 256) value count

/-- Replace `count` bytes from an address on by one value. The bytes before the
first and after the last whole page are replaced one by one. -/
def fill (memory : Memory) (start : Address) (count : Nat) (value : UInt8) : Memory :=
  let before := min count ((256 - (indexOf start).val) % 256)
  let pages := (count - before) / 256
  let first := start.add (UInt64.ofNat before)
  let rest := first.add (UInt64.ofNat (256 * pages))
  ((memory.fillBytes start value before).fillPages first value pages).fillBytes
    rest value ((count - before) % 256)

/-- Copy `count` bytes as if all were read before the first is written. -/
def copy (memory : Memory) (source target : Address) (count : Nat) : Memory :=
  memory.write target (memory.read source count)

/-- The word at an address, least significant byte first. -/
def readWord (memory : Memory) (address : Address) : UInt64 :=
  UInt64.ofNat (Word.ofLittleEndian (memory.read address 8))

/-- Replace the word at an address. -/
def writeWord (memory : Memory) (address : Address) (word : UInt64) : Memory :=
  memory.write address (Word.littleEndian 8 word.toNat)

end Memory
end GuardedHeap
