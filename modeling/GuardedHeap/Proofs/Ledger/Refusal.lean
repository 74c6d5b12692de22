import GuardedHeap.Proofs.Ledger.Stack

/-!
# Why sizes are refused

A stack that is asked for a new block, or for a new size of a live one, refuses only
because no bytes are asked for or because there is no room. In particular it knows the
addresses of all live blocks and finds their guard words intact.
-/

namespace GuardedHeap

/-- A size is refused because it is zero, or else for want of room. -/
inductive RefusedSize : UInt64 → Failure HeapError → Prop
  | empty : RefusedSize 0 (.refused .emptySize)
  | noRoom {size : UInt64} (nonempty : size ≠ 0) (requested : UInt64) :
      RefusedSize size (.refused (.outOfResources requested))

namespace RefusedSize

theorem of_empty {size : UInt64} (isEmpty : size = 0) :
    RefusedSize size (.refused .emptySize) := by
  subst isEmpty
  exact .empty

/-- If the region of a size is refused, so is the size. -/
theorem of_region
    {size : UInt64}
    {failure : Failure HeapError}
    (nonempty : size ≠ 0)
    (fits : Guard.Fits size)
    (refused : RefusedSize (size + 24) failure) :
    RefusedSize size failure := by
  generalize region : size + 24 = regionSize at refused
  cases refused with
  | empty =>
      have exact := fits.toNat_add
      rw [region] at exact
      exact absurd exact (by simp)
  | noRoom _ requested => exact .noRoom nonempty requested

end RefusedSize

section Layers

variable {inner : Allocator}
variable {layers : List Nat}
variable {range block : Extent}
variable {Inner : World → List Extent → Prop}
variable {layer : Nat}
variable {rest : List Extent}
variable {world after : World}
variable {newSize : UInt64}
variable {failure : Failure HeapError}

theorem Raw.Books.refusedSize
    (books : Raw.Books range world (block :: rest))
    (failed : Raw.reallocate .arena block.address newSize world = .error failure after) :
    RefusedSize newSize failure := by
  have outcome := Raw.reallocate_outcome .arena block.address newSize world
  rw [failed] at outcome
  cases outcome with
  | empty isEmpty => exact .of_empty isEmpty
  | null nonempty isNull => exact absurd isNull (Raw.Books.notNull books)
  | exhausted nonempty notNull answer => exact .noRoom nonempty newSize

/-- A guarded layer finds the guard words of live blocks intact, so it refuses a size that
has a region only if the allocator below does. -/
theorem Guarded.Books.refusedSize
    (keeps : inner.Keeps layers range Inner)
    (books : Guarded.Books layer Inner world (block :: rest))
    (refused : ∀ {middle size failure after},
      Inner middle (block.around :: rest.map Extent.around) →
      inner.reallocate block.around.address size middle = .error failure after →
        RefusedSize size failure)
    (failed : Guarded.reallocate layer inner block.address newSize world =
      .error failure after) :
    RefusedSize newSize failure := by
  have found := books.marked.regionOf? keeps
  have intact := books.marked.fetch keeps
  have cleared := (books.marked.cleared keeps).1
  have outcome := Guarded.reallocate_outcome layer inner block.address newSize world
  rw [failed] at outcome
  cases outcome with
  | empty isEmpty => exact .of_empty isEmpty
  | oversized nonempty large => exact .noRoom nonempty newSize
  | outside nonempty fits nowhere =>
      rw [found] at nowhere
      cases nowhere
  | unsound nonempty fits around fetched =>
      rw [found] at around
      cases around
      rw [intact] at fetched
      cases fetched
  | failed nonempty fits around fetched below | broken nonempty fits around fetched below =>
      rw [found] at around
      cases around
      rw [intact] at fetched
      cases fetched
      exact .of_region nonempty fits (refused cleared below)

/-- A registered layer knows the addresses of live blocks, so it refuses a size only if
the allocator below does. -/
theorem Registered.Books.refusedSize
    (keeps : inner.Keeps layers range Inner)
    (own : layer ∉ layers)
    (books : Registered.Books layer Inner world (block :: rest))
    (refused : ∀ {middle failure after},
      Inner middle (block :: rest) →
      inner.reallocate block.address newSize middle = .error failure after →
        RefusedSize newSize failure)
    (failed : Registered.reallocate layer inner block.address newSize world =
      .error failure after) :
    RefusedSize newSize failure := by
  have erased := (books.erased keeps own).1
  have outcome := Registered.reallocate_outcome layer inner block.address newSize world
  rw [failed] at outcome
  cases outcome with
  | empty isEmpty => exact .of_empty isEmpty
  | unknown nonempty absent =>
      rw [books.find?_head] at absent
      cases absent
  | failed nonempty held below => exact refused erased below
  | broken nonempty held below => exact refused erased below

end Layers

namespace Stack

variable {stack : Stack}
variable {range block : Extent}
variable {rest : List Extent}
variable {world after : World}
variable {failure : Failure HeapError}

theorem refusedSize_of_allocate
    {size : UInt64}
    (failed : stack.allocator.allocate size world = .error failure after) :
    RefusedSize size failure := by
  induction stack generalizing size world after with
  | raw store =>
      have outcome := Raw.allocate_outcome store size world
      rw [show Raw.allocate store size world = _ from failed] at outcome
      cases outcome with
      | empty isEmpty => exact .of_empty isEmpty
      | exhausted nonempty answer => exact .noRoom nonempty size
  | guarded layer owns inner inductionHypothesis =>
      have outcome := Guarded.allocate_outcome layer inner.allocator size world
      rw [show Guarded.allocate layer inner.allocator size world = _ from failed] at outcome
      cases outcome with
      | empty isEmpty => exact .of_empty isEmpty
      | oversized nonempty large => exact .noRoom nonempty size
      | failed nonempty fits below => exact .of_region nonempty fits (inductionHypothesis below)
  | registered layer owns inner inductionHypothesis =>
      have outcome := Registered.allocate_outcome layer inner.allocator size world
      rw [show Registered.allocate layer inner.allocator size world = _ from failed] at outcome
      cases outcome with
      | empty isEmpty => exact .of_empty isEmpty
      | failed nonempty below => exact inductionHypothesis below
  | counted layer inner inductionHypothesis => exact inductionHypothesis failed

theorem Books.refusedSize_of_reallocate
    {newSize : UInt64}
    (books : stack.Books range world (block :: rest))
    (overArena : stack.store = .arena)
    (distinct : stack.layers.Nodup)
    (failed : stack.allocator.reallocate block.address newSize world = .error failure after) :
    RefusedSize newSize failure := by
  induction stack generalizing block rest newSize world after failure with
  | raw store =>
      cases overArena
      exact Raw.Books.refusedSize books failed
  | guarded layer owns inner inductionHypothesis =>
      obtain ⟨_, innerDistinct⟩ := List.nodup_cons.mp distinct
      have keeps := inner.keeps range overArena innerDistinct
      exact Guarded.Books.refusedSize keeps books
        (fun books below => inductionHypothesis books overArena innerDistinct below) failed
  | registered layer owns inner inductionHypothesis =>
      obtain ⟨own, innerDistinct⟩ := List.nodup_cons.mp distinct
      have keeps := inner.keeps range overArena innerDistinct
      exact Registered.Books.refusedSize keeps own books
        (fun books below => inductionHypothesis books overArena innerDistinct below) failed
  | counted layer inner inductionHypothesis =>
      obtain ⟨_, innerDistinct⟩ := List.nodup_cons.mp distinct
      have keeps := inner.keeps range overArena innerDistinct
      exact inductionHypothesis
        (keeps.undisturbed books (Counted.undisturbed_callCounts world _)) overArena
        innerDistinct failed

end Stack
end GuardedHeap
