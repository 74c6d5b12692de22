import GuardedHeap.Proofs.Ledger.Stack
import GuardedHeap.Proofs.Memory.Confined
import GuardedHeap.Proofs.Registry.Contents

/-!
# Releases

A layer that is released first releases what it owns below, and then reports its own live
blocks, which comes before whatever was reported below. Whatever is released, nothing but
reports comes of it.

When an instrumented stack is released, its registry reports exactly the blocks in the
books.
-/

namespace GuardedHeap

open Fallible (final)

namespace HeapM

/-- A computation that tells of events and counts calls, and does nothing else. -/
def OnlyTells {α : Type} (computation : HeapM α) : Prop :=
  ∀ world, ∃ events callCounts, final computation world = { world with events, callCounts }

variable {α β : Type}
variable {computation : HeapM α}
variable {next : α → HeapM β}

theorem OnlyTells.bind
    (tells : computation.OnlyTells)
    (following : ∀ value, (next value).OnlyTells) :
    (computation >>= next).OnlyTells := by
  intro world
  obtain ⟨events, callCounts, first⟩ := tells world
  rcases Fallible.final_bind computation next world with ended | ⟨value, ended⟩
  · exact ⟨events, callCounts, ended.trans first⟩
  · obtain ⟨events, callCounts, second⟩ := following value (final computation world)
    rw [ended, second, first]
    exact ⟨events, callCounts, rfl⟩

theorem OnlyTells.attempt
    (tells : computation.OnlyTells) :
    HeapM.OnlyTells (Fallible.attempt computation) := by
  intro world
  obtain ⟨events, callCounts, ends⟩ := tells world
  refine ⟨events, callCounts, ends ▸ ?_⟩
  unfold final Fallible.attempt
  rcases computation world with ⟨value, after⟩ | ⟨_ | _, after⟩ <;> rfl

/-- What only looks at the world tells nothing. -/
theorem onlyTells_of_look
    (keeps : ∀ world, final computation world = world) :
    computation.OnlyTells :=
  fun world => ⟨world.events, world.callCounts, keeps world⟩

theorem onlyTells_ofCheck (check : Except HeapError α) :
    OnlyTells (Fallible.ofCheck check) :=
  onlyTells_of_look fun _ => by cases check <;> rfl

theorem onlyTells_exactly (value? : Option α) :
    OnlyTells (Fallible.exactly value?) :=
  onlyTells_of_look fun _ => by cases value? <;> rfl

theorem onlyTells_tell (event : Event) : (tell event).OnlyTells :=
  fun world => ⟨world.events.push event, world.callCounts, rfl⟩

theorem onlyTells_modifyCounts
    (layer : Nat)
    (change : CallCounts → CallCounts) :
    (modifyCounts layer change).OnlyTells :=
  fun world => ⟨world.events, world.callCounts.set layer _, rfl⟩

end HeapM

open HeapM (onlyTells_of_look onlyTells_ofCheck onlyTells_exactly onlyTells_tell
  onlyTells_modifyCounts)

theorem Allocator.onlyTells_releaseOwned
    {inner : Allocator}
    (owns : Bool)
    (tells : inner.release.OnlyTells) :
    (releaseOwned owns inner).OnlyTells := by
  cases owns with
  | false => exact onlyTells_of_look fun _ => rfl
  | true => exact tells.attempt

/-- Nothing but reports comes of a release. -/
theorem Stack.onlyTells_release (stack : Stack) : stack.allocator.release.OnlyTells := by
  induction stack with
  | raw store => exact onlyTells_of_look fun _ => rfl
  | guarded layer owns inner inductionHypothesis =>
      refine (Allocator.onlyTells_releaseOwned owns inductionHypothesis).bind fun below => ?_
      refine HeapM.OnlyTells.bind (onlyTells_of_look fun _ => rfl) fun tally => ?_
      split
      · exact onlyTells_ofCheck below
      · exact (onlyTells_tell _).bind fun _ => onlyTells_of_look fun _ => rfl
  | registered layer owns inner inductionHypothesis =>
      refine (Allocator.onlyTells_releaseOwned owns inductionHypothesis).bind fun below => ?_
      refine HeapM.OnlyTells.bind (onlyTells_of_look fun _ => rfl) fun registry => ?_
      split
      · exact onlyTells_ofCheck below
      · refine HeapM.OnlyTells.bind ?_ fun sums =>
          (onlyTells_tell _).bind fun _ => onlyTells_of_look fun _ => rfl
        exact HeapM.OnlyTells.bind (onlyTells_of_look fun _ => rfl) fun registry =>
          (onlyTells_exactly _).bind fun bytes => onlyTells_of_look fun _ => rfl
  | counted layer inner inductionHypothesis =>
      exact (onlyTells_modifyCounts layer _).bind fun _ => inductionHypothesis

namespace Guarded

variable {layer : Nat}
variable {owns : Bool}
variable {inner : Allocator}
variable {below : Except HeapError Unit}
variable {world middle : World}

/-- A guarded layer without blocks answers what was answered below. -/
theorem release_of_empty
    (released : Allocator.releaseOwned owns inner world = .ok below middle)
    (isEmpty : (middle.tallies.get layer).blocks = 0) :
    release layer owns inner world = Fallible.ofCheck below middle := by
  rw [release, Fallible.bind_of_ok released,
    Fallible.bind_of_ok (HeapM.tallyOf_apply layer middle), if_pos isEmpty]

/-- A guarded layer with blocks reports them. -/
theorem release_of_live
    (released : Allocator.releaseOwned owns inner world = .ok below middle)
    (live : (middle.tallies.get layer).blocks ≠ 0) :
    ∃ events, release layer owns inner world =
      .error (.refused (.leakDetected (middle.tallies.get layer).blocks.toNat
        (middle.tallies.get layer).bytes.toNat)) { middle with events } := by
  rw [release, Fallible.bind_of_ok released,
    Fallible.bind_of_ok (HeapM.tallyOf_apply layer middle), if_neg live]
  exact ⟨_, rfl⟩

end Guarded

namespace Registered

variable {layer : Nat}
variable {owns : Bool}
variable {inner : Allocator}
variable {below : Except HeapError Unit}
variable {world middle : World}

/-- A registered layer without blocks answers what was answered below. -/
theorem release_of_empty
    (released : Allocator.releaseOwned owns inner world = .ok below middle)
    (isEmpty : (middle.registries.get layer).blocks = 0) :
    release layer owns inner world = Fallible.ofCheck below middle := by
  rw [release, Fallible.bind_of_ok released,
    Fallible.bind_of_ok (HeapM.registryOf_apply layer middle), if_pos isEmpty]

/-- What a registered layer holds in sum. -/
theorem totals_of_some
    {bytes : UInt64}
    (sum : (world.registries.get layer).bytes? = some bytes) :
    totals layer world = .ok ((world.registries.get layer).blocks, bytes) world := by
  rw [totals, Fallible.bind_of_ok (HeapM.registryOf_apply layer world), sum]
  rfl

/-- A registered layer with blocks reports them. -/
theorem release_of_live
    {bytes : UInt64}
    (released : Allocator.releaseOwned owns inner world = .ok below middle)
    (live : (middle.registries.get layer).blocks ≠ 0)
    (sum : (middle.registries.get layer).bytes? = some bytes) :
    ∃ events, release layer owns inner world =
      .error (.refused (.leakDetected (middle.registries.get layer).blocks bytes.toNat))
        { middle with events } := by
  rw [release, Fallible.bind_of_ok released,
    Fallible.bind_of_ok (HeapM.registryOf_apply layer middle), if_neg live,
    Fallible.bind_of_ok (totals_of_some sum)]
  exact ⟨_, rfl⟩

end Registered

namespace Raw

/-- A store has nothing to say when it is released. -/
theorem releaseOwned_raw
    (store : Store)
    (owns : Bool)
    (world : World) :
    Allocator.releaseOwned owns (.raw store) world = .ok (.ok ()) world := by
  cases owns <;> rfl

end Raw

namespace Stack.Books

variable {registry guard : Nat}
variable {range : Extent}
variable {blocks : List Extent}
variable {world : World}

/-- The blocks of an instrumented arena are placed in its range. -/
theorem placed_instrumented
    (books : (instrumented registry guard .arena).Books range world blocks) :
    Placed range blocks :=
  books.inner.marked.placed (Raw.keeps range)

/-- An instrumented arena without blocks is released in silence. -/
theorem release_of_nil
    (books : (instrumented registry guard .arena).Books range world []) :
    (instrumented registry guard .arena).allocator.release world = .ok () world := by
  have noTally : (world.tallies.get guard).blocks = 0 := UInt64.toNat_inj.mp books.inner.count
  have guarded : Guarded.release guard true (.raw .arena) world = .ok () world :=
    Guarded.release_of_empty (Raw.releaseOwned_raw .arena true world) noTally
  have below : Allocator.releaseOwned true (.guarded guard true (.raw .arena)) world =
      .ok (.ok ()) world := Fallible.attempt_of_ok guarded
  exact Registered.release_of_empty below (books.held.blocks_eq books.placed_instrumented.nodup)

/-- The registry of an instrumented arena reports the blocks that it has, each once, with
the sum of their sizes. -/
theorem release_of_live
    (books : (instrumented registry guard .arena).Books range world blocks)
    (live : blocks ≠ []) :
    ∃ events, (instrumented registry guard .arena).allocator.release world =
      .error (.refused (.leakDetected blocks.length (Extent.totalSize blocks)))
        { world with events } := by
  have positive : 0 < blocks.length := List.length_pos_iff.mpr live
  have tally : (world.tallies.get guard).blocks ≠ 0 := by
    intro isEmpty
    have count := books.inner.count
    rw [isEmpty] at count
    exact Nat.ne_of_lt positive count
  have count := books.held.blocks_eq books.placed_instrumented.nodup
  obtain ⟨bytes, sum, exact⟩ := books.held.bytes?_eq books.placed_instrumented
  -- the guarded layer reports the same blocks, which the report of the registry hides
  obtain ⟨events, guarded⟩ : ∃ events, Guarded.release guard true (.raw .arena) world =
      .error (.refused _) { world with events } :=
    Guarded.release_of_live (Raw.releaseOwned_raw .arena true world) tally
  have below : Allocator.releaseOwned true (.guarded guard true (.raw .arena)) world =
      .ok (.error _) { world with events } := Fallible.attempt_of_refused guarded
  have live : (world.registries.get registry).blocks ≠ 0 := by
    rw [count]
    exact Nat.ne_of_gt positive
  have reported := Registered.release_of_live below live sum
  rw [← count, ← exact]
  exact reported

end Stack.Books
end GuardedHeap
