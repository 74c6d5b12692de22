import GuardedHeap.Proofs.Client.Quiet
import GuardedHeap.Proofs.Factory.Estate

/-!
# Ownership of roots

Whatever a client of several factories asks for, its estate stays accounted for. So the
registry of an instrumented arena holds the blocks of exactly those roots that a factory
made and that were not taken back, each under its address and with its size, and a factory
that owns the stack reports these and no others when it is released. A root that a factory
did not make never reaches its allocator.
-/

namespace GuardedHeap

open Fallible (answer final)

namespace Estate

variable {stack : Stack}
variable {range : Extent}
variable {arena : Arena}
variable {estate : Estate}
variable {factory : Factory}
variable {root : Root}

/-- The block of a held root that was made by a factory can be put before all others. -/
theorem blocks_perm_of_held
    (held : root ∈ estate.held)
    (made : root.isMade = true) :
    estate.blocks.Perm
      (root.extent :: Root.blocksOf (estate.held.erase root ++ estate.forfeited)) := by
  rw [← Root.blocksOf_cons_of_made made]
  exact Root.blocksOf_perm ((List.perm_cons_erase held).append_right estate.forfeited)

/-- A root that is given up goes from one hand to the other. -/
theorem perm_of_forfeited (held : root ∈ estate.held) :
    (estate.held ++ estate.forfeited).Perm
      (estate.held.erase root ++ root :: estate.forfeited) :=
  ((List.perm_cons_erase held).append_right estate.forfeited).trans List.perm_middle.symm

theorem mem_of_mem_erase
    {other : Root}
    (present : other ∈ estate.held.erase root ++ estate.forfeited) :
    other ∈ estate.held ++ estate.forfeited :=
  ((estate.held.erase_sublist).append_right estate.forfeited).subset present

namespace Accounted

/-- An estate stays accounted for if its new blocks are in the books and its new roots come
from its factories. -/
theorem update
    {world : World}
    {held forfeited : List Root}
    (accounted : estate.Accounted stack range)
    (books : stack.Books range world (Root.blocksOf (held ++ forfeited)))
    (sameNumber : world.nextFactory = estate.world.nextFactory)
    (known : ∀ root ∈ held ++ forfeited, ∀ id, root.origin = some id →
      ∃ factory ∈ estate.factories, factory.id = id) :
    Accounted stack range { estate with world, held, forfeited } where
  books := books
  uses := accounted.uses
  known := known
  issued factory present := sameNumber ▸ accounted.issued factory present
  numbered := accounted.numbered

section Steps

variable (overArena : stack.store = .arena)
variable (distinct : stack.layers.Nodup)
variable (accounted : estate.Accounted stack range)

include overArena distinct accounted

/-- A new factory has a number that no other one has. -/
theorem create (config : FactoryConfig) :
    (final ((Request.create config).perform stack) estate).Accounted stack range := by
  have undisturbed : World.Undisturbed stack.layers estate.blocks estate.world
      { estate.world with nextFactory := estate.world.nextFactory + 1 } :=
    ⟨fun _ _ => rfl, fun _ _ _ => rfl, fun _ _ => rfl, rfl⟩
  refine ⟨?books, ?uses, ?known, ?issued, ?numbered⟩
  case books => exact (stack.keeps range overArena distinct).undisturbed accounted.books undisturbed
  case uses => exact List.forall_mem_cons.mpr ⟨rfl, accounted.uses⟩
  case known =>
    intro root present id origin
    obtain ⟨factory, isKnown, same⟩ := accounted.known root present id origin
    exact ⟨factory, .tail _ isKnown, same⟩
  case issued =>
    refine List.forall_mem_cons.mpr ⟨Nat.lt_succ_self _, fun factory present => ?_⟩
    exact Nat.lt_succ_of_lt (accounted.issued factory present)
  case numbered =>
    refine List.nodup_cons.mpr ⟨fun taken => ?_, accounted.numbered⟩
    obtain ⟨factory, present, same⟩ := List.mem_map.mp taken
    exact Nat.ne_of_lt (accounted.issued factory present) same

omit overArena distinct in
/-- A root that no factory made is in no books. -/
theorem adopt (notMade : root.origin = none) :
    (final ((Request.adopt root).perform stack) estate).Accounted stack range := by
  have books : stack.Books range estate.world
      (Root.blocksOf (root :: estate.held ++ estate.forfeited)) := by
    rw [List.cons_append, Root.blocksOf_cons_of_not_made (by rw [Root.isMade, notMade]; rfl)]
    exact accounted.books
  refine accounted.update books rfl (List.forall_mem_cons.mpr ⟨?_, accounted.known⟩)
  intro id origin
  rw [notMade] at origin
  cases origin

theorem allocate
    (present : factory ∈ estate.factories)
    (size : UInt64) :
    (final ((Request.allocate factory size).perform stack) estate).Accounted stack range := by
  have uses := accounted.uses factory present
  have sameNumber := Factory.keepsNumber_allocate (uses ▸ stack.keepsNumber) size estate.world
  have making := Factory.allocate_making overArena distinct uses accounted.books size
  generalize made : factory.allocate size estate.world = result at making
  unfold final at sameNumber ⊢
  rw [made] at sameNumber
  cases making with
  | @made root after remembers books =>
      rw [perform_allocate_of_ok made]
      rw [blocks, ← Root.blocksOf_cons_of_made (Root.isMade_of_origin remembers)] at books
      refine accounted.update books sameNumber (List.forall_mem_cons.mpr ⟨?_, accounted.known⟩)
      intro id origin
      exact ⟨factory, present, Option.some.inj (remembers.symm.trans origin)⟩
  | refused harmless books =>
      rw [perform_allocate_of_error made]
      exact accounted.update books sameNumber accounted.known

/-- A root keeps its maker when it is moved, and is held as it was when it is not. -/
theorem reallocate
    (present : factory ∈ estate.factories)
    (held : root ∈ estate.held)
    (newSize : UInt64) :
    (final ((Request.reallocate factory root newSize).perform stack) estate).Accounted
      stack range := by
  have uses := accounted.uses factory present
  have keeps := stack.keeps range overArena distinct
  by_cases own : root.origin = some factory.id
  case neg =>
    obtain ⟨reason, refused⟩ := Factory.reallocate_of_foreign own newSize estate.world
    rw [final, perform_reallocate_of_error refused]
    exact accounted
  have same := blocks_perm_of_held held (Root.isMade_of_origin own)
  have sameNumber :=
    Factory.keepsNumber_reallocate (uses ▸ stack.keepsNumber) root newSize estate.world
  have moving := Factory.reallocate_moving overArena distinct uses
    (keeps.perm accounted.books same) own newSize
  generalize done : factory.reallocate root newSize estate.world = result at moving
  unfold final at sameNumber ⊢
  rw [done] at sameNumber
  cases moving with
  | @moved address after nonempty books =>
      rw [perform_reallocate_of_ok done]
      have made : Root.isMade { root with extent := ⟨address, newSize⟩ } = true :=
        Root.isMade_of_origin own
      rw [← Root.blocksOf_cons_of_made made] at books
      refine accounted.update books sameNumber (List.forall_mem_cons.mpr ⟨?_, ?_⟩)
      · exact accounted.known root (List.mem_append_left _ held)
      · exact fun other others => accounted.known other (mem_of_mem_erase others)
  | refused refused books =>
      rw [perform_reallocate_of_error done]
      exact accounted.update (keeps.perm books same.symm) sameNumber accounted.known

/-- A root leaves the books when it is given back to its maker. Otherwise it stays in
them. -/
theorem free
    (present : factory ∈ estate.factories)
    (held : root ∈ estate.held) :
    (final ((Request.free factory root).perform stack) estate).Accounted stack range := by
  have uses := accounted.uses factory present
  have keeps := stack.keeps range overArena distinct
  by_cases own : root.origin = some factory.id
  case pos =>
    have same := blocks_perm_of_held held (Root.isMade_of_origin own)
    have sameNumber := Factory.keepsNumber_free (uses ▸ stack.keepsNumber) root estate.world
    obtain ⟨after, done, books⟩ := Factory.free_of_own overArena distinct uses
      (keeps.perm accounted.books same) own
    rw [final, done] at sameNumber
    rw [final, perform_free_of_ok done]
    exact accounted.update books sameNumber fun other others =>
      accounted.known other (mem_of_mem_erase others)
  case neg =>
    have same := perm_of_forfeited held
    obtain ⟨reason, refused⟩ := Factory.free_of_foreign own estate.world
    rw [final, perform_free_of_refused refused]
    exact accounted.update (keeps.perm accounted.books (Root.blocksOf_perm same)) rfl
      fun other others => accounted.known other (same.mem_iff.mpr others)

/-- Releasing a factory is reported, and nothing else comes of it. -/
theorem release (present : factory ∈ estate.factories) :
    (final ((Request.release factory).perform stack) estate).Accounted stack range := by
  have tells : factory.release.OnlyTells := by
    unfold Factory.release
    split
    · exact accounted.uses factory present ▸ stack.onlyTells_release
    · exact HeapM.onlyTells_of_look fun _ => rfl
  obtain ⟨events, callCounts, ends⟩ := tells estate.world
  have ended : final ((Request.release factory).perform stack) estate =
      { estate with world := final factory.release estate.world } := by
    unfold final
    cases result : factory.release estate.world with
    | ok value after => rw [Request.perform, onHeap_of_ok result]
    | error failure after => rw [Request.perform, onHeap_of_error result]
  have undisturbed : World.Undisturbed stack.layers estate.blocks estate.world
      { estate.world with events, callCounts } :=
    ⟨fun _ _ => rfl, fun _ _ _ => rfl, fun _ _ => rfl, rfl⟩
  rw [ended, ends]
  exact accounted.update
    ((stack.keeps range overArena distinct).undisturbed accounted.books undisturbed) rfl
    accounted.known

/-- The arena may be told to refuse. -/
theorem onArena
    (change : Arena → Arena)
    (sameUpToCredit : { change estate.world.arena with credit := estate.world.arena.credit } =
      estate.world.arena) :
    (final (Estate.onArena change) estate).Accounted stack range :=
  accounted.update ((stack.keeps range overArena distinct).undisturbed accounted.books
    (World.undisturbed_credit sameUpToCredit)) rfl accounted.known

/-- Whatever is asked for, an estate stays accounted for. -/
theorem step
    {request : Request}
    (admitted : estate.Admits request) :
    (final (request.perform stack) estate).Accounted stack range := by
  cases request with
  | create config => exact accounted.create overArena distinct config
  | adopt root => exact accounted.adopt admitted
  | allocate factory size => exact accounted.allocate overArena distinct admitted size
  | reallocate factory root newSize =>
      exact accounted.reallocate overArena distinct admitted.1 admitted.2 newSize
  | free factory root => exact accounted.free overArena distinct admitted.1 admitted.2
  | release factory => exact accounted.release overArena distinct admitted
  | limit count => exact accounted.onArena overArena distinct (Arena.failAfter · count) rfl
  | recover => exact accounted.onArena overArena distinct Arena.recover rfl

end Steps

end Accounted

theorem Run.accounted
    (run : Run stack arena estate)
    (overArena : stack.store = .arena)
    (distinct : stack.layers.Nodup)
    (fresh : arena.Fresh) :
    estate.Accounted stack arena.range := by
  induction run with
  | start memory =>
      refine ⟨Stack.books_start fresh memory, ?_, ?_, ?_, List.nodup_nil⟩
      · exact fun _ present => nomatch present
      · exact fun _ present => nomatch present
      · exact fun _ present => nomatch present
  | step earlier admitted inductionHypothesis =>
      exact inductionHypothesis.step overArena distinct admitted

/-- A factory that did not make a root refuses it before its allocator is asked, whatever
that is. A root that was to be moved stays as it is, and one that was to be given back is
gone. -/
structure Untaken
    (stack : Stack)
    (estate : Estate)
    (factory : Factory)
    (root : Root)
    (error : HeapError) : Prop where
  unasked : ∀ allocator newSize world,
    { factory with allocator }.reallocate root newSize world = .error (.refused error) world ∧
      { factory with allocator }.free root world = .error (.refused error) world
  unmoved : ∀ newSize, (Request.reallocate factory root newSize).perform stack estate =
    .error (.refused error) estate
  forfeited : (Request.free factory root).perform stack estate =
    .error (.refused error)
      { estate with held := estate.held.erase root, forfeited := root :: estate.forfeited }

theorem untaken_of_foreign
    (foreign : root.origin ≠ some factory.id) :
    ∃ reason, Untaken stack estate factory root (.invalidOperation reason) := by
  obtain ⟨reason, checked⟩ := Factory.checkOrigin_of_foreign foreign
  have unasked : ∀ allocator newSize world,
      { factory with allocator }.reallocate root newSize world =
          .error (.refused (.invalidOperation reason)) world ∧
        { factory with allocator }.free root world =
          .error (.refused (.invalidOperation reason)) world := by
    intro allocator newSize world
    have checked : { factory with allocator }.checkOrigin root =
        .error (.invalidOperation reason) := checked
    rw [Factory.reallocate, Factory.free, checked]
    exact ⟨rfl, rfl⟩
  refine ⟨reason, unasked, fun newSize => ?_, ?_⟩
  · exact perform_reallocate_of_error (unasked factory.allocator newSize estate.world).1
  · exact perform_free_of_refused (unasked factory.allocator 0 estate.world).2

/-- A reallocation that fails leaves the heap as it was. -/
theorem unchanged_of_reallocate_error
    {world after : World}
    {newSize : UInt64}
    {failure : Failure HeapError}
    (uses : factory.allocator = stack.allocator)
    (failed : factory.reallocate root newSize world = .error failure after) :
    world.Unchanged after := by
  unfold Factory.reallocate at failed
  cases checked : factory.checkOrigin root with
  | error error =>
      rw [checked, Fallible.bind_of_error (Fallible.ofCheck_error error world)] at failed
      cases failed
      exact .refl world
  | ok value =>
      rw [checked, Fallible.bind_of_ok (Fallible.ofCheck_ok value world), uses] at failed
      cases below : stack.allocator.reallocate root.extent.address newSize world with
      | ok address middle =>
          rw [Fallible.bind_of_ok below] at failed
          cases failed
      | error other middle =>
          rw [Fallible.bind_of_error below] at failed
          cases failed
          exact (stack.allocator_atomic.reallocate _ _ _ _ _ below).2

/-- What a client of several factories over one instrumented arena may rely on. The roots
that it holds and that a factory made are registered and apart. The registry has their
entries and those of the roots that were forfeited, and no others. -/
structure InOrder (registry guard : Nat) (estate : Estate) : Prop where
  numbered : (estate.factories.map Factory.id).Nodup
  known : ∀ root ∈ estate.held, root.isMade = true →
    ∃ factory ∈ estate.factories, root.origin = some factory.id
  registered : ∀ root ∈ estate.held, root.isMade = true →
    answer (Registered.sizeOf registry root.extent.address) estate.world = .ok root.extent.size
  apart : (estate.held.filter Root.isMade).Pairwise fun left right =>
    left.extent.Apart right.extent
  foreign : ∀ factory ∈ estate.factories, ∀ root ∈ estate.held,
    root.origin ≠ some factory.id →
      ∃ reason, Untaken (.instrumented registry guard .arena) estate factory root
        (.invalidOperation reason)
  unmoved : ∀ factory ∈ estate.factories, ∀ root ∈ estate.held, ∀ newSize failure after,
    (Request.reallocate factory root newSize).perform (.instrumented registry guard .arena)
        estate = .error failure after →
      after = { estate with world := after.world } ∧ estate.world.Unchanged after.world
  entries : ∃ snapshot, answer (Registered.snapshot registry) estate.world = .ok snapshot ∧
    snapshot.Perm estate.blocks
  silent : ∀ factory ∈ estate.factories,
    factory.config.ownsAllocator = false ∨ estate.blocks = [] →
      (Request.release factory).perform (.instrumented registry guard .arena) estate =
        .ok () estate
  leaking : ∀ factory ∈ estate.factories,
    factory.config.ownsAllocator = true → estate.blocks ≠ [] →
      ∃ events, (Request.release factory).perform (.instrumented registry guard .arena) estate =
        .error (.refused (.leakDetected estate.blocks.length (Extent.totalSize estate.blocks)))
          { estate with world := { estate.world with events } }

namespace Accounted

variable {registry guard : Nat}

/-- Every block in the books has its entry in the registry. -/
theorem sizeOf_of_mem
    {block : Extent}
    (accounted : estate.Accounted (.instrumented registry guard .arena) range)
    (present : block ∈ estate.blocks) :
    answer (Registered.sizeOf registry block.address) estate.world = .ok block.size := by
  have found := (accounted.books.held block.address block.size).mpr present
  rw [answer, Registered.sizeOf, Fallible.bind_of_ok (HeapM.registryOf_apply registry _), found]
  rfl

/-- The registry has the blocks in the books for entries. -/
theorem exists_snapshot
    (accounted : estate.Accounted (.instrumented registry guard .arena) range) :
    ∃ snapshot, answer (Registered.snapshot registry) estate.world = .ok snapshot ∧
      snapshot.Perm estate.blocks := by
  refine ⟨_, rfl, ?_⟩
  have contents := accounted.books.held.extents_perm accounted.books.placed_instrumented.nodup
  exact ((Registry.snapshot_perm _).map _).trans contents

theorem release_of_silent
    (accounted : estate.Accounted (.instrumented registry guard .arena) range)
    (present : factory ∈ estate.factories)
    (silent : factory.config.ownsAllocator = false ∨ estate.blocks = []) :
    (Request.release factory).perform (.instrumented registry guard .arena) estate =
      .ok () estate := by
  have released : factory.release estate.world = .ok () estate.world := by
    unfold Factory.release
    split
    case isFalse => rfl
    case isTrue owns =>
      have isEmpty : estate.blocks = [] := by simpa [owns] using silent
      have books := accounted.books
      rw [isEmpty] at books
      rw [accounted.uses factory present]
      exact books.release_of_nil
  rw [Request.perform, onHeap_of_ok released]

theorem release_of_leaking
    (accounted : estate.Accounted (.instrumented registry guard .arena) range)
    (present : factory ∈ estate.factories)
    (owns : factory.config.ownsAllocator = true)
    (live : estate.blocks ≠ []) :
    ∃ events, (Request.release factory).perform (.instrumented registry guard .arena) estate =
      .error (.refused (.leakDetected estate.blocks.length (Extent.totalSize estate.blocks)))
        { estate with world := { estate.world with events } } := by
  obtain ⟨events, reported⟩ := accounted.books.release_of_live live
  have same : factory.release = (Stack.instrumented registry guard .arena).allocator.release := by
    rw [Factory.release, if_pos owns, accounted.uses factory present]
  rw [← same] at reported
  refine ⟨events, ?_⟩
  rw [Request.perform, onHeap_of_error reported]

end Accounted

/-- However the calls of any number of factories over one instrumented arena are mixed, the
estate of their client is in order. -/
theorem roots_owned_across_factories
    {registry guard : Nat}
    (differs : registry ≠ guard)
    (fresh : arena.Fresh)
    (run : Run (.instrumented registry guard .arena) arena estate) :
    InOrder registry guard estate := by
  have distinct : (Stack.instrumented registry guard .arena).layers.Nodup := by
    simp [Stack.instrumented, Stack.layers, differs]
  have accounted := run.accounted rfl distinct fresh
  refine ⟨accounted.numbered, ?known, ?registered, ?apart, ?foreign, ?unmoved,
    accounted.exists_snapshot, ?silent, ?leaking⟩
  case known =>
    intro root held made
    obtain ⟨id, origin⟩ := Option.isSome_iff_exists.mp made
    obtain ⟨factory, present, same⟩ :=
      accounted.known root (List.mem_append_left _ held) id origin
    exact ⟨factory, present, origin.trans (congrArg some same.symm)⟩
  case registered =>
    intro root held made
    exact accounted.sizeOf_of_mem ((blocks_perm_of_held held made).mem_iff.mpr (.head _))
  case apart =>
    have apart := List.pairwise_map.mp accounted.books.placed_instrumented.apart
    rw [List.filter_append] at apart
    exact (List.pairwise_append.mp apart).1
  case foreign => exact fun factory _ root _ foreign => untaken_of_foreign foreign
  case unmoved =>
    intro factory present root held newSize failure after failed
    cases done : factory.reallocate root newSize estate.world with
    | ok moved world =>
        rw [perform_reallocate_of_ok done] at failed
        cases failed
    | error other world =>
        rw [perform_reallocate_of_error done] at failed
        cases failed
        exact ⟨rfl, unchanged_of_reallocate_error (accounted.uses factory present) done⟩
  case silent => exact fun factory present => accounted.release_of_silent present
  case leaking => exact fun factory present => accounted.release_of_leaking present

/-- Two factories over one arena, of which the first one made a root of sixteen bytes. -/
theorem roots_owned_across_factories_of_first_root :
    let arena : Arena := { base := ⟨4096⟩, capacity := 1024 }
    ∃ estate root, Run (.instrumented 0 1 .arena) arena estate ∧
      estate.factories.map Factory.id = [2, 1] ∧ estate.held = [root] ∧
      root.origin = some 1 ∧ InOrder 0 1 estate := by
  intro arena
  have fresh : arena.Fresh := ⟨⟨⟨4096⟩, 1024, rfl⟩, by decide, by decide⟩
  let stack : Stack := .instrumented 0 1 .arena
  let maker : Factory := ⟨stack.allocator, .testing, 1⟩
  let other : Factory := ⟨stack.allocator, .production, 2⟩
  let created : Estate :=
    { world := { World.initial arena with nextFactory := 3 }
      factories := [other, maker]
      held := []
      forfeited := [] }
  let begun : Estate :=
    { created with world := { World.initial arena with nextFactory := 2 }, factories := [maker] }
  have admitsMaker : (Estate.start arena .zero).Admits (.create .testing) := trivial
  have runBegun : Run stack arena begun := .step (.start .zero) admitsMaker
  have admitsOther : begun.Admits (.create .production) := trivial
  have runCreated : Run stack arena created := .step runBegun admitsOther
  obtain ⟨after, granted⟩ := Stack.instrumented_allocate_of_room 0 1 created.world
    (by decide : (16 : UInt64) ≠ 0) (by decide) (rfl : arena.credit = none)
    (by decide +kernel : arena.nextAfter? (16 + 24) = some 48)
  obtain ⟨events, allocated⟩ := Factory.allocate_of_granted
    (show maker.allocator.allocate 16 created.world = _ from granted)
  have admitted : created.Admits (.allocate maker 16) := .tail _ (.head _)
  have runMade := runCreated.step admitted
  rw [final, perform_allocate_of_ok allocated] at runMade
  exact ⟨_, _, runMade, rfl, rfl, rfl,
    roots_owned_across_factories (by decide) fresh runMade⟩

end Estate
end GuardedHeap
