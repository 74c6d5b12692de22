import GuardedHeap.Proofs.Ledger.Release

/-!
# Leaks

A release visits a layer and then what lies below it, as long as each layer that it comes
through owns what lies below it; counted layers pass it on in any case. It ends in silence
exactly if no visited layer has blocks, and otherwise with the blocks and bytes of the
outermost one that has some. Nothing changes but what was told and how often the visited
counted layers were released.

The bytes of a registry are the exact sum of its sizes. If they are more than a word can
count, there is nothing to report and the release ends with an overflow; no heap has so many.
-/

namespace GuardedHeap

open Allocator (releaseOwned)
open Fallible (answer final)

/-- Counts after so many more releases. -/
def CallCounts.released (counts : CallCounts) (times : Nat) : CallCounts :=
  { counts with releases := counts.releases + times }

namespace Stack

/-- A layer that is visited, by its number. -/
inductive Layer
  | guarded (layer : Nat)
  | registered (layer : Nat)
  | counted (layer : Nat)
  deriving DecidableEq

/-- The layers that a release visits, outermost first. -/
def visited : Stack → List Layer
  | .raw _ => []
  | .guarded layer owns inner => .guarded layer :: if owns then inner.visited else []
  | .registered layer owns inner => .registered layer :: if owns then inner.visited else []
  | .counted layer inner => .counted layer :: inner.visited

namespace Layer

/-- The count of blocks that a layer answers for. -/
def blocks (world : World) : Layer → Nat
  | .guarded layer => (world.tallies.get layer).blocks.toNat
  | .registered layer => (world.registries.get layer).blocks
  | .counted _ => 0

/-- The bytes of these blocks. -/
def bytes (world : World) : Layer → Nat
  | .guarded layer => (world.tallies.get layer).bytes.toNat
  | .registered layer => Extent.totalSize (world.registries.get layer).extents
  | .counted _ => 0

@[simp] theorem blocks_told
    (world : World)
    (events : Array Event)
    (callCounts : Table CallCounts)
    (layer : Layer) :
    layer.blocks { world with events, callCounts } = layer.blocks world := by
  cases layer <;> rfl

@[simp] theorem bytes_told
    (world : World)
    (events : Array Event)
    (callCounts : Table CallCounts)
    (layer : Layer) :
    layer.bytes { world with events, callCounts } = layer.bytes world := by
  cases layer <;> rfl

/-- A layer without blocks has no more bytes than a word counts. -/
theorem bytes_lt_of_empty
    {world : World}
    {layer : Layer}
    (isEmpty : layer.blocks world = 0) :
    layer.bytes world < UInt64.size := by
  cases layer with
  | guarded layer => exact (world.tallies.get layer).bytes.toNat_lt
  | registered layer =>
      rw [blocks, Registry.blocks_eq, List.length_eq_zero_iff] at isEmpty
      rw [bytes, isEmpty]
      decide
  | counted layer =>
      show 0 < UInt64.size
      decide

end Layer

/-- The outermost layer that has blocks, if one has. -/
def outermost? (world : World) (layers : List Layer) : Option Layer :=
  layers.find? fun layer => layer.blocks world != 0

section Outermost

variable {layers : List Layer}
variable {layer : Layer}
variable {world : World}

theorem outermost?_eq_none_iff :
    outermost? world layers = none ↔ ∀ layer ∈ layers, layer.blocks world = 0 := by
  simp [outermost?]

theorem outermost?_cons_of_live (live : layer.blocks world ≠ 0) :
    outermost? world (layer :: layers) = some layer :=
  List.find?_cons_of_pos (by simpa using live)

theorem outermost?_cons_of_empty (isEmpty : layer.blocks world = 0) :
    outermost? world (layer :: layers) = outermost? world layers :=
  List.find?_cons_of_neg (by simpa using isEmpty)

end Outermost

/-- Layers were visited: the world is as it was, except that more was told and that the counted
layers among them have counted a release. -/
structure Visits (layers : List Layer) (world after : World) : Prop where
  told : ∃ told callCounts, after = { world with events := world.events ++ told, callCounts }
  counted : ∀ layer, after.callCounts.get layer =
    (world.callCounts.get layer).released (layers.count (.counted layer))

/-- What comes of the release of layers. -/
inductive Outcome (layers : List Layer) (world : World) :
    EStateM.Result (Failure HeapError) World Unit → Prop
  | silent
      {after : World}
      (visits : Visits layers world after)
      (isEmpty : ∀ layer ∈ layers, layer.blocks world = 0) :
      Outcome layers world (.ok () after)
  | leaking
      {after : World}
      {layer : Layer}
      (visits : Visits layers world after)
      (outermost : outermost? world layers = some layer)
      (bounded : ∀ other ∈ layers, other.bytes world < UInt64.size) :
      Outcome layers world
        (.error (.refused (.leakDetected (layer.blocks world) (layer.bytes world))) after)
  | overflowing
      {after : World}
      {layer : Layer}
      (visits : Visits layers world after)
      (present : layer ∈ layers)
      (large : UInt64.size ≤ layer.bytes world) :
      Outcome layers world (.error .overflow after)

/-- What a layer makes of what was answered below it. -/
inductive Closing (layer : Layer) (below : Except HeapError Unit) (world : World) :
    EStateM.Result (Failure HeapError) World Unit → Prop
  | passed
      (isEmpty : layer.blocks world = 0) :
      Closing layer below world (Fallible.ofCheck below world)
  | leaking
      (event : Event)
      (live : layer.blocks world ≠ 0)
      (bounded : layer.bytes world < UInt64.size) :
      Closing layer below world
        (.error (.refused (.leakDetected (layer.blocks world) (layer.bytes world)))
          { world with events := world.events.push event })
  | overflowing
      (large : UInt64.size ≤ layer.bytes world) :
      Closing layer below world (.error .overflow world)

section Visits

variable {layers : List Layer}
variable {world after : World}

theorem visits_nil (world : World) : Visits [] world world :=
  ⟨⟨#[], world.callCounts, by rw [Array.append_empty]⟩, fun _ => rfl⟩

/-- A layer that does not count calls is visited without a trace. -/
theorem Visits.cons
    {layer : Layer}
    (visits : Visits layers world after)
    (uncounted : ∀ number, layer ≠ .counted number) :
    Visits (layer :: layers) world after where
  told := visits.told
  counted number := by
    rw [visits.counted, List.count_cons_of_ne (uncounted number)]

/-- Telling of a leak is not counted. -/
theorem Visits.tell
    (visits : Visits layers world after)
    (event : Event) :
    Visits layers world { after with events := after.events.push event } where
  told := by
    obtain ⟨told, callCounts, rfl⟩ := visits.told
    exact ⟨told.push event, callCounts, by rw [Array.append_push]⟩
  counted := visits.counted

/-- A counted layer is visited before what lies below it. -/
theorem Visits.counted_cons
    {number : Nat}
    (visits : Visits layers
      { world with
        callCounts := world.callCounts.set number
          ((world.callCounts.get number).released 1) } after) :
    Visits (.counted number :: layers) world after where
  told := by
    obtain ⟨told, callCounts, rfl⟩ := visits.told
    exact ⟨told, callCounts, rfl⟩
  counted other := by
    rw [visits.counted, Table.get_set]
    by_cases same : other = number
    · subst same
      rw [if_pos rfl, List.count_cons_self, CallCounts.released, CallCounts.released,
        CallCounts.released, Nat.add_assoc, Nat.add_comm 1]
    · rw [if_neg same, List.count_cons_of_ne fun equal => same (Layer.counted.inj equal).symm]

end Visits

end Stack

open Stack (Layer Closing Outcome Visits)

section Closing

variable {layer : Nat}
variable {owns : Bool}
variable {inner : Allocator}
variable {below : Except HeapError Unit}
variable {world middle : World}

theorem Guarded.closing (released : releaseOwned owns inner world = .ok below middle) :
    Closing (.guarded layer) below middle (release layer owns inner world) := by
  by_cases isEmpty : (middle.tallies.get layer).blocks = 0
  case pos =>
    rw [release_of_empty released isEmpty]
    exact .passed (congrArg UInt64.toNat isEmpty)
  case neg =>
    rw [release, Fallible.bind_of_ok released,
      Fallible.bind_of_ok (HeapM.tallyOf_apply layer middle), if_neg isEmpty]
    exact .leaking _ (fun none => isEmpty (UInt64.toNat_inj.mp none))
      (middle.tallies.get layer).bytes.toNat_lt

/-- What a registered layer holds may be more than a word can count. -/
theorem Registered.totals_of_none (noSum : (world.registries.get layer).bytes? = none) :
    totals layer world = .error .overflow world := by
  rw [totals, Fallible.bind_of_ok (HeapM.registryOf_apply layer world), noSum]
  rfl

theorem Registered.closing (released : releaseOwned owns inner world = .ok below middle) :
    Closing (.registered layer) below middle (release layer owns inner world) := by
  by_cases isEmpty : (middle.registries.get layer).blocks = 0
  case pos =>
    rw [release_of_empty released isEmpty]
    exact .passed isEmpty
  case neg =>
    by_cases bounded : Extent.totalSize (middle.registries.get layer).extents < UInt64.size
    case pos =>
      obtain ⟨bytes, sum, exact⟩ := Registry.exists_bytes bounded
      rw [release, Fallible.bind_of_ok released,
        Fallible.bind_of_ok (HeapM.registryOf_apply layer middle), if_neg isEmpty,
        Fallible.bind_of_ok (totals_of_some sum)]
      dsimp only
      rw [exact]
      exact .leaking _ isEmpty bounded
    case neg =>
      have noSum : (middle.registries.get layer).bytes? = none := by
        rw [Registry.bytes?_eq, Word.ofNat?, if_neg bounded]
      rw [release, Fallible.bind_of_ok released,
        Fallible.bind_of_ok (HeapM.registryOf_apply layer middle), if_neg isEmpty,
        Fallible.bind_of_error (totals_of_none noSum)]
      exact .overflowing (Nat.le_of_not_lt bounded)

end Closing

namespace Stack

variable {layers : List Layer}
variable {world : World}

/-- What only was told of or counted does not change what layers answer for. -/
theorem Visits.blocks_eq
    {after : World}
    (visits : Visits layers world after)
    (layer : Layer) :
    layer.blocks after = layer.blocks world ∧ layer.bytes after = layer.bytes world := by
  obtain ⟨told, callCounts, rfl⟩ := visits.told
  exact ⟨Layer.blocks_told .., Layer.bytes_told ..⟩

/-- A layer has the last word on what was released below it in silence. -/
theorem Closing.of_silent
    {own : Layer}
    {middle : World}
    {result : EStateM.Result (Failure HeapError) World Unit}
    (closing : Closing own (.ok ()) middle result)
    (visits : Visits (own :: layers) world middle)
    (isEmpty : ∀ layer ∈ layers, layer.blocks world = 0) :
    Outcome (own :: layers) world result := by
  obtain ⟨sameBlocks, sameBytes⟩ := visits.blocks_eq own
  cases closing with
  | passed noBlocks =>
      refine .silent visits (List.forall_mem_cons.mpr ⟨?_, isEmpty⟩)
      rwa [← sameBlocks]
  | leaking event live bounded =>
      rw [sameBlocks, sameBytes]
      rw [sameBlocks] at live
      rw [sameBytes] at bounded
      refine .leaking (visits.tell event) (outermost?_cons_of_live live) ?_
      exact List.forall_mem_cons.mpr
        ⟨bounded, fun layer present => Layer.bytes_lt_of_empty (isEmpty layer present)⟩
  | overflowing large =>
      rw [sameBytes] at large
      exact .overflowing visits (.head _) large

/-- A layer without blocks passes on the leak that was found below it, and one with blocks
hides it. -/
theorem Closing.of_leaking
    {own layer : Layer}
    {middle : World}
    {result : EStateM.Result (Failure HeapError) World Unit}
    (closing : Closing own (.error (.leakDetected (layer.blocks world) (layer.bytes world)))
      middle result)
    (visits : Visits (own :: layers) world middle)
    (outermost : outermost? world layers = some layer)
    (bounded : ∀ other ∈ layers, other.bytes world < UInt64.size) :
    Outcome (own :: layers) world result := by
  obtain ⟨sameBlocks, sameBytes⟩ := visits.blocks_eq own
  cases closing with
  | passed noBlocks =>
      rw [sameBlocks] at noBlocks
      exact .leaking visits ((outermost?_cons_of_empty noBlocks).trans outermost)
        (List.forall_mem_cons.mpr ⟨Layer.bytes_lt_of_empty noBlocks, bounded⟩)
  | leaking event ownLive ownBounded =>
      rw [sameBlocks, sameBytes]
      rw [sameBlocks] at ownLive
      rw [sameBytes] at ownBounded
      exact .leaking (visits.tell event) (outermost?_cons_of_live ownLive)
        (List.forall_mem_cons.mpr ⟨ownBounded, bounded⟩)
  | overflowing large =>
      rw [sameBytes] at large
      exact .overflowing visits (.head _) large

/-- A layer above others that were released. -/
theorem Outcome.above
    {own : Layer}
    {owns : Bool}
    {inner : Allocator}
    {result : EStateM.Result (Failure HeapError) World Unit}
    (released : Outcome layers world ((if owns then inner.release else pure ()) world))
    (uncounted : ∀ number, own ≠ .counted number)
    (closing : ∀ below middle, releaseOwned owns inner world = .ok below middle →
      Closing own below middle result)
    (failing : ∀ failure middle, releaseOwned owns inner world = .error failure middle →
      result = .error failure middle) :
    Outcome (own :: layers) world result := by
  have owned : releaseOwned owns inner =
      Fallible.attempt (if owns then inner.release else pure ()) := by
    cases owns <;> rfl
  rw [owned] at closing failing
  generalize ended : (if owns then inner.release else pure ()) world = below at released
  cases released with
  | silent visits isEmpty =>
      exact (closing _ _ (Fallible.attempt_of_ok ended)).of_silent (visits.cons uncounted) isEmpty
  | leaking visits outermost bounded =>
      exact (closing _ _ (Fallible.attempt_of_refused ended)).of_leaking (visits.cons uncounted)
        outermost bounded
  | overflowing visits present large =>
      rw [failing _ _ (Fallible.attempt_of_overflow ended)]
      exact .overflowing (visits.cons uncounted) (.tail _ present) large

/-- A counted layer adds nothing to what comes of the release below it. -/
theorem Outcome.counted_cons
    {number : Nat}
    {result : EStateM.Result (Failure HeapError) World Unit}
    (released : Outcome layers
      { world with
        callCounts := world.callCounts.set number
          ((world.callCounts.get number).released 1) } result) :
    Outcome (.counted number :: layers) world result := by
  cases released with
  | silent visits isEmpty =>
      simp only [Layer.blocks_told] at isEmpty
      exact .silent visits.counted_cons (List.forall_mem_cons.mpr ⟨rfl, isEmpty⟩)
  | leaking visits outermost bounded =>
      simp only [outermost?, Layer.blocks_told, Layer.bytes_told] at outermost bounded ⊢
      exact .leaking visits.counted_cons ((outermost?_cons_of_empty rfl).trans outermost)
        (List.forall_mem_cons.mpr ⟨Layer.bytes_lt_of_empty rfl, bounded⟩)
  | overflowing visits present large =>
      simp only [Layer.bytes_told] at large
      exact .overflowing visits.counted_cons (.tail _ present) large

/-- What comes of the release of a stack is what its visited layers make of it. -/
theorem release_outcome
    (stack : Stack)
    (world : World) :
    Outcome stack.visited world (stack.allocator.release world) := by
  induction stack generalizing world with
  | raw store => exact .silent (visits_nil world) (List.forall_mem_nil _)
  | guarded layer owns inner inductionHypothesis =>
      have released : Outcome (if owns then inner.visited else []) world
          ((if owns then inner.allocator.release else pure ()) world) := by
        cases owns with
        | false => exact .silent (visits_nil world) (List.forall_mem_nil _)
        | true => exact inductionHypothesis world
      exact released.above nofun (fun _ _ => Guarded.closing) fun _ _ failed =>
        Fallible.bind_of_error failed _
  | registered layer owns inner inductionHypothesis =>
      have released : Outcome (if owns then inner.visited else []) world
          ((if owns then inner.allocator.release else pure ()) world) := by
        cases owns with
        | false => exact .silent (visits_nil world) (List.forall_mem_nil _)
        | true => exact inductionHypothesis world
      exact released.above nofun (fun _ _ => Registered.closing) fun _ _ failed =>
        Fallible.bind_of_error failed _
  | counted layer inner inductionHypothesis =>
      exact Outcome.counted_cons (inductionHypothesis _)

section Answers

variable {computation : HeapM Unit}
variable (outcome : Outcome layers world (computation world))

include outcome

theorem Outcome.silent_iff :
    answer computation world = .ok () ↔ ∀ layer ∈ layers, layer.blocks world = 0 := by
  unfold answer
  generalize computation world = result at outcome
  cases outcome with
  | silent visits isEmpty => exact iff_of_true rfl isEmpty
  | leaking visits outermost bounded =>
      refine iff_of_false nofun fun isEmpty => ?_
      simp [outermost?_eq_none_iff.mpr isEmpty] at outermost
  | overflowing visits present large =>
      refine iff_of_false nofun fun isEmpty => ?_
      exact Nat.not_le.mpr (Layer.bytes_lt_of_empty (isEmpty _ present)) large

theorem Outcome.leak
    {layer : Layer}
    (outermost : outermost? world layers = some layer)
    (bounded : ∀ other ∈ layers, other.bytes world < UInt64.size) :
    answer computation world =
      .error (.refused (.leakDetected (layer.blocks world) (layer.bytes world))) := by
  unfold answer
  generalize computation world = result at outcome
  cases outcome with
  | silent visits isEmpty => simp [outermost?_eq_none_iff.mpr isEmpty] at outermost
  | leaking visits sameOutermost _ =>
      obtain rfl := Option.some.inj (sameOutermost.symm.trans outermost)
      rfl
  | overflowing visits present large => exact absurd large (Nat.not_le.mpr (bounded _ present))

theorem Outcome.overflow_iff :
    answer computation world = .error .overflow ↔
      ∃ layer ∈ layers, UInt64.size ≤ layer.bytes world := by
  unfold answer
  generalize computation world = result at outcome
  cases outcome with
  | silent visits isEmpty =>
      refine iff_of_false nofun ?_
      rintro ⟨layer, present, large⟩
      exact Nat.not_le.mpr (Layer.bytes_lt_of_empty (isEmpty layer present)) large
  | leaking visits outermost bounded =>
      refine iff_of_false nofun ?_
      rintro ⟨layer, present, large⟩
      exact Nat.not_le.mpr (bounded layer present) large
  | overflowing visits present large => exact iff_of_true rfl ⟨_, present, large⟩

theorem Outcome.visits : Visits layers world (final computation world) := by
  unfold final
  generalize computation world = result at outcome
  cases outcome with
  | silent visits _ | leaking visits _ _ | overflowing visits _ _ => exact visits

end Answers

/-- What a release of a stack tells and does. A leak is reported if the bytes of each visited layer
are a word. Those of a guarded layer are counted by a word and always are; those of a registry are
added up, and if they are no word, the release ends with an overflow. -/
structure Reports (stack : Stack) (world : World) : Prop where
  silent_iff : answer stack.allocator.release world = .ok () ↔
    ∀ layer ∈ stack.visited, layer.blocks world = 0
  leak : ∀ layer, outermost? world stack.visited = some layer →
    (∀ other ∈ stack.visited, other.bytes world < UInt64.size) →
      answer stack.allocator.release world =
        .error (.refused (.leakDetected (layer.blocks world) (layer.bytes world)))
  overflow_iff : answer stack.allocator.release world = .error .overflow ↔
    ∃ layer ∈ stack.visited, UInt64.size ≤ layer.bytes world
  visits : Visits stack.visited world (final stack.allocator.release world)

/-- A release ends in silence exactly if no visited layer has blocks, and otherwise, as long as the
sum of the bytes of every visited layer is a word, reports those of the outermost layer that has
some. It changes nothing but the counts of releases of the visited counted layers. -/
theorem outermost_leak_reported
    (stack : Stack)
    (world : World) :
    stack.Reports world := by
  have outcome := stack.release_outcome world
  exact ⟨outcome.silent_iff, fun _ => outcome.leak, outcome.overflow_iff, outcome.visits⟩

/-- Below an empty registry, two guarded layers have blocks: those of the outer one are reported,
and the layer that counts calls has counted the release. -/
theorem outermost_leak_reported_of_two_leaks :
    let stack : Stack :=
      .counted 0 (.registered 1 true (.guarded 2 true (.guarded 3 true (.raw .arena))))
    let world : World :=
      { World.initial { base := ⟨4096⟩, capacity := 1024 } with
        tallies := (Table.empty.set 2 ⟨1, 8⟩).set 3 ⟨2, 40⟩ }
    answer stack.allocator.release world = .error (.refused (.leakDetected 1 8)) ∧
      ((final stack.allocator.release world).callCounts.get 0).releases = 1 := by
  intro stack world
  have reports := outermost_leak_reported stack world
  have outermost : outermost? world stack.visited = some (.guarded 2) := by decide +kernel
  have bounded : ∀ other ∈ stack.visited, other.bytes world < UInt64.size := by decide +kernel
  constructor
  · exact reports.leak _ outermost bounded
  · rw [reports.visits.counted]
    decide +kernel

end Stack
end GuardedHeap
