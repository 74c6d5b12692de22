import GuardedHeap.Proofs.Overflow.Factories
import GuardedHeap.Proofs.Overflow.Sessions

/-!
# Runs without overflow

A workbench holds a heap over one arena and whatever clients made of it: blocks, cursors, bit
sets and filters, all under names. Clients give commands in any order and with any arguments,
over as many towers as they like, which may share layers. They reset layers with live blocks,
give back what was given back before, keep using blocks that ended, and change any byte of
memory, guard words included.

No command overflows. What each of them relies on holds throughout: registries are backed by
the arena, cursors stand in their blocks, and the bits of sets can be counted.
-/

namespace GuardedHeap

open Fallible (Lasting Leads Steady leads_of_steady steady_exactly steady_get steady_modify
  steady_pure)

/-- A heap, and what clients made of it under names. -/
structure Workbench where
  world : World
  blocks : Table Block
  cursors : Table Cursor
  sets : Table BitSet
  filters : Table Bloom

/-- A computation at a workbench. -/
abbrev WorkbenchM := Fallible AccessError Workbench

namespace Workbench

/-- A heap over an arena and memory in which nothing was made. -/
def start (arena : Arena) (memory : Memory) : Workbench where
  world := { World.initial arena with memory }
  blocks := .empty
  cursors := .empty
  sets := .empty
  filters := .empty

/-- Run a computation on the heap. -/
def onHeap {α : Type} (computation : HeapM α) : WorkbenchM α := fun bench =>
  match computation bench.world with
  | .ok value world => .ok value { bench with world }
  | .error failure world => .error (failure.map .memory) { bench with world }

/-- The part of a workbench that commands on blocks and cursors work with. -/
def session (bench : Workbench) : Session where
  blocks := bench.blocks
  cursors := bench.cursors
  memory := bench.world.memory

/-- The workbench after this part has changed. -/
def withSession (bench : Workbench) (session : Session) : Workbench :=
  { bench with
    world := { bench.world with memory := session.memory }
    blocks := session.blocks
    cursors := session.cursors }

/-- Run a computation on blocks and cursors. -/
def onSession {α : Type} (computation : SessionM α) : WorkbenchM α := fun bench =>
  match computation bench.session with
  | .ok value session => .ok value (bench.withSession session)
  | .error failure session => .error failure (bench.withSession session)

/-- Run a computation with a measure, which is then thrown away. -/
def onMeasure
    {α : Type}
    (measure : Measure)
    (computation : Fallible AccessError Measure α) :
    WorkbenchM α := fun bench =>
  match computation measure with
  | .ok value _ => .ok value bench
  | .error failure _ => .error failure bench

/-- The block that a name stands for. -/
def block (name : Nat) : WorkbenchM Block := do
  pure ((← get).blocks.get name)

/-- Let a name stand for a block. -/
def nameBlock (name : Nat) (block : Block) : WorkbenchM Unit :=
  modify fun bench => { bench with blocks := bench.blocks.set name block }

/-- The bit set that a name stands for. -/
def bitSet (name : Nat) : WorkbenchM BitSet := do
  pure ((← get).sets.get name)

/-- Let a name stand for a bit set. -/
def nameBitSet (name : Nat) (set : BitSet) : WorkbenchM Unit :=
  modify fun bench => { bench with sets := bench.sets.set name set }

/-- The filter that a name stands for. -/
def filter (name : Nat) : WorkbenchM Bloom := do
  pure ((← get).filters.get name)

/-- Let a name stand for a filter. -/
def nameFilter (name : Nat) (filter : Bloom) : WorkbenchM Unit :=
  modify fun bench => { bench with filters := bench.filters.set name filter }

/-- What a client can do. New things get the name that is given. -/
inductive Command
  | call (tower : Tower) (request : Allocator.Call)
  | release (tower : Tower)
  | reset (tower : Tower)
  | totals (layer : Nat)
  | overwrite (address : Address) (value : UInt8)
  | limit (count : Nat)
  | recover
  | adopt (name : Nat) (root : Root)
  | make (maker : Maker) (name : Nat) (size : UInt64)
  | move (maker : Maker) (name : Nat) (newSize : UInt64)
  | giveBack (maker : Maker) (name : Nat)
  | releaseMaker (maker : Maker)
  | session (command : Session.Command)
  | unitAt (block : Nat) (index : UInt64)
  | subView (name block : Nat) (first last : UInt64)
  | text (block : Nat)
  | measure (before : Measure) (datum : Datum)
  | makeSet (maker : Maker) (name : Nat) (size : UInt64)
  | askSet (name : Nat) (request : BitSet.Request)
  | closeSet (maker : Maker) (name : Nat)
  | makeFilter (maker : Maker) (name : Nat) (bits : UInt64) (hashes : UInt32)
  | askFilter (name : Nat) (request : Bloom.Request)
  | closeFilter (maker : Maker) (name : Nat)
  | churn (tower : Tower) (sizes : List UInt64)
  | churnBlocks (maker : Maker) (sizes : List UInt64)

namespace Command

/-- Bytes and texts of a command are as long as those that a program can hold. -/
def Sized : Command → Prop
  | .session command => command.Sized
  | .measure _ datum => datum.Sized
  | _ => True

/-- How many calls of towers a command makes at most. -/
def calls : Command → Nat
  | .call .. => 1
  | .make .. => 1
  | .move .. => 1
  | .giveBack .. => 1
  | .makeSet .. => 2
  | .closeSet .. => 1
  | .makeFilter .. => 2
  | .closeFilter .. => 1
  | .churn _ sizes => sizes.length + sizes.length
  | .churnBlocks _ sizes => sizes.length + sizes.length
  | _ => 0

/-- Do what a command says. The sums behind its answer are made exactly, also those that
other commands make anew or do not show. -/
def perform : Command → WorkbenchM Unit
  | .call tower request => do
      let _ ← onHeap (tower.stack.allocator.call request)
      pure ()
  | .release tower => onHeap tower.stack.allocator.release
  | .reset tower => onHeap tower.stack.reset
  | .totals layer => do
      let totals ← onHeap (Registered.totals layer)
      let _ ← Fallible.exactly (Word.ofNat? totals.1)
      pure ()
  | .overwrite address value =>
      onHeap (HeapM.onMemory (modify fun memory => memory.set address value))
  | .limit count =>
      onHeap (modify fun world => { world with arena := world.arena.failAfter count })
  | .recover => onHeap (modify fun world => { world with arena := world.arena.recover })
  | .adopt name root => nameBlock name (.whole root)
  | .make maker name size => do
      let root ← onHeap (maker.factory.allocate size)
      nameBlock name (.whole root)
  | .move maker name newSize => do
      let block ← block name
      let root ← onHeap (maker.factory.reallocate block.root newSize)
      nameBlock name (.whole root)
  | .giveBack maker name => do
      let block ← block name
      onHeap (maker.factory.free block.root)
  | .releaseMaker maker => onHeap maker.factory.release
  | .session command => do
      let _ ← Fallible.exactly command.sum?
      let _ ← onSession command.run
      pure ()
  | .unitAt name index => do
      let block ← block name
      let _ ← onHeap (HeapM.onMemory ((CharView.ofBlock block).unitAt index))
      pure ()
  | .subView name outer first last => do
      let block ← block outer
      let view ← onHeap (HeapM.onMemory ((CharView.ofBlock block).subView first last))
      nameBlock name view.block
  | .text name => do
      let block ← block name
      let _ ← onHeap (HeapM.onMemory (CharView.ofBlock block).text)
      pure ()
  | .measure before datum => do
      let _ ← Fallible.exactly datum.sum?
      onMeasure before (Measure.write datum)
  | .makeSet maker name size => do
      let set ← onHeap (BitSet.create maker.factory size)
      nameBitSet name set
  | .askSet name request => do
      let set ← bitSet name
      let answer ← onHeap (HeapM.onMemory (request.perform set))
      let _ ← Fallible.exactly answer.sum?
      pure ()
  | .closeSet maker name => do
      let set ← bitSet name
      onHeap (set.close maker.factory)
  | .makeFilter maker name bits hashes => do
      let filter ← onHeap (Bloom.create maker.factory bits hashes)
      nameFilter name filter
  | .askFilter name request => do
      let filter ← filter name
      onHeap (HeapM.onMemory (request.run filter))
  | .closeFilter maker name => do
      let filter ← filter name
      onHeap (filter.close maker.factory)
  | .churn tower sizes => do
      let _ ← onHeap (Workload.churn tower.stack.allocator sizes)
      pure ()
  | .churnBlocks maker sizes => do
      let _ ← onHeap (Workload.churnBlocks maker.factory sizes)
      pure ()

end Command

/-- Give commands one after the other, be they refused or not. An overflow ends the run. -/
def performAll : List Command → WorkbenchM Unit
  | [] => pure ()
  | command :: commands => do
      let _ ← Fallible.attempt command.perform
      performAll commands

/-- What all commands rely on, after a number of calls. -/
structure Sound (calls : Nat) (bench : Workbench) : Prop where
  world : bench.world.Sound calls
  standing : bench.session.Standing
  countable : ∀ name, (bench.sets.get name).Countable

instance : Lasting Sound where
  later ordered sound := ⟨Lasting.later ordered sound.world, sound.standing, sound.countable⟩

/-- A new arena leaves nothing to be summed up. -/
theorem sound_start
    {base : Address}
    {capacity : UInt64}
    {arena : Arena}
    (created : Arena.create? base capacity = some arena)
    (bounded : arena.range.stop ≤ 0x10000000000000000)
    (memory : Memory) :
    (start arena memory).Sound 0 where
  world :=
    { backed :=
        { registries := fun _ => Registry.backed_empty _
          arena := .create created bounded }
      invalidFrees := by
        obtain ⟨rfl, -⟩ := Arena.eq_of_create? created
        exact Nat.le_refl 0
      callCounts := fun _ => Nat.le_refl 0 }
  standing _ := Cursor.standsIn_start default
  countable _ := by
    show 8 * (default : BitSet).root.extent.size.toNat < _
    decide

section Lifting

variable {α : Type}
variable {yields : α → Prop}
variable {steps calls : Nat}

theorem leads_onHeap
    {computation : HeapM α}
    (leads : Leads World.Sound steps yields computation) :
    Leads Sound steps yields (onHeap computation) := by
  intro calls bench sound
  have settled := leads calls bench.world sound.world
  unfold onHeap
  generalize computation bench.world = result at settled ⊢
  cases settled with
  | value holds known => exact .value ⟨holds, sound.standing, sound.countable⟩ known
  | refused holds => exact .refused ⟨holds, sound.standing, sound.countable⟩

theorem leads_onMemory
    {computation : MemoryM α}
    (steady : Steady (fun _ => True) yields computation) :
    Leads Sound 0 yields (onHeap (HeapM.onMemory computation)) :=
  leads_onHeap (leads_of_steady fun _ => HeapM.steady_onMemory steady)

theorem leads_onSession
    {computation : SessionM α}
    (steady : Steady Session.Standing yields computation) :
    Leads Sound 0 yields (onSession computation) := by
  intro calls bench sound
  have settled := steady bench.session sound.standing
  unfold onSession
  generalize computation bench.session = result at settled ⊢
  cases settled with
  | value standing known =>
      exact .value ⟨sound.world.of_same rfl rfl rfl, standing, sound.countable⟩ known
  | refused standing =>
      exact .refused ⟨sound.world.of_same rfl rfl rfl, standing, sound.countable⟩

theorem steady_onMeasure
    {measure : Measure}
    {computation : Fallible AccessError Measure α}
    (steady : Steady (fun _ => True) yields computation) :
    Steady (Sound calls) yields (onMeasure measure computation) := by
  intro bench sound
  have settled := steady measure trivial
  unfold onMeasure
  generalize computation measure = result at settled ⊢
  cases settled with
  | value _ known => exact .value sound known
  | refused _ => exact .refused sound

theorem steady_block (name : Nat) :
    Steady (Sound calls) (fun _ => True) (block name) :=
  steady_get.map _

theorem steady_nameBlock (name : Nat) (block : Block) :
    Steady (Sound calls) (fun _ => True) (nameBlock name block) :=
  steady_modify fun _ sound => ⟨sound.world, sound.standing, sound.countable⟩

theorem steady_bitSet (name : Nat) :
    Steady (Sound calls) BitSet.Countable (bitSet name) :=
  steady_get.bind fun _ sound => steady_pure (sound.countable name)

theorem steady_nameBitSet
    {set : BitSet}
    (countable : set.Countable)
    (name : Nat) :
    Steady (Sound calls) (fun _ => True) (nameBitSet name set) := by
  refine steady_modify fun bench sound => ⟨sound.world, sound.standing, fun other => ?_⟩
  show ((bench.sets.set name set).get other).Countable
  rw [Table.get_set]
  split
  · exact countable
  · exact sound.countable other

theorem steady_filter (name : Nat) :
    Steady (Sound calls) (fun _ => True) (filter name) :=
  steady_get.map _

theorem steady_nameFilter (name : Nat) (filter : Bloom) :
    Steady (Sound calls) (fun _ => True) (nameFilter name filter) :=
  steady_modify fun _ sound => ⟨sound.world, sound.standing, sound.countable⟩

end Lifting

/-- No command overflows, and each leads from a sound workbench to one that is sound after
the calls that it made. -/
theorem Command.leads
    {command : Command}
    (sized : command.Sized) :
    Leads Sound command.calls (fun _ => True) command.perform := by
  cases command with
  | call tower request =>
      exact (leads_onHeap (tower.leads_call request)).then_steady fun _ _ _ => steady_pure trivial
  | release tower =>
      exact leads_onHeap (leads_of_steady fun _ => tower.stack.steady_release)
  | reset tower =>
      exact leads_onHeap (leads_of_steady fun _ => tower.stack.steady_reset)
  | totals layer =>
      refine Leads.then_steady (leads_onHeap (leads_of_steady fun _ =>
        Registered.steady_totals layer)) fun totals bounded _ => ?_
      have isWord := Nat.lt_of_le_of_lt bounded totals.2.toNat_lt
      exact (steady_exactly (if_pos isWord)).bind fun _ _ => steady_pure trivial
  | overwrite address value =>
      have writes : Steady (fun _ => True) (fun _ => True)
          (modify fun memory => memory.set address value : MemoryM Unit) :=
        steady_modify fun _ _ => trivial
      exact leads_onMemory writes
  | limit count =>
      exact leads_onHeap (leads_of_steady fun _ =>
        steady_modify fun _ sound => sound.of_credit (some count))
  | recover =>
      exact leads_onHeap (leads_of_steady fun _ =>
        steady_modify fun _ sound => sound.of_credit none)
  | adopt name root => exact leads_of_steady fun _ => steady_nameBlock name _
  | make maker name size =>
      exact (leads_onHeap (maker.leads_allocate size)).then_steady
        fun _ _ _ => steady_nameBlock name _
  | move maker name newSize =>
      refine Leads.after_steady (fun _ => steady_block name) fun block _ => ?_
      exact (leads_onHeap (maker.leads_reallocate block.root newSize)).then_steady
        fun _ _ _ => steady_nameBlock name _
  | giveBack maker name =>
      exact .after_steady (fun _ => steady_block name)
        fun block _ => leads_onHeap (maker.leads_free block.root)
  | releaseMaker maker =>
      exact leads_onHeap (leads_of_steady fun _ => maker.steady_release)
  | session command =>
      obtain ⟨sum, isWord⟩ := Session.Command.Sized.exists_sum sized
      refine Leads.after_steady (fun _ => steady_exactly isWord) fun _ _ => ?_
      exact (leads_onSession (Session.Command.steady sized)).then_steady
        fun _ _ _ => steady_pure trivial
  | unitAt name index =>
      refine Leads.after_steady (fun _ => steady_block name) fun block _ => ?_
      exact (leads_onMemory (CharView.steady_unitAt index)).then_steady
        fun _ _ _ => steady_pure trivial
  | subView name outer first last =>
      refine Leads.after_steady (fun _ => steady_block outer) fun block _ => ?_
      exact (leads_onMemory (CharView.steady_subView first last)).then_steady
        fun _ _ _ => steady_nameBlock name _
  | text name =>
      refine Leads.after_steady (fun _ => steady_block name) fun block _ => ?_
      exact (leads_onMemory CharView.steady_text).then_steady fun _ _ _ => steady_pure trivial
  | measure before datum =>
      obtain ⟨sum, isWord⟩ := Datum.Sized.exists_sum sized
      exact leads_of_steady fun _ => (steady_exactly isWord).bind fun _ _ =>
        steady_onMeasure (Measure.steady_write sized)
  | makeSet maker name size =>
      exact (leads_onHeap (BitSet.leads_create maker size)).then_steady
        fun _ countable _ => steady_nameBitSet countable name
  | askSet name request =>
      refine Leads.after_steady (fun _ => steady_bitSet name) fun set countable => ?_
      have asks := BitSet.Request.steady countable request
      refine (leads_onMemory asks).then_steady fun answer counted _ => ?_
      obtain ⟨sum, isWord⟩ := counted
      exact (steady_exactly isWord).bind fun _ _ => steady_pure trivial
  | closeSet maker name =>
      exact .after_steady (fun _ => steady_bitSet name)
        fun set _ => leads_onHeap (BitSet.leads_close maker set)
  | makeFilter maker name bits hashes =>
      exact (leads_onHeap (Bloom.leads_create maker bits hashes)).then_steady
        fun _ _ _ => steady_nameFilter name _
  | askFilter name request =>
      exact .after_steady (fun _ => steady_filter name)
        fun _ _ => leads_onMemory (Bloom.Request.steady request)
  | closeFilter maker name =>
      exact .after_steady (fun _ => steady_filter name)
        fun filter _ => leads_onHeap (Bloom.leads_close maker filter)
  | churn tower sizes =>
      exact (leads_onHeap (Workload.leads_churn tower sizes)).then_steady
        fun _ _ _ => steady_pure trivial
  | churnBlocks maker sizes =>
      exact (leads_onHeap (Workload.leads_churnBlocks maker sizes)).then_steady
        fun _ _ _ => steady_pure trivial

/-- A run goes on to its end, whatever is refused on the way. -/
theorem Sound.performAll
    {calls : Nat}
    {bench : Workbench}
    {commands : List Command}
    (sound : bench.Sound calls)
    (sized : ∀ command ∈ commands, command.Sized) :
    ∃ after, Workbench.performAll commands bench = .ok () after ∧
      after.Sound (calls + Word.total (commands.map Command.calls)) := by
  induction commands generalizing calls bench with
  | nil => exact ⟨bench, rfl, sound⟩
  | cons command commands inductionHypothesis =>
      have settled := Command.leads (sized command (.head _)) calls bench sound
      obtain ⟨result, middle, attempted, soundMiddle, _⟩ := settled.attempt
      obtain ⟨after, performed, soundAfter⟩ :=
        inductionHypothesis soundMiddle fun other present => sized other (.tail _ present)
      refine ⟨after, ?_, ?_⟩
      · rw [Workbench.performAll, Fallible.bind_of_ok attempted]
        exact performed
      · rw [List.map_cons, Word.total_cons, ← Nat.add_assoc]
        exact soundAfter

/-- Whatever is summed up at a workbench is a word, as are the counts of blocks and regions, and no
live region ends behind the address space. Invalid frees and the calls of counted layers are
counted by natural numbers. They are no larger than the number of calls that were made, so they
are words in every run of fewer calls than there are words. Cursors stand in their blocks, and the
bits of sets can be counted. -/
structure Exact (calls : Nat) (bench : Workbench) : Prop where
  bytes : ∀ layer, ∃ bytes, (bench.world.registries.get layer).bytes? = some bytes
  blocks : ∀ layer, (bench.world.registries.get layer).blocks < 0x10000000000000000
  regions : ∀ address size, bench.world.arena.sizeAt? address = some size →
    (⟨address, size⟩ : Extent).stop ≤ 0x10000000000000000
  allocations : bench.world.arena.allocations < 0x10000000000000000
  frees : bench.world.arena.frees < 0x10000000000000000
  invalidFrees : bench.world.arena.invalidFrees ≤ calls
  callCounts : ∀ layer, (bench.world.callCounts.get layer).calls ≤ calls
  cursors : ∀ name, (bench.cursors.get name).offset ≤ (bench.cursors.get name).block.size
  sets : ∀ name, (bench.sets.get name).Countable

theorem Sound.exact
    {calls : Nat}
    {bench : Workbench}
    (sound : bench.Sound calls) :
    bench.Exact calls := by
  have sums layer :=
    (sound.world.backed.registries layer).exists_bytes bench.world.arena.next.toNat_lt
  have balanced := sound.world.backed.arena
  have allocations := Nat.lt_of_le_of_lt balanced.allocations bench.world.arena.next.toNat_lt
  refine ⟨?bytes, ?blocks, ?regions, allocations, ?frees, sound.world.invalidFrees,
    sound.world.callCounts, ?cursors, sound.countable⟩
  case bytes =>
    intro layer
    obtain ⟨bytes, sum, _⟩ := sums layer
    exact ⟨bytes, sum⟩
  case blocks =>
    intro layer
    obtain ⟨bytes, _, bounded⟩ := sums layer
    exact Nat.lt_of_le_of_lt bounded bytes.toNat_lt
  case regions =>
    intro address size live
    exact Nat.le_trans (balanced.regions address size live).2 balanced.bounded
  case frees =>
    have frees := balanced.frees
    exact Nat.lt_of_le_of_lt (Nat.le_of_add_right_le frees) allocations
  case cursors =>
    intro name
    exact UInt64.le_iff_toNat_le.mpr (sound.standing name).offset_le

/-- No run overflows. Whatever commands are given over towers on a new arena, in memory of any
contents, each of them ends with a value or with a refusal, and everything that is counted
stays within the words. -/
theorem performAll_never_overflows
    {base : Address}
    {capacity : UInt64}
    {arena : Arena}
    (created : Arena.create? base capacity = some arena)
    (bounded : arena.range.stop ≤ 0x10000000000000000)
    (memory : Memory)
    {commands : List Command}
    (sized : ∀ command ∈ commands, command.Sized) :
    ∃ after, performAll commands (start arena memory) = .ok () after ∧
      after.Exact (Word.total (commands.map Command.calls)) := by
  obtain ⟨after, performed, sound⟩ := (sound_start created bounded memory).performAll sized
  rw [Nat.zero_add] at sound
  exact ⟨after, performed, sound.exact⟩

/-- A size next to the largest word, guard words that are written over, a layer that forgets a
live block which is then given back, and a churn: at most nine calls, and no overflow. -/
theorem performAll_never_overflows_of_misuse :
    let tower : Tower := ⟨.counted 2 (.instrumented 0 1 .arena), rfl, by decide⟩
    let maker : Maker := ⟨tower, .testing, 1⟩
    let commands : List Command :=
      [.call tower (.allocate 0xFFFFFFFFFFFFFFF0), .make maker 0 64, .overwrite ⟨4096⟩ 0,
        .session (.openCursor 0 0), .session (.access 0 (.write (.counted ['a']))),
        .subView 1 0 0 0xFFFFFFFFFFFFFFFF, .reset tower, .giveBack maker 0,
        .makeSet maker 0 100, .askSet 0 .count, .churn tower [16, 32]]
    ∃ after, performAll commands (start { base := ⟨4096⟩, capacity := 1024 } .zero) =
        .ok () after ∧
      after.Exact 9 := by
  intro tower maker commands
  have created : Arena.create? ⟨4096⟩ 1024 = some { base := ⟨4096⟩, capacity := 1024 } := rfl
  have sized : ∀ command ∈ commands, command.Sized := by
    have held : Text.heldLength ['a'] ≤ 0x7FFFFFFFFFFFFFFF := by decide
    simp [commands, Command.Sized, Session.Command.Sized, Datum.Sized, held]
  exact performAll_never_overflows created (by decide) .zero sized

end Workbench
end GuardedHeap
