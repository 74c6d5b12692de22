import GuardedHeap.Proofs.Arena.Regions

/-!
# Histories of an arena

A history of an arena is made of calls and their answers, and of whatever else can happen to it:
it is told to fail and recovers, and its regions are written to. All along, the live regions
stay in order and each region starts behind all that were handed out before, so none is handed
out again. A region that was handed out is live, was ended or was moved.

Which regions are live is also known from the calls and their answers alone, by `liveAfter`. The
table of an arena says the same, and its counts of frees are those of the calls that named a live
region and of those that did not.

`Arena.History.regions_in_order` says so of all histories of a new arena.
-/

namespace GuardedHeap
namespace Arena

variable {arena : Arena}
variable {size next : UInt64}

/-- A call that is there to move a region. -/
def moves : Allocator.Call → Bool
  | .reallocate .. => true
  | _ => false

/-- The addresses that were handed out, the latest first. -/
def returned (answers : List (Allocator.Call × Option Address)) : List Address :=
  answers.filterMap Prod.snd

/-- How many regions were moved. -/
def moved (answers : List (Allocator.Call × Option Address)) : Nat :=
  answers.countP fun answer => moves answer.1 && answer.2.isSome

theorem moved_cons_of_moved
    (address newAddress : Address)
    (newSize : UInt64)
    (answers : List (Allocator.Call × Option Address)) :
    moved ((.reallocate address newSize, some newAddress) :: answers) = moved answers + 1 := by
  simp [moved, moves]

/-- The sizes of the regions that are live after a call and its answer, by those before. A region
is live where it was handed out, and none is where one was moved from or ended. -/
def settled
    (live : Address → Option UInt64) :
    Allocator.Call × Option Address → Address → Option UInt64
  | (.allocate size, some granted), address => if address = granted then some size else live address
  | (.reallocate old newSize, some moved), address =>
      if address = old then none else if address = moved then some newSize else live address
  | (.free ended, _), address => if address = ended then none else live address
  | (_, none), address => live address

/-- The sizes of the regions that are live after calls and their answers, the latest first. -/
def liveAfter : List (Allocator.Call × Option Address) → Address → Option UInt64
  | [] => fun _ => none
  | answer :: earlier => settled (liveAfter earlier) answer

/-- How many calls were there to end a region that was live, or one that was not. -/
def freesOf (live : Bool) : List (Allocator.Call × Option Address) → Nat
  | [] => 0
  | (.free address, _) :: earlier =>
      freesOf live earlier + if (liveAfter earlier address).isSome = live then 1 else 0
  | _ :: earlier => freesOf live earlier

/-- What was handed out and is no longer live is never live again. -/
def EndsForGood (answers : List (Allocator.Call × Option Address)) : Prop :=
  ∀ later earlier, answers = later ++ earlier → ∀ address ∈ returned earlier,
    liveAfter earlier address = none → liveAfter answers address = none

/-- A call does not make live what was not, unless that is handed out. -/
theorem settled_of_gone
    {live : Address → Option UInt64}
    {answer : Allocator.Call × Option Address}
    {address : Address}
    (kept : answer.2 ≠ some address)
    (gone : live address = none) :
    settled live answer address = none := by
  obtain ⟨call, answered⟩ := answer
  cases call with
  | free ended =>
      show (if address = ended then none else live address) = none
      rw [gone, ite_self]
  | allocate size =>
      cases answered with
      | none => exact gone
      | some granted =>
          have differs : address ≠ granted := fun same => kept (congrArg some same.symm)
          exact (if_neg differs).trans gone
  | reallocate old newSize =>
      cases answered with
      | none => exact gone
      | some moved =>
          have differs : address ≠ moved := fun same => kept (congrArg some same.symm)
          show (if address = old then none else if address = moved then _ else _) = none
          rw [if_neg differs, gone, ite_self]

/-- As addresses rise, none is handed out twice. -/
theorem endsForGood_of_rising
    {answers : List (Allocator.Call × Option Address)}
    (rising : (returned answers).Pairwise fun later earlier =>
      earlier.value.toNat < later.value.toNat) :
    EndsForGood answers := by
  rintro later earlier rfl address present gone
  induction later with
  | nil => exact gone
  | cons answer later inductionHypothesis =>
      have before : (returned (later ++ earlier)).Sublist
          (returned (answer :: (later ++ earlier))) :=
        (List.sublist_cons_self _ _).filterMap _
      have handed : address ∈ returned (later ++ earlier) := by
        rw [returned, List.filterMap_append]
        exact List.mem_append_right _ present
      refine settled_of_gone (fun again => ?_) (inductionHypothesis (rising.sublist before))
      rw [List.cons_append, returned, List.filterMap_cons_some again] at rising
      exact Nat.lt_irrefl _ ((List.pairwise_cons.mp rising).1 address handed)

/-- The calls of an arena and their answers, the latest first, and what they lead to. Between
them, the arena may be told to fail or to recover, and anything may be written into memory. -/
inductive History (first : Arena) :
    List (Allocator.Call × Option Address) → Arena → Memory → Prop
  | start (memory : Memory) : History first [] first memory
  | called
      {answers : List (Allocator.Call × Option Address)}
      {arena : Arena}
      {memory : Memory}
      {call : Allocator.Call}
      (earlier : History first answers arena memory)
      (sized : call.Sized) :
      History first ((call, (arena.perform memory call).1) :: answers)
        (arena.perform memory call).2.1 (arena.perform memory call).2.2
  | limited
      {answers : List (Allocator.Call × Option Address)}
      {arena : Arena}
      {memory : Memory}
      (earlier : History first answers arena memory)
      (count : Nat) :
      History first answers (arena.failAfter count) memory
  | recovered
      {answers : List (Allocator.Call × Option Address)}
      {arena : Arena}
      {memory : Memory}
      (earlier : History first answers arena memory) :
      History first answers arena.recover memory
  | wrote
      {answers : List (Allocator.Call × Option Address)}
      {arena : Arena}
      {memory : Memory}
      (earlier : History first answers arena memory)
      (written : Memory) :
      History first answers arena written

/-- The addresses that an arena handed out rise, and all lie before the next region. Every
region that it handed out is live, was ended, or was moved. -/
structure Accounted
    (arena : Arena)
    (answers : List (Allocator.Call × Option Address)) : Prop where
  rising : (returned answers).Pairwise fun later earlier =>
    earlier.value.toNat < later.value.toNat
  behind : ∀ address ∈ returned answers,
    address.value.toNat < arena.base.value.toNat + arena.next.toNat
  handed : (returned answers).length = arena.allocations
  counted : arena.live.size + arena.frees + moved answers = arena.allocations

namespace Accounted

variable {answers : List (Allocator.Call × Option Address)}

theorem create
    {base : Address}
    {capacity : UInt64}
    (created : create? base capacity = some arena) :
    arena.Accounted [] := by
  obtain ⟨rfl, -⟩ := eq_of_create? created
  exact ⟨List.Pairwise.nil, by simp [returned], rfl, by simp [moved]⟩

/-- A call without an answer hands out nothing, whatever becomes of credit and invalid frees. -/
theorem unanswered
    (accounted : arena.Accounted answers)
    (call : Allocator.Call)
    (invalidFrees : Nat)
    (credit : Option Nat) :
    Accounted { arena with invalidFrees, credit } ((call, none) :: answers) where
  rising := accounted.rising
  behind := accounted.behind
  handed := accounted.handed
  counted := by
    simp only [moved, List.countP_cons, Option.isSome_none, Bool.and_false]
    exact accounted.counted

theorem with_credit
    (accounted : arena.Accounted answers)
    (credit : Option Nat) :
    Accounted { arena with credit } answers :=
  ⟨accounted.rising, accounted.behind, accounted.handed, accounted.counted⟩

/-- The next region starts behind all that were handed out. -/
theorem handOut
    (accounted : arena.Accounted answers)
    (inOrder : arena.InOrder)
    (nonempty : size ≠ 0)
    (room : arena.nextAfter? size = some next)
    (call : Allocator.Call) :
    ((returned ((call, some (arena.addressOf arena.next)) :: answers)).Pairwise
        fun later earlier => earlier.value.toNat < later.value.toNat) ∧
      ∀ address ∈ returned ((call, some (arena.addressOf arena.next)) :: answers),
        address.value.toNat < arena.base.value.toNat + next.toNat := by
  obtain ⟨start, -, -, behind⟩ := inOrder.next_region nonempty room
  have positive := Word.toNat_pos nonempty
  simp only [Extent.start] at start
  refine ⟨List.pairwise_cons.mpr ⟨fun earlier present => ?_, accounted.rising⟩,
    List.forall_mem_cons.mpr ⟨?_, fun earlier present => ?_⟩⟩
  · have := accounted.behind earlier present
    omega
  · omega
  · have := accounted.behind earlier present
    omega

theorem perform
    (accounted : arena.Accounted answers)
    (inOrder : arena.InOrder)
    (memory : Memory)
    {call : Allocator.Call}
    (sized : call.Sized) :
    (arena.perform memory call).2.1.Accounted
      ((call, (arena.perform memory call).1) :: answers) := by
  have counted := accounted.counted
  have outcome := perform_outcome arena memory call
  generalize arena.perform memory call = result at outcome
  cases outcome with
  | refused credit asks => exact accounted.unanswered call _ credit
  | @granted size next credit room =>
      obtain ⟨rising, behind⟩ := accounted.handOut inOrder sized room (.allocate size)
      refine ⟨rising, behind, congrArg (· + 1) accounted.handed, ?_⟩
      have grows := size_insert_of_fresh inOrder.next_fresh size
      show (arena.live.insert arena.next size).size + arena.frees + moved answers =
        arena.allocations + 1
      omega
  | @moved address size newSize next credit live room =>
      obtain ⟨rising, behind⟩ := accounted.handOut inOrder sized room (.reallocate address newSize)
      refine ⟨rising, behind, congrArg (· + 1) accounted.handed, ?_⟩
      have grows := size_insert_of_fresh inOrder.next_fresh newSize
      have present : (arena.live.insert arena.next newSize)[arena.offsetOf address]? =
          some size := by
        rw [getElem?_insert, if_neg (inOrder.offsetOf_ne_next live)]
        exact live
      have shrinks := size_erase_of_live present
      rw [moved_cons_of_moved]
      show ((arena.live.insert arena.next newSize).erase (arena.offsetOf address)).size +
        arena.frees + (moved answers + 1) = arena.allocations + 1
      omega
  | @ended address size live =>
      refine ⟨accounted.rising, accounted.behind, accounted.handed, ?_⟩
      have shrinks := size_erase_of_live live
      show (arena.live.erase (arena.offsetOf address)).size + (arena.frees + 1) +
        moved answers = arena.allocations
      omega
  | stray dead => exact accounted.unanswered _ _ arena.credit

end Accounted

/-- An arena has live what its calls and answers leave live, and counts the calls that ended a
region and those that found none. -/
structure Recounted
    (arena : Arena)
    (answers : List (Allocator.Call × Option Address)) : Prop where
  live : ∀ address, arena.sizeAt? address = liveAfter answers address
  frees : arena.frees = freesOf true answers
  invalidFrees : arena.invalidFrees = freesOf false answers

namespace Recounted

variable {answers : List (Allocator.Call × Option Address)}

theorem create
    {base : Address}
    {capacity : UInt64}
    (created : create? base capacity = some arena) :
    arena.Recounted [] := by
  obtain ⟨rfl, -⟩ := eq_of_create? created
  exact ⟨fun address => by simp [sizeAt?, liveAfter], rfl, rfl⟩

theorem with_credit
    (recounted : arena.Recounted answers)
    (credit : Option Nat) :
    Recounted { arena with credit } answers :=
  ⟨recounted.live, recounted.frees, recounted.invalidFrees⟩

theorem perform
    (recounted : arena.Recounted answers)
    (memory : Memory)
    (call : Allocator.Call) :
    (arena.perform memory call).2.1.Recounted
      ((call, (arena.perform memory call).1) :: answers) := by
  obtain ⟨live, frees, invalidFrees⟩ := recounted
  have outcome := perform_outcome arena memory call
  generalize arena.perform memory call = result at outcome
  cases outcome with
  | refused credit asks =>
      cases call with
      | free address => exact absurd rfl (asks address)
      | allocate | reallocate => exact ⟨live, frees, invalidFrees⟩
  | @granted size next credit room =>
      refine ⟨fun address => ?_, frees, invalidFrees⟩
      rw [liveAfter, settled, ← live]
      exact sizeAt?_insert arena arena.next size address
  | @moved old size newSize next credit found room =>
      refine ⟨fun address => ?_, frees, invalidFrees⟩
      have inserted := sizeAt?_insert arena arena.next newSize address
      have erased :=
        sizeAt?_erase { arena with live := arena.live.insert arena.next newSize } old address
      rw [liveAfter, settled, ← live]
      exact erased.trans (by rw [inserted])
  | @ended ended size found =>
      have known : liveAfter answers ended = some size := (live ended).symm.trans found
      refine ⟨fun address => ?_, ?_, ?_⟩
      · rw [liveAfter, settled, ← live]
        exact sizeAt?_erase arena ended address
      · simp [freesOf, known, frees]
      · simp [freesOf, known, invalidFrees]
  | @stray named dead =>
      have unknown : liveAfter answers named = none := (live named).symm.trans dead
      refine ⟨fun address => ?_, ?_, ?_⟩
      · show arena.sizeAt? address = if address = named then none else liveAfter answers address
        rw [live]
        split
        case isTrue same => rw [same, unknown]
        case isFalse => rfl
      · simp [freesOf, unknown, frees]
      · simp [freesOf, unknown, invalidFrees]

end Recounted

namespace History

variable {first : Arena}
variable {answers : List (Allocator.Call × Option Address)}
variable {memory : Memory}

/-- The regions stay in order, and the addresses, the counts and what is live are accounted for,
all along. -/
theorem kept
    (history : History first answers arena memory)
    (inOrder : first.InOrder)
    (accounted : first.Accounted [])
    (recounted : first.Recounted []) :
    arena.InOrder ∧ arena.Accounted answers ∧ arena.Recounted answers := by
  induction history with
  | start => exact ⟨inOrder, accounted, recounted⟩
  | called earlier sized inductionHypothesis =>
      obtain ⟨inOrder, accounted, recounted⟩ := inductionHypothesis
      exact ⟨inOrder.perform _ sized, accounted.perform inOrder _ sized, recounted.perform _ _⟩
  | limited earlier count inductionHypothesis =>
      obtain ⟨inOrder, accounted, recounted⟩ := inductionHypothesis
      exact ⟨inOrder.with_counts _ (some count), accounted.with_credit _, recounted.with_credit _⟩
  | recovered earlier inductionHypothesis =>
      obtain ⟨inOrder, accounted, recounted⟩ := inductionHypothesis
      exact ⟨inOrder.with_counts _ none, accounted.with_credit _, recounted.with_credit _⟩
  | wrote earlier written inductionHypothesis => exact inductionHypothesis

/-- Whatever becomes of a new arena from which regions of at least one byte are asked, its live
regions are in order, each address that it handed out is larger than those before, and all
regions that it handed out are live, were ended or were moved. Which of them are live, how many
were ended and how many calls ended none is what the calls and their answers tell, and none that
was ended or moved is ever live again. The next call changes no byte outside of the region that it
hands out, and counts an invalid free if it ends what is not live. -/
theorem regions_in_order
    {base : Address}
    {capacity : UInt64}
    (created : create? base capacity = some first)
    (bounded : first.range.stop ≤ 0x10000000000000000)
    (history : History first answers arena memory) :
    arena.InOrder ∧
      ((returned answers).Pairwise fun later earlier =>
        earlier.value.toNat < later.value.toNat) ∧
      (returned answers).length = arena.allocations ∧
      arena.live.size + arena.frees + moved answers = arena.allocations ∧
      arena.Recounted answers ∧
      EndsForGood answers ∧
      ∀ call : Allocator.Call, call.Sized →
        arena.Effect memory call (arena.perform memory call) ∧
          (arena.perform memory call).2.1.invalidFrees =
            arena.invalidFrees + arena.strays call := by
  obtain ⟨inOrder, accounted, recounted⟩ := history.kept (InOrder.create created bounded)
    (Accounted.create created) (Recounted.create created)
  exact ⟨inOrder, accounted.rising, accounted.handed, accounted.counted, recounted,
    endsForGood_of_rising accounted.rising, fun call sized =>
      ⟨inOrder.effect memory sized, invalidFrees_perform arena memory call⟩⟩

/-- In an arena of a hundred bytes, a region of twenty-four is written to, moved to one of forty,
which starts at the next multiple of the alignment and takes along what was written, and ended.
Nothing is live then, and ending the region where it was first is an invalid free. -/
theorem regions_in_order_of_moved_region :
    let first : Arena := { base := ⟨4096⟩, capacity := 100 }
    create? ⟨4096⟩ 100 = some first ∧
      first.range.stop ≤ 0x10000000000000000 ∧
      ∃ answers arena memory,
        History first answers arena memory ∧
          returned answers = [⟨4128⟩, ⟨4096⟩] ∧
          memory.get ⟨4132⟩ = 7 ∧
          arena.InOrder ∧
          arena.live.size + arena.frees + moved answers = arena.allocations ∧
          arena.frees = 1 ∧
          arena.sizeAt? ⟨4096⟩ = none ∧
          arena.sizeAt? ⟨4128⟩ = none ∧
          arena.Effect memory (.free ⟨4096⟩) (arena.perform memory (.free ⟨4096⟩)) ∧
          (arena.perform memory (.free ⟨4096⟩)).2.1.invalidFrees = 1 := by
  intro first
  have created : create? ⟨4096⟩ 100 = some first := rfl
  have bounded : first.range.stop ≤ 0x10000000000000000 := by decide
  have sized : Allocator.Call.Sized (.allocate 24) := (by decide : (24 : UInt64) ≠ 0)
  have sizedMove : Allocator.Call.Sized (.reallocate ⟨4096⟩ 40) := (by decide : (40 : UInt64) ≠ 0)
  have sizedEnd : Allocator.Call.Sized (.free ⟨4128⟩) := trivial
  have started : History first [] first .zero := .start .zero
  have granted := started.called sized
  have written := granted.wrote ((first.perform .zero (.allocate 24)).2.2.set ⟨4100⟩ 7)
  have history := (written.called sizedMove).called sizedEnd
  obtain ⟨inOrder, -, -, counted, recounted, -, calls⟩ := regions_in_order created bounded history
  obtain ⟨effect, invalid⟩ := calls (.free ⟨4096⟩) trivial
  exact ⟨created, bounded, _, _, _, history, by decide +kernel, by decide +kernel, inOrder, counted,
    recounted.frees.trans (by decide +kernel), (recounted.live _).trans (by decide +kernel),
    (recounted.live _).trans (by decide +kernel), effect, invalid.trans (by decide +kernel)⟩

end History

end Arena
end GuardedHeap
