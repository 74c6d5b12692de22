import GuardedHeap.World
import GuardedHeap.Proofs.Memory.Range

/-!
# Confined computations

A computation on memory is confined to two regions if it depends on the bytes of
the first one alone and changes none outside the second one. A confined
computation that fails changes nothing. Checks, changes of memory and looks at
memory are confined under the conditions given here, and what is put together
from them is.
-/

namespace GuardedHeap

namespace Fallible

variable {ε σ α : Type}

/-- The value or the failure with which a computation ends. -/
def answer (computation : Fallible ε σ α) (state : σ) : Except (Failure ε) α :=
  match computation state with
  | .ok value _ => .ok value
  | .error failure _ => .error failure

/-- A computation that is answered ends in some state. -/
theorem ok_of_answer
    {computation : Fallible ε σ α}
    {state : σ}
    {value : α}
    (answered : answer computation state = .ok value) :
    ∃ after, computation state = .ok value after := by
  unfold answer at answered
  cases ended : computation state with
  | ok _ after =>
      rw [ended] at answered
      cases answered
      exact ⟨after, rfl⟩
  | error failure after =>
      rw [ended] at answered
      cases answered

/-- The state in which a computation ends. -/
def final (computation : Fallible ε σ α) (state : σ) : σ :=
  match computation state with
  | .ok _ after => after
  | .error _ after => after

theorem final_of_ok
    {computation : Fallible ε σ α}
    {before after : σ}
    {value : α}
    (succeeds : computation before = .ok value after) :
    final computation before = after := by
  rw [final, succeeds]

theorem final_of_error
    {computation : Fallible ε σ α}
    {before after : σ}
    {failure : Failure ε}
    (fails : computation before = .error failure after) :
    final computation before = after := by
  rw [final, fails]

/-- A computation that only changes its value ends where it did. -/
theorem final_bind_pure
    {β : Type}
    (computation : Fallible ε σ α)
    (change : α → β)
    (state : σ) :
    final (do pure (change (← computation))) state = final computation state := by
  unfold final
  cases ended : computation state with
  | ok value after =>
      rw [bind_of_ok ended]
      rfl
  | error failure after => rw [bind_of_error ended]

theorem answer_bind_pure
    {β : Type}
    (computation : Fallible ε σ α)
    (change : α → β)
    (state : σ) :
    answer (do pure (change (← computation))) state =
      (answer computation state).map change := by
  unfold answer
  cases ended : computation state with
  | ok value after =>
      rw [bind_of_ok ended]
      rfl
  | error failure after =>
      rw [bind_of_error ended]
      rfl

/-- A computation ends where its first part does, or where the rest does from there. -/
theorem final_bind
    {β : Type}
    (computation : Fallible ε σ α)
    (next : α → Fallible ε σ β)
    (state : σ) :
    final (computation >>= next) state = final computation state ∨
      ∃ value, final (computation >>= next) state =
        final (next value) (final computation state) := by
  unfold final
  cases ended : computation state with
  | ok value middle =>
      rw [bind_of_ok ended]
      exact Or.inr ⟨value, rfl⟩
  | error failure after =>
      rw [bind_of_error ended]
      exact Or.inl rfl

end Fallible

namespace MemoryM

open Fallible (answer final)

variable {α β : Type}

/-- Two memories hold the same bytes at some addresses. -/
def AgreeOn (region : Address → Prop) (left right : Memory) : Prop :=
  ∀ address, region address → left.get address = right.get address

/-- A computation that depends on the bytes of one region alone, changes none
outside another one, and changes none at all when it fails. -/
structure Confined (reads writes : Address → Prop) (computation : MemoryM α) : Prop where
  outside : ∀ memory address, ¬ writes address →
    (final computation memory).get address = memory.get address
  answers : ∀ left right, AgreeOn reads left right →
    answer computation left = answer computation right
  agrees : ∀ left right, AgreeOn reads left right →
    AgreeOn reads (final computation left) (final computation right)
  failed : ∀ memory failure, answer computation memory = .error failure →
    final computation memory = memory

variable {reads writes : Address → Prop}

/-- A computation that only looks at memory is confined if what it sees is. -/
theorem Confined.of_look
    {computation : MemoryM α}
    (keeps : ∀ memory, final computation memory = memory)
    (answers : ∀ left right, AgreeOn reads left right →
      answer computation left = answer computation right) :
    Confined reads writes computation where
  outside memory _ _ := by rw [keeps]
  answers := answers
  agrees left right agree := by rwa [keeps, keeps]
  failed memory _ _ := keeps memory

/-- What is confined is so to larger regions too, if it reads back what it writes. -/
theorem Confined.mono
    {computation : MemoryM α}
    {moreReads moreWrites : Address → Prop}
    (confined : Confined reads writes computation)
    (readBack : ∀ address, writes address → reads address)
    (readable : ∀ address, reads address → moreReads address)
    (writable : ∀ address, writes address → moreWrites address) :
    Confined moreReads moreWrites computation where
  outside memory address far :=
    confined.outside memory address fun written => far (writable address written)
  answers left right agree :=
    confined.answers left right fun address read => agree address (readable address read)
  agrees left right agree address inMore := by
    by_cases read : reads address
    · exact confined.agrees left right (fun other inReads => agree other (readable other inReads))
        address read
    · have notWritten : ¬ writes address := fun written => read (readBack address written)
      rw [confined.outside left address notWritten, confined.outside right address notWritten]
      exact agree address inMore
  failed := confined.failed

theorem confined_pure (value : α) :
    Confined reads writes (pure value : MemoryM α) :=
  .of_look (fun _ => rfl) fun _ _ _ => rfl

/-- A check of memory is confined if it sees only the bytes of a region. -/
theorem confined_query
    {look : Memory → Except HeapError α}
    (same : ∀ left right, AgreeOn reads left right → look left = look right) :
    Confined reads writes (Fallible.query look) := by
  refine .of_look (fun memory => ?_) fun left right agree => ?_
  · unfold final Fallible.query
    cases look memory with
    | ok value => rfl
    | error error => rfl
  · unfold answer Fallible.query
    rw [same left right agree]
    cases look right with
    | ok value => rfl
    | error error => rfl

/-- A computation that succeeds by changing memory byte by byte. -/
theorem confined_modify
    {change : Memory → Memory}
    (outside : ∀ memory address, ¬ writes address →
      (change memory).get address = memory.get address)
    (agrees : ∀ left right, AgreeOn reads left right →
      AgreeOn reads (change left) (change right)) :
    Confined reads writes (modify change : MemoryM Unit) where
  outside := outside
  answers _ _ _ := rfl
  agrees := agrees
  failed _ _ fails := by cases fails

/-- Writing is confined to the range that is written. -/
theorem confined_write
    {start : Address}
    {bytes : List UInt8}
    (target : ∀ address, (address.offsetFrom start).toNat < bytes.length → writes address) :
    Confined reads writes (modify fun memory => memory.write start bytes : MemoryM Unit) := by
  refine confined_modify (fun memory address notWritten => ?_) fun left right agree => ?_
  · apply Memory.get_write_of_far
    exact Nat.le_of_not_lt fun near => notWritten (target address near)
  · intro address read
    exact Memory.get_write_congr (agree address read) start bytes

theorem confined_fill
    {start : Address}
    {count : Nat}
    (value : UInt8)
    (target : ∀ address, (address.offsetFrom start).toNat < count → writes address) :
    Confined reads writes (modify fun memory => memory.fill start count value : MemoryM Unit) := by
  refine confined_modify (fun memory address notWritten => ?_) fun left right agree => ?_
  · apply Memory.get_fill_of_far
    exact Nat.le_of_not_lt fun near => notWritten (target address near)
  · intro address read
    exact Memory.get_fill_congr (agree address read) start count value

/-- Copying reads one range and is confined to another one. -/
theorem confined_copy
    {origin destination : Address}
    {count : Nat}
    (short : count ≤ 0x10000000000000000)
    (source : ∀ address, (address.offsetFrom origin).toNat < count → reads address)
    (target : ∀ address, (address.offsetFrom destination).toNat < count → writes address) :
    Confined reads writes
      (modify fun memory => memory.copy origin destination count : MemoryM Unit) := by
  refine confined_modify (fun memory address notWritten => ?_) fun left right agree => ?_
  · apply Memory.get_copy_of_far
    exact Nat.le_of_not_lt fun near => notWritten (target address near)
  · intro address read
    have sameBytes : left.read origin count = right.read origin count :=
      Memory.read_eq_of_near short fun address near => agree address (source address near)
    simp only [Memory.copy, sameBytes]
    exact Memory.get_write_congr (agree address read) destination _

/-- What follows a check is confined if it is so whenever the check passes. -/
theorem confined_check
    {check : Except HeapError β}
    {next : β → MemoryM α}
    (passed : ∀ value, check = .ok value → Confined reads writes (next value)) :
    Confined reads writes (Fallible.ofCheck check >>= next) := by
  cases check with
  | ok value => exact passed value rfl
  | error error => exact .of_look (fun _ => rfl) fun _ _ _ => rfl

/-- What follows an exact word operation is confined if it is so whenever there
is a result. -/
theorem confined_exactly
    {result? : Option β}
    {next : β → MemoryM α}
    (given : ∀ value, result? = some value → Confined reads writes (next value)) :
    Confined reads writes (Fallible.exactly result? >>= next) := by
  cases result? with
  | some value => exact given value rfl
  | none => exact .of_look (fun _ => rfl) fun _ _ _ => rfl

/-- Changing the value with which a computation ends keeps it confined. -/
theorem Confined.bind_pure
    {computation : MemoryM α}
    (confined : Confined reads writes computation)
    (change : α → β) :
    Confined reads writes (do pure (change (← computation))) := by
  have ends : ∀ memory,
      answer (do pure (change (← computation))) memory =
          (answer computation memory).map change ∧
        final (do pure (change (← computation))) memory = final computation memory := by
    intro memory
    unfold answer final
    cases result : computation memory with
    | ok value after =>
        rw [Fallible.bind_of_ok result]
        exact ⟨rfl, rfl⟩
    | error failure after =>
        rw [Fallible.bind_of_error result]
        exact ⟨rfl, rfl⟩
  refine ⟨fun memory address far => ?_, fun left right agree => ?_,
    fun left right agree => ?_, fun memory failure fails => ?_⟩
  · rw [(ends memory).2]
    exact confined.outside memory address far
  · rw [(ends left).1, (ends right).1, confined.answers left right agree]
  · rw [(ends left).2, (ends right).2]
    exact confined.agrees left right agree
  · rw [(ends memory).1] at fails
    rw [(ends memory).2]
    cases below : answer computation memory with
    | ok value =>
        rw [below] at fails
        cases fails
    | error failure => exact confined.failed memory failure below

end MemoryM
end GuardedHeap
