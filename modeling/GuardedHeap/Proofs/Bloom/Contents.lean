import GuardedHeap.Proofs.BitSet.Reference

/-!
# What filters remember

The bits of a filter that are on are the positions of the words that were put since it was
last cleared. A word is therefore found exactly if each of its positions is one of those, and
what is found depends on the words alone, not on how often or in which order they were put.
-/

namespace GuardedHeap
namespace Bloom

open BitSet (Shows KeepsOutside)

variable {filter : Bloom}
variable {set : BitSet}
variable {memory : Memory}
variable {numbers words : Finset UInt64}

/-- Make requests one after the other. The first one that fails ends this. -/
def performAll (filter : Bloom) : List Request → MemoryM Unit
  | [] => pure ()
  | request :: requests => do
      request.run filter
      performAll filter requests

/-- The words that a filter knows after a request. -/
def Request.learn (words : Finset UInt64) : Request → Finset UInt64
  | .put word => insert word words
  | .contains _ => words
  | .clear => ∅

/-- The words that a filter knows after requests: those that were put since it was last
cleared. -/
def wordsAfter (requests : List Request) (words : Finset UInt64) : Finset UInt64 :=
  requests.foldl Request.learn words

/-- The positions of words. -/
def marks (filter : Bloom) (words : Finset UInt64) : Finset UInt64 :=
  words.biUnion fun word => (filter.positions word).toFinset

/-- Every position of a word is also one of known words. -/
def Covers (filter : Bloom) (words : Finset UInt64) (word : UInt64) : Prop :=
  ∀ position ∈ filter.positions word, ∃ known ∈ words, position ∈ filter.positions known

theorem mem_marks
    (position : UInt64) :
    position ∈ filter.marks words ↔ ∃ known ∈ words, position ∈ filter.positions known := by
  simp [marks]

theorem covers_iff (word : UInt64) :
    ((filter.positions word).all fun position => decide (position ∈ filter.marks words)) = true ↔
      filter.Covers words word := by
  simp only [List.all_eq_true, decide_eq_true_eq, mem_marks, Covers]

instance (words : Finset UInt64) (word : UInt64) : Decidable (filter.Covers words word) :=
  decidable_of_iff _ (covers_iff word)

@[simp] theorem marks_empty : filter.marks ∅ = ∅ := rfl

theorem marks_insert (word : UInt64) :
    filter.marks (insert word words) = (filter.positions word).toFinset ∪ filter.marks words :=
  Finset.biUnion_insert

/-- All positions are below the size, which is not zero. -/
theorem lt_of_mem_positions
    (nonempty : filter.bits.size ≠ 0)
    {word position : UInt64}
    (present : position ∈ filter.positions word) :
    position < filter.bits.size := by
  obtain ⟨step, _, rfl⟩ := List.mem_map.mp present
  apply UInt64.lt_iff_toNat_lt.mpr
  rw [UInt64.toNat_mod]
  exact Nat.mod_lt _ (Word.toNat_pos nonempty)

/-- A word has a position. -/
theorem positions_ne_nil
    (hashed : filter.hashes ≠ 0)
    (word : UInt64) :
    filter.positions word ≠ [] := by
  have : 0 < filter.hashes.toNat :=
    Nat.pos_of_ne_zero fun zero => hashed (UInt32.toNat_inj.mp zero)
  intro isEmpty
  have length := congrArg List.length isEmpty
  simp only [positions, positionsIn, List.length_map, List.length_range, List.length_nil]
    at length
  omega

/-- Turning positions on adds them to the numbers. -/
theorem insertAll_of_lt
    (packed : set.Packed)
    (shown : set.Shows memory numbers)
    {positions : List UInt64}
    (below : ∀ position ∈ positions, position < set.size) :
    ∃ after, insertAll set positions memory = .ok () after ∧
      set.Shows after (positions.toFinset ∪ numbers) ∧ set.KeepsOutside memory after := by
  induction positions generalizing memory numbers with
  | nil => exact ⟨memory, rfl, by simpa using shown, fun _ _ => rfl⟩
  | cons position positions inductionHypothesis =>
      obtain ⟨first, rest⟩ := List.forall_mem_cons.mp below
      have members : ∀ other, decide (other ∈ insert position numbers) =
          if other = position then decide (position ∈ numbers) || true
          else decide (other ∈ numbers) := by
        intro other
        by_cases same : other = position <;> simp [same]
      obtain ⟨middle, inserted, shownMiddle, keepsMiddle⟩ :=
        shown.update packed first Bits.bitwise_set members
      obtain ⟨after, ended, shownAfter, keeps⟩ := inductionHypothesis shownMiddle rest
      refine ⟨after, ?_, ?_, fun address far => ?_⟩
      · exact (Fallible.bind_of_ok inserted _).trans ended
      · rwa [List.toFinset_cons, Finset.insert_union, ← Finset.union_insert]
      · rw [keeps address far, keepsMiddle address far]

/-- Positions are all on if all of them are among the numbers. -/
theorem containsAll_of_lt
    (packed : set.Packed)
    (shown : set.Shows memory numbers)
    {positions : List UInt64}
    (below : ∀ position ∈ positions, position < set.size) :
    containsAll set positions memory =
      .ok (positions.all fun position => decide (position ∈ numbers)) memory := by
  induction positions with
  | nil => rfl
  | cons position positions inductionHypothesis =>
      obtain ⟨first, rest⟩ := List.forall_mem_cons.mp below
      have found := packed.contains first memory
      rw [shown.bits position (packed.spans first)] at found
      rw [containsAll, Fallible.bind_of_ok found]
      by_cases isIn : position ∈ numbers
      · rw [List.all_cons, decide_eq_true isIn, Bool.true_and]
        exact inductionHypothesis rest
      · rw [List.all_cons, decide_eq_false isIn, Bool.false_and]
        rfl

/-- A filter over a set of bits whose memory shows the positions of known words. -/
structure Knows (filter : Bloom) (memory : Memory) (words : Finset UInt64) : Prop where
  packed : filter.bits.Packed
  hashed : filter.hashes ≠ 0
  shown : filter.bits.Shows memory (filter.marks words)

namespace Knows

theorem below
    (knows : filter.Knows memory words)
    (word : UInt64) :
    ∀ position ∈ filter.positions word, position < filter.bits.size :=
  fun _ => lt_of_mem_positions fun isEmpty => by
    have positive := knows.packed.positive
    rw [isEmpty] at positive
    exact Nat.lt_irrefl 0 positive

/-- A filter finds the words whose positions are all known, and never fails to answer. -/
theorem contains
    (knows : filter.Knows memory words)
    (word : UInt64) :
    filter.contains word memory = .ok (decide (filter.Covers words word)) memory := by
  have same : decide (filter.Covers words word) =
      (filter.positions word).all fun position => decide (position ∈ filter.marks words) := by
    rw [Bool.eq_iff_iff, decide_eq_true_eq, covers_iff]
  rw [Bloom.contains, containsAll_of_lt knows.packed knows.shown (knows.below word), same]

/-- Every request succeeds and leaves the filter with the words that are known then. -/
theorem request
    (knows : filter.Knows memory words)
    (request : Request) :
    ∃ after, request.run filter memory = .ok () after ∧
      filter.Knows after (request.learn words) ∧ filter.bits.KeepsOutside memory after := by
  cases request with
  | put word =>
      obtain ⟨after, inserted, shown, keeps⟩ :=
        insertAll_of_lt knows.packed knows.shown (knows.below word)
      rw [← marks_insert] at shown
      exact ⟨after, inserted, ⟨knows.packed, knows.hashed, shown⟩, keeps⟩
  | contains word =>
      exact ⟨memory, Fallible.bind_of_ok (knows.contains word) _, knows, fun _ _ => rfl⟩
  | clear =>
      obtain ⟨after, cleared, shown, keeps⟩ := Shows.clear knows.packed memory
      exact ⟨after, cleared, ⟨knows.packed, knows.hashed, shown⟩, keeps⟩

theorem performAll
    (knows : filter.Knows memory words)
    (requests : List Request) :
    ∃ after, filter.performAll requests memory = .ok () after ∧
      filter.Knows after (wordsAfter requests words) ∧
      filter.bits.KeepsOutside memory after := by
  induction requests generalizing memory words with
  | nil => exact ⟨memory, rfl, knows, fun _ _ => rfl⟩
  | cons request requests inductionHypothesis =>
      obtain ⟨middle, performed, knowsMiddle, keepsMiddle⟩ := knows.request request
      obtain ⟨after, ended, knowsAfter, keeps⟩ := inductionHypothesis knowsMiddle
      refine ⟨after, (Fallible.bind_of_ok performed _).trans ended, knowsAfter,
        fun address far => ?_⟩
      rw [keeps address far, keepsMiddle address far]

/-- A known word is found. -/
theorem contains_of_mem
    (knows : filter.Knows memory words)
    {word : UInt64}
    (known : word ∈ words) :
    filter.contains word memory = .ok true memory := by
  have covers : filter.Covers words word := fun position present => ⟨word, known, present⟩
  rw [knows.contains, decide_eq_true covers]

/-- A filter that knows no word finds none. -/
theorem contains_of_empty
    (knows : filter.Knows memory ∅)
    (word : UInt64) :
    filter.contains word memory = .ok false memory := by
  obtain ⟨position, present⟩ := List.exists_mem_of_ne_nil _ (positions_ne_nil knows.hashed word)
  have uncovered : ¬ filter.Covers ∅ word := by
    intro covers
    obtain ⟨known, isKnown, _⟩ := covers position present
    exact absurd isKnown (Finset.notMem_empty known)
  rw [knows.contains, decide_eq_false uncovered]

end Knows

/-- Words stay known until the filter is cleared. -/
theorem mem_wordsAfter_of_mem
    {requests : List Request}
    {word : UInt64}
    (uncleared : Request.clear ∉ requests)
    (known : word ∈ words) :
    word ∈ wordsAfter requests words := by
  induction requests generalizing words with
  | nil => exact known
  | cons request requests inductionHypothesis =>
      obtain ⟨differs, others⟩ := not_or.mp (List.mem_cons.not.mp uncleared)
      apply inductionHypothesis others
      cases request with
      | put other => exact Finset.mem_insert_of_mem known
      | contains other => exact known
      | clear => exact absurd rfl differs

/-- A filter that was made is over a set that was made. -/
theorem create_eq_ok
    {factory : Factory}
    {bits : UInt64}
    {hashes : UInt32}
    {before opened : World}
    (created : create factory bits hashes before = .ok filter opened) :
    hashes ≠ 0 ∧ filter.hashes = hashes ∧
      BitSet.create factory bits before = .ok filter.bits opened := by
  by_cases noBits : bits = 0
  · rw [create, if_pos noBits] at created
    cases created
  by_cases noHashes : hashes = 0
  · rw [create, if_neg noBits, if_pos noHashes] at created
    cases created
  rw [create, if_neg noBits, if_neg noHashes] at created
  obtain ⟨set, made, rfl⟩ := Fallible.ok_of_bind_pure created
  exact ⟨noHashes, rfl, made⟩

/-- What a filter tells after requests: it finds exactly the words that are covered by those
put since it was last cleared, and so a word that was put until it is cleared, and none when
it was just made or cleared. -/
structure Tells (filter : Bloom) (requests : List Request) (memory : Memory) : Prop where
  exactly : ∀ word, filter.contains word memory =
    .ok (decide (filter.Covers (wordsAfter requests ∅) word)) memory
  kept : ∀ earlier later word, requests = earlier ++ .put word :: later →
    .clear ∉ later → filter.contains word memory = .ok true memory
  empty : requests = [] ∨ (∃ earlier, requests = earlier ++ [.clear]) →
    ∀ word, filter.contains word memory = .ok false memory

theorem Knows.tells
    {requests : List Request}
    (knows : filter.Knows memory (wordsAfter requests ∅)) :
    filter.Tells requests memory where
  exactly := knows.contains
  kept := by
    rintro earlier later word rfl uncleared
    apply knows.contains_of_mem
    rw [wordsAfter, List.foldl_append, List.foldl_cons]
    exact mem_wordsAfter_of_mem uncleared (Finset.mem_insert_self word _)
  empty := by
    rintro (rfl | ⟨earlier, rfl⟩) word
    · exact knows.contains_of_empty word
    · rw [wordsAfter, List.foldl_append] at knows
      exact knows.contains_of_empty word

/-- A filter that was made answers every sequence of requests without fail. It finds exactly
the words all of whose positions are positions of words put since it was last cleared, and its
bytes depend on these words alone. -/
theorem created_finds_covered_words
    {factory : Factory}
    {bits : UInt64}
    {hashes : UInt32}
    {before opened : World}
    (grants : factory.allocator.GrantsBounded before)
    (created : create factory bits hashes before = .ok filter opened)
    (requests : List Request) :
    ∃ reached, filter.performAll requests opened.memory = .ok () reached ∧
      filter.Tells requests reached ∧
      ∀ others after, filter.performAll others opened.memory = .ok () after →
        wordsAfter others ∅ = wordsAfter requests ∅ → after.get = reached.get := by
  obtain ⟨hashed, rfl, made⟩ := create_eq_ok created
  obtain ⟨_, packed, shown⟩ := BitSet.create_packed grants made
  have knows : filter.Knows opened.memory ∅ := ⟨packed, hashed, shown⟩
  obtain ⟨reached, performed, knowsReached, keeps⟩ := knows.performAll requests
  refine ⟨reached, performed, knowsReached.tells, fun others after ended sameWords => ?_⟩
  obtain ⟨otherReached, otherEnded, knowsAfter, otherKeeps⟩ := knows.performAll others
  rw [ended] at otherEnded
  cases otherEnded
  rw [sameWords] at knowsAfter
  funext address
  by_cases inside : filter.bits.root.extent.Contains address
  · exact knowsAfter.shown.get_eq knowsReached.shown packed inside
  · rw [otherKeeps address inside, keeps address inside]

/-- A filter of ten bits and three hashes finds a word that was put before another one was
asked for, and forgets it when it is cleared. -/
theorem created_finds_covered_words_of_ten_bits :
    let stack : Stack := .instrumented 0 1 .arena
    let factory : Factory := ⟨stack.allocator, .production, 1⟩
    let before := World.initial { base := ⟨4096⟩, capacity := 1024 }
    factory.allocator.GrantsBounded before ∧
    ∃ filter opened, create factory 10 3 before = .ok filter opened ∧
      (∃ reached, filter.performAll [.put 5, .contains 6] opened.memory = .ok () reached ∧
        filter.contains 5 reached = .ok true reached) ∧
      ∃ reached, filter.performAll [.put 5, .clear] opened.memory = .ok () reached ∧
        filter.contains 5 reached = .ok false reached := by
  intro stack factory before
  have grants : factory.allocator.GrantsBounded before :=
    @Stack.grantsBounded stack before rfl (by decide) (by decide)
  obtain ⟨granted, allocated⟩ := Stack.instrumented_allocate_of_room 0 1 before
    (by decide : (2 : UInt64) ≠ 0) (by decide) rfl
    (by decide +kernel : before.arena.nextAfter? (2 + 24) = some 32)
  have allocates : factory.allocator.allocate 2 before = _ := allocated
  obtain ⟨set, opened, made, _⟩ := BitSet.create_of_granted
    (by decide : (10 : UInt64) ≠ 0) (by decide : Bits.bytesFor? 10 = some 2) allocates
  have created : create factory 10 3 before = .ok ⟨set, 3⟩ opened := Fallible.bind_of_ok made _
  refine ⟨grants, _, opened, created, ?_, ?_⟩
  · obtain ⟨reached, performed, tells, _⟩ :=
      created_finds_covered_words grants created [.put 5, .contains 6]
    exact ⟨reached, performed, tells.kept [] _ 5 rfl (by decide)⟩
  · obtain ⟨reached, performed, tells, _⟩ :=
      created_finds_covered_words grants created [.put 5, .clear]
    exact ⟨reached, performed, tells.empty (Or.inr ⟨[.put 5], rfl⟩) 5⟩

end Bloom
end GuardedHeap
