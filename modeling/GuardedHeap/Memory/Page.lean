/-!
# Pages

A page holds two hundred and fifty-six bytes. One whose bytes are all alike is
kept as that byte, so that a large range is filled cheaply.
-/

namespace GuardedHeap

/-- The bytes at the addresses that agree in all but the last eight bits. -/
inductive Page
  | uniform (value : UInt8)
  | mixed (bytes : ByteArray) (sized : bytes.size = 256)

namespace Page

/-- The byte at an index of a page. -/
def get : Page → Fin 256 → UInt8
  | .uniform value, _ => value
  | .mixed bytes sized, index => bytes.get index.val (sized.symm ▸ index.isLt)

/-- A page of mixed bytes that are all alike. -/
def spread (value : UInt8) : ByteArray :=
  ⟨Array.replicate 256 value⟩

theorem size_spread (value : UInt8) : (spread value).size = 256 :=
  Array.size_replicate

/-- Replace the byte at an index of a page. -/
def set : Page → Fin 256 → UInt8 → Page
  | .uniform filler, index, value =>
      if filler = value then .uniform filler
      else
        .mixed
          ((spread filler).set index.val value ((size_spread filler).symm ▸ index.isLt))
          ((Array.size_set _).trans (size_spread filler))
  | .mixed bytes sized, index, value =>
      .mixed (bytes.set index.val value (sized.symm ▸ index.isLt))
        ((Array.size_set _).trans sized)

/-- A page reads back what was put at an index and keeps its other bytes. -/
theorem get_set
    (page : Page)
    (index other : Fin 256)
    (value : UInt8) :
    (page.set index value).get other =
      if other = index then value else page.get other := by
  cases page with
  | uniform filler =>
      by_cases alike : filler = value
      · simp [set, get, alike]
      · rw [set, if_neg alike]
        by_cases same : other = index
        · subst same
          rw [if_pos rfl]
          exact Array.getElem_set_self _
        · have differs : index.val ≠ other.val := fun equal => same (Fin.ext equal.symm)
          have bound : other.val < (Array.replicate 256 filler).size := by
            rw [Array.size_replicate]
            exact other.isLt
          rw [if_neg same]
          exact (Array.getElem_set_ne _ bound differs).trans (Array.getElem_replicate bound)
  | mixed bytes sized =>
      by_cases same : other = index
      · subst same
        rw [if_pos rfl]
        exact Array.getElem_set_self _
      · have differs : index.val ≠ other.val := fun equal => same (Fin.ext equal.symm)
        have bound : other.val < bytes.data.size := by
          rw [← ByteArray.size, sized]
          exact other.isLt
        rw [if_neg same]
        exact Array.getElem_set_ne _ bound differs

end Page

end GuardedHeap
