import Std.Data.TreeMap

/-!
# Tables of states

A table gives every number a state, which is the default one until another is
put there. Layers of allocators keep their states in tables, so that several
layers can share the one below them.
-/

namespace GuardedHeap

/-- A state for every number. -/
structure Table (α : Type) where
  entries : Std.TreeMap Nat α

namespace Table

/-- A table of default states. -/
def empty {α : Type} : Table α := ⟨∅⟩

instance {α : Type} : Inhabited (Table α) := ⟨empty⟩

/-- The state at an index. -/
def get {α : Type} [Inhabited α] (table : Table α) (index : Nat) : α :=
  table.entries.getD index default

/-- Put a state at an index. -/
def set {α : Type} (table : Table α) (index : Nat) (state : α) : Table α :=
  ⟨table.entries.insert index state⟩

/-- A table reads back what was put at an index and keeps its other states. -/
theorem get_set
    {α : Type}
    [Inhabited α]
    (table : Table α)
    (index other : Nat)
    (state : α) :
    (table.set index state).get other =
      if other = index then state else table.get other := by
  simp only [get, set, Std.TreeMap.getD_insert]
  by_cases same : other = index
  · simp [same]
  · rw [if_neg same, if_neg (by simpa using fun equal : index = other => same equal.symm)]

end Table
end GuardedHeap
