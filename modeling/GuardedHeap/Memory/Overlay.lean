import GuardedHeap.Memory.Basic

/-!
# Bytes laid over bytes

What memory holds after bytes were written is given by `overlay`: the new bytes
at their addresses, the old ones everywhere else. The main statements are
`get_write`, `get_fill` and `read_eq_map`, which reduce writing, filling and
reading to this one function, and `overlay_apply`, which gives its values.
-/

namespace GuardedHeap
namespace Memory

/-- Bytes at the addresses from `start` on, laid over what was there. -/
def overlay (old : Address → UInt8) (start : Address) : List UInt8 → Address → UInt8
  | [] => old
  | byte :: bytes =>
      overlay (fun other => if other = start then byte else old other) (start.add 1) bytes

@[simp] theorem overlay_nil (old : Address → UInt8) (start : Address) :
    overlay old start [] = old := rfl

@[simp] theorem overlay_cons
    (old : Address → UInt8)
    (start : Address)
    (byte : UInt8)
    (bytes : List UInt8) :
    overlay old start (byte :: bytes) =
      overlay (fun other => if other = start then byte else old other)
        (start.add 1) bytes := rfl

/-- Two runs of bytes, one behind the other, are laid down one after the
other. -/
theorem overlay_append
    (old : Address → UInt8)
    (start : Address)
    (first second : List UInt8) :
    overlay old start (first ++ second) =
      overlay (overlay old start first) (start.add (UInt64.ofNat first.length)) second := by
  induction first generalizing old start with
  | nil => simp
  | cons byte first inductionHypothesis =>
      have behind : (start.add 1).add (UInt64.ofNat first.length) =
          start.add (UInt64.ofNat (first.length + 1)) := by
        rw [Address.add_add, UInt64.ofNat_add, UInt64.add_comm]
        rfl
      simp only [List.cons_append, overlay_cons, inductionHypothesis, List.length_cons,
        behind]

/-- The distance from the next address is one less, unless it is zero. -/
theorem toNat_offsetFrom_add_one
    {address start : Address}
    (differs : address ≠ start) :
    (address.offsetFrom (start.add 1)).toNat + 1 = (address.offsetFrom start).toNat := by
  cases address with
  | mk address =>
    cases start with
    | mk start =>
      have distinct : address.toNat ≠ start.toNat := fun equal =>
        differs (congrArg Address.mk (UInt64.toNat_inj.mp equal))
      have := address.toNat_lt
      have := start.toNat_lt
      simp only [Address.offsetFrom, Address.add, UInt64.toNat_sub, UInt64.toNat_add,
        UInt64.reduceToNat]
      omega

/-- The bytes of an overlay that does not reach around the address space: those
that were laid down where they were laid down, the old ones elsewhere. -/
theorem overlay_apply
    (old : Address → UInt8)
    (start address : Address)
    (bytes : List UInt8)
    (short : bytes.length ≤ 0x10000000000000000) :
    overlay old start bytes address =
      (bytes[(address.offsetFrom start).toNat]?).getD (old address) := by
  induction bytes generalizing old start with
  | nil => simp
  | cons byte bytes inductionHypothesis =>
      have shorter : bytes.length < 2 ^ 64 := short
      rw [overlay_cons, inductionHypothesis _ _ (Nat.le_of_lt shorter)]
      by_cases same : address = start
      · subst same
        have behind : bytes[(address.offsetFrom (address.add 1)).toNat]? = none := by
          rw [List.getElem?_eq_none_iff]
          have far : (address.offsetFrom (address.add 1)).toNat = 2 ^ 64 - 1 := by
            cases address with
            | mk address =>
              have := address.toNat_lt
              simp only [Address.offsetFrom, Address.add, UInt64.toNat_sub,
                UInt64.toNat_add, UInt64.reduceToNat]
              omega
          omega
        have here : (address.offsetFrom address).toNat = 0 := by
          simp [Address.offsetFrom]
        simp [behind, here]
      · rw [← toNat_offsetFrom_add_one same, if_neg same]
        simp

/-- Putting back the page around an address changes nothing. -/
theorem get_setPage_pageAt (memory : Memory) (address : Address) :
    (memory.setPage address (memory.pageAt address)).get = memory.get := by
  funext other
  unfold get
  rw [pageAt_setPage]
  by_cases same : pageOf other = pageOf address
  · simp [pageAt, same]
  · rw [if_neg same]

/-- A page with one byte replaced makes memory with that byte replaced. -/
theorem get_setPage_set
    (memory : Memory)
    (address : Address)
    (page : Page)
    (byte : UInt8) :
    (memory.setPage address (page.set (indexOf address) byte)).get =
      fun other =>
        if other = address then byte else (memory.setPage address page).get other := by
  funext other
  unfold get
  simp only [pageAt_setPage]
  by_cases samePage : pageOf other = pageOf address
  · rw [if_pos samePage, if_pos samePage, Page.get_set]
    by_cases same : other = address
    · simp [same]
    · have differs : indexOf other ≠ indexOf address := fun sameIndex =>
        same (eq_of_page_index samePage sameIndex)
      rw [if_neg differs, if_neg same]
  · have differs : other ≠ address := fun same => samePage (by rw [same])
    rw [if_neg samePage, if_neg samePage, if_neg differs]

/-- The address behind one that does not end its page lies in the same page. -/
theorem pageOf_add_one
    {address : Address}
    (inside : endsPage address = false) :
    pageOf (address.add 1) = pageOf address := by
  cases address with
  | mk address =>
    have index : address.toNat % 256 ≠ 255 := by
      simpa [endsPage, indexOf] using inside
    have := address.toNat_lt
    apply UInt64.toNat_inj.mp
    simp only [pageOf, Address.add, UInt64.toNat_div, UInt64.toNat_add,
      UInt64.reduceToNat]
    omega

/-- A page at hand counts as part of the memory that bytes are laid over. -/
theorem get_writeOnto
    (memory : Memory)
    (page : Page)
    (address : Address)
    (bytes : List UInt8) :
    (memory.writeOnto page address bytes).get =
      overlay (memory.setPage address page).get address bytes := by
  induction bytes generalizing memory page address with
  | nil => rfl
  | cons byte bytes inductionHypothesis =>
      rw [overlay_cons, ← get_setPage_set, writeOnto]
      cases ends : endsPage address with
      | true =>
          simp only [if_true, inductionHypothesis, get_setPage_pageAt]
      | false =>
          simp only [Bool.false_eq_true, if_false, inductionHypothesis]
          simp only [setPage, pageOf_add_one ends]

/-- Memory after bytes were written holds them over what it held before. -/
theorem get_write
    (memory : Memory)
    (start : Address)
    (bytes : List UInt8) :
    (memory.write start bytes).get = overlay memory.get start bytes := by
  rw [write, get_writeOnto, get_setPage_pageAt]

/-- Replacing bytes one by one lays down a run of equal bytes. -/
theorem get_fillBytes
    (memory : Memory)
    (start : Address)
    (value : UInt8)
    (count : Nat) :
    (memory.fillBytes start value count).get =
      overlay memory.get start (List.replicate count value) := by
  induction count generalizing memory start with
  | zero => rfl
  | succ count inductionHypothesis =>
      have replaced : (memory.set start value).get =
          fun other => if other = start then value else memory.get other :=
        funext fun other => get_set memory start other value
      rw [fillBytes, inductionHypothesis, replaced]
      rfl

/-- An address at the start of a page shares it with the two hundred and
fifty-five ones behind. -/
theorem pageOf_eq_iff
    {start : Address}
    (aligned : (indexOf start).val = 0)
    (address : Address) :
    pageOf address = pageOf start ↔ (address.offsetFrom start).toNat < 256 := by
  cases address with
  | mk address =>
    cases start with
    | mk start =>
      have index : start.toNat % 256 = 0 := by simpa [indexOf] using aligned
      have := address.toNat_lt
      have := start.toNat_lt
      rw [← UInt64.toNat_inj]
      simp only [pageOf, Address.offsetFrom, UInt64.toNat_div, UInt64.toNat_sub,
        UInt64.reduceToNat]
      omega

/-- A uniform page is a run of equal bytes. -/
theorem get_setPage_uniform
    (memory : Memory)
    {start : Address}
    (aligned : (indexOf start).val = 0)
    (value : UInt8) :
    (memory.setPage start (.uniform value)).get =
      overlay memory.get start (List.replicate 256 value) := by
  funext address
  have length : (List.replicate 256 value).length ≤ 2 ^ 64 := by
    rw [List.length_replicate]
    decide
  rw [overlay_apply _ _ _ _ length, List.getElem?_replicate]
  unfold get
  rw [pageAt_setPage]
  by_cases inside : pageOf address = pageOf start
  · rw [if_pos inside, if_pos ((pageOf_eq_iff aligned address).mp inside)]
    rfl
  · rw [if_neg inside,
      if_neg fun near => inside ((pageOf_eq_iff aligned address).mpr near)]
    rfl

/-- A page behind the start of a page starts there as well. -/
theorem indexOf_add_page
    {start : Address}
    (aligned : (indexOf start).val = 0) :
    (indexOf (start.add 256)).val = 0 := by
  cases start with
  | mk start =>
    have index : start.toNat % 256 = 0 := by simpa [indexOf] using aligned
    simp only [indexOf, Address.add, UInt64.toNat_mod, UInt64.toNat_add,
      UInt64.reduceToNat]
    omega

/-- Replacing whole pages lays down a run of equal bytes. -/
theorem get_fillPages
    (memory : Memory)
    {start : Address}
    (aligned : (indexOf start).val = 0)
    (value : UInt8)
    (count : Nat) :
    (memory.fillPages start value count).get =
      overlay memory.get start (List.replicate (256 * count) value) := by
  induction count generalizing memory start with
  | zero => rfl
  | succ count inductionHypothesis =>
      have split : List.replicate (256 * (count + 1)) value =
          List.replicate 256 value ++ List.replicate (256 * count) value := by
        rw [List.replicate_append_replicate]
        congr 1
        omega
      have length : (List.replicate 256 value).length = 256 := List.length_replicate
      rw [fillPages, inductionHypothesis _ (indexOf_add_page aligned),
        get_setPage_uniform _ aligned, split, overlay_append, length]
      rfl

/-- Behind the bytes that a fill replaces one by one, a page starts, or nothing
is left to fill. -/
theorem indexOf_add_before
    (start : Address)
    (count : Nat) :
    let before := min count ((256 - (indexOf start).val) % 256)
    (indexOf (start.add (UInt64.ofNat before))).val = 0 ∨ count - before = 0 := by
  cases start with
  | mk start =>
    simp only [indexOf, Address.add, UInt64.toNat_mod, UInt64.toNat_add,
      UInt64.toNat_ofNat', UInt64.reduceToNat]
    omega

/-- Memory after a range was filled holds a run of equal bytes over what it held
before. -/
theorem get_fill
    (memory : Memory)
    (start : Address)
    (count : Nat)
    (value : UInt8) :
    (memory.fill start count value).get =
      overlay memory.get start (List.replicate count value) := by
  unfold fill
  generalize beforeValue : min count ((256 - (indexOf start).val) % 256) = before
  have aligned := indexOf_add_before start count
  simp only [beforeValue] at aligned
  have atMost : before ≤ count := by omega
  simp only [get_fillBytes]
  rcases aligned with aligned | nothing
  · rw [get_fillPages _ aligned, get_fillBytes]
    have split : List.replicate count value =
        List.replicate before value ++
          (List.replicate (256 * ((count - before) / 256)) value ++
            List.replicate ((count - before) % 256) value) := by
      rw [List.replicate_append_replicate, List.replicate_append_replicate]
      congr 1
      omega
    rw [split, overlay_append, overlay_append, List.length_replicate,
      List.length_replicate]
  · have all : before = count := by omega
    simp [all, fillPages, get_fillBytes]

/-- Reading with a page at hand that agrees with memory reads memory. -/
theorem readOnto_eq
    (memory : Memory)
    (page : Page)
    (address : Address)
    (done : List UInt8)
    (count : Nat)
    (around : ∀ other, pageOf other = pageOf address →
      page.get (indexOf other) = memory.get other) :
    memory.readOnto page address done count =
      ((List.range count).map fun step =>
        memory.get (address.add (UInt64.ofNat step))).reverse ++ done := by
  induction count generalizing page address done with
  | zero => rfl
  | succ count inductionHypothesis =>
      have shifted : ((List.range (count + 1)).map fun step =>
            memory.get (address.add (UInt64.ofNat step))) =
          memory.get address :: (List.range count).map fun step =>
            memory.get ((address.add 1).add (UInt64.ofNat step)) := by
        rw [List.range_succ_eq_map, List.map_cons, List.map_map]
        congr 1
        · simp
        · apply List.map_congr_left
          intro step _
          simp only [Function.comp, Address.add_add, Nat.succ_eq_add_one,
            UInt64.ofNat_add]
          rw [UInt64.add_comm]
          rfl
      rw [shifted, readOnto]
      cases ends : endsPage address with
      | true =>
          simp only [if_true]
          rw [inductionHypothesis _ _ _ fun other same => by simp [get, pageAt, same],
            around address rfl]
          simp
      | false =>
          have samePage := pageOf_add_one ends
          simp only [Bool.false_eq_true, if_false]
          rw [inductionHypothesis _ _ _ fun other same => around other (same.trans samePage),
            around address rfl]
          simp

/-- The bytes that are read are those at the addresses from the first one on. -/
theorem read_eq_map
    (memory : Memory)
    (start : Address)
    (count : Nat) :
    memory.read start count =
      (List.range count).map fun step => memory.get (start.add (UInt64.ofNat step)) := by
  have around : ∀ other, pageOf other = pageOf start →
      (memory.pageAt start).get (indexOf other) = memory.get other := fun other same => by
    simp [get, pageAt, same]
  rw [read, readOnto_eq _ _ _ _ _ around]
  simp

@[simp] theorem length_read
    (memory : Memory)
    (start : Address)
    (count : Nat) :
    (memory.read start count).length = count := by
  simp [read_eq_map]

/-- What is read depends on the bytes of memory alone. -/
theorem read_congr
    {left right : Memory}
    (sameBytes : left.get = right.get)
    (start : Address)
    (count : Nat) :
    left.read start count = right.read start count := by
  rw [read_eq_map, read_eq_map, sameBytes]

/-- Bytes that were written are read back. -/
theorem read_write_self
    (memory : Memory)
    (start : Address)
    (bytes : List UInt8)
    (short : bytes.length ≤ 0x10000000000000000) :
    (memory.write start bytes).read start bytes.length = bytes := by
  rw [read_eq_map, get_write]
  apply List.ext_getElem
  · simp
  · intro index _ inside
    have offset : ((start.add (UInt64.ofNat index)).offsetFrom start).toNat = index := by
      have : index < 2 ^ 64 := Nat.lt_of_lt_of_le inside short
      cases start with
      | mk start =>
        have := start.toNat_lt
        simp only [Address.offsetFrom, Address.add, UInt64.toNat_sub, UInt64.toNat_add,
          UInt64.toNat_ofNat']
        omega
    rw [List.getElem_map, List.getElem_range, overlay_apply _ _ _ _ short, offset]
    simp [inside]

end Memory
end GuardedHeap
