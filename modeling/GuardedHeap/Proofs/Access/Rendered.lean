import GuardedHeap.Proofs.Access.Subviews
import GuardedHeap.Proofs.Text.Mended

/-!
# Views that render text

A block that lies in its root can be seen as text, be it checked or not. All of its code units are
read, and they are those that its bytes spell. So text whose units were written somewhere into the
block is seen through the range of these units, and whatever bytes the block has, its text is
theirs, with the replacement character for surrogates that are not part of a pair.
-/

namespace GuardedHeap

/-- A part of a block that lies in its root lies there, too, if it has a byte. An empty one may
start where addresses start again. -/
theorem Block.PartAt.inside
    {block part : Block}
    {distance : UInt64}
    (partAt : block.PartAt distance part)
    (inside : block.Inside)
    (nonempty : 0 < part.size.toNat)
    (lies : distance.toNat + part.size.toNat ≤ block.size.toNat) :
    part.Inside := by
  have start_le := inside.start_le
  have stop_le := inside.stop_le
  have bounded := inside.bounded
  have stop_eq : block.extent.stop = block.extent.start + block.size.toNat := rfl
  have start_eq : part.extent.start = block.extent.start + distance.toNat := by
    show part.address.value.toNat = _
    rw [partAt.address_eq]
    exact Address.toNat_add (show block.extent.start + _ < _ by omega)
  have ends : part.extent.stop = part.extent.start + part.size.toNat := rfl
  have root_eq := partAt.root_eq
  refine ⟨?_, ?_, ?_⟩
  · rw [root_eq]
    omega
  · rw [root_eq]
    omega
  · omega

namespace Text

/-- The bytes of code units. -/
def bytesOfUnits (units : List UInt16) : List UInt8 :=
  units.flatMap fun unit => Word.littleEndian 2 unit.toNat

/-- The code units that bytes spell. An odd last byte belongs to none. -/
def unitsOfBytes : List UInt8 → List UInt16
  | [] => []
  | [_] => []
  | low :: high :: rest => UInt16.ofNat (Word.ofLittleEndian [low, high]) :: unitsOfBytes rest

theorem length_bytesOfUnits (units : List UInt16) :
    (bytesOfUnits units).length = units.length * 2 := by
  induction units with
  | nil => rfl
  | cons unit units inductionHypothesis =>
      rw [bytesOfUnits, List.flatMap_cons, List.length_append, Word.length_littleEndian,
        ← bytesOfUnits, inductionHypothesis, List.length_cons, Nat.succ_mul, Nat.add_comm]

theorem length_unitsOfBytes (bytes : List UInt8) :
    (unitsOfBytes bytes).length = bytes.length / 2 := by
  fun_induction unitsOfBytes bytes with
  | case1 => rfl
  | case2 byte => exact (Nat.div_eq_of_lt Nat.one_lt_two).symm
  | case3 low high rest inductionHypothesis =>
      rw [List.length_cons, inductionHypothesis, List.length_cons, List.length_cons]
      omega

theorem unitsOfBytes_append
    (rest : List UInt8)
    {pair : List UInt8}
    (two : pair.length = 2) :
    unitsOfBytes (pair ++ rest) =
      UInt16.ofNat (Word.ofLittleEndian pair) :: unitsOfBytes rest := by
  obtain ⟨low, high, rfl⟩ := List.length_eq_two.mp two
  rfl

theorem unitsOfBytes_bytesOfUnits (units : List UInt16) :
    unitsOfBytes (bytesOfUnits units) = units := by
  induction units with
  | nil => rfl
  | cons unit units inductionHypothesis =>
      have kept : UInt16.ofNat (unit.toNat % Nat.pow 256 2) = unit := by
        rw [show Nat.pow 256 2 = 65536 from rfl, Nat.mod_eq_of_lt unit.toNat_lt,
          UInt16.ofNat_toNat]
      rw [bytesOfUnits, List.flatMap_cons, unitsOfBytes_append _ (Word.length_littleEndian ..),
        Word.ofLittleEndian_littleEndian, kept, ← bytesOfUnits, inductionHypothesis]

end Text

namespace CharView

variable {view : CharView}
variable {first last index : UInt64}

/-! ### Reading units -/

section Reading

variable (inside : view.block.Inside)

include inside

theorem unitAt_of_inside
    (inView : index < view.length)
    (memory : Memory) :
    view.unitAt index memory =
      .ok (UInt16.ofNat (Word.ofLittleEndian
        (memory.read (view.extent.address.add (index * 2)) 2))) memory := by
  have half := view.two_mul_length_le
  have := view.extent.size.toNat_lt
  have below := UInt64.lt_iff_toNat_lt.mp inView
  have doubled : (index * 2).toNat = index.toNat * 2 := toNat_mul_two (by omega)
  have fits : (index * 2).toNat + (2 : UInt64).toNat ≤ view.block.size.toNat := by
    show _ + 2 ≤ view.extent.size.toNat
    omega
  rw [unitAt, Fallible.bind_of_ok (checkIndex_of_lt inView memory), mul?_two (by omega),
    Fallible.bind_of_ok (Fallible.exactly_some _ memory),
    Fallible.bind_of_ok (inside.read fits memory)]
  rfl

/-- The units that are left from an index on are those that the bytes from there on spell. -/
theorem unitsFrom_of_inside
    (memory : Memory)
    {count : Nat}
    (done : List UInt16)
    (rest : index.toNat + count = view.length.toNat) :
    view.unitsFrom index done count memory =
      .ok (done.reverse ++ Text.unitsOfBytes (memory.read (view.extent.address.add (index * 2))
        (view.extent.size.toNat - index.toNat * 2))) memory := by
  have length_eq : view.length.toNat = view.extent.size.toNat / 2 := UInt64.toNat_div ..
  induction count generalizing index done with
  | zero =>
      have none_left : Text.unitsOfBytes (memory.read (view.extent.address.add (index * 2))
          (view.extent.size.toNat - index.toNat * 2)) = [] := by
        rw [← List.length_eq_zero_iff, Text.length_unitsOfBytes, Memory.length_read]
        omega
      rw [none_left, List.append_nil]
      rfl
  | succ count inductionHypothesis =>
      have := view.length.toNat_lt
      have inView : index < view.length := UInt64.lt_iff_toNat_lt.mpr (by omega)
      have next : (index + 1).toNat = index.toNat + 1 := by
        rw [UInt64.toNat_add]
        show (_ + 1) % _ = _
        omega
      have place : view.extent.address.add ((index + 1) * 2) =
          (view.extent.address.add (index * 2)).add (UInt64.ofNat 2) := by
        rw [Address.add_add, UInt64.add_mul]
        rfl
      have bytes_eq : view.extent.size.toNat - index.toNat * 2 =
          2 + (view.extent.size.toNat - (index + 1).toNat * 2) := by
        omega
      rw [unitsFrom, Fallible.bind_of_ok (Fallible.attempt_of_ok
        (unitAt_of_inside inside inView memory))]
      dsimp only
      rw [inductionHypothesis _ (by omega), bytes_eq, Memory.read_add,
        Text.unitsOfBytes_append _ (Memory.length_read ..), place, List.reverse_cons,
        List.append_assoc, List.singleton_append]

/-- No unit of a view is left out. -/
theorem units_of_inside (memory : Memory) :
    view.units memory =
      .ok (Text.unitsOfBytes (memory.read view.extent.address view.extent.size.toNat)) memory := by
  have start : view.extent.address.add (0 * 2) = view.extent.address := Address.add_zero _
  rw [units, unitsFrom_of_inside inside memory [] (Nat.zero_add _), start]
  rfl

theorem text_of_inside (memory : Memory) :
    view.text memory =
      .ok (Text.ofUnitsLossy (Text.unitsOfBytes
        (memory.read view.extent.address view.extent.size.toNat))) memory := by
  have units := units_of_inside inside memory
  exact Fallible.bind_of_ok units _

/-- A view that lies in its root ends before distances from there start again. -/
theorem straight_of_inside : view.Straight := by
  have start_le := inside.start_le
  have stop_le := inside.stop_le
  have := inside.bounded
  have := view.root.extent.size.toNat_lt
  have ordered : view.root.extent.address.value ≤ view.extent.address.value :=
    UInt64.le_iff_toNat_le.mpr start_le
  have base_eq : view.base.toNat =
      view.extent.address.value.toNat - view.root.extent.address.value.toNat :=
    UInt64.toNat_sub_of_le _ _ ordered
  change view.root.extent.address.value.toNat ≤ view.extent.address.value.toNat at start_le
  change view.extent.address.value.toNat + view.extent.size.toNat ≤
    view.root.extent.address.value.toNat + view.root.extent.size.toNat at stop_le
  exact ⟨by omega, fun _ => by omega⟩

end Reading

/-! ### Text written and seen -/

/-- What is seen of a block as text. Text whose units were written from some unit on is what is
seen through their range. Whatever the bytes of the block are, every unit they spell is read, and
the text is that of these units, where a surrogate that is not part of a pair is replaced. -/
structure Renders (block : Block) : Prop where
  written : ∀ (memory : Memory) (text : List Char) (first last : UInt64),
    last.toNat = first.toNat + (Text.units text).length →
    last.toNat * 2 ≤ block.size.toNat →
    ∃ after view,
      block.write (first * 2) (Text.bytesOfUnits (Text.units text)) memory = .ok () after ∧
      (ofBlock block).subView first last after = .ok view after ∧
      view.text after = .ok text after
  contents : ∀ memory : Memory, ∃ bytes : List UInt8,
    block.read 0 block.size memory = .ok bytes memory ∧
    (Text.unitsOfBytes bytes).length = (ofBlock block).length.toNat ∧
    (ofBlock block).units memory = .ok (Text.unitsOfBytes bytes) memory ∧
    (ofBlock block).text memory = .ok (Text.mend (Text.unitsOfBytes bytes)) memory

/-- Units that memory holds behind the start of a view are seen through their range. -/
theorem text_range
    {memory : Memory}
    {text : List Char}
    (inside : view.block.Inside)
    (counted : last.toNat = first.toNat + (Text.units text).length)
    (within : last ≤ view.length)
    (holds : memory.Holds (view.extent.address.add (first * 2))
      (Text.bytesOfUnits (Text.units text))) :
    (view.range first last).text memory = .ok text memory := by
  have ordered : first ≤ last := UInt64.le_iff_toNat_le.mpr (by omega)
  have size_eq : (view.range first last).extent.size.toNat = (Text.units text).length * 2 := by
    rw [show (view.range first last).extent.size.toNat = _ from (toNat_range ordered within).2.1,
      counted, Nat.add_sub_cancel_left]
  by_cases isEmpty : first = last
  case pos =>
    have unspelled : Text.units text = [] := by
      rw [← List.length_eq_zero_iff]
      rw [isEmpty] at counted
      omega
    have noText : text = [] := by
      rw [← Text.ofUnitsLossy_units text, unspelled]
      rfl
    have noUnit : (view.range first last).length.toNat = 0 := by
      rw [length_range ordered within, isEmpty, UInt64.sub_self]
      rfl
    rw [CharView.text, units, noUnit, noText]
    rfl
  case neg =>
    have part_inside : (view.range first last).block.Inside := by
      obtain ⟨skipped, size, order, room⟩ := toNat_range ordered within
      have differs : first.toNat ≠ last.toNat := fun same => isEmpty (UInt64.toNat_inj.mp same)
      have size_eq : (view.range first last).block.size.toNat = _ := size
      have whole_eq : view.block.size.toNat = view.extent.size.toNat := rfl
      exact (partAt_range ordered within).inside inside (by omega) (by omega)
    rw [text_of_inside part_inside, size_eq,
      ← Text.length_bytesOfUnits,
      show memory.read (view.range first last).extent.address _ = _ from holds,
      Text.unitsOfBytes_bytesOfUnits, Text.ofUnitsLossy_units]

/-- Every block that lies in its root shows the text that it holds, in either mode. -/
theorem renders_contents
    {block : Block}
    (inside : block.Inside) :
    Renders block := by
  have seen : (ofBlock block).block.Inside :=
    ⟨inside.start_le, inside.stop_le, inside.bounded⟩
  refine ⟨fun memory text first last counted room => ?_, fun memory => ?_⟩
  · have small := block.size.toNat_lt
    have length_eq : (ofBlock block).length.toNat = block.size.toNat / 2 := UInt64.toNat_div ..
    have within : last ≤ (ofBlock block).length := UInt64.le_iff_toNat_le.mpr (by omega)
    have ordered : first ≤ last := UInt64.le_iff_toNat_le.mpr (by omega)
    have skipped : (first * 2).toNat = first.toNat * 2 := toNat_mul_two (by omega)
    have fits : (first * 2).toNat + (Text.bytesOfUnits (Text.units text)).length ≤
        block.size.toNat := by
      rw [Text.length_bytesOfUnits]
      omega
    obtain ⟨after, written, laid⟩ := inside.write fits memory
    have holds := Memory.holds_of_get_eq_overlay (by omega) laid
    exact ⟨after, _, written, (straight_of_inside seen).subView_eq ordered within after,
      text_range seen counted within holds⟩
  · have fits : (0 : UInt64).toNat + block.size.toNat ≤ block.size.toNat :=
      Nat.le_of_eq (Nat.zero_add _)
    have whole := inside.read fits memory
    rw [Address.add_zero] at whole
    refine ⟨_, whole, ?_, units_of_inside seen memory, ?_⟩
    · rw [Text.length_unitsOfBytes, Memory.length_read]
      exact (UInt64.toNat_div block.size 2).symm
    · rw [← Text.ofUnitsLossy_eq_mend]
      exact text_of_inside seen memory

/-- An unchecked block of nine bytes in a root of sixteen. A letter and a pair are written behind
its first unit and seen again. If their pair is cut, a replacement character is seen. -/
theorem renders_contents_of_letter_and_pair :
    let root : Root := ⟨⟨⟨0x1000⟩, 16⟩, false, none⟩
    let block : Block := .view root ⟨⟨0x1003⟩, 9⟩
    Renders block ∧
      (∀ memory, ∃ after view,
        block.write 2 [0x61, 0x00, 0x3D, 0xD8, 0x00, 0xDE] memory = .ok () after ∧
        (ofBlock block).subView 1 4 after = .ok view after ∧
        view.text after = .ok ['a', '😀'] after) ∧
      Text.mend [0x61, 0xD83D] = ['a', Text.replacement] := by
  intro root block
  have renders : Renders block :=
    renders_contents ⟨by decide, by decide, by decide⟩
  exact ⟨renders, fun memory => renders.written memory ['a', '😀'] 1 4 (by decide) (by decide),
    by decide⟩

end CharView
end GuardedHeap
