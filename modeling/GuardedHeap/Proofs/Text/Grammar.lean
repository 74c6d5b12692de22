import GuardedHeap.Access.Error
import GuardedHeap.Proofs.Text.Groups
import GuardedHeap.Proofs.Text.Indexed

/-!
# The grammar of encoded text

What bytes have to be like for a text to be read from them, and which text that is. They have
to be groups, and the surrogates among the code units of these have to be paired, also where
the two halves of a pair are in different groups. All other bytes are refused as malformed, and
nothing but the bytes themselves decides about them.
-/

namespace GuardedHeap
namespace Text

/-- Bytes are groups, one behind the other. -/
def Splits (bytes : List UInt8) (groups : List Group) : Prop :=
  groups.flatMap Group.bytes = bytes

/-- Bytes are decoded as their groups say. -/
structure Grammatical (bytes : List UInt8) : Prop where
  decodes : ∀ text, decode bytes = .ok text ↔
    ∃ groups, Splits bytes groups ∧ Spells (groups.map Group.unit) text
  unique : ∀ first second, Splits bytes first → Splits bytes second → first = second
  paired : ∀ groups, Splits bytes groups →
    ((∃ text, decode bytes = .ok text) ↔ Paired (groups.map Group.unit))
  refuses : (¬ ∃ text, decode bytes = .ok text) →
    ∃ reason, (decode bytes).mapError AccessError.ofCoding = .error (.malformedText reason)
  confined : ∀ window : Window, window.bytes = bytes →
    Reads window.decode bytes.length (decode bytes)

theorem length_bytes (window : Window) : window.bytes.length = window.length := by
  simp [Window.bytes, Window.bytesFrom]

/-- Bytes that split into groups are text exactly if the surrogates of these are paired. -/
theorem exists_decode_iff_paired
    {bytes : List UInt8}
    {groups : List Group}
    (split : Splits bytes groups) :
    (∃ text, decode bytes = .ok text) ↔ Paired (groups.map Group.unit) := by
  rw [← exists_spells_iff_paired]
  constructor
  · rintro ⟨text, decoded⟩
    obtain ⟨others, same, spells⟩ := (decode_eq_ok_iff bytes text).mp decoded
    rw [Group.flatMap_bytes_injective (split.trans same.symm)]
    exact ⟨text, spells⟩
  · rintro ⟨text, spells⟩
    exact ⟨text, (decode_eq_ok_iff bytes text).mpr ⟨groups, split, spells⟩⟩

/-- A text is read from exactly those bytes that are groups of which the code units spell it.
There is one way to take bytes apart into groups, so this depends on their surrogates alone.
What is not read is refused as malformed, and no byte is looked at beside those given. -/
theorem decoded_by_grammar (bytes : List UInt8) : Grammatical bytes where
  decodes := decode_eq_ok_iff bytes
  unique _ _ first second := Group.flatMap_bytes_injective (first.trans second.symm)
  paired _ split := exists_decode_iff_paired split
  refuses refused := by
    cases answer : decode bytes with
    | ok text => exact absurd ⟨text, answer⟩ refused
    | error error => exact ⟨error.reason, rfl⟩
  confined window same := by
    have reads := window.reads_decode
    rwa [← length_bytes window, same] at reads

end Text
end GuardedHeap
