import GuardedHeap.Fallible
import GuardedHeap.Text.Encoding

/-!
# Decoding at indices

A decoder that has bytes at indices instead of a list of them, and is told how many there are.
It takes note of every index at which it reads. It gives what the decoder of lists gives and
never reads at an index that it was not told of, whatever stands there.
-/

namespace GuardedHeap
namespace Text

/-- Bytes at indices. Those below the length are the bytes that are meant. -/
structure Window where
  byteAt : Nat → UInt8
  length : Nat

/-- Computations that read bytes at indices and have these written down. -/
abbrev Scan := Fallible CodingError (List Nat)

namespace Window

/-- The bytes from an index on. -/
def bytesFrom (window : Window) (index : Nat) : List UInt8 :=
  (List.range' index (window.length - index)).map window.byteAt

/-- The bytes that are meant. -/
def bytes (window : Window) : List UInt8 :=
  window.bytesFrom 0

/-- Read at an index. -/
def look (window : Window) (index : Nat) : Scan UInt8 := do
  modify (index :: ·)
  pure (window.byteAt index)

/-- Read a byte that has to continue a code unit. -/
def continuing (window : Window) (index : Nat) : Scan UInt8 := do
  if index < window.length then
    let byte ← window.look index
    if isContinuation byte then pure byte
    else Fallible.refuse (.malformed index byte)
  else Fallible.refuse .incomplete

/-- The code units from an index on, written behind those that were `done` before, last
first. -/
def decodeBytesOnto (window : Window) (index : Nat) (done : List UInt16) :
    Scan (List UInt16) := do
  if index < window.length then
    let lead ← window.look index
    match Lead.ofByte lead with
    | .one => window.decodeBytesOnto (index + 1) (UInt16.ofNat lead.toNat :: done)
    | .two =>
        let second ← window.continuing (index + 1)
        window.decodeBytesOnto (index + 2) (unitOfTwo lead second :: done)
    | .three =>
        let second ← window.continuing (index + 1)
        let third ← window.continuing (index + 2)
        window.decodeBytesOnto (index + 3) (unitOfThree lead second third :: done)
    | .invalid => Fallible.refuse (.malformed index lead)
  else pure done
termination_by window.length - index

/-- Decoded text. -/
def decode (window : Window) : Scan (List Char) := do
  let units ← window.decodeBytesOnto 0 []
  match ofUnits? units.reverse with
  | none => Fallible.refuse .unpaired
  | some text => pure text

theorem bytesFrom_of_lt
    {window : Window}
    {index : Nat}
    (inside : index < window.length) :
    window.bytesFrom index = window.byteAt index :: window.bytesFrom (index + 1) := by
  have count : window.length - index = window.length - (index + 1) + 1 := by omega
  rw [bytesFrom, count, List.range'_succ, List.map_cons, bytesFrom]

theorem bytesFrom_of_le
    {window : Window}
    {index : Nat}
    (behind : window.length ≤ index) :
    window.bytesFrom index = [] := by
  rw [bytesFrom, Nat.sub_eq_zero_of_le behind]
  rfl

theorem tail_bytesFrom (window : Window) (index : Nat) :
    (window.bytesFrom index).tail = window.bytesFrom (index + 1) := by
  by_cases inside : index < window.length
  · rw [bytesFrom_of_lt inside, List.tail_cons]
  · rw [bytesFrom_of_le (by omega), bytesFrom_of_le (by omega)]
    rfl

end Window

/-- The first of some bytes, provided that it continues a code unit. -/
def continuationAt (index : Nat) : List UInt8 → Except CodingError UInt8
  | [] => .error .incomplete
  | byte :: _ =>
      if isContinuation byte then .ok byte else .error (.malformed index byte)

/-- One step of the decoder of lists, by what the first byte announces. -/
theorem decodeBytesOnto_cons
    (index : Nat)
    (done : List UInt16)
    (lead : UInt8)
    (rest : List UInt8) :
    decodeBytesOnto index done (lead :: rest) =
      match Lead.ofByte lead with
      | .one => decodeBytesOnto (index + 1) (UInt16.ofNat lead.toNat :: done) rest
      | .two => do
          let second ← continuationAt (index + 1) rest
          decodeBytesOnto (index + 2) (unitOfTwo lead second :: done) rest.tail
      | .three => do
          let second ← continuationAt (index + 1) rest
          let third ← continuationAt (index + 2) rest.tail
          decodeBytesOnto (index + 3) (unitOfThree lead second third :: done) rest.tail.tail
      | .invalid => .error (.malformed index lead) := by
  rw [decodeBytesOnto.eq_def]
  cases announced : Lead.ofByte lead with
  | one => simp only [announced]
  | invalid => simp only [announced]
  | two =>
      cases rest with
      | nil => simp only [announced]; rfl
      | cons second rest =>
          simp only [announced, continuationAt]
          split <;> rfl
  | three =>
      cases rest with
      | nil => simp only [announced]; rfl
      | cons second rest =>
          cases rest with
          | nil =>
              simp only [announced, continuationAt]
              split <;> rfl
          | cons third rest =>
              simp only [announced, continuationAt, List.tail_cons]
              split
              · show _ = (ite _ _ _ >>= _)
                split <;> rfl
              · rfl

/-- A computation has a result and reads below a limit only. -/
def Reads {α : Type} (computation : Scan α) (limit : Nat) (result : Except CodingError α) : Prop :=
  ∀ before, ∃ read : List Nat, computation before = Fallible.ofCheck result (read ++ before) ∧
    ∀ index ∈ read, index < limit

section Rules

variable {α β : Type}
variable {limit : Nat}

theorem reads_pure (value : α) : Reads (pure value) limit (.ok value) :=
  fun _ => ⟨[], rfl, by simp⟩

theorem reads_refuse (error : CodingError) :
    Reads (Fallible.refuse error : Scan α) limit (.error error) :=
  fun _ => ⟨[], rfl, by simp⟩

theorem Reads.bind
    {first : Scan α}
    {result : Except CodingError α}
    {next : α → Scan β}
    {after : α → Except CodingError β}
    (reads : Reads first limit result)
    (goesOn : ∀ value, Reads (next value) limit (after value)) :
    Reads (first >>= next) limit (result >>= after) := by
  intro before
  obtain ⟨read, ends, below⟩ := reads before
  cases result with
  | error error => exact ⟨read, Fallible.bind_of_error ends next, below⟩
  | ok value =>
      obtain ⟨others, endsToo, belowToo⟩ := goesOn value (read ++ before)
      refine ⟨others ++ read, ?_, ?_⟩
      · rw [Fallible.bind_of_ok ends, endsToo, List.append_assoc]
        rfl
      · intro index present
        exact (List.mem_append.mp present).elim (belowToo index) (below index)

end Rules

namespace Window

variable {window : Window}
variable {index : Nat}

theorem reads_look
    {α : Type}
    {next : UInt8 → Scan α}
    {result : Except CodingError α}
    (inside : index < window.length)
    (goesOn : Reads (next (window.byteAt index)) window.length result) :
    Reads (window.look index >>= next) window.length result := by
  intro before
  obtain ⟨read, ends, below⟩ := goesOn (index :: before)
  refine ⟨read ++ [index], ?_, ?_⟩
  · rw [List.append_assoc, List.singleton_append, ← ends]
    rfl
  · intro other present
    rcases List.mem_append.mp present with among | last
    · exact below other among
    · rwa [List.mem_singleton.mp last]

theorem reads_continuing (window : Window) (index : Nat) :
    Reads (window.continuing index) window.length
      (continuationAt index (window.bytesFrom index)) := by
  unfold continuing
  by_cases inside : index < window.length
  case pos =>
    rw [if_pos inside, bytesFrom_of_lt inside, continuationAt]
    refine reads_look inside ?_
    split
    · exact reads_pure _
    · exact reads_refuse _
  case neg =>
    rw [if_neg inside, bytesFrom_of_le (Nat.le_of_not_lt inside)]
    exact reads_refuse _

/-- Going through the indices is going through the list of the bytes there. -/
theorem reads_decodeBytesOnto (window : Window) (index : Nat) (done : List UInt16) :
    Reads (window.decodeBytesOnto index done) window.length
      (Text.decodeBytesOnto index done (window.bytesFrom index)) := by
  induction left : window.length - index using Nat.strongRecOn generalizing index done with
  | ind count inductionHypothesis =>
  rw [decodeBytesOnto]
  by_cases inside : index < window.length
  case neg =>
    rw [if_neg inside, bytesFrom_of_le (Nat.le_of_not_lt inside)]
    exact reads_pure done
  case pos =>
    have goOn : ∀ further > index, ∀ done,
        Reads (window.decodeBytesOnto further done) window.length
          (Text.decodeBytesOnto further done (window.bytesFrom further)) :=
      fun further ahead done =>
        inductionHypothesis (window.length - further) (by omega) further done rfl
    rw [if_pos inside, bytesFrom_of_lt inside, decodeBytesOnto_cons, tail_bytesFrom,
      tail_bytesFrom]
    refine reads_look inside ?_
    cases Lead.ofByte (window.byteAt index) with
    | one => exact goOn (index + 1) (by omega) _
    | two =>
        exact (window.reads_continuing (index + 1)).bind fun second =>
          goOn (index + 2) (by omega) _
    | three =>
        exact (window.reads_continuing (index + 1)).bind fun second =>
          (window.reads_continuing (index + 2)).bind fun third =>
            goOn (index + 3) (by omega) _
    | invalid => exact reads_refuse _

/-- Decoding at indices gives what decoding the bytes there gives, and reads nowhere else. -/
theorem reads_decode (window : Window) :
    Reads window.decode window.length (Text.decode window.bytes) := by
  have inTwoSteps : Text.decode window.bytes = (do
      let units ← Text.decodeBytesOnto 0 [] (window.bytesFrom 0)
      match ofUnits? units.reverse with
      | none => .error .unpaired
      | some text => .ok text) := by
    rw [Text.decode, decodeBytes, bytes]
    cases Text.decodeBytesOnto 0 [] (window.bytesFrom 0) <;> rfl
  rw [inTwoSteps]
  refine (window.reads_decodeBytesOnto 0 []).bind fun units => ?_
  cases ofUnits? units.reverse with
  | none => exact reads_refuse _
  | some text => exact reads_pure text

end Window

end Text
end GuardedHeap
