import GuardedHeap.Access.Output
import GuardedHeap.Proofs.Text.RoundTrip

/-!
# What outputs write

Every value has its bytes, or is a text that is too long and is refused whatever it is
written to. A measure adds the count of the bytes of a value, which it knows without them,
and a sink with enough room holds them behind those that it held before.
-/

namespace GuardedHeap

namespace Word

/-- A word moved by a number without wrapping around. -/
theorem toNat_add_ofNat
    {word : UInt64}
    {number : Nat}
    (fits : word.toNat + number < 0x10000000000000000) :
    (word + UInt64.ofNat number).toNat = word.toNat + number := by
  have exact : (UInt64.ofNat number).toNat = number :=
    UInt64.toNat_ofNat_of_lt' (show number < UInt64.size by unfold UInt64.size; omega)
  rw [UInt64.toNat_add, exact]
  omega

/-- A sum that is held at the largest word. -/
theorem toNat_saturatingAdd (left right : UInt64) :
    (saturatingAdd left right).toNat = min (left.toNat + right.toNat) 0xFFFFFFFFFFFFFFFF := by
  unfold saturatingAdd
  cases added : add? left right with
  | some sum =>
      have exact := toNat_of_add?_eq_some added
      have := sum.toNat_lt
      rw [Option.getD_some]
      omega
  | none =>
      have large : ¬ left.toNat + right.toNat < UInt64.size := by
        intro fits
        rw [add?, if_pos fits] at added
        cases added
      unfold UInt64.size at large
      rw [Option.getD_none,
        show (UInt64.ofNat (UInt64.size - 1)).toNat = 0xFFFFFFFFFFFFFFFF from rfl]
      omega

end Word

namespace Datum

/-- The bytes of a value. What is refused has none. -/
def encoded (datum : Datum) : List UInt8 :=
  match datum.pieces with
  | .error _ => []
  | .ok pieces => pieces.flatten

/-- A text that is too long for the count that stands before it. -/
def Overlong (datum : Datum) (text : List Char) : Prop :=
  datum = .counted text ∧ Text.largestLength < Text.totalLength text

theorem pieces_counted
    {text : List Char}
    (fits : Text.totalLength text ≤ Text.largestLength) :
    (counted text).pieces =
      .ok [Word.bigEndian 2 (Text.totalLength text),
        (Text.units text).flatMap Text.encodeUnit] := by
  rw [pieces, Text.encode_of_fits fits]
  dsimp only
  rw [Text.length_flatMap_encodeUnit]

theorem pieces_of_overlong
    {datum : Datum}
    {text : List Char}
    (overlong : datum.Overlong text) :
    datum.pieces = .error (.ofCoding (.tooLong (Text.totalLength text))) := by
  obtain ⟨rfl, long⟩ := overlong
  rw [pieces, Text.encode_of_long long]

/-- A text that has pieces is not too long. -/
theorem fits_of_pieces
    {text : List Char}
    {portions : List (List UInt8)}
    (coded : (counted text).pieces = .ok portions) :
    Text.totalLength text ≤ Text.largestLength := by
  refine Nat.le_of_not_lt fun long => ?_
  rw [pieces_of_overlong ⟨rfl, long⟩] at coded
  cases coded

theorem encoded_of_pieces
    {datum : Datum}
    {pieces : List (List UInt8)}
    (coded : datum.pieces = .ok pieces) :
    datum.encoded = pieces.flatten := by
  rw [encoded, coded]

/-- A value has its bytes in pieces, or it is a text that is too long. -/
theorem pieces_or_overlong (datum : Datum) :
    (∃ pieces, datum.pieces = .ok pieces) ∨ ∃ text, datum.Overlong text := by
  cases datum with
  | counted text =>
      by_cases fits : Text.totalLength text ≤ Text.largestLength
      · exact Or.inl ⟨_, pieces_counted fits⟩
      · exact Or.inr ⟨text, rfl, Nat.lt_of_not_le fits⟩
  | _ => exact Or.inl ⟨_, rfl⟩

/-- The counted form of a text that fits. -/
theorem encoded_counted
    {text : List Char}
    (fits : Text.totalLength text ≤ Text.largestLength) :
    (counted text).encoded =
      Word.bigEndian 2 (Text.totalLength text) ++ (Text.units text).flatMap Text.encodeUnit := by
  simp [encoded_of_pieces (pieces_counted fits)]

theorem length_encoded_counted
    {text : List Char}
    (fits : Text.totalLength text ≤ Text.largestLength) :
    (counted text).encoded.length = 2 + Text.totalLength text := by
  rw [encoded_counted fits, List.length_append, Word.length_bigEndian,
    Text.length_flatMap_encodeUnit]

theorem encoded_bytes (value : List UInt8) : (bytes value).encoded = value :=
  List.append_nil value

/-- A number takes as many bytes as its portion is wide. -/
theorem encoded_of_number
    {datum : Datum}
    {width value : Nat}
    (coded : datum.pieces = number width value) :
    datum.encoded = Word.bigEndian width value := by
  rw [encoded_of_pieces coded, List.flatten_cons, List.flatten_nil, List.append_nil]

theorem length_encoded_of_number
    {datum : Datum}
    {width value : Nat}
    (coded : datum.pieces = number width value) :
    datum.encoded.length = width := by
  rw [encoded_of_number coded, Word.length_bigEndian]

theorem length_encoded_units (text : List Char) :
    (units text).encoded.length = 2 * (Text.units text).length := by
  rw [encoded, pieces]
  dsimp only
  induction Text.units text with
  | nil => rfl
  | cons unit units inductionHypothesis =>
      rw [List.map_cons, List.flatten_cons, List.length_append, inductionHypothesis,
        Word.length_bigEndian, List.length_cons]
      omega

/-- A text that is too long has no bytes. -/
theorem encoded_of_overlong
    {datum : Datum}
    {text : List Char}
    (overlong : datum.Overlong text) :
    datum.encoded = [] := by
  rw [encoded, pieces_of_overlong overlong]

/-- The bytes of values, one behind the other. -/
def allEncoded (data : List Datum) : List UInt8 :=
  data.flatMap encoded

@[simp] theorem allEncoded_nil : allEncoded [] = [] := rfl

@[simp] theorem allEncoded_cons (datum : Datum) (data : List Datum) :
    allEncoded (datum :: data) = datum.encoded ++ allEncoded data :=
  List.flatMap_cons

@[simp] theorem allEncoded_append (earlier later : List Datum) :
    allEncoded (earlier ++ later) = allEncoded earlier ++ allEncoded later :=
  List.flatMap_append

end Datum

namespace Measure

/-- A measure after so many more bytes. -/
def plus (measure : Measure) (count : Nat) : Measure :=
  ⟨Word.saturatingAdd measure.size (UInt64.ofNat count)⟩

/-- As long as the sum is a word, a measure adds exactly. -/
theorem toNat_plus
    {measure : Measure}
    {count : Nat}
    (fits : measure.size.toNat + count < UInt64.size) :
    (measure.plus count).size.toNat = measure.size.toNat + count := by
  have exact : (UInt64.ofNat count).toNat = count := UInt64.toNat_ofNat_of_lt' (by omega)
  unfold UInt64.size at fits
  rw [plus, Word.toNat_saturatingAdd, exact]
  omega

theorem plus_ofNat
    {first second : Nat}
    (fits : first + second < UInt64.size) :
    plus ⟨UInt64.ofNat first⟩ second = ⟨UInt64.ofNat (first + second)⟩ := by
  have exact : (UInt64.ofNat first).toNat = first := UInt64.toNat_ofNat_of_lt' (by omega)
  have sum : (plus ⟨UInt64.ofNat first⟩ second).size.toNat = _ := toNat_plus (by rwa [exact])
  rw [exact, ← UInt64.toNat_ofNat_of_lt' fits] at sum
  exact congrArg Measure.mk (UInt64.toNat_inj.mp sum)

theorem add_ofNat?
    {count : Nat}
    (isWord : count < UInt64.size)
    (measure : Measure) :
    (do add (← Fallible.exactly (Word.ofNat? count)) : Fallible AccessError Measure Unit) measure =
      .ok () (measure.plus count) := by
  rw [Word.ofNat?, if_pos isWord]
  rfl

/-- A measure adds the count of the bytes of a value. -/
theorem write_of_pieces
    {datum : Datum}
    {pieces : List (List UInt8)}
    (coded : datum.pieces = .ok pieces)
    (isWord : datum.encoded.length < UInt64.size)
    (measure : Measure) :
    write datum measure = .ok () (measure.plus datum.encoded.length) := by
  cases datum with
  | bytes value =>
      rw [Datum.encoded_bytes] at isWord ⊢
      have added : Output.writeBytes value measure = .ok () (measure.plus value.length) :=
        add_ofNat? isWord measure
      exact Fallible.bind_of_ok added fun _ => Output.writePieces []
  | units text =>
      rw [Datum.length_encoded_units] at isWord ⊢
      exact add_ofNat? isWord measure
  | counted text =>
      have fits := Datum.fits_of_pieces coded
      rw [Datum.length_encoded_counted fits] at isWord ⊢
      simp only [write, Datum.carrier]
      rw [Text.encodedLength, if_pos fits]
      exact add_ofNat? isWord measure
  | _ => rfl

theorem write_of_overlong
    {datum : Datum}
    {text : List Char}
    (overlong : datum.Overlong text)
    (measure : Measure) :
    write datum measure =
      .error (.refused (.ofCoding (.tooLong (Text.totalLength text)))) measure := by
  obtain ⟨rfl, long⟩ := overlong
  simp only [write, Datum.carrier]
  rw [Text.encodedLength, if_neg (Nat.not_le.mpr long)]
  rfl

end Measure

namespace Output

/-- A text that is too long is refused before anything is written. -/
theorem write_of_overlong
    {σ : Type}
    [Output σ]
    {datum : Datum}
    {text : List Char}
    (overlong : datum.Overlong text)
    (state : σ) :
    write datum state =
      .error (.refused (.ofCoding (.tooLong (Text.totalLength text)))) state := by
  rw [write, Datum.pieces_of_overlong overlong]
  rfl

end Output

namespace Sink

/-- A sink that holds more bytes. -/
def holding (sink : Sink) (bytes : List UInt8) : Sink :=
  { sink with held := sink.held ++ bytes.toArray }

@[simp] theorem size_holding (sink : Sink) (bytes : List UInt8) :
    (sink.holding bytes).held.size = sink.held.size + bytes.length := by
  simp [holding]

@[simp] theorem holding_nil (sink : Sink) : sink.holding [] = sink := by
  simp [holding]

@[simp] theorem holding_holding (sink : Sink) (first second : List UInt8) :
    (sink.holding first).holding second = sink.holding (first ++ second) := by
  simp [holding]

theorem writeBytes_of_room
    {sink : Sink}
    {bytes : List UInt8}
    (fits : sink.held.size + bytes.length ≤ sink.limit.toNat) :
    Output.writeBytes bytes sink = .ok () (sink.holding bytes) := by
  have := sink.limit.toNat_lt
  have isWord : bytes.length < UInt64.size := by unfold UInt64.size; omega
  have exact : (UInt64.ofNat bytes.length).toNat = bytes.length :=
    UInt64.toNat_ofNat_of_lt' isWord
  have roomy : ¬ sink.available < UInt64.ofNat bytes.length := by
    have held : (UInt64.ofNat sink.held.size).toNat = sink.held.size :=
      UInt64.toNat_ofNat_of_lt' (show sink.held.size < UInt64.size by unfold UInt64.size; omega)
    rw [UInt64.lt_iff_toNat_lt, exact, available, UInt64.toNat_sub_of_le, held]
    · omega
    · rw [UInt64.le_iff_toNat_le, held]
      omega
  show (Fallible.exactly (Word.ofNat? bytes.length) >>= _) sink = _
  rw [Word.ofNat?, if_pos isWord, Fallible.bind_of_ok (Fallible.exactly_some _ sink), if_neg roomy]
  rfl

theorem writePieces_of_room
    {sink : Sink}
    {pieces : List (List UInt8)}
    (fits : sink.held.size + pieces.flatten.length ≤ sink.limit.toNat) :
    Output.writePieces pieces sink = .ok () (sink.holding pieces.flatten) := by
  induction pieces generalizing sink with
  | nil =>
      rw [List.flatten_nil, holding_nil]
      rfl
  | cons piece pieces inductionHypothesis =>
      rw [List.flatten_cons, List.length_append] at fits
      have first : Output.writeBytes piece sink = .ok () (sink.holding piece) :=
        writeBytes_of_room (by omega)
      have rest : (sink.holding piece).held.size + pieces.flatten.length ≤
          (sink.holding piece).limit.toNat := by
        rw [size_holding, Nat.add_assoc]
        exact fits
      rw [Output.writePieces, Fallible.bind_of_ok first, inductionHypothesis rest,
        holding_holding, List.flatten_cons]

/-- A sink holds the bytes of a value behind those that it held before. -/
theorem write_of_pieces
    {datum : Datum}
    {pieces : List (List UInt8)}
    {sink : Sink}
    (coded : datum.pieces = .ok pieces)
    (fits : sink.held.size + datum.encoded.length ≤ sink.limit.toNat) :
    Output.write datum sink = .ok () (sink.holding datum.encoded) := by
  rw [Datum.encoded_of_pieces coded] at fits ⊢
  rw [Output.write, coded, Fallible.bind_of_ok (Fallible.ofCheck_ok pieces sink)]
  exact writePieces_of_room fits

end Sink
end GuardedHeap
