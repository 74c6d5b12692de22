import GuardedHeap.Proofs.Access.Puts
import GuardedHeap.Proofs.Memory.Confined

/-!
# Outputs in agreement

A measure, a sink and a cursor that are given the same values, one after the other, take and
refuse the same ones, and after each of them agree on the count of bytes. The block of the
cursor then starts with the bytes that the sink holds and is as it was behind them.

All three are what they are because of the bytes of the values that they were given, as
`Wrote` says.
-/

namespace GuardedHeap

open Fallible (final)

/-- The state after values were written in turn, whatever became of each of them. -/
def Output.after
    {σ : Type}
    (write : Datum → Fallible AccessError σ Unit)
    (data : List Datum)
    (state : σ) :
    σ :=
  data.foldl (fun state datum => final (write datum) state) state

namespace Agreement

open Output (after)

variable {block : Block}
variable {memory : Memory}
variable {limit : UInt64}
variable {bytes : List UInt8}
variable {measure : Measure}
variable {sink : Sink}
variable {cursor : Cursor × Memory}
variable {datum : Datum}
variable {data : List Datum}

/-- A measure, a sink and a cursor agree on what was written to a block. -/
structure Agree
    (block : Block)
    (memory : Memory)
    (measure : Measure)
    (sink : Sink)
    (cursor : Cursor × Memory) : Prop where
  block_eq : cursor.1.block = block
  measured : measure.size = cursor.1.offset
  held : sink.held.size = cursor.1.offset.toNat
  written : cursor.2.Holds block.address sink.held.toList
  unchanged : ∀ address, ¬ (⟨block.address, cursor.1.offset⟩ : Extent).Contains address →
    cursor.2.get address = memory.get address

/-- All three take a value, or they refuse it for one cause and stay as they were. -/
inductive SameAnswer
    (datum : Datum)
    (measure : Measure)
    (sink : Sink)
    (cursor : Cursor × Memory) : Prop
  | taken
      (measured : ∃ after, Measure.write datum measure = .ok () after)
      (held : ∃ after, Output.write datum sink = .ok () after)
      (put : ∃ after, Cursor.write datum cursor = .ok () after)
  | refused
      {text : List Char}
      {error : AccessError}
      (overlong : datum.Overlong text)
      (cause : error = .ofCoding (.tooLong (Text.totalLength text)))
      (measured : Measure.write datum measure = .error (.refused error) measure)
      (held : Output.write datum sink = .error (.refused error) sink)
      (put : Cursor.write datum cursor = .error (.refused error) cursor)

/-- What bytes make of a measure, a sink and a cursor that started with nothing. -/
structure Wrote
    (block : Block)
    (memory : Memory)
    (limit : UInt64)
    (bytes : List UInt8)
    (measure : Measure)
    (sink : Sink)
    (cursor : Cursor × Memory) : Prop where
  measured : measure = ⟨UInt64.ofNat bytes.length⟩
  held : sink = ⟨limit, bytes.toArray⟩
  stands : cursor.1 = ⟨block, UInt64.ofNat bytes.length⟩
  written : cursor.2.get = Memory.overlay memory.get block.address bytes

section Steps

variable (wrote : Wrote block memory limit bytes measure sink cursor)
variable (inside : block.Inside)

include wrote inside

theorem Wrote.agree (fits : bytes.length ≤ block.size.toNat) :
    Agree block memory measure sink cursor := by
  obtain ⟨⟨_, offset⟩, after⟩ := cursor
  obtain ⟨rfl, rfl, stands, written⟩ := wrote
  cases stands
  have short : bytes.length < UInt64.size := Nat.lt_of_le_of_lt fits block.size.toNat_lt
  have exact : (UInt64.ofNat bytes.length).toNat = bytes.length :=
    UInt64.toNat_ofNat_of_lt' short
  refine ⟨rfl, rfl, exact.symm, Memory.holds_of_get_eq_overlay (Nat.le_of_lt short) written, ?_⟩
  intro address outside
  have bounded : (⟨block.address, UInt64.ofNat bytes.length⟩ : Extent).stop ≤
      0x10000000000000000 := by
    refine Nat.le_trans (Nat.add_le_add_left ?_ _) inside.bounded
    rw [exact]
    exact fits
  rw [Extent.contains_iff_offset_lt bounded, exact] at outside
  rw [written, Memory.overlay_apply _ _ _ _ (Nat.le_of_lt short),
    List.getElem?_eq_none (Nat.le_of_not_lt outside), Option.getD_none]

/-- One value more: its bytes are written by all three, or by none. -/
theorem Wrote.step
    (fits : bytes.length + datum.encoded.length ≤ block.size.toNat)
    (roomy : bytes.length + datum.encoded.length ≤ limit.toNat) :
    SameAnswer datum measure sink cursor ∧
      Wrote block memory limit (bytes ++ datum.encoded) (final (Measure.write datum) measure)
        (final (Output.write datum) sink) (final (Cursor.write datum) cursor) := by
  obtain ⟨⟨_, offset⟩, before⟩ := cursor
  obtain ⟨rfl, rfl, stands, written⟩ := wrote
  cases stands
  have isWord := Nat.lt_of_le_of_lt fits block.size.toNat_lt
  have exact : (UInt64.ofNat bytes.length).toNat = bytes.length :=
    UInt64.toNat_ofNat_of_lt' (Nat.lt_of_le_of_lt (Nat.le_add_right _ _) isWord)
  have encodedIsWord := Nat.lt_of_le_of_lt (Nat.le_add_left _ _) isWord
  rcases datum.pieces_or_overlong with ⟨pieces, coded⟩ | ⟨text, overlong⟩
  case inl =>
    have measured := Measure.write_of_pieces coded encodedIsWord ⟨UInt64.ofNat bytes.length⟩
    have held : Output.write datum (⟨limit, bytes.toArray⟩ : Sink) = .ok () _ :=
      Sink.write_of_pieces coded roomy
    obtain ⟨after, put, writtenAfter⟩ :=
      (Cursor.puts_write coded encodedIsWord).room block (UInt64.ofNat bytes.length) before inside
        (by rwa [exact])
    refine ⟨.taken ⟨_, measured⟩ ⟨_, held⟩ ⟨_, put⟩, ?_⟩
    rw [final, final, final, measured, held, put]
    refine ⟨?_, ?_, ?_, ?_⟩
    · rw [Measure.plus_ofNat isWord, List.length_append]
    · simp [Sink.holding]
    · rw [List.length_append, UInt64.ofNat_add]
    · rw [writtenAfter, written, Memory.overlay_append]
  case inr =>
    have measured := Measure.write_of_overlong overlong ⟨UInt64.ofNat bytes.length⟩
    have held := Output.write_of_overlong overlong (⟨limit, bytes.toArray⟩ : Sink)
    have put := Cursor.write_of_overlong overlong (⟨block, UInt64.ofNat bytes.length⟩, before)
    refine ⟨.refused overlong rfl measured held put, ?_⟩
    rw [final, final, final, measured, held, put, Datum.encoded_of_overlong overlong,
      List.append_nil]
    exact ⟨rfl, rfl, rfl, written⟩

end Steps

theorem wrote_start
    (block : Block)
    (memory : Memory)
    (limit : UInt64) :
    Wrote block memory limit [] {} { limit } (Cursor.start block, memory) :=
  ⟨rfl, rfl, rfl, rfl⟩

/-- The bytes of all values are written by all three. -/
theorem Wrote.after
    (wrote : Wrote block memory limit bytes measure sink cursor)
    (inside : block.Inside)
    (fits : bytes.length + (Datum.allEncoded data).length ≤ block.size.toNat)
    (roomy : bytes.length + (Datum.allEncoded data).length ≤ limit.toNat) :
    Wrote block memory limit (bytes ++ Datum.allEncoded data)
      (Output.after Measure.write data measure) (Output.after Output.write data sink)
      (Output.after Cursor.write data cursor) := by
  induction data generalizing bytes measure sink cursor with
  | nil =>
      rw [Datum.allEncoded_nil, List.append_nil]
      exact wrote
  | cons datum data inductionHypothesis =>
      rw [Datum.allEncoded_cons, List.length_append] at fits roomy
      rw [Datum.allEncoded_cons, ← List.append_assoc]
      have agreed : SameAnswer datum measure sink cursor ∧ _ :=
        wrote.step inside (by omega) (by omega)
      refine inductionHypothesis agreed.2 ?_ ?_
      · rw [List.length_append, Nat.add_assoc]
        exact fits
      · rw [List.length_append, Nat.add_assoc]
        exact roomy

/-- A measure, a sink and a cursor that are given the same values agree on each of them and
after each of them, if the block of the cursor and the sink have room for the bytes. -/
theorem outputs_agree
    (inside : block.Inside)
    (fits : (Datum.allEncoded data).length ≤ block.size.toNat)
    (roomy : (Datum.allEncoded data).length ≤ limit.toNat)
    (memory : Memory)
    {earlier later : List Datum}
    (split : data = earlier ++ later) :
    let measure := after Measure.write earlier {}
    let sink := after Output.write earlier ({ limit } : Sink)
    let cursor := after Cursor.write earlier (Cursor.start block, memory)
    Agree block memory measure sink cursor ∧
      ∀ datum rest, later = datum :: rest → SameAnswer datum measure sink cursor := by
  subst split
  rw [Datum.allEncoded_append, List.length_append] at fits roomy
  have wrote : Wrote block memory limit (Datum.allEncoded earlier) (after Measure.write earlier {})
      (after Output.write earlier { limit })
      (after Cursor.write earlier (Cursor.start block, memory)) :=
    (wrote_start block memory limit).after inside
      (by rw [List.length_nil]; omega) (by rw [List.length_nil]; omega)
  refine ⟨wrote.agree inside (by omega), ?_⟩
  rintro datum rest rfl
  rw [Datum.allEncoded_cons, List.length_append] at fits roomy
  exact (wrote.step inside (by omega) (by omega)).1

/-- A flag, two code units and a counted text, in a block with exactly enough room. -/
theorem outputs_agree_of_short_record :
    let block : Block := .whole ⟨⟨⟨4096⟩, 10⟩, true, none⟩
    let earlier : List Datum := [.bool true, .units ['a', 'b']]
    let later : List Datum := [.counted ['a', 'é']]
    let measure := after Measure.write earlier {}
    let sink := after Output.write earlier ({ limit := 10 } : Sink)
    let cursor := after Cursor.write earlier (Cursor.start block, .zero)
    block.Inside ∧ (Datum.allEncoded (earlier ++ later)).length = 10 ∧
      Agree block .zero measure sink cursor ∧
      ∀ datum rest, later = datum :: rest → SameAnswer datum measure sink cursor := by
  intro block earlier later
  have inside : block.Inside := Block.inside_whole (by decide)
  have length_eq : (Datum.allEncoded (earlier ++ later)).length = 10 := by decide +kernel
  have roomy : (Datum.allEncoded (earlier ++ later)).length ≤ (10 : UInt64).toNat :=
    Nat.le_of_eq length_eq
  exact ⟨inside, length_eq, outputs_agree inside roomy roomy .zero rfl⟩

end Agreement
end GuardedHeap
