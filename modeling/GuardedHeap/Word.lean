/-!
# Machine words

Addresses, offsets and sizes are words of sixty-four bits. Where a sum, a
difference or a product has to stay exact, it is computed by the partial
operations below, which give nothing when the exact result is not a word.

The second half turns numbers into bytes and back. A number is written in a
fixed count of bytes, either with the least or with the most significant byte
first.
-/

namespace GuardedHeap
namespace Word

/-- A number as a word, if it is one. -/
def ofNat? (value : Nat) : Option UInt64 :=
  if value < UInt64.size then some (UInt64.ofNat value) else none

/-- The sum of two words, if it is a word. -/
def add? (left right : UInt64) : Option UInt64 :=
  if left.toNat + right.toNat < UInt64.size then some (left + right) else none

/-- The difference of two words, if it is not negative. -/
def sub? (left right : UInt64) : Option UInt64 :=
  if right.toNat ≤ left.toNat then some (left - right) else none

/-- The product of two words, if it is a word. -/
def mul? (left right : UInt64) : Option UInt64 :=
  if left.toNat * right.toNat < UInt64.size then some (left * right) else none

/-- A word moved by a signed distance, if the result is a word. -/
def shift? (word : UInt64) (distance : Int64) : Option UInt64 :=
  if distance.toInt < 0 then sub? word (UInt64.ofNat distance.toInt.natAbs)
  else add? word (UInt64.ofNat distance.toInt.natAbs)

/-- The length of a signed distance. -/
def magnitude (distance : Int64) : UInt64 :=
  UInt64.ofNat distance.toInt.natAbs

/-- The sum of two words, held at the largest word. -/
def saturatingAdd (left right : UInt64) : UInt64 :=
  (add? left right).getD (UInt64.ofNat (UInt64.size - 1))

/-- The difference of two words, held at zero. -/
def saturatingSub (left right : UInt64) : UInt64 :=
  (sub? left right).getD 0

/-- The sum of a list of numbers. -/
def total (numbers : List Nat) : Nat :=
  numbers.foldr (fun number rest => number + rest) 0

/-- The sum of a list of words, if it is a word. -/
def sum? (words : List UInt64) : Option UInt64 :=
  ofNat? (total (words.map UInt64.toNat))

/-- A word rounded up to the next multiple of sixteen, if that is a word. -/
def alignUp? (word : UInt64) : Option UInt64 :=
  (add? word 15).map fun raised => raised / 16 * 16

/-- A number that is a word keeps its value. -/
theorem toNat_of_ofNat?_eq_some
    {value : Nat}
    {word : UInt64}
    (isWord : ofNat? value = some word) :
    word.toNat = value := by
  unfold ofNat? at isWord
  split at isWord
  · rename_i fits
    cases isWord
    exact UInt64.toNat_ofNat_of_lt' fits
  · contradiction

@[simp] theorem total_nil : total [] = 0 := rfl

@[simp] theorem total_cons (number : Nat) (numbers : List Nat) :
    total (number :: numbers) = number + total numbers := rfl

theorem toNat_pos {word : UInt64} (nonzero : word ≠ 0) : 0 < word.toNat :=
  Nat.pos_of_ne_zero fun zero => nonzero (UInt64.toNat_inj.mp zero)

/-- A partial sum is the exact sum. -/
theorem toNat_of_add?_eq_some
    {left right total : UInt64}
    (added : add? left right = some total) :
    total.toNat = left.toNat + right.toNat := by
  unfold add? at added
  split at added
  · rename_i fits
    cases added
    rw [UInt64.toNat_add]
    exact Nat.mod_eq_of_lt fits
  · contradiction

/-- A partial difference is the exact difference. -/
theorem toNat_of_sub?_eq_some
    {left right rest : UInt64}
    (subtracted : sub? left right = some rest) :
    rest.toNat + right.toNat = left.toNat := by
  unfold sub? at subtracted
  split at subtracted
  · rename_i ordered
    cases subtracted
    rw [UInt64.toNat_sub_of_le _ _ (UInt64.le_iff_toNat_le.mpr ordered)]
    omega
  · contradiction

/-- A difference that is held at zero is one of natural numbers. -/
theorem toNat_saturatingSub (left right : UInt64) :
    (saturatingSub left right).toNat = left.toNat - right.toNat := by
  by_cases ordered : right.toNat ≤ left.toNat
  · rw [saturatingSub, sub?, if_pos ordered]
    exact UInt64.toNat_sub_of_le _ _ (UInt64.le_iff_toNat_le.mpr ordered)
  · rw [saturatingSub, sub?, if_neg ordered]
    exact (Nat.sub_eq_zero_of_le (Nat.le_of_not_le ordered)).symm

/-- The low `count` bytes of a number, least significant first. -/
def littleEndian : Nat → Nat → List UInt8
  | 0, _ => []
  | count + 1, value => UInt8.ofNat value :: littleEndian count (value / 256)

/-- The number that bytes spell when the first is the least significant. -/
def ofLittleEndian : List UInt8 → Nat
  | [] => 0
  | byte :: bytes => byte.toNat + 256 * ofLittleEndian bytes

/-- The low `count` bytes of a number, most significant first. -/
def bigEndian (count value : Nat) : List UInt8 :=
  (littleEndian count value).reverse

/-- The number that bytes spell when the first is the most significant. -/
def ofBigEndian (bytes : List UInt8) : Nat :=
  ofLittleEndian bytes.reverse

@[simp] theorem length_littleEndian (count value : Nat) :
    (littleEndian count value).length = count := by
  induction count generalizing value with
  | zero => rfl
  | succ count inductionHypothesis => simp [littleEndian, inductionHypothesis]

@[simp] theorem length_bigEndian (count value : Nat) :
    (bigEndian count value).length = count := by
  simp [bigEndian]

/-- Reading back the low bytes of a number gives the number modulo their
range. -/
@[simp] theorem ofLittleEndian_littleEndian (count value : Nat) :
    ofLittleEndian (littleEndian count value) = value % Nat.pow 256 count := by
  induction count generalizing value with
  | zero => simp [littleEndian, ofLittleEndian, Nat.mod_one]
  | succ count inductionHypothesis =>
      have low : (UInt8.ofNat value).toNat = value % 256 := by simp
      have step : Nat.pow 256 (count + 1) = 256 * Nat.pow 256 count :=
        Nat.mul_comm (Nat.pow 256 count) 256
      rw [littleEndian, ofLittleEndian, inductionHypothesis, low, step, Nat.mod_mul]

@[simp] theorem ofBigEndian_bigEndian (count value : Nat) :
    ofBigEndian (bigEndian count value) = value % Nat.pow 256 count := by
  simp [ofBigEndian, bigEndian]

/-- Bytes are determined by the number that they spell and their count. -/
@[simp] theorem littleEndian_ofLittleEndian (bytes : List UInt8) :
    littleEndian bytes.length (ofLittleEndian bytes) = bytes := by
  induction bytes with
  | nil => rfl
  | cons byte bytes inductionHypothesis =>
      have low : UInt8.ofNat (byte.toNat + 256 * ofLittleEndian bytes) = byte := by
        apply UInt8.toNat_inj.mp
        have := byte.toNat_lt
        rw [UInt8.toNat_ofNat']
        omega
      have high : (byte.toNat + 256 * ofLittleEndian bytes) / 256 =
          ofLittleEndian bytes := by
        have := byte.toNat_lt
        omega
      simp only [List.length_cons, littleEndian, ofLittleEndian, low, high,
        inductionHypothesis]

end Word
end GuardedHeap
