import RankedStore.Digits

/-! 64-bit integers with the arithmetic that refuses to wrap. -/
namespace RankedStore

/-- The 64-bit integer of this value, if there is one. -/
def int64? (n : Int) : Option Int64 :=
  if Int64.minValue.toInt ≤ n ∧ n ≤ Int64.maxValue.toInt then some (Int64.ofInt n) else none

theorem toInt_of_int64? {n : Int} {i : Int64} (h : int64? n = some i) : i.toInt = n := by
  unfold int64? at h
  split at h
  case isTrue range =>
    obtain rfl := Option.some.inj h
    rw [Int64.toInt_minValue, Int64.toInt_maxValue] at range
    exact Int64.toInt_ofInt_of_le range.1 (by omega)
  case isFalse => contradiction

theorem int64?_toInt (i : Int64) : int64? i.toInt = some i := by
  have low := Int64.minValue_le_toInt i
  have high := Int64.toInt_le i
  rw [int64?, if_pos ⟨low, high⟩, Int64.ofInt_toInt]

/-- The sum, if it is in range. -/
def addChecked (a b : Int64) : Option Int64 := int64? (a.toInt + b.toInt)

/-- Reads an optional sign and digits, as long as the value is in range. -/
def int64OfText? (text : String) : Option Int64 :=
  let (negative, digits) := Digits.splitSign text.toList
  if Digits.isNumber digits then
    let size : Int := Digits.toNat digits
    int64? (if negative then -size else size)
  else none

end RankedStore
