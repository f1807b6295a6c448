import Mathlib.Tactic.Linarith
import RankedStore.Proofs.Binary64.Shortest

/-! Products and quotients. Both are rounded from exact values, so products are monotone, and a
product or quotient of whole numbers that are floats themselves is the float nearest to it. -/
namespace RankedStore.Binary64

variable {m n n' d k : Nat} {negative : Bool} {x y x' y' : Binary64}

theorem toNat_ofMagnitude (small : m < signWeight) :
    (ofMagnitude negative m).bits.toNat = if negative then m + signWeight else m := by
  show (UInt64.ofNat _).toNat = _
  have size : UInt64.size = 2 * signWeight := rfl
  apply UInt64.toNat_ofNat_of_lt'
  split <;> omega

theorem magnitude_ofMagnitude (small : m < signWeight) :
    (ofMagnitude negative m).magnitude = m := by
  rw [magnitude, toNat_ofMagnitude small]
  cases negative with
  | true => rw [if_pos rfl, Nat.add_mod_right, Nat.mod_eq_of_lt small]
  | false => exact Nat.mod_eq_of_lt small

theorem isNegative_ofMagnitude (small : m < signWeight) :
    (ofMagnitude negative m).isNegative = negative := by
  rw [isNegative, toNat_ofMagnitude small]
  cases negative with
  | true => simp
  | false => simpa using small

theorem infiniteMagnitude_lt : infiniteMagnitude < signWeight := by decide

theorem nearestMagnitude_lt (n d : Nat) : nearestMagnitude n d < signWeight :=
  Nat.lt_of_le_of_lt (Nat.min_le_right ..) infiniteMagnitude_lt

theorem magnitude_mul : (x.mul y).magnitude = nearestMagnitude (x.units * y.units) unitsPerOne :=
  magnitude_ofMagnitude (nearestMagnitude_lt ..)

theorem magnitude_ofNat : (ofNat n).magnitude = nearestMagnitude (n * unitsPerOne) 1 :=
  magnitude_ofMagnitude (nearestMagnitude_lt ..)

theorem isNegative_ofNat : (ofNat n).isNegative = false :=
  isNegative_ofMagnitude (nearestMagnitude_lt ..)

theorem units_ofNat_mono (le : n ≤ n') : (ofNat n).units ≤ (ofNat n').units := by
  unfold units
  rw [magnitude_ofNat, magnitude_ofNat]
  exact unitsOf_strictMono.monotone (nearestMagnitude_mono (by decide) (Nat.mul_le_mul_right _ le))

theorem magnitude_mul_mono (first : x.units ≤ x'.units) (second : y.units ≤ y'.units) :
    (x.mul y).magnitude ≤ (x'.mul y').magnitude := by
  rw [magnitude_mul, magnitude_mul]
  exact nearestMagnitude_mono unitsPerOne_pos (Nat.mul_le_mul first second)

/-! Whole numbers that are floats. -/

/-- The float of a whole number has exactly its value. -/
def Exact (n : Nat) : Prop := (ofNat n).units = n * unitsPerOne

instance (n : Nat) : Decidable (Exact n) := inferInstanceAs (Decidable (_ = _))

theorem nearestMagnitude_unitsOf (finite : m ≤ infiniteMagnitude) :
    nearestMagnitude (unitsOf m) 1 = m := by
  refine nearestMagnitude_eq ?_ (by decide) finite
  have above := unitsOf_lt_succ m
  cases m with
  | zero => exact ⟨Nat.le_refl _, by omega, by omega⟩
  | succ m =>
    have below := unitsOf_lt_succ m
    apply Between.of_strict
    · rw [Nat.add_sub_cancel]
      omega
    · omega

theorem exact_of_lt (small : n < 2 ^ 53) : Exact n := by
  suffices place : ∃ m ≤ infiniteMagnitude, unitsOf m = n * unitsPerOne by
    obtain ⟨m, finite, value⟩ := place
    rw [Exact, units, magnitude_ofNat, ← value, nearestMagnitude_unitsOf finite]
  by_cases zero : n = 0
  · exact ⟨0, Nat.zero_le _, by rw [zero, Nat.zero_mul]; rfl⟩
  have bits : n.log2 < 53 := (Nat.log2_lt zero).mpr small
  -- The leading bit of `n` is brought to that of a fraction.
  have split : 2 ^ 52 = 2 ^ n.log2 * 2 ^ (52 - n.log2) := by
    rw [← Nat.pow_add]
    congr 1
    omega
  have lower : exponentWeight ≤ n * 2 ^ (52 - n.log2) := by
    show 2 ^ 52 ≤ _
    rw [split]
    exact Nat.mul_le_mul_right _ (Nat.log2_self_le zero)
  have upper : n * 2 ^ (52 - n.log2) ≤ 2 * exponentWeight := by
    show _ ≤ 2 * 2 ^ 52
    rw [split, ← Nat.mul_assoc, ← Nat.pow_succ']
    exact Nat.mul_le_mul_right _ (Nat.le_of_lt Nat.lt_log2_self)
  refine ⟨(1074 - (52 - n.log2)) * exponentWeight + n * 2 ^ (52 - n.log2), ?_, ?_⟩
  · simp only [exponentWeight, infiniteMagnitude] at *
    omega
  · rw [unitsOf_place ⟨upper, .inl lower⟩, Nat.mul_assoc, ← Nat.pow_add, unitsPerOne,
      Nat.one_shiftLeft]
    congr 2
    omega

theorem exact_tenTo_all : (List.range 23).all (fun k => decide (Exact (tenTo k))) = true := by
  decide +kernel

theorem exact_tenTo (few : k ≤ 22) : Exact (tenTo k) :=
  of_decide_eq_true (List.all_eq_true.mp exact_tenTo_all k (List.mem_range.mpr (by omega)))

theorem Between.zero (d : Nat) : Between 0 0 d where
  low := by
    have least : unitsOf (0 - 1) + unitsOf 0 = 0 := rfl
    rw [least, Nat.zero_mul]
  high := Nat.zero_le _
  odd := nofun

/-- Both parts of the quotient may be multiplied by the same. -/
theorem Between.scale {t : Nat} (between : Between m n d) (positive : 0 < t) :
    Between m (n * t) (d * t) := by
  obtain ⟨low, high, odd⟩ := between
  rw [← Nat.mul_le_mul_right_iff positive] at low high
  constructor
  · linarith
  · linarith
  · intro last
    obtain ⟨low, high⟩ := odd last
    rw [← Nat.mul_lt_mul_right positive] at low high
    constructor <;> linarith

theorem mul_exact {a b : Nat} (first : Exact a) (second : Exact b)
    (between : Between m (a * b * unitsPerOne) 1) (finite : m ≤ infiniteMagnitude) :
    (ofNat a).mul (ofNat b) = ofMagnitude false m := by
  rw [mul, isNegative_ofNat, isNegative_ofNat, first, second]
  have value : a * unitsPerOne * (b * unitsPerOne) = a * b * unitsPerOne * unitsPerOne := by ring
  rw [value]
  have scaled := between.scale unitsPerOne_pos
  rw [Nat.one_mul] at scaled
  rw [nearestMagnitude_eq scaled unitsPerOne_pos finite]
  rfl

theorem div_exact {a b : Nat} (first : Exact a) (second : Exact b) (positive : 0 < b)
    (between : Between m (a * unitsPerOne) b) (finite : m ≤ infiniteMagnitude) :
    (ofNat a).div (ofNat b) = ofMagnitude false m := by
  rw [div, isNegative_ofNat, isNegative_ofNat, first, second,
    nearestMagnitude_eq (between.scale unitsPerOne_pos)
    (Nat.mul_pos positive unitsPerOne_pos) finite]
  rfl

end RankedStore.Binary64
