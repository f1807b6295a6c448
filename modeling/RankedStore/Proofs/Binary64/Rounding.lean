import Mathlib.Order.Monotone.Basic
import Mathlib.Tactic.Positivity
import Mathlib.Tactic.Ring
import RankedStore.Binary64

/-! Rounding to the nearest magnitude. A magnitude `e * 2 ^ 52 + f` has the value `f * 2 ^ e`, also
where `f` is the next power of two, so a rounded quotient stands for its own value. A quotient lies
between the midpoints around the magnitude that it is rounded to, and this determines the magnitude
and makes rounding monotone. -/
namespace RankedStore.Binary64

variable {m e f n n' d k q r : Nat}

/-- An exponent and a fraction with its leading bit, which is missing only where the exponent is
least. The fraction may have been rounded up to the next power of two. -/
structure Place (e f : Nat) : Prop where
  upper : f ≤ 2 * exponentWeight
  lower : exponentWeight ≤ f ∨ e = 0

theorem unitsOf_place (place : Place e f) : unitsOf (e * exponentWeight + f) = f * 2 ^ e := by
  have weight : exponentWeight = 4503599627370496 := rfl
  obtain ⟨upper, lower⟩ := place
  unfold unitsOf
  by_cases low : f < exponentWeight
  · obtain rfl : e = 0 := lower.resolve_left (Nat.not_le_of_lt low)
    rw [Nat.zero_mul, Nat.zero_add, Nat.div_eq_of_lt low, Nat.mod_eq_of_lt low, if_pos rfl,
      Nat.pow_zero, Nat.mul_one]
  by_cases next : f = 2 * exponentWeight
  · have sum : e * exponentWeight + f = (e + 2) * exponentWeight := by
      rw [next]
      ring
    rw [sum, Nat.mul_div_cancel _ (by omega), Nat.mul_mod_left, if_neg (by omega),
      Nat.shiftLeft_eq, next]
    show (0 + exponentWeight) * 2 ^ (e + 1) = _
    ring
  · have sum : e * exponentWeight + f = exponentWeight * (e + 1) + (f - exponentWeight) := by
      rw [Nat.mul_add, Nat.mul_comm]
      omega
    have less : f - exponentWeight < exponentWeight := by omega
    rw [sum, Nat.mul_add_div (by omega), Nat.div_eq_of_lt less, Nat.mul_add_mod,
      Nat.mod_eq_of_lt less, if_neg (by omega), Nat.shiftLeft_eq, Nat.sub_add_cancel (by omega)]
    rfl

/-- The place of a magnitude, where the fraction is not rounded up. -/
theorem exists_place (m : Nat) :
    ∃ e f, m = e * exponentWeight + f ∧ f < 2 * exponentWeight ∧ Place e f := by
  simp only [exponentWeight]
  by_cases low : m < 4503599627370496
  · exact ⟨0, m, by omega, by omega, by simp only [exponentWeight]; omega, .inr rfl⟩
  · refine ⟨m / 4503599627370496 - 1, m % 4503599627370496 + 4503599627370496, by omega, by omega,
      ?_, .inl ?_⟩
    all_goals simp only [exponentWeight]
    all_goals omega

theorem Place.succ (place : Place e f) (below : f < 2 * exponentWeight) : Place e (f + 1) :=
  ⟨below, place.lower.imp_left Nat.le_succ_of_le⟩

theorem unitsOf_lt_succ (m : Nat) : unitsOf m < unitsOf (m + 1) := by
  obtain ⟨e, f, rfl, below, place⟩ := exists_place m
  rw [unitsOf_place place, Nat.add_assoc, unitsOf_place (place.succ below)]
  exact Nat.mul_lt_mul_of_pos_right (Nat.lt_succ_self f) (Nat.two_pow_pos e)

theorem unitsOf_strictMono : StrictMono unitsOf := strictMono_nat_of_lt_succ unitsOf_lt_succ

/-! Rounding. -/

/-- The quotient of `n` by `d` up to a power of two, with the fraction that is kept. -/
structure Scaled (n d k q r : Nat) : Prop where
  split : n = q * (d * 2 ^ k) + r
  rest : r < d * 2 ^ k
  upper : q < 2 * exponentWeight
  lower : exponentWeight ≤ q ∨ k = 0

/-- Half of a step and less is dropped, but an odd fraction is not left where it is half of one. -/
def roundedHalf (q r step : Nat) : Nat :=
  if 2 * r < step ∨ (2 * r = step ∧ q % 2 = 0) then q else q + 1

theorem roundedHalf_cases (q r step : Nat) :
    (roundedHalf q r step = q ∧ 2 * r ≤ step ∧ (2 * r = step → q % 2 = 0)) ∨
      (roundedHalf q r step = q + 1 ∧ step ≤ 2 * r ∧ (2 * r = step → q % 2 = 1)) := by
  unfold roundedHalf
  split
  case isTrue down => exact .inl ⟨rfl, by omega⟩
  case isFalse up => exact .inr ⟨rfl, by omega⟩

theorem exists_scaled (n : Nat) (positive : 0 < d) : ∃ k q r, Scaled n d k q r := by
  have scaled : ∀ k, n / (d * 2 ^ k) < 2 * exponentWeight →
    exponentWeight ≤ n / (d * 2 ^ k) ∨ k = 0 →
      ∃ k q r, Scaled n d k q r := by
    intro k upper lower
    refine ⟨k, n / (d * 2 ^ k), n % (d * 2 ^ k), ?_, Nat.mod_lt _ (by positivity), upper, lower⟩
    rw [Nat.mul_comm, Nat.div_add_mod]
  by_cases small : n / d < 2 * exponentWeight
  · exact scaled 0 (by simpa using small) (.inr rfl)
  · have least : n / d ≠ 0 := by
      intro zero
      simp [zero, exponentWeight] at small
    have large : 53 ≤ (n / d).log2 := by
      rw [Nat.le_log2 least]
      simpa [exponentWeight] using small
    refine scaled ((n / d).log2 - 52) ?_ (.inl ?_)
    all_goals rw [← Nat.div_div_eq_div_mul]
    · rw [Nat.div_lt_iff_lt_mul (by positivity)]
      refine Nat.lt_of_lt_of_eq Nat.lt_log2_self ?_
      show _ = 2 ^ 53 * _
      rw [← Nat.pow_add]
      congr 1
      omega
    · rw [Nat.le_div_iff_mul_le (by positivity)]
      refine Nat.le_trans (Nat.le_of_eq ?_) (Nat.log2_self_le least)
      show 2 ^ 52 * _ = _
      rw [← Nat.pow_add]
      congr 1
      omega

namespace Scaled

theorem positive (scaled : Scaled n d k q r) : 0 < d :=
  Nat.pos_of_ne_zero fun zero => by simpa [zero] using scaled.rest

theorem quotient (scaled : Scaled n d k q r) : n / (d * 2 ^ k) = q := by
  have positive := scaled.positive
  have step : 0 < d * 2 ^ k := by positivity
  rw [scaled.split, Nat.mul_comm q, Nat.mul_add_div step, Nat.div_eq_of_lt scaled.rest,
    Nat.add_zero]

/-- The fraction that is kept tells how many bits are dropped. -/
theorem dropped (scaled : Scaled n d k q r) : (n / d).log2 + 1 - 53 = k := by
  have quotient : n / d / 2 ^ k = q := by rw [Nat.div_div_eq_div_mul, scaled.quotient]
  obtain ⟨_, _, upper, lower⟩ := scaled
  have power : 0 < 2 ^ k := Nat.two_pow_pos k
  rcases lower with lower | rfl
  · have least : n / d ≠ 0 := by
      intro zero
      rw [zero, Nat.zero_div] at quotient
      simp [← quotient, exponentWeight] at lower
    have high : (n / d).log2 < 53 + k := by
      rw [Nat.log2_lt least, Nat.pow_add]
      exact (Nat.div_lt_iff_lt_mul power).mp (quotient ▸ upper)
    have low : 52 + k ≤ (n / d).log2 := by
      rw [Nat.le_log2 least, Nat.pow_add]
      exact (Nat.le_div_iff_mul_le power).mp (quotient ▸ lower)
    omega
  · rw [Nat.pow_zero, Nat.div_one] at quotient
    rw [quotient]
    by_cases zero : q = 0
    · subst zero
      rfl
    · have high : q.log2 < 53 := (Nat.log2_lt zero).mpr upper
      omega

theorem nearestMagnitude (scaled : Scaled n d k q r) : nearestMagnitude n d =
    min (k * exponentWeight + roundedHalf q r (d * 2 ^ k)) infiniteMagnitude := by
  unfold Binary64.nearestMagnitude
  have remainder : n % (d * 2 ^ k) = r := by
    rw [scaled.split, Nat.mul_comm q, Nat.mul_add_mod, Nat.mod_eq_of_lt scaled.rest]
  simp only [scaled.dropped, Nat.shiftLeft_eq, scaled.quotient, remainder, roundedHalf]

end Scaled

/-- What lies between the midpoints to the neighbors of a magnitude is rounded to it. The midpoints
themselves are rounded to it if its last bit is even. -/
structure Between (m n d : Nat) : Prop where
  low : (unitsOf (m - 1) + unitsOf m) * d ≤ 2 * n
  high : 2 * n ≤ (unitsOf m + unitsOf (m + 1)) * d
  odd : m % 2 = 1 → (unitsOf (m - 1) + unitsOf m) * d < 2 * n ∧
    2 * n < (unitsOf m + unitsOf (m + 1)) * d

/-- A larger quotient does not lie next to a smaller magnitude. Of two magnitudes that are next to
each other one is odd, so they do not share the midpoint. -/
theorem Between.mono {m' : Nat} (between : Between m n d) (between' : Between m' n' d)
    (positive : 0 < d) (le : n ≤ n') : m ≤ m' := by
  apply Nat.le_of_not_lt
  intro less
  obtain ⟨low, _, odd⟩ := between
  obtain ⟨_, high, odd'⟩ := between'
  rcases Nat.lt_or_eq_of_le (Nat.le_sub_one_of_lt less) with far | next
  · have first := unitsOf_strictMono far
    have second := unitsOf_strictMono.monotone (show m' + 1 ≤ m by omega)
    have := Nat.mul_lt_mul_of_pos_right (Nat.add_lt_add_of_lt_of_le first second) positive
    omega
  · obtain rfl : m = m' + 1 := by omega
    rw [Nat.add_sub_cancel] at low odd
    rcases Nat.mod_two_eq_zero_or_one m' with even | last
    · have := (odd (by omega)).1
      omega
    · have := (odd' last).2
      omega

/-- A quotient is between the midpoints around what it is rounded to. -/
theorem Scaled.between (scaled : Scaled n d k q r) :
    Between (k * exponentWeight + roundedHalf q r (d * 2 ^ k)) n d := by
  have positive := scaled.positive
  obtain ⟨split, rest, upper, lower⟩ := scaled
  have place : Place k q := ⟨Nat.le_of_lt upper, lower⟩
  have parity : (k * exponentWeight + q) % 2 = q % 2 := by
    simp only [exponentWeight]
    omega
  have below : unitsOf (k * exponentWeight + q) * d = q * (d * 2 ^ k) := by
    rw [unitsOf_place place]
    ring
  have above : unitsOf (k * exponentWeight + q + 1) * d = q * (d * 2 ^ k) + d * 2 ^ k := by
    rw [Nat.add_assoc, unitsOf_place (place.succ upper)]
    ring
  rcases roundedHalf_cases q r (d * 2 ^ k) with ⟨same, near, tie⟩ | ⟨same, near, tie⟩
  · rw [same]
    generalize k * exponentWeight + q = ρ at *
    have less := Nat.mul_le_mul_right d (unitsOf_strictMono.monotone (Nat.sub_le ρ 1))
    constructor
    · rw [Nat.add_mul]
      omega
    · rw [Nat.add_mul]
      omega
    · intro last
      have less := Nat.mul_lt_mul_of_pos_right (unitsOf_strictMono (show ρ - 1 < ρ by omega))
        positive
      rw [Nat.add_mul, Nat.add_mul]
      omega
  · rw [same, ← Nat.add_assoc]
    generalize k * exponentWeight + q = ρ at *
    have more := Nat.mul_lt_mul_of_pos_right (unitsOf_lt_succ (ρ + 1)) positive
    constructor
    · rw [Nat.add_sub_cancel, Nat.add_mul]
      omega
    · rw [Nat.add_mul]
      omega
    · intro last
      rw [Nat.add_sub_cancel, Nat.add_mul, Nat.add_mul]
      omega

theorem nearestMagnitude_mono (positive : 0 < d) (le : n ≤ n') :
    nearestMagnitude n d ≤ nearestMagnitude n' d := by
  obtain ⟨_, _, _, scaled⟩ := exists_scaled n positive
  obtain ⟨_, _, _, scaled'⟩ := exists_scaled n' positive
  rw [scaled.nearestMagnitude, scaled'.nearestMagnitude]
  have := scaled.between.mono scaled'.between positive le
  omega

theorem nearestMagnitude_eq (between : Between m n d) (positive : 0 < d)
    (finite : m ≤ infiniteMagnitude) :
    nearestMagnitude n d = m := by
  obtain ⟨_, _, _, scaled⟩ := exists_scaled n positive
  have same := Nat.le_antisymm (scaled.between.mono between positive (Nat.le_refl n))
    (between.mono scaled.between positive (Nat.le_refl n))
  rw [scaled.nearestMagnitude, same]
  exact Nat.min_eq_left finite

end RankedStore.Binary64
