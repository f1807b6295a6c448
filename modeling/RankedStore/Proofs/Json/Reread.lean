import RankedStore.Proofs.Binary64.Arithmetic
import RankedStore.Proofs.Json.Float

/-! Reading the numeral of a float. A reader that rounds once would get the float back. This one
rounds the digits, the power of ten, and what comes of both, so it gets some float for every one
that is written, but the same one only where the first two are exact. -/
namespace RankedStore

open Nat (toDigits)
open Binary64 (Between Exact ceiling tenUp tenDown tenTo unitsPerOne ofMagnitude infiniteMagnitude)

namespace Json.Numeral

variable {n : Numeral} {x : Binary64} {c m k : Nat} {e : Int}

/-! Scaling comes to an end, and a product stays finite if its value does. -/

theorem scale_neg (below : e < 0) : ∃ y, scale x e = some y := by
  fun_induction scale x e
  case case1 => omega
  case case2 => omega
  case case3 => exact ⟨_, rfl⟩
  case case4 => exact ⟨_, rfl⟩
  case case5 => omega
  case case6 ih => exact ih (by omega)

/-- The large powers of ten do not take the largest number that they may go with beyond the finite
ones. -/
theorem power_ceiling_all : ((List.range 19).map (290 + ·)).all (fun k =>
    decide (((Binary64.ofNat (ceiling k / 10 ^ k)).mul (power k)).magnitude < infiniteMagnitude)) =
      true := by
  decide +kernel

theorem power_small :
    ((Binary64.ofNat (2 * 10 ^ 18)).mul (power 289)).magnitude < infiniteMagnitude := by
  decide +kernel

theorem ceiling_lt (k : Nat) : ceiling k < tenTo 309 := by
  unfold ceiling Binary64.largest
  split
  case isTrue => decide +kernel
  case isFalse => decide +kernel

theorem scale_ofNat (positive : 0 < c) (digits : c ≤ 2 * 10 ^ 18)
    (bounded : c * 10 ^ k ≤ ceiling k) :
    scale (.ofNat c) k = some ((Binary64.ofNat c).mul (power k)) := by
  have few : k < 309 := by
    apply Nat.lt_of_not_le
    intro far
    have power : tenTo 309 ≤ tenTo k := Binary64.tenTo_mono far
    have le : tenTo k ≤ c * 10 ^ k := Nat.le_mul_of_pos_left _ positive
    have limit := ceiling_lt k
    omega
  have finite : ((Binary64.ofNat c).mul (power k)).magnitude < infiniteMagnitude := by
    -- Up to the power 289 the bound on the digits is enough.
    by_cases small : k ≤ 289
    · exact Nat.lt_of_le_of_lt (Binary64.magnitude_mul_mono (Binary64.units_ofNat_mono digits)
        (Binary64.units_ofNat_mono (Binary64.tenTo_mono small))) power_small
    · have listed : k ∈ (List.range 19).map (290 + ·) :=
        List.mem_map.mpr ⟨k - 290, List.mem_range.mpr (by omega), by omega⟩
      have le : c ≤ ceiling k / 10 ^ k :=
        (Nat.le_div_iff_mul_le (Nat.pow_pos (by decide))).mpr bounded
      exact Nat.lt_of_le_of_lt
        (Binary64.magnitude_mul_mono (Binary64.units_ofNat_mono le) (Nat.le_refl _))
        (of_decide_eq_true (List.all_eq_true.mp power_ceiling_all k listed))
  have bounds : ((Binary64.ofNat c).mul (power k)).isInfinite = false :=
    decide_eq_false (Nat.ne_of_lt finite)
  rw [scale, if_pos (by omega), if_pos (by omega)]
  simp only [Int.natAbs_natCast, bounds, Bool.false_eq_true, if_false]

/-! What the numeral of a float tells. -/

/-- The digits and the exponent of a numeral tell a value that is nearest to a number, and not
beyond the largest one. -/
structure Spells (n : Numeral) (x : Binary64) : Prop where
  negative : n.negative = x.isNegative
  fits : n.Fits
  near : Between x.magnitude (n.significand * tenUp n.shift * unitsPerOne) (tenDown n.shift)
  bounded : ∀ k : Nat, n.shift = k →
    0 < n.significand ∧ n.significand ≤ 2 * 10 ^ 18 ∧ n.significand * 10 ^ k ≤ ceiling k

theorem spells_zero (zero : x.isZero = true) (fits : n.Fits) (negative : n.negative = x.isNegative)
    (digits : n.significand = 0) (shift : n.shift = -1) : n.Spells x where
  negative := negative
  fits := fits
  near := by
    have same : x.magnitude = 0 := of_decide_eq_true zero
    rw [same, digits, Nat.zero_mul, Nat.zero_mul]
    exact Between.zero _
  bounded := by omega

section
variable (finite : x.isFinite = true) (nonzero : x.isZero = false)
  (same : Binary64.shortest .toEven x = ⟨c, e⟩)
include finite nonzero same

theorem near_shortest : Between x.magnitude (c * tenUp e * unitsPerOne) (tenDown e) := by
  have rounds := (Binary64.shortest_spec .toEven finite nonzero).rounds
  rw [same] at rounds
  exact Binary64.roundsTo_iff.mp rounds

theorem shortest_small : 0 < c ∧ c < 2 * 10 ^ 18 ∧ -400 ≤ e ∧ e ≤ 400 := by
  have shortened := Binary64.shortest_spec .toEven finite nonzero
  have positive := Binary64.magnitude_pos nonzero
  have below := Binary64.magnitude_lt finite
  rw [same] at shortened
  exact ⟨shortened.coefficient_pos positive, shortened.coefficient_lt positive below,
    shortened.exponent_bounds below⟩

theorem length_shortest : 0 < (toDigits 10 c).length ∧ (toDigits 10 c).length ≤ 19 := by
  obtain ⟨_, few, _⟩ := shortest_small finite nonzero same
  constructor
  · exact List.length_pos_iff.mpr Nat.toDigits_ne_nil
  · rw [Nat.length_toDigits_le_iff (by decide) (by decide)]
    omega

theorem spells_decimal (fits : n.Fits) (negative : n.negative = x.isNegative)
    (digits : n.significand = c) (shift : n.shift = e) : n.Spells x where
  negative := negative
  fits := fits
  near := by
    rw [digits, shift]
    exact near_shortest finite nonzero same
  bounded k whole := by
    obtain ⟨positive, few, _⟩ := shortest_small finite nonzero same
    have bounded := Binary64.shortest_le (k := k) finite nonzero (by rw [same, ← shift, whole])
    rw [same] at bounded
    rw [digits]
    exact ⟨positive, Nat.le_of_lt few, bounded⟩

theorem spells_scientific :
    (ofScientific x.isNegative (toDigits 10 c) (e + (toDigits 10 c).length - 1)).Spells x := by
  obtain ⟨digits, places, length⟩ := scientific_eq x.isNegative c (e + (toDigits 10 c).length - 1)
  obtain ⟨_, few, low, high⟩ := shortest_small finite nonzero same
  obtain ⟨some, short⟩ := length_shortest finite nonzero same
  have limit : maxUInt64 = 2 ^ 64 - 1 := rfl
  apply spells_decimal finite nonzero same
  case fits => exact ⟨by rw [digits]; omega, by omega, by omega⟩
  case negative => rfl
  case digits => exact digits
  case shift =>
    rw [shift]
    omega

/-- With a fraction the digits are those of the decimal. Without one there is a zero after the
point, which counts as another digit. -/
theorem spells_positional (low : -5 ≤ e + (toDigits 10 c).length - 1)
    (high : e + (toDigits 10 c).length - 1 ≤ 15) :
    (ofPositional x.isNegative (toDigits 10 c) e).Spells x := by
  obtain ⟨negative, places⟩ := negative_positional x.isNegative (toDigits 10 c) e
  obtain ⟨_, few, _⟩ := shortest_small finite nonzero same
  obtain ⟨some, short⟩ := length_shortest finite nonzero same
  have limit : maxUInt64 = 2 ^ 64 - 1 := rfl
  cases e with
  | negSucc k =>
    obtain ⟨digits, shift, length⟩ := fraction_positional x.isNegative c k
    apply spells_decimal finite nonzero same _ negative digits shift
    exact ⟨by rw [digits]; omega, by omega, by rw [places]; omega⟩
  | ofNat k =>
    rw [Int.ofNat_eq_natCast] at high
    have digits := significand_positional x.isNegative c k
    constructor
    case negative => exact negative
    case bounded => nofun
    case near =>
      have near := near_shortest finite nonzero same
      have shift : (ofPositional x.isNegative (toDigits 10 c) (.ofNat k)).shift = -1 := rfl
      have value : c * 10 ^ (k + 1) * tenUp (-1) * unitsPerOne = c * tenUp (.ofNat k) *
        unitsPerOne * 10 := by
        show c * 10 ^ (k + 1) * 1 * unitsPerOne = c * 10 ^ k * unitsPerOne * 10
        ring
      rw [Binary64.tenDown_ofNat] at near
      rw [digits, shift, value]
      exact near.scale (by decide)
    case fits =>
      have size : c * 10 ^ (k + 1) < 10 ^ 18 := by
        calc c * 10 ^ (k + 1) < 10 ^ (toDigits 10 c).length * 10 ^ (k + 1) := by
              apply Nat.mul_lt_mul_of_pos_right _ (Nat.pow_pos (by decide))
              exact (Nat.length_toDigits_le_iff (by decide) some).mp (Nat.le_refl _)
          _ = 10 ^ ((toDigits 10 c).length + (k + 1)) := (Nat.pow_add ..).symm
          _ ≤ 10 ^ 18 := Nat.pow_le_pow_right (by decide) (by omega)
      exact ⟨by rw [digits]; omega, Nat.le_of_ble_eq_true rfl, by rw [places]; omega⟩

end

theorem spells_ofFloat (finite : x.isFinite = true) : (ofFloat x).Spells x := by
  by_cases zero : x.isZero = true
  · have fits : (ofFloat x).Fits := by
      rw [ofFloat, if_pos zero]
      exact ⟨Nat.zero_le _, Nat.le_of_ble_eq_true rfl, Nat.le_of_ble_eq_true rfl⟩
    apply spells_zero zero fits <;> rw [ofFloat, if_pos zero] <;> rfl
  · have nonzero : x.isZero = false := by simpa using zero
    rw [ofFloat, if_neg zero]
    generalize same : Binary64.shortest .toEven x = decimal
    obtain ⟨c, e⟩ := decimal
    dsimp only
    split
    case isTrue full =>
      obtain ⟨low, high⟩ := of_decide_eq_true full
      exact spells_positional finite nonzero same low high
    case isFalse => exact spells_scientific finite nonzero same

/-! What comes back. -/

theorem Spells.reads (spells : n.Spells x) : ∃ y, n.float? = some y := by
  rw [spells.fits.float?]
  by_cases below : n.shift < 0
  · obtain ⟨y, scaled⟩ := scale_neg (x := .ofNat n.significand) below
    exact ⟨_, by rw [scaled]; rfl⟩
  · obtain ⟨k, whole⟩ := Int.eq_ofNat_of_zero_le (Int.not_lt.mp below)
    obtain ⟨positive, digits, bounded⟩ := spells.bounded k whole
    exact ⟨_, by rw [whole, scale_ofNat positive digits bounded]; rfl⟩

/-- Digits that are a float are scaled exactly by a power of ten that is one. -/
theorem scale_exact (digits : Exact c) (few : e.natAbs ≤ 22) (finite : m < infiniteMagnitude)
    (near : Between m (c * tenUp e * unitsPerOne) (tenDown e)) :
    scale (.ofNat c) e = some (ofMagnitude false m) := by
  have power := Binary64.exact_tenTo few
  rw [scale, if_pos (by omega)]
  cases e with
  | ofNat k =>
    rw [Binary64.tenDown_ofNat] at near
    have product : (Binary64.ofNat c).mul (Json.Numeral.power k) = ofMagnitude false m :=
      Binary64.mul_exact digits power near (Nat.le_of_lt finite)
    have small := Nat.lt_trans finite Binary64.infiniteMagnitude_lt
    have bounds : (ofMagnitude false m).isInfinite = false :=
      decide_eq_false (by rw [Binary64.magnitude_ofMagnitude small]; omega)
    have upward : 0 ≤ Int.ofNat k := Int.natCast_nonneg k
    have size : (Int.ofNat k).natAbs = k := rfl
    rw [if_pos upward]
    simp only [size, product, bounds, Bool.false_eq_true, if_false]
  | negSucc k =>
    rw [Binary64.tenUp_negSucc, Nat.mul_one] at near
    have quotient : (Binary64.ofNat c).div (Json.Numeral.power (k + 1)) = ofMagnitude false m :=
      Binary64.div_exact digits power (Binary64.tenTo_pos _) near (Nat.le_of_lt finite)
    rw [if_neg (by omega)]
    exact congrArg some quotient

/-- The sign is put on what the digits come to. -/
theorem withSign_magnitude (x : Binary64) :
    withSign x.isNegative (ofMagnitude false x.magnitude) = x := by
  have small : x.magnitude < Binary64.signWeight := Nat.mod_lt _ (by decide)
  have whole := Binary64.ofMagnitude_magnitude x
  cases negative : x.isNegative with
  | false =>
    rw [negative] at whole
    exact whole
  | true =>
    rw [negative] at whole
    rw [withSign, if_pos rfl, Binary64.neg, Binary64.isNegative_ofMagnitude small,
      Binary64.magnitude_ofMagnitude small]
    exact whole

theorem Spells.exact (spells : n.Spells x) (finite : x.isFinite = true)
    (digits : n.significand < 2 ^ 53) (few : n.shift.natAbs ≤ 22) : n.float? = some x := by
  rw [spells.fits.float?, scale_exact (Binary64.exact_of_lt digits) few
    (Binary64.magnitude_lt finite) spells.near, spells.negative, Option.map_some,
    withSign_magnitude]

end Json.Numeral

/-- The number that the numeral of a finite number is read as. -/
def Binary64.reread (x : Binary64) : Binary64 := ((Json.Numeral.ofFloat x).float?).getD x

namespace Json.Numeral

variable {x : Binary64} (finite : x.isFinite = true)
include finite

theorem number?_ofFloat : (ofFloat x).number? = some (.float x.reread) := by
  obtain ⟨y, read⟩ := (spells_ofFloat finite).reads
  rw [number?, if_neg (ofFloat_marked x), Binary64.reread, read]
  rfl

/-- Numbers whose decimals have few digits and are not far from one are kept. -/
theorem reread_of_short (digits : (ofFloat x).significand < 2 ^ 53)
    (few : (ofFloat x).shift.natAbs ≤ 22) :
    x.reread = x := by
  rw [Binary64.reread, (spells_ofFloat finite).exact finite digits few]
  rfl

end Json.Numeral
end RankedStore
