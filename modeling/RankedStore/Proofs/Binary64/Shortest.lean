import RankedStore.Binary64.Shortest
import RankedStore.Proofs.Binary64.Rounding

/-! The search for the shortest decimal. It ends at a decimal that rounds to the number, because a
grid that is finer than the gaps between numbers has a point near each of them, and it comes to such
a grid while the decimal has nineteen digits at most. -/
namespace RankedStore.Binary64

variable {m c n d fuel : Nat} {e e' : Int} {tie : Tie} {x : Binary64}

/-! A power of ten whose exponent may be negative, as a quotient. -/

def tenUp (e : Int) : Nat := tenTo e.toNat

def tenDown (e : Int) : Nat := tenTo (-e).toNat

theorem tenTo_pos (n : Nat) : 0 < tenTo n := Nat.pow_pos (by decide)

theorem tenTo_mono (le : n ≤ d) : tenTo n ≤ tenTo d := Nat.pow_le_pow_right (by decide) le

theorem tenTo_add (n k : Nat) : tenTo (n + k) = tenTo n * tenTo k := Nat.pow_add 10 n k

theorem tens_mono (le : e ≤ e') : tenUp e * tenDown e' ≤ tenUp e' * tenDown e := by
  unfold tenUp tenDown
  rw [← tenTo_add, ← tenTo_add]
  exact tenTo_mono (by omega)

/-! Decimals that round to a magnitude. -/

theorem Between.of_strict (low : (unitsOf (m - 1) + unitsOf m) * d < 2 * n)
    (high : 2 * n < (unitsOf m + unitsOf (m + 1)) * d) : Between m n d :=
  ⟨Nat.le_of_lt low, Nat.le_of_lt high, fun _ => ⟨low, high⟩⟩

theorem tenDown_ofNat (e : Nat) : tenDown (.ofNat e) = 1 := by
  cases e <;> rfl

theorem tenUp_negSucc (e : Nat) : tenUp (.negSucc e) = 1 := rfl

theorem roundsTo_iff :
    roundsTo m c e = true ↔ Between m (c * tenUp e * unitsPerOne) (tenDown e) := by
  unfold roundsTo
  split
  case h_1 scaled unit same =>
    obtain ⟨rfl, rfl⟩ : scaled = 2 * (c * tenUp e * unitsPerOne) ∧ unit = tenDown e := by
      rw [Nat.mul_left_comm]
      cases e with
      | ofNat e =>
        cases same
        exact ⟨rfl, (tenDown_ofNat e).symm⟩
      | negSucc e =>
        cases same
        exact ⟨by rw [tenUp_negSucc, Nat.mul_one], rfl⟩
    dsimp only
    split
    case isTrue even =>
      rw [decide_eq_true_eq]
      exact ⟨fun ⟨low, high⟩ => ⟨low, high, by omega⟩, fun ⟨low, high, _⟩ => ⟨low, high⟩⟩
    case isFalse odd =>
      rw [decide_eq_true_eq]
      exact ⟨fun ⟨low, high⟩ => .of_strict low high, fun between => between.odd (by omega)⟩

/-- What is found on a grid rounds to the magnitude, and nothing is found only if the point below
does not. -/
theorem gridPoint?_cases (tie : Tie) (m : Nat) (e : Int) :
    (∃ c, gridPoint? tie m e = some c ∧ roundsTo m c e = true) ∨ gridPoint? tie m e = none ∧
      roundsTo m (unitsOf m * tenDown e / (unitsPerOne * tenUp e)) e = false := by
  generalize found : gridPoint? tie m e = point
  unfold gridPoint? at found
  split at found
  case h_1 numerator denominator same =>
    obtain ⟨rfl, rfl⟩ : numerator = unitsOf m * tenDown e ∧
      denominator = unitsPerOne * tenUp e := by
      cases e with
      | ofNat e =>
        cases same
        exact ⟨by rw [tenDown_ofNat, Nat.mul_one], rfl⟩
      | negSucc e =>
        cases same
        exact ⟨rfl, by rw [tenUp_negSucc, Nat.mul_one]⟩
    dsimp only at found
    generalize unitsOf m * tenDown e / (unitsPerOne * tenUp e) = below at *
    split at found
    case h_1 none _ => exact .inr ⟨found.symm, none⟩
    case h_2 rounds _ => exact .inl ⟨below, found.symm, rounds⟩
    case h_3 _ rounds => exact .inl ⟨below + 1, found.symm, rounds⟩
    case h_4 first second =>
      left
      split at found
      · exact ⟨below, found.symm, first⟩
      split at found
      · exact ⟨below + 1, found.symm, second⟩
      cases tie with
      | upward => exact ⟨below + 1, found.symm, second⟩
      | toEven =>
        dsimp only at found
        split at found
        · exact ⟨below, found.symm, first⟩
        · exact ⟨below + 1, found.symm, second⟩

theorem unitsPerOne_pos : 0 < unitsPerOne := Nat.pos_of_ne_zero (by decide +kernel)

/-- A grid whose step is at most half of the gap below a magnitude. -/
def Fine (m : Nat) (e : Int) : Prop :=
  2 * (unitsPerOne * tenUp e) ≤ (unitsOf m - unitsOf (m - 1)) * tenDown e

/-- On a fine grid, the point below a number rounds to the number. -/
theorem Fine.gridPoint? (fine : Fine m e) (tie : Tie) :
    ∃ c, gridPoint? tie m e = some c ∧ roundsTo m c e = true := by
  rcases gridPoint?_cases tie m e with found | ⟨_, not_below⟩
  · exact found
  exfalso
  refine Bool.eq_false_iff.mp not_below (roundsTo_iff.mpr ?_)
  have step : 0 < unitsPerOne * tenUp e := Nat.mul_pos unitsPerOne_pos (tenTo_pos _)
  have floor := Nat.div_mul_le_self (unitsOf m * tenDown e) (unitsPerOne * tenUp e)
  have next := Nat.lt_div_mul_add step (a := unitsOf m * tenDown e)
  have above : unitsOf m * tenDown e < unitsOf (m + 1) * tenDown e :=
    Nat.mul_lt_mul_of_pos_right (unitsOf_lt_succ m) (tenTo_pos _)
  rw [Fine, Nat.sub_mul] at fine
  rw [Nat.mul_assoc, Nat.mul_comm (tenUp e)]
  generalize unitsOf m * tenDown e / (unitsPerOne * tenUp e) * (unitsPerOne * tenUp e) = point at *
  apply Between.of_strict <;> rw [Nat.add_mul] <;> omega

/-- The search ends no later than at a fine grid. -/
theorem search_spec {k : Nat} (fine : Fine m (e - k)) (enough : k < fuel) :
    ∃ c e', search tie m fuel e = ⟨c, e'⟩ ∧ roundsTo m c e' = true ∧ e - k ≤ e' ∧ e' ≤ e := by
  induction fuel generalizing e k with
  | zero => cases enough
  | succ fuel ih =>
    unfold search
    rcases gridPoint?_cases tie m e with ⟨c, found, rounds⟩ | ⟨none, _⟩
    · rw [found]
      exact ⟨c, e, rfl, rounds, by omega, by omega⟩
    · rw [none]
      cases k with
      | zero =>
        obtain ⟨c, found, _⟩ := Fine.gridPoint? (by simpa using fine) tie
        cases none.symm.trans found
      | succ k =>
        have same : e - (k + 1 : Nat) = e - 1 - k := by omega
        rw [same] at fine
        obtain ⟨c, e', result, rounds, low, high⟩ := ih fine (by omega)
        exact ⟨c, e', result, rounds, by omega, by omega⟩

/-! The grids of a finite number. -/

/-- The exponent that the search starts from for a value with this leading bit. -/
def coarsest (leading : Nat) : Int := ((leading : Int) - 1074 + 1) * 30103 / 100000 + 2

/-- Nineteen steps after the first one, a grid is finer than all numbers with the leading bit, and
its points next to them have nineteen digits at most. -/
def endsInTime (leading : Nat) : Bool :=
  let up := unitsPerOne * tenUp (coarsest leading - 19)
  let down := tenDown (coarsest leading - 19)
  Nat.ble (2 * up) (2 ^ (leading - 53) * down) && Nat.ble (3 * 2 ^ leading * down)
    (2 * 10 ^ 18 * up)

/-- There are not many leading bits, so this is looked up for each of them. -/
theorem endsInTime_all : (List.range 2098).all endsInTime = true := by
  decide +kernel

theorem finest_grids {leading : Nat} (less : leading < 2098) :
    2 * (unitsPerOne * tenUp (coarsest leading - 19)) ≤ 2 ^ (leading - 53) * tenDown
      (coarsest leading - 19) ∧
      3 * 2 ^ leading * tenDown (coarsest leading - 19) ≤
        2 * 10 ^ 18 * (unitsPerOne * tenUp (coarsest leading - 19)) := by
  have both := List.all_eq_true.mp endsInTime_all leading (List.mem_range.mpr less)
  rw [endsInTime, Bool.and_eq_true, Nat.ble_eq, Nat.ble_eq] at both
  exact both

theorem unitsOf_pos (positive : 0 < m) : 0 < unitsOf m := unitsOf_strictMono positive

/-- Next to a magnitude, the values are as far apart as its leading bit tells. -/
theorem gap_le (positive : 0 < m) : 2 ^ ((unitsOf m).log2 - 53) ≤ unitsOf m - unitsOf (m - 1) ∧
    unitsOf (m + 1) ≤ 2 * unitsOf m := by
  constructor
  · obtain ⟨e, f, same, upper, place⟩ := exists_place (m - 1)
    have next : m = e * exponentWeight + (f + 1) := by omega
    have value : unitsOf m = (f + 1) * 2 ^ e := next ▸ unitsOf_place (place.succ upper)
    have bits : (unitsOf m).log2 ≤ 53 + e := by
      apply Nat.le_of_lt_succ
      rw [Nat.log2_lt (Nat.ne_of_gt (unitsOf_pos positive)), value, Nat.succ_eq_add_one,
        Nat.add_right_comm, Nat.pow_add]
      have : f + 1 < 2 ^ (53 + 1) := Nat.lt_of_le_of_lt upper (by decide)
      exact Nat.mul_lt_mul_of_pos_right this (Nat.two_pow_pos e)
    calc 2 ^ ((unitsOf m).log2 - 53) ≤ 2 ^ e := Nat.pow_le_pow_right (by decide) (by omega)
      _ = unitsOf m - unitsOf (m - 1) := by
        rw [value, same, unitsOf_place place, ← Nat.sub_mul]; simp
  · obtain ⟨e, f, rfl, upper, place⟩ := exists_place m
    have least : 1 ≤ f := by
      rcases place.lower with large | rfl
      · exact Nat.le_trans (by decide) large
      · omega
    rw [Nat.add_assoc, unitsOf_place (place.succ upper), unitsOf_place place, ← Nat.mul_assoc]
    exact Nat.mul_le_mul_right _ (by omega)

theorem log2_unitsOf_lt (finite : m < infiniteMagnitude) : (unitsOf m).log2 < 2098 := by
  obtain ⟨e, f, same, upper, place⟩ := exists_place m
  have exponent : e ≤ 2045 := by
    have lower := place.lower
    simp only [exponentWeight, infiniteMagnitude] at *
    omega
  have value : unitsOf m < 2 ^ (53 + e) := by
    rw [same, unitsOf_place place, Nat.pow_add]
    exact Nat.mul_lt_mul_of_pos_right upper (Nat.two_pow_pos e)
  by_cases zero : unitsOf m = 0
  · rw [zero]
    decide
  · have bits := (Nat.log2_lt zero).mpr value
    omega

theorem magnitude_lt (finite : x.isFinite = true) : x.magnitude < infiniteMagnitude :=
  of_decide_eq_true finite

theorem magnitude_pos (nonzero : x.isZero = false) : 0 < x.magnitude :=
  Nat.pos_of_ne_zero (of_decide_eq_false nonzero)

/-- What the search for the shortest decimal of a number finds. -/
structure Shortened (m : Nat) (decimal : Decimal) : Prop where
  rounds : roundsTo m decimal.coefficient decimal.exponent = true
  coarse : coarsest (unitsOf m).log2 - 19 ≤ decimal.exponent
  fine : decimal.exponent ≤ coarsest (unitsOf m).log2

theorem shortest_spec (tie : Tie) (finite : x.isFinite = true) (nonzero : x.isZero = false) :
    Shortened x.magnitude (shortest tie x) := by
  have fine : Fine x.magnitude (coarsest x.units.log2 - (19 : Nat)) := by
    have grids := (finest_grids (log2_unitsOf_lt (magnitude_lt finite))).1
    exact Nat.le_trans grids (Nat.mul_le_mul_right _ (gap_le (magnitude_pos nonzero)).1)
  have found : ∃ c e, search tie x.magnitude 24 (coarsest x.units.log2) = ⟨c, e⟩ ∧
      roundsTo x.magnitude c e = true ∧ coarsest x.units.log2 - (19 : Nat) ≤ e ∧
        e ≤ coarsest x.units.log2 :=
    search_spec fine (by decide)
  obtain ⟨c, e, result, rounds, low, high⟩ := found
  have same : shortest tie x = ⟨c, e⟩ := result
  rw [same]
  exact ⟨rounds, low, high⟩

namespace Shortened

variable {decimal : Decimal}

theorem coefficient_pos (shortened : Shortened m decimal) (positive : 0 < m) :
    0 < decimal.coefficient := by
  have low := (roundsTo_iff.mp shortened.rounds).low
  have value : 0 < (unitsOf (m - 1) + unitsOf m) * tenDown decimal.exponent :=
    Nat.mul_pos (Nat.add_pos_right _ (unitsOf_pos positive)) (tenTo_pos _)
  apply Nat.pos_of_ne_zero
  intro zero
  simp only [zero, Nat.zero_mul, Nat.mul_zero] at low
  omega

theorem coefficient_lt (shortened : Shortened m decimal) (positive : 0 < m)
    (finite : m < infiniteMagnitude) :
    decimal.coefficient < 2 * 10 ^ 18 := by
  obtain ⟨c, e⟩ := decimal
  obtain ⟨rounds, coarse, _⟩ := shortened
  have high := (roundsTo_iff.mp rounds).high
  have grids := (finest_grids (log2_unitsOf_lt finite)).2
  generalize coarsest (unitsOf m).log2 - 19 = s at *
  have upper : unitsOf m < 2 ^ ((unitsOf m).log2 + 1) := Nat.lt_log2_self
  generalize (unitsOf m).log2 = l at *
  have sum : unitsOf m + unitsOf (m + 1) < 2 * (3 * 2 ^ l) := by
    have := (gap_le positive).2
    rw [Nat.pow_succ] at upper
    omega
  have value : c * tenUp e * unitsPerOne < 3 * 2 ^ l * tenDown e := by
    have := Nat.mul_lt_mul_of_pos_right sum (tenTo_pos (-e).toNat)
    rw [Nat.mul_assoc] at this
    exact Nat.lt_of_mul_lt_mul_left (Nat.lt_of_le_of_lt high this)
  -- Both sides are brought to the finest grid.
  have finer : c * (unitsPerOne * tenUp s) * tenUp e < 2 * 10 ^ 18 * (unitsPerOne * tenUp s) *
    tenUp e := by
    calc c * (unitsPerOne * tenUp s) * tenUp e = c * tenUp e * unitsPerOne * tenUp s := by ring
      _ < 3 * 2 ^ l * tenDown e * tenUp s := Nat.mul_lt_mul_of_pos_right value (tenTo_pos _)
      _ = 3 * 2 ^ l * (tenUp s * tenDown e) := by ring
      _ ≤ 3 * 2 ^ l * (tenUp e * tenDown s) := Nat.mul_le_mul_left _ (tens_mono coarse)
      _ = 3 * 2 ^ l * tenDown s * tenUp e := by ring
      _ ≤ 2 * 10 ^ 18 * (unitsPerOne * tenUp s) * tenUp e := Nat.mul_le_mul_right _ grids
  exact Nat.lt_of_mul_lt_mul_right (Nat.lt_of_mul_lt_mul_right finer)

theorem exponent_bounds (shortened : Shortened m decimal) (finite : m < infiniteMagnitude) :
    -400 ≤ decimal.exponent ∧ decimal.exponent ≤ 400 := by
  obtain ⟨_, coarse, fine⟩ := shortened
  have bits := log2_unitsOf_lt finite
  unfold coarsest at coarse fine
  omega

end Shortened

/-- The shortest decimal of the largest finite number. -/
def largest : Nat := 17976931348623157 * 10 ^ 292

theorem shortest_largest : search .toEven (infiniteMagnitude - 1) 24
    (coarsest (unitsOf (infiniteMagnitude - 1)).log2) = ⟨17976931348623157, 292⟩ := by
  decide +kernel

theorem below_largest : unitsOf (infiniteMagnitude - 2) + unitsOf (infiniteMagnitude - 1) ≤
    2 * (largest * unitsPerOne) := by
  decide +kernel

/-- No decimal with this exponent that is found for a number is larger. The grids of the largest
numbers are not as fine as others. -/
def ceiling (k : Nat) : Nat := if k ≤ 290 then 3 * 2 ^ 1022 else largest

theorem shortest_le {k : Nat} (finite : x.isFinite = true) (nonzero : x.isZero = false)
    (whole : (shortest .toEven x).exponent = k) :
    (shortest .toEven x).coefficient * 10 ^ k ≤ ceiling k := by
  have below := magnitude_lt finite
  have positive := magnitude_pos nonzero
  have shortened := shortest_spec .toEven finite nonzero
  have high := (roundsTo_iff.mp shortened.rounds).high
  have up : tenUp (k : Int) = 10 ^ k := rfl
  rw [whole, up, show tenDown (k : Int) = 1 from tenDown_ofNat k, Nat.mul_one] at high
  refine Nat.le_of_mul_le_mul_right ?_ unitsPerOne_pos
  unfold ceiling
  by_cases fine : k ≤ 290
  · have coarse := shortened.coarse
    rw [whole, coarsest] at coarse
    have bits : (unitsOf x.magnitude).log2 < 2097 := by omega
    have value := (Nat.log2_lt (Nat.ne_of_gt (unitsOf_pos positive))).mp bits
    have double := (gap_le positive).2
    have power : 2 ^ 2097 = 2 * (2 ^ 1022 * unitsPerOne) := by decide +kernel
    rw [if_pos fine]
    omega
  rw [if_neg fine]
  by_cases last : x.magnitude = infiniteMagnitude - 1
  · have same : shortest .toEven x = ⟨17976931348623157, 292⟩ := by
      rw [← shortest_largest, ← last]
      rfl
    rw [same] at whole ⊢
    cases whole
    rw [largest]
  · have first := unitsOf_strictMono.monotone (show x.magnitude ≤ infiniteMagnitude - 2 by omega)
    have second := unitsOf_strictMono.monotone
      (show x.magnitude + 1 ≤ infiniteMagnitude - 1 by omega)
    have limit := below_largest
    omega

theorem ofMagnitude_magnitude (x : Binary64) : ofMagnitude x.isNegative x.magnitude = x := by
  have bound : x.bits.toNat < 2 ^ 64 := x.bits.toNat_lt
  have whole : (if x.isNegative then x.magnitude + signWeight else x.magnitude) = x.bits.toNat := by
    rw [isNegative, magnitude]
    by_cases negative : signWeight ≤ x.bits.toNat
    · have rest : x.bits.toNat - signWeight < signWeight := by
        simp only [signWeight] at *
        omega
      rw [if_pos (decide_eq_true negative), Nat.mod_eq_sub_mod negative, Nat.mod_eq_of_lt rest,
        Nat.sub_add_cancel negative]
    · rw [if_neg (by simpa using negative), Nat.mod_eq_of_lt (Nat.lt_of_not_le negative)]
  rw [ofMagnitude, whole, UInt64.ofNat_toNat]

end RankedStore.Binary64
