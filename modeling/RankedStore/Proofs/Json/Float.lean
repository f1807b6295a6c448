import RankedStore.Proofs.Binary64.Shortest
import RankedStore.Proofs.Json.Numeral

/-! Numerals of floats. A finite number is written as the numeral of its shortest decimal. The
numeral is read by scaling the digits, so what comes back is the rounded product or quotient of two
rounded numbers. -/
namespace RankedStore

open Nat (toDigits ofDigitChars)

namespace Json.Numeral

/-! The two forms that numerals of floats have. -/

/-- Digits with the last one at a place, and with a fraction in any case. -/
def ofPositional (negative : Bool) (digits : List Char) : Int → Numeral
  | .ofNat e => ⟨negative, digits ++ List.replicate e '0', ['0'], none⟩
  | .negSucc e =>
    if e + 1 < digits.length then
      ⟨negative, digits.take (digits.length - (e + 1)), digits.drop (digits.length - (e + 1)), none⟩
    else ⟨negative, ['0'], List.replicate (e + 1 - digits.length) '0' ++ digits, none⟩

/-- One digit, the others after a point, and the exponent of the first one. -/
def ofScientific (negative : Bool) (digits : List Char) (leading : Int) : Numeral :=
  ⟨negative, digits.take 1, digits.drop 1, some (leading < 0, toDigits 10 leading.natAbs)⟩

variable {negative : Bool} {digits : List Char} {e : Int} {n : Numeral} {c : Nat}

theorem written_ofPositional (filled : digits ≠ []) (negative : Bool) (e : Int) :
    (ofPositional negative digits e).written =
      (if negative then ['-'] else []) ++ Binary64.positional true digits e := by
  have length := List.length_pos_iff.mpr filled
  cases e with
  | ofNat e =>
    unfold ofPositional Binary64.positional
    simp [written, fractionText, exponentText]
  | negSucc e =>
    unfold ofPositional Binary64.positional
    dsimp only
    by_cases inside : e + 1 < digits.length
    · have rest : (digits.drop (digits.length - (e + 1))).isEmpty = false := by
        rw [List.isEmpty_eq_false_iff, ← List.length_pos_iff, List.length_drop]
        omega
      rw [if_pos inside, if_pos inside]
      simp [written, fractionText, exponentText, rest]
    · have rest : (List.replicate (e + 1 - digits.length) '0' ++ digits).isEmpty = false := by
        simp [List.isEmpty_eq_false_iff, filled]
      rw [if_neg inside, if_neg inside]
      simp [written, fractionText, exponentText, rest]

theorem written_ofScientific (negative : Bool) (digits : List Char) (leading : Int) :
    (ofScientific negative digits leading).written =
      (if negative then ['-'] else []) ++ Binary64.scientific digits leading := by
  unfold ofScientific Binary64.scientific written
  match digits with
  | [] => simp [fractionText, exponentText]
  | [d] => simp [fractionText, exponentText]
  | d :: d' :: rest => simp [fractionText, exponentText]

/-! The digits of a positive number. -/

/-- Digits that start with none but zero. -/
structure Leads (digits : List Char) : Prop where
  each : ∀ c ∈ digits, c.isDigit = true
  start : ∃ d ds, digits = d :: ds ∧ d ≠ '0'

theorem leads_toDigits (positive : 0 < c) : Leads (toDigits 10 c) :=
  ⟨isDigit_toDigits, toDigits_head positive⟩

theorem wholePart?_cons {d : Char} (other : d ≠ '0') (ds : List Char) :
    wholePart? (d :: ds) = true := by
  unfold wholePart?
  split
  case h_1 same => cases same
  case h_2 => rfl
  case h_3 same =>
    injection same with same
    exact absurd same other
  case h_4 => rfl

theorem isDigit_replicate (k : Nat) : ∀ c ∈ List.replicate k '0', c.isDigit = true := by
  intro c member
  rw [List.eq_of_mem_replicate member]
  rfl

theorem Leads.valid_positional (leads : Leads digits) (negative : Bool) (e : Int) :
    (ofPositional negative digits e).Valid := by
  obtain ⟨each, d, ds, rfl, other⟩ := leads
  cases e with
  | ofNat e =>
    exact ⟨wholePart?_cons other _, List.forall_mem_append.mpr ⟨each, isDigit_replicate e⟩,
      List.forall_mem_singleton.mpr rfl, nofun⟩
  | negSucc e =>
    unfold ofPositional
    dsimp only
    split
    case isTrue inside =>
      constructor
      · obtain ⟨k, some⟩ := Nat.exists_eq_add_of_lt inside
        have some : (d :: ds).length - (e + 1) = k + 1 := by omega
        rw [some, List.take_succ_cons]
        exact wholePart?_cons other _
      · exact fun c member => each c (List.mem_of_mem_take member)
      · exact fun c member => each c (List.mem_of_mem_drop member)
      · nofun
    case isFalse =>
      exact ⟨rfl, by simp, List.forall_mem_append.mpr ⟨isDigit_replicate _, each⟩, nofun⟩

theorem Leads.valid_scientific (leads : Leads digits) (negative : Bool) (leading : Int) :
    (ofScientific negative digits leading).Valid := by
  obtain ⟨each, d, ds, rfl, other⟩ := leads
  constructor
  · exact wholePart?_cons other _
  · exact fun c member => each c (List.mem_of_mem_take member)
  · exact fun c member => each c (List.mem_of_mem_drop member)
  · rintro _ _ ⟨⟩
    exact ⟨Nat.toDigits_ne_nil, isDigit_toDigits⟩

/-! Reading a numeral whose digits fit 64 bits. -/

/-- All digits of a numeral as one number. -/
def significand (n : Numeral) : Nat := ofDigitChars 10 (n.whole ++ n.fraction) 0

/-- The exponent of a numeral, with its sign. -/
def places (n : Numeral) : Int :=
  match n.exponent with
  | none => 0
  | some (down, digits) =>
    if down then -(ofDigitChars 10 digits 0 : Int) else ofDigitChars 10 digits 0

/-- The exponent that the digits of a numeral are scaled by. -/
def shift (n : Numeral) : Int := n.places - n.fraction.length

/-- A numeral whose digits are all taken into the significand, and whose exponent is not far off. -/
structure Fits (n : Numeral) : Prop where
  digits : n.significand ≤ maxUInt64
  fraction : n.fraction.length ≤ 10000
  exponent : n.places.natAbs ≤ 10000

theorem exponentSize?_eq {n : Nat} (fits : ofDigitChars 10 digits n ≤ maxExponent) :
    digits.foldlM (fun n c =>
      let next := n * 10 + Digits.value c
      if next ≤ maxExponent then some next else none) n = some (ofDigitChars 10 digits n) := by
  induction digits generalizing n with
  | nil => rfl
  | cons c cs ih =>
    have next : ofDigitChars 10 (c :: cs) n = ofDigitChars 10 cs (n * 10 + Digits.value c) := by
      rw [Nat.mul_comm n 10]
      rfl
    rw [next] at fits ⊢
    rw [List.foldlM_cons, if_pos (Nat.le_trans (le_ofDigitChars cs _) fits)]
    exact ih fits

theorem saturate_eq {exponent : Int} (near : exponent.natAbs ≤ maxExponent) :
    saturate exponent = exponent := by
  unfold saturate
  omega

theorem Fits.float? (fits : n.Fits) :
    n.float? = (scale (.ofNat n.significand) n.shift).map (withSign n.negative) := by
  obtain ⟨all, short, near⟩ := fits
  unfold significand shift at *
  rw [Nat.ofDigitChars_append] at all ⊢
  have whole := gather_digits (Nat.le_trans (le_ofDigitChars n.fraction _) all)
  have fraction := gather_digits all
  have last : ∀ y : Option Binary64, (do return withSign n.negative (← y)) = y.map
    (withSign n.negative) := by
    intro y
    cases y <;> rfl
  have limit : maxExponent = 2147483647 := rfl
  unfold places at near
  unfold Numeral.float? places
  simp only [whole, fraction]
  cases exponent : n.exponent with
  | none => exact last _
  | some e =>
    obtain ⟨down, digits⟩ := e
    simp only [exponent] at near
    have size : exponentSize? digits = some (ofDigitChars 10 digits 0) := by
      apply exponentSize?_eq
      cases down <;> simp at near <;> omega
    simp only [size, last]
    cases down with
    | true =>
      simp only [if_true] at near ⊢
      rw [saturate_eq (by omega)]
      congr 2
      omega
    | false =>
      simp only [Bool.false_eq_true, if_false] at near ⊢
      rw [saturate_eq (by omega)]
      congr 2
      omega

/-! The numeral of a float. -/

/-- The numeral that a finite number is written as. -/
def ofFloat (x : Binary64) : Numeral :=
  if x.isZero then ⟨x.isNegative, ['0'], ['0'], none⟩
  else
    let decimal := Binary64.shortest .toEven x
    let digits := toDigits 10 decimal.coefficient
    let leading := decimal.exponent + digits.length - 1
    if Binary64.interchange.inFull leading then ofPositional x.isNegative digits decimal.exponent
    else ofScientific x.isNegative digits leading

theorem chars_float (x : Binary64) : Number.chars (.float x) = (ofFloat x).written := by
  show (if x.isNegative then ['-'] else []) ++ x.unsignedChars Binary64.interchange = _
  unfold Binary64.unsignedChars ofFloat
  by_cases zero : x.isZero = true
  · rw [if_pos zero, if_pos zero]
    rfl
  · have tie : Binary64.interchange.tie = .toEven := rfl
    rw [if_neg zero, if_neg zero, tie]
    dsimp only
    generalize Binary64.shortest .toEven x = decimal
    generalize decimal.exponent + (toDigits 10 decimal.coefficient).length - 1 = leading
    by_cases full : Binary64.interchange.inFull leading = true
    · rw [if_pos full, if_pos full]
      exact (written_ofPositional Nat.toDigits_ne_nil ..).symm
    · rw [if_neg full, if_neg full]
      exact (written_ofScientific ..).symm

theorem valid_ofFloat {x : Binary64} (finite : x.isFinite = true) : (ofFloat x).Valid := by
  unfold ofFloat
  by_cases zero : x.isZero = true
  · rw [if_pos zero]
    exact ⟨rfl, List.forall_mem_singleton.mpr rfl, List.forall_mem_singleton.mpr rfl, nofun⟩
  · rw [if_neg zero]
    have nonzero : x.isZero = false := by simpa using zero
    have positive := Binary64.magnitude_pos nonzero
    have leads := leads_toDigits ((Binary64.shortest_spec .toEven finite nonzero).coefficient_pos
      positive)
    dsimp only
    split
    · exact leads.valid_positional ..
    · exact leads.valid_scientific ..

/-- A numeral in positional form has no exponent. -/
theorem negative_positional (negative : Bool) (digits : List Char) (e : Int) :
    (ofPositional negative digits e).negative = negative ∧
    (ofPositional negative digits e).places = 0 := by
  unfold ofPositional places
  cases e with
  | ofNat e => exact ⟨rfl, rfl⟩
  | negSucc e =>
    dsimp only
    split
    case isTrue => exact ⟨rfl, rfl⟩
    case isFalse => exact ⟨rfl, rfl⟩

theorem significand_positional (negative : Bool) (c e : Nat) :
    (ofPositional negative (toDigits 10 c) (.ofNat e)).significand = c * 10 ^ (e + 1) := by
  show ofDigitChars 10 ((toDigits 10 c ++ List.replicate e '0') ++ ['0']) 0 = _
  rw [Nat.ofDigitChars_append, Nat.ofDigitChars_append, Nat.ofDigitChars_ten_toDigits,
    Nat.ofDigitChars_replicate_zero]
  show 10 * (10 ^ e * c) + 0 = _
  ring

theorem fraction_positional (negative : Bool) (c e : Nat) :
    (ofPositional negative (toDigits 10 c) (.negSucc e)).significand = c ∧
      (ofPositional negative (toDigits 10 c) (.negSucc e)).shift = .negSucc e ∧
      (ofPositional negative (toDigits 10 c) (.negSucc e)).fraction.length = e + 1 := by
  unfold ofPositional significand shift places
  dsimp only
  split
  case isTrue inside =>
    have length : ((toDigits 10 c).drop ((toDigits 10 c).length - (e + 1))).length = e + 1 := by
      rw [List.length_drop]
      omega
    dsimp only
    rw [List.take_append_drop, Nat.ofDigitChars_ten_toDigits, length]
    exact ⟨rfl, by omega, rfl⟩
  case isFalse outside =>
    have length : (List.replicate (e + 1 - (toDigits 10 c).length) '0' ++ toDigits 10 c).length =
      e + 1 := by
      rw [List.length_append, List.length_replicate]
      omega
    have zeros : ∀ k, ofDigitChars 10 (['0'] ++ (List.replicate k '0' ++ toDigits 10 c)) 0 = c := by
      intro k
      rw [Nat.ofDigitChars_append, Nat.ofDigitChars_append, Nat.ofDigitChars_replicate_zero]
      exact Nat.ofDigitChars_ten_toDigits
    dsimp only
    rw [zeros, length]
    exact ⟨rfl, by omega, rfl⟩

/-- No numeral of a float is that of a whole number. -/
theorem ofFloat_marked (x : Binary64) :
    ¬ ((ofFloat x).fraction.isEmpty = true ∧ (ofFloat x).exponent.isNone = true) := by
  unfold ofFloat
  split
  case isTrue => nofun
  case isFalse =>
    dsimp only
    split
    case isFalse => nofun
    case isTrue =>
      generalize (Binary64.shortest .toEven x) = decimal
      obtain ⟨c, e⟩ := decimal
      cases e with
      | ofNat e => nofun
      | negSucc e =>
        rintro ⟨empty, _⟩
        have length := (fraction_positional x.isNegative c e).2.2
        rw [List.isEmpty_iff.mp empty] at length
        cases length

theorem scientific_eq (negative : Bool) (c : Nat) (leading : Int) :
    (ofScientific negative (toDigits 10 c) leading).significand = c ∧
      (ofScientific negative (toDigits 10 c) leading).places = leading ∧
      (ofScientific negative (toDigits 10 c) leading).fraction.length =
        (toDigits 10 c).length - 1 := by
  unfold ofScientific significand places
  dsimp only
  rw [List.take_append_drop, Nat.ofDigitChars_ten_toDigits, Nat.ofDigitChars_ten_toDigits,
    List.length_drop]
  refine ⟨rfl, ?_, rfl⟩
  by_cases below : leading < 0
  · rw [if_pos (decide_eq_true below)]
    omega
  · rw [if_neg (by simpa using below)]
    omega

end Json.Numeral
end RankedStore
