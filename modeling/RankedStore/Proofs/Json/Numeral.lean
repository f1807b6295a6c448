import RankedStore.Json.Decoder

/-! Numerals and their texts. A numeral is read back from its text. That of a whole number stands
for the number, within the range of 64 bits. -/
namespace RankedStore

theorem Digits.span_append_of {cs rest : List Char} (digits : ∀ c ∈ cs, c.isDigit = true)
    (stops : ∀ c ∈ rest.head?, c.isDigit = false) : span (cs ++ rest) = (cs, rest) := by
  have none : rest.takeWhile Char.isDigit = [] ∧ rest.dropWhile Char.isDigit = rest := by
    cases rest with
    | nil => exact ⟨rfl, rfl⟩
    | cons c rest => simp [stops c rfl]
  rw [span, List.takeWhile_append_of_pos digits, List.dropWhile_append_of_pos digits,
    none.1, none.2, List.append_nil]

theorem Digits.span_digits {cs : List Char} (digits : ∀ c ∈ cs, c.isDigit = true) :
    span cs = (cs, []) := by
  have all : span (cs ++ []) = (cs, []) := span_append_of digits nofun
  rwa [List.append_nil] at all

namespace Json.Numeral

open Nat (toDigits ofDigitChars)

def fractionText (fraction : List Char) : List Char :=
  if fraction.isEmpty then [] else '.' :: fraction

def exponentText : Option (Bool × List Char) → List Char
  | none => []
  | some (down, digits) => 'e' :: (if down then '-' else '+') :: digits

/-- The text of a numeral, where an exponent has a small letter and its sign. -/
def written (n : Numeral) : List Char :=
  (if n.negative then ['-'] else []) ++
    (n.whole ++ (fractionText n.fraction ++ exponentText n.exponent))

/-- The digits of a numeral are digits, and there are some where there have to be. -/
structure Valid (n : Numeral) : Prop where
  start : wholePart? n.whole = true
  whole : ∀ c ∈ n.whole, c.isDigit = true
  fraction : ∀ c ∈ n.fraction, c.isDigit = true
  exponent : ∀ down digits, n.exponent = some (down, digits) → digits ≠ [] ∧
    ∀ c ∈ digits, c.isDigit = true

theorem exponentText_stops (exponent : Option (Bool × List Char)) :
    ∀ c ∈ (exponentText exponent).head?, c.isDigit = false := by
  cases exponent with
  | none => nofun
  | some e =>
    rintro c ⟨⟩
    rfl

theorem fractionText_stops (fraction : List Char) (exponent : Option (Bool × List Char)) :
    ∀ c ∈ (fractionText fraction ++ exponentText exponent).head?, c.isDigit = false := by
  cases fraction with
  | nil => exact exponentText_stops exponent
  | cons d ds =>
    rintro c ⟨⟩
    rfl

/-- A valid numeral is read from its text. -/
theorem ofChars?_written {n : Numeral} (valid : n.Valid) : ofChars? n.written = some n := by
  obtain ⟨negative, whole, fraction, exponent⟩ := n
  obtain ⟨start, wholeDigits, fractionDigits, exponentDigits⟩ := valid
  dsimp only at start wholeDigits fractionDigits exponentDigits
  unfold ofChars?
  split
  case h_1 sign cs same =>
    obtain ⟨rfl, rfl⟩ : sign = negative ∧
      cs = whole ++ (fractionText fraction ++ exponentText exponent) := by
      cases negative with
      | true =>
        cases same
        exact ⟨rfl, rfl⟩
      | false =>
        split at same
        case h_1 rest first =>
          cases whole with
          | nil => cases start
          | cons d ds =>
            injection first with first
            have digit := wholeDigits d (List.mem_cons_self ..)
            rw [first] at digit
            cases digit
        case h_2 =>
          cases same
          exact ⟨rfl, rfl⟩
    rw [Digits.span_append_of wholeDigits (fractionText_stops fraction exponent)]
    simp only [start, Bool.not_true, Bool.false_eq_true, if_false]
    have power : ∀ down digits, exponent = some (down, digits) →
        Digits.splitSign ((if down then '-' else '+') :: digits) = (down, digits) ∧
          Digits.span digits = (digits, []) ∧ digits ≠ [] := by
      intro down digits same
      obtain ⟨filled, each⟩ := exponentDigits down digits same
      exact ⟨by cases down <;> rfl, Digits.span_digits each, filled⟩
    cases fraction with
    | nil =>
      cases exponent with
      | none => rfl
      | some e =>
        obtain ⟨sign, spans, filled⟩ := power e.1 e.2 rfl
        simp [fractionText, exponentText, sign, spans, filled]
    | cons d ds =>
      simp only [fractionText, List.isEmpty_cons, Bool.false_eq_true, if_false, List.cons_append]
      rw [← List.cons_append, Digits.span_append_of fractionDigits (exponentText_stops exponent)]
      cases exponent with
      | none => rfl
      | some e =>
        obtain ⟨sign, spans, filled⟩ := power e.1 e.2 rfl
        simp [exponentText, sign, spans, filled]

/-- The numeral that a whole number is written as. -/
def ofInt (n : Int) : Numeral :=
  { negative := n < 0, whole := toDigits 10 n.natAbs, fraction := [], exponent := none }

theorem isDigit_toDigits {n : Nat} : ∀ c ∈ toDigits 10 n, c.isDigit = true :=
  fun _ member => Nat.isDigit_of_mem_toDigits (by decide) (Nat.le_refl 10) member

/-- Only the numeral of zero starts with a zero. -/
theorem toDigits_head {n : Nat} (positive : 0 < n) : ∃ c cs, toDigits 10 n = c :: cs ∧ c ≠ '0' := by
  induction n using Nat.strongRecOn with
  | ind n ih =>
    rw [Nat.toDigits_eq_if (by decide)]
    split
    case isTrue small =>
      have other : ∀ d < 10, 0 < d → d.digitChar ≠ '0' := by decide
      exact ⟨_, [], rfl, other n small positive⟩
    case isFalse large =>
      obtain ⟨c, cs, written, other⟩ := ih (n / 10) (by omega) (by omega)
      rw [written]
      exact ⟨c, cs ++ [(n % 10).digitChar], rfl, other⟩

theorem wholePart?_toDigits (n : Nat) : wholePart? (toDigits 10 n) = true := by
  cases n with
  | zero => rfl
  | succ n =>
    obtain ⟨c, cs, written, other⟩ := toDigits_head (Nat.succ_pos n)
    rw [written]
    unfold wholePart?
    split
    case h_1 same => cases same
    case h_2 => rfl
    case h_3 same =>
      injection same with same
      exact absurd same other
    case h_4 => rfl

/-- A digit or a minus, and other characters of numerals. -/
theorem written_cons {n : Numeral} (valid : n.Valid) : ∃ c cs, n.written = c :: cs ∧
    (c.isDigit = true ∨ c = '-') ∧ ∀ d ∈ cs, Token.isNumeralChar d = true := by
  obtain ⟨negative, whole, fraction, exponent⟩ := n
  obtain ⟨start, wholeDigits, fractionDigits, exponentDigits⟩ := valid
  have numeral : ∀ cs : List Char, (∀ d ∈ cs, d.isDigit = true) →
    ∀ d ∈ cs, Token.isNumeralChar d = true :=
    fun cs digits d member => by simp [Token.isNumeralChar, digits d member]
  have tail : ∀ d ∈ fractionText fraction ++ exponentText exponent,
    Token.isNumeralChar d = true := by
    refine List.forall_mem_append.mpr ⟨?_, ?_⟩
    · cases fraction with
      | nil => nofun
      | cons d ds => exact List.forall_mem_cons.mpr ⟨rfl, numeral _ fractionDigits⟩
    · cases exponent with
      | none => nofun
      | some e =>
        refine List.forall_mem_cons.mpr ⟨rfl, List.forall_mem_cons.mpr ⟨by cases e.1 <;> rfl, ?_⟩⟩
        exact numeral _ (exponentDigits e.1 e.2 rfl).2
  cases whole with
  | nil => cases start
  | cons d ds =>
    have all := List.forall_mem_append.mpr ⟨numeral _ wholeDigits, tail⟩
    cases negative with
    | true => exact ⟨'-', _, rfl, .inr rfl, all⟩
    | false =>
      exact ⟨d, _, rfl, .inl (wholeDigits d (List.mem_cons_self ..)),
        (List.forall_mem_cons.mp all).2⟩

theorem valid_ofInt (n : Int) : (ofInt n).Valid where
  start := wholePart?_toDigits _
  whole := isDigit_toDigits
  fraction := nofun
  exponent := nofun

theorem chars_whole (n : Int) : Number.chars (.whole n) = (ofInt n).written := by
  cases n with
  | ofNat n =>
    show (Nat.repr n).toList = _
    rw [Nat.toList_repr]
    exact (List.append_nil _).symm
  | negSucc n =>
    have negative : decide (Int.negSucc n < 0) = true := decide_eq_true (Int.negSucc_lt_zero n)
    show ("-" ++ Nat.repr (n + 1)).toList = _
    rw [String.toList_append, Nat.toList_repr, ofInt, negative]
    exact congrArg ('-' :: ·) (List.append_nil _).symm

theorem le_ofDigitChars (cs : List Char) (n : Nat) : n ≤ ofDigitChars 10 cs n := by
  induction cs generalizing n with
  | nil => exact Nat.le_refl n
  | cons c cs ih =>
    have grows := ih (10 * n + (c.toNat - '0'.toNat))
    have next : ofDigitChars 10 (c :: cs) n = ofDigitChars 10 cs (10 * n + (c.toNat - '0'.toNat)) :=
      rfl
    omega

/-- While they fit 64 bits, all digits are gathered. -/
theorem gather_digits {cs : List Char} {n : Nat} (fits : ofDigitChars 10 cs n ≤ maxUInt64) :
    gather n cs = (ofDigitChars 10 cs n, cs.length, 0) := by
  induction cs generalizing n with
  | nil => rfl
  | cons c cs ih =>
    have next : ofDigitChars 10 (c :: cs) n = ofDigitChars 10 cs (n * 10 + Digits.value c) := by
      rw [Nat.mul_comm n 10]
      rfl
    rw [next] at fits
    have bound := Nat.le_trans (le_ofDigitChars cs _) fits
    simp only [gather, if_pos bound, ih fits, next, List.length_cons]

/-- A number in range is what its numeral stands for. -/
theorem number?_ofInt {n : Int} (low : Int64.minValue.toInt ≤ n) (high : n ≤ maxUInt64) :
    (ofInt n).number? = some (.whole n) := by
  have least : Int64.minValue.toInt = -2 ^ 63 := by decide
  have greatest : maxUInt64 = 2 ^ 64 - 1 := rfl
  have size : ofDigitChars 10 (toDigits 10 n.natAbs) 0 = n.natAbs :=
    Nat.ofDigitChars_toDigits (by decide) (Nat.le_refl 10)
  have gathered : gather 0 (toDigits 10 n.natAbs) = _ := gather_digits (by rw [size]; omega)
  rw [size] at gathered
  unfold number?
  rw [ofInt, if_pos ⟨rfl, rfl⟩]
  simp only [gathered, ne_eq, not_true_eq_false, if_false]
  by_cases negative : n < 0
  · have inside : ¬ (n.natAbs = 0 ∨ Int64.minValue.toInt.natAbs < n.natAbs) := by omega
    have value : -(n.natAbs : Int) = n := by omega
    simp only [negative, decide_true, Bool.not_true, Bool.false_eq_true, if_false,
      if_neg inside, value]
  · have value : (n.natAbs : Int) = n := by omega
    simp only [negative, decide_false, Bool.not_false, if_true, value]

theorem number?_int64 (n : Int64) : (ofInt n.toInt).number? = some (.whole n.toInt) := by
  have fits : Int64.maxValue.toInt ≤ maxUInt64 := by decide
  exact number?_ofInt (Int64.minValue_le_toInt n) (Int.le_trans (Int64.toInt_le n) fits)

end Json.Numeral
end RankedStore
