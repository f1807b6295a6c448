import RankedStore.Binary64
import RankedStore.Digits

/-! Reading numbers from decimal text, rounded correctly: an optional sign, then a word for infinity
or not-a-number in any case of letters, or digits with at most one point and at least one digit, and
an optional exponent. -/
namespace RankedStore.Binary64

/-- Digits of an exponent count only until it is far beyond every number's. -/
def cappedExponent (digits : List Char) : Nat :=
  digits.foldl (fun n c => if n < 0x10000 then n * 10 + Digits.value c else n) 0

/-- The exponent after the digits: empty text means zero. -/
def exponentOf? : List Char → Option Int
  | [] => some 0
  | e :: rest =>
    if e = 'e' ∨ e = 'E' then
      let (negative, digits) := Digits.splitSign rest
      if !Digits.isNumber digits then none
      else
        let size : Int := cappedExponent digits
        some (if negative then -size else size)
    else none

def ofUnsignedText? (negative : Bool) (cs : List Char) : Option Binary64 :=
  let word := cs.map Char.toLower
  if word = "inf".toList ∨ word = "infinity".toList then some (infinity negative)
  else if word = "nan".toList then some (quietNaN negative)
  else do
    let (whole, rest) := Digits.span cs
    let (fraction, rest) := match rest with
      | '.' :: after => Digits.span after
      | _ => ([], rest)
    if whole.isEmpty ∧ fraction.isEmpty then none
    let exponent ← exponentOf? rest
    return ofDecimal negative (Digits.toNat (whole ++ fraction)) (exponent - fraction.length)

def ofText? (text : String) : Option Binary64 :=
  let (negative, cs) := Digits.splitSign text.toList
  ofUnsignedText? negative cs

end RankedStore.Binary64
