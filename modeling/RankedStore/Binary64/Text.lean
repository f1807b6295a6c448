import RankedStore.Binary64.Shortest

/-! How numbers are written. One style writes every number in full, for messages and listings; the
other follows the form of JSON numbers, which are written with an exponent once they are very large
or very small, and have a fraction part always. -/
namespace RankedStore.Binary64

structure Style where
  /-- Whether a number whose leading digit has this exponent of ten is written in full. -/
  inFull : Int → Bool
  /-- Whether whole numbers written in full end in `.0`. -/
  markWhole : Bool
  tie : Tie

/-- Every number in full: `1`, `0.0000001`, `9223372036854776000`. -/
def plain : Style where
  inFull _ := true
  markWhole := false
  tie := .upward

/-- Numbers from 10^-5 up to below 10^16 in full, others as `1e+16` or `1.5e-7`. -/
def interchange : Style where
  inFull exponent := -5 ≤ exponent ∧ exponent ≤ 15
  markWhole := true
  tie := .toEven

/-- Writes the digits with the last one standing at the place `10 ^ exponent`. -/
def positional (markWhole : Bool) (digits : List Char) (exponent : Int) : List Char :=
  match exponent with
  | .ofNat e => digits ++ List.replicate e '0' ++ (if markWhole then ['.', '0'] else [])
  | .negSucc e =>
    let places := e + 1
    if places < digits.length then
      digits.take (digits.length - places) ++ '.' :: digits.drop (digits.length - places)
    else
      '0' :: '.' :: List.replicate (places - digits.length) '0' ++ digits

/-- Writes one digit, the others after a point, and the exponent of the leading digit with its
sign. -/
def scientific (digits : List Char) (leading : Int) : List Char :=
  let sign := if leading < 0 then '-' else '+'
  let mantissa := match digits with
    | [] => []
    | [d] => [d]
    | d :: rest => d :: '.' :: rest
  mantissa ++ 'e' :: sign :: Nat.toDigits 10 leading.natAbs

def unsignedChars (style : Style) (x : Binary64) : List Char :=
  if x.isZero then
    if style.markWhole then ['0', '.', '0'] else ['0']
  else
    let decimal := shortest style.tie x
    let digits := Nat.toDigits 10 decimal.coefficient
    let leading := decimal.exponent + digits.length - 1
    if style.inFull leading then positional style.markWhole digits decimal.exponent
    else scientific digits leading

/-- The text of a finite number. -/
def chars (style : Style) (x : Binary64) : List Char :=
  (if x.isNegative then ['-'] else []) ++ x.unsignedChars style

/-- The text of any number in full. -/
def text (x : Binary64) : String :=
  if x.isNaN then "NaN"
  else if x.isInfinite then if x.isNegative then "-inf" else "inf"
  else String.ofList (x.chars plain)

end RankedStore.Binary64
