/-! Decimal digits at the front of a text. -/
namespace RankedStore.Digits

def value (c : Char) : Nat := c.toNat - '0'.toNat

/-- The number that a row of digits spells. -/
def toNat (digits : List Char) : Nat := digits.foldl (fun n c => n * 10 + value c) 0

/-- Splits off the longest row of digits at the front. -/
def span (cs : List Char) : List Char × List Char :=
  (cs.takeWhile Char.isDigit, cs.dropWhile Char.isDigit)

/-- Splits off a sign, telling whether it was a minus. -/
def splitSign : List Char → Bool × List Char
  | '-' :: rest => (true, rest)
  | '+' :: rest => (false, rest)
  | cs => (false, cs)

/-- Whether the text is digits only, and at least one. -/
def isNumber (cs : List Char) : Bool := !cs.isEmpty && cs.all Char.isDigit

end RankedStore.Digits
