/-! IEEE double-precision numbers by their bit patterns: the total order on patterns, the exact
value of a finite pattern in units of 2^-1074, and rounding of exact quotients to the nearest
pattern, halves to the even one. All arithmetic is done on natural numbers, so nothing is lost
before the one rounding step. -/
namespace RankedStore

structure Binary64 where
  bits : UInt64
deriving DecidableEq, Inhabited

namespace Binary64

/-- Patterns below this magnitude are finite, larger ones are not numbers. -/
def infiniteMagnitude : Nat := 0x7FF0000000000000

/-- The value of every finite pattern is a whole number of these parts of one. -/
def unitsPerOne : Nat := 1 <<< 1074

/-- What the sign adds to a pattern. -/
def signWeight : Nat := 0x8000000000000000

/-- What one step of the exponent adds to a pattern. The fraction is less than that. -/
def exponentWeight : Nat := 0x10000000000000

def tenTo (n : Nat) : Nat := Nat.pow 10 n

def isNegative (x : Binary64) : Bool := signWeight ≤ x.bits.toNat

/-- The pattern without its sign. -/
def magnitude (x : Binary64) : Nat := x.bits.toNat % signWeight

def ofMagnitude (negative : Bool) (magnitude : Nat) : Binary64 :=
  ⟨UInt64.ofNat (if negative then magnitude + signWeight else magnitude)⟩

def neg (x : Binary64) : Binary64 := ofMagnitude (!x.isNegative) x.magnitude

def isFinite (x : Binary64) : Bool := x.magnitude < infiniteMagnitude

def isInfinite (x : Binary64) : Bool := x.magnitude = infiniteMagnitude

def isNaN (x : Binary64) : Bool := infiniteMagnitude < x.magnitude

def isZero (x : Binary64) : Bool := x.magnitude = 0

/-- The quiet pattern that a text without payload stands for. -/
def quietNaN (negative : Bool) : Binary64 := ofMagnitude negative 0x7FF8000000000000

def infinity (negative : Bool) : Binary64 := ofMagnitude negative infiniteMagnitude

/-- The place of a pattern in the total order: negative patterns run downwards, so that
-NaN < -inf < -0.0 < 0.0 < inf < NaN. -/
def orderKey (x : Binary64) : Int :=
  if x.isNegative then -(x.magnitude : Int) - 1 else x.magnitude

def compare (x y : Binary64) : Ordering := Ord.compare x.orderKey y.orderKey

/-! Exact values. The pattern after the largest finite one counts as the next grid point, which
makes the rounding interval of the largest finite number come out right. -/

/-- The value of a magnitude in units of 2^-1074. -/
def unitsOf (magnitude : Nat) : Nat :=
  let exponent := magnitude / exponentWeight
  let fraction := magnitude % exponentWeight
  if exponent = 0 then fraction else (fraction + exponentWeight) <<< (exponent - 1)

def units (x : Binary64) : Nat := unitsOf x.magnitude

/-- The magnitude nearest to `numerator / denominator` units. Up to 53 leading bits of the quotient
are kept; counting each dropped one as a step of the exponent makes exponent and fraction one
number, so a carry out of the fraction lands in the exponent. -/
def nearestMagnitude (numerator denominator : Nat) : Nat :=
  let dropped := (numerator / denominator).log2 + 1 - 53
  let step := denominator <<< dropped
  let quotient := numerator / step
  let rest := numerator % step
  let rounded :=
    if 2 * rest < step ∨ (2 * rest = step ∧ quotient % 2 = 0) then quotient else quotient + 1
  min (dropped * exponentWeight + rounded) infiniteMagnitude

/-- The number nearest to `numerator / denominator`. -/
def ofRatio (negative : Bool) (numerator denominator : Nat) : Binary64 :=
  ofMagnitude negative (nearestMagnitude (numerator * unitsPerOne) denominator)

def ofNat (n : Nat) : Binary64 := ofRatio false n 1

def ofInt (n : Int) : Binary64 := ofRatio (n < 0) n.natAbs 1

/-- The number nearest to `coefficient * 10 ^ exponent`. -/
def ofDecimal (negative : Bool) (coefficient : Nat) (exponent : Int) : Binary64 :=
  match exponent with
  | .ofNat e => ofRatio negative (coefficient * tenTo e) 1
  | .negSucc e => ofRatio negative coefficient (tenTo (e + 1))

/-- The rounded product of two finite numbers. -/
def mul (x y : Binary64) : Binary64 :=
  ofMagnitude (x.isNegative != y.isNegative) (nearestMagnitude (x.units * y.units) unitsPerOne)

/-- The rounded quotient of a finite number by a finite one other than zero. -/
def div (x y : Binary64) : Binary64 :=
  ofMagnitude (x.isNegative != y.isNegative) (nearestMagnitude (x.units * unitsPerOne) y.units)

end Binary64
end RankedStore
