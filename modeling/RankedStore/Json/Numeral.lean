import RankedStore.Binary64
import RankedStore.Digits

/-! Numerals of JSON text and the numbers they stand for. A numeral without fraction and exponent is
a whole number as long as it fits 64 bits. Every other numeral is read quickly instead of exactly:
as many digits as fit 64 bits form the significand, which is then scaled by a rounded power of ten,
so the last bit may differ from the nearest number. -/
namespace RankedStore.Json

/-- The digits of a numeral as they are written. -/
structure Numeral where
  negative : Bool
  whole : List Char
  fraction : List Char
  /-- The sign of the exponent and its digits. -/
  exponent : Option (Bool × List Char)
deriving DecidableEq

inductive Number
  | whole (n : Int)
  | float (x : Binary64)
deriving DecidableEq

namespace Numeral

/-- Zero has one digit and no other numeral starts with a zero. -/
def wholePart? (digits : List Char) : Bool :=
  match digits with
  | [] => false
  | ['0'] => true
  | '0' :: _ => false
  | _ => true

/-- Reads one numeral that makes up the whole text. -/
def ofChars? (cs : List Char) : Option Numeral := do
  let (negative, cs) := match cs with
    | '-' :: rest => (true, rest)
    | _ => (false, cs)
  let (whole, rest) := Digits.span cs
  if !wholePart? whole then none
  let (fraction, rest) ← match rest with
    | '.' :: after =>
      let (digits, rest) := Digits.span after
      if digits.isEmpty then none else some (digits, rest)
    | _ => some ([], rest)
  match rest with
  | [] => return { negative, whole, fraction, exponent := none }
  | e :: after =>
    if e = 'e' ∨ e = 'E' then
      let (down, after) := Digits.splitSign after
      let (digits, rest) := Digits.span after
      if digits.isEmpty ∨ !rest.isEmpty then none
      else return { negative, whole, fraction, exponent := some (down, digits) }
    else none

def maxUInt64 : Nat := UInt64.size - 1

def maxExponent : Nat := 0x7FFFFFFF

/-- Takes digits into the significand while it fits 64 bits, and counts the others. -/
def gather (significand : Nat) : List Char → Nat × Nat × Nat
  | [] => (significand, 0, 0)
  | c :: rest =>
    let next := significand * 10 + Digits.value c
    if next ≤ maxUInt64 then
      let (result, taken, left) := gather next rest
      (result, taken + 1, left)
    else (significand, 0, rest.length + 1)

/-- The exponent's digits as a number, unless it is too large for 32 bits with a sign. -/
def exponentSize? (digits : List Char) : Option Nat :=
  digits.foldlM (fun n c =>
    let next := n * 10 + Digits.value c
    if next ≤ maxExponent then some next else none) 0

/-- The rounded power of ten, for exponents whose power is finite. -/
def power (n : Nat) : Binary64 := Binary64.ofNat (Binary64.tenTo n)

/-- Scales by powers of ten, at most 308 places a step, until the exponent is used up or nothing is
left; a number beyond the largest finite one is refused. -/
def scale (x : Binary64) (exponent : Int) : Option Binary64 :=
  if exponent.natAbs ≤ 308 then
    if 0 ≤ exponent then
      let product := x.mul (power exponent.natAbs)
      if product.isInfinite then none else some product
    else some (x.div (power exponent.natAbs))
  else if x.isZero then some x
  else if 0 < exponent then none
  else scale (x.div (power 308)) (exponent + 308)
  termination_by exponent.natAbs

def saturate (exponent : Int) : Int := max (-(maxExponent : Int) - 1) (min maxExponent exponent)

def withSign (negative : Bool) (x : Binary64) : Binary64 := if negative then x.neg else x

/-- The number of a numeral that is not a whole number of 64 bits. -/
def float? (n : Numeral) : Option Binary64 := do
  let (significand, _, left) := gather 0 n.whole
  let (significand, taken, _) := gather significand n.fraction
  let place : Int := (left : Int) - taken
  match n.exponent with
  | none => return withSign n.negative (← scale (.ofNat significand) place)
  | some (down, digits) =>
    match exponentSize? digits with
    | none =>
      if significand ≠ 0 ∧ !down then none else return withSign n.negative (.ofNat 0)
    | some size =>
      let exponent := saturate (if down then place - size else place + size)
      return withSign n.negative (← scale (.ofNat significand) exponent)

/-- The number a numeral stands for, or nothing if it is out of range. -/
def number? (n : Numeral) : Option Number :=
  if n.fraction.isEmpty ∧ n.exponent.isNone then
    let (significand, _, left) := gather 0 n.whole
    if left ≠ 0 then n.float?.map .float
    else if !n.negative then some (.whole significand)
    else if significand = 0 ∨ Int64.minValue.toInt.natAbs < significand then
      some (.float (.neg (.ofNat significand)))
    else some (.whole (-significand))
  else n.float?.map .float

end Numeral
end RankedStore.Json
