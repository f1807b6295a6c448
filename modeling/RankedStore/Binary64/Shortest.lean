import RankedStore.Binary64

/-! The decimal of fewest digits that rounds to a given number. A decimal `c * 10 ^ p` rounds to the
number iff it lies between the midpoints to its two neighbours; the midpoints themselves belong to
the interval iff the number's last bit is even. The coarsest decimal grid with a point in the
interval has one next to the number itself, so looking at the two grid points around the number is
enough. -/
namespace RankedStore.Binary64

/-- The value `coefficient * 10 ^ exponent`. -/
structure Decimal where
  coefficient : Nat
  exponent : Int
deriving DecidableEq

/-- Which of two equally near decimals is chosen. -/
inductive Tie
  | toEven
  | upward
deriving DecidableEq

/-- Whether `coefficient * 10 ^ exponent` rounds to `magnitude`. Both midpoints are doubled, to stay
with whole numbers. -/
def roundsTo (magnitude coefficient : Nat) (exponent : Int) : Bool :=
  let (scaled, unit) := match exponent with
    | .ofNat e => (coefficient * tenTo e * (2 * unitsPerOne), 1)
    | .negSucc e => (coefficient * (2 * unitsPerOne), tenTo (e + 1))
  let low := (unitsOf (magnitude - 1) + unitsOf magnitude) * unit
  let high := (unitsOf magnitude + unitsOf (magnitude + 1)) * unit
  if magnitude % 2 = 0 then low ≤ scaled ∧ scaled ≤ high else low < scaled ∧ scaled < high

/-- The point of the grid of step `10 ^ exponent` that is chosen for `magnitude`, if one of the two
around it rounds to it. -/
def gridPoint? (tie : Tie) (magnitude : Nat) (exponent : Int) : Option Nat :=
  let (numerator, denominator) := match exponent with
    | .ofNat e => (unitsOf magnitude, unitsPerOne * tenTo e)
    | .negSucc e => (unitsOf magnitude * tenTo (e + 1), unitsPerOne)
  let below := numerator / denominator
  let rest := numerator % denominator
  match roundsTo magnitude below exponent, roundsTo magnitude (below + 1) exponent with
  | false, false => none
  | true, false => some below
  | false, true => some (below + 1)
  | true, true =>
    if 2 * rest < denominator then some below
    else if denominator < 2 * rest then some (below + 1)
    else match tie with
      | .toEven => some (if below % 2 = 0 then below else below + 1)
      | .upward => some (below + 1)

/-- Tries ever finer grids. -/
def search (tie : Tie) (magnitude : Nat) : Nat → Int → Decimal
  | 0, exponent => ⟨0, exponent⟩
  | fuel + 1, exponent =>
    match gridPoint? tie magnitude exponent with
    | some coefficient => ⟨coefficient, exponent⟩
    | none => search tie magnitude fuel (exponent - 1)

/-- The shortest decimal of a finite number other than zero, without its sign. The first grid is
coarser than the number itself, and seventeen digits always suffice. -/
def shortest (tie : Tie) (x : Binary64) : Decimal :=
  let leadingBit : Int := (x.units.log2 : Int) - 1074
  search tie x.magnitude 24 ((leadingBit + 1) * 30103 / 100000 + 2)

end RankedStore.Binary64
