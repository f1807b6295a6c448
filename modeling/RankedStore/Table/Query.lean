import RankedStore.Query.Statement
import RankedStore.Sort
import RankedStore.Table

/-! What statements do to one table: selecting rows, finding an extremum, changing a column. -/
namespace RankedStore.Table

/-- Whether a stored row meets a filter. -/
def meets (t : Table) (f : Filter) (row : Row) : Except Error Bool :=
  f.holds t.columns t.name row

/-- The rows that meet a filter, in the order of their ids. -/
def filterRows (t : Table) (f : Filter) :
    List (Int64 × Row) → Except Error (List (Int64 × Row))
  | [] => .ok []
  | (id, row) :: rest => do
    if ← t.meets f row then return (id, row) :: (← t.filterRows f rest)
    t.filterRows f rest

/-- The first value at a place that is not NULL. -/
def firstKnown? (t : Table) (i : Nat) : List Row → Except Error (Option Value)
  | [] => .ok none
  | row :: rest => do
    let value ← t.cellAt row i
    if value.isNull then t.firstKnown? i rest else return some value

def checkComparable (t : Table) (i : Nat) (first : Value) : List Row → Except Error Unit
  | [] => .ok ()
  | row :: rest => do
    let _ ← first.compare (← t.cellAt row i)
    t.checkComparable i first rest

/-- The value at a place of a row. -/
def valueAt (i : Nat) (row : Row) : Value := row[i]?.getD .null

/-- How two rows compare by the cells at a place, both of which are there and comparable. -/
def orderAt (i : Nat) (a b : Row) : Ordering := ((valueAt i a).order? (valueAt i b)).getD .eq

def isBefore (i : Nat) (direction : Direction) (a b : Row) : Bool :=
  match direction with
  | .ascending => orderAt i a b = .lt
  | .descending => orderAt i a b = .gt

/-- The integers among values that are rounded to a float. Each of them is equal to the float, even
if they are not equal to each other. -/
def roundedTo (x : Binary64) (values : List Value) : List Int64 :=
  (values.filterMap Value.integer?).filter fun n => Binary64.ofInt n.toInt = x

/-- Whether a value is a float to which unequal integers of the list are rounded. With such a float
among them, values have no order. -/
def isTorn (values : List Value) : Value → Bool
  | .float x => (roundedTo x values).any fun m => (roundedTo x values).any fun n => m ≠ n
  | _ => false

/-- So many rows are sorted by insertion, whatever they are compared by. What sorts more rows
demands an order of them. Where they have none it may abort, or leave them in any order. -/
def insertionLimit : Nat := 20

/-- Sorts rows by the cells at a place. A first pass makes sure that every cell compares with one
that is not NULL, after which any two of them compare. More rows than are sorted by insertion are
given up if their cells have no order. -/
def sortRows (t : Table) (i : Nat) (direction : Direction) (rows : List Row) :
    Except Error (List Row) := do
  match ← t.firstKnown? i rows with
  | none => pure ()
  | some first => t.checkComparable i first rows
  let values := rows.map (valueAt i)
  if insertionLimit < rows.length && values.any (isTorn values) then
    throw (.damage (.unordered t.name))
  return insertionSort (isBefore i direction) rows

/-- The rows that meet the filter, in the order of the statement or of the ids, up to the limit. -/
def select (t : Table) (s : Select) : Except Error (List Row) := do
  let rows := (← t.filterRows s.filter t.scan).map (·.2)
  let rows ← match s.order with
    | none => pure rows
    | some (column, direction) => t.sortRows (← t.layout.index column) direction rows
  return match s.limit with
    | none => rows
    | some limit => rows.take limit

/-- The best value at a place among rows and a value already found. The first of equals stays. -/
def bestOf (t : Table) (extremum : Extremum) (i : Nat) :
    Option Value → List Row → Except Error (Option Value)
  | best, [] => .ok best
  | best, row :: rest => do
    let value ← t.cellAt row i
    if value.isNull then t.bestOf extremum i best rest
    else match best with
      | none => t.bestOf extremum i (some value) rest
      | some current =>
        let ordering ← value.compare current
        t.bestOf extremum i (some (if ordering = extremum.better then value else current)) rest

/-- The extremum of the values of a column that are not NULL, if there are any. -/
def aggregate (t : Table) (a : Aggregate) : Except Error (Option Value) := do
  t.bestOf a.extremum (← t.layout.index a.column) none t.rows.values

/-- The value that an update puts in the place of the current one. -/
def assigned (u : Update) (id : Int64) (current : Value) : Except Error Value :=
  match u.assignment, current with
  | .set value, _ => .ok value
  | .shift _, .null => .ok .null
  | .shift delta, .integer n => match addChecked n delta with
    | some sum => .ok (.integer sum)
    | none => .error (.constraintViolation (.shiftOverflow u.column id delta))
  | .shift _, other => .error (.typeMismatch (.notShiftable u.column other.kind))

/-- The rows that an update is to change, as they will be. -/
def plan (t : Table) (u : Update) (i : Nat) :
    List (Int64 × Row) → Except Error (List (Int64 × Row))
  | [] => .ok []
  | (id, row) :: rest => do
    if ← t.meets u.filter row then
      let value ← assigned u id (← t.cellAt row i)
      return (id, row.set i value) :: (← t.plan u i rest)
    t.plan u i rest

/-- Replaces rows one after the other. Each is checked against the table as it is by then, and where
a check fails the rows before it stay replaced. -/
def replaceAll (t : Table) : List (Int64 × Row) → Except Error (List (Int64 × Row)) × Table
  | [] => (.ok [], t)
  | (id, row) :: rest => match t.replace id row with
    | .error e => (.error e, t)
    | .ok none => t.replaceAll rest
    | .ok (some (old, t)) =>
      let (replaced, t) := t.replaceAll rest
      (replaced.map ((id, old) :: ·), t)

/-- Changes a column in all rows that meet the filter. All new rows are computed before the first
one is written. Gives the ids and the old rows of the changed ones. -/
def updateWhere (t : Table) (u : Update) : Except Error (List (Int64 × Row)) × Table :=
  match (do t.plan u (← t.layout.index u.column) t.scan) with
  | .error e => (.error e, t)
  | .ok rows => t.replaceAll rows

end RankedStore.Table
