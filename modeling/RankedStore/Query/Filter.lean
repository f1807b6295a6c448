import RankedStore.Column

/-! Filters choose rows by the values of their cells. A comparison with NULL on either side is never
met, and a conjunction is tried from left to right and stops at the first filter that is not met or
that cannot be decided. -/
namespace RankedStore

inductive Comparison
  | eq
  | ne
  | gt
  | gte
  | lt
deriving DecidableEq

def Comparison.accepts : Comparison → Ordering → Bool
  | .eq, o => o = .eq
  | .ne, o => o ≠ .eq
  | .gt, o => o = .gt
  | .gte, o => o ≠ .lt
  | .lt, o => o = .lt

def Comparison.symbol : Comparison → String
  | .eq => "="
  | .ne => "<>"
  | .gt => ">"
  | .gte => ">="
  | .lt => "<"

inductive Filter
  | all
  | compare (column : String) (comparison : Comparison) (value : Value)
  /-- Both ends belong to the range. -/
  | between (column : String) (low high : Value)
  | conj (filters : List Filter)

namespace Filter

def isAll : Filter → Bool
  | .all => true
  | _ => false

/-- The conjunction of two filters, without a conjunction inside a conjunction. -/
def and : Filter → Filter → Filter
  | .all, g => g
  | f, .all => f
  | .conj fs, .conj gs => .conj (fs ++ gs)
  | .conj fs, g => .conj (fs ++ [g])
  | f, .conj gs => .conj (f :: gs)
  | f, g => .conj [f, g]

/-- The conjunction of filters added one after the other. -/
def ofList (filters : List Filter) : Filter := filters.foldl and .all

/-- The cell of a row in a named column. -/
def cell (columns : Columns) (table : String) (row : Row) (column : String) :
    Except Error Value :=
  match columns.index? column with
  | none => .error (.columnNotFound column table)
  | some i => match row[i]? with
    | some value => .ok value
    | none => .error (.damage (.rowTooShort table))

/-- How a cell compares with a value, unless one of them is NULL. -/
def relate (columns : Columns) (table : String) (row : Row) (column : String) (value : Value) :
    Except Error (Option Ordering) := do
  let current ← cell columns table row column
  if current.isNull || value.isNull then return none
  return some (← current.compare value)

mutual

/-- Whether a row of the table meets the filter. -/
def holds (columns : Columns) (table : String) (row : Row) : Filter → Except Error Bool
  | .all => .ok true
  | .compare column comparison value => do
    return (← relate columns table row column value).any comparison.accepts
  | .between column low high => do
    let above := (← relate columns table row column low).any (· ≠ .lt)
    let below := (← relate columns table row column high).any (· ≠ .gt)
    return above && below
  | .conj filters => allHold columns table row filters

def allHold (columns : Columns) (table : String) (row : Row) : List Filter → Except Error Bool
  | [] => .ok true
  | f :: rest => do
    if ← f.holds columns table row then allHold columns table row rest else return false

end

mutual

/-- The filter as a condition of a statement. -/
def display : Filter → String
  | .all => "TRUE"
  | .compare column comparison value => s!"{column} {comparison.symbol} {value}"
  | .between column low high => s!"{column} BETWEEN {low} AND {high}"
  | .conj filters => " AND ".intercalate (displayList filters)

def displayList : List Filter → List String
  | [] => []
  | f :: rest => f.display :: displayList rest

end

end Filter
end RankedStore
