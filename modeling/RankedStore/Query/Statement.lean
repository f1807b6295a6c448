import RankedStore.Query.Filter

/-! Statements are values. Their texts are for messages only. -/
namespace RankedStore

inductive Direction
  | ascending
  | descending
deriving DecidableEq

def Direction.display : Direction → String
  | .ascending => "ASC"
  | .descending => "DESC"

/-- The text of the condition, for a filter that leaves out anything at all. -/
def Filter.whereClause (f : Filter) : String := if f.isAll then "" else s!" WHERE {f.display}"

structure Select where
  table : String
  filter : Filter := .all
  order : Option (String × Direction) := none
  limit : Option Nat := none

/-- The statement for those of its rows that meet a filter, too. -/
def Select.filtered (s : Select) (f : Filter) : Select := { s with filter := s.filter.and f }

def Select.display (s : Select) : String :=
  let order := match s.order with
    | some (column, direction) => s!" ORDER BY {column} {direction.display}"
    | none => ""
  let limit := match s.limit with
    | some limit => s!" LIMIT {limit}"
    | none => ""
  s!"SELECT * FROM {s.table}" ++ s.filter.whereClause ++ order ++ limit

inductive Extremum
  | min
  | max
deriving DecidableEq

def Extremum.display : Extremum → String
  | .min => "MIN"
  | .max => "MAX"

/-- The ordering of a better value to the best one so far. -/
def Extremum.better : Extremum → Ordering
  | .min => .lt
  | .max => .gt

structure Aggregate where
  extremum : Extremum
  table : String
  column : String

def Aggregate.display (a : Aggregate) : String :=
  s!"SELECT {a.extremum.display}({a.column}) FROM {a.table}"

inductive Assignment
  | set (value : Value)
  /-- Adds to integers and leaves NULL alone. -/
  | shift (delta : Int64)
deriving DecidableEq

structure Update where
  table : String
  column : String
  assignment : Assignment
  filter : Filter := .all

/-- The statement for those of its rows that meet a filter, too. -/
def Update.filtered (u : Update) (f : Filter) : Update := { u with filter := u.filter.and f }

def Update.display (u : Update) : String :=
  let value := match u.assignment with
    | .set value => value.display
    | .shift delta =>
      if delta < 0 then s!"{u.column} - {delta.toInt.natAbs}" else s!"{u.column} + {delta}"
  s!"UPDATE {u.table} SET {u.column} = {value}" ++ u.filter.whereClause

end RankedStore
