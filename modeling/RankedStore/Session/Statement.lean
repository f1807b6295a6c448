import RankedStore.Session

/-! Statements inside a session: each looks at or changes the tables that the connection sees, and
notes in the undo log what it changed. An update that fails halfway notes nothing. -/
namespace RankedStore.Action

def catalog : Action Catalog := read .ok

def tableNames : Action (List String) := read fun c => .ok c.tableNames

def hasTable (table : String) : Action Bool := read fun c => .ok (c.hasTable table)

def layout (table : String) : Action TableLayout := read fun c => do return (← c.table table).layout

def rowCount (table : String) : Action Nat := read fun c => do return (← c.table table).rowCount

def createTable (layout : TableLayout) : Action Unit := do
  report .debug "CREATE TABLE" [("table", layout.name)]
  write fun c => match c.createTable layout with
    | .error e => (.error e, c)
    | .ok created => (.ok (), created)
  record (.created layout.name)

/-- Inserts a row whose first cell is its id, or NULL for the next id. Gives the id. -/
def insert (table : String) (row : Row) : Action Int64 := do
  let id ← write (·.insert table row)
  report .debug "INSERT" [("table", table), ("id", toString id)]
  record (.inserted table id)
  return id

def fetch (table : String) (id : Int64) : Action (Option Row) :=
  read fun c => do return (← c.table table).get? id

def select (s : Select) : Action (List Row) := do
  report .debug "execute" [("statement", s.display)]
  read (·.select s)

def aggregate (a : Aggregate) : Action (Option Value) := do
  report .debug "execute" [("statement", a.display)]
  read (·.aggregate a)

/-- Changes all rows that meet the filter and gives their number. -/
def updateWhere (u : Update) : Action Nat := do
  report .debug "execute" [("statement", u.display)]
  let replaced ← write (·.updateWhere u)
  replaced.forM fun (id, old) => record (.replaced u.table id old)
  report .debug "bulk update applied" [("rows", toString replaced.length)]
  return replaced.length

/-- Overwrites a whole row. -/
def replace (table : String) (id : Int64) (row : Row) : Action Unit := do
  match ← write (·.replace table id row) with
  | none => throw (.entityNotFound table id)
  | some old => record (.replaced table id old)

/-- Sets one cell of one row. -/
def updateById (table : String) (id : Int64) (column : String) (value : Value) : Action Unit := do
  report .debug "UPDATE by id"
    [("table", table), ("id", toString id), ("column", column), ("value", value.display)]
  match ← fetch table id with
  | none => throw (.entityNotFound table id)
  | some row =>
    let i ← ofExcept ((← layout table).index column)
    if i < row.length then replace table id (row.set i value)
    else throw (.damage (.rowTooShort table))

/-- Deletes a row and tells whether there was one. -/
def delete (table : String) (id : Int64) : Action Bool := do
  report .debug "DELETE" [("table", table), ("id", toString id)]
  match ← write (·.delete table id) with
  | none => return false
  | some old =>
    record (.deleted table id old)
    return true

end RankedStore.Action
