import RankedStore.Table.Query

/-! All tables of a store by name. -/
namespace RankedStore

structure Catalog where
  tables : Dict String Table
deriving DecidableEq

namespace Catalog

def empty : Catalog := ⟨.empty⟩

def hasTable (c : Catalog) (name : String) : Bool := c.tables.contains name

def table (c : Catalog) (name : String) : Except Error Table :=
  match c.tables.get? name with
  | some t => .ok t
  | none => .error (.tableNotFound name)

/-- Puts a table in the place of the one with the same name. -/
def withTable (c : Catalog) (name : String) (t : Table) : Catalog := ⟨c.tables.insert name t⟩

def createTable (c : Catalog) (layout : TableLayout) : Except Error Catalog :=
  if c.hasTable layout.name then .error (.tableExists layout.name)
  else .ok (c.withTable layout.name (.ofLayout layout))

/-- Gives the dropped table and the others. -/
def dropTable (c : Catalog) (name : String) : Except Error (Table × Catalog) := do
  return (← c.table name, ⟨c.tables.erase name⟩)

def tableNames (c : Catalog) : List String := c.tables.keys

def rowCount (c : Catalog) : Nat := (c.tables.values.map Table.rowCount).foldl (· + ·) 0

def select (c : Catalog) (s : Select) : Except Error (List Row) := do
  (← c.table s.table).select s

def aggregate (c : Catalog) (a : Aggregate) : Except Error (Option Value) := do
  (← c.table a.table).aggregate a

/-! Writes give the catalog after them with their result: an update may fail after it has changed
some rows. -/

def insert (c : Catalog) (name : String) (row : Row) : Except Error Int64 × Catalog :=
  match (do (← c.table name).insert row) with
  | .error e => (.error e, c)
  | .ok (id, t) => (.ok id, c.withTable name t)

def updateWhere (c : Catalog) (u : Update) : Except Error (List (Int64 × Row)) × Catalog :=
  match c.table u.table with
  | .error e => (.error e, c)
  | .ok t =>
    let (replaced, t) := t.updateWhere u
    (replaced, c.withTable u.table t)

/-- Gives the old row, or nothing if there is none with the id. -/
def replace (c : Catalog) (name : String) (id : Int64) (row : Row) :
    Except Error (Option Row) × Catalog :=
  match (do (← c.table name).replace id row) with
  | .error e => (.error e, c)
  | .ok none => (.ok none, c)
  | .ok (some (old, t)) => (.ok (some old), c.withTable name t)

/-- Gives the deleted row, or nothing if there was none with the id. -/
def delete (c : Catalog) (name : String) (id : Int64) : Except Error (Option Row) × Catalog :=
  match c.table name with
  | .error e => (.error e, c)
  | .ok t => match t.delete id with
    | none => (.ok none, c)
    | some (old, t) => (.ok (some old), c.withTable name t)

end Catalog
end RankedStore
