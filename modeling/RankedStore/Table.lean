import RankedStore.Dict
import RankedStore.Column

/-! A table holds rows by id. The first column of every row is its id; writing a row checks it
against the columns and against the other rows. The ids that a table gives out itself only go up, so
an id is not given out again after its row is deleted. -/
namespace RankedStore

structure TableLayout where
  name : String
  columns : Columns
deriving DecidableEq

namespace TableLayout

/-- The layout of a table with these columns, after an id column unless they start with one. -/
def ofColumns (name : String) (columns : Columns) : TableLayout :=
  match columns with
  | [] => ⟨name, [Column.id]⟩
  | c :: _ => ⟨name, if c.name = Column.idName then columns else Column.id :: columns⟩

def index (layout : TableLayout) (column : String) : Except Error Nat :=
  match layout.columns.index? column with
  | some i => .ok i
  | none => .error (.columnNotFound column layout.name)

def toJson (layout : TableLayout) : Json :=
  .object [("name", .text layout.name),
    ("schema", .object [("columns", .array (layout.columns.map Column.toJson))])]

def decodeColumns : Json.Decoder Columns := fun depth d => do
  match ← Json.Decoder.members ["columns"] depth d with
  | (depth, [some columns]) => Json.Decoder.list Column.decoder depth columns
  | _ => none

def decoder : Json.Decoder TableLayout := fun depth d => do
  match ← Json.Decoder.members ["name", "schema"] depth d with
  | (depth, [some name, some schema]) =>
    return ⟨← Json.Decoder.text depth name, ← decodeColumns depth schema⟩
  | _ => none

end TableLayout

structure Table where
  layout : TableLayout
  rows : Dict Int64 Row
  nextId : Int64
deriving DecidableEq

namespace Table

def ofLayout (layout : TableLayout) : Table := ⟨layout, .empty, 1⟩

def name (t : Table) : String := t.layout.name

def columns (t : Table) : Columns := t.layout.columns

def get? (t : Table) (id : Int64) : Option Row := t.rows.get? id

def rowCount (t : Table) : Nat := t.rows.size

/-- The rows with their ids, in the order of the ids. -/
def scan (t : Table) : List (Int64 × Row) := t.rows.entries

/-- The cell of a stored row at the place of a column. -/
def cellAt (t : Table) (row : Row) (i : Nat) : Except Error Value :=
  match row[i]? with
  | some value => .ok value
  | none => .error (.damage (.rowTooShort t.name))

def checkCells : Columns → Row → Except Error Unit
  | c :: columns, v :: row => do
    c.check v
    checkCells columns row
  | _, _ => .ok ()

/-- A row has one cell a column, each with a value that its column admits. -/
def checkRow (t : Table) (row : Row) : Except Error Unit :=
  if row.length ≠ t.columns.length then
    .error (.typeMismatch (.width t.name t.columns.length row.length))
  else checkCells t.columns row

/-- Whether a row, other than the one with the id to be passed over, has the value at this place. -/
def isTaken (t : Table) (i : Nat) (value : Value) (except : Option Int64) :
    List (Int64 × Row) → Except Error Bool
  | [] => .ok false
  | (id, row) :: rest =>
    if some id = except then t.isTaken i value except rest
    else do
      if (← t.cellAt row i) = value then return true
      t.isTaken i value except rest

def checkUniqueFrom (t : Table) (except : Option Int64) (i : Nat) :
    Columns → Row → Except Error Unit
  | c :: columns, v :: row => do
    if c.unique && !v.isNull then
      if ← t.isTaken i v except t.scan then
        throw (.constraintViolation (.notUnique c.name v))
    t.checkUniqueFrom except (i + 1) columns row
  | _, _ => .ok ()

/-- No other row has the same value in a unique column, NULL apart. -/
def checkUnique (t : Table) (row : Row) (except : Option Int64) : Except Error Unit :=
  t.checkUniqueFrom except 0 t.columns row

/-- The id that a new row is to have: its own, or the next one if it has none. -/
def idOf (t : Table) : Row → Except Error Int64
  | .integer id :: _ => .ok id
  | .null :: _ => .ok t.nextId
  | v :: _ => .error (.typeMismatch (.id t.name v.kind))
  | [] => .error (.typeMismatch (.id t.name "nothing"))

/-- Stores a row under the id that it is to have. After the last id there is none to go on with,
which is an abort, as where the sum `id + 1` is checked for overflow. -/
def insert (t : Table) (row : Row) : Except Error (Int64 × Table) := do
  let id ← t.idOf row
  let row := .integer id :: row.tail
  t.checkRow row
  if t.rows.contains id then throw (.constraintViolation (.idTaken id t.name))
  t.checkUnique row none
  match addChecked id 1 with
  | none => throw (.damage (.idsExhausted t.name))
  | some after =>
    return (id, { t with rows := t.rows.insert id row, nextId := max t.nextId after })

/-- Puts another row in the place of a stored one. Gives the row that was there and the new table,
or nothing if there is no row with the id. -/
def replace (t : Table) (id : Int64) (row : Row) : Except Error (Option (Row × Table)) :=
  match t.get? id with
  | none => .ok none
  | some old => do
    t.checkRow row
    t.checkUnique row (some id)
    return some (old, { t with rows := t.rows.insert id row })

def delete (t : Table) (id : Int64) : Option (Row × Table) :=
  (t.get? id).map fun old => (old, { t with rows := t.rows.erase id })

/-- Puts a row back as it was. Nothing is checked: a store only does this to undo a change. -/
def restore (t : Table) (id : Int64) (row : Row) : Table :=
  { t with rows := t.rows.insert id row }

end Table
end RankedStore
