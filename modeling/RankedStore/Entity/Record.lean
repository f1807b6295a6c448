import RankedStore.Table

/-! One entity in memory: its fields, and the fields as they were last read from the store or
written to it. What differs between the two is what a save has to write. -/
namespace RankedStore

structure Record where
  entity : String
  /-- A record without an id was never stored. -/
  id : Option Int64 := none
  fields : Dict String Value := .empty
  stored : Dict String Value := .empty
deriving DecidableEq

namespace Record

def ofEntity (entity : String) : Record := { entity }

def isNew (r : Record) : Bool := r.id.isNone

def requireId (r : Record) : Except Error Int64 :=
  match r.id with
  | some id => .ok id
  | none => .error (.invalidArgument (.notPersisted r.entity))

def get? (r : Record) (field : String) : Option Value := r.fields.get? field

def integer? (r : Record) (field : String) : Option Int64 := (r.get? field).bind Value.integer?

/-- Sets a field. The id is not a field. -/
def set (r : Record) (field : String) (value : Value) : Except Error Record :=
  if field = Column.idName then .error (.invalidArgument (.idIsAssigned r.entity))
  else .ok { r with fields := r.fields.insert field value }

/-- The stored value of a field, NULL if it was not stored. -/
def storedValue (r : Record) (field : String) : Value := (r.stored.get? field).getD .null

/-- The fields that differ from what is stored, each with the old and the new value. -/
def changes (r : Record) : List (String × Value × Value) :=
  r.fields.entries.filterMap fun (field, value) =>
    let old := r.storedValue field
    if old = value then none else some (field, old, value)

/-- The old and the new value of a field, if they differ. -/
def change? (r : Record) (field : String) : Option (Value × Value) :=
  (r.changes.find? (fun c => c.1 = field)).map (·.2)

def isDirty (r : Record) : Bool := !r.changes.isEmpty

def checkFields (layout : TableLayout) : List String → Except Error Unit
  | [] => .ok ()
  | field :: rest => do
    let _ ← layout.index field
    checkFields layout rest

def cellOf (r : Record) (c : Column) : Value :=
  if c.name = Column.idName then (r.id.map Value.integer).getD .null
  else (r.get? c.name).getD .null

/-- The record as a row. Every field needs a column; a column without a field is NULL. -/
def toRow (r : Record) (layout : TableLayout) : Except Error Row := do
  checkFields layout r.fields.keys
  return layout.columns.map r.cellOf

/-- Takes the cells of a row one by one. -/
def loadCells (r : Record) : Columns → Row → Record
  | c :: columns, v :: row =>
    let r := if c.name = Column.idName then { r with id := v.integer? }
      else { r with fields := r.fields.insert c.name v }
    r.loadCells columns row
  | _, _ => r

/-- The record with the state of a stored row and nothing else. -/
def load (r : Record) (layout : TableLayout) (row : Row) : Except Error Record :=
  if row.length ≠ layout.columns.length then
    .error (.typeMismatch (.recordWidth layout.name row.length layout.columns.length))
  else
    let loaded := (ofEntity r.entity).loadCells layout.columns row
    .ok { loaded with stored := loaded.fields }

def ofRow (layout : TableLayout) (row : Row) : Except Error Record :=
  (ofEntity layout.name).load layout row

def withId (r : Record) (id : Int64) : Record := { r with id := some id }

/-- Takes the fields as they are for what is stored. -/
def markClean (r : Record) : Record := { r with stored := r.fields }

/-- A removed record keeps its fields and is new again. -/
def detach (r : Record) : Record := { r with id := none, stored := .empty }

end Record
end RankedStore
