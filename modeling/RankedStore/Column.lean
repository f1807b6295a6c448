import RankedStore.Error

/-! Columns: which values a cell may hold, and how columns are described in JSON. -/
namespace RankedStore

inductive ColumnType
  | integer
  | float
  | text
  | boolean
deriving DecidableEq

namespace ColumnType

def display : ColumnType → String
  | .integer => "INTEGER"
  | .float => "FLOAT"
  | .text => "TEXT"
  | .boolean => "BOOLEAN"

def name : ColumnType → String
  | .integer => "integer"
  | .float => "float"
  | .text => "text"
  | .boolean => "boolean"

def ofName? (name : String) : Option ColumnType :=
  [integer, float, text, boolean].find? (fun t => t.name = name)

/-- Every type admits NULL, and a float column admits integers. -/
def admits : ColumnType → Value → Bool
  | _, .null => true
  | .integer, .integer _ => true
  | .float, .float _ | .float, .integer _ => true
  | .text, .text _ => true
  | .boolean, .boolean _ => true
  | _, _ => false

/-- The name of a type, alone or as the key of an object that holds `null`. -/
def decoder : Json.Decoder ColumnType := fun depth d => do
  match ← Json.Decoder.choice depth d with
  | (name, none) => ofName? name
  | (name, some (_, .null)) => ofName? name
  | _ => none

end ColumnType

structure Column where
  name : String
  type : ColumnType
  nullable : Bool := true
  unique : Bool := false
  primaryKey : Bool := false
deriving DecidableEq

namespace Column

/-- Every table starts with a column of this name, which holds the ids of the rows. -/
def idName : String := "id"

/-- A primary key is never NULL. -/
def asPrimaryKey (c : Column) : Column := { c with primaryKey := true, nullable := false }

def id : Column := asPrimaryKey { name := idName, type := .integer }

/-- Whether a cell of this column may hold the value. -/
def check (c : Column) (v : Value) : Except Error Unit :=
  if v.isNull then
    if c.nullable then .ok () else .error (.constraintViolation (.nullCell c.name))
  else if c.type.admits v then .ok ()
  else .error (.typeMismatch (.cell c.name c.type.display v.kind))

def toJson (c : Column) : Json :=
  .object [("name", .text c.name), ("type", .text c.type.name), ("nullable", .boolean c.nullable),
    ("unique", .boolean c.unique), ("primary_key", .boolean c.primaryKey)]

def decoder : Json.Decoder Column := fun depth d => do
  let names := ["name", "type", "nullable", "unique", "primary_key"]
  match ← Json.Decoder.members names depth d with
  | (depth, [some name, some type, nullable, unique, primaryKey]) =>
    return {
      name := ← Json.Decoder.text depth name
      type := ← ColumnType.decoder depth type
      nullable := (← nullable.mapM (Json.Decoder.boolean depth)).getD true
      unique := (← unique.mapM (Json.Decoder.boolean depth)).getD false
      primaryKey := (← primaryKey.mapM (Json.Decoder.boolean depth)).getD false }
  | _ => none

end Column

/-- The columns of a row, from left to right. -/
abbrev Columns := List Column

namespace Columns

/-- The place of the first column with this name. -/
def index? (columns : Columns) (name : String) : Option Nat :=
  columns.findIdx? (fun c => c.name = name)

def find? (columns : Columns) (name : String) : Option Column :=
  List.find? (fun c => c.name = name) columns

end Columns
end RankedStore
