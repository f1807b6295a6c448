import RankedStore.Table

/-! Descriptions of entity types: a name, columns, and the behaviors attached to the type with their
options as they are written. -/
namespace RankedStore

/-- Letters, digits and underscores of ASCII, with no digit in front. -/
def isIdentifier (name : String) : Bool :=
  match name.toList with
  | [] => false
  | c :: rest => (c.isAlpha || c = '_') && rest.all (fun d => d.isAlphanum || d = '_')

/-- Names of entities and columns are identifiers. The role is for the message. -/
def checkIdentifier (role name : String) : Except Error Unit :=
  if isIdentifier name then .ok () else .error (.configuration (.badIdentifier role name))

inductive Behavior
  | sortable (options : Dict String Json)

namespace Behavior

def plain : Behavior := .sortable .empty

def name : Behavior → String
  | .sortable _ => "sortable"

def withOption (key : String) (value : Json) : Behavior → Behavior
  | .sortable options => .sortable (options.insert key value)

/-- The options as texts: a string is its own text, anything else its JSON form. -/
def texts : Behavior → Dict String String
  | .sortable options => options.mapValues fun
    | .text s => s
    | other => other.compact

def toJson : Behavior → Json
  | .sortable options => .object [("sortable", .object options.entries)]

def decoder : Json.Decoder Behavior := fun depth d => do
  match ← Json.Decoder.choice depth d with
  | ("sortable", some (depth, options)) =>
    return .sortable (← Json.Decoder.dict Json.stringOf? Json.Decoder.json depth options)
  | _ => none

end Behavior

structure EntitySchema where
  name : String
  columns : Columns := []
  behaviors : List Behavior := []

namespace EntitySchema

/-- Declared columns have names of their own, other than that of the id. -/
def checkColumns (entity : String) (seen : List String) : Columns → Except Error Unit
  | [] => .ok ()
  | c :: rest => do
    checkIdentifier "column" c.name
    if c.name = Column.idName then throw (.configuration (.declaresId entity))
    if seen.contains c.name then throw (.configuration (.columnTwice entity c.name))
    checkColumns entity (c.name :: seen) rest

def check (s : EntitySchema) : Except Error Unit := do
  checkIdentifier "entity" s.name
  checkColumns s.name [] s.columns

def toJson (s : EntitySchema) : Json :=
  .object [("name", .text s.name), ("columns", .array (s.columns.map Column.toJson)),
    ("behaviors", .array (s.behaviors.map Behavior.toJson))]

def decoder : Json.Decoder EntitySchema := fun depth d => do
  match ← Json.Decoder.members ["name", "columns", "behaviors"] depth d with
  | (depth, [some name, columns, behaviors]) =>
    return {
      name := ← Json.Decoder.text depth name
      columns := (← columns.mapM (Json.Decoder.list Column.decoder depth)).getD []
      behaviors := (← behaviors.mapM (Json.Decoder.list Behavior.decoder depth)).getD [] }
  | _ => none

/-- Reads one description. -/
def read (text : String) : Except Error EntitySchema :=
  match decoder.run text with
  | none => .error (.serialization .malformed)
  | some s => do
    s.check
    return s

/-- Reads a list of descriptions. -/
def readAll (text : String) : Except Error (List EntitySchema) :=
  match (Json.Decoder.list decoder).run text with
  | none => .error (.serialization .malformed)
  | some schemas => do
    schemas.forM check
    return schemas

end EntitySchema
end RankedStore
