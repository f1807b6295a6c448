import RankedStore.Ranking

/-! The entity types that a connection knows, and the operations on their records. Every write of a
record is one transaction, together with what the behaviors of its type do around it. -/
namespace RankedStore

/-- An entity type whose table is in the store. -/
structure Registration where
  schema : EntitySchema
  layout : TableLayout
  ranking : Option Ranking

structure Registry where
  entities : Dict String Registration

namespace Registration

/-- The ranking that the behaviors of an entity type ask for, of which there may be one. -/
def rankingOf (entity : String) (found : Option Ranking) :
    List Behavior → Except Error (Option Ranking)
  | [] => .ok found
  | behavior :: rest => do
    let ranking ← Ranking.ofConfig entity (← RankingConfig.ofOptions behavior.texts)
    if found.isSome then throw (.configuration (.sortableTwice entity))
    rankingOf entity (some ranking) rest

/-- Adds a column of a behavior to the declared ones. It may be declared already, with its type. -/
def addColumn (entity : String) (columns : Columns) (added : Column) : Except Error Columns :=
  match columns.find? added.name with
  | none => .ok (columns ++ [added])
  | some declared =>
    if declared.type = added.type then .ok columns
    else .error (.configuration
      (.columnType added.name entity added.type.display declared.type.display))

/-- Checks a schema and works out the table of its entities. -/
def ofSchema (schema : EntitySchema) : Except Error Registration := do
  let ranking ← rankingOf schema.name none schema.behaviors
  let columns ← match ranking with
    | none => pure schema.columns
    | some ranking => addColumn schema.name schema.columns ranking.positionColumn
  return { schema, layout := .ofColumns schema.name columns, ranking }

def behaviorNames (r : Registration) : String :=
  if r.ranking.isSome then "[\"sortable\"]" else "[]"

/-- What the behaviors of the type do at one of the points of a write. -/
def onEvent (r : Registration) (event : Lifecycle) (record : Record) : Action Record :=
  match r.ranking with
  | none => return record
  | some ranking => do
    let (outcome, record) ← ranking.onEvent event record
    Action.ofExcept outcome
    return record

end Registration

namespace Registry

def empty : Registry := ⟨.empty⟩

def entityNames (g : Registry) : List String := g.entities.keys

def find? (g : Registry) (entity : String) : Except Error Registration :=
  match g.entities.get? entity with
  | some registration => .ok registration
  | none => .error (.unknownEntity entity)

/-- Takes in an entity type. Its table is created, or has to fit if it is there already. -/
def register (g : Registry) (schema : EntitySchema) : Action Registry := do
  Action.ofExcept schema.check
  if g.entities.contains schema.name then
    throw (.configuration (.alreadyRegistered schema.name))
  let registration ← Action.ofExcept (Registration.ofSchema schema)
  if ← Action.hasTable schema.name then
    if (← Action.layout schema.name) ≠ registration.layout then
      throw (.configuration (.layoutDiffers schema.name))
  else Action.createTable registration.layout
  Action.report .info "registered entity"
    [("entity", schema.name), ("behaviors", registration.behaviorNames)]
  return ⟨g.entities.insert schema.name registration⟩

/-- A new record of a known type. -/
def create (g : Registry) (entity : String) : Except Error Record := do
  let _ ← g.find? entity
  return .ofEntity entity

def insertRecord (registration : Registration) (record : Record) : Action Record := do
  let table := registration.layout.name
  let record ← registration.onEvent .beforeInsert record
  let id ← Action.insert table (← Action.ofExcept (record.toRow registration.layout))
  Action.report .debug "persisted" [("entity", table), ("id", toString id)]
  return record.withId id

def updateRecord (registration : Registration) (record : Record) : Action Record := do
  let table := registration.layout.name
  let id ← Action.ofExcept record.requireId
  let record ← registration.onEvent .beforeUpdate record
  Action.replace table id (← Action.ofExcept (record.toRow registration.layout))
  Action.report .debug "updated" [("entity", table), ("id", toString id)]
  return record

/-- Inserts a new record or writes back a changed one, and gives it as it is then stored. A record
that is stored as it is needs nothing. -/
def save (g : Registry) (record : Record) : Action Record := do
  let registration ← Action.ofExcept (g.find? record.entity)
  if !record.isNew && !record.isDirty then return record
  let saved ← Action.transactional do
    if record.isNew then insertRecord registration record else updateRecord registration record
  return saved.markClean

/-- Deletes a stored record, and gives it as a new one. -/
def remove (g : Registry) (record : Record) : Action Record := do
  let registration ← Action.ofExcept (g.find? record.entity)
  let id ← Action.ofExcept record.requireId
  let table := registration.layout.name
  let record ← Action.transactional do
    let record ← registration.onEvent .beforeRemove record
    if ← Action.delete table id then return record
    else throw (.entityNotFound table id)
  Action.report .debug "removed" [("entity", table), ("id", toString id)]
  return record.detach

/-- The record as it is stored now. Its unsaved changes are lost. -/
def refresh (g : Registry) (record : Record) : Action Record := do
  let registration ← Action.ofExcept (g.find? record.entity)
  let id ← Action.ofExcept record.requireId
  match ← Action.fetch registration.layout.name id with
  | none => throw (.entityNotFound record.entity id)
  | some row => Action.ofExcept (record.load registration.layout row)

def find (g : Registry) (entity : String) (id : Int64) : Action (Option Record) := do
  let registration ← Action.ofExcept (g.find? entity)
  match ← Action.fetch entity id with
  | none => return none
  | some row => return some (← Action.ofExcept (Record.ofRow registration.layout row))

/-- All records of a type, in the order of their ids. -/
def findAll (g : Registry) (entity : String) : Action (List Record) := do
  let registration ← Action.ofExcept (g.find? entity)
  let rows ← Action.select { table := entity, order := some (Column.idName, .ascending) }
  rows.mapM fun row => Action.ofExcept (Record.ofRow registration.layout row)

def ranking (g : Registry) (entity : String) : Except Error Ranking := do
  match (← g.find? entity).ranking with
  | some ranking => return ranking
  | none => throw (.configuration (.notSortable entity))

end Registry
end RankedStore
