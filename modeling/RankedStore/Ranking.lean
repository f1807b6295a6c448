import RankedStore.Entity.Record
import RankedStore.Ranking.Config
import RankedStore.Session.Statement
import RankedStore.Session.Transaction

/-! Entities of one type in an order of their own, kept as positions 1 to N in an integer column. A
change of several rows is one bulk update, or a pair of updates inside one transaction. -/
namespace RankedStore

/-- The points at which a behavior takes part in a write. -/
inductive Lifecycle
  | beforeInsert
  | beforeUpdate
  | beforeRemove
deriving DecidableEq

def Lifecycle.display : Lifecycle → String
  | .beforeInsert => "prePersist"
  | .beforeUpdate => "preUpdate"
  | .beforeRemove => "preRemove"

structure Ranking where
  entity : String
  config : RankingConfig
deriving DecidableEq

namespace Ranking

def ofConfig (entity : String) (config : RankingConfig) : Except Error Ranking := do
  config.check
  return ⟨entity, config⟩

def column (k : Ranking) : String := k.config.column

/-- The column that the ranking adds to its table. -/
def positionColumn (k : Ranking) : Column := { name := k.column, type := .integer }

def checkEntity (k : Ranking) (r : Record) : Except Error Unit :=
  if r.entity = k.entity then .ok () else .error (.invalidArgument (.wrongEntity k.entity))

/-- The position that a stored record has in memory. -/
def positionOf (k : Ranking) (r : Record) : Except Error Int64 := do
  k.checkEntity r
  let _ ← r.requireId
  match r.integer? k.column with
  | some position => return position
  | none => throw (.invalidArgument (.noPosition k.entity k.column))

def extremum (k : Ranking) (e : Extremum) : Action (Option Int64) := do
  match ← Action.aggregate ⟨e, k.entity, k.column⟩ with
  | none => return none
  | some (.integer n) => return some n
  | some other => throw (.typeMismatch (.notInteger k.column other.kind))

/-- The smallest position, if there is any. -/
def minPosition (k : Ranking) : Action (Option Int64) := k.extremum .min

/-- The largest position, if there is any. -/
def maxPosition (k : Ranking) : Action (Option Int64) := k.extremum .max

def isFirst (k : Ranking) (r : Record) : Action Bool := do
  let position ← Action.ofExcept (k.positionOf r)
  return (← k.minPosition) = some position

def isLast (k : Ranking) (r : Record) : Action Bool := do
  let position ← Action.ofExcept (k.positionOf r)
  return (← k.maxPosition) = some position

/-- The first record beyond a position in a direction. -/
def neighbor (k : Ranking) (comparison : Comparison) (position : Int64) (direction : Direction) :
    Action (Option Record) := do
  let layout ← Action.layout k.entity
  let rows ← Action.select {
    table := k.entity
    filter := .compare k.column comparison (.integer position)
    order := some (k.column, direction)
    limit := some 1 }
  match rows with
  | [] => return none
  | row :: _ => return some (← Action.ofExcept (Record.ofRow layout row))

/-- The record right after this one. -/
def next (k : Ranking) (r : Record) : Action (Option Record) := do
  k.neighbor .gt (← Action.ofExcept (k.positionOf r)) .ascending

/-- The record right before this one. -/
def previous (k : Ranking) (r : Record) : Action (Option Record) := do
  k.neighbor .lt (← Action.ofExcept (k.positionOf r)) .descending

def fetch (k : Ranking) (id : Int64) : Action Row := do
  match ← Action.fetch k.entity id with
  | some row => return row
  | none => throw (.entityNotFound k.entity id)

/-- Exchanges the positions of two records, and loads both anew from the store. -/
def swap (k : Ranking) (r other : Record) : Action (Record × Record) := do
  Action.ofExcept (k.checkEntity other)
  let position ← Action.ofExcept (k.positionOf r)
  let otherPosition ← Action.ofExcept (k.positionOf other)
  let id ← Action.ofExcept r.requireId
  let otherId ← Action.ofExcept other.requireId
  let layout ← Action.layout k.entity
  Action.report .debug "swapping positions" [("entity", k.entity), ("record_id", toString id),
    ("other_id", toString otherId), ("old_position", toString position),
    ("new_position", toString otherPosition)]
  let (row, otherRow) ← Action.transactional do
    Action.updateById k.entity id k.column (.integer otherPosition)
    Action.updateById k.entity otherId k.column (.integer position)
    return (← k.fetch id, ← k.fetch otherId)
  return (← Action.ofExcept (r.load layout row), ← Action.ofExcept (other.load layout otherRow))

/-- Exchanges a record with the one before it. -/
def moveUp (k : Ranking) (r : Record) : Action Record := do
  if ← k.isFirst r then throw (.preconditionFailed .isFirst)
  match ← k.previous r with
  | none => throw (.preconditionFailed .noPrevious)
  | some other => return (← k.swap r other).1

/-- Exchanges a record with the one after it. -/
def moveDown (k : Ranking) (r : Record) : Action Record := do
  if ← k.isLast r then throw (.preconditionFailed .isLast)
  match ← k.next r with
  | none => throw (.preconditionFailed .noNext)
  | some other => return (← k.swap r other).1

/-- The position that the next new record gets. -/
def newPosition (k : Ranking) : Action Int64 :=
  match k.config.newPosition with
  | .top => return 1
  | .bottom => do
    match addChecked ((← k.maxPosition).getD 0) 1 with
    | some position => return position
    | none => throw (.constraintViolation (.noPositionLeft k.column k.entity))

/-- Gives a new record its position. -/
def place (k : Ranking) (r : Record) : Action (Record × Int64) := do
  let position ← k.newPosition
  return (← Action.ofExcept (r.set k.column (.integer position)), position)

/-- Moves everything from a position on one step down, to make room for a new record. -/
def makeRoom (k : Ranking) (position : Int64) : Action Unit := do
  let shifted ← Action.updateWhere {
    table := k.entity
    column := k.column
    assignment := .shift 1
    filter := .compare k.column .gte (.integer position) }
  Action.report .debug "positioned new entity" [("entity", k.entity),
    ("position", toString position), ("shifted", toString shifted)]

/-- Moves everything between the old and the new position one step towards the old one, except the
record that goes to the new one. -/
def shiftBetween (k : Ranking) (id old new : Int64) : Action Unit := do
  let shifted ← Action.updateWhere {
    table := k.entity
    column := k.column
    assignment := .shift (if old < new then -1 else 1)
    filter := .ofList [.between k.column (.integer (min old new)) (.integer (max old new)),
      .compare Column.idName .ne (.integer id)] }
  Action.report .debug "repositioned entity" [("entity", k.entity), ("id", toString id),
    ("old", toString old), ("new", toString new), ("shifted", toString shifted)]

/-- Makes the other records give way to a stored one whose position was changed. -/
def reposition (k : Ranking) (r : Record) : Action Unit := do
  match r.change? k.column with
  | none =>
    Action.report .trace "position untouched, nothing to shift" [("entity", k.entity)]
  | some (old, new) =>
    let id ← Action.ofExcept r.requireId
    match old.integer?, new.integer? with
    | some old, some new =>
      let last := (← k.maxPosition).getD 0
      if new < 1 || last < new then
        throw (.invalidArgument (.positionOutOfRange k.column new last))
      k.shiftBetween id old new
    | _, _ => throw (.invalidArgument (.positionNotInteger k.column k.entity))

/-- The part of a save that belongs to the ranking, with the record as it is afterwards: a new
record keeps the position it was given even if making room for it fails. -/
def assign (k : Ranking) (r : Record) : StateM Session (Except Error Unit × Record) := do
  match k.checkEntity r with
  | .error e => return (.error e, r)
  | .ok () =>
    if r.isNew then
      match ← (k.place r).run with
      | .error e => return (.error e, r)
      | .ok (placed, position) => return (← (k.makeRoom position).run, placed)
    else return (← (k.reposition r).run, r)

/-- Moves everything after a record that is about to be removed one step up, if gaps are closed. -/
def release (k : Ranking) (r : Record) : Action Unit := do
  if !k.config.compactOnDelete then return
  Action.ofExcept (k.checkEntity r)
  let id ← Action.ofExcept r.requireId
  match ← Action.fetch k.entity id with
  | none => return
  | some row =>
    let i ← Action.ofExcept ((← Action.layout k.entity).index k.column)
    match row[i]? with
    | none => throw (.damage (.rowTooShort k.entity))
    | some (.integer position) =>
      let _ ← Action.updateWhere {
        table := k.entity
        column := k.column
        assignment := .shift (-1)
        filter := .compare k.column .gt (.integer position) }
    | some _ => return

/-- What the ranking does at one of the points of a write, with the record as it is afterwards. -/
def onEvent (k : Ranking) (event : Lifecycle) (r : Record) :
    StateM Session (Except Error Unit × Record) := do
  modify (·.report ⟨.trace, "sortable hook", [("entity", k.entity), ("event", event.display)]⟩)
  match event with
  | .beforeInsert | .beforeUpdate => k.assign r
  | .beforeRemove => return (← (k.release r).run, r)

/-- All records, first to last. -/
def ordered (k : Ranking) : Action (List Record) := do
  let layout ← Action.layout k.entity
  let rows ← Action.select { table := k.entity, order := some (k.column, .ascending) }
  rows.mapM fun row => Action.ofExcept (Record.ofRow layout row)

/-- Gives records the positions from `expected` on, and counts those that had another one. -/
def renumber (k : Ranking) (expected : Int64) : List Record → Action Nat
  | [] => return 0
  | r :: rest => do
    if r.integer? k.column = some expected then k.renumber (expected + 1) rest
    else
      let id ← Action.ofExcept r.requireId
      Action.updateById k.entity id k.column (.integer expected)
      return (← k.renumber (expected + 1) rest) + 1

/-- Renumbers all records from 1 on in their present order, and gives the number of those that
moved. -/
def compact (k : Ranking) : Action Nat := do
  let records ← k.ordered
  let changed ← Action.transactional (k.renumber 1 records)
  Action.report .debug "compacted positions"
    [("entity", k.entity), ("changed", toString changed)]
  return changed

end Ranking
end RankedStore
