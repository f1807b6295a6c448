import RankedStore.Registry

/-! The operations on records that their callers keep. Such an operation changes a record where it
is, on the way also before it is known to succeed, and has to put it back if it fails. Its outcome
and what it does to the store are those of the operation that gives a changed copy. -/
namespace RankedStore

/-- What is done to a store and to the records `ρ` of the caller. A failure keeps all that was done
to either before it. -/
abbrev InPlace (ρ : Type) := ExceptT Error (StateT ρ (StateM Session))

namespace InPlace

variable {ρ σ : Type}

/-- An action that does not touch the records. -/
def act (a : Action α) : InPlace ρ α := ExceptT.mk fun r s =>
  (((a.run s).1, r), (a.run s).2)

/-- The outcome as a value, so that one can go on after a failure. -/
def attempt (a : InPlace ρ α) : InPlace ρ (Except Error α) := ExceptT.mk do return .ok (← a.run)

def check (outcome : Except Error α) : InPlace ρ α := act (Action.ofExcept outcome)

/-- Commits what was done to the store, or rolls it back if the body fails. The records are not part
of the transaction. -/
def transactional (body : InPlace ρ α) : InPlace ρ α := do
  act Action.begin
  match ← attempt body with
  | .ok result =>
    act Action.commit
    return result
  | .error e =>
    match ← attempt (act Action.rollback) with
    | .ok () => pure ()
    | .error failure =>
      act (Action.report .error s!"rollback failed after error: {e.message}"
        [("error", failure.message)])
    throw e

/-- Puts the records back as they were if the operation fails. -/
def restoring (a : InPlace ρ α) : InPlace ρ α := do
  let before ← get
  match ← attempt a with
  | .ok result => return result
  | .error e =>
    set before
    throw e

/-- Replaces the record by what a row says, if it fits the layout. -/
def load (layout : TableLayout) (row : Row) : InPlace Record Unit := do
  set (← check ((← get).load layout row))

/-- What is done to a record of the caller and to another one, which the caller does not see. -/
def beside (other : σ) (a : InPlace (ρ × σ) α) : InPlace ρ α := ExceptT.mk fun r s =>
  let ((outcome, records), s) := a.run (r, other) s
  ((outcome, records.1), s)

end InPlace

open InPlace

namespace Registration

/-- What the behaviors of the type do to the record and the store at one of the points of a
write. -/
def dispatch (g : Registration) (event : Lifecycle) : InPlace Record Unit :=
  match g.ranking with
  | none => pure ()
  | some ranking => ExceptT.mk (ranking.onEvent event)

end Registration

namespace Registry

def insertInPlace (registration : Registration) : InPlace Record Unit := do
  let table := registration.layout.name
  registration.dispatch .beforeInsert
  let id ← act (Action.insert table (← check ((← get).toRow registration.layout)))
  modify (·.withId id)
  act (Action.report .debug "persisted" [("entity", table), ("id", toString id)])

def updateInPlace (registration : Registration) : InPlace Record Unit := do
  let table := registration.layout.name
  let id ← check (← get).requireId
  registration.dispatch .beforeUpdate
  act (Action.replace table id (← check ((← get).toRow registration.layout)))
  act (Action.report .debug "updated" [("entity", table), ("id", toString id)])

/-- Saves the record. What the behaviors of its type did to it is taken back if that fails. -/
def saveInPlace (g : Registry) : InPlace Record Unit := do
  let registration ← check (g.find? (← get).entity)
  if !(← get).isNew && !(← get).isDirty then return
  restoring (InPlace.transactional do
    if (← get).isNew then insertInPlace registration else updateInPlace registration)
  modify (·.markClean)

/-- Removes the record, which is then a new one. -/
def removeInPlace (g : Registry) : InPlace Record Unit := do
  let registration ← check (g.find? (← get).entity)
  let id ← check (← get).requireId
  let table := registration.layout.name
  InPlace.transactional do
    registration.dispatch .beforeRemove
    unless ← act (Action.delete table id) do throw (.entityNotFound table id)
  modify (·.detach)
  act (Action.report .debug "removed" [("entity", table), ("id", toString id)])

end Registry

namespace Ranking

/-- Exchanges the positions of two records in the store. Gives their rows as they are stored then,
with the layout to read them by. -/
def exchangeRows (k : Ranking) (r other : Record) : Action (TableLayout × Row × Row) := do
  Action.ofExcept (k.checkEntity other)
  let position ← Action.ofExcept (k.positionOf r)
  let otherPosition ← Action.ofExcept (k.positionOf other)
  let id ← Action.ofExcept r.requireId
  let otherId ← Action.ofExcept other.requireId
  let layout ← Action.layout k.entity
  Action.report .debug "swapping positions" [("entity", k.entity), ("record_id", toString id),
    ("other_id", toString otherId), ("old_position", toString position),
    ("new_position", toString otherPosition)]
  let rows ← Action.transactional do
    Action.updateById k.entity id k.column (.integer otherPosition)
    Action.updateById k.entity otherId k.column (.integer position)
    return (← k.fetch id, ← k.fetch otherId)
  return (layout, rows)

/-- Exchanges the positions of two records and reloads one after the other. -/
def swapInPlace (k : Ranking) : InPlace (Record × Record) Unit := do
  let (r, other) ← get
  let (layout, row, otherRow) ← act (k.exchangeRows r other)
  let loaded ← check (r.load layout row)
  set (loaded, other)
  let otherLoaded ← check (other.load layout otherRow)
  set (loaded, otherLoaded)

/-- Exchanges the record with its neighbor on one side, unless it is at the end on that side. -/
def moveInPlace (k : Ranking) (atEnd : Record → Action Bool)
    (neighbor : Record → Action (Option Record)) (already alone : Error.Precondition) :
    InPlace Record Unit := do
  if ← act (atEnd (← get)) then throw (.preconditionFailed already)
  match ← act (neighbor (← get)) with
  | none => throw (.preconditionFailed alone)
  | some other => InPlace.beside other k.swapInPlace

def moveUpInPlace (k : Ranking) : InPlace Record Unit :=
  k.moveInPlace k.isFirst k.previous .isFirst .noPrevious

def moveDownInPlace (k : Ranking) : InPlace Record Unit :=
  k.moveInPlace k.isLast k.next .isLast .noNext

end Ranking
end RankedStore
