import RankedStore.Session

/-! A store with its connections. Connections take turns: each action runs from start to end on the
committed tables and on what belongs to its own connection. -/
namespace RankedStore

structure Store where
  committed : Committed
  connections : Dict String Connection
deriving DecidableEq

namespace Store

def ofCatalog (catalog : Catalog) : Store := ⟨⟨catalog, 0⟩, .empty⟩

def session? (s : Store) (name : String) : Option Session :=
  (s.connections.get? name).map fun connection => { committed := s.committed, connection }

/-- Opens a connection, in the place of one with the same name. -/
def connect (s : Store) (name : String) : Store :=
  { s with connections := s.connections.insert name {} }

/-- Runs an action on a connection. Gives its outcome, the events it reported and the store after
it, or nothing if there is no such connection. -/
def act? (s : Store) (name : String) (action : Action α) :
    Option (Except Error α × List Trace.Event × Store) :=
  (s.session? name).map fun session =>
    let (outcome, after) := action.run session
    (outcome, after.trace.reverse,
      ⟨after.committed, s.connections.insert name after.connection⟩)

/-- The event of closing a connection inside a transaction. -/
def abandonment? (connection : Connection) : Option Trace.Event :=
  if connection.log.isActive then
    some ⟨.warn, "handle dropped inside an open transaction, discarding its changes",
      [("changes", toString connection.log.pending)]⟩
  else none

/-- Closes a connection. What its open transaction did is lost. -/
def disconnect (s : Store) (name : String) : List Trace.Event × Store :=
  (((s.connections.get? name).bind abandonment?).toList,
    { s with connections := s.connections.erase name })

end Store
end RankedStore
