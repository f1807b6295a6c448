import RankedStore.Catalog
import RankedStore.Trace
import RankedStore.UndoLog

/-! One connection at work on a store. The committed tables are shared with other connections; an
open transaction works on a copy of them, taken when it began. A write outside a transaction goes to
the committed tables at once. Every such write counts as a new version, also one that fails or finds
nothing to change. -/
namespace RankedStore

/-- The tables that all connections share. -/
structure Committed where
  catalog : Catalog
  version : Nat
deriving DecidableEq

/-- The copy that a transaction works on, and the version that it was taken from. -/
structure Workspace where
  catalog : Catalog
  base : Nat
deriving DecidableEq

/-- What belongs to one connection alone. -/
structure Connection where
  workspace : Option Workspace := none
  log : UndoLog := {}
deriving DecidableEq

structure Session where
  committed : Committed
  connection : Connection
  /-- Newest first. -/
  trace : List Trace.Event := []
deriving DecidableEq

namespace Session

def workspace (s : Session) : Option Workspace := s.connection.workspace

def log (s : Session) : UndoLog := s.connection.log

/-- The tables as the connection sees them. -/
def view (s : Session) : Catalog :=
  match s.workspace with
  | some w => w.catalog
  | none => s.committed.catalog

def withLog (s : Session) (log : UndoLog) : Session :=
  { s with connection := { s.connection with log } }

def withWorkspace (s : Session) (workspace : Option Workspace) : Session :=
  { s with connection := { s.connection with workspace } }

def report (s : Session) (e : Trace.Event) : Session := { s with trace := e :: s.trace }

def record (s : Session) (change : Change) : Session := s.withLog (s.log.record change)

/-- Changes the tables that the connection sees. -/
def write (f : Catalog → Except Error α × Catalog) (s : Session) : Except Error α × Session :=
  match s.workspace with
  | some w =>
    let (result, catalog) := f w.catalog
    (result, s.withWorkspace (some { w with catalog }))
  | none =>
    let (result, catalog) := f s.committed.catalog
    (result, { s with committed := ⟨catalog, s.committed.version + 1⟩ })

end Session

/-- What a connection does. A failure keeps all that was done before it. -/
abbrev Action := ExceptT Error (StateM Session)

namespace Action

/-- The outcome as a value, so that one can go on after a failure. -/
def attempt (a : Action α) : Action (Except Error α) := ExceptT.mk do return .ok (← a.run)

def ofExcept : Except Error α → Action α
  | .ok a => pure a
  | .error e => throw e

def report (level : Trace.Level) (message : String) (fields : List (String × String)) :
    Action Unit :=
  modify (·.report ⟨level, message, fields⟩)

def record (change : Change) : Action Unit := modify (·.record change)

def write (f : Catalog → Except Error α × Catalog) : Action α := ExceptT.mk fun s => s.write f

/-- Looks at the tables as the connection sees them. -/
def read (f : Catalog → Except Error α) : Action α := do ofExcept (f (← get).view)

end Action
end RankedStore
