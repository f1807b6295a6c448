import RankedStore.Session

/-! Transactions. The outermost level works on a copy of the committed tables, which its commit
installs if nothing else was committed since the copy was taken. An inner level is a mark in the
undo log, and rolling it back undoes what was written after the mark. -/
namespace RankedStore

/-- Undoes one change. -/
def Catalog.undo (c : Catalog) : Change → Except Error Catalog
  | .inserted table id => do
    let t ← c.table table
    return match t.delete id with
      | some (_, t) => c.withTable table t
      | none => c
  | .replaced table id old | .deleted table id old => do
    return c.withTable table ((← c.table table).restore id old)
  | .created table => do return (← c.dropTable table).2

/-- Undoes changes in the order given, up to the first that cannot be undone. -/
def Catalog.undoAll (c : Catalog) : List Change → Except Error Unit × Catalog
  | [] => (.ok (), c)
  | change :: rest => match c.undo change with
    | .error e => (.error e, c)
    | .ok c => c.undoAll rest

namespace Action

def inTransaction : Action Bool := do return (← get).log.isActive

def depth : Action Nat := do return (← get).log.depth

def begin : Action Unit := do
  let s ← get
  unless s.log.isActive do
    set (s.withWorkspace (some ⟨s.committed.catalog, s.committed.version⟩))
  modify fun s => s.withLog s.log.begin
  report .debug "BEGIN" [("depth", toString (← depth))]

/-- Installs the copy of the outermost transaction, which had this many changes. -/
def install (w : Workspace) (writes : Nat) : Action Unit := do
  let current := (← get).committed.version
  if current ≠ w.base then
    report .warn "COMMIT conflict, changes discarded"
      [("base", toString w.base), ("current", toString current)]
    throw (.transaction (.conflict w.base current))
  modify fun s => { s with committed := ⟨w.catalog, current + 1⟩ }
  report .debug "COMMIT" [("state", TransactionState.committed.name), ("writes", toString writes),
    ("version", toString (current + 1))]

def commit : Action Unit := do
  let before ← get
  match before.log.commit with
  | .error cause => throw (.transaction cause)
  | .ok (state, log) =>
    set (before.withLog log)
    if state.isActive then
      report .debug "RELEASE SAVEPOINT" [("depth", toString log.depth)]
    else
      match before.workspace with
      | none => throw (.transaction .noCopyToCommit)
      | some w =>
        modify (·.withWorkspace none)
        if before.log.pending = 0 then
          report .debug "COMMIT read-only" [("state", state.name)]
        else install w before.log.pending

def rollback : Action Unit := do
  let before ← get
  match before.log.rollback with
  | .error cause => throw (.transaction cause)
  | .ok (state, changes, log) =>
    set (before.withLog log)
    report .warn "ROLLBACK" [("state", state.name), ("changes", toString changes.length)]
    if !state.isActive then modify (·.withWorkspace none)
    else if before.workspace.isNone then throw (.transaction .noCopyToRollBack)
    else write (·.undoAll changes)

/-- Commits what an action did if it succeeds, and rolls it back if it fails. Inside a transaction
this is a level of its own, so a failure leaves the transaction usable. -/
def transactional (action : Action α) : Action α := do
  begin
  match ← attempt action with
  | .ok result =>
    commit
    return result
  | .error e =>
    match ← attempt rollback with
    | .ok () => pure ()
    | .error failure =>
      report .error s!"rollback failed after error: {e.message}" [("error", failure.message)]
    throw e

end Action
end RankedStore
