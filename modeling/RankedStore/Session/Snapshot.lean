import RankedStore.Session.Statement
import RankedStore.Snapshot

/-! Saving what a connection sees, its own uncommitted changes included. -/
namespace RankedStore.Action

/-- The text of a snapshot that bears the given time. -/
def snapshot (createdAt : Nat) : Action String := do
  let seen ← catalog
  report .debug "snapshot saved" [("tables", toString seen.tables.size)]
  return Snapshot.write createdAt seen

end RankedStore.Action
