import RankedStore.Error

/-! What a connection has written inside its open transaction, so that it can be undone. There is
one list of changes for all nested levels; each level only remembers how long the list was when it
was opened. -/
namespace RankedStore

/-- A write, with what it takes to undo it. -/
inductive Change
  | inserted (table : String) (id : Int64)
  | replaced (table : String) (id : Int64) (old : Row)
  | deleted (table : String) (id : Int64) (old : Row)
  | created (table : String)
deriving DecidableEq

def Change.table : Change → String
  | .inserted table _ | .replaced table _ _ | .deleted table _ _ | .created table => table

/-- Whether the change is one of the tables themselves and not of their rows. -/
def Change.isStructural : Change → Bool
  | .created _ => true
  | _ => false

/-- What becomes of a transaction when one of its levels ends. -/
inductive TransactionState
  | active
  | committed
  | aborted
deriving DecidableEq

def TransactionState.isActive (s : TransactionState) : Bool := s = .active

def TransactionState.name : TransactionState → String
  | .active => "Active"
  | .committed => "Committed"
  | .aborted => "Aborted"

structure TransactionId where
  number : UInt64
deriving DecidableEq

def TransactionId.display (id : TransactionId) : String := s!"txn_{id.number}"

structure UndoLog where
  /-- Newest first. -/
  changes : List Change := []
  /-- How many changes there were when each open level began, innermost first. -/
  marks : List Nat := []
  /-- The open transaction, which all its levels share. -/
  current? : Option TransactionId := none
  /-- How many transactions have been begun. -/
  begun : Nat := 0
deriving DecidableEq

namespace UndoLog

def empty : UndoLog := {}

def isActive (log : UndoLog) : Bool := !log.marks.isEmpty

def depth (log : UndoLog) : Nat := log.marks.length

def pending (log : UndoLog) : Nat := log.changes.length

/-- Opens a transaction, or another level of the open one. -/
def begin (log : UndoLog) : UndoLog :=
  let log := if log.isActive then log
    else { log with current? := some ⟨.ofNat (log.begun + 1)⟩, begun := log.begun + 1 }
  { log with marks := log.pending :: log.marks }

/-- Without a transaction nothing is kept. -/
def record (log : UndoLog) (change : Change) : UndoLog :=
  if log.isActive then { log with changes := change :: log.changes } else log

/-- Ends the innermost level and keeps its changes for the level around it. -/
def commit (log : UndoLog) : Except Error.Transaction (TransactionState × UndoLog) :=
  match log.marks with
  | [] => .error .nothingToCommit
  | [_] => .ok (.committed, { log with changes := [], marks := [], current? := none })
  | _ :: marks => .ok (.active, { log with marks })

/-- Ends the innermost level and gives its changes, newest first, to be undone. -/
def rollback (log : UndoLog) :
    Except Error.Transaction (TransactionState × List Change × UndoLog) :=
  match log.marks with
  | [] => .error .nothingToRollBack
  | mark :: marks =>
    let count := log.pending - mark
    let rest := { log with changes := log.changes.drop count, marks }
    .ok (if marks.isEmpty then (.aborted, log.changes.take count, { rest with current? := none })
      else (.active, log.changes.take count, rest))

end UndoLog
end RankedStore
