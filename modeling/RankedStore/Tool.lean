import RankedStore.Registry
import RankedStore.Session.Snapshot
import RankedStore.Tool.Command

/-! One run of the tool: read the entity types and the stored tables, carry out a command, and write
the tables back if the command changed them. Files are texts here, so a run is a function. -/
namespace RankedStore.Tool

inductive Failure
  | error (cause : Error)
  /-- An error together with what was being done. -/
  | during (task : String) (cause : Error)
  | unreadable (task reason : String)
  | absent (entity : String) (id : Int64)
deriving DecidableEq

namespace Failure

/-- Moves the further lines of a cause under its first one. -/
def indented (text : String) : String :=
  String.ofList (text.toList.flatMap fun c => if c = '\n' then "\n    ".toList else [c])

def withCause (task cause : String) : String :=
  s!"Error: {task}\n\nCaused by:\n    {indented cause}\n"

def text : Failure → String
  | .error cause => s!"Error: {cause.message}\n"
  | .during task cause => withCause task cause.message
  | .unreadable task reason => withCause task reason
  | .absent entity id => s!"Error: {entity} #{id} does not exist\n"

/-- Damaged data ends the program in another way than errors do. -/
def code : Failure → Nat
  | .error (.damage _) | .during _ (.damage _) => 101
  | _ => 1

end Failure

/-- What a command does on a session. -/
abbrev Step := ExceptT Failure (StateM Session)

def perform (action : Action α) : Step α := action.adapt .error

/-- What a command prints, and whether it changed the tables. -/
structure Report where
  lines : List String
  changed : Bool
deriving DecidableEq

def load (g : Registry) (entity : String) (id : Int64) : Step Record := do
  match ← perform (g.find entity id) with
  | some record => return record
  | none => throw (.absent entity id)

def ranking (g : Registry) (entity : String) : Step Ranking :=
  perform (Action.ofExcept (g.ranking entity))

/-- A record on one line: its id and its fields in the order of their names. -/
def line (r : Record) : String :=
  let id := match r.id with
    | some id => toString id
    | none => "-"
  let fields := r.fields.entries.map fun (name, value) => s!"{name}={value}"
  s!"#{id} " ++ " ".intercalate fields

def setAll (r : Record) : List (String × Value) → Except Error Record
  | [] => .ok r
  | (field, value) :: rest => do setAll (← r.set field value) rest

def Command.run (g : Registry) : Command → Step Report
  | .init => return ⟨[s!"Initialized {g.entityNames.length} entities"], true⟩
  | .insert entity fields => do
    let record ← perform (Action.ofExcept (g.create entity))
    let record ← perform (Action.ofExcept (setAll record fields))
    let id ← perform do Action.ofExcept (← g.save record).requireId
    return ⟨[s!"Inserted {entity} #{id}"], true⟩
  | .list entity => do
    let records ← perform <| match g.ranking entity with
      | .ok ranking => ranking.ordered
      | .error _ => g.findAll entity
    return ⟨records.map line, false⟩
  | .moveUp entity id => do
    let record ← load g entity id
    let moved ← perform ((← ranking g entity).moveUp record)
    return ⟨[line moved], true⟩
  | .moveDown entity id => do
    let record ← load g entity id
    let moved ← perform ((← ranking g entity).moveDown record)
    return ⟨[line moved], true⟩
  | .swap entity id other => do
    let record ← load g entity id
    let otherRecord ← load g entity other
    let (record, otherRecord) ← perform ((← ranking g entity).swap record otherRecord)
    return ⟨[line record, line otherRecord], true⟩
  | .setPosition entity id position => do
    let column := (← ranking g entity).column
    let record ← load g entity id
    let record ← perform (Action.ofExcept (record.set column (.integer position)))
    let record ← perform (g.save record)
    return ⟨[line record], true⟩
  | .compact entity => do
    let moved ← perform (← ranking g entity).compact
    return ⟨[s!"Renumbered {moved} entities"], 0 < moved⟩
  | .remove entity id => do
    let record ← load g entity id
    let _ ← perform (g.remove record)
    return ⟨[s!"Removed {entity} #{id}"], true⟩

/-- Registers entity types one after the other. -/
def registerAll (g : Registry) : List EntitySchema → Step Registry
  | [] => return g
  | schema :: rest => do
    let g ← (g.register schema).adapt (.during s!"Failed to register entity '{schema.name}'")
    registerAll g rest

/-- The files of a run. -/
structure Files where
  /-- The text of the schema file, or why it cannot be read. -/
  schema : Except String String
  /-- The text of the data file if there is one, or why it cannot be read. -/
  data : Except String (Option String)

/-- How a run ends. -/
structure Outcome where
  code : Nat
  out : String := ""
  err : String := ""
  /-- The text to put into the data file. -/
  written : Option String := none
deriving DecidableEq

namespace Invocation

def schemas (i : Invocation) (files : Files) : Except Failure (List EntitySchema) :=
  match files.schema with
  | .error reason => .error (.unreadable s!"Failed to read schema '{i.schemaPath}'" reason)
  | .ok text => match EntitySchema.readAll text with
    | .error e => .error (.during s!"Invalid schema file '{i.schemaPath}'" e)
    | .ok schemas => .ok schemas

def stored (i : Invocation) (files : Files) : Except Failure Catalog :=
  let task := s!"Failed to load snapshot '{i.dataPath}'"
  match files.data with
  | .error reason => .error (.during task (.io reason))
  | .ok text => match Snapshot.readOrEmpty text with
    | .error e => .error (.during task e)
    | .ok catalog => .ok catalog

/-- A session on the stored tables, with which a run begins. -/
def session (catalog : Catalog) : Session := { committed := ⟨catalog, 0⟩, connection := {} }

/-- Carries out the command. Gives its report and the text to be written, if there is one. -/
def steps (i : Invocation) (schemas : List EntitySchema) (now : Nat) :
    Step (Report × Option String) := do
  let g ← registerAll .empty schemas
  let report ← i.command.run g
  if report.changed then return (report, some (← perform (Action.snapshot now)))
  return (report, none)

/-- A whole run. A text that is to be written bears the given time. -/
def run (i : Invocation) (files : Files) (now : Nat) : Outcome :=
  let result := do
    let schemas ← i.schemas files
    let catalog ← i.stored files
    ((i.steps schemas now).run (session catalog)).1
  match result with
  | .error failure => { code := failure.code, err := failure.text }
  | .ok (report, written) =>
    { code := 0, out := String.join (report.lines.map (· ++ "\n")), written }

end Invocation

/-- Runs a whole command line. A malformed one has a code of its own. -/
def run (arguments : List String) (files : Invocation → Files) (now : Nat) : Outcome :=
  match Invocation.ofArguments? arguments with
  | none => { code := 2, err := "usage: --schema FILE --data FILE COMMAND [OPTION]...\n" }
  | some invocation => invocation.run (files invocation) now

end RankedStore.Tool
