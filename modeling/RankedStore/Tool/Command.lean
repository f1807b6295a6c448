import RankedStore.Blank
import RankedStore.Value

/-! The command line: the files to work on, then a command with its options. Options have a value
each, in the same argument after `=` or in the next one, which must not look like an option
itself. -/
namespace RankedStore.Tool

inductive Command
  | init
  | insert (entity : String) (fields : List (String × Value))
  | list (entity : String)
  | moveUp (entity : String) (id : Int64)
  | moveDown (entity : String) (id : Int64)
  | swap (entity : String) (id other : Int64)
  | setPosition (entity : String) (id position : Int64)
  | compact (entity : String)
  | remove (entity : String) (id : Int64)
deriving DecidableEq

structure Invocation where
  schemaPath : String
  dataPath : String
  command : Command
deriving DecidableEq

/-- Options with their values, in the order given. -/
abbrev Options := List (String × String)

namespace Options

/-- The value of an option that is to be given once. -/
def only? (options : Options) (name : String) : Option String :=
  match options.filter (fun o => o.1 = name) with
  | [(_, value)] => some value
  | _ => none

def integer? (options : Options) (name : String) : Option Int64 :=
  options.only? name >>= int64OfText?

/-- The values of an option that may be repeated. -/
def all (options : Options) (name : String) : List String :=
  (options.filter (fun o => o.1 = name)).map (·.2)

end Options

/-- Splits at the first equals sign. -/
def splitEquals (text : String) : Option (String × String) :=
  let cs := text.toList
  match cs.dropWhile (· ≠ '=') with
  | '=' :: rest => some (String.ofList (cs.takeWhile (· ≠ '=')), String.ofList rest)
  | _ => none

/-- The name of an option and the value in the same argument. -/
def optionOf? (argument : String) : Option (String × Option String) :=
  match argument.toList with
  | '-' :: '-' :: c :: rest =>
    let text := String.ofList (c :: rest)
    match splitEquals text with
    | some (name, value) => some (name, some value)
    | none => some (text, none)
  | _ => none

/-- Whether an argument looks like an option and not like a value. -/
def isOptionLike (argument : String) : Bool :=
  match argument.toList with
  | '-' :: _ :: _ => true
  | _ => false

/-- Reads options with these names. Gives what comes after them: nothing, or arguments of which the
first is no option. A double dash ends the options. -/
def readOptions (names : List String) : List String → Option (Options × List String)
  | [] => some ([], [])
  | argument :: rest =>
    match optionOf? argument with
    | some (name, attached) =>
      if !names.contains name then none
      else match attached, rest with
        | some value, rest => do
          let (options, rest) ← readOptions names rest
          return ((name, value) :: options, rest)
        | none, value :: rest =>
          if isOptionLike value then none
          else do
            let (options, rest) ← readOptions names rest
            return ((name, value) :: options, rest)
        | none, [] => none
    | none =>
      if argument = "--" then if rest.isEmpty then some ([], []) else none
      else if isOptionLike argument then none
      else some ([], argument :: rest)

/-- A field and its value, as `name=value`. -/
def assignment? (text : String) : Option (String × Value) := do
  let (name, raw) ← splitEquals text
  let name := trimBlank name
  if name.isEmpty then none
  return (name, .ofLiteral (trimBlank raw))

namespace Command

/-- The options that a command takes. -/
def optionNames (name : String) : Option (List String) :=
  match name with
  | "init" => some []
  | "insert" => some ["entity", "set"]
  | "list" | "compact" => some ["entity"]
  | "move-up" | "move-down" | "remove" => some ["entity", "id"]
  | "swap" => some ["entity", "id", "with"]
  | "set-position" => some ["entity", "id", "to"]
  | _ => none

def ofOptions? (name : String) (options : Options) : Option Command := do
  if name = "init" then return .init
  let entity ← options.only? "entity"
  match name with
  | "insert" => return .insert entity (← (options.all "set").mapM assignment?)
  | "list" => return .list entity
  | "compact" => return .compact entity
  | "move-up" => return .moveUp entity (← options.integer? "id")
  | "move-down" => return .moveDown entity (← options.integer? "id")
  | "remove" => return .remove entity (← options.integer? "id")
  | "swap" => return .swap entity (← options.integer? "id") (← options.integer? "with")
  | "set-position" =>
    return .setPosition entity (← options.integer? "id") (← options.integer? "to")
  | _ => none

end Command

/-- Reads a whole command line, or nothing if it is not well-formed. -/
def Invocation.ofArguments? (arguments : List String) : Option Invocation := do
  let (files, rest) ← readOptions ["schema", "data"] arguments
  match rest with
  | [] => none
  | name :: rest =>
    let (options, rest) ← readOptions (← Command.optionNames name) rest
    if !rest.isEmpty then none
    return {
      schemaPath := ← files.only? "schema"
      dataPath := ← files.only? "data"
      command := ← Command.ofOptions? name options }

end RankedStore.Tool
