import RankedStore.Tool

/-! The program: files are read and written here, everything else is `Tool.run`. -/
open RankedStore

/-- The text of a file, or why it cannot be read. -/
def readFile (path : String) : IO (Except String String) := do
  try
    match String.fromUTF8? (← IO.FS.readBinFile path) with
    | some text => return .ok text
    | none => return .error "stream did not contain valid UTF-8"
  catch
    | .noFileOrDirectory .. => return .error "No such file or directory (os error 2)"
    | e => return .error (toString e)

def readFiles (i : Tool.Invocation) : IO Tool.Files := do
  let data ← try
      let _ ← IO.FS.Handle.mk i.dataPath .read
      pure ((← readFile i.dataPath).map some)
    catch
      | .noFileOrDirectory .. => pure (.ok none)
      | e => pure (.error (toString e))
  return { schema := ← readFile i.schemaPath, data }

/-- The time in milliseconds, by the clock that dates files. -/
def now : IO Nat := do
  let (_, path) ← IO.FS.createTempFile
  let time := (← path.metadata).modified
  IO.FS.removeFile path
  return time.sec.toNat * 1000 + time.nsec.toNat / 1000000

/-- Writes beside the file first, so that a run that is cut short leaves the old text. -/
def writeFile (path text : String) : IO Unit := do
  let beside := path ++ ".tmp"
  IO.FS.writeFile beside text
  IO.FS.rename beside path

def main (arguments : List String) : IO UInt32 := do
  match Tool.Invocation.ofArguments? arguments with
  | none =>
    let outcome := Tool.run arguments (fun _ => ⟨.error "", .ok none⟩) 0
    IO.eprint outcome.err
    return .ofNat outcome.code
  | some invocation =>
    let files ← readFiles invocation
    let outcome := invocation.run files (← now)
    if let some text := outcome.written then
      try writeFile invocation.dataPath text
      catch e =>
        IO.print outcome.out
        IO.eprint (Tool.Failure.text
          (.during s!"Failed to write snapshot '{invocation.dataPath}'" (.io (toString e))))
        return 1
    IO.print outcome.out
    IO.eprint outcome.err
    return .ofNat outcome.code
