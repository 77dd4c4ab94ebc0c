import ScriptLang.CommandLine.Run
import ScriptLang.Module.Imports

/-!
# The command

Fetches the files that a request may read, carries it out and prints what comes
of it.
-/

namespace ScriptLang

namespace Console

/-- The files that were fetched. -/
abbrev Snapshot := Bindings (Except ReadFailure String)

def Snapshot.files (s : Snapshot) : Files := fun path =>
  match Bindings.get? s path with
  | some r => r
  | none => .error .missing

def readFile (path : String) : IO (Except ReadFailure String) := do
  try
    let bytes ← IO.FS.readBinFile path
    match String.fromUTF8? bytes with
    | some text => return .ok text
    | none => return .error .notText
  catch
    | .inappropriateType _ code _ =>
      return .error (if code == 21 then .isDirectory else .notDirectory)
    | _ => return .error .missing

def Snapshot.fetch (s : Snapshot) (path : String) : IO Snapshot := do
  if Bindings.contains s path then return s
  else return s ++ [(path, ← readFile path)]

/-- The files of a snapshot that are programs. -/
def Snapshot.sources (s : Snapshot) : List (String × Program) :=
  s.filterMap fun (path, r) =>
    match r with
    | .ok text => (Program.ofText text).toOption.map fun p => (path, p)
    | .error _ => none

/-- Fetches all modules that programs may ask for. -/
partial def Snapshot.fetchModules (s : Snapshot) (l : Loader) (typed : List (String × Program)) :
    IO Snapshot := do
  let more ← (l.reachable (typed ++ s.sources)).foldlM Snapshot.fetch s
  if more.length == s.length then return s else more.fetchModules l typed

def printReport (r : Report) : IO Unit := do
  IO.print r.out
  IO.eprint r.err

/-- Reads and answers lines until one asks to quit or there are no more. -/
partial def converse (stdin : IO.FS.Stream) (snapshot : Snapshot) (s : Session) : IO Unit := do
  printReport (.ofSession s)
  if ← stdin.isTty then IO.print ">>> "
  (← IO.getStdout).flush
  let line ← stdin.getLine
  if line.isEmpty then return
  let typed := (Program.ofText (Text.trim line)).toOption.map fun p => (s.file, p)
  let snapshot ← snapshot.fetchModules s.loader typed.toList
  match Interactive.step line { s with files := snapshot.files, output := {}, warnings := #[] } with
  | some s => converse stdin snapshot s
  | none => return

def answer (request : Request) : IO Report := do
  match request with
  | .file _ path o =>
    let snapshot ← [o.settingsFile.getD Settings.fileName, path].foldlM Snapshot.fetch []
    match CommandLine.settings snapshot.files o with
    | .error _ => return CommandLine.run snapshot.files "" request
    | .ok settings =>
      let snapshot ← snapshot.fetchModules { libraryDir := settings.libraryDir } []
      return CommandLine.run snapshot.files "" request
  | .interact o =>
    let snapshot ← Snapshot.fetch [] (o.settingsFile.getD Settings.fileName)
    match CommandLine.settings snapshot.files o with
    | .error e => return .failure e.message "" ""
    | .ok settings =>
      converse (← IO.getStdin) snapshot (Interactive.start settings snapshot.files)
      return {}
  | other => return CommandLine.run (fun _ => .error .missing) "" other

end Console

end ScriptLang

def main (args : List String) : IO UInt32 := do
  let report ← ScriptLang.Console.answer (ScriptLang.Request.ofArgs args)
  ScriptLang.Console.printReport report
  return report.exit.toUInt32
