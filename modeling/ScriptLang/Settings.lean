import ScriptLang.File.Tree
import ScriptLang.Toml.Document

/-!
# Settings

The limits and names that the evaluator, the module loader and the machine
share. Every setting has a default. Settings are read from the entries of a TOML
document: entries of other names are ignored, and an entry of the wrong kind makes
the whole document invalid.
-/

namespace ScriptLang

structure Settings where
  /-- How many calls of the evaluator may be active at once. -/
  maxStackDepth : Nat := 1000
  /-- How many values the machine's stack holds. -/
  stackCapacity : Nat := 256
  /-- How many instructions a run of the machine may take. -/
  maxInstructions : Nat := 10000
  /-- Where modules with a plain name are looked for first. -/
  libraryDir : String := "stdlib"
  /-- The file that stack frames of top-level code name. -/
  sourceName : String := "<input>"
deriving DecidableEq, Repr

inductive SettingsError where
  | unreadable (path : String) (failure : ReadFailure)
  /-- A document that is malformed or has an entry of the wrong kind. -/
  | invalid (path : Option String)
deriving DecidableEq, Repr

def SettingsError.message : SettingsError → String
  | unreadable path failure => "cannot read config '" ++ path ++ "': " ++ failure.message
  | invalid none => "invalid config"
  | invalid (some path) => "invalid config '" ++ path ++ "'"

namespace Settings

/-- The file that settings are read from if none is named. -/
def fileName : String := "fine.toml"

/-- A count that is not negative. -/
def count? (t : Toml.Entries) (key : String) (default : Nat) : Option Nat :=
  match t.get? key with
  | none => some default
  | some (.value (.integer n)) => if 0 ≤ n then some n.toNat else none
  | some _ => none

def text? (t : Toml.Entries) (key : String) (default : String) : Option String :=
  match t.get? key with
  | none => some default
  | some (.value (.text s)) => some s
  | some _ => none

def ofEntries? (t : Toml.Entries) : Option Settings := do
  let d : Settings := {}
  return {
    maxStackDepth := ← count? t "max_stack_depth" d.maxStackDepth
    stackCapacity := ← count? t "vm_stack_capacity" d.stackCapacity
    maxInstructions := ← count? t "vm_max_instructions" d.maxInstructions
    libraryDir := ← text? t "stdlib_dir" d.libraryDir
    sourceName := ← text? t "source_name" d.sourceName }

def ofText (s : String) (path : Option String) : Except SettingsError Settings :=
  match (Toml.ofText? s).bind ofEntries? with
  | some settings => .ok settings
  | none => .error (.invalid path)

def load (files : Files) (path : String) : Except SettingsError Settings :=
  match files path with
  | .ok s => ofText s (some path)
  | .error failure => .error (.unreadable path failure)

/-- The settings of the named file, else of the usual file in a directory if it is
there, else the defaults. -/
def discover (files : Files) (path : Option String) (dir : String) :
    Except SettingsError Settings :=
  match path with
  | some path => load files path
  | none =>
    let usual := Path.join dir fileName
    if files.isFile usual then load files usual else .ok {}

end Settings

end ScriptLang
