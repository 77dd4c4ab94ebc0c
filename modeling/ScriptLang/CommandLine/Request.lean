/-!
# Command line arguments

Arguments are read from left to right; the first mistake, or the first question
for the version or for help, decides.
-/

namespace ScriptLang

/-- What is done with a program file. -/
inductive Mode where
  | evaluate
  /-- Compile the program and run it on the machine. -/
  | execute
  /-- Show the compiled program. -/
  | list
  /-- Show the syntax tree. -/
  | tree
  | tokens
deriving DecidableEq, Repr

def Mode.ofName? : String → Option Mode
  | "vm" => some execute
  | "disassemble" => some list
  | "ast" => some tree
  | "tokens" => some tokens
  | _ => none

/-- Settings given on the command line. -/
structure Overrides where
  settingsFile : Option String := none
  maxStackDepth : Option Nat := none
  maxInstructions : Option Nat := none
deriving DecidableEq, Repr

inductive Request where
  | version
  | help
  | misuse
  | interact (o : Overrides)
  | file (mode : Mode) (path : String) (o : Overrides)
deriving DecidableEq, Repr

/-- An option that takes a value. -/
inductive Setting where
  | settingsFile | maxStackDepth | maxInstructions
deriving DecidableEq, Repr

def Setting.ofName? : String → Option Setting
  | "config" => some settingsFile
  | "max-depth" => some maxStackDepth
  | "max-instructions" => some maxInstructions
  | _ => none

/-- The arguments read so far. -/
structure Arguments where
  path : Option String := none
  modes : List Mode := []
  overrides : Overrides := {}

namespace Arguments

/-- A number of 64 bits, with or without a plus sign. -/
def count? (s : String) : Option Nat :=
  let digits := match s.toList with
    | '+' :: ds => ds
    | ds => ds
  if digits.isEmpty || !digits.all Char.isDigit then none
  else
    let n := digits.foldl (fun n c => n * 10 + (c.toNat - '0'.toNat)) 0
    if n < Nat.pow 2 64 then some n else none

/-- Sets an option. It may be given once only. -/
def set? (a : Arguments) (s : Setting) (value : String) : Option Arguments :=
  let o := a.overrides
  match s with
  | .settingsFile =>
    if o.settingsFile.isSome || value.isEmpty then none
    else some { a with overrides := { o with settingsFile := some value } }
  | .maxStackDepth =>
    if o.maxStackDepth.isSome then none
    else (count? value).map fun n => { a with overrides := { o with maxStackDepth := some n } }
  | .maxInstructions =>
    if o.maxInstructions.isSome then none
    else (count? value).map fun n => { a with overrides := { o with maxInstructions := some n } }

def setPath? (a : Arguments) (path : String) : Option Arguments :=
  if a.path.isSome || path.isEmpty then none else some { a with path := some path }

def setMode? (a : Arguments) (mode : Mode) : Option Arguments :=
  if a.modes.contains mode then none else some { a with modes := mode :: a.modes }

/-- What the arguments ask for: a mode needs a file, and there is at most one. -/
def request (a : Arguments) : Request :=
  match a.path, a.modes with
  | none, [] => .interact a.overrides
  | some path, [] => .file .evaluate path a.overrides
  | some path, [mode] => .file mode path a.overrides
  | _, _ => .misuse

/-- Reads arguments none of which is an option. -/
def readPaths : List String → Arguments → Request
  | [], a => a.request
  | arg :: rest, a =>
    match a.setPath? arg with
    | some a => readPaths rest a
    | none => .misuse

/-- Whether an argument is an option or the mark behind the last option. A lone dash
is neither. -/
def isOption (arg : String) : Bool :=
  arg.startsWith "-" && arg != "-"

/-- The name of a long option and the value behind an equals sign. -/
def splitOption (arg : String) : String × Option String :=
  let cs := arg.toList.drop 2
  match cs.dropWhile (· != '=') with
  | [] => (String.ofList cs, none)
  | _ :: value => (String.ofList (cs.takeWhile (· != '=')), some (String.ofList value))

def read : List String → Arguments → Request
  | [], a => a.request
  | arg :: rest, a =>
    if arg == "--" then readPaths rest a
    else if arg.startsWith "--" then
      let (name, value) := splitOption arg
      match Setting.ofName? name, Mode.ofName? name, value with
      | some s, _, some value =>
        match a.set? s value with
        | some a => read rest a
        | none => .misuse
      | some s, _, none =>
        match rest with
        | [] => .misuse
        | value :: rest =>
          if isOption value then .misuse
          else
            match a.set? s value with
            | some a => read rest a
            | none => .misuse
      | none, some mode, none =>
        match a.setMode? mode with
        | some a => read rest a
        | none => .misuse
      | none, none, none =>
        if name == "version" then .version
        else if name == "help" then .help
        else .misuse
      | none, _, some _ => .misuse
    else if isOption arg then
      match arg.toList with
      | _ :: 'V' :: _ => .version
      | _ :: 'h' :: _ => .help
      | _ => .misuse
    else
      match a.setPath? arg with
      | some a => read rest a
      | none => .misuse

end Arguments

def Request.ofArgs (args : List String) : Request :=
  Arguments.read args {}

end ScriptLang
