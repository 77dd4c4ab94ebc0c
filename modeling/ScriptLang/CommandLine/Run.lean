import ScriptLang.Bytecode.Compiler
import ScriptLang.Bytecode.Machine
import ScriptLang.CommandLine.Request
import ScriptLang.Interactive
import ScriptLang.Program.Outline
import ScriptLang.Settings

/-!
# Running a request

What a request prints and the code it ends with, given the files that can be read
and the text to be typed. An exception that a program does not handle is
printed like other output; only requests that cannot be carried out fail.
-/

namespace ScriptLang

structure Report where
  exit : Nat := 0
  out : String := ""
  err : String := ""
deriving DecidableEq, Repr

namespace Report

/-- A request that could not be carried out, after it printed `out`. -/
def failure (message : String) (out : String) (details : String) : Report :=
  { exit := 1, out, err := details ++ "Error: " ++ message ++ "\n" }

/-- What a session has printed. -/
def ofSession (s : Session) : Report :=
  { out := s.output.text,
    err := String.join (s.warnings.toList.map fun w => w.message ++ "\n") }

end Report

namespace CommandLine

def versionText : String := "fine 0.1.0\n"

def helpText : String :=
  String.join [
    "FineLang - run .fine programs or start a REPL\n\n",
    "Usage: fine [OPTIONS] [FILE]\n\n",
    "  --vm                    Compile to bytecode and run on the VM\n",
    "  --disassemble           Print the bytecode listing and exit\n",
    "  --ast                   Parse and dump the AST as JSON\n",
    "  --tokens                Tokenize and dump tokens\n",
    "  --max-depth <N>         Evaluator call-depth limit\n",
    "  --max-instructions <N>  VM executed-instruction limit\n",
    "  --config <PATH>         Configuration file (default: ./fine.toml if present)\n"]

/-- The settings of a settings file with those of the command line put over them. -/
def settings (files : Files) (o : Overrides) : Except SettingsError Settings := do
  let s ← Settings.discover files o.settingsFile ""
  return { s with
    maxStackDepth := o.maxStackDepth.getD s.maxStackDepth,
    maxInstructions := o.maxInstructions.getD s.maxInstructions }

def notCompiled (path details : String) : Report :=
  .failure ("could not compile '" ++ path ++ "'") "" (details ++ "\n")

/-- Goes on with the text of the program file. -/
def withText (files : Files) (path : String) (k : String → Report) : Report :=
  match files path with
  | .ok text => k text
  | .error _ => .failure ("Could not open file '" ++ path ++ "'") "" ""

def withProgram (files : Files) (path : String) (k : Program → Report) : Report :=
  withText files path fun text =>
    match Program.ofText text with
    | .ok p => k p
    | .error e => notCompiled path e.message

def withChunk (files : Files) (path : String) (k : Chunk → Report) : Report :=
  withProgram files path fun p =>
    match p.compile with
    | .ok c => k c
    | .error e => notCompiled path e.message

def evaluate (files : Files) (settings : Settings) (p : Program) : Report :=
  match (p.run Eval.ampleFuel).run (Session.ofSettings settings files {}) with
  | (.error (.thrown x), s) =>
    .ofSession (Interactive.say s (s.store.render (.exception x) ++ "\n"))
  | (_, s) => .ofSession s

def execute (settings : Settings) (c : Chunk) : Report :=
  match (Machine.ofSettings settings {}).run c with
  | (.ok (), m) => { out := m.output.text }
  | (.error e, m) => .failure e.message m.output.text ""

def listTokens (text : String) : Report :=
  match Token.scan text with
  | .error e => .failure (SourceError.scan e).message "" ""
  | .ok tokens =>
    { out := String.join (tokens.map fun (t, s) => t.dump ++ " @ " ++ s.render ++ "\n") }

def runFile (files : Files) (settings : Settings) (mode : Mode) (path : String) : Report :=
  match mode with
  | .evaluate => withProgram files path (evaluate files { settings with sourceName := path })
  | .execute => withChunk files path (execute settings)
  | .list => withChunk files path fun c => { out := c.listing path }
  | .tree => withProgram files path fun p => { out := p.dump ++ "\n" }
  | .tokens => withText files path listTokens

/-- Goes on with the settings that a request runs under. -/
def withSettings (files : Files) (o : Overrides) (k : Settings → Report) : Report :=
  match settings files o with
  | .ok s => k s
  | .error e => .failure e.message "" ""

def run (files : Files) (typed : String) : Request → Report
  | .version => { out := versionText }
  | .help => { out := helpText }
  | .misuse => { exit := 2 }
  | .interact o => withSettings files o fun s =>
      .ofSession (Interactive.run (typed.splitOn "\n") (Interactive.start s files))
  | .file mode path o => withSettings files o fun s => runFile files s mode path

end CommandLine

end ScriptLang
