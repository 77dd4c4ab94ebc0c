import ScriptLang.Eval.Stmt
import ScriptLang.Text.Unicode

/-!
# Interactive sessions

Each line is a program of its own, run in one session, or a command to the prompt
itself. A value that is not null is shown, and so is an exception.
-/

namespace ScriptLang

/-- More calls and rounds than a run ever comes to. -/
def Eval.ampleFuel : Nat := 1000000000000000000

namespace Interactive

def fileName : String := "<repl>"

def banner : String :=
  "FineLang v1.0 - Interactive Mode\nType 'exit' to quit\n\n"

def helpText : String :=
  String.join [
    "FineLang REPL Commands:\n",
    "  :help, :h       Show this help\n",
    "  exit, :quit, :q Exit the REPL\n",
    "  :clear          Clear the screen\n",
    "\n",
    "Each line is a program; bindings persist between lines:\n",
    "  let xs = range(0, 5)\n",
    "  fn double(x) \x7b return x * 2 \x7d\n",
    "  map(double, xs)\n"]

/-- Clears the screen of a terminal and moves to its top. -/
def clearScreen : String := "\x1b[2J\x1b[1;1H"

inductive Command where
  | nothing
  | quit
  | help
  | clear
  | unknown (line : String)
  | program (text : String)
deriving DecidableEq, Repr

/-- What a line asks for. Blanks around it do not count. -/
def Command.ofLine (line : String) : Command :=
  match Text.trim line with
  | "" => nothing
  | "exit" | ":quit" | ":q" => quit
  | ":help" | ":h" => help
  | ":clear" => clear
  | text => if text.startsWith ":" then unknown text else program text

/-- Adds a text to what was printed. -/
def say (s : Session) (text : String) : Session :=
  { s with output := { s.output with text := s.output.text ++ text } }

def start (settings : Settings) (files : Files) : Session :=
  say { Session.ofSettings settings files {} with file := fileName } banner

/-- Runs a program and shows what comes of it. -/
def runProgram (text : String) (s : Session) : Session :=
  match Program.ofText text with
  | .error e => { s with warnings := s.warnings.push (.malformed e) }
  | .ok p =>
    match (p.run Eval.ampleFuel).run s with
    | (.ok .null, s) => s
    | (.ok v, s) => say s (s.store.render v ++ "\n")
    | (.error (.thrown x), s) => say s (s.store.render (.exception x) ++ "\n")
    | (.error .exhausted, s) => s

/-- Answers one line; `none` when it asks to quit. -/
def step (line : String) (s : Session) : Option Session :=
  match Command.ofLine line with
  | .nothing => some s
  | .quit => none
  | .help => some (say s helpText)
  | .clear => some (say s clearScreen)
  | .unknown text => some (say s ("Unknown command: " ++ text ++ "\nType :help for help.\n"))
  | .program text => some (runProgram text s)

/-- Answers lines until one asks to quit. -/
def run : List String → Session → Session
  | [], s => s
  | line :: rest, s =>
    match step line s with
    | some s => run rest s
    | none => s

end Interactive

end ScriptLang
