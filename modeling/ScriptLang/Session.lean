import ScriptLang.Module.Loader
import ScriptLang.Output
import ScriptLang.Settings
import ScriptLang.Store
import ScriptLang.Value.Fault

/-!
# Sessions

A session is all that programs run one after another share: the store, the call
stack, the file that is running, the modules, the files that imports can reach,
and what was printed. A computation of the evaluator acts on a session. It ends
with a value, or is left by an exception, or cannot go on; the session is kept in
each case.
-/

namespace ScriptLang

/-- Mistakes that a program is told about while it goes on. -/
inductive Warning where
  | notExported (module name : String)
  | noExport (module name : String)
  | noFunction (module name : String)
  /-- A line typed at the prompt that is no program. -/
  | malformed (e : SourceError)

def Warning.message : Warning → String
  | notExported module name => "Error: Module '" ++ module ++ "' does not export '" ++ name ++ "'"
  | noExport module name => "Error: Module '" ++ module ++ "' has no export '" ++ name ++ "'"
  | noFunction module name => "Error: Module '" ++ module ++ "' has no function '" ++ name ++ "'"
  | malformed e => e.message

/-! ## The call stack -/

/-- The calls that are active, up to a limit. -/
structure CallStack where
  limit : Nat
  /-- The newest call comes first. -/
  frames : List Frame := []

namespace CallStack

def depth (c : CallStack) : Nat := c.frames.length

/-- Enters a call; `none` at the limit. -/
def push? (c : CallStack) (f : Frame) : Option CallStack :=
  if c.limit ≤ c.depth then none else some { c with frames := f :: c.frames }

/-- Leaves the newest call, if there is one. -/
def pop (c : CallStack) : CallStack :=
  { c with frames := c.frames.tail }

/-- Gives an exception the calls that are active now as its trace. -/
def attach (c : CallStack) (x : Exception) (s : Store) : Store :=
  s.setTrace x c.frames

/-- A new exception for a fault, with the calls that are active now as its trace. -/
def report (c : CallStack) (fault : Fault) (s : Store) : Exception × Store :=
  let (x, s) := s.newException fault.kind fault.message
  (x, c.attach x s)

end CallStack

/-! ## Sessions -/

structure Session where
  store : Store
  callStack : CallStack
  /-- The file that stack frames name and that relative imports start from. -/
  file : String
  loader : Loader
  files : Files
  output : Output
  warnings : Array Warning := #[]

namespace Session

/-- The scope that programs run in. -/
def globals : ScopeId := ⟨0⟩

def ofSettings (s : Settings) (files : Files) (output : Output) : Session :=
  { store := (({} : Store).newScope none).2,
    callStack := { limit := s.maxStackDepth },
    file := s.sourceName,
    loader := { libraryDir := s.libraryDir },
    files, output }

/-- The directory that relative imports start from, if it is not the working
directory. -/
def baseDir (s : Session) : Option String :=
  (Path.parent? s.file).filter fun dir => !dir.isEmpty

end Session

/-- How a computation ends without a value. -/
inductive Halt where
  | thrown (x : Exception)
  /-- It cannot go on: its fuel is used up, or a step of it broke off. -/
  | exhausted

abbrev Eval := ExceptT Halt (StateM Session)

namespace Eval

variable {α : Type}

/-! ## The store -/

def lookup (scope : ScopeId) (name : String) : Eval (Option Value) := do
  return (← get).store.lookup? scope name

def lookupClass (scope : ScopeId) (name : String) : Eval (Option Class) := do
  match ← lookup scope name with
  | some (.classObj c) => return some c
  | _ => return none

def bindName (scope : ScopeId) (name : String) (v : Value) : Eval Unit :=
  modify fun s => { s with store := s.store.set scope name v }

/-- Carries out an operation of the store that makes something new. -/
def make (f : Store → α × Store) : Eval α :=
  modifyGet fun s =>
    let (a, store) := f s.store
    (a, { s with store })

/-- Binds parameters one after another: those without an argument to null, and
arguments without a parameter not at all. -/
def bindParams (scope : ScopeId) : List String → List Value → Eval Unit
  | [], _ => return
  | p :: ps, [] => do
    bindName scope p .null
    bindParams scope ps []
  | p :: ps, v :: vs => do
    bindName scope p v
    bindParams scope ps vs

/-! ## Exceptions -/

/-- Throws an exception with the active calls as its trace. -/
def raise (x : Exception) : Eval α := do
  modify fun s => { s with store := s.callStack.attach x s.store }
  throw (.thrown x)

/-- Throws a new exception for a fault. -/
def fail (fault : Fault) : Eval α := do
  raise (← make (·.newException fault.kind fault.message))

def ofExcept : Except Fault α → Eval α
  | .ok a => return a
  | .error fault => fail fault

/-- A step that breaks off takes the computation with it, past all handlers. -/
def unlessCrash : Except Crash α → Eval α
  | .ok a => return a
  | .error _ => throw .exhausted

def warn (w : Warning) : Eval Unit :=
  modify fun s => { s with warnings := s.warnings.push w }

/-- Goes on with `handle` where the computation threw an exception. -/
def catchThrown (m : Eval α) (handle : Exception → Eval α) : Eval α :=
  tryCatch m fun
    | .thrown x => handle x
    | .exhausted => throw .exhausted

/-! ## What is put back -/

/-- Changes the session after a computation, however that ended. -/
def after (m : Eval α) (f : Session → Session) : Eval α :=
  ExceptT.mk do
    let r ← m.run
    modify f
    return r

/-- Carries out a computation as the body of a call. -/
def inCall (function : String) (line : Nat) (m : Eval α) : Eval α := do
  let s ← get
  match s.callStack.push? ⟨function, s.file, line⟩ with
  | none => fail .recursionLimit
  | some callStack =>
    modify fun s => { s with callStack }
    m.after fun s => { s with callStack := s.callStack.pop }

/-- Carries out a computation as code of another file. -/
def inFile (file : String) (m : Eval α) : Eval α := do
  let outer := (← get).file
  modify fun s => { s with file }
  m.after fun s => { s with file := outer }

/-! ## Output -/

/-- Prints the texts of values on a line of their own. -/
def print (values : List Value) : Eval Unit := do
  let written ← modifyGet fun s =>
    let line := String.intercalate " " (values.map s.store.render)
    let (written, output) := s.output.writeLine line
    (written, { s with output })
  if written then return else fail (.outputFailed Output.refusal)

end Eval

end ScriptLang
