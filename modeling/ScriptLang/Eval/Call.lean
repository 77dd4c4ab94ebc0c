import ScriptLang.Session
import ScriptLang.Value.Builtin

/-!
# Calls

How functions, methods, constructors and built-in functions are called. What
runs the statements of a body is a parameter.
-/

namespace ScriptLang

/-- How a statement ends. -/
inductive Completion where
  | next (v : Value)
  /-- The function around it ends with this value. -/
  | returned (v : Value)

def Completion.value : Completion → Value
  | next v => v
  | returned v => v

namespace Eval

/-- A way to run a list of statements in a scope. -/
abbrev Runner := ScopeId → List Stmt → Eval Completion

/-- The name that methods see their receiver under. -/
def receiverName : String := "this"

/-- The method that `new` calls. -/
def constructorName : String := "constructor"

/-- Runs a body to the value of its last statement or the one it returned. -/
def body (run : Runner) (scope : ScopeId) (stmts : List Stmt) : Eval Value := do
  return (← run scope stmts).value

/-- Calls a function in a new scope inside the one it was defined in. -/
def callFunction (run : Runner) (f : Closure) (args : List Value) (line : Nat) : Eval Value :=
  inCall f.decl.name line do
    let scope ← make (·.newScope (some f.scope))
    bindParams scope f.decl.params args
    body run scope f.decl.body

/-- Calls a method in a new scope inside the caller's. -/
def callMethod (run : Runner) (receiver : Value) (method : FunctionDecl) (args : List Value)
    (line : Nat) (caller : ScopeId) : Eval Value :=
  inCall method.name line do
    let scope ← make (·.newScope (some caller))
    bindName scope receiverName receiver
    bindParams scope method.params args
    body run scope method.body

/-! ## Built-in functions -/

def callBuiltin (run : Runner) (f : Builtin) (args : List Value) (line : Nat) : Eval Value :=
  match f, args with
  | .print, _ => do
    print args
    return .null
  | .map, .function g :: .array items :: _ => do
    return .array (← items.mapM fun v => callFunction run g [v] line)
  | .filter, .function g :: .array items :: _ => do
    return .array (← items.filterM fun v => do
      return (← callFunction run g [v] line).isTruthy)
  | .reduce, .function g :: .array items :: first :: _ =>
    items.foldlM (fun acc v => callFunction run g [acc, v] line) first
  | _, _ =>
    match f.applyPure args with
    | some r => ofExcept r
    | none => return .null

/-! ## Calls as programs write them

Arguments are computations, because some calls never come to them. -/

/-- Calls what a name means: a built-in function, else a function in scope. Any
other callee gives null. -/
def callNamed (run : Runner) (scope : ScopeId) (callee : String) (args : Eval (List Value))
    (line : Nat) : Eval Value := do
  match Builtin.ofName? callee with
  | some f => callBuiltin run f (← args) line
  | none =>
    match ← lookup scope callee with
    | some (.function f) => callFunction run f (← args) line
    | _ => return .null

/-- Calls a method of a value. The class of an instance is found by its name, from
the caller's scope or else among the globals. -/
def callOn (run : Runner) (scope : ScopeId) (receiver : Value) (method : String)
    (args : List Value) (line : Nat) : Eval Value :=
  match receiver with
  | .module m => do
    match ← lookup m.exports method with
    | some (.function f) => callFunction run f args line
    | _ =>
      warn (.noFunction m.name method)
      return .null
  | .object o => do
    let near ← lookupClass scope o.className
    let found ← match near with
      | some c => pure (some c)
      | none => lookupClass Session.globals o.className
    match found.bind (·.method? method) with
    | some d => callMethod run receiver d args line scope
    | none => return .null
  | _ => return receiver.method method args

/-- Makes an instance and calls its constructor, if it has one. -/
def create (run : Runner) (scope : ScopeId) (className : String) (args : Eval (List Value))
    (line : Nat) : Eval Value := do
  match ← lookupClass scope className with
  | none => return .null
  | some c =>
    let args ← args
    let o ← make (·.newObject c.name c.parent c.fields)
    match c.method? constructorName with
    | some d => discard (callMethod run (.object o) d args line scope)
    | none => pure ()
    return .object o

/-- Calls the method that the parent class of the receiver has. The parent is found
by its name among the globals. -/
def callSuper (run : Runner) (scope : ScopeId) (method : String) (args : Eval (List Value))
    (line : Nat) : Eval Value := do
  match ← lookup scope receiverName with
  | some (.object o) =>
    let parent ← match o.parent with
      | some name => lookupClass Session.globals name
      | none => pure none
    match parent.bind (·.method? method) with
    | some d => callMethod run (.object o) d (← args) line scope
    | none => return .null
  | _ => return .null

/-- A member of a module or an instance; null if there is none. -/
def member (target : Value) (label : String) : Eval Value :=
  match target with
  | .module m => do
    match ← lookup m.exports label with
    | some v => return v
    | none =>
      warn (.noExport m.name label)
      return .null
  | .object o => do
    return ((← get).store.field? o label).getD .null
  | _ => return .null

end Eval

end ScriptLang
