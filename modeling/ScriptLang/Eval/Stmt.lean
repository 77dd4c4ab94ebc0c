import ScriptLang.Eval.Expr

/-!
# Evaluation of statements

By recursion on the statement. Only functions, handlers and modules open a scope
of their own. Loops on a condition are bounded by a number of rounds.
-/

namespace ScriptLang

namespace Eval

/-- Goes on if a statement did not end the function around it. -/
def andThen (m : Eval Completion) (k : Value → Eval Completion) : Eval Completion := do
  match ← m with
  | .next v => k v
  | .returned v => return .returned v

/-- Runs a body for each item, with the item bound to a name. -/
def forEach (scope : ScopeId) (item : String) (body : Eval Completion) :
    List Value → Eval Completion
  | [] => return .next .null
  | v :: vs => do
    bindName scope item v
    andThen body fun _ => forEach scope item body vs

/-- Runs a body as long as the condition holds, at most so many times. -/
def loop (condition : Eval Value) (body : Eval Completion) : Nat → Eval Completion
  | 0 => throw .exhausted
  | rounds + 1 => do
    if (← condition).isTruthy then
      andThen body fun _ => loop condition body rounds
    else return .next .null

/-- Runs the last part of a `try` after the parts before it, however those ended.
It decides the outcome if it throws or returns. -/
def finishing (m last : Eval Completion) : Eval Completion :=
  ExceptT.mk do
    match ← m.run with
    | .error .exhausted => return .error .exhausted
    | outcome =>
      match ← last.run with
      | .ok (.next _) => return outcome
      | other => return other

/-! ## Modules -/

/-- A module by name. The first import runs its top level in a scope of its own. -/
def loadModule (run : Runner) (name : String) : Eval Module := do
  let s ← get
  match s.loader.modules.get? name with
  | some m => return m
  | none =>
    match s.loader.enter s.files name s.baseDir with
    | .error e => fail (.importFailed e.message)
    | .ok (source, loader) =>
      modify fun s => { s with loader }
      let scope ← make (·.newScope none)
      let top := inFile source.path (run scope source.program.stmts)
      discard (top.after fun s => { s with loader := s.loader.leave name })
      modifyGet fun s =>
        let (m, loader) := s.loader.finish name scope
        (m, { s with loader })

/-- Binds the names that a module exports. -/
def importNames (scope : ScopeId) (m : Module) (written : String) : List String → Eval Unit
  | [] => return
  | name :: names => do
    match ← lookup m.exports name with
    | some v => bindName scope name v
    | none => warn (.notExported written name)
    importNames scope m written names

/-! ## Exceptions -/

/-- Throws what a value stands for: an exception itself, a text as the message of a
new one. -/
def raiseValue : Value → Eval Completion
  | .exception x => raise x
  | .text message => fail (.thrown message)
  | _ => fail (.thrown "")

/-- The message of a failed assertion. -/
def assertionMessage (run : Runner) (scope : ScopeId) : Option Expr → Eval String
  | none => return "Assertion failed"
  | some e => do
    let v ← expr run scope e
    return (← get).store.render v

/-! ## Definitions -/

def define (scope : ScopeId) (d : FunctionDecl) : Eval Unit := do
  let id ← make Store.fresh
  bindName scope d.name (.function { id, decl := d, scope })

def defineClass (scope : ScopeId) (d : ClassDecl) : Eval Unit := do
  let parent ← match d.parent with
    | some name => lookupClass scope name
    | none => pure none
  let id ← make Store.fresh
  bindName scope d.name (.classObj (.ofDecl id parent d))

/-- Sets a field of an instance. Fields that its class does not have, and fields of
other values, are left alone. -/
def assignField (target : Value) (field : String) (v : Value) : Eval Unit :=
  match target with
  | .object o => modify fun s =>
    match s.store.setField? o field v with
    | some store => { s with store }
    | none => s
  | _ => return

/-! ## Statements -/

mutual

def stmt (run : Runner) (rounds : Nat) (scope : ScopeId) : Stmt → Eval Completion
  | .expr _ e => return .next (← expr run scope e)
  | .bind _ name value => do
    bindName scope name (← expr run scope value)
    return .next .null
  | .assign _ name value => do
    let v ← expr run scope value
    bindName scope name v
    return .next v
  | .assignField _ target field value => do
    let t ← expr run scope target
    let v ← expr run scope value
    assignField t field v
    return .next v
  | .define _ d => do
    define scope d
    return .next .null
  | .defineClass _ d => do
    defineClass scope d
    return .next .null
  | .choose _ condition yes no => do
    if (← expr run scope condition).isTruthy then block run rounds scope .null yes
    else optionalBlock run rounds scope no
  | .forEach _ item source body _ => do
    match ← expr run scope source with
    | .array items => forEach scope item (block run rounds scope .null body) items.toList
    | _ => return .next .null
  | .loop _ condition body =>
    loop (expr run scope condition) (block run rounds scope .null body) rounds
  | .giveBack _ none => return .returned .null
  | .giveBack _ (some value) => return .returned (← expr run scope value)
  | .attempt _ body handler finish =>
    finishing
      (catchThrown (block run rounds scope .null body) (handle run rounds scope handler))
      (optionalBlock run rounds scope finish)
  | .raise _ value => do
    raiseValue (← expr run scope value)
  | .check _ condition message => do
    if (← expr run scope condition).isTruthy then return .next .null
    else fail (.assertionFailed (← assertionMessage run scope message))
  | .importModule _ name rename => do
    let m ← loadModule run name
    bindName scope (rename.getD (Loader.bindingName name)) (.module m)
    return .next .null
  | .importNames _ name names => do
    let m ← loadModule run name
    importNames scope m name names
    return .next .null
  | .share _ inner =>
    andThen (stmt run rounds scope inner) fun _ => return .next .null

/-- Runs statements in order; `last` is the value of the one before them. -/
def block (run : Runner) (rounds : Nat) (scope : ScopeId) (last : Value) :
    List Stmt → Eval Completion
  | [] => return .next last
  | s :: rest =>
    andThen (stmt run rounds scope s) fun v => block run rounds scope v rest

def optionalBlock (run : Runner) (rounds : Nat) (scope : ScopeId) :
    Option (List Stmt) → Eval Completion
  | none => return .next .null
  | some stmts => block run rounds scope .null stmts

/-- Runs a handler for an exception of its kind in a scope of its own; other
exceptions go on. -/
def handle (run : Runner) (rounds : Nat) (scope : ScopeId) :
    Option Handler → Exception → Eval Completion
  | none, x => throw (.thrown x)
  | some ⟨kind, binder, body⟩, x =>
    if kind.all (· == x.kind) then do
      let inner ← make (·.newScope (some scope))
      match binder with
      | some name => bindName inner name (.exception x)
      | none => pure ()
      block run rounds inner .null body
    else throw (.thrown x)

end

/-- Runs statements, given how many calls and imports may be nested and how many
rounds a loop may take. -/
def runBlock : Nat → Runner
  | 0 => fun _ _ => throw .exhausted
  | fuel + 1 => fun scope stmts => block (runBlock fuel) fuel scope .null stmts

end Eval

/-- Runs a program in the global scope. -/
def Program.run (p : Program) (fuel : Nat) : Eval Value :=
  Eval.body (Eval.runBlock fuel) Session.globals p.stmts

/-- Calls a function from outside a program. -/
def Closure.call (f : Closure) (args : List Value) (line fuel : Nat) : Eval Value :=
  Eval.callFunction (Eval.runBlock fuel) f args line

end ScriptLang
