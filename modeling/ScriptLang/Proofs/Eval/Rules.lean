import Mathlib
import ScriptLang.Eval.Stmt

/-!
# Properties of all computations of the evaluator

The evaluator is put together from a few steps in a few ways. A property of
computations that the steps have and that the ways keep is a property of every
expression, statement, program and call (`Rules.expr`, `Rules.stmt`, `Rules.program`,
`Rules.call`). Facts about evaluation are proved by giving the rules for them; none
of them needs an induction of its own.

A computation may bind names in one scope only, the one it runs in. Expressions and
calls bind none outside the scopes that they make. The rules keep track of that
scope, so that a property may depend on it.
-/

namespace ScriptLang

namespace Eval

/-- What a property of computations needs in order to hold of the whole evaluator. The first
argument of the property is the scope that a computation binds names in, if any. -/
structure Rules (Good : Option ScopeId → ∀ {α : Type}, Eval α → Prop) : Prop where
  pure {α : Type} (a : α) : Good none (Pure.pure a : Eval α)
  bind {o : Option ScopeId} {α β : Type} {x : Eval α} {k : α → Eval β} :
    Good o x → (∀ a, Good o (k a)) → Good o (x >>= k)
  widen {i : ScopeId} {α : Type} {x : Eval α} : Good none x → Good (some i) x
  throw {α : Type} (h : Halt) : Good none (throw h : Eval α)
  recover {o : Option ScopeId} {α : Type} {x : Eval α} {handle : Exception → Eval α} :
    Good o x → (∀ e, Good o (handle e)) → Good o (catchThrown x handle)
  finishing {o : Option ScopeId} {x last : Eval Completion} :
    Good o x → Good o last → Good o (Eval.finishing x last)
  get : Good none (get : Eval Session)
  bindName (i : ScopeId) (name : String) (v : Value) : Good (some i) (Eval.bindName i name v)
  inScope {α : Type} (parent : Option ScopeId) {k : ScopeId → Eval α} :
    (∀ i, Good (some i) (k i)) → Good none (make (·.newScope parent) >>= k)
  newObject (className : String) (parent : Option String) (fields : List String) :
    Good none (make (·.newObject className parent fields))
  fresh : Good none (make Store.fresh)
  raise {α : Type} (x : Exception) : Good none (Eval.raise x : Eval α)
  fail {α : Type} (fault : Fault) : Good none (Eval.fail fault : Eval α)
  warn (w : Warning) : Good none (Eval.warn w)
  print (values : List Value) : Good none (Eval.print values)
  assignField (target : Value) (field : String) (v : Value) :
    Good none (Eval.assignField target field v)
  inCall {α : Type} (function : String) (line : Nat) {x : Eval α} :
    Good none x → Good none (Eval.inCall function line x)
  loadModule {run : Runner} (name : String) :
    (∀ i ss, Good (some i) (run i ss)) → Good none (Eval.loadModule run name)

namespace Rules

variable {Good : Option ScopeId → ∀ {α : Type}, Eval α → Prop} (h : Rules Good)
  {o : Option ScopeId} {α β : Type} {scope : ScopeId}

include h

/-! ## Steps and ways that follow -/

theorem lift {x : Eval α} (hx : Good none x) : Good o x := by
  cases o with
  | none => exact hx
  | some i => exact h.widen hx

theorem value (a : α) : Good o (Pure.pure a : Eval α) := h.lift (h.pure a)

theorem discard {x : Eval α} (hx : Good o x) : Good o (Functor.discard x) := by
  rw [Functor.discard, map_const, Function.comp_apply, map_eq_pure_bind]
  exact h.bind hx fun _ => h.value _

theorem lookup (name : String) : Good none (Eval.lookup scope name) :=
  h.bind h.get fun _ => h.pure _

theorem lookupClass (name : String) : Good none (Eval.lookupClass scope name) := by
  refine h.bind (h.lookup name) fun found => ?_
  split <;> exact h.pure _

theorem ofExcept (r : Except Fault α) : Good none (Eval.ofExcept r) := by
  cases r with
  | ok a => exact h.pure a
  | error fault => exact h.fail fault

theorem unlessCrash (r : Except Crash α) : Good none (Eval.unlessCrash r) := by
  cases r with
  | ok a => exact h.pure a
  | error e => exact h.throw _

theorem bindParams : ∀ (ps : List String) (vs : List Value),
    Good (some scope) (Eval.bindParams scope ps vs)
  | [], _ => by
      rw [Eval.bindParams]
      exact h.value ()
  | p :: ps, [] => by
      rw [Eval.bindParams]
      exact h.bind (h.bindName scope p .null) fun _ => bindParams ps []
  | p :: ps, v :: vs => by
      rw [Eval.bindParams]
      exact h.bind (h.bindName scope p v) fun _ => bindParams ps vs

/-- A method that is not found gives null. -/
theorem methodOrNull (found : Option FunctionDecl) {k : FunctionDecl → Eval Value}
    (hk : ∀ d, Good none (k d)) :
    Good none (match found with
      | some d => k d
      | none => Pure.pure .null) := by
  cases found with
  | some d => exact hk d
  | none => exact h.pure _

theorem andThen {x : Eval Completion} {k : Value → Eval Completion} (hx : Good o x)
    (hk : ∀ v, Good o (k v)) : Good o (Eval.andThen x k) := by
  refine h.bind hx fun c => ?_
  cases c with
  | next v => exact hk v
  | returned v => exact h.value _

/-! Loops over arrays in the evaluator itself. -/

theorem listFoldlM {f : β → α → Eval β} (hf : ∀ b a, Good o (f b a)) :
    ∀ (as : List α) (b : β), Good o (as.foldlM f b)
  | [], b => h.value b
  | a :: as, b => by
      rw [List.foldlM_cons]
      exact h.bind (hf b a) fun b' => listFoldlM hf as b'

theorem foldlM {f : β → α → Eval β} (hf : ∀ b a, Good o (f b a)) (as : Array α) (b : β) :
    Good o (as.foldlM f b) := by
  rw [← Array.foldlM_toList]
  exact h.listFoldlM hf as.toList b

theorem mapM {f : α → Eval β} (hf : ∀ a, Good o (f a)) (as : Array α) : Good o (as.mapM f) := by
  rw [Array.mapM_eq_foldlM]
  exact h.foldlM (fun bs a => h.bind (hf a) fun b => h.value (bs.push b)) as #[]

theorem filterM {f : α → Eval Bool} (hf : ∀ a, Good o (f a)) (as : Array α) :
    Good o (as.filterM f) := by
  refine h.foldlM (fun kept a => h.bind (hf a) fun keep => ?_) as #[]
  split <;> exact h.value _

/-! ## Calls -/

section Calls

variable {run : Runner} (hrun : ∀ i ss, Good (some i) (run i ss))

include hrun

theorem body (ss : List Stmt) : Good (some scope) (Eval.body run scope ss) :=
  h.bind (hrun scope ss) fun _ => h.value _

theorem callFunction (f : Closure) (args : List Value) (line : Nat) :
    Good none (Eval.callFunction run f args line) := by
  refine h.inCall _ _ (h.inScope _ fun i => ?_)
  exact h.bind (h.bindParams _ args) fun _ => h.body hrun _

theorem callMethod (receiver : Value) (method : FunctionDecl) (args : List Value) (line : Nat)
    (caller : ScopeId) : Good none (Eval.callMethod run receiver method args line caller) := by
  refine h.inCall _ _ (h.inScope _ fun i => h.bind (h.bindName _ _ _) fun _ => ?_)
  exact h.bind (h.bindParams _ args) fun _ => h.body hrun _

theorem callBuiltin (f : Builtin) (args : List Value) (line : Nat) :
    Good none (Eval.callBuiltin run f args line) := by
  unfold Eval.callBuiltin
  split
  · exact h.bind (h.print args) fun _ => h.pure _
  · exact h.bind (h.mapM (fun v => h.callFunction hrun _ [v] line) _) fun _ => h.pure _
  · refine h.bind (h.filterM (fun v => ?_) _) fun _ => h.pure _
    exact h.bind (h.callFunction hrun _ [v] line) fun _ => h.pure _
  · exact h.foldlM (fun acc v => h.callFunction hrun _ [acc, v] line) _ _
  · split
    · exact h.ofExcept _
    · exact h.pure _

theorem callNamed {args : Eval (List Value)} (hargs : Good none args) (callee : String)
    (line : Nat) : Good none (Eval.callNamed run scope callee args line) := by
  unfold Eval.callNamed
  split
  · exact h.bind hargs fun vs => h.callBuiltin hrun _ vs line
  · refine h.bind (h.lookup callee) fun found => ?_
    split
    · exact h.bind hargs fun vs => h.callFunction hrun _ vs line
    · exact h.pure _

theorem callOn (receiver : Value) (method : String) (args : List Value) (line : Nat) :
    Good none (Eval.callOn run scope receiver method args line) := by
  unfold Eval.callOn
  split
  · refine h.bind (h.lookup method) fun found => ?_
    split
    · exact h.callFunction hrun _ args line
    · exact h.bind (h.warn _) fun _ => h.pure _
  · rename_i o
    have hcall (found : Option Class) := h.methodOrNull (found.bind (·.method? method))
      fun d => h.callMethod hrun (.object o) d args line scope
    refine h.bind (h.lookupClass _) fun near => ?_
    dsimp only
    split
    · exact h.bind (h.pure _) hcall
    · exact h.bind (h.lookupClass _) hcall
  · exact h.pure _

theorem create {args : Eval (List Value)} (hargs : Good none args) (className : String)
    (line : Nat) : Good none (Eval.create run scope className args line) := by
  refine h.bind (h.lookupClass className) fun found => ?_
  split
  · exact h.pure _
  · refine h.bind hargs fun vs => h.bind (h.newObject _ _ _) fun o => ?_
    dsimp only
    split
    · exact h.bind (h.discard (h.callMethod hrun _ _ vs line scope)) fun _ => h.pure _
    · exact h.pure _

theorem callSuper {args : Eval (List Value)} (hargs : Good none args) (method : String)
    (line : Nat) : Good none (Eval.callSuper run scope method args line) := by
  refine h.bind (h.lookup _) fun found => ?_
  split
  · rename_i o
    have hcall (parent : Option Class) := h.methodOrNull (parent.bind (·.method? method))
      fun d => h.bind hargs fun vs => h.callMethod hrun (.object o) d vs line scope
    dsimp only
    split
    · exact h.bind (h.lookupClass _) hcall
    · exact h.bind (h.pure _) hcall
  · exact h.pure _

end Calls

theorem member (target : Value) (label : String) : Good none (Eval.member target label) := by
  unfold Eval.member
  split
  · refine h.bind (h.lookup label) fun found => ?_
    split
    · exact h.pure _
    · exact h.bind (h.warn _) fun _ => h.pure _
  · exact h.bind h.get fun _ => h.pure _
  · exact h.pure _

/-! ## Expressions -/

mutual

theorem expr {run : Runner} (hrun : ∀ i ss, Good (some i) (run i ss)) :
    ∀ e : Expr, Good none (Eval.expr run scope e)
  | .number .. | .text .. | .bool .. => by
      rw [Eval.expr]
      exact h.pure _
  | .name .. | .self .. => by
      rw [Eval.expr]
      exact h.bind (h.lookup _) fun _ => h.pure _
  | .array _ items => by
      rw [Eval.expr]
      exact h.bind (exprs hrun items) fun _ => h.pure _
  | .dict _ entries => by
      rw [Eval.expr]
      exact h.bind (exprEntries hrun entries) fun _ => h.pure _
  | .matrix _ _ _ cells => by
      rw [Eval.expr]
      exact h.bind (exprs hrun cells) fun _ => h.bind (h.unlessCrash _) fun _ => h.pure _
  | .binary _ left _ right => by
      rw [Eval.expr]
      refine h.bind (expr hrun left) fun _ => h.bind (expr hrun right) fun _ => ?_
      exact h.bind (h.unlessCrash _) fun _ => h.ofExcept _
  | .unary _ _ operand => by
      rw [Eval.expr]
      exact h.bind (expr hrun operand) fun _ => h.pure _
  | .call _ _ args => by
      rw [Eval.expr]
      exact h.callNamed hrun (exprs hrun args) _ _
  | .index _ target key => by
      rw [Eval.expr]
      exact h.bind (expr hrun target) fun _ => h.bind (expr hrun key) fun _ => h.ofExcept _
  | .field _ target _ => by
      rw [Eval.expr]
      exact h.bind (expr hrun target) fun _ => h.member _ _
  | .methodCall _ receiver _ args => by
      rw [Eval.expr]
      refine h.bind (expr hrun receiver) fun _ => ?_
      exact h.bind (exprs hrun args) fun _ => h.callOn hrun _ _ _ _
  | .create _ _ args => by
      rw [Eval.expr]
      exact h.create hrun (exprs hrun args) _ _
  | .superCall _ _ args => by
      rw [Eval.expr]
      exact h.callSuper hrun (exprs hrun args) _ _

theorem exprs {run : Runner} (hrun : ∀ i ss, Good (some i) (run i ss)) :
    ∀ es : List Expr, Good none (Eval.exprs run scope es)
  | [] => by
      rw [Eval.exprs]
      exact h.pure _
  | e :: es => by
      rw [Eval.exprs]
      exact h.bind (expr hrun e) fun _ => h.bind (exprs hrun es) fun _ => h.pure _

theorem exprEntries {run : Runner} (hrun : ∀ i ss, Good (some i) (run i ss)) :
    ∀ es : List (String × Expr), Good none (Eval.exprEntries run scope es)
  | [] => by
      rw [Eval.exprEntries]
      exact h.pure _
  | (_, e) :: es => by
      rw [Eval.exprEntries]
      exact h.bind (expr hrun e) fun _ => h.bind (exprEntries hrun es) fun _ => h.pure _

end

/-! ## Statements -/

theorem forEach {item : String} {x : Eval Completion} (hx : Good (some scope) x) :
    ∀ vs : List Value, Good (some scope) (Eval.forEach scope item x vs)
  | [] => by
      rw [Eval.forEach]
      exact h.value _
  | v :: vs => by
      rw [Eval.forEach]
      exact h.bind (h.bindName scope item v) fun _ => h.andThen hx fun _ => forEach hx vs

theorem loop {condition : Eval Value} {x : Eval Completion} (hc : Good o condition)
    (hx : Good o x) : ∀ rounds : Nat, Good o (Eval.loop condition x rounds)
  | 0 => by
      rw [Eval.loop]
      exact h.lift (h.throw _)
  | rounds + 1 => by
      rw [Eval.loop]
      refine h.bind hc fun v => ?_
      split
      · exact h.andThen hx fun _ => loop hc hx rounds
      · exact h.value _

theorem importNames (m : Module) (written : String) :
    ∀ names : List String, Good (some scope) (Eval.importNames scope m written names)
  | [] => by
      rw [Eval.importNames]
      exact h.value _
  | name :: names => by
      rw [Eval.importNames]
      refine h.bind (h.lift (h.lookup name)) fun found => ?_
      dsimp only
      split
      · exact h.bind (h.bindName scope name _) fun _ => importNames m written names
      · exact h.bind (h.lift (h.warn _)) fun _ => importNames m written names

theorem raiseValue (v : Value) : Good none (Eval.raiseValue v) := by
  unfold Eval.raiseValue
  split
  · exact h.raise _
  · exact h.fail _
  · exact h.fail _

theorem define (d : FunctionDecl) : Good (some scope) (Eval.define scope d) :=
  h.bind (h.lift h.fresh) fun _ => h.bindName _ _ _

theorem defineClass (d : ClassDecl) : Good (some scope) (Eval.defineClass scope d) := by
  have hbind (parent : Option Class) : Good (some scope) (make Store.fresh >>= fun id =>
      Eval.bindName scope d.name (.classObj (.ofDecl id parent d))) :=
    h.bind (h.lift h.fresh) fun _ => h.bindName _ _ _
  unfold Eval.defineClass
  split
  · exact h.bind (h.lift (h.lookupClass _)) hbind
  · exact h.bind (h.value _) hbind

theorem assertionMessage {run : Runner} (hrun : ∀ i ss, Good (some i) (run i ss))
    (message : Option Expr) : Good none (Eval.assertionMessage run scope message) := by
  cases message with
  | none => exact h.pure _
  | some e => exact h.bind (h.expr hrun e) fun _ => h.bind h.get fun _ => h.pure _

mutual

theorem stmt {run : Runner} (hrun : ∀ i ss, Good (some i) (run i ss)) (rounds : Nat) :
    ∀ (scope : ScopeId) (s : Stmt), Good (some scope) (Eval.stmt run rounds scope s)
  | scope, .expr _ e => by
      rw [Eval.stmt]
      exact h.bind (h.lift (h.expr hrun e)) fun _ => h.value _
  | scope, .bind _ name value => by
      rw [Eval.stmt]
      exact h.bind (h.lift (h.expr hrun value)) fun _ =>
        h.bind (h.bindName scope name _) fun _ => h.value _
  | scope, .assign _ name value => by
      rw [Eval.stmt]
      exact h.bind (h.lift (h.expr hrun value)) fun _ =>
        h.bind (h.bindName scope name _) fun _ => h.value _
  | scope, .assignField _ target field value => by
      rw [Eval.stmt]
      refine h.bind (h.lift (h.expr hrun target)) fun _ => ?_
      exact h.bind (h.lift (h.expr hrun value)) fun _ =>
        h.bind (h.lift (h.assignField _ field _)) fun _ => h.value _
  | scope, .define _ d => by
      rw [Eval.stmt]
      exact h.bind (h.define d) fun _ => h.value _
  | scope, .defineClass _ d => by
      rw [Eval.stmt]
      exact h.bind (h.defineClass d) fun _ => h.value _
  | scope, .choose _ condition yes no => by
      rw [Eval.stmt]
      refine h.bind (h.lift (h.expr hrun condition)) fun v => ?_
      split
      · exact block hrun rounds scope .null yes
      · exact optionalBlock hrun rounds scope no
  | scope, .forEach _ item source body _ => by
      rw [Eval.stmt]
      refine h.bind (h.lift (h.expr hrun source)) fun v => ?_
      split
      · exact h.forEach (block hrun rounds scope .null body) _
      · exact h.value _
  | scope, .loop _ condition body => by
      rw [Eval.stmt]
      exact h.loop (h.lift (h.expr hrun condition)) (block hrun rounds scope .null body) rounds
  | scope, .giveBack _ none => by
      rw [Eval.stmt]
      exact h.value _
  | scope, .giveBack _ (some value) => by
      rw [Eval.stmt]
      exact h.bind (h.lift (h.expr hrun value)) fun _ => h.value _
  | scope, .attempt _ body handler finish => by
      rw [Eval.stmt]
      refine h.finishing (h.recover (block hrun rounds scope .null body) fun x => ?_) ?_
      · exact h.lift (handle hrun rounds scope handler x)
      · exact optionalBlock hrun rounds scope finish
  | scope, .raise _ value => by
      rw [Eval.stmt]
      exact h.lift (h.bind (h.expr hrun value) fun _ => h.raiseValue _)
  | scope, .check _ condition message => by
      rw [Eval.stmt]
      refine h.bind (h.lift (h.expr hrun condition)) fun v => ?_
      split
      · exact h.value _
      · exact h.lift (h.bind (h.assertionMessage hrun message) fun _ => h.fail _)
  | scope, .importModule _ name _ => by
      rw [Eval.stmt]
      exact h.bind (h.lift (h.loadModule name hrun)) fun _ =>
        h.bind (h.bindName scope _ _) fun _ => h.value _
  | scope, .importNames _ name names => by
      rw [Eval.stmt]
      exact h.bind (h.lift (h.loadModule name hrun)) fun m =>
        h.bind (h.importNames m name names) fun _ => h.value _
  | scope, .share _ inner => by
      rw [Eval.stmt]
      exact h.andThen (stmt hrun rounds scope inner) fun _ => h.value _

theorem block {run : Runner} (hrun : ∀ i ss, Good (some i) (run i ss)) (rounds : Nat) :
    ∀ (scope : ScopeId) (last : Value) (ss : List Stmt),
    Good (some scope) (Eval.block run rounds scope last ss)
  | scope, last, [] => by
      rw [Eval.block]
      exact h.value _
  | scope, last, s :: ss => by
      rw [Eval.block]
      exact h.andThen (stmt hrun rounds scope s) fun v => block hrun rounds scope v ss

theorem optionalBlock {run : Runner} (hrun : ∀ i ss, Good (some i) (run i ss)) (rounds : Nat) :
    ∀ (scope : ScopeId) (ss : Option (List Stmt)),
    Good (some scope) (Eval.optionalBlock run rounds scope ss)
  | scope, none => by
      rw [Eval.optionalBlock]
      exact h.value _
  | scope, some ss => by
      rw [Eval.optionalBlock]
      exact block hrun rounds scope .null ss

/-- A handler binds names only in the scope that it makes. -/
theorem handle {run : Runner} (hrun : ∀ i ss, Good (some i) (run i ss)) (rounds : Nat) :
    ∀ (scope : ScopeId) (handler : Option Handler) (x : Exception),
    Good none (Eval.handle run rounds scope handler x)
  | scope, none, x => by
      rw [Eval.handle]
      exact h.throw _
  | scope, some ⟨kind, binder, body⟩, x => by
      rw [Eval.handle]
      split
      · refine h.inScope _ fun i => ?_
        cases binder with
        | none => exact block hrun rounds i .null body
        | some name => exact h.bind (h.bindName i name _) fun _ => block hrun rounds i .null body
      · exact h.throw _

end

/-! ## Programs and calls from outside -/

theorem runBlock : ∀ (fuel : Nat) (scope : ScopeId) (ss : List Stmt),
    Good (some scope) (Eval.runBlock fuel scope ss)
  | 0, _, _ => h.lift (h.throw _)
  | fuel + 1, scope, ss => h.block (runBlock fuel) fuel scope .null ss

theorem program (p : Program) (fuel : Nat) : Good (some Session.globals) (p.run fuel) :=
  h.body (h.runBlock fuel) p.stmts

theorem call (f : Closure) (args : List Value) (line fuel : Nat) :
    Good none (f.call args line fuel) :=
  h.callFunction (h.runBlock fuel) f args line

end Rules

end Eval

end ScriptLang
