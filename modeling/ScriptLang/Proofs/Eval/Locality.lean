import Mathlib
import ScriptLang.Proofs.Eval.Outcome
import ScriptLang.Proofs.Eval.Rules
import ScriptLang.Proofs.Store

/-!
# Names are bound where evaluation runs

Functions, methods, handlers and modules run in scopes that are made for them. So an
expression leaves the bindings of every scope there was before it, and a statement
those of every scope but the one it runs in. In that one it sets names, and a name
that is there already keeps its place.
-/

namespace ScriptLang

/-- What happens to the scopes of a store where names are bound in one of them at most: the
others keep their bindings, and that one keeps its names in their order, with new ones behind
them. Scopes may be added. -/
structure Store.KeepsScopes (own : Option ScopeId) (t t' : Store) : Prop where
  size_le : t.scopes.size ≤ t'.scopes.size
  others : ∀ i : ScopeId, i.index < t.scopes.size → own ≠ some i → t'.bindings i = t.bindings i
  names : ∀ i : ScopeId, own = some i → (t.bindings i).names <+: (t'.bindings i).names

namespace Store.KeepsScopes

variable {own : Option ScopeId} {t t' t'' : Store}

theorem of_scopes_eq (h : t'.scopes = t.scopes) : t.KeepsScopes own t' := by
  have hb (i : ScopeId) : t'.bindings i = t.bindings i := by
    rw [Store.bindings, h, Store.bindings]
  refine ⟨by rw [h], fun i _ _ => hb i, ?_⟩
  intro i _
  rw [hb i]

theorem trans (h : t.KeepsScopes own t') (h' : t'.KeepsScopes own t'') :
    t.KeepsScopes own t'' where
  size_le := h.size_le.trans h'.size_le
  others i hi ho := (h'.others i (hi.trans_le h.size_le) ho).trans (h.others i hi ho)
  names i ho := (h.names i ho).trans (h'.names i ho)

/-- A scope that is left alone may as well be one that names are bound in. -/
theorem widen (h : t.KeepsScopes none t') : t.KeepsScopes own t' := by
  have hothers (i : ScopeId) (hi : i.index < t.scopes.size) : t'.bindings i = t.bindings i :=
    h.others i hi (Option.some_ne_none i).symm
  refine ⟨h.size_le, fun i hi _ => hothers i hi, ?_⟩
  intro i _
  by_cases hi : i.index < t.scopes.size
  · rw [hothers i hi]
  · rw [bindings_of_le (Nat.le_of_not_lt hi)]
    exact List.nil_prefix

theorem set (t : Store) (i : ScopeId) (x : String) (v : Value) :
    t.KeepsScopes (some i) (t.set i x v) := by
  refine ⟨by rw [size_scopes_set], ?_, ?_⟩
  · intro j _ hj
    have hne : j ≠ i := by
      intro h
      exact hj (congrArg some h.symm)
    exact bindings_set_ne hne x v
  · rintro j hj
    cases hj
    exact names_prefix_set t i x v

/-- Names bound in a new scope are bound in none that there was. -/
theorem newScope {parent : Option ScopeId}
    (h : (t.newScope parent).2.KeepsScopes (some (t.newScope parent).1) t') :
    t.KeepsScopes none t' := by
  have hsize := h.size_le
  rw [size_scopes_newScope] at hsize
  refine ⟨by omega, ?_, ?_⟩
  · intro i hi _
    have hnew : some (t.newScope parent).1 ≠ some i := by
      intro heq
      cases heq
      exact Nat.lt_irrefl _ hi
    rw [h.others i (by rw [size_scopes_newScope]; omega) hnew, bindings_newScope]
  · intro i hi
    cases hi

end Store.KeepsScopes

namespace Eval

/-- However the computation ends, it has bound names in one scope at most of those there were. -/
def Binds (own : Option ScopeId) {α : Type} (x : Eval α) : Prop :=
  Leads (fun s s' => s.store.KeepsScopes own s'.store) x

namespace Binds

variable {own : Option ScopeId} {α β : Type}

theorem bind {x : Eval α} {k : α → Eval β} (hx : Binds own x) (hk : ∀ a, Binds own (k a)) :
    Binds own (x >>= k) :=
  Leads.bind .trans hx hk

theorem widen {i : ScopeId} {x : Eval α} (hx : Binds none x) : Binds (some i) x :=
  fun s => (hx s).widen

/-- A computation that leaves all scopes alone. -/
theorem of_scopes_eq {x : Eval α}
    (h : ∀ s, (outcome x s).2.store.scopes = s.store.scopes) : Binds own x :=
  fun s => .of_scopes_eq (h s)

theorem inScope (parent : Option ScopeId) {k : ScopeId → Eval α}
    (hk : ∀ i, Binds (some i) (k i)) : Binds none (make (·.newScope parent) >>= k) := by
  intro s
  rw [outcome_make_bind]
  have hs := hk (s.store.newScope parent).1 { s with store := (s.store.newScope parent).2 }
  exact .newScope hs

theorem print (values : List Value) : Binds none (Eval.print values) := by
  refine .bind (.of_scopes_eq fun _ => rfl) fun written => ?_
  split <;> exact .of_scopes_eq fun _ => rfl

theorem assignField (target : Value) (field : String) (v : Value) :
    Binds none (Eval.assignField target field v) := by
  refine .of_scopes_eq fun s => ?_
  unfold Eval.assignField
  split
  · rw [outcome_modify]
    dsimp only
    split
    · rename_i t ht
      unfold Store.setField? at ht
      split at ht
      · cases ht
        rfl
      · cases ht
    · rfl
  · rfl

theorem inCall (function : String) (line : Nat) {x : Eval α} (hx : Binds none x) :
    Binds none (Eval.inCall function line x) := by
  intro s
  rw [outcome_inCall]
  split
  · exact .of_scopes_eq rfl
  · rename_i callStack _
    exact hx { s with callStack }

/-- The top level of a module runs in a scope of its own. -/
theorem loadModule {run : Runner} (name : String)
    (hrun : ∀ i ss, Binds (some i) (run i ss)) : Binds none (Eval.loadModule run name) := by
  intro s
  rw [Eval.loadModule, outcome_get_bind]
  split
  · exact .of_scopes_eq rfl
  · split
    · exact .of_scopes_eq rfl
    · rename_i source loader _
      rw [outcome_modify_bind, outcome_make_bind, outcome_discard_bind, outcome_after,
        outcome_inFile]
      have htop := hrun (s.store.newScope none).1 source.program.stmts
        { s with loader, store := (s.store.newScope none).2, file := source.path }
      have hkept := Store.KeepsScopes.newScope htop
      dsimp only at hkept ⊢
      generalize outcome (run _ _) _ = after at hkept ⊢
      rcases after with ⟨_ | _, s'⟩ <;> exact hkept

end Binds

theorem binds_rules : Rules Binds where
  pure _ := .of_scopes_eq fun _ => rfl
  bind := .bind
  widen := .widen
  throw _ := .of_scopes_eq fun _ => rfl
  recover := Leads.recover .trans
  finishing := Leads.finishing .trans
  get := .of_scopes_eq fun _ => rfl
  bindName i name v s := .set s.store i name v
  inScope := .inScope
  newObject _ _ _ := .of_scopes_eq fun _ => rfl
  fresh := .of_scopes_eq fun _ => rfl
  raise _ := .of_scopes_eq fun _ => rfl
  fail _ := .of_scopes_eq fun _ => rfl
  warn _ := .of_scopes_eq fun _ => rfl
  print := .print
  assignField := .assignField
  inCall := .inCall
  loadModule := .loadModule

/-- However it ends, an expression leaves the bindings of every scope that there was, names and
values in their order, and a statement those of every scope but the one it runs in. There the
names keep their places, with new ones behind them. -/
theorem assignment_is_local (s : Session) (fuel rounds : Nat) (scope : ScopeId) :
    (∀ e, ∀ i : ScopeId, i.index < s.store.scopes.size →
      ((Eval.expr (runBlock fuel) scope e).run s).2.store.bindings i = s.store.bindings i) ∧
    (∀ st, ∀ i : ScopeId, i.index < s.store.scopes.size → i ≠ scope →
      ((Eval.stmt (runBlock fuel) rounds scope st).run s).2.store.bindings i =
        s.store.bindings i) ∧
    ∀ st, (s.store.bindings scope).names <+:
      (((Eval.stmt (runBlock fuel) rounds scope st).run s).2.store.bindings scope).names := by
  have hrun (i : ScopeId) (ss : List Stmt) : Binds (some i) (runBlock fuel i ss) :=
    binds_rules.runBlock fuel i ss
  have hstmt (st : Stmt) := binds_rules.stmt hrun rounds scope st s
  refine ⟨?_, ?_, ?_⟩
  · intro e i hi
    exact (binds_rules.expr hrun e s).others i hi (Option.some_ne_none i).symm
  · intro st i hi hne
    exact (hstmt st).others i hi fun h => hne (Option.some.inj h).symm
  · intro st
    exact (hstmt st).names scope rfl

/-- A function that assigns to a name which the global scope has too. -/
def shadowing : Program :=
  ⟨[.define default ⟨"f", ["x"], [.assign default "y" (.name default "x")], 1⟩,
    .assign default "y" (.number default 7.0)]⟩

/-- The call binds `y` in the scope of the call, and the global `y` stays. -/
theorem shadowing_is_local :
    let s := ((shadowing.run 9).run (Session.ofSettings {} (fun _ => .error .missing) {})).2
    let call := (Eval.expr (runBlock 9) Session.globals
      (.call default "f" [.number default 1.0])).run s
    let assign := (Eval.stmt (runBlock 9) 9 ⟨1⟩
      (.assign default "z" (.number default 2.0))).run call.2
    (call.2.store.bindings ⟨1⟩).names = ["x", "y"] ∧
      (s.store.bindings Session.globals).names = ["f", "y"] ∧
      call.2.store.bindings Session.globals = s.store.bindings Session.globals ∧
      assign.2.store.bindings Session.globals = s.store.bindings Session.globals ∧
      ["x", "y"] <+: (assign.2.store.bindings ⟨1⟩).names := by
  intro s call assign
  have hinner : (call.2.store.bindings ⟨1⟩).names = ["x", "y"] := by decide +kernel
  have hsize : 0 < s.store.scopes.size := by decide +kernel
  have hsize' : 0 < call.2.store.scopes.size := by decide +kernel
  obtain ⟨hexpr, -, -⟩ := assignment_is_local s 9 0 Session.globals
  obtain ⟨-, hothers, hnames⟩ := assignment_is_local call.2 9 9 ⟨1⟩
  have hcall := hexpr (.call default "f" [.number default 1.0]) Session.globals hsize
  have hassign := hothers (.assign default "z" (.number default 2.0)) Session.globals hsize'
    (by decide)
  refine ⟨hinner, by decide +kernel, hcall, hassign.trans hcall, ?_⟩
  rw [← hinner]
  exact hnames (.assign default "z" (.number default 2.0))

end Eval

end ScriptLang
