import Mathlib
import ScriptLang.Proofs.Eval.Locality
import ScriptLang.Proofs.Eval.Throughout

/-!
# What a name goes on to mean

A name changes its meaning in a scope only where it is bound there. Expressions and calls
bind no names outside the scopes that they make, so while they are evaluated every name goes
on to mean what it meant, from every scope that there was. A statement may bind some names
in the scope it runs in, and these stand in its text (`Stmt.bound`); all others mean after
it what they meant before (`meaning_stmt`), and so does a name from one program or call to
the next for as long as no program binds it (`meaning_turns`).
-/

namespace ScriptLang

namespace Store

variable {except : Option ScopeId} {t t' t'' : Store}

/-- All scopes are still there, and from each of them the name means what it meant. -/
def SameMeaning (name : String) (t t' : Store) : Prop :=
  ∀ i, t.HasScope i → t'.HasScope i ∧ t'.lookup? i name = t.lookup? i name

theorem SameMeaning.refl (name : String) (t : Store) : t.SameMeaning name t :=
  fun _ hi => ⟨hi, rfl⟩

theorem SameMeaning.trans {name : String} (h : t.SameMeaning name t')
    (h' : t'.SameMeaning name t'') : t.SameMeaning name t'' := by
  intro i hi
  obtain ⟨hi', heq⟩ := h i hi
  obtain ⟨hi'', heq'⟩ := h' i hi'
  exact ⟨hi'', heq'.trans heq⟩

/-! ## Scopes that stay as they are -/

/-- The scopes of a store are still there, in the same places, and all but one of them have the
bindings that they had. -/
structure Freezes (except : Option ScopeId) (t t' : Store) : Prop where
  size_le : t.scopes.size ≤ t'.scopes.size
  places : ∀ i, t.HasScope i → t'.parent? i = t.parent? i
  others : ∀ i, t.HasScope i → i ∉ except → t'.bindings i = t.bindings i

/-- The scope is still there, and the name has the value in it that it had. -/
def KeepsName (i : ScopeId) (name : String) (t t' : Store) : Prop :=
  t.HasScope i → t'.HasScope i ∧ t'.local? i name = t.local? i name

theorem KeepsName.trans {i : ScopeId} {name : String} (h : t.KeepsName i name t')
    (h' : t'.KeepsName i name t'') : t.KeepsName i name t'' := by
  intro hi
  obtain ⟨hi', heq⟩ := h hi
  obtain ⟨hi'', heq'⟩ := h' hi'
  exact ⟨hi'', heq'.trans heq⟩

theorem KeepsName.set {i : ScopeId} {name other : String} (hne : name ≠ other) (v : Value)
    (t : Store) : t.KeepsName i name (t.set i other v) := by
  intro hi
  constructor
  · rw [HasScope, size_scopes_set]
    exact hi
  · rw [local?, bindings_set_self hi, Bindings.get?_set_ne hne, local?]

namespace Freezes

theorem refl (t : Store) : t.Freezes except t := ⟨le_rfl, fun _ _ => rfl, fun _ _ _ => rfl⟩

theorem of_scopes_eq (h : t.Freezes except t') (heq : t''.scopes = t'.scopes) :
    t.Freezes except t'' := by
  refine ⟨?_, fun i hi => ?_, fun i hi hne => ?_⟩
  · rw [heq]
    exact h.size_le
  · rw [← h.places i hi, parent?, heq, parent?]
  · rw [← h.others i hi hne, bindings, heq, bindings]

theorem newScope (h : t.Freezes except t') (parent : Option ScopeId) :
    t.Freezes except (t'.newScope parent).2 := by
  have hsize := h.size_le
  refine ⟨by rw [size_scopes_newScope]; omega, fun i hi => ?_, fun i hi hne => ?_⟩
  · have hne : i.index ≠ t'.scopes.size := (hi.trans_le hsize).ne
    rw [parent?_newScope, if_neg hne, h.places i hi]
  · rw [bindings_newScope, h.others i hi hne]

theorem set (h : t.Freezes except t') {i : ScopeId} (hi : i ∈ except ∨ t.scopes.size ≤ i.index)
    (name : String) (v : Value) : t.Freezes except (t'.set i name v) := by
  refine ⟨by rw [size_scopes_set]; exact h.size_le, fun j hj => ?_, fun j hj hne => ?_⟩
  · rw [parent?_set, h.places j hj]
  · have hij : j ≠ i := by
      rintro rfl
      exact hi.elim hne fun hle => absurd hj (Nat.not_lt.mpr hle)
    rw [bindings_set_ne hij, h.others j hj hne]

/-- A name that has its value still in the one scope that may have changed means what it
meant. -/
theorem sameMeaning (h : t.Freezes except t') (ht : t.Sound) (ht' : t'.Sound) {name : String}
    (hkept : ∀ i ∈ except, t.KeepsName i name t') : t.SameMeaning name t' := by
  have hlocal (i : ScopeId) (hi : t.HasScope i) : t'.local? i name = t.local? i name := by
    by_cases hmem : i ∈ except
    · exact (hkept i hmem hi).2
    · rw [local?, h.others i hi hmem, local?]
  intro i hi
  refine ⟨hi.trans_le h.size_le, ?_⟩
  -- the scopes around a scope are older
  induction hn : i.index using Nat.strong_induction_on generalizing i with
  | _ n ih =>
      rw [ht.lookup?_eq, ht'.lookup?_eq, hlocal i hi, h.places i hi]
      cases hp : t.parent? i with
      | none => rfl
      | some p =>
          have hlt := ht.parents i p hp
          rw [Option.bind_some, Option.bind_some, ih p.index (hn ▸ hlt) p (hlt.trans hi) rfl]

end Freezes

end Store

namespace Discipline

/-- The scopes of a first session stay as they are, but for one, and names are bound in that one
and in newer ones only. -/
def frozen (first : Session) (except : Option ScopeId) : Discipline where
  Pre own s := first.store.Freezes except s.store ∧
    ∀ i ∈ own, i ∈ except ∨ first.store.scopes.size ≤ i.index
  Rel _ _ _ := True
  Thrown _ _ _ := True

theorem frozen_lawful (first : Session) (except : Option ScopeId) (names : Set String) :
    (frozen first except).Lawful names where
  refl _ := trivial
  trans _ _ := trivial
  narrow hs := ⟨hs.1, fun _ hi => (Option.not_mem_none _ hi).elim⟩
  widen hs hstep := ⟨trivial, hstep.2.1, hs.2⟩
  thrown_trans _ _ := trivial
  thrown_kept _ _ _ := trivial
  apart hs hapart := ⟨trivial, hs.1.of_scopes_eq hapart.scopes, hs.2⟩
  set name v hs := ⟨trivial, hs.1.set (hs.2 _ rfl) name v, hs.2⟩
  raise hs _ := ⟨⟨trivial, hs.1.of_scopes_eq rfl, hs.2⟩, trivial⟩
  report _ hs := ⟨⟨trivial, hs.1.of_scopes_eq rfl, hs.2⟩, trivial⟩
  scope {s} parent hs := by
    refine ⟨⟨hs.1.newScope parent, ?_⟩,
      fun s' hstep => ⟨⟨trivial, hstep.2.1, hs.2⟩, fun _ _ => trivial⟩⟩
    rintro _ ⟨⟩
    exact .inr hs.1.size_le
  call hs _ _ := ⟨hs, fun s' hstep => ⟨⟨trivial, hstep.2⟩, fun _ _ => trivial⟩⟩
  module {s name path} hs _ _ _ _ := by
    refine ⟨⟨⟨hs.1.newScope none, ?_⟩,
      fun s' hstep => ⟨⟨trivial, hstep.2.1, hs.2⟩, fun _ _ => trivial⟩⟩,
      fun s' hstep => ⟨trivial, hstep.2.1, hs.2⟩⟩
    rintro _ ⟨⟩
    exact .inr hs.1.size_le

/-- A session is frozen when it begins, whatever scope is excepted. -/
theorem frozen_ready {s : Session} (hs : s.Sound) (own : Option ScopeId) :
    (frozen s own).Ready Set.univ own s :=
  ⟨hs, s.knows_univ, .refl _, fun _ hi => .inl hi⟩

end Discipline

/-! ## Names that a statement binds -/

mutual

/-- The names that a statement may bind in the scope it runs in. -/
def Stmt.bound : Stmt → List String
  | .bind _ name _ => [name]
  | .assign _ name _ => [name]
  | .define _ d => [d.name]
  | .defineClass _ d => [d.name]
  | .choose _ _ yes no => blockBound yes ++ optionalBound no
  | .forEach _ item _ body _ => item :: blockBound body
  | .loop _ _ body => blockBound body
  | .attempt _ body _ finish => blockBound body ++ optionalBound finish
  | .importModule _ name rename => [rename.getD (Loader.bindingName name)]
  | .importNames _ _ names => names
  | .share _ inner => inner.bound
  | _ => []

def blockBound : List Stmt → List String
  | [] => []
  | s :: rest => s.bound ++ blockBound rest

def optionalBound : Option (List Stmt) → List String
  | none => []
  | some stmts => blockBound stmts

end

namespace Eval

/-- However the computation ends, the name has the value in the scope that it had before. -/
def Spares (i : ScopeId) (name : String) {α : Type} (x : Eval α) : Prop :=
  Leads (fun s s' => s.store.KeepsName i name s'.store) x

namespace Spares

variable {i : ScopeId} {name : String} {α β : Type}

theorem bind {x : Eval α} {k : α → Eval β} (hx : Spares i name x)
    (hk : ∀ a, Spares i name (k a)) : Spares i name (x >>= k) :=
  Leads.bind (fun h h' => h.trans h') hx hk

/-- A computation that binds no names in the scopes that there are. -/
theorem of_binds {x : Eval α} (hx : Binds none x) : Spares i name x := by
  intro s hi
  refine ⟨hi.trans_le (hx s).size_le, ?_⟩
  rw [Store.local?, Store.local?, (hx s).others i hi (Option.some_ne_none i).symm]

theorem recover {x : Eval α} {k : Exception → Eval α} (hx : Spares i name x)
    (hk : ∀ e, Spares i name (k e)) : Spares i name (x.catchThrown k) :=
  Leads.recover (fun h h' => h.trans h') hx hk

theorem finishing {x finish : Eval Completion} (hx : Spares i name x)
    (hk : Spares i name finish) : Spares i name (x.finishing finish) :=
  Leads.finishing (fun h h' => h.trans h') hx hk

theorem pure (a : α) : Spares i name (Pure.pure a : Eval α) := of_binds (binds_rules.pure a)

/-- Binding another name. -/
theorem bindName {other : String} (hne : name ≠ other) (v : Value) :
    Spares i name (Eval.bindName i other v) :=
  fun s => .set hne v s.store

theorem andThen {x : Eval Completion} {k : Value → Eval Completion} (hx : Spares i name x)
    (hk : ∀ v, Spares i name (k v)) : Spares i name (Eval.andThen x k) := by
  refine .bind hx fun c => ?_
  cases c with
  | next v => exact hk v
  | returned v => exact .pure _

theorem forEach {item : String} (hne : name ≠ item) {x : Eval Completion}
    (hx : Spares i name x) (vs : List Value) : Spares i name (Eval.forEach i item x vs) := by
  induction vs with
  | nil =>
      rw [Eval.forEach]
      exact .pure _
  | cons v vs ih =>
      rw [Eval.forEach]
      exact .bind (.bindName hne v) fun _ => .andThen hx fun _ => ih

theorem loop {condition : Eval Value} {x : Eval Completion} (hc : Spares i name condition)
    (hx : Spares i name x) (rounds : Nat) : Spares i name (Eval.loop condition x rounds) := by
  induction rounds with
  | zero =>
      rw [Eval.loop]
      exact .of_binds (binds_rules.throw _)
  | succ rounds ih =>
      rw [Eval.loop]
      refine .bind hc fun v => ?_
      split
      · exact .andThen hx fun _ => ih
      · exact .pure _

theorem importNames (m : Module) (written : String) {names : List String} (hnot : name ∉ names) :
    Spares i name (Eval.importNames i m written names) := by
  induction names with
  | nil =>
      rw [Eval.importNames]
      exact .pure _
  | cons other names ih =>
      obtain ⟨hne, hrest⟩ := not_or.mp (mt List.mem_cons.mpr hnot)
      rw [Eval.importNames]
      refine .bind (.of_binds (binds_rules.lookup other)) fun found => ?_
      dsimp only
      split
      · exact .bind (.bindName hne _) fun _ => ih hrest
      · exact .bind (.of_binds (binds_rules.warn _)) fun _ => ih hrest

end Spares

mutual

/-- A statement changes only the names that it binds. -/
theorem spares_stmt {run : Runner} (hrun : ∀ i ss, Binds (some i) (run i ss)) (rounds : Nat)
    {scope : ScopeId} {name : String} : ∀ st : Stmt, name ∉ st.bound →
    Spares scope name (stmt run rounds scope st)
  | .expr _ e, _ => by
      rw [stmt]
      exact .bind (.of_binds (binds_rules.expr hrun e)) fun _ => .pure _
  | .bind _ other value, hnot => by
      rw [stmt]
      refine .bind (.of_binds (binds_rules.expr hrun value)) fun _ => ?_
      exact .bind (.bindName (by simpa [Stmt.bound] using hnot) _) fun _ => .pure _
  | .assign _ other value, hnot => by
      rw [stmt]
      refine .bind (.of_binds (binds_rules.expr hrun value)) fun _ => ?_
      exact .bind (.bindName (by simpa [Stmt.bound] using hnot) _) fun _ => .pure _
  | .assignField _ target field value, _ => by
      rw [stmt]
      refine .bind (.of_binds (binds_rules.expr hrun target)) fun _ => ?_
      refine .bind (.of_binds (binds_rules.expr hrun value)) fun _ => ?_
      exact .bind (.of_binds (binds_rules.assignField _ field _)) fun _ => .pure _
  | .define _ d, hnot => by
      rw [stmt]
      refine .bind (.bind (.of_binds binds_rules.fresh) fun _ => ?_) fun _ => .pure _
      exact .bindName (by simpa [Stmt.bound] using hnot) _
  | .defineClass _ d, hnot => by
      rw [stmt]
      have hne : name ≠ d.name := by simpa [Stmt.bound] using hnot
      have hbind (parent : Option Class) : Spares scope name (make Store.fresh >>= fun id =>
          Eval.bindName scope d.name (.classObj (.ofDecl id parent d))) :=
        .bind (.of_binds binds_rules.fresh) fun _ => .bindName hne _
      refine .bind ?_ fun _ => .pure _
      unfold Eval.defineClass
      split
      · exact .bind (.of_binds (binds_rules.lookupClass _)) hbind
      · exact .bind (.pure _) hbind
  | .choose _ condition yes no, hnot => by
      rw [Stmt.bound, List.mem_append, not_or] at hnot
      rw [stmt]
      refine .bind (.of_binds (binds_rules.expr hrun condition)) fun v => ?_
      split
      · exact spares_block hrun rounds .null yes hnot.1
      · exact spares_optionalBlock hrun rounds no hnot.2
  | .forEach _ item source body _, hnot => by
      rw [Stmt.bound, List.mem_cons, not_or] at hnot
      rw [stmt]
      refine .bind (.of_binds (binds_rules.expr hrun source)) fun v => ?_
      split
      · exact .forEach hnot.1 (spares_block hrun rounds .null body hnot.2) _
      · exact .pure _
  | .loop _ condition body, hnot => by
      rw [Stmt.bound] at hnot
      rw [stmt]
      exact .loop (.of_binds (binds_rules.expr hrun condition))
        (spares_block hrun rounds .null body hnot) rounds
  | .giveBack _ none, _ => by
      rw [stmt]
      exact .pure _
  | .giveBack _ (some value), _ => by
      rw [stmt]
      exact .bind (.of_binds (binds_rules.expr hrun value)) fun _ => .pure _
  | .attempt _ body handler finish, hnot => by
      rw [Stmt.bound, List.mem_append, not_or] at hnot
      rw [stmt]
      -- the handler has a scope of its own, so what it binds does not count
      refine .finishing (.recover ?_ fun x => ?_) ?_
      · exact spares_block hrun rounds .null body hnot.1
      · exact .of_binds (binds_rules.handle hrun rounds scope handler x)
      · exact spares_optionalBlock hrun rounds finish hnot.2
  | .raise _ value, _ => by
      rw [stmt]
      exact .of_binds (binds_rules.bind (binds_rules.expr hrun value) fun _ =>
        binds_rules.raiseValue _)
  | .check _ condition message, _ => by
      rw [stmt]
      refine .bind (.of_binds (binds_rules.expr hrun condition)) fun v => ?_
      split
      · exact .pure _
      · exact .of_binds (binds_rules.bind (binds_rules.assertionMessage hrun message) fun _ =>
          binds_rules.fail _)
  | .importModule _ source rename, hnot => by
      rw [stmt]
      refine .bind (.of_binds (binds_rules.loadModule source hrun)) fun _ => ?_
      exact .bind (.bindName (by simpa [Stmt.bound] using hnot) _) fun _ => .pure _
  | .importNames _ source names, hnot => by
      rw [stmt]
      refine .bind (.of_binds (binds_rules.loadModule source hrun)) fun m => ?_
      exact .bind (.importNames m source hnot) fun _ => .pure _
  | .share _ inner, hnot => by
      rw [stmt]
      exact .andThen (spares_stmt hrun rounds inner hnot) fun _ => .pure _

theorem spares_block {run : Runner} (hrun : ∀ i ss, Binds (some i) (run i ss)) (rounds : Nat)
    {scope : ScopeId} {name : String} : ∀ (last : Value) (ss : List Stmt), name ∉ blockBound ss →
    Spares scope name (block run rounds scope last ss)
  | last, [], _ => by
      rw [block]
      exact .pure _
  | last, st :: ss, hnot => by
      rw [blockBound, List.mem_append, not_or] at hnot
      rw [block]
      refine .andThen (spares_stmt hrun rounds st hnot.1) fun v => ?_
      exact spares_block hrun rounds v ss hnot.2

theorem spares_optionalBlock {run : Runner} (hrun : ∀ i ss, Binds (some i) (run i ss))
    (rounds : Nat) {scope : ScopeId} {name : String} :
    ∀ ss : Option (List Stmt), name ∉ optionalBound ss →
    Spares scope name (optionalBlock run rounds scope ss)
  | none, _ => by
      rw [optionalBlock]
      exact .pure _
  | some ss, hnot => by
      rw [optionalBlock]
      exact spares_block hrun rounds .null ss hnot

end

/-! ## Whole evaluations -/

/-- All along an expression or a call from outside, and at its end, all names mean what they
meant, and what follows from that holds. -/
theorem meaning_expr {s : Session} (hs : s.Sound) (ok : Session → Prop)
    (hok : ∀ s', s'.Sound → (∀ name, s.store.SameMeaning name s'.store) → ok s') {α : Type}
    {c : Runner → Eval α} (hc : Evaluation Set.univ s none c) (fuel : Nat) :
    Throughout (fun _ _ => ok) fuel c s ∧ ok (outcome (c (runBlock fuel)) s).2 := by
  have hready {own : Option ScopeId} {s' : Session}
      (h : (Discipline.frozen s none).Ready Set.univ own s') : ok s' := by
    refine hok s' h.sound fun name => h.pre.1.sameMeaning hs.store h.sound.store ?_
    exact fun _ hi => (Option.not_mem_none _ hi).elim
  obtain ⟨⟨Q, hend⟩, hthroughout⟩ := (Discipline.frozen_lawful s none Set.univ).evaluation _
    (fun _ _ _ h _ => hready h) (Discipline.frozen_ready hs none) hc fuel
  exact ⟨hthroughout, hready hend.ready⟩

/-- An evaluation that spares a name in the scope it runs in leaves its meaning everywhere. -/
theorem Evaluation.sameMeaning {s : Session} (hs : s.Sound) {α : Type} {c : Runner → Eval α}
    {scope : ScopeId} (hc : Evaluation Set.univ s (some scope) c) {fuel : Nat} {name : String}
    (hspares : Spares scope name (c (runBlock fuel))) :
    (outcome (c (runBlock fuel)) s).2.Sound ∧
      s.store.SameMeaning name (outcome (c (runBlock fuel)) s).2.store := by
  obtain ⟨Q, hend⟩ := (Discipline.frozen_lawful s (some scope) Set.univ).ends
    (Discipline.frozen_ready hs _) hc fuel
  refine ⟨hend.ready.sound, hend.ready.pre.1.sameMeaning hs.store hend.ready.sound.store ?_⟩
  rintro _ ⟨⟩
  exact hspares s

theorem meaning_stmt {s : Session} (hs : s.Sound) {scope : ScopeId} (hi : s.store.HasScope scope)
    {st : Stmt} {name : String} (hnot : name ∉ st.bound) (rounds fuel : Nat) :
    s.store.SameMeaning name (outcome (stmt (runBlock fuel) rounds scope st) s).2.store := by
  have hc : Evaluation Set.univ s (some scope) fun run => stmt run rounds scope st :=
    .stmt rounds st hi fun _ _ => Set.mem_univ _
  exact (hc.sameMeaning hs (spares_stmt (binds_rules.runBlock fuel) rounds st hnot)).2

theorem spares_program {p : Program} {name : String} (hnot : name ∉ blockBound p.stmts)
    (fuel : Nat) : Spares Session.globals name (body (runBlock fuel) Session.globals p.stmts) := by
  refine .bind ?_ fun _ => .pure _
  cases fuel with
  | zero => exact .of_binds (binds_rules.throw _)
  | succ fuel => exact spares_block (binds_rules.runBlock fuel) fuel .null p.stmts hnot

end Eval

/-- A program runs that does not bind the name at its top level, a function is called from
outside, or the running file gets another name and the files change. -/
inductive Session.SparingTurn (name : String) (s : Session) : Session → Prop where
  | run (p : Program) (fuel : Nat) : name ∉ blockBound p.stmts →
    SparingTurn name s ((p.run fuel).run s).2
  | call (f : Closure) (args : List Value) (line fuel : Nat) :
    (Value.function f).Known Set.univ s.store → (∀ v ∈ args, v.Known Set.univ s.store) →
    SparingTurn name s ((f.call args line fuel).run s).2
  | outside (file : String) (files : Files) : SparingTurn name s { s with file, files }

namespace Eval

theorem meaning_turn {s s' : Session} (hs : s.Sound) {name : String}
    (h : s.SparingTurn name s') : s'.Sound ∧ s.store.SameMeaning name s'.store := by
  cases h with
  | run p fuel hnot =>
      have hc : Evaluation Set.univ s (some Session.globals)
          fun run => body run Session.globals p.stmts := .program p fun _ _ => Set.mem_univ _
      exact hc.sameMeaning hs (spares_program hnot fuel)
  | call f args line fuel hf hargs =>
      have hc : Evaluation Set.univ s none fun run => callFunction run f args line :=
        .call f args line hf hargs
      exact (meaning_expr hs (fun s' => s'.Sound ∧ s.store.SameMeaning name s'.store)
        (fun _ hsound hmeaning => ⟨hsound, hmeaning name⟩) hc fuel).2
  | outside file files => exact ⟨⟨hs.store, hs.globals, hs.modules⟩, .refl _ _⟩

/-- Between programs and calls a name keeps its meaning for as long as no program binds it. -/
theorem meaning_turns {s s' : Session} (hs : s.Sound) {name : String}
    (h : Relation.ReflTransGen (Session.SparingTurn name) s s') :
    s'.Sound ∧ s.store.SameMeaning name s'.store := by
  induction h with
  | refl => exact ⟨hs, .refl _ _⟩
  | tail _ hturn ih =>
      obtain ⟨hsound, hmeaning⟩ := meaning_turn ih.1 hturn
      exact ⟨hsound, ih.2.trans hmeaning⟩

end Eval

end ScriptLang
