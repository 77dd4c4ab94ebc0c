import Mathlib
import ScriptLang.Proofs.Eval.Traceback

/-!
# Classes along a line of parents

Each class of a line extends the one before it. A class is flat: it has the fields of the
whole line and one method for each name that the line declares. What the flat class of
the last declaration holds is said here by the declarations alone. Its methods are the
declared ones, from the first class to the last, set under their names one after another
(`Lineage.table_methods`), so a name has the place of its first declaration and the
method of its last.
-/

namespace ScriptLang

namespace Class

/-- The class looks for a method under its name. -/
theorem method?_eq_get? (c : Class) (name : String) :
    c.method? name = (table c.methods).get? name := by
  rw [method?]
  induction c.methods with
  | nil => rfl
  | cons d rest ih =>
      rw [table_cons, Bindings.get?_cons, ← ih, List.find?_cons]
      by_cases h : name = d.name
      · rw [if_pos h, beq_iff_eq.mpr h.symm]
      · rw [if_neg h, beq_false_of_ne (Ne.symm h)]

/-- Methods that override one after another are set under their names. -/
theorem table_foldl_override (own : List FunctionDecl) : ∀ inherited : List FunctionDecl,
    table (own.foldl override inherited) =
      (table own).foldl (fun b (k, m) => b.set k m) (table inherited) := by
  induction own with
  | nil =>
      intro inherited
      rfl
  | cons m own ih =>
      intro inherited
      rw [List.foldl_cons, ih, table_override, table_cons, List.foldl_cons]

theorem table_append (before own : List FunctionDecl) :
    table (before ++ own) = table before ++ table own :=
  List.map_append

end Class

namespace Eval

variable {s s' : Session} {scope : ScopeId} {d : ClassDecl} {c : Class}
  {ds : List ClassDecl}

/-! ## One declaration -/

/-- The class that the declaration extends, if its name means one. -/
def parentOf? (t : Store) (scope : ScopeId) (d : ClassDecl) : Option Class :=
  d.parent.bind (classOf? t scope)

/-- The class that the declaration makes. -/
def classMade (t : Store) (scope : ScopeId) (d : ClassDecl) : Class :=
  .ofDecl t.made (parentOf? t scope d) d

theorem parentOf?_eq_some {t : Store} {b : Class} {name : String} (hd : d.parent = some name)
    (hb : t.lookup? scope name = some (.classObj b)) : parentOf? t scope d = some b := by
  rw [parentOf?, hd, Option.bind_some, classOf?, hb]

/-- A declaration binds its name to a new class. -/
theorem outcome_defineClass (scope : ScopeId) (d : ClassDecl) (s : Session) :
    outcome (defineClass scope d) s = (.ok (),
      { s with
        store := s.store.fresh.2.set scope d.name (.classObj (classMade s.store scope d)) }) := by
  unfold defineClass classMade parentOf?
  cases d.parent with
  | none => rfl
  | some name =>
      show outcome (lookupClass scope name >>= _) s = _
      rw [outcome_bind, outcome_lookupClass]
      rfl

theorem outcome_stmt_defineClass (run : Runner) (rounds : Nat) (p : Place) (scope : ScopeId)
    (d : ClassDecl) (s : Session) :
    outcome (stmt run rounds scope (.defineClass p d)) s =
      (.ok (.next .null), (outcome (defineClass scope d) s).2) := by
  rw [stmt, outcome_bind, outcome_defineClass]
  rfl

/-- The declaration has been carried out in a scope, and there its name means the class. -/
structure Declares (s : Session) (scope : ScopeId) (d : ClassDecl) (s' : Session) (c : Class) :
    Prop where
  done : ∃ run rounds p,
    outcome (stmt run rounds scope (.defineClass p d)) s = (.ok (.next .null), s')
  seen : s'.store.lookup? scope d.name = some (.classObj c)

theorem lookup?_outcome_defineClass (hi : s.store.HasScope scope) (d : ClassDecl) :
    (outcome (defineClass scope d) s).2.store.lookup? scope d.name =
      some (.classObj (classMade s.store scope d)) := by
  have hi : s.store.fresh.2.HasScope scope := hi
  rw [outcome_defineClass, Store.lookup?, Store.lookupWithin, Store.local?,
    Store.bindings_set_self hi, Bindings.get?_set_self]

/-- A name is not seen from a place without a scope. -/
theorem hasScope_of_lookup? {t : Store} {name : String} {v : Value}
    (h : t.lookup? scope name = some v) : t.HasScope scope := by
  by_contra hnot
  have hnone : t.scopes[scope.index]? = none := Array.getElem?_eq_none (Nat.le_of_not_lt hnot)
  rw [Store.lookup?, Store.lookupWithin, Store.local?, Store.bindings, Store.parent?, hnone] at h
  cases h

theorem Declares.eq_classMade (h : Declares s scope d s' c) : c = classMade s.store scope d := by
  rcases h with ⟨⟨run, rounds, p, hdone⟩, hseen⟩
  rw [outcome_stmt_defineClass, Prod.mk.injEq] at hdone
  rw [← hdone.2] at hseen
  have hi : s.store.HasScope scope := by
    have hafter := hasScope_of_lookup? hseen
    rw [outcome_defineClass, Store.HasScope, Store.size_scopes_set] at hafter
    exact hafter
  rw [lookup?_outcome_defineClass hi, Option.some.injEq, Value.classObj.injEq] at hseen
  exact hseen.symm

/-! ## The line -/

/-- The declarations, each carried out in a session and a scope where the name of its parent means
the class of the one before it, come to this class. The first one sees no class to extend. -/
inductive Lineage : List ClassDecl → Class → Prop where
  | root {s s' : Session} {scope : ScopeId} {d : ClassDecl} {c : Class} :
    (∀ name ∈ d.parent, classOf? s.store scope name = none) → Declares s scope d s' c →
    Lineage [d] c
  | extend {ds : List ClassDecl} {b c : Class} {s s' : Session} {scope : ScopeId}
      {d : ClassDecl} {name : String} :
    Lineage ds b → d.parent = some name → s.store.lookup? scope name = some (.classObj b) →
    Declares s scope d s' c → Lineage (ds ++ [d]) c

namespace Lineage

theorem fields (h : Lineage ds c) : c.fields = ds.flatMap (·.fields) := by
  induction h with
  | root hnone hc =>
      have hparent := Option.bind_eq_none_iff.mpr hnone
      rw [hc.eq_classMade, classMade, parentOf?, hparent, List.flatMap_singleton]
      rfl
  | extend _ hd hb hc ih =>
      rw [hc.eq_classMade, classMade, parentOf?_eq_some hd hb, List.flatMap_append, ← ih,
        List.flatMap_singleton]
      rfl

/-- The methods of the flat class are those that the line declares, set under their names. -/
theorem table_methods (h : Lineage ds c) :
    Class.table c.methods = Bindings.ofPairs (Class.table (ds.flatMap (·.methods))) := by
  induction h with
  | root hnone hc =>
      have hparent := Option.bind_eq_none_iff.mpr hnone
      rw [hc.eq_classMade, classMade, parentOf?, hparent, List.flatMap_singleton]
      exact Class.table_foldl_override _ []
  | extend _ hd hb hc ih =>
      rw [Bindings.ofPairs] at ih
      rw [hc.eq_classMade, classMade, parentOf?_eq_some hd hb, List.flatMap_append,
        List.flatMap_singleton, Class.table_append, Bindings.ofPairs, List.foldl_append, ← ih]
      exact Class.table_foldl_override _ _

theorem names (h : Lineage ds c) :
    c.methods.map (·.name) = ((ds.flatMap (·.methods)).map (·.name)).eraseDups := by
  rw [← Class.names_table, h.table_methods, Bindings.names_ofPairs, Class.table, List.map_map]
  rfl

theorem nodup_names (h : Lineage ds c) : (c.methods.map (·.name)).Nodup := by
  rw [← Class.names_table, h.table_methods]
  exact Bindings.nodup_names_ofPairs _

/-- A method is the last one of its name, in the last class that has one. -/
theorem method?_eq (h : Lineage ds c) (name : String) :
    c.method? name =
      ds.reverse.findSome? fun d => d.methods.reverse.find? fun m => m.name == name := by
  have hlast (methods : List FunctionDecl) :
      (Class.table methods).get? name = methods.find? fun m => m.name == name :=
    (Class.method?_eq_get? ⟨0, "", none, [], methods⟩ name).symm
  rw [Class.method?_eq_get?, h.table_methods, Bindings.get?_ofPairs, Class.table,
    ← List.map_reverse, ← Class.table, hlast, List.reverse_flatMap, List.find?_flatMap]
  rfl

theorem length_methods (h : Lineage ds c) :
    c.methods.length = ((ds.flatMap (·.methods)).map (·.name)).toFinset.card := by
  have hset : ((ds.flatMap (·.methods)).map (·.name)).toFinset =
      (c.methods.map (·.name)).toFinset := by
    ext name
    rw [List.mem_toFinset, List.mem_toFinset, h.names, List.mem_eraseDups]
  rw [hset, List.toFinset_card_of_nodup h.nodup_names, List.length_map]

end Lineage

/-- Every declaration makes a class, and the class at the end of a line is flat: it has the declared
fields of the line one after another, and a method for each declared name, in the order in which the
names come up first. The method of a name is its last definition in the last class of the line that
defines it. -/
theorem lineage_flattened :
    (∀ (run : Runner) (rounds : Nat) (p : Place) (s : Session) (scope : ScopeId) (d : ClassDecl),
      s.store.HasScope scope → ∃ s' c,
        outcome (stmt run rounds scope (.defineClass p d)) s = (.ok (.next .null), s') ∧
        Declares s scope d s' c) ∧
    ∀ (ds : List ClassDecl) (c : Class), Lineage ds c →
      c.fields = ds.flatMap (·.fields) ∧
      (c.methods.map (·.name)).Nodup ∧
      c.methods.map (·.name) = ((ds.flatMap (·.methods)).map (·.name)).eraseDups ∧
      (∀ name, c.method? name =
        ds.reverse.findSome? fun d => d.methods.reverse.find? fun m => m.name == name) ∧
      c.methods.length = ((ds.flatMap (·.methods)).map (·.name)).toFinset.card := by
  constructor
  · intro run rounds p s scope d hi
    have hdone := outcome_stmt_defineClass run rounds p scope d s
    exact ⟨_, _, hdone, ⟨_, _, _, hdone⟩, lookup?_outcome_defineClass hi d⟩
  · intro ds c h
    exact ⟨h.fields, h.nodup_names, h.names, h.method?_eq, h.length_methods⟩

/-- A method without parameters and statements, told by its line. -/
def plainMethod (name : String) (line : Nat) : FunctionDecl := ⟨name, [], [], line⟩

/-- Three classes in a line. A name is declared twice in one of them, and one is overridden
again. -/
def animals : List ClassDecl :=
  [⟨"Animal", none, ["name"],
      [plainMethod "speak" 1, plainMethod "move" 2, plainMethod "speak" 3]⟩,
    ⟨"Dog", some "Animal", ["name", "age"], [plainMethod "fetch" 4, plainMethod "speak" 5]⟩,
    ⟨"Puppy", some "Dog", [], [plainMethod "play" 6, plainMethod "speak" 7]⟩]

theorem animals_flattened : ∃ c, Lineage animals c ∧
    c.fields = ["name", "name", "age"] ∧
    c.methods.map (·.name) = ["speak", "move", "fetch", "play"] ∧
    (c.method? "speak").map (·.line) = some 7 ∧ (c.method? "move").map (·.line) = some 2 ∧
    c.method? "bark" = none ∧ c.methods.length = 4 := by
  let s : Session := .ofSettings {} (fun _ => .error .missing) {}
  have hs : s.store.HasScope Session.globals := Nat.zero_lt_one
  obtain ⟨hmade, hflat⟩ := lineage_flattened
  obtain ⟨s₁, animal, -, h₁⟩ := hmade (runBlock 9) 9 default s Session.globals animals[0] hs
  obtain ⟨s₂, dog, -, h₂⟩ :=
    hmade (runBlock 9) 9 default s₁ Session.globals animals[1] (hasScope_of_lookup? h₁.seen)
  obtain ⟨s₃, puppy, -, h₃⟩ :=
    hmade (runBlock 9) 9 default s₂ Session.globals animals[2] (hasScope_of_lookup? h₂.seen)
  have hroot : Lineage [animals[0]] animal := .root (by rintro name (_ | _)) h₁
  have hline : Lineage animals puppy := (hroot.extend rfl h₁.seen h₂).extend rfl h₂.seen h₃
  obtain ⟨hfields, -, hnames, hmethod, hlength⟩ := hflat animals puppy hline
  refine ⟨puppy, hline, hfields, hnames.trans (by decide), ?_, ?_, ?_, hlength.trans (by decide)⟩
  · rw [hmethod]
    rfl
  · rw [hmethod]
    rfl
  · rw [hmethod]
    rfl

end Eval

end ScriptLang
