import Mathlib
import ScriptLang.Module.Imports
import ScriptLang.Proofs.Store.Sound

/-!
# Code that imports known modules only

The functions and classes in a value are code that may be run later. A value knows
some names if all that this code imports is among them. A store knows them if its
values do, and files if the programs that they hold import nothing else. What is then
ever run imports none but the known names.
-/

namespace ScriptLang

/-- The statements import, at any depth, none but these modules. -/
def ImportsOnly (names : Set String) (ss : List Stmt) : Prop := ∀ n ∈ blockImports ss, n ∈ names

theorem mem_methodImports {n : String} : ∀ {methods : List FunctionDecl},
    n ∈ methodImports methods ↔ ∃ d ∈ methods, n ∈ blockImports d.body
  | [] => by simp [methodImports]
  | ⟨_, _, body, _⟩ :: methods => by
      rw [methodImports, List.mem_append, mem_methodImports, List.exists_mem_cons_iff]

namespace Class

theorem mem_override {d m : FunctionDecl} : ∀ {methods : List FunctionDecl},
    d ∈ override methods m → d = m ∨ d ∈ methods
  | [], h => Or.inl (List.mem_singleton.mp h)
  | first :: rest, h => by
      rw [override] at h
      split at h
      · rcases List.mem_cons.mp h with h | h
        · exact Or.inl h
        · exact Or.inr (List.mem_cons_of_mem first h)
      · rcases List.mem_cons.mp h with rfl | h
        · exact Or.inr List.mem_cons_self
        · rcases mem_override h with h | h
          · exact Or.inl h
          · exact Or.inr (List.mem_cons_of_mem first h)

theorem mem_foldl_override {d : FunctionDecl} : ∀ (own inherited : List FunctionDecl),
    d ∈ own.foldl override inherited → d ∈ own ∨ d ∈ inherited
  | [], _, h => Or.inr h
  | m :: own, inherited, h => by
      rcases mem_foldl_override own (override inherited m) h with h | h
      · exact Or.inl (List.mem_cons_of_mem m h)
      · rcases mem_override h with rfl | h
        · exact Or.inl List.mem_cons_self
        · exact Or.inr h

/-- The methods of a class are declared by it or by a class that it extends. -/
theorem mem_methods_ofDecl {id : Nat} {parent : Option Class} {decl : ClassDecl}
    {d : FunctionDecl} (h : d ∈ (ofDecl id parent decl).methods) :
    d ∈ decl.methods ∨ ∃ c ∈ parent, d ∈ c.methods := by
  rcases mem_foldl_override _ _ h with h | h
  · exact Or.inl h
  · cases parent with
    | none => cases h
    | some c => exact Or.inr ⟨c, rfl, h⟩

end Class

namespace Value

variable {names : Set String} {t t' : Store}

mutual

/-- The code in the value imports none but these modules. -/
def Knows (names : Set String) : Value → Prop
  | .function f => ImportsOnly names f.decl.body
  | .classObj c => ∀ d ∈ c.methods, ImportsOnly names d.body
  | .array ⟨items⟩ => AllKnow names items
  | .dict entries => EntriesKnow names entries
  | .null | .number _ | .text _ | .bool _ | .matrix _ | .object _ | .exception _ | .module _ => True

def AllKnow (names : Set String) : List Value → Prop
  | [] => True
  | v :: vs => v.Knows names ∧ AllKnow names vs

def EntriesKnow (names : Set String) : List (String × Value) → Prop
  | [] => True
  | (_, v) :: entries => v.Knows names ∧ EntriesKnow names entries

end

theorem allKnow_iff : ∀ {vs : List Value}, AllKnow names vs ↔ ∀ v ∈ vs, v.Knows names
  | [] => by simp [AllKnow]
  | v :: vs => by rw [AllKnow, allKnow_iff, List.forall_mem_cons]

theorem entriesKnow_iff : ∀ {entries : List (String × Value)},
    EntriesKnow names entries ↔ ∀ e ∈ entries, e.2.Knows names
  | [] => by simp [EntriesKnow]
  | (k, v) :: entries => by rw [EntriesKnow, entriesKnow_iff, List.forall_mem_cons]

theorem closed_knows (names : Set String) : Closed (Knows names) where
  null := by simp [Knows]
  number _ := by simp [Knows]
  text _ := by simp [Knows]
  bool _ := by simp [Knows]
  matrix _ := by simp [Knows]
  array := by
    rintro ⟨items⟩
    rw [Knows, allKnow_iff]
    simp only [List.mem_toArray]
  ofPairs hes := by
    rw [Knows, entriesKnow_iff]
    exact Bindings.forall_mem_ofPairs hes
  entry hes := by
    rw [Knows, entriesKnow_iff] at hes
    exact hes

mutual

/-- Every value knows the set of all names. -/
theorem knows_univ : ∀ v : Value, v.Knows Set.univ
  | .null | .number _ | .text _ | .bool _ | .matrix _ | .object _ | .exception _ | .module _ => by
      simp [Knows]
  | .function _ => by
      rw [Knows]
      exact fun _ _ => Set.mem_univ _
  | .classObj _ => by
      rw [Knows]
      exact fun _ _ _ _ => Set.mem_univ _
  | .array ⟨items⟩ => by
      rw [Knows]
      exact allKnow_univ items
  | .dict entries => by
      rw [Knows]
      exact entriesKnow_univ entries

theorem allKnow_univ : ∀ vs : List Value, AllKnow Set.univ vs
  | [] => by simp [AllKnow]
  | v :: vs => by
      rw [AllKnow]
      exact ⟨knows_univ v, allKnow_univ vs⟩

theorem entriesKnow_univ : ∀ entries : List (String × Value), EntriesKnow Set.univ entries
  | [] => by simp [EntriesKnow]
  | (_, v) :: entries => by
      rw [EntriesKnow]
      exact ⟨knows_univ v, entriesKnow_univ entries⟩

end

/-- A valid value whose code imports none but these modules. -/
def Known (names : Set String) (t : Store) (v : Value) : Prop := v.Valid t ∧ v.Knows names

theorem closed_known (names : Set String) (t : Store) : Closed (Known names t) :=
  (closed_valid t).and (closed_knows names)

theorem known_null : Value.null.Known names t := (closed_known names t).null

theorem known_array {items : Array Value} :
    (Value.array items).Known names t ↔ ∀ v ∈ items, v.Known names t :=
  (closed_known names t).array

theorem Known.mono (h : t.Grows t') {v : Value} (hv : v.Known names t) : v.Known names t' :=
  ⟨hv.1.mono h, hv.2⟩

theorem known_univ {v : Value} (hv : v.Valid t) : v.Known Set.univ t := ⟨hv, knows_univ v⟩

theorem known_function {f : Closure} : (Value.function f).Known names t ↔
    t.HasScope f.scope ∧ ImportsOnly names f.decl.body := by
  rw [Known, Valid, Knows]

theorem known_classObj {c : Class} : (Value.classObj c).Known names t ↔
    c.Distinct ∧ ∀ d ∈ c.methods, ImportsOnly names d.body := by
  rw [Known, Valid, Knows]

theorem known_object {o : Instance} : (Value.object o).Known names t ↔ o.id < t.objects.size := by
  simp [Known, Valid, Knows]

theorem known_exception {x : Exception} :
    (Value.exception x).Known names t ↔ (Value.exception x).Valid t := by
  simp [Known, Knows]

theorem known_module {m : Module} : (Value.module m).Known names t ↔ t.HasScope m.exports := by
  simp [Known, Valid, Knows]

end Value

/-! ## Stores -/

namespace Store

/-- All code in the store imports none but these modules. -/
structure Knows (names : Set String) (t : Store) : Prop where
  bound : ∀ i, ∀ e ∈ t.bindings i, e.2.Knows names
  fields : ∀ o, ∀ v ∈ (t.fields o).values, v.Knows names

variable {names : Set String} {t t' : Store}

theorem knows_univ (t : Store) : t.Knows Set.univ :=
  ⟨fun _ e _ => e.2.knows_univ, fun _ v _ => v.knows_univ⟩

namespace Knows

/-- A store with the same scopes and instances knows the same. -/
theorem of_eq (ht : t.Knows names) (hs : t'.scopes = t.scopes) (ho : t'.objects = t.objects) :
    t'.Knows names := by
  constructor
  · intro i e he
    rw [bindings, hs] at he
    exact ht.bound i e he
  · intro o v hv
    rw [Store.fields, ho] at hv
    exact ht.fields o v hv

theorem empty : ({} : Store).Knows names := by
  constructor
  · intro i e he
    rw [bindings_of_le (Nat.zero_le _)] at he
    cases he
  · intro o v hv
    cases hv

theorem set (ht : t.Knows names) (i : ScopeId) (x : String) {v : Value} (hv : v.Knows names) :
    (t.set i x v).Knows names := by
  refine ⟨?_, ht.fields⟩
  intro j e he
  rcases bindings_set_or t i x v j with h | h <;> rw [h] at he
  · exact ht.bound j e he
  · rcases Bindings.eq_or_mem_of_mem_set he with he | he
    · rw [he]
      exact hv
    · exact ht.bound j e he

theorem newScope (ht : t.Knows names) (parent : Option ScopeId) :
    (t.newScope parent).2.Knows names := by
  refine ⟨?_, ht.fields⟩
  intro j e he
  rw [bindings_newScope] at he
  exact ht.bound j e he

theorem newObject (ht : t.Knows names) (className : String) (parent : Option String)
    (fields : List String) : (t.newObject className parent fields).2.Knows names := by
  refine ⟨ht.bound, ?_⟩
  intro o v hv
  rcases mem_fields_newObject hv with rfl | hv
  · exact (Value.closed_knows names).null
  · exact ht.fields o v hv

theorem setField (ht : t.Knows names) {o : Instance} {name : String} {v : Value}
    (hv : v.Knows names) (h : t.setField? o name v = some t') : t'.Knows names := by
  refine ⟨?_, ?_⟩
  · intro i e he
    rw [bindings, scopes_setField h] at he
    exact ht.bound i e he
  · intro o' w hw
    rcases mem_fields_setField h hw with rfl | ⟨o'', hw⟩
    · exact hv
    · exact ht.fields o'' w hw

theorem knows_of_lookup? (ht : t.Knows names) {i : ScopeId} {x : String} {v : Value}
    (h : t.lookup? i x = some v) : v.Knows names := by
  obtain ⟨j, hj⟩ := mem_of_lookup? h
  exact ht.bound j _ hj

theorem knows_of_field? (ht : t.Knows names) {o : Instance} {x : String} {v : Value}
    (h : t.field? o x = some v) : v.Knows names :=
  ht.fields o v (mem_of_field? h)

end Knows

end Store

/-! ## Files -/

/-- The programs that the files hold import none but these modules. -/
def Files.Know (names : Set String) (files : Files) : Prop :=
  ∀ path text p, files path = .ok text → Program.ofText text = .ok p → ImportsOnly names p.stmts

end ScriptLang
