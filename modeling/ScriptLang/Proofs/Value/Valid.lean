import Mathlib
import ScriptLang.Proofs.Store
import ScriptLang.Proofs.Value.Closed

/-!
# Values that belong to a store

A value is valid in a store if every identity in it is a place of the store and every
dict, matrix and class in it, at any depth, is well formed. A store only grows, so a
value stays valid.
-/

namespace ScriptLang

/-- There are at least as many scopes, instances and exceptions. -/
structure Store.Grows (t t' : Store) : Prop where
  scopes : t.scopes.size ≤ t'.scopes.size
  objects : t.objects.size ≤ t'.objects.size
  traces : t.traces.size ≤ t'.traces.size

namespace Store.Grows

variable {t t' t'' : Store}

theorem refl (t : Store) : t.Grows t := ⟨le_rfl, le_rfl, le_rfl⟩

theorem trans (h : t.Grows t') (h' : t'.Grows t'') : t.Grows t'' :=
  ⟨h.scopes.trans h'.scopes, h.objects.trans h'.objects, h.traces.trans h'.traces⟩

end Store.Grows

def Store.HasScope (t : Store) (i : ScopeId) : Prop := i.index < t.scopes.size

theorem Store.HasScope.mono {t t' : Store} (h : t.Grows t') {i : ScopeId} (hi : t.HasScope i) :
    t'.HasScope i :=
  hi.trans_le h.scopes

/-- The methods of a class have names of their own. -/
def Class.Distinct (c : Class) : Prop := (c.methods.map (·.name)).Nodup

namespace Class

/-- The methods under their names. -/
def table (methods : List FunctionDecl) : Bindings FunctionDecl :=
  methods.map fun d => (d.name, d)

theorem names_table (methods : List FunctionDecl) :
    (table methods).names = methods.map (·.name) := by
  rw [table, Bindings.names, List.map_map]
  rfl

theorem table_cons (d : FunctionDecl) (methods : List FunctionDecl) :
    table (d :: methods) = (d.name, d) :: table methods := rfl

/-- An overriding method is set under its name. -/
theorem table_override (m : FunctionDecl) (methods : List FunctionDecl) :
    table (override methods m) = (table methods).set m.name m := by
  induction methods with
  | nil => rfl
  | cons first rest ih =>
      rw [override, table_cons, Bindings.set]
      by_cases h : first.name = m.name
      · rw [if_pos h, if_pos h, table_cons, h]
      · rw [if_neg h, if_neg h, table_cons, ih]

theorem nodup_foldl_override : ∀ (own inherited : List FunctionDecl),
    (table inherited).names.Nodup → (table (own.foldl override inherited)).names.Nodup
  | [], _, h => h
  | m :: own, inherited, h => by
      refine nodup_foldl_override own (override inherited m) ?_
      rw [table_override]
      exact Bindings.nodup_names_set h m.name m

/-- A class has distinct methods if the one it extends has, whatever it declares. -/
theorem distinct_ofDecl (id : Nat) {parent : Option Class} (h : ∀ c ∈ parent, c.Distinct)
    (d : ClassDecl) : (ofDecl id parent d).Distinct := by
  rw [Distinct, ← names_table]
  refine nodup_foldl_override d.methods _ ?_
  cases parent with
  | none => exact List.nodup_nil
  | some c =>
      rw [names_table]
      exact h c rfl

end Class

namespace Value

mutual

def Valid (t : Store) : Value → Prop
  | .null | .number _ | .text _ | .bool _ => True
  | .array ⟨items⟩ => AllValid t items
  | .dict entries => (Bindings.names entries).Nodup ∧ EntriesValid t entries
  | .matrix m => m.data.size = m.rows.toNat * m.cols.toNat
  | .function f => t.HasScope f.scope
  | .classObj c => c.Distinct
  | .object o => o.id < t.objects.size
  | .exception x => x.id < t.traces.size
  | .module m => t.HasScope m.exports

def AllValid (t : Store) : List Value → Prop
  | [] => True
  | v :: vs => v.Valid t ∧ AllValid t vs

def EntriesValid (t : Store) : List (String × Value) → Prop
  | [] => True
  | (_, v) :: entries => v.Valid t ∧ EntriesValid t entries

end

variable {t t' : Store}

mutual

theorem Valid.mono (h : t.Grows t') : ∀ {v : Value}, v.Valid t → v.Valid t'
  | .null, hv | .number _, hv | .text _, hv | .bool _, hv | .matrix _, hv | .classObj _, hv => by
      rw [Valid] at hv ⊢
      exact hv
  | .array ⟨items⟩, hv => by
      rw [Valid] at hv ⊢
      exact AllValid.mono h hv
  | .dict entries, hv => by
      rw [Valid] at hv ⊢
      exact ⟨hv.1, EntriesValid.mono h hv.2⟩
  | .function _, hv | .module _, hv => by
      rw [Valid] at hv ⊢
      exact hv.mono h
  | .object _, hv => by
      rw [Valid] at hv ⊢
      exact hv.trans_le h.objects
  | .exception _, hv => by
      rw [Valid] at hv ⊢
      exact hv.trans_le h.traces

theorem AllValid.mono (h : t.Grows t') : ∀ {vs : List Value}, AllValid t vs → AllValid t' vs
  | [], _ => by
      rw [AllValid]
      trivial
  | v :: vs, hv => by
      rw [AllValid] at hv ⊢
      exact ⟨hv.1.mono h, AllValid.mono h hv.2⟩

theorem EntriesValid.mono (h : t.Grows t') :
    ∀ {entries : List (String × Value)}, EntriesValid t entries → EntriesValid t' entries
  | [], _ => by
      rw [EntriesValid]
      trivial
  | (_, v) :: entries, hv => by
      rw [EntriesValid] at hv ⊢
      exact ⟨hv.1.mono h, EntriesValid.mono h hv.2⟩

end

theorem allValid_iff : ∀ {vs : List Value}, AllValid t vs ↔ ∀ v ∈ vs, v.Valid t
  | [] => by simp [AllValid]
  | v :: vs => by rw [AllValid, allValid_iff, List.forall_mem_cons]

theorem entriesValid_iff :
    ∀ {entries : List (String × Value)}, EntriesValid t entries ↔ ∀ e ∈ entries, e.2.Valid t
  | [] => by simp [EntriesValid]
  | (k, v) :: entries => by rw [EntriesValid, entriesValid_iff, List.forall_mem_cons]

theorem valid_array {items : Array Value} :
    (Value.array items).Valid t ↔ ∀ v ∈ items, v.Valid t := by
  rcases items with ⟨items⟩
  rw [Valid, allValid_iff]
  simp only [List.mem_toArray]

theorem valid_dict {entries : Bindings Value} :
    (Value.dict entries).Valid t ↔ entries.names.Nodup ∧ ∀ e ∈ entries, e.2.Valid t := by
  rw [Valid, entriesValid_iff]

theorem valid_number (n : Float) : (Value.number n).Valid t := by
  rw [Valid]
  trivial

theorem valid_text (s : String) : (Value.text s).Valid t := by
  rw [Valid]
  trivial

theorem valid_null : Value.null.Valid t := by
  rw [Valid]
  trivial

theorem valid_matrix (m : Matrix) : (Value.matrix m).Valid t := by
  rw [Valid]
  exact m.size_data

/-- Operators, built-in functions and methods make valid values from valid ones. -/
theorem closed_valid (t : Store) : Closed (Valid t) where
  null := valid_null
  number := valid_number
  text := valid_text
  bool _ := by
    rw [Valid]
    trivial
  matrix := valid_matrix
  array := valid_array
  ofPairs hes := valid_dict.mpr ⟨Bindings.nodup_names_ofPairs _, Bindings.forall_mem_ofPairs hes⟩
  entry hes := (valid_dict.mp hes).2

end Value

end ScriptLang
