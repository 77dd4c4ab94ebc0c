import Mathlib
import ScriptLang.Proofs.Value.Valid

/-!
# Sound stores

In a sound store each scope has distinct names, lies inside an older scope or in
none, and holds values that are valid in the store; so do the instances, which have as
many values as names. Every operation of the store keeps it sound as long as it is given
what the store has. Then look-up is the plain search from a scope to the one around it,
which ends.
-/

namespace ScriptLang

namespace Store

/-- What all operations of a store keep. -/
structure Sound (t : Store) : Prop where
  /-- The names of a scope are distinct. -/
  names : ∀ i, (t.bindings i).names.Nodup
  /-- A scope was made after the one around it. -/
  parents : ∀ i p, t.parent? i = some p → p.index < i.index
  bound : ∀ i, ∀ e ∈ t.bindings i, e.2.Valid t
  /-- An instance has as many values as names. -/
  aligned : ∀ o, (t.fields o).values.length = (t.fields o).names.length
  fields : ∀ o, ∀ v ∈ (t.fields o).values, v.Valid t

variable {t t' : Store}

/-! ## Growth -/

theorem grows_of_scopes {t : Store} {scopes : Array Scope} (h : t.scopes.size ≤ scopes.size) :
    t.Grows { t with scopes } :=
  ⟨h, le_rfl, le_rfl⟩

theorem grows_set (t : Store) (i : ScopeId) (x : String) (v : Value) : t.Grows (t.set i x v) :=
  grows_of_scopes (by simp)

theorem grows_newScope (t : Store) (parent : Option ScopeId) : t.Grows (t.newScope parent).2 :=
  grows_of_scopes (by simp)

theorem hasScope_newScope (t : Store) (parent : Option ScopeId) :
    (t.newScope parent).2.HasScope (t.newScope parent).1 := by
  simp [HasScope, newScope]

theorem grows_newObject (t : Store) (className : String) (parent : Option String)
    (fields : List String) : t.Grows (t.newObject className parent fields).2 :=
  ⟨le_rfl, by simp [newObject], le_rfl⟩

theorem grows_newException (t : Store) (kind message : String) :
    t.Grows (t.newException kind message).2 :=
  ⟨le_rfl, le_rfl, by simp [newException]⟩

theorem grows_setTrace (t : Store) (x : Exception) (frames : List Frame) :
    t.Grows (t.setTrace x frames) :=
  ⟨le_rfl, le_rfl, by simp [setTrace]⟩

theorem setField?_eq_some {o : Instance} {name : String} {v : Value}
    (h : t.setField? o name v = some t') :
    ∃ i, (t.fields o).names.idxOf? name = some i ∧
      t' = { t with
        objects := t.objects.setIfInBounds o.id
          ⟨(t.fields o).names, (t.fields o).values.set i v⟩ } := by
  unfold setField? Fields.set? at h
  cases hi : (t.fields o).names.idxOf? name with
  | none =>
      rw [hi] at h
      cases h
  | some i =>
      rw [hi] at h
      exact ⟨i, rfl, (Option.some.inj h).symm⟩

theorem grows_setField {o : Instance} {name : String} {v : Value}
    (h : t.setField? o name v = some t') : t.Grows t' := by
  obtain ⟨i, -, rfl⟩ := setField?_eq_some h
  exact ⟨le_rfl, by simp, le_rfl⟩

theorem scopes_setField {o : Instance} {name : String} {v : Value}
    (h : t.setField? o name v = some t') : t'.scopes = t.scopes := by
  obtain ⟨i, -, rfl⟩ := setField?_eq_some h
  rfl

/-! ## What operations leave in scopes and instances -/

/-- Each scope is as before, or has the name set. -/
theorem bindings_set_or (t : Store) (i : ScopeId) (x : String) (v : Value) (j : ScopeId) :
    (t.set i x v).bindings j = t.bindings j ∨
      (t.set i x v).bindings j = (t.bindings j).set x v := by
  by_cases hj : j = i
  · subst hj
    by_cases hin : j.index < t.scopes.size
    · exact Or.inr (bindings_set_self hin x v)
    · have hout := Nat.le_of_not_lt hin
      rw [bindings_of_le hout, bindings_of_le (by rw [size_scopes_set]; exact hout)]
      exact Or.inl rfl
  · exact Or.inl (bindings_set_ne hj x v)

/-- A new instance has null fields, and the others are as before. -/
theorem fields_newObject (t : Store) (className : String) (parent : Option String)
    (fields : List String) (o : Instance) :
    (t.newObject className parent fields).2.fields o = .ofNames fields ∨
      (t.newObject className parent fields).2.fields o = t.fields o := by
  rw [Store.fields, Store.fields, Store.newObject, Array.getD_eq_getD_getElem?,
    Array.getD_eq_getD_getElem?, Array.getElem?_push]
  split
  · exact Or.inl rfl
  · exact Or.inr rfl

/-- The fields of an instance are as before, or one of their values is another. -/
theorem fields_setField {o : Instance} {name : String} {v : Value}
    (h : t.setField? o name v = some t') (o' : Instance) :
    t'.fields o' = t.fields o' ∨
      ∃ i, t'.fields o' = ⟨(t.fields o).names, (t.fields o).values.set i v⟩ := by
  obtain ⟨i, -, rfl⟩ := setField?_eq_some h
  by_cases heq : o.id = o'.id
  · by_cases hin : o.id < t.objects.size
    · exact Or.inr ⟨i, by simp [Store.fields, ← heq, hin]⟩
    · exact Or.inl (by simp [Store.fields, ← heq, hin])
  · exact Or.inl (by simp [Store.fields, heq])

/-- What a new instance holds is null or was held before. -/
theorem mem_fields_newObject {className : String} {parent : Option String} {fields : List String}
    {o : Instance} {v : Value}
    (hv : v ∈ ((t.newObject className parent fields).2.fields o).values) :
    v = .null ∨ v ∈ (t.fields o).values := by
  rcases t.fields_newObject className parent fields o with h | h <;> rw [h] at hv
  · exact Or.inl (List.eq_of_mem_replicate hv)
  · exact Or.inr hv

theorem mem_fields_setField {o : Instance} {name : String} {v : Value}
    (h : t.setField? o name v = some t') {o' : Instance} {w : Value}
    (hw : w ∈ (t'.fields o').values) : w = v ∨ ∃ o'', w ∈ (t.fields o'').values := by
  rcases fields_setField h o' with heq | ⟨i, heq⟩ <;> rw [heq] at hw
  · exact Or.inr ⟨o', hw⟩
  · rcases List.mem_or_eq_of_mem_set hw with hw | rfl
    · exact Or.inr ⟨o, hw⟩
    · exact Or.inl rfl

theorem mem_of_field? {o : Instance} {x : String} {v : Value} (h : t.field? o x = some v) :
    v ∈ (t.fields o).values := by
  unfold field? Fields.get? at h
  split at h
  · exact List.mem_of_getElem? h
  · cases h

theorem mem_of_lookupWithin {x : String} {v : Value} :
    ∀ {n : Nat} {i : ScopeId}, t.lookupWithin x n i = some v → ∃ j, (x, v) ∈ t.bindings j
  | 0, _, h => by cases h
  | n + 1, i, h => by
      rw [lookupWithin] at h
      split at h
      · rename_i w hw
        cases h
        exact ⟨i, Bindings.mem_of_get? hw⟩
      · split at h
        · exact mem_of_lookupWithin h
        · cases h

/-- A value that is looked up is one that some scope holds. -/
theorem mem_of_lookup? {i : ScopeId} {x : String} {v : Value} (h : t.lookup? i x = some v) :
    ∃ j, (x, v) ∈ t.bindings j :=
  mem_of_lookupWithin h

/-! ## Operations -/

namespace Sound

/-- A store with the same scopes and instances is as sound, if it grew. -/
theorem of_eq (ht : t.Sound) (hg : t.Grows t') (hs : t'.scopes = t.scopes)
    (ho : t'.objects = t.objects) : t'.Sound := by
  have hb (i : ScopeId) : t'.bindings i = t.bindings i := by
    rw [Store.bindings, hs, Store.bindings]
  have hf (o : Instance) : t'.fields o = t.fields o := by
    rw [Store.fields, ho, Store.fields]
  refine ⟨?_, ?_, ?_, ?_, ?_⟩
  · intro i
    rw [hb]
    exact ht.names i
  · intro i p hp
    rw [parent?, hs] at hp
    exact ht.parents i p hp
  · intro i e he
    rw [hb] at he
    exact (ht.bound i e he).mono hg
  · intro o
    rw [hf]
    exact ht.aligned o
  · intro o v hv
    rw [hf] at hv
    exact (ht.fields o v hv).mono hg

theorem empty : ({} : Store).Sound := by
  have hb (i : ScopeId) : ({} : Store).bindings i = [] := bindings_of_le (Nat.zero_le _)
  have hf (o : Instance) : ({} : Store).fields o = {} := rfl
  refine ⟨?_, ?_, ?_, ?_, ?_⟩
  · intro i
    rw [hb]
    exact List.nodup_nil
  · intro i p hp
    cases hp
  · intro i e he
    rw [hb] at he
    cases he
  · intro o
    rw [hf]
    rfl
  · intro o v hv
    rw [hf] at hv
    cases hv

theorem set (ht : t.Sound) (i : ScopeId) (x : String) {v : Value} (hv : v.Valid t) :
    (t.set i x v).Sound := by
  have hg := t.grows_set i x v
  have hb := t.bindings_set_or i x v
  refine ⟨?_, ?_, ?_, ht.aligned, ?_⟩
  · intro j
    rcases hb j with h | h <;> rw [h]
    · exact ht.names j
    · exact Bindings.nodup_names_set (ht.names j) x v
  · intro j p hp
    rw [parent?_set] at hp
    exact ht.parents j p hp
  · intro j e he
    rcases hb j with h | h <;> rw [h] at he
    · exact (ht.bound j e he).mono hg
    · rcases Bindings.eq_or_mem_of_mem_set he with he | he
      · rw [he]
        exact hv.mono hg
      · exact (ht.bound j e he).mono hg
  · intro o w hw
    exact (ht.fields o w hw).mono hg

theorem newScope (ht : t.Sound) {parent : Option ScopeId} (hp : ∀ p ∈ parent, t.HasScope p) :
    (t.newScope parent).2.Sound := by
  have hg := t.grows_newScope parent
  refine ⟨?_, ?_, ?_, ht.aligned, ?_⟩
  · intro j
    rw [bindings_newScope]
    exact ht.names j
  · intro j p hjp
    rw [parent?_newScope] at hjp
    split at hjp
    · rename_i hj
      rw [hj]
      exact hp p hjp
    · exact ht.parents j p hjp
  · intro j e he
    rw [bindings_newScope] at he
    exact (ht.bound j e he).mono hg
  · intro o v hv
    exact (ht.fields o v hv).mono hg

theorem newObject (ht : t.Sound) (className : String) (parent : Option String)
    (fields : List String) : (t.newObject className parent fields).2.Sound := by
  have hg := t.grows_newObject className parent fields
  refine ⟨ht.names, ht.parents, ?_, ?_, ?_⟩
  · intro i e he
    exact (ht.bound i e he).mono hg
  · intro o
    rcases t.fields_newObject className parent fields o with h | h <;> rw [h]
    · exact List.length_replicate
    · exact ht.aligned o
  · intro o v hv
    rcases mem_fields_newObject hv with rfl | hv
    · exact Value.valid_null
    · exact (ht.fields o v hv).mono hg

theorem setField (ht : t.Sound) {o : Instance} {name : String} {v : Value} (hv : v.Valid t)
    (h : t.setField? o name v = some t') : t'.Sound := by
  have hg := grows_setField h
  have hscopes := scopes_setField h
  have hb (i : ScopeId) : t'.bindings i = t.bindings i := by
    rw [Store.bindings, hscopes, Store.bindings]
  refine ⟨?_, ?_, ?_, ?_, ?_⟩
  · intro i
    rw [hb]
    exact ht.names i
  · intro i p hp
    rw [parent?, hscopes] at hp
    exact ht.parents i p hp
  · intro i e he
    rw [hb] at he
    exact (ht.bound i e he).mono hg
  · intro o'
    rcases fields_setField h o' with heq | ⟨i, heq⟩ <;> rw [heq]
    · exact ht.aligned o'
    · rw [List.length_set]
      exact ht.aligned o
  · intro o' w hw
    rcases mem_fields_setField h hw with rfl | ⟨o'', hw⟩
    · exact hv.mono hg
    · exact (ht.fields o'' w hw).mono hg

theorem newException (ht : t.Sound) (kind message : String) :
    (t.newException kind message).2.Sound :=
  ht.of_eq (t.grows_newException kind message) rfl rfl

theorem setTrace (ht : t.Sound) (x : Exception) (frames : List Frame) :
    (t.setTrace x frames).Sound :=
  ht.of_eq (t.grows_setTrace x frames) rfl rfl

/-! ## Look-up -/

theorem valid_of_lookup? (ht : t.Sound) {i : ScopeId} {x : String} {v : Value}
    (h : t.lookup? i x = some v) : v.Valid t := by
  obtain ⟨j, hj⟩ := mem_of_lookup? h
  exact ht.bound j _ hj

theorem valid_of_field? (ht : t.Sound) {o : Instance} {x : String} {v : Value}
    (h : t.field? o x = some v) : v.Valid t :=
  ht.fields o v (mem_of_field? h)

/-- Look-up is the search from a scope to the one around it, with no bound. -/
theorem lookup?_eq (ht : t.Sound) (i : ScopeId) (x : String) :
    t.lookup? i x = (t.local? i x).or ((t.parent? i).bind fun p => t.lookup? p x) :=
  Store.lookup?_eq ht.parents i x

end Sound

end Store

end ScriptLang
