import Mathlib
import ScriptLang.Store
import ScriptLang.Proofs.Bindings

/-!
# Scopes of a store that changes

What binding a name and making a scope do to the bindings of each scope and to the scope
around it. A place that holds no scope has no bindings. Look-up goes from a scope to the one
around it; where each was made after the one around it, the search ends by itself.
-/

namespace ScriptLang

namespace Store

variable {t : Store} {i j : ScopeId}

@[simp] theorem size_scopes_set (t : Store) (i : ScopeId) (x : String) (v : Value) :
    (t.set i x v).scopes.size = t.scopes.size := by
  simp [Store.set]

@[simp] theorem size_scopes_newScope (t : Store) (parent : Option ScopeId) :
    (t.newScope parent).2.scopes.size = t.scopes.size + 1 := by
  simp [Store.newScope]

theorem bindings_of_le (h : t.scopes.size ≤ i.index) : t.bindings i = [] := by
  rw [Store.bindings, Array.getElem?_eq_none h]

theorem bindings_set_self (h : i.index < t.scopes.size) (x : String) (v : Value) :
    (t.set i x v).bindings i = (t.bindings i).set x v := by
  simp [Store.set, Store.bindings, Array.getElem?_modify, Array.getElem?_eq_getElem h]

theorem bindings_set_ne (h : j ≠ i) (x : String) (v : Value) :
    (t.set i x v).bindings j = t.bindings j := by
  have hne : i.index ≠ j.index := by
    intro heq
    cases i
    cases j
    cases heq
    exact h rfl
  simp [Store.set, Store.bindings, Array.getElem?_modify, hne]

/-- A new scope has no bindings, like the place that it takes. -/
theorem bindings_newScope (t : Store) (parent : Option ScopeId) (i : ScopeId) :
    (t.newScope parent).2.bindings i = t.bindings i := by
  by_cases h : i.index = t.scopes.size
  · rw [bindings_of_le h.ge]
    simp [Store.newScope, Store.bindings, h]
  · simp [Store.newScope, Store.bindings, Array.getElem?_push, h]

theorem parent?_set (t : Store) (i j : ScopeId) (x : String) (v : Value) :
    (t.set i x v).parent? j = t.parent? j := by
  rw [parent?, parent?, Store.set, Array.getElem?_modify]
  split
  · cases t.scopes[j.index]? <;> rfl
  · rfl

theorem parent?_newScope (t : Store) (parent : Option ScopeId) (i : ScopeId) :
    (t.newScope parent).2.parent? i =
      if i.index = t.scopes.size then parent else t.parent? i := by
  rw [parent?, Store.newScope, Array.getElem?_push]
  split <;> rfl

/-- In its own scope a name is set as in any map; names that are there keep their places. -/
theorem names_prefix_set (t : Store) (i : ScopeId) (x : String) (v : Value) :
    (t.bindings i).names <+: ((t.set i x v).bindings i).names := by
  by_cases h : i.index < t.scopes.size
  · rw [bindings_set_self h]
    exact Bindings.names_prefix_set x v (t.bindings i)
  · rw [bindings_of_le (Nat.le_of_not_lt h)]
    exact List.nil_prefix

/-! ## Look-up -/

/-- Whether a name is seen is found as its value is, by a search of its own. -/
theorem contains_eq_isSome (t : Store) (i : ScopeId) (x : String) :
    t.contains i x = (t.lookup? i x).isSome := by
  have hwithin (n : ℕ) : t.containsWithin x n i = (t.lookupWithin x n i).isSome := by
    induction n generalizing i with
    | zero => rfl
    | succ n ih =>
        rw [containsWithin, lookupWithin]
        cases t.local? i x with
        | some v => rfl
        | none =>
            cases t.parent? i with
            | some p => exact ih p
            | none => rfl
  exact hwithin _

section Nested

-- each scope was made after the one around it
variable (hp : ∀ i p, t.parent? i = some p → p.index < i.index)
include hp

/-- The bound on look-up is never met: a larger one finds the same. -/
theorem lookupWithin_eq (x : String) {n m : ℕ} {i : ScopeId} (hn : i.index < n)
    (hm : i.index < m) : t.lookupWithin x n i = t.lookupWithin x m i := by
  induction n generalizing i m with
  | zero => exact absurd hn (Nat.not_lt_zero _)
  | succ n ih =>
      cases m with
      | zero => exact absurd hm (Nat.not_lt_zero _)
      | succ m =>
          rw [lookupWithin, lookupWithin]
          cases t.local? i x with
          | some v => rfl
          | none =>
              cases hi : t.parent? i with
              | none => rfl
              | some p =>
                  have hlt := hp i p hi
                  exact ih (by omega) (by omega)

/-- Look-up is the search from a scope to the one around it, with no bound. -/
theorem lookup?_eq (i : ScopeId) (x : String) :
    t.lookup? i x = (t.local? i x).or ((t.parent? i).bind fun p => t.lookup? p x) := by
  rw [lookup?, lookupWithin]
  cases t.local? i x with
  | some v => rfl
  | none =>
      cases hi : t.parent? i with
      | none => rfl
      | some p => exact lookupWithin_eq hp x (hp i p hi) (Nat.lt_succ_self _)

end Nested

end Store

end ScriptLang
