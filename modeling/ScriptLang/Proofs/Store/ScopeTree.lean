import Mathlib
import ScriptLang.Proofs.Store

/-!
# Trees of scopes

A tree of scopes begins with one scope. Then scopes are made inside others and names are
set, in any order. What each scope holds and sees after that is told here by the
operations alone: the scopes around a scope, and what was set on each of them and when.
The store agrees with that account after every series of operations (`tree_refines`).

The proof follows the operations one by one. Two facts about the store are kept: its
scopes are linked as they were made (`Shaped`), and each holds the pairs that were set on
it (`Filled`).
-/

namespace ScriptLang

/-- What is done to a tree of scopes. -/
inductive ScopeOp where
  | child (parent : ScopeId)
  | set (scope : ScopeId) (name : String) (value : Value)

namespace ScopeOp

/-! ## What the operations say -/

/-- The name and the value that are set on a scope. -/
def pairOn? (i : ScopeId) : ScopeOp → Option (String × Value)
  | child _ => none
  | set j x v => if j = i then some (x, v) else none

/-- The chain of a new scope is the scope itself and the chain of its parent. -/
def extend (chains : List (List ScopeId)) : ScopeOp → List (List ScopeId)
  | child p => chains ++ [⟨chains.length⟩ :: chains.getD p.index []]
  | set _ _ _ => chains

/-- The chain of each scope, which is the scope and those around it, nearest first. -/
def chains (ops : List ScopeOp) : List (List ScopeId) := ops.foldl extend [[⟨0⟩]]

def chain (ops : List ScopeOp) (i : ScopeId) : List ScopeId := (chains ops).getD i.index []

/-- The names that were set on a scope with their values, oldest first. -/
def setOn (ops : List ScopeOp) (i : ScopeId) : List (String × Value) := ops.filterMap (pairOn? i)

/-- The value that a name was set to last on a scope. -/
def lastOn (ops : List ScopeOp) (i : ScopeId) (x : String) : Option Value :=
  (setOn ops i).reverse.lookup x

/-- Each operation is done to a scope that is there, where `count` are there before them. -/
def legal (count : ℕ) : List ScopeOp → Bool
  | [] => true
  | child p :: ops => p.index < count && legal (count + 1) ops
  | set i _ _ :: ops => i.index < count && legal count ops

end ScopeOp

open ScopeOp

namespace Store

def apply (t : Store) : ScopeOp → Store
  | .child p => (t.newScope (some p)).2
  | .set i x v => t.set i x v

/-- The tree that some operations make of one scope. -/
def tree (ops : List ScopeOp) : Store := ops.foldl apply (({} : Store).newScope none).2

/-- What a store shows of its scopes is what the operations say. -/
structure Refines (ops : List ScopeOp) (t : Store) : Prop where
  /-- The nearest scope on which the name was set gives the value, the one set last there. -/
  nearest : ∀ i x, t.lookup? i x = (chain ops i).findSome? (lastOn ops · x)
  absent : ∀ i x, t.lookup? i x = none ↔ ∀ j ∈ chain ops i, ∀ v, (x, v) ∉ setOn ops j
  contains : ∀ i x, t.contains i x = true ↔ ∃ v, t.lookup? i x = some v
  alone : ∀ i x, t.local? i x = lastOn ops i x
  /-- The names of a scope are those set on it, once each, in the order of their first setting. -/
  names : ∀ i, (t.bindings i).names = ((setOn ops i).map Prod.fst).eraseDups
  values : ∀ i, ∀ e ∈ t.bindings i, lastOn ops i e.1 = some e.2
  set_bindings : ∀ i x v j, j ≠ i → (t.set i x v).bindings j = t.bindings j
  /-- A search that meets the name nearer than `i` does not see what is set on `i`. -/
  set_lookup : ∀ i x v j y,
    (∃ k ∈ (chain ops j).takeWhile (· ≠ i), ∃ w, (y, w) ∈ setOn ops k) →
    (t.set i x v).lookup? j y = t.lookup? j y

/-! ## The links between scopes -/

/-- The scopes are those that were made, each linked to the one that it was made in. -/
structure Shaped (ops : List ScopeOp) (t : Store) : Prop where
  size : t.scopes.size = (chains ops).length
  links : ∀ i, i.index < t.scopes.size → chain ops i = i :: (t.parent? i).elim [] (chain ops)
  parents : ∀ i p, t.parent? i = some p → p.index < i.index

section Steps

variable {ops : List ScopeOp} {t : Store}

theorem chains_concat (ops : List ScopeOp) (op : ScopeOp) :
    chains (ops ++ [op]) = extend (chains ops) op := by
  rw [chains, List.foldl_append]
  rfl

theorem parent?_of_le {i : ScopeId} (h : t.scopes.size ≤ i.index) : t.parent? i = none := by
  rw [parent?, Array.getElem?_eq_none h]
  rfl

theorem chain_of_le {i : ScopeId} (h : (chains ops).length ≤ i.index) : chain ops i = [] :=
  List.getD_eq_default _ _ h

/-- A new scope leaves the chains of the others as they are. -/
theorem chain_concat_child (ops : List ScopeOp) (p i : ScopeId) :
    chain (ops ++ [.child p]) i =
      if i.index = (chains ops).length then i :: chain ops p else chain ops i := by
  rw [chain, chains_concat, extend, List.getD_eq_getElem?_getD, List.getElem?_append]
  rcases lt_trichotomy i.index (chains ops).length with h | h | h
  · rw [if_pos h, if_neg h.ne, ← List.getD_eq_getElem?_getD]
    rfl
  · rw [if_neg h.not_lt, if_pos h, h, Nat.sub_self, ← h]
    rfl
  · rw [if_neg h.not_gt, if_neg h.ne', chain_of_le h.le, List.getElem?_eq_none]
    · rfl
    · rw [List.length_singleton]
      omega

theorem Shaped.child (h : Shaped ops t) {p : ScopeId} (hp : p.index < (chains ops).length) :
    Shaped (ops ++ [.child p]) (t.newScope (some p)).2 := by
  have hsize := h.size
  refine ⟨?_, ?_, ?_⟩
  · rw [size_scopes_newScope, chains_concat, extend, List.length_append, hsize]
    rfl
  · intro i hi
    rw [size_scopes_newScope] at hi
    rw [chain_concat_child, parent?_newScope, hsize]
    by_cases hlast : i.index = (chains ops).length
    · rw [if_pos hlast, if_pos hlast, Option.elim_some, chain_concat_child, if_neg hp.ne]
    · rw [if_neg hlast, if_neg hlast, h.links i (by omega)]
      -- the parent was there before, so its chain is not the new one
      cases hi' : t.parent? i with
      | none => rfl
      | some q =>
          have hlt := h.parents i q hi'
          rw [Option.elim_some, Option.elim_some, chain_concat_child, if_neg (by omega)]
  · intro i q hq
    rw [parent?_newScope] at hq
    split_ifs at hq with hlast
    · cases hq
      omega
    · exact h.parents i q hq

theorem Shaped.set (h : Shaped ops t) (j : ScopeId) (x : String) (v : Value) :
    Shaped ops (t.set j x v) := by
  refine ⟨?_, ?_, ?_⟩
  · rw [size_scopes_set, h.size]
  · intro i hi
    rw [size_scopes_set] at hi
    rw [parent?_set, h.links i hi]
  · intro i p hp
    rw [parent?_set] at hp
    exact h.parents i p hp

/-- Only the chains count. -/
theorem Shaped.of_chains_eq {ops' : List ScopeOp} (h : Shaped ops t)
    (heq : chains ops' = chains ops) : Shaped ops' t := by
  have hchain : chain ops' = chain ops := by
    funext i
    rw [chain, heq, chain]
  exact ⟨heq ▸ h.size, hchain ▸ h.links, h.parents⟩

/-- Look-up is the search along the chain of a scope. -/
theorem Shaped.lookup?_eq (h : Shaped ops t) (i : ScopeId) (x : String) :
    t.lookup? i x = (chain ops i).findSome? (t.local? · x) := by
  induction hn : i.index using Nat.strong_induction_on generalizing i with
  | _ n ih =>
      rw [Store.lookup?_eq h.parents]
      by_cases hi : i.index < t.scopes.size
      · rw [h.links i hi, List.findSome?_cons]
        cases t.local? i x with
        | some v => rfl
        | none =>
            cases hp : t.parent? i with
            | none => rfl
            | some p => exact ih p.index (hn ▸ h.parents i p hp) p rfl
      · have hle := Nat.le_of_not_lt hi
        rw [chain_of_le (h.size ▸ hle), parent?_of_le hle, local?, bindings_of_le hle]
        rfl

/-! ## The names of each scope -/

/-- Each scope holds the pairs that were set on it, one after another. -/
def Filled (ops : List ScopeOp) (t : Store) : Prop :=
  ∀ i, t.bindings i = Bindings.ofPairs (setOn ops i)

theorem setOn_concat (ops : List ScopeOp) (op : ScopeOp) (i : ScopeId) :
    setOn (ops ++ [op]) i = setOn ops i ++ (pairOn? i op).toList := by
  rw [setOn, List.filterMap_append, setOn]
  cases h : pairOn? i op with
  | none => rw [List.filterMap_cons_none h, List.filterMap_nil, Option.toList_none]
  | some e => rw [List.filterMap_cons_some h, List.filterMap_nil, Option.toList_some]

theorem Filled.child (h : Filled ops t) (p : ScopeId) :
    Filled (ops ++ [.child p]) (t.newScope (some p)).2 := by
  intro i
  rw [bindings_newScope, setOn_concat, h i]
  exact congrArg _ (List.append_nil _).symm

theorem Filled.set (h : Filled ops t) {j : ScopeId} (hj : j.index < t.scopes.size) (x : String)
    (v : Value) : Filled (ops ++ [.set j x v]) (t.set j x v) := by
  intro i
  rw [setOn_concat, pairOn?]
  by_cases hi : j = i
  · subst hi
    rw [bindings_set_self hj, h j, if_pos rfl, Bindings.ofPairs, Bindings.ofPairs,
      Option.toList_some, List.foldl_append]
    rfl
  · rw [bindings_set_ne (Ne.symm hi), h i, if_neg hi]
    exact congrArg _ (List.append_nil _).symm

/-! ## All operations -/

/-- What is kept after each operation. -/
structure Mirrors (ops : List ScopeOp) (t : Store) : Prop where
  shaped : Shaped ops t
  filled : Filled ops t

theorem Mirrors.start : Mirrors [] (({} : Store).newScope none).2 := by
  have hparent (i : ScopeId) : (({} : Store).newScope none).2.parent? i = none := by
    rw [parent?_newScope]
    split_ifs
    · rfl
    · exact parent?_of_le (Nat.zero_le _)
  refine ⟨⟨rfl, ?_, ?_⟩, ?_⟩
  · rintro ⟨index⟩ hi
    obtain rfl : index = 0 := Nat.lt_one_iff.mp hi
    rw [hparent]
    rfl
  · intro i p hp
    rw [hparent] at hp
    cases hp
  · intro i
    rw [bindings_newScope, bindings_of_le (Nat.zero_le _)]
    rfl

theorem Mirrors.foldl (todo : List ScopeOp) (h : Mirrors ops t)
    (hlegal : legal (chains ops).length todo = true) :
    Mirrors (ops ++ todo) (todo.foldl apply t) := by
  induction todo generalizing ops t with
  | nil =>
      rw [List.append_nil]
      exact h
  | cons op todo ih =>
      rw [← List.singleton_append, ← List.append_assoc]
      cases op with
      | child p =>
          rw [legal, Bool.and_eq_true, decide_eq_true_eq] at hlegal
          refine ih ⟨h.shaped.child hlegal.1, h.filled.child p⟩ ?_
          rw [chains_concat, extend, List.length_append]
          exact hlegal.2
      | set i x v =>
          rw [legal, Bool.and_eq_true, decide_eq_true_eq] at hlegal
          have hchains : chains (ops ++ [.set i x v]) = chains ops := chains_concat ops _
          have hshaped := (h.shaped.set i x v).of_chains_eq hchains
          refine ih ⟨hshaped, h.filled.set (h.shaped.size ▸ hlegal.1) x v⟩ ?_
          rw [hchains]
          exact hlegal.2

/-! ## What a store shows -/

theorem lastOn_eq_none {i : ScopeId} {x : String} :
    lastOn ops i x = none ↔ ∀ v, (x, v) ∉ setOn ops i := by
  rw [lastOn, List.lookup_eq_none_iff]
  constructor
  · intro h v hv
    have hne := h (x, v) (List.mem_reverse.mpr hv)
    simp at hne
  · rintro h ⟨y, v⟩ hv
    rw [bne_iff_ne]
    rintro rfl
    exact h v (List.mem_reverse.mp hv)

theorem Filled.local?_eq (h : Filled ops t) (i : ScopeId) (x : String) :
    t.local? i x = lastOn ops i x := by
  rw [local?, h i, Bindings.get?_ofPairs]
  rfl

theorem Mirrors.lookup?_eq (h : Mirrors ops t) (i : ScopeId) (x : String) :
    t.lookup? i x = (chain ops i).findSome? (lastOn ops · x) := by
  rw [h.shaped.lookup?_eq]
  exact congrArg (List.findSome? · (chain ops i)) (funext fun j => h.filled.local?_eq j x)

theorem local?_set_ne {i j : ScopeId} (h : j ≠ i) (t : Store) (x y : String) (v : Value) :
    (t.set i x v).local? j y = t.local? j y := by
  rw [local?, bindings_set_ne h, local?]

/-- A search that ends nearer than `i` is not changed by what is set on `i`. -/
theorem Shaped.lookup?_set (h : Shaped ops t) {i j : ScopeId} {y : String}
    (hmet : ∃ k ∈ (chain ops j).takeWhile (· ≠ i), t.local? k y ≠ none) (x : String) (v : Value) :
    (t.set i x v).lookup? j y = t.lookup? j y := by
  rw [(h.set i x v).lookup?_eq, h.lookup?_eq,
    ← List.takeWhile_append_dropWhile (p := (· ≠ i)) (l := chain ops j), List.findSome?_append,
    List.findSome?_append]
  generalize hnear : (chain ops j).takeWhile (· ≠ i) = near at hmet
  have hne : ∀ k ∈ near, k ≠ i := by
    intro k hk
    rw [← hnear] at hk
    simpa using List.mem_takeWhile_imp hk
  -- the nearer part is searched alike and is not left empty-handed
  have hsame : near.findSome? ((t.set i x v).local? · y) = near.findSome? (t.local? · y) := by
    rw [← List.head?_filterMap, ← List.head?_filterMap,
      List.filterMap_congr fun k hk => local?_set_ne (hne k hk) t x y v]
  have hfound : near.findSome? (t.local? · y) ≠ none := by
    rcases hmet with ⟨k, hk, hsome⟩
    intro hnone
    exact hsome (List.findSome?_eq_none_iff.mp hnone k hk)
  rcases Option.ne_none_iff_exists'.mp hfound with ⟨w, hw⟩
  rw [hsame, hw, Option.some_or, Option.some_or]

theorem Mirrors.refines (h : Mirrors ops t) : Refines ops t := by
  refine ⟨h.lookup?_eq, ?_, ?_, h.filled.local?_eq, ?_, ?_, ?_, ?_⟩
  · intro i x
    rw [h.lookup?_eq, List.findSome?_eq_none_iff]
    exact forall₂_congr fun j _ => lastOn_eq_none
  · intro i x
    rw [contains_eq_isSome, Option.isSome_iff_exists]
  · intro i
    rw [h.filled i, Bindings.names_ofPairs]
  · intro i e he
    have hnodup : (t.bindings i).names.Nodup := by
      rw [h.filled i]
      exact Bindings.nodup_names_ofPairs _
    rw [← h.filled.local?_eq, local?, Bindings.get?_of_mem hnodup he]
  · intro i x v j hj
    exact bindings_set_ne hj x v
  · rintro i x v j y ⟨k, hk, w, hw⟩
    refine h.shaped.lookup?_set ⟨k, hk, ?_⟩ x v
    rw [h.filled.local?_eq, Ne, lastOn_eq_none]
    intro hnone
    exact hnone w hw

end Steps

/-- **Trees of scopes are nested maps.** After any operations that make scopes inside others and set
names, each done to a scope that is there, look-up gives the value that was set last on the
nearest scope with the name, and nothing if there is none. The names of one scope come in the
order in which they were set first. Setting a name changes the bindings of its own scope only, and
no look-up that ends nearer. -/
theorem tree_refines {ops : List ScopeOp} (h : legal 1 ops = true) : Refines ops (tree ops) :=
  (Mirrors.start.foldl ops h).refines

/-- Three scopes, one inside another. The middle one hides a name that the outer one sets before
and after; another name is set on the outer one last. -/
def shadowing : List ScopeOp :=
  [.set ⟨0⟩ "x" (.text "a"), .child ⟨0⟩, .child ⟨1⟩, .set ⟨1⟩ "x" (.text "b"),
    .set ⟨0⟩ "x" (.text "c"), .set ⟨1⟩ "x" (.text "d"), .set ⟨0⟩ "y" (.text "e")]

theorem shadowing_refines :
    legal 1 shadowing = true ∧ (tree shadowing).lookup? ⟨2⟩ "x" = some (.text "d") ∧
      (tree shadowing).lookup? ⟨2⟩ "y" = some (.text "e") ∧ (tree shadowing).local? ⟨2⟩ "y" = none ∧
      ((tree shadowing).bindings ⟨0⟩).names = ["x", "y"] ∧
      ((tree shadowing).set ⟨0⟩ "x" .null).lookup? ⟨2⟩ "x" = some (.text "d") := by
  have hlegal : legal 1 shadowing = true := by decide
  have h := tree_refines hlegal
  have hx : (tree shadowing).lookup? ⟨2⟩ "x" = some (.text "d") := (h.nearest ⟨2⟩ "x").trans rfl
  have hmet : ∃ k ∈ (chain shadowing ⟨2⟩).takeWhile (· ≠ ⟨0⟩), ∃ w, ("x", w) ∈ setOn shadowing k :=
    ⟨⟨1⟩, by decide, .text "b", List.mem_cons_self⟩
  exact ⟨hlegal, hx, (h.nearest ⟨2⟩ "y").trans rfl, (h.alone ⟨2⟩ "y").trans rfl,
    (h.names ⟨0⟩).trans (by decide), (h.set_lookup ⟨0⟩ "x" .null ⟨2⟩ "x" hmet).trans hx⟩

end Store

end ScriptLang
