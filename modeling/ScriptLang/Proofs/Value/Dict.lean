import Mathlib
import ScriptLang.Proofs.Bindings
import ScriptLang.Proofs.Eval.Outcome

/-!
# Dicts in order of insertion

A dict is a list of pairs, read in four ways that search it on their own: by key, by
presence of a key, as its keys and as its values. After any sequence of insertions they
tell the same: the keys are those inserted, in the order in which they came first, and each
has the value that came last for it (`Bindings.holds_ofPairs`). A literal is such a sequence,
so a program that reads a dict by one of its keys finds the value that stands at the same
place among the values (`Eval.dict_in_order`).
-/

namespace ScriptLang

namespace Bindings

variable {α : Type} {pairs : List (String × α)} {b : Bindings α} {x : String} {v : α}

/-! ## Insertions one after another -/

/-- The last pair with this key has this value. -/
def Latest (pairs : List (String × α)) (x : String) (v : α) : Prop :=
  ∃ before after, pairs = before ++ (x, v) :: after ∧ x ∉ names after

/-- What a map tells after the pairs were inserted into an empty one. -/
structure Holds (pairs : List (String × α)) (b : Bindings α) : Prop where
  /-- The keys are the inserted ones, each once. -/
  names_eq : b.names = (names pairs).eraseDups
  /-- They stand in the order in which they came first. -/
  in_order : b.names.Pairwise fun x y => (names pairs).idxOf x < (names pairs).idxOf y
  /-- Beside each key stands the value that came last for it. -/
  values_latest : List.Forall₂ (Latest pairs) b.names b.values
  length_eq : b.length = (names pairs).toFinset.card
  get?_eq_some : ∀ x v, b.get? x = some v ↔ Latest pairs x v
  contains_iff : ∀ x, b.contains x = true ↔ x ∈ names pairs

theorem latest_iff : Latest pairs x v ↔ get? pairs.reverse x = some v := by
  rw [get?, List.lookup_eq_some_iff]
  constructor
  · rintro ⟨before, after, rfl, hx⟩
    refine ⟨after.reverse, before.reverse, by simp, fun e he => ?_⟩
    have hmem : e.1 ∈ names after := List.mem_map_of_mem (List.mem_reverse.mp he)
    simpa using ne_of_mem_of_not_mem hmem hx |>.symm
  · rintro ⟨after, before, heq, hx⟩
    refine ⟨before.reverse, after.reverse, ?_, fun hmem => ?_⟩
    · rw [← List.reverse_reverse pairs, heq]
      simp
    · obtain ⟨e, he, rfl⟩ := List.mem_map.mp hmem
      simpa using hx e (List.mem_reverse.mp he)

/-- Keys that come up again are dropped, and the others keep their order. -/
theorem pairwise_eraseDups (xs : List String) :
    xs.eraseDups.Pairwise fun x y => xs.idxOf x < xs.idxOf y := by
  induction xs using List.reverseRecOn with
  | nil => simp
  | append_singleton xs z ih =>
      -- the keys that are there stay where they are
      have hkept : xs.eraseDups.Pairwise fun x y => (xs ++ [z]).idxOf x < (xs ++ [z]).idxOf y := by
        refine ih.imp_of_mem fun {x y} hx hy hlt => ?_
        rw [List.mem_eraseDups] at hx hy
        rwa [List.idxOf_append_of_mem hx, List.idxOf_append_of_mem hy]
      rw [List.eraseDups_append]
      by_cases hz : z ∈ xs
      · simpa [List.removeAll, hz] using hkept
      · have hnew : ([z].removeAll xs).eraseDups = [z] := by
          rw [List.removeAll, List.filter_cons_of_pos (by simpa using hz), List.filter_nil]
          exact eraseDups_eq_self (List.nodup_singleton z)
        rw [hnew]
        refine List.pairwise_append.mpr ⟨hkept, List.pairwise_singleton _ z, fun x hx y hy => ?_⟩
        rw [List.mem_eraseDups] at hx
        rw [List.mem_singleton.mp hy, List.idxOf_append_of_mem hx, List.idxOf_append_of_notMem hz]
        exact (List.idxOf_lt_length_of_mem hx).trans_le (Nat.le_add_right _ _)

theorem contains_iff_mem_names : b.contains x = true ↔ x ∈ b.names := by
  rw [contains, get?, List.lookup_isSome_iff, names, List.mem_map]
  exact exists_congr fun e => and_congr_right fun _ => beq_iff_eq.trans eq_comm

/-- Where keys are distinct, a key and the value at the same place belong together. -/
theorem get?_at {i : Nat} (hn : b.names.Nodup) (hi : i < b.length) :
    ∃ x v, b.names[i]? = some x ∧ b.values[i]? = some v ∧ b.get? x = some v := by
  refine ⟨b[i].1, b[i].2, ?_, ?_, get?_of_mem hn (List.getElem_mem hi)⟩
  · rw [names, List.getElem?_map, List.getElem?_eq_getElem hi, Option.map_some]
  · rw [values, List.getElem?_map, List.getElem?_eq_getElem hi, Option.map_some]

theorem holds_ofPairs (pairs : List (String × α)) : Holds pairs (ofPairs pairs) where
  names_eq := names_ofPairs pairs
  in_order := by
    rw [names_ofPairs]
    exact pairwise_eraseDups _
  values_latest := by
    rw [names, values, List.forall₂_map_left_iff, List.forall₂_map_right_iff, List.forall₂_same]
    intro e he
    rw [latest_iff, ← get?_ofPairs]
    exact get?_of_mem (nodup_names_ofPairs pairs) he
  length_eq := by
    have hset : (names pairs).toFinset = (ofPairs pairs).names.toFinset := by
      ext x
      rw [List.mem_toFinset, List.mem_toFinset, names_ofPairs, List.mem_eraseDups]
      rfl
    rw [hset, List.toFinset_card_of_nodup (nodup_names_ofPairs pairs), names, List.length_map]
  get?_eq_some x v := by rw [get?_ofPairs, latest_iff]
  contains_iff x := by
    rw [contains_iff_mem_names, names_ofPairs, List.mem_eraseDups]
    rfl

end Bindings

namespace Eval

open Bindings

/-! ## Literals -/

/-- The entries of a literal, evaluated one after another, have these values. -/
inductive Entries (run : Runner) (scope : ScopeId) :
    List (String × Expr) → List (String × Value) → Session → Session → Prop
  | nil (s : Session) : Entries run scope [] [] s s
  | cons {k : String} {e : Expr} {v : Value} {es : List (String × Expr)}
      {pairs : List (String × Value)} {s s₁ s₂ : Session} :
      outcome (expr run scope e) s = (.ok v, s₁) → Entries run scope es pairs s₁ s₂ →
      Entries run scope ((k, e) :: es) ((k, v) :: pairs) s s₂

variable {run : Runner} {scope : ScopeId} {pairs : List (String × Value)} {s s₁ s₂ : Session}

theorem Entries.outcome_eq {es : List (String × Expr)} (h : Entries run scope es pairs s s₁) :
    outcome (exprEntries run scope es) s = (.ok pairs, s₁) := by
  induction h with
  | nil s => rfl
  | cons he _ ih => simp only [exprEntries, outcome_bind, outcome_pure, he, ih]

/-- A literal inserts its entries from left to right. -/
theorem Entries.outcome_dict {es : List (String × Expr)} (h : Entries run scope es pairs s s₁)
    (p : Place) :
    outcome (expr run scope (.dict p es)) s = (.ok (.dict (ofPairs pairs)), s₁) := by
  simp only [expr, outcome_bind, outcome_pure, h.outcome_eq]

/-! ## Reading -/

section Read

variable {target key : Expr} {d : Bindings Value} {x : String}
  (htarget : outcome (expr run scope target) s = (.ok (.dict d), s₁))
  (hkey : outcome (expr run scope key) s₁ = (.ok (.text x), s₂))

include htarget hkey

theorem outcome_entry_of_some {v : Value} (hv : d.get? x = some v) (p : Place) :
    outcome (expr run scope (.index p target key)) s = (.ok v, s₂) := by
  rw [outcome_index htarget hkey, Value.index, hv]
  rfl

theorem outcome_entry_of_none (hnone : d.get? x = none) (p : Place) :
    ∃ e s', outcome (expr run scope (.index p target key)) s = (.error (.thrown e), s') ∧
      e.kind = "KeyError" ∧ e.message = "key not found: '" ++ x ++ "'" := by
  rw [outcome_index htarget hkey, Value.index, hnone]
  exact ⟨_, _, rfl, rfl, rfl⟩

theorem outcome_entry_eq_ok_iff (p : Place) (v : Value) :
    outcome (expr run scope (.index p target key)) s = (.ok v, s₂) ↔ d.get? x = some v := by
  refine ⟨fun hout => ?_, fun hv => outcome_entry_of_some htarget hkey hv p⟩
  cases hx : d.get? x with
  | none =>
      obtain ⟨e, s', herror, -⟩ := outcome_entry_of_none htarget hkey hx p
      cases herror.symm.trans hout
  | some w =>
      cases (outcome_entry_of_some htarget hkey hx p).symm.trans hout
      rfl

theorem entry_throws_iff (p : Place) :
    (∃ e s', outcome (expr run scope (.index p target key)) s = (.error (.thrown e), s') ∧
      e.kind = "KeyError") ↔ d.get? x = none := by
  constructor
  · rintro ⟨e, s', herror, -⟩
    rw [Option.eq_none_iff_forall_ne_some]
    intro v hv
    cases herror.symm.trans (outcome_entry_of_some htarget hkey hv p)
  · intro hnone
    obtain ⟨e, s', herror, hkind, -⟩ := outcome_entry_of_none htarget hkey hnone p
    exact ⟨e, s', herror, hkind⟩

end Read

/-- A built-in function of one argument that needs nothing else. -/
theorem outcome_call_builtin (callee : String) {f : Builtin} {arg : Expr} {v r : Value}
    (hname : Builtin.ofName? callee = some f) (harg : outcome (expr run scope arg) s = (.ok v, s₁))
    (p : Place) (hcall : callBuiltin run f [v] p.line = pure r) :
    outcome (expr run scope (.call p callee [arg])) s = (.ok r, s₁) := by
  simp only [expr, callNamed, exprs, hname, outcome_bind, outcome_pure, harg, hcall]

theorem outcome_item {target key : Expr} {items : Array Value} {n : Float} {i : Nat} {v : Value}
    (htarget : outcome (expr run scope target) s = (.ok (.array items), s₁))
    (hkey : outcome (expr run scope key) s₁ = (.ok (.number n), s₂))
    (hn : Number.toIndex n = i) (hv : items[i]? = some v) (p : Place) :
    outcome (expr run scope (.index p target key)) s = (.ok v, s₂) := by
  rw [outcome_index htarget hkey, Value.index]
  simp only [hn, Int.toNat_natCast, hv]
  rw [if_neg (by omega)]
  rfl

/-! ## Dicts of a program -/

/-- Inserting pairs one after another gives their keys in order of first insertion, each with the
value that came last. A literal does the same with the values of its entries. Reading such a dict
by a key gives the last value for the key, or a key error exactly if the key was never inserted;
so reading it by a key out of its keys gives what stands at that place among its values. -/
theorem dict_in_order (pairs : List (String × Value)) :
    Holds pairs (ofPairs pairs) ∧
    ∀ run scope,
      (∀ p entries s s', Entries run scope entries pairs s s' →
        outcome (expr run scope (.dict p entries)) s = (.ok (.dict (ofPairs pairs)), s')) ∧
      (∀ p target key x s s₁ s₂,
        outcome (expr run scope target) s = (.ok (.dict (ofPairs pairs)), s₁) →
        outcome (expr run scope key) s₁ = (.ok (.text x), s₂) →
        (∀ v, outcome (expr run scope (.index p target key)) s = (.ok v, s₂) ↔
          Latest pairs x v) ∧
        ((∃ e s', outcome (expr run scope (.index p target key)) s = (.error (.thrown e), s') ∧
          e.kind = "KeyError") ↔ x ∉ names pairs)) ∧
      ∀ p p' p'' target key n s (i : Nat),
        outcome (expr run scope target) s = (.ok (.dict (ofPairs pairs)), s) →
        outcome (expr run scope key) s = (.ok (.number n), s) →
        Number.toIndex n = i → i < (ofPairs pairs).length →
        ∃ v, (ofPairs pairs).values[i]? = some v ∧
          outcome (expr run scope (.index p (.call p' "values" [target]) key)) s = (.ok v, s) ∧
          outcome (expr run scope
            (.index p target (.index p' (.call p'' "keys" [target]) key))) s = (.ok v, s) := by
  have hholds := holds_ofPairs pairs
  refine ⟨hholds, fun run scope => ⟨?_, ?_, ?_⟩⟩
  · intro p entries s s' h
    exact h.outcome_dict p
  · intro p target key x s s₁ s₂ htarget hkey
    refine ⟨fun v => ?_, ?_⟩
    · rw [outcome_entry_eq_ok_iff htarget hkey, hholds.get?_eq_some]
    · rw [entry_throws_iff htarget hkey, ← hholds.contains_iff, contains, Bool.not_eq_true,
        Option.isSome_eq_false_iff, Option.isNone_iff_eq_none]
  · intro p p' p'' target key n s i htarget hkey hn hi
    -- no key is there twice, so reading by the key at a place gives the value at that place
    obtain ⟨x, v, hx, hv, hget⟩ := get?_at (nodup_names_ofPairs pairs) hi
    have hvalues := outcome_call_builtin "values" rfl htarget p' rfl
    have hkeys := outcome_call_builtin "keys" rfl htarget p'' rfl
    refine ⟨v, hv, outcome_item hvalues hkey hn (by simpa using hv) p, ?_⟩
    refine outcome_entry_of_some htarget (outcome_item hkeys hkey hn ?_ p') hget p
    simp [hx]

/-- A literal with a key that comes up again. -/
def twiceA : List (String × Expr) :=
  [("a", .number default 1.0), ("b", .number default 2.0), ("a", .number default 3.0)]

/-- The values of its entries. -/
def twiceAPairs : List (String × Value) :=
  [("a", .number 1.0), ("b", .number 2.0), ("a", .number 3.0)]

theorem twiceA_in_order :
    let s : Session := .ofSettings {} (fun _ => .error .missing) {}
    let bound := { s with store := s.store.set Session.globals "d" (.dict (ofPairs twiceAPairs)) }
    let run := runBlock 9
    outcome (expr run Session.globals (.dict default twiceA)) s =
      (.ok (.dict (ofPairs twiceAPairs)), s) ∧
    (ofPairs twiceAPairs).names = ["a", "b"] ∧ (ofPairs twiceAPairs).length = 2 ∧
    outcome (expr run Session.globals
      (.index default (.dict default twiceA) (.text default "a"))) s = (.ok (.number 3.0), s) ∧
    (∃ e s', outcome (expr run Session.globals
      (.index default (.dict default twiceA) (.text default "c"))) s = (.error (.thrown e), s') ∧
        e.kind = "KeyError") ∧
    outcome (expr run Session.globals (.index default (.name default "d") (.index default
      (.call default "keys" [.name default "d"]) (.number default 1.0)))) bound =
        (.ok (.number 2.0), bound) := by
  intro s bound run
  obtain ⟨hholds, hprogram⟩ := dict_in_order twiceAPairs
  obtain ⟨hliteral, hread, hkeys⟩ := hprogram run Session.globals
  have hentries : Entries run Session.globals twiceA twiceAPairs s s :=
    .cons rfl (.cons rfl (.cons rfl (.nil s)))
  have hdict := hliteral default twiceA s s hentries
  refine ⟨hdict, hholds.names_eq.trans (by decide +kernel), hholds.length_eq.trans (by decide),
    ?_, ?_, ?_⟩
  · exact ((hread default _ (.text default "a") "a" s s s hdict rfl).1 _).mpr
      ⟨[("a", .number 1.0), ("b", .number 2.0)], [], rfl, List.not_mem_nil⟩
  · exact (hread default _ (.text default "c") "c" s s s hdict rfl).2.mpr (by decide)
  · obtain ⟨v, hv, -, hkey⟩ := hkeys default default default (.name default "d")
      (.number default 1.0) 1.0 bound 1 rfl rfl (by decide +kernel) (by decide)
    cases hv
    exact hkey

end Eval

end ScriptLang
