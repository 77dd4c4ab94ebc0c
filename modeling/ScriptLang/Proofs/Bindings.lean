import Mathlib
import ScriptLang.Bindings

/-!
# Reading and restricting ordered maps

What setting a key does to look-up, and to the part of a map whose keys have
some property. Restricting a map keeps the order of the keys that stay, so a key
that stays is set as in the whole map and one that goes is not seen at all.
-/

namespace ScriptLang

namespace Bindings

variable {α : Type}

/-! ## Look-up -/

theorem get?_cons (k : String) (w : α) (b : Bindings α) (x : String) :
    get? ((k, w) :: b) x = if x = k then some w else get? b x := by
  simp only [get?, List.lookup]
  by_cases h : x = k
  · simp [h]
  · simp [h, beq_false_of_ne h]

theorem get?_set_self (x : String) (v : α) : ∀ b : Bindings α, (b.set x v).get? x = some v
  | [] => by rw [set, get?_cons, if_pos rfl]
  | (k, w) :: b => by
      rw [set]
      by_cases h : k = x
      · rw [if_pos h, get?_cons, if_pos h.symm]
      · rw [if_neg h, get?_cons, if_neg (Ne.symm h)]
        exact get?_set_self x v b

theorem get?_set_ne {x y : String} (hne : y ≠ x) (v : α) :
    ∀ b : Bindings α, (b.set x v).get? y = b.get? y
  | [] => by rw [set, get?_cons, if_neg hne]
  | (k, w) :: b => by
      rw [set]
      by_cases h : k = x
      · rw [if_pos h, get?_cons, get?_cons, if_neg (h ▸ hne), if_neg (h ▸ hne)]
      · rw [if_neg h, get?_cons, get?_cons, get?_set_ne hne v b]

theorem mem_of_get? {x : String} {v : α} : ∀ {b : Bindings α}, b.get? x = some v → (x, v) ∈ b
  | (k, w) :: b, h => by
      rw [get?_cons] at h
      by_cases hx : x = k
      · rw [if_pos hx] at h
        cases h
        rw [hx]
        exact List.mem_cons_self
      · rw [if_neg hx] at h
        exact List.mem_cons_of_mem _ (mem_of_get? h)

/-- Where keys are distinct, each pair is found. -/
theorem get?_of_mem {b : Bindings α} (hn : b.names.Nodup) {e : String × α} (he : e ∈ b) :
    b.get? e.1 = some e.2 := by
  induction b with
  | nil => cases he
  | cons e' b ih =>
      rcases e' with ⟨k, w⟩
      rcases List.nodup_cons.mp hn with ⟨hk, hn⟩
      rw [get?_cons]
      rcases List.mem_cons.mp he with rfl | he
      · exact if_pos rfl
      · have hne : e.1 ≠ k := by
          intro heq
          exact hk (List.mem_map.mpr ⟨e, he, heq⟩)
        rw [if_neg hne, ih hn he]

theorem get?_append_of_some {x : String} {v : α} {b : Bindings α} (h : b.get? x = some v)
    (b' : Bindings α) : get? (b ++ b') x = some v := by
  rw [get?] at h ⊢
  rw [List.lookup_append, h, Option.some_or]

/-- A key that is not there is put behind the others. -/
theorem set_of_get?_none {x : String} (v : α) : ∀ {b : Bindings α},
    b.get? x = none → b.set x v = b ++ [(x, v)]
  | [], _ => rfl
  | (k, w) :: b, h => by
      rw [get?_cons] at h
      by_cases hx : x = k
      · rw [if_pos hx] at h
        cases h
      · rw [if_neg hx] at h
        rw [set, if_neg (Ne.symm hx), set_of_get?_none v h]
        rfl

theorem eq_or_mem_of_mem_set {x : String} {v : α} {e : String × α} :
    ∀ {b : Bindings α}, e ∈ b.set x v → e.2 = v ∨ e ∈ b
  | [], h => by
      rw [set, List.mem_singleton] at h
      exact Or.inl (by rw [h])
  | (k, w) :: b, h => by
      rw [set] at h
      by_cases hk : k = x
      · rw [if_pos hk] at h
        rcases List.mem_cons.mp h with rfl | h
        · exact Or.inl rfl
        · exact Or.inr (List.mem_cons_of_mem _ h)
      · rw [if_neg hk] at h
        rcases List.mem_cons.mp h with rfl | h
        · exact Or.inr List.mem_cons_self
        · rcases eq_or_mem_of_mem_set h with h | h
          · exact Or.inl h
          · exact Or.inr (List.mem_cons_of_mem _ h)

/-- Setting a key leaves the keys before it in their order. -/
theorem names_prefix_set (x : String) (v : α) : ∀ b : Bindings α, b.names <+: (b.set x v).names
  | [] => List.nil_prefix
  | (k, w) :: b => by
      rw [set]
      by_cases h : k = x
      · rw [if_pos h]
        exact List.prefix_rfl
      · rw [if_neg h]
        exact (List.prefix_cons_inj k).mpr (names_prefix_set x v b)

theorem names_cons (k : String) (w : α) (b : Bindings α) : names ((k, w) :: b) = k :: b.names :=
  rfl

theorem names_set (x : String) (v : α) : ∀ b : Bindings α,
    (b.set x v).names = if x ∈ b.names then b.names else b.names ++ [x]
  | [] => rfl
  | (k, w) :: b => by
      rw [set]
      by_cases h : k = x
      · rw [if_pos h, names_cons, names_cons, if_pos (h ▸ List.mem_cons_self)]
      · rw [if_neg h, names_cons, names_cons, names_set x v b]
        by_cases hx : x ∈ names b
        · rw [if_pos hx, if_pos (List.mem_cons_of_mem k hx)]
        · have hcons : x ∉ k :: names b := by
            rw [List.mem_cons, not_or]
            exact ⟨Ne.symm h, hx⟩
          rw [if_neg hx, if_neg hcons, List.cons_append]

theorem nodup_names_set {b : Bindings α} (h : b.names.Nodup) (x : String) (v : α) :
    (b.set x v).names.Nodup := by
  rw [names_set]
  split
  · exact h
  · rename_i hx
    exact List.nodup_append'.mpr ⟨h, List.nodup_singleton x, by simpa using hx⟩

/-- Setting pairs one after another keeps keys distinct and what holds of all values. -/
theorem foldl_set_induction {P : α → Prop} : ∀ (pairs : List (String × α)) (b : Bindings α),
    b.names.Nodup → (∀ e ∈ b, P e.2) → (∀ e ∈ pairs, P e.2) →
    (pairs.foldl (fun b (k, v) => b.set k v) b).names.Nodup ∧
      ∀ e ∈ pairs.foldl (fun b (k, v) => b.set k v) b, P e.2
  | [], _, hn, hb, _ => ⟨hn, hb⟩
  | (k, v) :: pairs, b, hn, hb, hp => by
      rw [List.forall_mem_cons] at hp
      refine foldl_set_induction pairs (b.set k v) (nodup_names_set hn k v) ?_ hp.2
      intro e he
      rcases eq_or_mem_of_mem_set he with h | h
      · rw [h]
        exact hp.1
      · exact hb e h

theorem nodup_names_ofPairs (pairs : List (String × α)) : (ofPairs pairs).names.Nodup :=
  (foldl_set_induction (P := fun _ => True) pairs [] List.nodup_nil (by simp) (by simp)).1

theorem forall_mem_ofPairs {P : α → Prop} {pairs : List (String × α)}
    (h : ∀ e ∈ pairs, P e.2) : ∀ e ∈ ofPairs pairs, P e.2 :=
  (foldl_set_induction pairs [] List.nodup_nil (by simp) h).2

/-! ## Pairs set one after another

A key takes its place when it comes up first, and has the value that comes last. -/

theorem eraseDups_eq_self {xs : List String} (h : xs.Nodup) : xs.eraseDups = xs := by
  induction xs with
  | nil => rfl
  | cons x xs ih =>
      rcases List.nodup_cons.mp h with ⟨hx, hxs⟩
      have hkept : xs.filter (fun y => !y == x) = xs := by
        rw [List.filter_eq_self]
        rintro y hy
        simpa using ne_of_mem_of_not_mem hy hx
      rw [List.eraseDups_cons, hkept, ih hxs]

theorem names_foldl_set (pairs : List (String × α)) : ∀ {b : Bindings α}, b.names.Nodup →
    (pairs.foldl (fun b (k, v) => b.set k v) b).names =
      (b.names ++ pairs.map Prod.fst).eraseDups := by
  induction pairs with
  | nil =>
      intro b hb
      rw [List.foldl_nil, List.map_nil, List.append_nil, eraseDups_eq_self hb]
  | cons e pairs ih =>
      intro b hb
      rcases e with ⟨k, v⟩
      rw [List.foldl_cons, ih (nodup_names_set hb k v), names_set, List.map_cons]
      by_cases hk : k ∈ b.names
      · -- a key that is there already adds nothing
        have hgone : (k :: pairs.map Prod.fst).removeAll b.names =
            (pairs.map Prod.fst).removeAll b.names := by
          rw [List.removeAll, List.filter_cons_of_neg (by simpa using hk), List.removeAll]
        rw [if_pos hk, List.eraseDups_append, List.eraseDups_append, hgone]
      · rw [if_neg hk, List.append_assoc]
        rfl

theorem get?_foldl_set (x : String) (pairs : List (String × α)) : ∀ b : Bindings α,
    (pairs.foldl (fun b (k, v) => b.set k v) b).get? x =
      (get? pairs.reverse x).or (b.get? x) := by
  induction pairs with
  | nil =>
      intro b
      rfl
  | cons e pairs ih =>
      intro b
      rcases e with ⟨k, v⟩
      have hlast : (b.set k v).get? x = (get? [(k, v)] x).or (b.get? x) := by
        rw [get?_cons]
        by_cases hx : x = k
        · rw [hx, get?_set_self, if_pos rfl, Option.some_or]
        · rw [get?_set_ne hx, if_neg hx]
          rfl
      rw [List.foldl_cons, ih, hlast, ← Option.or_assoc, List.reverse_cons]
      exact congrArg (Option.or · (b.get? x)) List.lookup_append.symm

theorem names_ofPairs (pairs : List (String × α)) :
    (ofPairs pairs).names = (pairs.map Prod.fst).eraseDups :=
  names_foldl_set pairs List.nodup_nil

theorem get?_ofPairs (pairs : List (String × α)) (x : String) :
    (ofPairs pairs).get? x = get? pairs.reverse x := by
  rw [ofPairs, get?_foldl_set]
  exact Option.or_none

/-! ## The part with some keys -/

/-- The pairs whose key is kept, in order. -/
def restrict (keep : String → Bool) (b : Bindings α) : Bindings α :=
  b.filter fun e => keep e.1

variable {keep : String → Bool}

theorem restrict_cons_of_pos {k : String} (h : keep k = true) (w : α) (b : Bindings α) :
    restrict keep ((k, w) :: b) = (k, w) :: restrict keep b := by
  simp [restrict, h]

theorem restrict_cons_of_neg {k : String} (h : keep k = false) (w : α) (b : Bindings α) :
    restrict keep ((k, w) :: b) = restrict keep b := by
  simp [restrict, h]

theorem restrict_set_of_neg {x : String} (hx : keep x = false) (v : α) :
    ∀ b : Bindings α, restrict keep (b.set x v) = restrict keep b
  | [] => by rw [set, restrict_cons_of_neg hx]
  | (k, w) :: b => by
      rw [set]
      by_cases h : k = x
      · have hk : keep k = false := by rw [h]; exact hx
        rw [if_pos h, restrict_cons_of_neg hk, restrict_cons_of_neg hk]
      · rw [if_neg h]
        cases hk : keep k with
        | true =>
            rw [restrict_cons_of_pos hk, restrict_cons_of_pos hk, restrict_set_of_neg hx v b]
        | false =>
            rw [restrict_cons_of_neg hk, restrict_cons_of_neg hk, restrict_set_of_neg hx v b]

theorem restrict_set_of_pos {x : String} (hx : keep x = true) (v : α) :
    ∀ b : Bindings α, restrict keep (b.set x v) = (restrict keep b).set x v
  | [] => by rw [set, restrict_cons_of_pos hx]; rfl
  | (k, w) :: b => by
      rw [set]
      by_cases h : k = x
      · have hk : keep k = true := by rw [h]; exact hx
        rw [if_pos h, restrict_cons_of_pos hk, restrict_cons_of_pos hk, set, if_pos h]
      · rw [if_neg h]
        cases hk : keep k with
        | true =>
            rw [restrict_cons_of_pos hk, restrict_cons_of_pos hk, restrict_set_of_pos hx v b, set,
              if_neg h]
        | false =>
            rw [restrict_cons_of_neg hk, restrict_cons_of_neg hk, restrict_set_of_pos hx v b]

theorem get?_restrict {x : String} (hx : keep x = true) :
    ∀ b : Bindings α, (restrict keep b).get? x = b.get? x
  | [] => rfl
  | (k, w) :: b => by
      cases hk : keep k with
      | true => rw [restrict_cons_of_pos hk, get?_cons, get?_cons, get?_restrict hx b]
      | false =>
          have hne : x ≠ k := by
            rintro rfl
            rw [hx] at hk
            exact Bool.noConfusion hk
          rw [restrict_cons_of_neg hk, get?_cons, if_neg hne, get?_restrict hx b]

end Bindings

end ScriptLang
