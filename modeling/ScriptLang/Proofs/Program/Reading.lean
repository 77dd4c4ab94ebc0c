import Mathlib
import ScriptLang.Proofs.Program.Printer
import ScriptLang.Program.Parser

/-!
# What parsers read

A parser that succeeds does so step by step: `Succeeds` goes through a sequence of parsers, and
only the tokens that a cursor stands before decide which way it takes. The rules for the basic
parsers are equivalences, so that a run over known tokens is a matter of rewriting.
-/

namespace ScriptLang

namespace Cursor

/-- The tokens not yet read. -/
def tokens (c : Cursor) : List Token := c.rest.map (·.token)

theorem token?_eq (c : Cursor) : c.token? = c.tokens.head? := by
  rw [token?, tokens, List.head?_map]

@[simp] theorem tokens_next (c : Cursor) : c.next.tokens = c.tokens.tail := by
  obtain ⟨rest, last, final⟩ := c
  cases rest <;> rfl

@[simp] theorem tokens_skipSemis (c : Cursor) :
    c.skipSemis.tokens = c.tokens.dropWhile (· = .symbol .semi) := by
  obtain ⟨rest, last, final⟩ := c
  simp only [tokens, skipSemis]
  induction rest generalizing last with
  | nil => rfl
  | cons l rest ih =>
      by_cases h : l.token = .symbol .semi
      · simp [overSemis, h, ih]
      · simp [overSemis, h]

theorem dropWhile_semi {ts : List Token} (h : ts.head? ≠ some (.symbol .semi)) :
    ts.dropWhile (· = .symbol .semi) = ts := by
  cases ts with
  | nil => rfl
  | cons t ts => exact List.dropWhile_cons_of_neg (by simpa using h)

end Cursor

namespace Parser

variable {α β : Type}

/-- The parser succeeds from the cursor, with a result and a cursor of which `Q` holds. -/
def Succeeds (p : Parser α) (c : Cursor) (Q : α → Cursor → Prop) : Prop :=
  ∃ a c', p c = .ok (a, c') ∧ Q a c'

theorem Succeeds.imp {p : Parser α} {c : Cursor} {P Q : α → Cursor → Prop}
    (h : Succeeds p c P) (himp : ∀ a c', P a c' → Q a c') : Succeeds p c Q := by
  obtain ⟨a, c', heq, hp⟩ := h
  exact ⟨a, c', heq, himp a c' hp⟩

theorem succeeds_of_eq {p : Parser α} {c c' : Cursor} {a : α} {Q : α → Cursor → Prop}
    (h : p c = .ok (a, c')) : Succeeds p c Q ↔ Q a c' := by
  constructor
  · rintro ⟨b, d, heq, hq⟩
    obtain ⟨rfl, rfl⟩ := Prod.mk.inj (Except.ok.inj (h.symm.trans heq))
    exact hq
  · intro hq
    exact ⟨a, c', h, hq⟩

theorem bind_apply (p : Parser α) (f : α → Parser β) (c : Cursor) :
    (p >>= f) c = (p c).bind fun x => f x.1 x.2 :=
  rfl

variable {c : Cursor}

@[simp] theorem succeeds_bind {p : Parser α} {f : α → Parser β} {Q : β → Cursor → Prop} :
    Succeeds (p >>= f) c Q ↔ Succeeds p c fun a c' => Succeeds (f a) c' Q := by
  constructor
  · rintro ⟨b, d, heq, hq⟩
    rw [bind_apply] at heq
    cases hp : p c with
    | error e =>
        rw [hp] at heq
        cases heq
    | ok x =>
        rw [hp] at heq
        exact ⟨x.1, x.2, hp, b, d, heq, hq⟩
  · rintro ⟨a, c', hp, b, d, heq, hq⟩
    refine ⟨b, d, ?_, hq⟩
    rw [bind_apply, hp]
    exact heq

@[simp] theorem succeeds_pure {a : α} {Q : α → Cursor → Prop} : Succeeds (pure a) c Q ↔ Q a c :=
  succeeds_of_eq rfl

@[simp] theorem succeeds_map {p : Parser α} {f : α → β} {Q : β → Cursor → Prop} :
    Succeeds (f <$> p) c Q ↔ Succeeds p c fun a c' => Q (f a) c' := by
  simp only [map_eq_pure_bind, succeeds_bind, succeeds_pure]

@[simp] theorem succeeds_peek {Q : Option Token → Cursor → Prop} :
    Succeeds peek c Q ↔ Q c.tokens.head? c := by
  rw [← Cursor.token?_eq]
  exact succeeds_of_eq rfl

@[simp] theorem succeeds_here {Q : Place → Cursor → Prop} :
    Succeeds here c Q ↔ Q ⟨c.span, c.line⟩ c :=
  succeeds_of_eq rfl

@[simp] theorem succeeds_since {start : Place} {Q : Place → Cursor → Prop} :
    Succeeds (since start) c Q ↔ Q ⟨start.span.merge c.last, start.line⟩ c :=
  succeeds_of_eq rfl

@[simp] theorem succeeds_advance {Q : Unit → Cursor → Prop} :
    Succeeds advance c Q ↔ c.tokens.head?.isSome ∧ Q () c.next := by
  obtain ⟨rest, last, final⟩ := c
  cases rest with
  | nil =>
      refine ⟨?_, fun h => absurd h.1 Bool.false_ne_true⟩
      rintro ⟨_, _, heq, _⟩
      cases heq
  | cons l rest => exact (succeeds_of_eq rfl).trans (and_iff_right rfl).symm

@[simp] theorem succeeds_skipSemis {Q : Unit → Cursor → Prop} :
    Succeeds skipSemis c Q ↔ Q () c.skipSemis :=
  succeeds_of_eq rfl

@[simp] theorem succeeds_sees {t : Token} {Q : Bool → Cursor → Prop} :
    Succeeds (sees t) c Q ↔ Q (c.tokens.head? = some t) c := by
  rw [← Cursor.token?_eq]
  exact succeeds_of_eq rfl

@[simp] theorem succeeds_eat {t : Token} {Q : Bool → Cursor → Prop} :
    Succeeds (eat t) c Q ↔ if c.tokens.head? = some t then Q true c.next else Q false c := by
  rw [← Cursor.token?_eq]
  by_cases h : c.token? = some t
  · rw [if_pos h]
    exact succeeds_of_eq (if_pos h)
  · rw [if_neg h]
    exact succeeds_of_eq (if_neg h)

theorem not_succeeds_fail {what : Expected} {Q : α → Cursor → Prop} :
    ¬Succeeds (fail what) c Q := by
  rintro ⟨_, _, heq, _⟩
  cases heq

@[simp] theorem succeeds_expect {t : Token} {Q : Unit → Cursor → Prop} :
    Succeeds (expect t) c Q ↔ c.tokens.head? = some t ∧ Q () c.next := by
  rw [expect, succeeds_bind, succeeds_eat]
  by_cases h : c.tokens.head? = some t
  · rw [if_pos h, and_iff_right h]
    exact succeeds_pure
  · rw [if_neg h]
    exact ⟨fun hfail => absurd hfail not_succeeds_fail, fun hright => absurd hright.1 h⟩

@[simp] theorem succeeds_identifier {Q : String → Cursor → Prop} :
    Succeeds identifier c Q ↔ ∃ x, c.tokens.head? = some (.name x) ∧ Q x c.next := by
  rw [identifier, succeeds_bind, succeeds_peek]
  split
  · rename_i x hhead
    simp [hhead]
  · rename_i hother
    refine ⟨fun hfail => absurd hfail not_succeeds_fail, ?_⟩
    rintro ⟨x, hx, _⟩
    exact absurd hx (hother x)

/-! ## Lists -/

section Lists

variable {xs : List β} {toks : β → List Token} {item : Parser α} {R : α → β → Prop}
  {Ends : List Token → Prop} {k : List Token} {rounds : Nat}

/-- The parser reads the tokens of every element, whatever of `Ends` follows them. -/
def ReadsEach (item : Parser α) (toks : β → List Token) (R : α → β → Prop)
    (Ends : List Token → Prop) (xs : List β) : Prop :=
  ∀ x ∈ xs, ∀ (k : List Token) (c : Cursor), Ends k → c.tokens = toks x ++ k →
    Succeeds item c fun a c' => R a x ∧ c'.tokens = k

theorem succeeds_commaList (hitem : ReadsEach item toks R Ends xs)
    (hcomma : ∀ k, Ends (.symbol .comma :: k)) (hends : Ends k)
    (hk : k.head? ≠ some (.symbol .comma)) (hne : xs ≠ []) (hrounds : xs.length ≤ rounds)
    (done : List α) (hc : c.tokens = commas (xs.map toks) ++ k) :
    Succeeds (commaList item rounds done) c fun as c' =>
      (∃ bs, as = done.reverse ++ bs ∧ List.Forall₂ R bs xs) ∧ c'.tokens = k := by
  induction xs generalizing c rounds done with
  | nil => exact absurd rfl hne
  | cons x xs ih =>
      obtain ⟨rounds, rfl⟩ : ∃ n, rounds = n + 1 := Nat.exists_eq_succ_of_ne_zero (by
        rintro rfl
        cases hrounds)
      obtain ⟨hx, hxs⟩ := List.forall_mem_cons.mp hitem
      rw [commaList, succeeds_bind]
      -- a comma follows just if another item does
      cases xs with
      | nil =>
          refine (hx k c hends hc).imp ?_
          rintro a c' ⟨ha, hc'⟩
          simp [hc', hk, ha]
      | cons y ys =>
          have htokens : c.tokens =
              toks x ++ .symbol .comma :: (commas ((y :: ys).map toks) ++ k) := by
            rw [hc]
            simp [commas]
          refine (hx _ c (hcomma _) htokens).imp ?_
          rintro a c' ⟨ha, hc'⟩
          have hnext : c'.next.tokens = commas ((y :: ys).map toks) ++ k := by
            rw [Cursor.tokens_next, hc']
            rfl
          rw [succeeds_bind, succeeds_eat, if_pos (by rw [hc']; rfl), if_pos rfl]
          refine (ih hxs (by simp) (Nat.le_of_succ_le_succ hrounds) (a :: done) hnext).imp ?_
          rintro as c'' ⟨⟨bs, rfl, hbs⟩, hc''⟩
          exact ⟨⟨a :: bs, by simp, .cons ha hbs⟩, hc''⟩

theorem head?_commas {part : List Token} (hne : part ≠ []) (parts : List (List Token)) :
    (commas (part :: parts)).head? = part.head? := by
  obtain ⟨t, ts, rfl⟩ := List.exists_cons_of_ne_nil hne
  cases parts <;> rfl

theorem succeeds_listUntil {close : Symbol} (hitem : ReadsEach item toks R Ends xs)
    (hcomma : ∀ k, Ends (.symbol .comma :: k)) (hends : ∀ k, Ends (.symbol close :: k))
    (hclose : close ≠ .comma) (hrounds : xs.length ≤ rounds)
    (hfirst : ∀ x ∈ xs, ∃ t ∈ (toks x).head?, t ≠ .symbol close)
    (hc : c.tokens = commas (xs.map toks) ++ .symbol close :: k) :
    Succeeds (listUntil close item rounds) c fun as c' =>
      List.Forall₂ R as xs ∧ c'.tokens = k := by
  rw [listUntil]
  cases xs with
  | nil => simp [hc, commas]
  | cons x xs =>
      obtain ⟨t, ht, hne⟩ := hfirst x (by simp)
      have hparts : toks x ≠ [] := by
        intro hnil
        rw [hnil] at ht
        cases ht
      have hhead : c.tokens.head? = some t := by
        rw [hc, List.map_cons, List.head?_append, head?_commas hparts, Option.mem_def.mp ht]
        rfl
      simp only [succeeds_bind, succeeds_eat, hhead, Option.some.injEq, hne, if_false,
        Bool.false_eq_true]
      refine (succeeds_commaList hitem hcomma (hends k) (by simpa using hclose) (by simp) hrounds []
        hc).imp ?_
      rintro as c' ⟨⟨bs, rfl, hbs⟩, hc'⟩
      simp [hc', hbs]

end Lists

end Parser

end ScriptLang
