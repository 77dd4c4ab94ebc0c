import Mathlib
import ScriptLang.Proofs.Program.Levels

/-!
# Reading expressions back

The tokens of a printable expression are read as that expression again, up to places
(`readable`). Rows of one length are the one thing that is not read as it was written: they
make a matrix, which is why no array of them is printable.
-/

namespace ScriptLang

namespace Expr

/-! ## Rows -/

@[simp] theorem length_bareAll (es : List Expr) : (bareAll es).length = es.length := by
  rw [bareAll_eq, List.length_map]

theorem isRow_bare {e : Expr} {cols : Nat} :
    (∃ place row, e.bare = .array place row ∧ row.length = cols) ↔
      ∃ place row, e = .array place row ∧ row.length = cols := by
  cases e <;> simp [bare]

/-- Whether rows make a matrix does not depend on places. -/
theorem uniformRows_map_bare {items : List Expr} :
    UniformRows (items.map bare) ↔ UniformRows items := by
  simp only [UniformRows, ne_eq, List.map_eq_nil_iff, List.forall_mem_map, isRow_bare]

end Expr

section Rows

variable {α β : Type} {cols : Nat}

theorem map_rowsOf (f : α → β) (rows : Nat) (xs : List α) :
    (rowsOf cols rows xs).map (List.map f) = rowsOf cols rows (xs.map f) := by
  induction rows generalizing xs with
  | zero => rfl
  | succ rows ih => simp [rowsOf, ih]

theorem length_rowsOf (rows : Nat) (xs : List α) : (rowsOf cols rows xs).length = rows := by
  induction rows generalizing xs with
  | zero => rfl
  | succ rows ih => simp [rowsOf, ih]

theorem flatten_rowsOf {rows : Nat} {xs : List α} (h : xs.length = rows * cols) :
    (rowsOf cols rows xs).flatten = xs := by
  induction rows generalizing xs with
  | zero =>
      rw [Nat.zero_mul] at h
      rw [List.length_eq_zero_iff.mp h]
      rfl
  | succ rows ih =>
      rw [rowsOf, List.flatten_cons, ih, List.take_append_drop]
      rw [List.length_drop, h, Nat.succ_mul, Nat.add_sub_cancel]

theorem length_of_mem_rowsOf {rows : Nat} {xs : List α} (h : xs.length = rows * cols) :
    ∀ row ∈ rowsOf cols rows xs, row.length = cols := by
  induction rows generalizing xs with
  | zero => exact List.forall_mem_nil _
  | succ rows ih =>
      rw [Nat.succ_mul] at h
      refine List.forall_mem_cons.mpr ⟨?_, ih ?_⟩
      · rw [List.length_take]
        omega
      · rw [List.length_drop]
        omega

/-- Rows of one length are the rows of what they hold. -/
theorem rowsOf_flatten {rows : List (List α)} (h : ∀ row ∈ rows, row.length = cols) :
    rowsOf cols rows.length rows.flatten = rows := by
  induction rows with
  | nil => rfl
  | cons row rows ih =>
      obtain ⟨hrow, hrows⟩ := List.forall_mem_cons.mp h
      rw [List.length_cons, rowsOf, List.flatten_cons, ← hrow, List.take_left, List.drop_left, hrow,
        ih hrows]

end Rows

namespace Grammar

open ScriptLang.Parser

theorem rowOf?_eq_some {e : Expr} {row : List Expr} :
    rowOf? e = some row ↔ (∃ place, e = .array place row) ∧ row ≠ [] := by
  constructor
  · intro h
    unfold rowOf? at h
    split at h
    · obtain rfl := Option.some.inj h
      exact ⟨⟨_, rfl⟩, List.cons_ne_nil _ _⟩
    · cases h
  · rintro ⟨⟨place, rfl⟩, hne⟩
    obtain ⟨x, xs, rfl⟩ := List.exists_cons_of_ne_nil hne
    rfl

theorem mapM_eq_some_iff {α β : Type} {f : α → Option β} {xs : List α} {ys : List β} :
    xs.mapM f = some ys ↔ List.Forall₂ (fun x y => f x = some y) xs ys := by
  induction xs generalizing ys with
  | nil => simp [eq_comm]
  | cons x xs ih =>
      rw [List.mapM_cons, List.forall₂_cons_left_iff]
      constructor
      · intro h
        obtain ⟨y, hy, hrest⟩ := Option.bind_eq_some_iff.mp h
        obtain ⟨zs, hzs, hpure⟩ := Option.bind_eq_some_iff.mp hrest
        exact ⟨y, zs, hy, ih.mp hzs, (Option.some.inj hpure).symm⟩
      · rintro ⟨y, zs, hy, hzs, rfl⟩
        rw [hy, ih.mpr hzs]
        rfl

/-- The items are arrays that hold the rows. -/
def HasRows (items : List Expr) (rows : List (List Expr)) : Prop :=
  List.Forall₂ (fun e row => rowOf? e = some row) items rows

/-- A matrix is read exactly from rows of one length. -/
theorem matrixOf?_eq_some {items : List Expr} {cols : Nat} {cells : List Expr} :
    matrixOf? items = some (cols, cells) ↔
      ∃ rows, HasRows items rows ∧ rows ≠ [] ∧ (∀ row ∈ rows, row.length = cols) ∧
        cells = rows.flatten := by
  unfold matrixOf?
  constructor
  · intro h
    obtain ⟨rows, hrows, hmatrix⟩ := Option.bind_eq_some_iff.mp h
    cases rows with
    | nil => cases hmatrix
    | cons row rows =>
        dsimp only at hmatrix
        split at hmatrix
        · rename_i hall
          obtain ⟨rfl, rfl⟩ := Prod.mk.inj (Option.some.inj hmatrix)
          refine ⟨_, mapM_eq_some_iff.mp hrows, List.cons_ne_nil _ _, ?_, rfl⟩
          simpa using hall
        · cases hmatrix
  · rintro ⟨rows, hrows, hne, hlength, rfl⟩
    obtain ⟨row, rows, rfl⟩ := List.exists_cons_of_ne_nil hne
    obtain ⟨rfl, hall⟩ := List.forall_mem_cons.mp hlength
    rw [mapM_eq_some_iff.mpr hrows]
    exact if_pos (by simpa using hall)

theorem exists_hasRows_iff {items : List Expr} {cols : Nat} (hcols : cols ≠ 0) :
    (∃ rows, HasRows items rows ∧ ∀ row ∈ rows, row.length = cols) ↔
      ∀ e ∈ items, ∃ place row, e = .array place row ∧ row.length = cols := by
  induction items with
  | nil => simp [HasRows]
  | cons e items ih =>
      rw [List.forall_mem_cons, ← ih]
      constructor
      · rintro ⟨_, hrows, hlength⟩
        obtain ⟨row, rows, hrow, hrest, rfl⟩ := List.forall₂_cons_left_iff.mp hrows
        obtain ⟨⟨place, rfl⟩, _⟩ := rowOf?_eq_some.mp hrow
        obtain ⟨hfirst, hothers⟩ := List.forall_mem_cons.mp hlength
        exact ⟨⟨place, row, rfl, hfirst⟩, rows, hrest, hothers⟩
      · rintro ⟨⟨place, row, rfl, hfirst⟩, rows, hrest, hothers⟩
        have hne : row ≠ [] := by
          rintro rfl
          exact hcols hfirst.symm
        exact ⟨row :: rows, .cons (rowOf?_eq_some.mpr ⟨⟨place, rfl⟩, hne⟩) hrest,
          List.forall_mem_cons.mpr ⟨hfirst, hothers⟩⟩

theorem HasRows.cols_ne_zero {items : List Expr} {rows : List (List Expr)} {cols : Nat}
    (h : HasRows items rows) (hne : rows ≠ []) (hlength : ∀ row ∈ rows, row.length = cols) :
    items ≠ [] ∧ cols ≠ 0 := by
  cases h with
  | nil => exact absurd rfl hne
  | cons hrow _ =>
      refine ⟨List.cons_ne_nil _ _, ?_⟩
      rw [← hlength _ (List.mem_cons_self ..), ne_eq, List.length_eq_zero_iff]
      exact (rowOf?_eq_some.mp hrow).2

theorem matrixOf?_eq_none {items : List Expr} :
    matrixOf? items = none ↔ ¬Expr.UniformRows items := by
  rw [← not_iff_not, not_not, ← ne_eq, Option.ne_none_iff_exists']
  constructor
  · rintro ⟨⟨cols, cells⟩, h⟩
    obtain ⟨rows, hrows, hne, hlength, _⟩ := matrixOf?_eq_some.mp h
    obtain ⟨hitems, hcols⟩ := hrows.cols_ne_zero hne hlength
    exact ⟨hitems, cols, hcols, (exists_hasRows_iff hcols).mp ⟨rows, hrows, hlength⟩⟩
  · rintro ⟨hitems, cols, hcols, hall⟩
    obtain ⟨rows, hrows, hlength⟩ := (exists_hasRows_iff hcols).mpr hall
    have hne : rows ≠ [] := by
      rintro rfl
      exact hitems (List.forall₂_nil_right_iff.mp hrows)
    exact ⟨(cols, rows.flatten), matrixOf?_eq_some.mpr ⟨rows, hrows, hne, hlength, rfl⟩⟩

theorem array_of_bare {e : Expr} {row : List Expr} (h : e.bare = (Expr.array default row).bare) :
    ∃ place row', e = .array place row' ∧ row'.map Expr.bare = row.map Expr.bare := by
  cases e with
  | array place row' =>
      simp only [Expr.bare, Expr.array.injEq, true_and, Expr.bareAll_eq] at h
      exact ⟨place, row', rfl, h⟩
  | _ => simp [Expr.bare] at h

theorem hasRows_of_bare {items : List Expr} {rows : List (List Expr)}
    (hitems : items.map Expr.bare = rows.map fun row => (Expr.array default row).bare)
    (hne : ∀ row ∈ rows, row ≠ []) :
    ∃ rows', HasRows items rows' ∧
      rows'.map (List.map Expr.bare) = rows.map (List.map Expr.bare) := by
  induction rows generalizing items with
  | nil => exact ⟨[], by rw [List.map_eq_nil_iff.mp hitems]; exact .nil, rfl⟩
  | cons row rows ih =>
      obtain ⟨e, items, rfl, he, hrest⟩ := List.map_eq_cons_iff.mp hitems
      obtain ⟨hrow, hrows⟩ := List.forall_mem_cons.mp hne
      obtain ⟨place, row', rfl, hbare⟩ := array_of_bare he
      obtain ⟨rows', hhas, hmap⟩ := ih hrest hrows
      have hrow' : row' ≠ [] := by
        rintro rfl
        exact hrow (List.map_eq_nil_iff.mp hbare.symm)
      exact ⟨row' :: rows', .cons (rowOf?_eq_some.mpr ⟨⟨place, rfl⟩, hrow'⟩) hhas,
        by rw [List.map_cons, List.map_cons, hbare, hmap]⟩

/-- Items that are the rows of a matrix, up to places, make that matrix. -/
theorem matrixOf?_of_rows {items : List Expr} {rows : List (List Expr)} {cols : Nat}
    (hitems : items.map Expr.bare = rows.map fun row => (Expr.array default row).bare)
    (hne : rows ≠ []) (hcols : cols ≠ 0) (hlength : ∀ row ∈ rows, row.length = cols) :
    ∃ cells, matrixOf? items = some (cols, cells) ∧
      cells.map Expr.bare = rows.flatten.map Expr.bare := by
  obtain ⟨rows', hhas, hmap⟩ := hasRows_of_bare hitems fun row hrow => by
    rw [ne_eq, ← List.length_eq_zero_iff, hlength row hrow]
    exact hcols
  refine ⟨rows'.flatten, matrixOf?_eq_some.mpr ⟨rows', hhas, ?_, ?_, rfl⟩, ?_⟩
  · rintro rfl
    exact hne (List.map_eq_nil_iff.mp hmap.symm)
  · intro row' hrow'
    have hmem : row'.map Expr.bare ∈ rows.map (List.map Expr.bare) :=
      hmap ▸ List.mem_map_of_mem hrow'
    obtain ⟨row, hrow, hbare⟩ := List.mem_map.mp hmem
    rw [← hlength row hrow, ← List.length_map (f := Expr.bare), ← hbare, List.length_map]
  · rw [List.map_flatten, hmap, List.map_flatten]

/-! ## Lists of expressions -/

section Items

variable {β : Type} {xs : List β} {toks : β → List Token} {f : β → Expr} {m : Nat} {c : Cursor}
  {k : List Token} {close : Symbol}

/-- A list in brackets is read back item by item. -/
theorem succeeds_items (hread : ∀ x ∈ xs, ReadAt 0 (toks x) (f x))
    (hm : (commas (xs.map toks)).length ≤ m) (hclose : close = .rparen ∨ close = .rbracket)
    (hfirst : ∀ x ∈ xs, ∃ t ∈ (toks x).head?, t.startsExpr = true)
    (hc : c.tokens = commas (xs.map toks) ++ .symbol close :: k) :
    Succeeds (listUntil close (ofBound (m + 1)).expr (ofBound (m + 1)).rounds) c fun es c' =>
      es.map Expr.bare = xs.map (fun x => (f x).bare) ∧ c'.tokens = k := by
  have heach : ReadsEach (ofBound (m + 1)).expr toks (fun e x => e.bare = (f x).bare)
      (EndsAt 0) xs := by
    intro x hx k c hk hc
    have hle := length_le_commas (List.mem_map_of_mem (f := toks) hx)
    exact (hread x hx).whole (m := m) (by omega) hk hc
  have hrounds : xs.length ≤ (ofBound (m + 1)).rounds := by
    have hle := length_parts_le (xs.map toks)
    rw [List.length_map] at hle
    rw [rounds_ofBound]
    omega
  have hends : ∀ k, EndsAt 0 (.symbol close :: k) := by
    rcases hclose with rfl | rfl <;> simp [Token.reach]
  -- no item begins with the closing bracket, where the list would end
  have hnot : ∀ x ∈ xs, ∃ t ∈ (toks x).head?, t ≠ .symbol close := by
    intro x hx
    obtain ⟨t, ht, hstarts⟩ := hfirst x hx
    refine ⟨t, ht, ?_⟩
    rintro rfl
    rcases hclose with rfl | rfl <;> cases hstarts
  refine (succeeds_listUntil heach (by simp [Token.reach]) hends ?_ hrounds hnot hc).imp ?_
  · rcases hclose with rfl | rfl <;> decide
  · rintro es c' ⟨hes, hc'⟩
    refine ⟨?_, hc'⟩
    rw [← List.forall₂_eq_eq_eq, List.forall₂_map_left_iff, List.forall₂_map_right_iff]
    exact hes

end Items

/-! ## All expressions -/

/-- The expression is read back at every place where it can stand. -/
def Readable (e : Expr) : Prop := ∀ n ≤ 5, ReadAt n (e.operand n e.tokens) e

theorem Readable.expr {e : Expr} (h : Readable e) : ReadAt 0 e.tokens e := by
  have hzero := h 0 (by decide)
  rwa [Expr.operand, if_neg (Nat.not_lt_zero _)] at hzero

/-- An expression begins with one of the tokens for that, and with a sign only if it is one. -/
theorem head_operand {e : Expr} (n : Nat)
    (h : ∃ t ∈ e.tokens.head?, t.startsExpr = true ∧ (4 ≤ e.level → unaryOp? t = none))
    (more : List Token) :
    ∃ t ∈ (e.operand n e.tokens ++ more).head?, t.startsExpr = true ∧
      (4 ≤ n → unaryOp? t = none) := by
  unfold Expr.operand
  split
  · exact ⟨.symbol .lparen, rfl, rfl, fun _ => rfl⟩
  · obtain ⟨t, ht, hstarts, hsign⟩ := h
    refine ⟨t, ?_, hstarts, fun hn => hsign (by omega)⟩
    rw [List.head?_append, Option.mem_def.mp ht]
    rfl

theorem head_tokens : ∀ e : Expr, ∃ t ∈ e.tokens.head?, t.startsExpr = true ∧
    (4 ≤ e.level → unaryOp? t = none)
  | .number .. | .text .. | .name .. | .self .. | .array .. | .dict .. | .matrix .. | .call ..
  | .create .. | .superCall .. => by
      rw [Expr.tokens]
      exact ⟨_, rfl, rfl, fun _ => rfl⟩
  | .bool _ b => by
      rw [Expr.tokens]
      exact ⟨_, rfl, by cases b <;> rfl, fun _ => rfl⟩
  | .unary _ op _ => by
      rw [Expr.tokens]
      exact ⟨_, rfl, by cases op <;> rfl, fun h => absurd h (by simp [Expr.level])⟩
  | .binary _ left op _ => by
      rw [Expr.tokens]
      obtain ⟨t, ht, hstarts, _⟩ := head_operand op.level (head_tokens left) _
      refine ⟨t, ht, hstarts, fun h => ?_⟩
      have hlt := op.level_lt
      simp only [Expr.level] at h
      omega
  | .index _ target _ | .field _ target _ | .methodCall _ target _ _ => by
      rw [Expr.tokens]
      obtain ⟨t, ht, hstarts, hsign⟩ := head_operand 4 (head_tokens target) _
      exact ⟨t, ht, hstarts, fun _ => hsign (Nat.le_refl 4)⟩

theorem tokens_pos (e : Expr) : 0 < e.tokens.length := by
  obtain ⟨t, ht, _⟩ := head_tokens e
  rw [List.length_pos_iff]
  intro hnil
  rw [hnil] at ht
  cases ht

/-- It is enough to read an expression at its own level. -/
theorem readable_of_level {e : Expr} (h : ReadAt e.level e.tokens e) : Readable e := by
  have hsign : 4 ≤ e.level → ∃ t ∈ e.tokens.head?, unaryOp? t = none := by
    intro hlevel
    obtain ⟨t, ht, _, hsign⟩ := head_tokens e
    exact ⟨t, ht, hsign hlevel⟩
  intro n hn
  unfold Expr.operand
  split
  · have hparen := (h.lower (Nat.zero_le _) e.level_le (tokens_pos e) hsign).parenthesized
    refine hparen.lower hn (Nat.le_refl 5) (Nat.succ_pos _) fun _ => ?_
    exact ⟨.symbol .lparen, rfl, rfl⟩
  · exact h.lower (by omega) e.level_le (tokens_pos e) hsign

section Cases

variable {m : Nat} {k : List Token} {c : Cursor} {place : Place} {args : List Expr}

theorem startsExpr_tokens (e : Expr) : ∃ t ∈ e.tokens.head?, t.startsExpr = true := by
  obtain ⟨t, ht, hstarts, _⟩ := head_tokens e
  exact ⟨t, ht, hstarts⟩

/-- Expressions with commas between them, up to a closing symbol. -/
theorem succeeds_exprs {es : List Expr} {close : Symbol} (h : ∀ e ∈ es, Readable e)
    (hm : (commas (Expr.tokensAll es)).length ≤ m) (hclose : close = .rparen ∨ close = .rbracket)
    (hc : c.tokens = commas (Expr.tokensAll es) ++ .symbol close :: k) :
    Succeeds (listUntil close (ofBound (m + 1)).expr (ofBound (m + 1)).rounds) c fun es' c' =>
      Expr.bareAll es' = Expr.bareAll es ∧ c'.tokens = k := by
  simp only [Expr.bareAll_eq]
  rw [Expr.tokensAll_eq] at hm hc
  exact succeeds_items (f := fun e => e) (fun e he => (h e he).expr) hm hclose
    (fun e _ => startsExpr_tokens e) hc

theorem succeeds_arguments (h : ∀ e ∈ args, Readable e)
    (hm : (parenthesized (commas (Expr.tokensAll args))).length ≤ m + 1)
    (hc : c.tokens = parenthesized (commas (Expr.tokensAll args)) ++ k) :
    Succeeds (ofBound (m + 1)).arguments c fun args' c' =>
      Expr.bareAll args' = Expr.bareAll args ∧ c'.tokens = k := by
  simp only [parenthesized, enclosed, List.length_cons, List.length_append, List.cons_append,
    List.append_assoc, List.nil_append] at hm hc
  rw [arguments, succeeds_bind, succeeds_expect, hc]
  refine ⟨rfl, succeeds_exprs h (by omega) (Or.inl rfl) ?_⟩
  rw [Cursor.tokens_next, hc]
  rfl

theorem readAt_name {x : String} : ReadAt 5 [.name x] (.name place x) := by
  refine .of_primary fun m k c hm hk hc => ?_
  have hparen : k.head? ≠ some (.symbol .lparen) := hk.head?_ne rfl (by decide)
  rw [primary]
  simp [hc, hparen, Gives, Expr.bare]

theorem readAt_call {callee : String} (h : ∀ e ∈ args, Readable e) :
    ReadAt 5 (.name callee :: parenthesized (commas (Expr.tokensAll args)))
      (.call place callee args) := by
  refine .of_primary fun m k c hm hk hc => ?_
  obtain ⟨m, rfl⟩ : ∃ n, m = n + 1 := ⟨m - 1, by simp at hm; omega⟩
  have hparen : (parenthesized (commas (Expr.tokensAll args)) ++ k).head? =
      some (.symbol .lparen) := rfl
  rw [primary]
  simp only [succeeds_bind, succeeds_here, succeeds_peek, succeeds_advance, succeeds_sees, hc,
    Cursor.tokens_next, List.cons_append, List.head?_cons, List.tail_cons, hparen, decide_true,
    if_true, succeeds_since, succeeds_pure, Option.isSome_some, true_and]
  simp only [List.length_cons] at hm
  refine (succeeds_arguments h (by omega) (k := k) (by simp [hc])).imp ?_
  rintro args' c' ⟨hargs', hc'⟩
  exact ⟨by rw [Expr.bare, Expr.bare, hargs'], hc'⟩

theorem readAt_create {className : String} (h : ∀ e ∈ args, Readable e) :
    ReadAt 5 (.keyword .newKw :: .name className :: parenthesized (commas (Expr.tokensAll args)))
      (.create place className args) := by
  refine .of_primary fun m k c hm hk hc => ?_
  obtain ⟨m, rfl⟩ : ∃ n, m = n + 1 := ⟨m - 1, by simp at hm; omega⟩
  rw [primary]
  simp only [succeeds_bind, succeeds_here, succeeds_peek, succeeds_advance, succeeds_identifier, hc,
    Cursor.tokens_next, List.cons_append, List.head?_cons, List.tail_cons, Option.some.injEq,
    Token.name.injEq, exists_eq_left', succeeds_since, succeeds_pure, Option.isSome_some, true_and]
  simp only [List.length_cons] at hm
  refine (succeeds_arguments h (by omega) (k := k) (by simp [hc])).imp ?_
  rintro args' c' ⟨hargs', hc'⟩
  exact ⟨by rw [Expr.bare, Expr.bare, hargs'], hc'⟩

theorem readAt_superCall {method : String} (h : ∀ e ∈ args, Readable e) :
    ReadAt 5 (.keyword .superKw :: .symbol .dot :: .name method ::
      parenthesized (commas (Expr.tokensAll args))) (.superCall place method args) := by
  refine .of_primary fun m k c hm hk hc => ?_
  obtain ⟨m, rfl⟩ : ∃ n, m = n + 1 := ⟨m - 1, by simp at hm; omega⟩
  rw [primary]
  simp only [succeeds_bind, succeeds_here, succeeds_peek, succeeds_advance, succeeds_expect,
    succeeds_identifier, hc, Cursor.tokens_next, List.cons_append, List.head?_cons, List.tail_cons,
    true_and, Option.some.injEq, Token.name.injEq, exists_eq_left', succeeds_since, succeeds_pure,
    Option.isSome_some]
  simp only [List.length_cons] at hm
  refine (succeeds_arguments h (by omega) (k := k) (by simp [hc])).imp ?_
  rintro args' c' ⟨hargs', hc'⟩
  exact ⟨by rw [Expr.bare, Expr.bare, hargs'], hc'⟩

theorem readAt_methodCall {ts : List Token} {receiver : Expr} {method : String}
    (hreceiver : ReadAt 4 ts receiver) (h : ∀ e ∈ args, Readable e) :
    ReadAt 4 (ts ++ .symbol .dot :: .name method :: parenthesized (commas (Expr.tokensAll args)))
      (.methodCall place receiver method args) := by
  refine hreceiver.behind (by simp [Token.reach]) (by simp) ?_
  intro m start k receiver' rounds c Q hm hk hreceiver' hc hnext
  simp only [List.length_cons] at hm
  obtain ⟨m, rfl⟩ : ∃ n, m = n + 1 := ⟨m - 1, by omega⟩
  have hparen : (parenthesized (commas (Expr.tokensAll args)) ++ k).head? =
      some (.symbol .lparen) := rfl
  rw [postfixes]
  simp only [succeeds_bind, succeeds_here, succeeds_peek, succeeds_advance, succeeds_identifier,
    succeeds_sees, succeeds_since, hc, Cursor.tokens_next, List.cons_append, List.head?_cons,
    List.tail_cons, Option.some.injEq, Token.name.injEq, exists_eq_left', hparen, decide_true,
    if_true, Option.isSome_some, true_and]
  refine (succeeds_arguments h (by omega) (k := k) (by simp [hc])).imp ?_
  rintro args' c' ⟨hargs', hc'⟩
  exact hnext _ _ (by rw [Expr.bare, Expr.bare, hreceiver', hargs']) hc'

theorem readAt_array {items : List Expr} (h : ∀ e ∈ items, Readable e)
    (hrows : ¬Expr.UniformRows items) :
    ReadAt 5 (bracketed (commas (Expr.tokensAll items))) (.array place items) := by
  refine .of_primary fun m k c hm hk hc => ?_
  simp only [bracketed, enclosed, List.length_cons, List.length_append, List.cons_append,
    List.append_assoc, List.nil_append] at hm hc
  obtain ⟨m, rfl⟩ : ∃ n, m = n + 1 := ⟨m - 1, by omega⟩
  rw [primary]
  simp only [succeeds_bind, succeeds_here, succeeds_peek, succeeds_advance, hc, List.head?_cons,
    Option.isSome_some, true_and]
  rw [arrayLiteral, succeeds_bind]
  refine (succeeds_exprs h (by omega) (Or.inr rfl) (by rw [Cursor.tokens_next, hc]; rfl)).imp ?_
  rintro items' c' ⟨hitems', hc'⟩
  have hnone : matrixOf? items' = none := by
    rw [matrixOf?_eq_none, ← Expr.uniformRows_map_bare, ← Expr.bareAll_eq, hitems',
      Expr.bareAll_eq, Expr.uniformRows_map_bare]
    exact hrows
  simp only [succeeds_bind, succeeds_since, hnone, succeeds_pure]
  exact ⟨by rw [Expr.bare, Expr.bare, hitems'], hc'⟩

theorem readAt_matrix {rows cols : Nat} {cells : List Expr} (h : ∀ e ∈ cells, Readable e)
    (hrows : rows ≠ 0) (hcols : cols ≠ 0) (hlength : cells.length = rows * cols)
    (huniform : ∀ row ∈ rowsOf cols rows cells, ¬Expr.UniformRows row) :
    ReadAt 5 (Expr.matrix place rows cols cells).tokens (.matrix place rows cols cells) := by
  have htokens : (Expr.matrix place rows cols cells).tokens =
      bracketed (commas ((rowsOf cols rows cells).map
        fun row => bracketed (commas (Expr.tokensAll row)))) := by
    rw [Expr.tokens, Expr.tokensAll_eq, ← map_rowsOf, List.map_map]
    simp only [Expr.tokensAll_eq, Function.comp_def]
  -- A row is read as an array of its own; that it belongs to a matrix shows when all are read.
  have hread : ∀ row ∈ rowsOf cols rows cells,
      ReadAt 0 (bracketed (commas (Expr.tokensAll row))) (.array default row) := by
    intro row hrow
    have hitems : ∀ e ∈ row, Readable e := by
      intro e he
      refine h e ?_
      rw [← flatten_rowsOf hlength]
      exact List.mem_flatten.mpr ⟨row, hrow, he⟩
    refine (readAt_array hitems (huniform row hrow)).lower (Nat.zero_le _) (Nat.le_refl _)
      (Nat.succ_pos _) fun _ => ?_
    exact ⟨.symbol .lbracket, rfl, rfl⟩
  rw [htokens]
  refine .of_primary fun m k c hm hk hc => ?_
  simp only [bracketed, enclosed, List.length_cons, List.length_append, List.cons_append,
    List.append_assoc, List.nil_append] at hm hc
  obtain ⟨m, rfl⟩ : ∃ n, m = n + 1 := ⟨m - 1, by omega⟩
  rw [primary]
  simp only [succeeds_bind, succeeds_here, succeeds_peek, succeeds_advance, hc, List.head?_cons,
    Option.isSome_some, true_and]
  rw [arrayLiteral, succeeds_bind]
  refine (succeeds_items hread (m := m) (k := k) (by simp only [bracketed, enclosed]; omega)
    (Or.inr rfl) (fun _ _ => ⟨.symbol .lbracket, rfl, rfl⟩)
    (by rw [Cursor.tokens_next, hc]; rfl)).imp ?_
  rintro items c' ⟨hitems, hc'⟩
  have hne : rowsOf cols rows cells ≠ [] := by
    rw [ne_eq, ← List.length_eq_zero_iff, length_rowsOf]
    exact hrows
  obtain ⟨cells', hmatrix, hcells'⟩ :=
    matrixOf?_of_rows hitems hne hcols (length_of_mem_rowsOf hlength)
  have hcount : items.length = rows := by
    rw [← List.length_map (f := Expr.bare), hitems, List.length_map, length_rowsOf]
  simp only [succeeds_bind, succeeds_since, hmatrix, succeeds_pure]
  refine ⟨?_, hc'⟩
  rw [Expr.bare, Expr.bare, Expr.bareAll_eq, hcells', flatten_rowsOf hlength, hcount,
    Expr.bareAll_eq]

theorem readsEach_entries {entries : List (String × Expr)} (h : ∀ x ∈ entries, Readable x.2)
    (hm : (commas (Expr.tokensEntries entries)).length ≤ m) :
    ReadsEach (ofBound (m + 1)).dictEntry
      (fun x : String × Expr => .text x.1 :: .symbol .colon :: x.2.tokens)
      (fun x' x => (x'.1, x'.2.bare) = (x.1, x.2.bare)) (EndsAt 0) entries := by
  rintro ⟨key, e⟩ hx k c hk hc
  have hle := length_le_commas (List.mem_map_of_mem
    (f := fun x : String × Expr => .text x.1 :: .symbol .colon :: x.2.tokens) hx)
  rw [← Expr.tokensEntries_eq] at hle
  simp only [List.length_cons] at hle
  simp only [List.cons_append] at hc
  rw [dictEntry]
  simp only [succeeds_bind, succeeds_peek, hc, List.head?_cons, succeeds_advance, succeeds_pure,
    succeeds_expect, Cursor.tokens_next, List.tail_cons, true_and, Option.isSome_some]
  have he : Readable e := h _ hx
  refine Succeeds.imp (he.expr.whole (m := m) (k := k) (by omega) hk (by simp [hc])) ?_
  rintro e' c' ⟨he', hc'⟩
  exact ⟨by rw [he'], hc'⟩

theorem readAt_dict {entries : List (String × Expr)} (h : ∀ x ∈ entries, Readable x.2) :
    ReadAt 5 (braced (commas (Expr.tokensEntries entries))) (.dict place entries) := by
  refine .of_primary fun m k c hm hk hc => ?_
  simp only [braced, enclosed, List.length_cons, List.length_append, List.cons_append,
    List.append_assoc, List.nil_append] at hm hc
  obtain ⟨m, rfl⟩ : ∃ n, m = n + 1 := ⟨m - 1, by omega⟩
  have hrounds : entries.length ≤ (ofBound (m + 1)).rounds := by
    have hle := length_parts_le (Expr.tokensEntries entries)
    rw [Expr.tokensEntries_eq, List.length_map, ← Expr.tokensEntries_eq] at hle
    rw [rounds_ofBound]
    omega
  rw [primary]
  simp only [succeeds_bind, succeeds_here, succeeds_peek, succeeds_advance, hc, List.head?_cons,
    Option.isSome_some, true_and]
  refine (succeeds_listUntil (readsEach_entries h (by omega)) (k := k) (by simp [Token.reach])
    (by simp [Token.reach]) (by decide) hrounds (fun _ _ => ⟨_, rfl, by simp⟩) ?_).imp ?_
  · rw [Cursor.tokens_next, hc, ← Expr.tokensEntries_eq]
    rfl
  · rintro entries' c' ⟨hentries', hc'⟩
    simp only [succeeds_since, succeeds_pure]
    refine ⟨?_, hc'⟩
    rw [Expr.bare, Expr.bare, Expr.bareEntries_eq, Expr.bareEntries_eq]
    congr 1
    rw [← List.forall₂_eq_eq_eq, List.forall₂_map_left_iff, List.forall₂_map_right_iff]
    exact hentries'

end Cases

mutual

/-- The tokens of a printable expression are read as that expression. -/
theorem readable : ∀ e : Expr, e.Printable → Readable e
  | .number .., _ | .text .., _ | .self .., _ => by
      refine readable_of_level (.of_primary fun m k c hm hk hc => ?_)
      rw [Expr.tokens] at hc
      rw [primary]
      simp [hc, Gives, Expr.bare]
  | .bool _ b, _ => by
      refine readable_of_level (.of_primary fun m k c hm hk hc => ?_)
      rw [Expr.tokens] at hc
      rw [primary]
      cases b <;> simp [hc, Gives, Expr.bare]
  | .name .., _ => readable_of_level (by rw [Expr.tokens]; exact readAt_name)
  | .array _ items, h => by
      rw [Expr.Printable] at h
      exact readable_of_level (by rw [Expr.tokens]; exact readAt_array (readableAll items h.2) h.1)
  | .dict _ entries, h => by
      rw [Expr.Printable] at h
      exact readable_of_level (by rw [Expr.tokens]; exact readAt_dict (readableEntries entries h))
  | .matrix _ rows cols cells, h => by
      rw [Expr.Printable] at h
      obtain ⟨hrows, hcols, hlength, huniform, hcells⟩ := h
      exact readable_of_level
        (readAt_matrix (readableAll cells hcells) hrows hcols hlength huniform)
  | .binary _ left op right, h => by
      rw [Expr.Printable] at h
      -- the left operand is read at the level of the operator, the right one above it
      have hlt := op.level_lt
      refine readable_of_level ?_
      rw [Expr.tokens]
      exact (readable left h.1 op.level (by omega)).binary (readable right h.2 _ (by omega))
  | .unary _ op operand, h => by
      rw [Expr.Printable] at h
      refine readable_of_level ?_
      rw [Expr.tokens]
      exact (readable operand h 3 (by decide)).unary
  | .call _ callee args, h => by
      rw [Expr.Printable] at h
      exact readable_of_level (by rw [Expr.tokens]; exact readAt_call (readableAll args h))
  | .index _ target key, h => by
      rw [Expr.Printable] at h
      refine readable_of_level ?_
      rw [Expr.tokens]
      exact (readable target h.1 4 (by decide)).index (readable key h.2).expr
  | .field _ target label, h => by
      rw [Expr.Printable] at h
      refine readable_of_level ?_
      rw [Expr.tokens]
      exact (readable target h 4 (by decide)).field
  | .methodCall _ receiver method args, h => by
      rw [Expr.Printable] at h
      refine readable_of_level ?_
      rw [Expr.tokens]
      exact readAt_methodCall (readable receiver h.1 4 (by decide)) (readableAll args h.2)
  | .create _ className args, h => by
      rw [Expr.Printable] at h
      exact readable_of_level (by rw [Expr.tokens]; exact readAt_create (readableAll args h))
  | .superCall _ method args, h => by
      rw [Expr.Printable] at h
      exact readable_of_level (by rw [Expr.tokens]; exact readAt_superCall (readableAll args h))

theorem readableAll : ∀ es : List Expr, Expr.AllPrintable es → ∀ e ∈ es, Readable e
  | [], _ => List.forall_mem_nil _
  | e :: es, h => by
      rw [Expr.AllPrintable] at h
      exact List.forall_mem_cons.mpr ⟨readable e h.1, readableAll es h.2⟩

theorem readableEntries : ∀ entries : List (String × Expr), Expr.EntriesPrintable entries →
    ∀ x ∈ entries, Readable x.2
  | [], _ => List.forall_mem_nil _
  | (_, e) :: entries, h => by
      rw [Expr.EntriesPrintable] at h
      exact List.forall_mem_cons.mpr ⟨readable e h.1, readableEntries entries h.2⟩

end

end Grammar

end ScriptLang
