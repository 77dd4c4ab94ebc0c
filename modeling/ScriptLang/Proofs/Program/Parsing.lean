import Mathlib
import ScriptLang.Proofs.Program.Follows

/-!
# What the parsers of the grammar do

Each parser is followed once, beside the same parser of a grammar for more tokens in a
longer text. The parsers for inner parts are supposed to be known where fewer tokens are
left (`Inner`), and the grammars are built from those for fewer tokens.
-/

namespace ScriptLang

namespace Expr

theorem place_movedTo (e : Expr) (p : Place) : (e.movedTo p).place = p := by
  cases e <;> rfl

theorem children_movedTo (e : Expr) (p : Place) : (e.movedTo p).children = e.children := by
  cases e <;> rfl

theorem shaped_movedTo {e : Expr} {p : Place} (h : e.Shaped) : (e.movedTo p).Shaped := by
  cases e <;> exact h

end Expr

theorem Node.ofBlock_nil : ofBlock [] = [] := rfl

namespace Grammar

open ScriptLang.Parser
open ScriptLang.Node
open ScriptLang.Cursor (Near near_within Passes)

/-- An expression was read. -/
def IsExpr (c : Cursor) (e : Expr) (d : Cursor) : Prop := c.Spans (.expr e) d

/-- A statement was read, and if it begins as an exported one does it can be exported. -/
structure IsStmt (c : Cursor) (s : Stmt) (d : Cursor) : Prop where
  spans : c.Spans (.stmt s) d
  shareable : ∀ word ∈ [Keyword.fnKw, .letKw, .classKw],
    c.token? = some (.keyword word) → s.IsShareable

/-- The parsers for inner parts do what they should where fewer than `n` tokens are left, and there
are as many rounds, and as many or more in the second grammar. -/
structure Inner (w : Around) (n : Nat) (g g' : Grammar) : Prop where
  expr : Starts w n g.expr g'.expr (Expr.moved w.toShift) IsExpr
  stmt : Starts w n g.stmt g'.stmt (Stmt.moved w.toShift) IsStmt
  bound : n ≤ g.rounds
  rounds : g.rounds ≤ g'.rounds

variable {w : Around} {n : Nat} {g g' : Grammar} {c c' d : Cursor} {rounds rounds' : Nat}

theorem Inner.mono {k : Nat} (h : Inner w n g g') (hle : k ≤ n) : Inner w k g g' :=
  ⟨h.expr.mono hle, h.stmt.mono hle, hle.trans h.bound, h.rounds⟩

/-! ## Expressions -/

/-- An expression as one node. -/
theorem expr_node {p q : Parser Expr} (h : Starts w n p q (Expr.moved w.toShift) IsExpr) :
    Starts w n p q (Expr.moved w.toShift) fun c e d => c.Reads [.expr e] d :=
  h.imp fun _ _ _ => Cursor.Spans.reads

theorem Inner.exprs (h : Inner w n g g') {close : Symbol} (hclose : close ≠ .semi) :
    Starts w n (listUntil close g.expr g.rounds) (listUntil close g'.expr g'.rounds)
      (List.map (Expr.moved w.toShift)) fun c es d => c.Reads (ofExprs es) d := by
  refine ((expr_node h.expr).listUntil hclose h.bound h.rounds).imp fun c es d hd => ?_
  rwa [← List.map_eq_flatMap] at hd

theorem arguments_starts (h : Inner w n g g') :
    Starts w (n + 1) g.arguments g'.arguments (List.map (Expr.moved w.toShift)) fun c es d =>
      c.Reads (ofExprs es) d := by
  rw [arguments, arguments]
  refine (Starts.expect (by decide)).bind fun c _ d hd => ?_
  exact (((h.exprs (by decide)) d _ (near_within w d)).behind hd.passes).imp fun es e he =>
    hd.append he.holds

theorem HasRows.not_uniform {items : List Expr} {rows : List (List Expr)} (h : HasRows items rows)
    (hitems : ∀ e ∈ items, e.Shaped) : ∀ row ∈ rows, ¬Expr.UniformRows row := by
  induction h with
  | nil => exact List.forall_mem_nil _
  | cons hrow _ ih =>
      obtain ⟨hitem, hrest⟩ := List.forall_mem_cons.mp hitems
      obtain ⟨⟨place, rfl⟩, _⟩ := rowOf?_eq_some.mp hrow
      exact List.forall_mem_cons.mpr ⟨hitem, ih hrest⟩

theorem HasRows.shaped {items : List Expr} {rows : List (List Expr)} {cols : Nat} (place : Place)
    (h : HasRows items rows) (hne : rows ≠ []) (hlength : ∀ row ∈ rows, row.length = cols)
    (hitems : ∀ e ∈ items, e.Shaped) :
    (Expr.matrix place items.length cols rows.flatten).Shaped := by
  obtain ⟨_, hcols⟩ := h.cols_ne_zero hne hlength
  have hcells : rows.flatten.length = rows.length * cols := by
    rw [List.length_flatten, List.map_congr_left hlength, List.map_const', List.sum_replicate,
      smul_eq_mul]
  rw [Expr.Shaped, h.length_eq, rowsOf_flatten hlength]
  exact ⟨mt List.length_eq_zero_iff.mp hne, hcols, hcells, h.not_uniform hitems⟩

/-- The rows of a matrix are no nodes of it, but their cells stand where they stood. -/
theorem HasRows.holds {items : List Expr} {rows : List (List Expr)} (h : HasRows items rows)
    (hitems : c.Holds (ofExprs items) d) : c.Holds (ofExprs rows.flatten) d := by
  induction h generalizing c with
  | nil => exact hitems
  | cons hrow _ ih =>
      cases hitems with
      | cons hpasses first rest =>
          obtain ⟨⟨place, rfl⟩, -⟩ := rowOf?_eq_some.mp hrow
          rw [List.flatten_cons, ofExprs, List.map_append]
          exact (first.inside.before hpasses).append (ih rest)

theorem arrayLiteral_follows (h : Inner w n g g') (hc : Near w c c') (hd : c.Reads [] d) :
    Follows w c (n + 1) (g.arrayLiteral c.place) (g'.arrayLiteral c'.place)
      (Expr.moved w.toShift) d (d.within w) (IsExpr c) := by
  rw [arrayLiteral, arrayLiteral]
  refine .read hd (h.exprs (by decide)) fun items e he => ?_
  refine .since (hc.place_eq he.passes) fun place hplace => ?_
  rw [matrixOf?_moved]
  cases hmatrix : matrixOf? items with
  | none =>
      exact .pure (by rw [Expr.moved, Expr.movedAll_eq])
        (Cursor.Reads.node he (matrixOf?_eq_none.mp hmatrix) hplace)
  | some found =>
      obtain ⟨cols, cells⟩ := found
      obtain ⟨rows, hrows, hne, hlength, rfl⟩ := matrixOf?_eq_some.mp hmatrix
      have hitems : ∀ e ∈ items, e.Shaped := by
        intro e hitem
        obtain ⟨_, _, hspans⟩ := he.holds.exists_spans (.expr e) (List.mem_map_of_mem hitem)
        exact hspans.shaped
      refine .pure (by rw [Expr.moved, Expr.movedAll_eq, List.length_map]) ?_
      exact Cursor.Reads.node ⟨he.passes, hrows.holds he.holds⟩
        (hrows.shaped place hne hlength hitems) hplace

theorem dictEntry_starts (h : Inner w n g g') :
    Starts w n g.dictEntry g'.dictEntry (fun x => (x.1, x.2.moved w.toShift)) fun c x d =>
      c.Reads [.expr x.2] d := by
  intro c c' hc
  have ho := Passes.refl c
  have htail (key : String) (d : Cursor) (hd : c.Reads [] d) : Follows w c n
      (do
        expect (.symbol .colon)
        return (key, ← g.expr))
      (do
        expect (.symbol .colon)
        return (key, ← g'.expr)) (fun x => (x.1, x.2.moved w.toShift)) d (d.within w) fun x d =>
          c.Reads [.expr x.2] d :=
    .pass hd (.expect (by decide)) fun _ d hd =>
      .read hd ((expr_node h.expr).mono (Nat.sub_le n 1)) fun e d hd => .pure rfl hd
  rw [dictEntry, dictEntry]
  refine .peek hc (fun t ht => ?_) (fun _ => .fail hc ho) fun _ hw => .fail_of_more hw ho
  dsimp only
  split
  · exact .advance hc ht (htail _)
  · exact .advance hc ht (htail _)
  · exact .fail hc ho

theorem Inner.entries (h : Inner w n g g') :
    Starts w n (listUntil .rbrace g.dictEntry g.rounds) (listUntil .rbrace g'.dictEntry g'.rounds)
      (List.map fun x => (x.1, x.2.moved w.toShift)) fun c entries d =>
        c.Reads (ofExprs (entries.map (·.2))) d := by
  refine ((dictEntry_starts h).listUntil (by decide) h.bound h.rounds).imp fun c entries d hd => ?_
  rw [ofExprs, List.map_map]
  rwa [← List.map_eq_flatMap] at hd

theorem primary_starts (h : Inner w n g g') :
    Starts w (n + 1) g.primary g'.primary (Expr.moved w.toShift) IsExpr := by
  have hargs := (arguments_starts h).mono n.le_succ
  intro c c' hc
  have ho := Passes.refl c
  rw [primary, primary]
  refine .here (.peek hc (fun t ht => ?_) (fun _ => .fail hc ho) fun _ hw => .fail_of_more hw ho)
  split
  -- a name, `new`, `super`, then the three brackets; what is left are single tokens
  case h_6 =>
    refine .advance hc ht fun d hd => .sees (near_within w d) (by decide) fun called => ?_
    split
    · refine .read hd hargs fun args e he => ?_
      refine .give hc he.passes (fun place => ?_) (he.node trivial rfl)
      rw [Expr.moved, Expr.movedAll_eq]
    · exact .give hc hd.passes (fun _ => rfl) (hd.node trivial rfl)
  case h_7 =>
    refine .advance hc ht fun d hd => .pass hd .identifier fun className d hd => ?_
    refine .read hd hargs fun args e he => ?_
    refine .give hc he.passes (fun place => ?_) (he.node trivial rfl)
    rw [Expr.moved, Expr.movedAll_eq]
  case h_8 =>
    refine .advance hc ht fun d hd => .pass hd (.expect (by decide)) fun _ d hd => ?_
    refine .pass hd .identifier fun method d hd => .read hd hargs fun args e he => ?_
    refine .give hc he.passes (fun place => ?_) (he.node trivial rfl)
    rw [Expr.moved, Expr.movedAll_eq]
  case h_9 => exact .advance hc ht fun d hd => arrayLiteral_follows h hc hd
  case h_10 =>
    refine .advance hc ht fun d hd => .read hd h.entries fun entries e he => ?_
    refine .give hc he.passes (fun place => ?_) (he.node trivial rfl)
    rw [Expr.moved, Expr.movedEntries_eq]
  -- the expression in parentheses is placed anew, with its children where they are
  case h_11 =>
    refine .advance hc ht fun d hd => .next hd.passes h.expr fun inner e he => ?_
    have hinner : c.Reads (ofExprs inner.children) e := hd.append he.inside
    refine .pass hinner (.expect (by decide)) fun _ e hinner => ?_
    refine .give hc hinner.passes (Expr.moved_movedTo inner) ?_
    refine Cursor.Reads.node ?_ (Expr.shaped_movedTo he.shaped) (Expr.place_movedTo inner _)
    rwa [Node.children, Expr.children_movedTo]
  case h_12 => exact .fail hc ho
  all_goals
    exact .advance hc ht fun d hd => .give hc hd.passes (fun _ => rfl) (hd.node trivial rfl)

/-- A loop over what stands behind an operand keeps what holds of the operand read so far. -/
theorem postfixes_follows {P : Expr → Cursor → Prop} {start : Span} {left : Expr}
    (h : Inner w n g g')
    (hP : ∀ {left whole more c d}, P left c → c.Reads more d →
      ofExprs whole.children = .expr left :: more → whole.Shaped →
      whole.place = ⟨start.merge d.last, c.line⟩ → P whole d)
    (hn : n ≤ rounds) (hrounds : rounds ≤ rounds') (hleft : P left c) :
    Follows w c n (g.postfixes start rounds left)
      (g'.postfixes (start.moved w.bytes) rounds' (left.moved w.toShift)) (Expr.moved w.toShift) c
      (c.within w) P := by
  induction rounds generalizing n rounds' left c with
  | zero => exact .tooDeep (by omega)
  | succ rounds ih =>
      obtain ⟨rounds', rfl⟩ := Nat.exists_eq_add_of_le' (Nat.one_le_of_lt hrounds)
      have hless := h.mono (Nat.sub_le n 1)
      have hargs := (arguments_starts h).mono (show n - 1 ≤ n + 1 by omega)
      have hc := near_within w c
      have hspot {d : Cursor} (hd : c.Passes 1 d) :
          (⟨start.moved w.bytes, (c.within w).place.line⟩ : Place) =
            (⟨start, c.place.line⟩ : Place).moved w.toShift := by
        rw [hc.place_eq hd]
        rfl
      have hagain {whole : Expr} {more : List Node} {d : Cursor} (hd : c.Reads more d)
          (hchildren : ofExprs whole.children = .expr left :: more) (hshaped : whole.Shaped)
          (hplace : whole.place = ⟨start.merge d.last, c.line⟩) :
          Follows w c n (g.postfixes start rounds whole)
            (g'.postfixes (start.moved w.bytes) rounds' (whole.moved w.toShift))
            (Expr.moved w.toShift) d (d.within w) P :=
        (ih hless (by omega) (by omega) (hP hleft hd hchildren hshaped hplace)).behind hd.passes
      rw [postfixes, postfixes]
      refine .here (.peek hc (fun t ht => ?_) (fun _ => .pure rfl hleft) fun _ _ => .pure rfl hleft)
      split
      · refine .advance hc ht fun d hd => .read hd (expr_node hless.expr) fun key d hd => ?_
        refine .pass hd (.expect (by decide)) fun _ d hd => ?_
        refine .since (hspot hd.passes) fun place hp => ?_
        exact hagain hd rfl trivial hp
      · refine .advance hc ht fun d hd => .pass hd .identifier fun label d hd => ?_
        refine .sees (near_within w d) (by decide) fun called => ?_
        split
        · refine .read hd hargs fun args d hd => .since (hspot hd.passes) fun place hp => ?_
          rw [← Expr.movedAll_eq]
          exact hagain hd rfl trivial hp
        · refine .since (hspot hd.passes) fun place hp => ?_
          exact hagain hd rfl trivial hp
      · refine .advance hc ht fun d hd => .pass hd .identifier fun method d hd => ?_
        refine .read hd hargs fun args d hd => .since (hspot hd.passes) fun place hp => ?_
        rw [← Expr.movedAll_eq]
        exact hagain hd rfl trivial hp
      · exact .pure rfl hleft

theorem postfixed_starts (h : Inner w n g g') :
    Starts w (n + 1) g.postfixed g'.postfixed (Expr.moved w.toShift) IsExpr := by
  intro c c' hc
  rw [postfixed, postfixed]
  refine .here ((primary_starts h c c' hc).bind fun left d hd => ?_)
  have hstart : c'.place.span = c.span.moved w.bytes := by
    rw [hc.place_eq hd.passes]
    rfl
  rw [hstart]
  refine (postfixes_follows (P := IsExpr c) h ?_ h.bound h.rounds hd).behind hd.passes
  exact fun hleft hd hchildren hshaped hplace =>
    .behind hleft hd.passes hd.holds hchildren hshaped hplace

theorem unary_starts (h : Starts w n g.postfixed g'.postfixed (Expr.moved w.toShift) IsExpr)
    (hn : n ≤ rounds) (hrounds : rounds ≤ rounds') :
    Starts w n (g.unary rounds) (g'.unary rounds') (Expr.moved w.toShift) IsExpr := by
  induction rounds generalizing n rounds' with
  | zero => exact fun c c' _ => .tooDeep (by omega)
  | succ rounds ih =>
      obtain ⟨rounds', rfl⟩ := Nat.exists_eq_add_of_le' (Nat.one_le_of_lt hrounds)
      have hless := ih (h.mono (Nat.sub_le n 1)) (by omega) (Nat.le_of_succ_le_succ hrounds)
      intro c c' hc
      have hinner := h c c' hc
      rw [unary, unary]
      refine .peek hc (fun t ht => ?_) (fun _ => hinner) fun _ _ => hinner
      split
      · exact hinner
      · refine .here (.advance hc ht fun d hd => .read hd (expr_node hless) fun operand e he => ?_)
        exact .give hc he.passes (fun _ => rfl) (he.node trivial rfl)

/-- A loop over operators of one level keeps what holds of the operands read so far. -/
theorem chain_follows {P : Expr → Cursor → Prop} {op? : Token → Option BinaryOp} {left : Expr}
    {operand operand' : Parser Expr} (hop : op? (.symbol .semi) = none)
    (h : Starts w n operand operand' (Expr.moved w.toShift) IsExpr)
    (hP : ∀ {left right op c c' d}, P left c → c.Passes 1 c' → IsExpr c' right d →
      P (.binary ⟨left.place.span.merge right.place.span, left.place.line⟩ left op right) d)
    (hn : n ≤ rounds) (hrounds : rounds ≤ rounds') (hleft : P left c) :
    Follows w c n (chain op? operand rounds left)
      (chain op? operand' rounds' (left.moved w.toShift)) (Expr.moved w.toShift) c (c.within w)
      P := by
  induction rounds generalizing n rounds' left c with
  | zero => exact .tooDeep (by omega)
  | succ rounds ih =>
      obtain ⟨rounds', rfl⟩ := Nat.exists_eq_add_of_le' (Nat.one_le_of_lt hrounds)
      have hless := h.mono (Nat.sub_le n 1)
      have hc := near_within w c
      rw [chain, chain]
      refine .peek hc (fun t ht => ?_) (fun _ => .pure rfl hleft) fun _ _ => ?_
      · split
        · exact .pure rfl hleft
        · refine .advance hc ht fun d hd => .next hd.passes hless fun right e he => ?_
          rw [Expr.place_moved, Expr.place_moved, Place.span_moved, Place.span_moved,
            ← Span.moved_merge]
          exact (ih hless (by omega) (by omega) (hP hleft hd.passes he)).behind
            (hd.append he.single).passes
      · rw [Option.bind_some, hop]
        exact .pure rfl hleft

/-- A level of operators: an operand, and then the operators with further operands. -/
theorem level_starts (h : Inner w n g g') {op? : Token → Option BinaryOp}
    (hop : op? (.symbol .semi) = none) {operand operand' : Parser Expr}
    (hoperand : Starts w (n + 1) operand operand' (Expr.moved w.toShift) IsExpr) :
    Starts w (n + 1) (operand >>= chain op? operand g.rounds)
      (operand' >>= chain op? operand' g'.rounds) (Expr.moved w.toShift) IsExpr :=
  hoperand.bind fun c _ _ hleft =>
    (chain_follows (P := IsExpr c) hop (hoperand.mono n.le_succ) .binary h.bound h.rounds
      hleft).behind hleft.passes

theorem signed_starts (h : Inner w n g g') :
    Starts w (n + 1) (g.unary (g.rounds + 1)) (g'.unary (g'.rounds + 1)) (Expr.moved w.toShift)
      IsExpr :=
  unary_starts (postfixed_starts h) (Nat.succ_le_succ h.bound) (Nat.succ_le_succ h.rounds)

theorem factor_starts (h : Inner w n g g') :
    Starts w (n + 1) g.factor g'.factor (Expr.moved w.toShift) IsExpr :=
  level_starts h rfl (signed_starts h)

theorem term_starts (h : Inner w n g g') :
    Starts w (n + 1) g.term g'.term (Expr.moved w.toShift) IsExpr :=
  level_starts h rfl (factor_starts h)

theorem comparison_starts (h : Inner w n g g') :
    Starts w (n + 1) g.comparison g'.comparison (Expr.moved w.toShift) IsExpr :=
  level_starts h rfl (term_starts h)

/-! ## Statements -/

/-- At the end of the text a block is not closed, whatever stands behind it. -/
theorem stmtsUntilBrace_end {q : Parser (List Stmt)} {o : Cursor} {m : List Stmt → List Stmt}
    {Q : List Stmt → Cursor → Prop} (ho : o.Passes 0 c) (hc : c.rest = []) (hw : w.more ≠ [])
    (hn : o.rest.length < n → 0 < rounds) (done : List Stmt) :
    Follows w o n (g.stmtsUntilBrace rounds done) q m c c' Q := by
  cases rounds with
  | zero => exact .tooDeep (Nat.not_lt.mp fun hlt => Nat.lt_irrefl 0 (hn hlt))
  | succ rounds =>
      rw [stmtsUntilBrace]
      exact .peek_end hc (.fail_of_more hw ho)

theorem stmtsUntilBrace_follows (h : Starts w n g.stmt g'.stmt (Stmt.moved w.toShift) IsStmt)
    (hn : n ≤ rounds) (hrounds : rounds ≤ rounds') (done : List Stmt) :
    Follows w c n (g.stmtsUntilBrace rounds done)
      (g'.stmtsUntilBrace rounds' (done.map (Stmt.moved w.toShift)))
      (List.map (Stmt.moved w.toShift)) c (c.within w) fun ss d =>
        ∃ ts, ss = done.reverse ++ ts ∧ c.Reads (ofBlock ts) d := by
  induction rounds generalizing n rounds' done c with
  | zero => exact .tooDeep (by omega)
  | succ rounds ih =>
      obtain ⟨rounds', rfl⟩ := Nat.exists_eq_add_of_le' (Nat.one_le_of_lt hrounds)
      have hless := h.mono (Nat.sub_le n 1)
      have hc := near_within w c
      have ho := Passes.refl c
      rw [stmtsUntilBrace, stmtsUntilBrace]
      refine .peek hc (fun t ht => ?_) (fun _ => .fail hc ho) fun _ hw => .fail_of_more hw ho
      split
      · refine .advance hc ht fun d hd => .pure List.map_reverse ⟨[], ?_, hd⟩
        rw [List.append_nil]
      · exact .fail hc ho
      · refine (h c _ hc).bind fun s d hd => .skipSemis (fun e he => ?_) fun e he hnil hw q c' => ?_
        · have hread : c.Reads [.stmt s] e := hd.spans.reads.beyond he
          refine ((ih hless (by omega) (by omega) (s :: done)).behind hread.passes).imp ?_
          rintro ss d' ⟨ts, rfl, hts⟩
          exact ⟨s :: ts, by simp, hread.append hts.holds⟩
        · have hpasses := hd.spans.passes.trans he
          have hlength := hpasses.length_add_le
          exact stmtsUntilBrace_end hpasses.zero hnil hw (by omega) (s :: done)

theorem block_starts (h : Inner w n g g') :
    Starts w (n + 1) g.block g'.block (List.map (Stmt.moved w.toShift)) fun c ss d =>
      c.Reads (ofBlock ss) d := by
  rw [block, block]
  refine (Starts.expect (by decide)).bind fun c _ d hd => ?_
  refine .skipSemis (fun e he => ?_) fun e he hnil hw q c' => ?_
  · have hread := hd.beyond he
    refine ((stmtsUntilBrace_follows h.stmt h.bound h.rounds []).behind hread.passes).imp ?_
    rintro _ d' ⟨ss, rfl, hss⟩
    exact hread.append hss.holds
  · have hpasses := hd.passes.trans he
    have hlength := hpasses.length_add_le
    have hbound := h.bound
    exact stmtsUntilBrace_end hpasses.zero hnil hw (by omega) []

/-- Names are no nodes. -/
theorem flatMap_names (names : List String) : names.flatMap (fun _ => ([] : List Node)) = [] :=
  List.flatMap_eq_nil_iff.mpr fun _ _ => rfl

theorem params_starts (h : Inner w n g g') :
    Starts w n (listUntil .rparen identifier g.rounds) (listUntil .rparen identifier g'.rounds)
      (List.map fun x => x) fun c _ d => c.Reads [] d := by
  refine ((Starts.identifier (n := n)).listUntil (by decide) h.bound h.rounds).imp ?_
  intro c names d hd
  rwa [flatMap_names] at hd

theorem names_starts (h : Inner w n g g') (done : List String) :
    Starts w n (commaList identifier g.rounds done)
      (commaList identifier g'.rounds (done.map fun x => x)) (List.map fun x => x) fun c names d =>
        names ≠ [] ∧ c.Reads [] d := by
  refine ((Starts.identifier (n := n)).commaList h.bound h.rounds done).imp ?_
  rintro c _ d ⟨names, rfl, hne, hd⟩
  rw [flatMap_names] at hd
  exact ⟨List.append_ne_nil_of_right_ne_nil _ hne, hd⟩

theorem functionDecl_starts (h : Inner w n g g') :
    Starts w (n + 1) g.functionDecl g'.functionDecl (Stmt.movedFunction w.toShift) fun c f d =>
      c.Reads (ofFunction f) d := by
  intro c c' hc
  rw [functionDecl, functionDecl]
  refine .here ((Starts.expect (by decide) c c' hc).bind fun _ d hd => ?_)
  refine .pass hd .identifier fun name d hd => .pass hd (.expect (by decide)) fun _ d hd => ?_
  refine .pass hd (params_starts h) fun params d hd => ?_
  refine .read hd ((block_starts h).mono n.le_succ) fun body d hd => .pure ?_ hd
  rw [Stmt.movedFunction, Stmt.movedAll_eq, List.map_id', hc.place_eq hd.passes]
  rfl

theorem classMembers_follows
    (h : Starts w n g.functionDecl g'.functionDecl (Stmt.movedFunction w.toShift) fun c f d =>
      c.Reads (ofFunction f) d)
    (hn : n ≤ rounds) (hrounds : rounds ≤ rounds') (fields : List String)
    (methods : List FunctionDecl) :
    Follows w c n (g.classMembers rounds fields methods)
      (g'.classMembers rounds' fields (methods.map (Stmt.movedFunction w.toShift)))
      (fun x => (x.1, x.2.map (Stmt.movedFunction w.toShift))) c (c.within w) fun x d =>
        ∃ fs, x.2 = methods.reverse ++ fs ∧ c.Reads (fs.flatMap ofFunction) d := by
  induction rounds generalizing n rounds' fields methods c with
  | zero => exact .tooDeep (by omega)
  | succ rounds ih =>
      obtain ⟨rounds', rfl⟩ := Nat.exists_eq_add_of_le' (Nat.one_le_of_lt hrounds)
      have hless := h.mono (Nat.sub_le n 1)
      rw [classMembers, classMembers]
      refine .skipSemis (fun d hd => ?_) fun d hd hnil hw q c' => ?_
      · have hc := near_within w d
        refine .peek hc (fun t ht => ?_) (fun _ => .fail hc hd) fun _ hw => .fail_of_more hw hd
        split
        · refine .advance hc ht fun e he => .pure (by rw [List.map_reverse]) ⟨[], ?_, ?_⟩
          · rw [List.append_nil]
          · exact (hd.trans he.passes).reads
        · refine .advance hc ht fun e he => ?_
          have hread : c.Reads [] e := (hd.trans he.passes).reads
          refine .pass hread .identifier fun field e hread => ?_
          refine ((ih hless (by omega) (by omega) (field :: fields) methods).behind
            hread.passes).imp ?_
          rintro x d' ⟨fs, hfs, hread'⟩
          exact ⟨fs, hfs, hread.append hread'.holds⟩
        · refine ((h d _ hc).behind hd).bind fun method e he => ?_
          have hread : c.Reads (ofFunction method) e := ⟨hd.trans he.passes, he.holds.before hd⟩
          refine ((ih hless (by omega) (by omega) fields (method :: methods)).behind
            hread.passes).imp ?_
          rintro x d' ⟨fs, hfs, hread'⟩
          exact ⟨method :: fs, by simp [hfs], hread.append hread'.holds⟩
        · exact .fail hc hd
      · exact .peek_end hnil (.fail_of_more hw hd)

theorem classDecl_starts (h : Inner w n g g') :
    Starts w (n + 1) g.classDecl g'.classDecl (Stmt.movedClass w.toShift) fun c decl d =>
      c.Reads (decl.methods.flatMap ofFunction) d := by
  intro c c' hc
  have htail (name : String) (parent : Option String) {d : Cursor} (hd : c.Reads [] d) :
      Follows w c (n + 1)
        (do
          expect (.symbol .lbrace)
          let members ← g.classMembers g.rounds [] []
          return (⟨name, parent, members.1, members.2⟩ : ClassDecl))
        (do
          expect (.symbol .lbrace)
          let members ← g'.classMembers g'.rounds [] []
          return (⟨name, parent, members.1, members.2⟩ : ClassDecl)) (Stmt.movedClass w.toShift) d
        (d.within w) fun decl d => c.Reads (decl.methods.flatMap ofFunction) d := by
    refine .pass hd (.expect (by decide)) fun _ d hd => ?_
    have hmethods := (functionDecl_starts h).mono n.le_succ
    refine ((classMembers_follows hmethods h.bound h.rounds [] []).behind hd.passes).bind ?_
    rintro ⟨fields, _⟩ e ⟨methods, rfl, he⟩
    exact .pure (by rw [Stmt.movedClass, Stmt.movedMethods_eq]) (hd.append he.holds)
  rw [classDecl, classDecl]
  refine (Starts.expect (by decide) c c' hc).bind fun _ d hd => ?_
  refine .pass hd .identifier fun name d hd => ?_
  dsimp only
  refine .option hd (by decide) (fun d hd => ?_) (htail name none hd)
  exact .pass hd (.map .identifier (fun _ => rfl) fun _ _ _ hd => hd) fun parent d hd =>
    htail name parent hd

theorem moduleName_starts :
    Starts w n moduleName moduleName (fun x => x) fun c _ d => c.Reads [] d := by
  intro c c' hc
  have hname := Starts.identifier (n := n) c c' hc
  rw [moduleName]
  refine .peek hc (fun t ht => ?_) (fun _ => hname) fun _ _ => hname
  split
  · exact .advance hc ht fun d hd => .pure rfl hd
  · exact hname

/-- A statement as one node. -/
theorem stmt_node {p q : Parser Stmt} (h : Starts w n p q (Stmt.moved w.toShift) IsStmt) :
    Starts w n p q (Stmt.moved w.toShift) fun c s d => c.Reads [.stmt s] d :=
  h.imp fun _ _ _ hs => hs.spans.reads

theorem chooseStmt_follows (h : Inner w n g g') (hc : Near w c c') :
    Follows w c (n + 1) (g.chooseStmt c.place) (g'.chooseStmt c'.place) (Stmt.moved w.toShift) c c'
      fun s d => c.Spans (.stmt s) d := by
  have hblock := (block_starts h).mono n.le_succ
  have hresult {condition : Expr} {yes no : List Stmt} {d : Cursor}
      (hd : c.Reads (.expr condition :: (ofBlock yes ++ ofBlock no)) d) : Follows w c (n + 1)
      (do return Stmt.choose (← since c.place) condition yes (some no))
      (do
        return .choose (← since c'.place) (condition.moved w.toShift)
          (yes.map (Stmt.moved w.toShift)) (some (no.map (Stmt.moved w.toShift))))
      (Stmt.moved w.toShift) d (d.within w) fun s d => c.Spans (.stmt s) d := by
    refine .give hc hd.passes (fun place => ?_) (hd.node trivial rfl)
    rw [Stmt.moved, Stmt.movedOption, Stmt.movedAll_eq, Stmt.movedAll_eq]
  rw [chooseStmt, chooseStmt]
  refine (Starts.expect (by decide) c c' hc).bind fun _ d hd => ?_
  refine .read hd (expr_node ((comparison_starts h).mono n.le_succ)) fun condition d hd => ?_
  refine .read hd hblock fun yes d hd => .option hd (by decide) (fun d hd => ?_) ?_
  -- an `if` behind `else` stands for a block with one statement
  · refine .sees (near_within w d) (by decide) fun again => ?_
    dsimp only
    split
    · have hno : Starts w n ((fun s => [s]) <$> g.stmt) ((fun s => [s]) <$> g'.stmt)
          (List.map (Stmt.moved w.toShift)) fun c ss d => c.Reads (ofBlock ss) d :=
        .map (stmt_node h.stmt) (fun _ => rfl) fun _ _ _ hd => hd
      exact .read hd hno fun no d hd => hresult hd
    · exact .read hd hblock fun no d hd => hresult hd
  · refine .give hc hd.passes (fun place => ?_) (Cursor.Reads.node ?_ trivial rfl)
    · rw [Stmt.moved, Stmt.movedOption, Stmt.movedAll_eq]
    · rw [Node.children, Stmt.children, Option.getD_none, ofBlock_nil, List.append_nil]
      exact hd

theorem forStmt_follows (h : Inner w n g g') (hc : Near w c c') :
    Follows w c (n + 1) (g.forStmt c.place) (g'.forStmt c'.place) (Stmt.moved w.toShift) c c'
      fun s d => c.Spans (.stmt s) d := by
  -- the word in front and the parentheses are optional, so what follows is stated for both
  have hbody {item : String} {source : Expr} {parallel : Bool} {d : Cursor}
      (hd : c.Reads [.expr source] d) : Follows w c (n + 1)
      (do
        let body ← g.block
        return Stmt.forEach (← since c.place) item source body parallel)
      (do
        let body ← g'.block
        return .forEach (← since c'.place) item (source.moved w.toShift) body parallel)
      (Stmt.moved w.toShift) d (d.within w) fun s d => c.Spans (.stmt s) d := by
    refine .read hd ((block_starts h).mono n.le_succ) fun body d hd => ?_
    refine .give hc hd.passes (fun place => ?_) (hd.node trivial rfl)
    rw [Stmt.moved, Stmt.movedAll_eq]
  have htail {parallel : Bool} {d : Cursor} (hd : c.Reads [] d) : Follows w c (n + 1)
      (do
        let parens ← eat (.symbol .lparen)
        let item ← identifier
        expect (.keyword .inKw)
        let source ← g.comparison
        if parens then expect (.symbol .rparen)
        let body ← g.block
        return Stmt.forEach (← since c.place) item source body parallel)
      (do
        let parens ← eat (.symbol .lparen)
        let item ← identifier
        expect (.keyword .inKw)
        let source ← g'.comparison
        if parens then expect (.symbol .rparen)
        let body ← g'.block
        return .forEach (← since c'.place) item source body parallel)
      (Stmt.moved w.toShift) d (d.within w) fun s d => c.Spans (.stmt s) d := by
    refine .either hd (by decide) fun parens d hd => .pass hd .identifier fun item d hd => ?_
    refine .pass hd (.expect (by decide)) fun _ d hd => ?_
    refine .read hd (expr_node ((comparison_starts h).mono n.le_succ)) fun source d hd => ?_
    dsimp only
    split
    · exact .pass hd (.expect (by decide)) fun _ d hd => hbody hd
    · exact hbody hd
  rw [forStmt, forStmt]
  refine .eat hc (by decide) (fun d _ hd => ?_) ?_
  · exact .pass hd (.expect (by decide)) fun _ d hd => htail hd
  · exact (Starts.expect (by decide) c c' hc).bind fun _ d hd => htail hd

theorem handlerClause_starts (h : Inner w n g g') :
    Starts w n g.handlerClause g'.handlerClause
      (fun handler => ⟨handler.kind, handler.binder, handler.body.map (Stmt.moved w.toShift)⟩)
      fun c handler d =>
        (handler.kind.isSome → handler.binder.isSome) ∧ c.Reads (ofBlock handler.body) d := by
  have hblock := (block_starts h).mono n.le_succ
  intro c c' hc
  have hresult {kind binder : Option String} {d : Cursor} (hbinder : kind.isSome → binder.isSome)
      (hd : c.Reads [] d) : Follows w c n
      (do return (⟨kind, binder, ← g.block⟩ : Handler))
      (do return (⟨kind, binder, ← g'.block⟩ : Handler))
      (fun handler => ⟨handler.kind, handler.binder, handler.body.map (Stmt.moved w.toShift)⟩) d
      (d.within w) fun handler d =>
        (handler.kind.isSome → handler.binder.isSome) ∧ c.Reads (ofBlock handler.body) d :=
    .read hd (hblock.mono (Nat.sub_le n 1)) fun body d hd => .pure rfl ⟨hbinder, hd⟩
  have hbare : Follows w c n
      (do return (⟨none, none, ← g.block⟩ : Handler))
      (do return (⟨none, none, ← g'.block⟩ : Handler))
      (fun handler => ⟨handler.kind, handler.binder, handler.body.map (Stmt.moved w.toShift)⟩) c c'
      fun handler d =>
        (handler.kind.isSome → handler.binder.isSome) ∧ c.Reads (ofBlock handler.body) d :=
    (hblock c c' hc).bind fun body d hd => .pure rfl ⟨fun hkind => hkind, hd⟩
  rw [handlerClause, handlerClause]
  refine .peek hc (fun t ht => ?_) (fun _ => hbare) fun _ _ => hbare
  split
  · refine .advance hc ht fun d hd => .option hd (by decide) (fun d hd => ?_) ?_
    · exact .pass hd .identifier fun binder d hd => hresult (fun _ => rfl) hd
    · exact hresult (fun _ => rfl) hd
  · exact hbare

theorem attemptStmt_follows (h : Inner w n g g') (hc : Near w c c') :
    Follows w c (n + 1) (g.attemptStmt c.place) (g'.attemptStmt c'.place) (Stmt.moved w.toShift) c
      c' fun s d => c.Spans (.stmt s) d := by
  have hblock := (block_starts h).mono n.le_succ
  have hresult {body : List Stmt} {handler : Option Handler} (finish : Option (List Stmt))
      {d : Cursor} (hkind : ∀ h ∈ handler, h.kind.isSome → h.binder.isSome)
      (hd : c.Reads (ofBlock body ++
        (handler.elim [] (fun h => ofBlock h.body) ++ ofBlock (finish.getD []))) d) :
      Follows w c (n + 1)
        (do
          if handler.isNone && finish.isNone then fail .handler
          return Stmt.attempt (← since c.place) body handler finish)
        (do
          if (Stmt.movedHandler w.toShift handler).isNone &&
              (Stmt.movedOption w.toShift finish).isNone then fail .handler
          return .attempt (← since c'.place) (body.map (Stmt.moved w.toShift))
            (Stmt.movedHandler w.toShift handler) (Stmt.movedOption w.toShift finish))
        (Stmt.moved w.toShift) d (d.within w) fun s d => c.Spans (.stmt s) d := by
    have hhandler : (Stmt.movedHandler w.toShift handler).isNone = handler.isNone := by
      rcases handler with _ | ⟨kind, binder, body⟩ <;> rfl
    have hfinish : (Stmt.movedOption w.toShift finish).isNone = finish.isNone := by
      cases finish <;> rfl
    -- moving neither adds a part nor takes one away, so both are refused or none
    rw [hhandler, hfinish]
    dsimp only
    split
    · exact .fail (near_within w d) hd.passes.zero
    · rename_i hsome
      refine .give hc hd.passes (fun place => ?_) (hd.node ⟨?_, hkind⟩ rfl)
      · rw [Stmt.moved, Stmt.movedAll_eq]
      · simpa [Option.isSome_iff_ne_none, or_iff_not_imp_left] using hsome
  have hfinish {body : List Stmt} (handler : Option Handler) {d : Cursor}
      (hkind : ∀ h ∈ handler, h.kind.isSome → h.binder.isSome)
      (hd : c.Reads (ofBlock body ++ handler.elim [] fun h => ofBlock h.body) d) :
      Follows w c (n + 1)
        (do
          let finish ← if ← eat (.keyword .finallyKw) then some <$> g.block else pure none
          if handler.isNone && finish.isNone then fail .handler
          return Stmt.attempt (← since c.place) body handler finish)
        (do
          let finish ← if ← eat (.keyword .finallyKw) then some <$> g'.block else pure none
          if (Stmt.movedHandler w.toShift handler).isNone && finish.isNone then fail .handler
          return .attempt (← since c'.place) (body.map (Stmt.moved w.toShift))
            (Stmt.movedHandler w.toShift handler) finish)
        (Stmt.moved w.toShift) d (d.within w) fun s d => c.Spans (.stmt s) d := by
    refine .option hd (by decide) (fun d hd => ?_) ?_
    · have hread : Starts w n (some <$> g.block) (some <$> g'.block) (Stmt.movedOption w.toShift)
          fun c finish d => c.Reads (ofBlock (finish.getD [])) d :=
        .map hblock (fun finish => congrArg some (Stmt.movedAll_eq finish)) fun _ _ _ hd => hd
      refine .read hd hread fun finish d hd => hresult finish hkind ?_
      rwa [List.append_assoc] at hd
    · refine hresult none hkind ?_
      rwa [Option.getD_none, ofBlock_nil, List.append_nil]
  rw [attemptStmt, attemptStmt]
  refine (Starts.expect (by decide) c c' hc).bind fun _ d hd => .read hd hblock fun body d hd => ?_
  refine .option hd (by decide) (fun d hd => ?_) ?_
  · have hread : Starts w n (some <$> g.handlerClause) (some <$> g'.handlerClause)
        (Stmt.movedHandler w.toShift) fun c handler d =>
          (∀ h ∈ handler, h.kind.isSome → h.binder.isSome) ∧
            c.Reads (handler.elim [] fun h => ofBlock h.body) d := by
      refine .map (handlerClause_starts h) ?_ fun c handler d hd => ⟨?_, hd.2⟩
      · rintro ⟨kind, binder, body⟩
        rw [Stmt.movedHandler, Stmt.movedAll_eq]
      · rintro _ ⟨⟩
        exact hd.1
    exact .next hd.passes hread fun handler d hread =>
      hfinish handler hread.1 (hd.append hread.2.holds)
  · refine hfinish none (fun _ hnone => by cases hnone) ?_
    rwa [Option.elim_none, List.append_nil]

theorem exprStmt_follows (h : Inner w n g g') (hc : Near w c c') :
    Follows w c (n + 1) (g.exprStmt c.place) (g'.exprStmt c'.place) (Stmt.moved w.toShift) c c'
      fun s d => c.Spans (.stmt s) d := by
  rw [exprStmt, exprStmt]
  refine (comparison_starts h c c' hc).bind fun target d hd => .here ?_
  -- the error about the target is raised where the sign stands, before the value is read
  refine .eat (near_within w d) (by decide) (fun e hsign he => ?_) ?_
  · have hvalue := expr_node ((comparison_starts h).mono n.le_succ)
    have hread : c.Reads (Node.expr target).children e := hd.reads_inside.beyond he.passes.zero
    rw [if_pos rfl, if_pos rfl]
    refine .read hread hvalue fun value e he => ?_
    cases target with
    | name | field => exact .give hc he.passes (fun _ => rfl) (he.node trivial rfl)
    | _ =>
        refine .throw hd.passes.zero ⟨rfl, hsign⟩ fun hw => ?_
        rw [hw, ← hd.passes.final_eq, Cursor.within_none]
  · exact .give hc hd.passes (fun _ => rfl) (hd.reads.node trivial rfl)

/-- Only what begins with one of three words has to be fit for export. -/
theorem isStmt_of_token {p q : Parser Stmt} {e e' : Cursor}
    (hword : ∀ word ∈ [Keyword.fnKw, .letKw, .classKw], c.token? ≠ some (.keyword word))
    (h : Follows w c n p q (Stmt.moved w.toShift) e e' fun s d => c.Spans (.stmt s) d) :
    Follows w c n p q (Stmt.moved w.toShift) e e' (IsStmt c) :=
  h.imp fun _ _ hs => ⟨hs, fun word hmem ht => absurd ht (hword word hmem)⟩

theorem share_follows (h : Inner w n g g') (hc : Near w c c') (hd : c.Reads [] d) {word : Keyword}
    (hword : word ∈ [Keyword.fnKw, .letKw, .classKw]) (ht : d.token? = some (.keyword word)) :
    Follows w c (n + 1)
      (do
        let inner ← g.stmt
        return Stmt.share (← since c.place) inner)
      (do
        let inner ← g'.stmt
        return .share (← since c'.place) inner)
      (Stmt.moved w.toShift) d (d.within w) fun s d => c.Spans (.stmt s) d := by
  refine .next hd.passes h.stmt fun inner e he => ?_
  have hread : c.Reads [.stmt inner] e := hd.append he.spans.single
  exact .give hc hread.passes (fun _ => rfl) (hread.node (he.shareable word hword ht) rfl)

theorem statement_starts (h : Inner w n g g') :
    Starts w (n + 1) g.statement g'.statement (Stmt.moved w.toShift) IsStmt := by
  have hexpr := expr_node ((comparison_starts h).mono n.le_succ)
  intro c c' hc
  have ho := Passes.refl c
  have hother := exprStmt_follows h hc
  rw [statement, statement]
  refine .here (.peek hc (fun t ht => ?_) (fun ht => ?_) fun ht _ => ?_)
  · split
    -- what may stand behind `export`: a binding, a function, a class
    case h_4 =>
      refine .advance hc ht fun d hd => .pass hd .identifier fun name d hd => ?_
      refine .pass hd (.expect (by decide)) fun _ d hd => .read hd hexpr fun value d hd => ?_
      exact .give hc hd.passes (fun _ => rfl) ⟨hd.node trivial rfl, fun _ _ _ => trivial⟩
    case h_5 =>
      refine (functionDecl_starts h c c' hc).bind fun decl d hd => ?_
      exact .give hc hd.passes (fun _ => rfl) ⟨hd.node trivial rfl, fun _ _ _ => trivial⟩
    case h_6 =>
      refine (classDecl_starts h c c' hc).bind fun decl d hd => ?_
      exact .give hc hd.passes (fun _ => rfl) ⟨hd.node trivial rfl, fun _ _ _ => trivial⟩
    all_goals refine isStmt_of_token (by grind) ?_
    case h_1 =>
      refine .advance hc ht fun d hd => .pass hd moduleName_starts fun module d hd => ?_
      have hresult {rename : Option String} {d : Cursor} (hd : c.Reads [] d) :
          Follows w c (n + 1) (do return Stmt.importModule (← since c.place) module rename)
            (do return .importModule (← since c'.place) module rename) (Stmt.moved w.toShift) d
            (d.within w) fun s d => c.Spans (.stmt s) d :=
        .give hc hd.passes (fun _ => rfl) (hd.node trivial rfl)
      refine .option hd (by decide) (fun d hd => ?_) (hresult hd)
      exact .pass hd (.map .identifier (fun _ => rfl) fun _ _ _ hd => hd) fun rename d hd =>
        hresult hd
    case h_2 =>
      refine .advance hc ht fun d hd => .pass hd moduleName_starts fun module d hd => ?_
      refine .pass hd (.expect (by decide)) fun _ d hd => ?_
      refine .next hd.passes (names_starts h []) fun names e he => ?_
      have hread := hd.beyond he.2.passes.zero
      refine .give hc hread.passes (fun place => ?_) (hread.node he.1 rfl)
      rw [Stmt.moved, List.map_id']
    case h_3 =>
      refine .advance hc ht fun d hd => ?_
      have hnear := near_within w d
      refine .peek hnear (fun t ht => ?_) (fun _ => .fail hnear hd.passes.zero) fun _ hw =>
        .fail_of_more hw hd.passes.zero
      split
      case h_1 hword => exact share_follows h hc hd (by decide) (ht.trans hword)
      case h_2 hword => exact share_follows h hc hd (by decide) (ht.trans hword)
      case h_3 hword => exact share_follows h hc hd (by decide) (ht.trans hword)
      case h_4 => exact .fail hnear hd.passes.zero
    case h_7 => exact chooseStmt_follows h hc
    case h_8 => exact forStmt_follows h hc
    case h_9 => exact forStmt_follows h hc
    case h_10 =>
      refine .advance hc ht fun d hd => .read hd hexpr fun condition d hd => ?_
      refine .read hd ((block_starts h).mono n.le_succ) fun body d hd => ?_
      refine .give hc hd.passes (fun place => ?_) (hd.node trivial rfl)
      rw [Stmt.moved, Stmt.movedAll_eq]
    -- a semicolon ends a bare return as the end does
    case h_11 =>
      refine .advance hc ht fun d hd => ?_
      have hbare : Follows w c (n + 1) (do return Stmt.giveBack (← since c.place) none)
          (do return .giveBack (← since c'.place) none) (Stmt.moved w.toShift) d (d.within w)
          fun s d => c.Spans (.stmt s) d :=
        .give hc hd.passes (fun _ => rfl) (hd.node trivial rfl)
      refine .peek (near_within w d) (fun t ht => ?_) (fun _ => hbare) fun _ _ => hbare
      split
      · exact hbare
      · exact hbare
      · exact hbare
      · refine .read hd hexpr fun value d hd => ?_
        exact .give hc hd.passes (fun _ => rfl) (hd.node trivial rfl)
    case h_12 => exact attemptStmt_follows h hc
    case h_13 hword =>
      refine .throw ho ⟨rfl, ht.trans hword⟩ fun hw => ?_
      rw [hc.place_eq (.next ht), hw]
      rfl
    case h_14 =>
      refine .advance hc ht fun d hd => .read hd hexpr fun value d hd => ?_
      exact .give hc hd.passes (fun _ => rfl) (hd.node trivial rfl)
    case h_15 =>
      refine .advance hc ht fun d hd => .read hd hexpr fun condition d hd => ?_
      have hresult (message : Option Expr) {d : Cursor}
          (hd : c.Reads (.expr condition :: ofExprs message.toList) d) : Follows w c (n + 1)
          (do return Stmt.check (← since c.place) condition message)
          (do
            return .check (← since c'.place) (condition.moved w.toShift)
              (message.map (Expr.moved w.toShift)))
          (Stmt.moved w.toShift) d (d.within w) fun s d => c.Spans (.stmt s) d :=
        .give hc hd.passes (fun _ => rfl) (hd.node trivial rfl)
      refine .option hd (by decide) (fun d hd => ?_) (hresult none hd)
      have hmessage : Starts w n (some <$> g.comparison) (some <$> g'.comparison)
          (Option.map (Expr.moved w.toShift)) fun c message d =>
            c.Reads (ofExprs message.toList) d :=
        .map hexpr (fun _ => rfl) fun _ _ _ hd => hd
      exact .read hd hmessage fun message d hd => hresult message hd
    case h_16 => exact hother
  · exact isStmt_of_token (by simp [ht]) hother
  · exact isStmt_of_token (by simp [ht]) hother

/-- Grammars for `n` tokens and more do what they should where fewer are left. -/
theorem inner_ofBound (w : Around) {m m' : Nat} (hn : n ≤ m) (hm : m ≤ m') :
    Inner w n (ofBound m) (ofBound m') := by
  induction m generalizing n m' with
  | zero =>
      exact ⟨fun c c' _ => .tooDeep (by omega), fun c c' _ => .tooDeep (by omega), hn,
        Nat.zero_le _⟩
  | succ m ih =>
      obtain ⟨m', rfl⟩ := Nat.exists_eq_add_of_le' (Nat.one_le_of_lt hm)
      have hinner : Inner w (n - 1) (ofBound m) (ofBound m') := ih (by omega) (by omega)
      exact ⟨(comparison_starts hinner).mono (by omega), (statement_starts hinner).mono (by omega),
        hn, hm⟩

/-- The loop over all tokens, where nothing stands behind them. -/
theorem stmtsUntilEnd_follows (hw : w.more = [])
    (h : Starts w n g.stmt g'.stmt (Stmt.moved w.toShift) IsStmt) (hn : n ≤ rounds)
    (hrounds : rounds ≤ rounds') (done : List Stmt) :
    Follows w c n (g.stmtsUntilEnd rounds done)
      (g'.stmtsUntilEnd rounds' (done.map (Stmt.moved w.toShift)))
      (List.map (Stmt.moved w.toShift)) c (c.within w) fun ss d =>
        ∃ ts, ss = done.reverse ++ ts ∧ c.Holds (ofBlock ts) d := by
  induction rounds generalizing n rounds' done c with
  | zero => exact .tooDeep (by omega)
  | succ rounds ih =>
      obtain ⟨rounds', rfl⟩ := Nat.exists_eq_add_of_le' (Nat.one_le_of_lt hrounds)
      have hless := h.mono (Nat.sub_le n 1)
      have hc := near_within w c
      rw [stmtsUntilEnd, stmtsUntilEnd]
      refine .peek hc (fun t ht => ?_) (fun _ => ?_) fun _ hmore => absurd hw hmore
      · refine (h c _ hc).bind fun s d hd => .skipSemis (fun e he => ?_) fun _ _ _ hmore =>
          absurd hw hmore
        have hread : c.Reads [.stmt s] e := hd.spans.reads.beyond he
        refine ((ih hless (by omega) (by omega) (s :: done)).behind hread.passes).imp ?_
        rintro ss d' ⟨ts, rfl, hts⟩
        exact ⟨s :: ts, by simp, hread.holds.append hts⟩
      · refine .pure List.map_reverse ⟨[], ?_, .nil (.refl c)⟩
        rw [List.append_nil]

end Grammar

/-! ## Programs -/

namespace Program

open ScriptLang.Parser
open ScriptLang.Node

/-- The cursor before the tokens of a text. -/
def startOf (source : String) (tokens : List (Token × Span)) : Cursor :=
  ⟨lexemes source tokens, ⟨source.utf8ByteSize, source.utf8ByteSize⟩,
    ⟨source.utf8ByteSize, source.utf8ByteSize⟩⟩

theorem ofTokens_eq (source : String) (tokens : List (Token × Span)) :
    ofTokens source tokens =
      ((Grammar.ofBound (tokens.length + 1)).stmtsUntilEnd (tokens.length + 1) []
        (startOf source tokens).skipSemis).map fun x => ⟨x.1⟩ := by
  rw [ofTokens]
  dsimp only [startOf]
  split
  · rename_i stmts c hok
    rw [hok]
    rfl
  · rename_i e herror
    rw [herror]
    rfl

/-- With any bound above their number the tokens are read alike. -/
theorem startOf_follows (source : String) (tokens : List (Token × Span)) {bound : Nat}
    (hb : tokens.length < bound) :
    Follows (.none (startOf source tokens).final) (startOf source tokens) (tokens.length + 1)
      ((Grammar.ofBound (tokens.length + 1)).stmtsUntilEnd (tokens.length + 1) [])
      ((Grammar.ofBound bound).stmtsUntilEnd bound []) (List.map (Stmt.moved .none))
      (startOf source tokens).skipSemis (startOf source tokens).skipSemis fun ss d =>
        (startOf source tokens).Holds (ofBlock ss) d := by
  have hskip := Cursor.Passes.skipSemis (startOf source tokens)
  have hinner := Grammar.inner_ofBound (.none (startOf source tokens).final) le_rfl hb
  have hread := Grammar.stmtsUntilEnd_follows rfl hinner.stmt le_rfl hb []
    (c := (startOf source tokens).skipSemis)
  rw [← hskip.final_eq, Cursor.within_none, hskip.final_eq] at hread
  refine (hread.behind hskip).imp ?_
  rintro _ d ⟨ss, rfl, hss⟩
  exact hss.before hskip

/-- Tokens form a program whose nodes are read from them one behind another, or an error is raised
at one of them or at the end. -/
theorem ofTokens_cases (source : String) (tokens : List (Token × Span)) :
    (∃ p d, ofTokens source tokens = .ok p ∧
      (startOf source tokens).Holds (ofBlock p.stmts) d) ∨
    ∃ e d, ofTokens source tokens = .error e ∧ (startOf source tokens).Passes 0 d ∧
      e.RaisedAt d := by
  have hread := startOf_follows source tokens (Nat.lt_succ_self _)
  rw [ofTokens_eq]
  cases hresult : (Grammar.ofBound (tokens.length + 1)).stmtsUntilEnd (tokens.length + 1) []
      (startOf source tokens).skipSemis with
  | ok x => exact .inl ⟨_, x.2, rfl, (hread.ok hresult).2⟩
  | error e =>
      have hlength : (startOf source tokens).rest.length = tokens.length := List.length_map _
      obtain ⟨⟨d, hd, he⟩, -⟩ := hread.error hresult (by omega)
      exact .inr ⟨e, d, rfl, hd, he⟩

end Program

end ScriptLang
