import Mathlib
import ScriptLang.Proofs.Program.Joined

/-!
# Parsers make progress and end

A parser that succeeds has moved over tokens that were left, and those that read something
have moved over one at least. One that fails does so at a token it has come to. So each
turn of a loop has fewer tokens before it, and a bound above the number of tokens left is
never met: with any such bound a parser gives the same (`Grammar.Settles`).
-/

namespace ScriptLang

/-- What a parser gives at `c`: the cursor has moved over `least` or more of the tokens left, or an
error is raised at a cursor that was come to since `origin`. -/
def Parser.Ends {α : Type} (origin : Cursor) (least : Nat) (c : Cursor) :
    Except SyntaxError (α × Cursor) → Prop
  | .ok (_, d) => c.Passes least d
  | .error e => ∃ d, origin.Passes 0 d ∧ e.RaisedAt d

namespace Grammar

open ScriptLang.Parser

/-- With any bound above the number of tokens left the parser gives the same at the cursor. It has
moved over `least` or more of these tokens, or has raised an error at one of them or at the end;
it has never run out of rounds. -/
def Settles {α : Type} (least : Nat) (p : Grammar → Parser α) (c : Cursor) : Prop :=
  ∃ r, (∀ bound, c.rest.length < bound → p (ofBound bound) c = r) ∧ Ends c least c r

section Settling

variable {α : Type} {least : Nat} {p p' : Grammar → Parser α} {c : Cursor}

/-- A parser settles if it does what it should beside itself with a higher bound. -/
theorem settles_of_follows {m : α → α} {Q : α → Cursor → Prop} (hp : ∀ g, p' g = p g)
    (hm : ∀ a, m a = a) (hQ : ∀ a d, Q a d → c.Passes least d)
    (h : ∀ {n g g'}, Inner (.none c.final) n g g' →
      Follows (.none c.final) c n (p g) (p' g') m c (c.within (.none c.final)) Q) :
    Settles least p c := by
  -- every other bound is compared with the least one above the number of tokens left
  have hfollows (bound : Nat) (hb : c.rest.length < bound) :
      Follows (.none c.final) c (c.rest.length + 1) (p (ofBound (c.rest.length + 1)))
        (p (ofBound bound)) m c (c.within (.none c.final)) Q := by
    rw [← hp (ofBound bound)]
    exact h (inner_ofBound (.none c.final) le_rfl hb)
  refine ⟨p (ofBound (c.rest.length + 1)) c, fun bound hb => ?_, ?_⟩
  · have hother := hfollows bound hb
    rw [Cursor.within_none] at hother
    cases hpc : p (ofBound (c.rest.length + 1)) c with
    | ok x =>
        obtain ⟨hsame, hq⟩ := hother.ok hpc
        rw [hsame, hm, ← (hQ _ _ hq).final_eq, Cursor.within_none]
    | error e => exact (hother.error hpc (Nat.lt_succ_self _)).2 rfl
  · have hself := hfollows (c.rest.length + 1) (Nat.lt_succ_self _)
    cases hpc : p (ofBound (c.rest.length + 1)) c with
    | ok x => exact hQ _ _ (hself.ok hpc).2
    | error e => exact (hself.error hpc (Nat.lt_succ_self _)).1

theorem settles_of_starts {m : Shift → α → α} {Q : Cursor → α → Cursor → Prop}
    (hm : ∀ a, m .none a = a) (hQ : ∀ {c a d}, Q c a d → c.Passes least d)
    (h : ∀ {w n g g'}, Inner w n g g' → Starts w n (p g) (p g') (m w.toShift) Q) (c : Cursor) :
    Settles least p c :=
  settles_of_follows (fun _ => rfl) hm (fun _ _ => hQ) fun hinner =>
    h hinner c _ (Cursor.near_within _ c)

end Settling

/-- What every parser does at a cursor, whatever tokens are left there. -/
structure Progress (c : Cursor) : Prop where
  statement : Settles 1 statement c
  expr : Settles 1 Grammar.expr c
  comparison : Settles 1 comparison c
  term : Settles 1 term c
  factor : Settles 1 factor c
  unary : Settles 1 (fun g => g.unary (g.rounds + 1)) c
  postfixed : Settles 1 postfixed c
  primary : Settles 1 primary c
  block : Settles 1 block c
  arguments : Settles 1 arguments c
  classBody : ∀ fields methods, Settles 1 (fun g => g.classMembers g.rounds fields methods) c
  -- the loops, whatever they have read before
  topLevel : ∀ done, Settles 0 (fun g => g.stmtsUntilEnd g.rounds done) c
  blockItems : ∀ done, Settles 1 (fun g => g.stmtsUntilBrace g.rounds done) c
  comparisons : ∀ left, Settles 0 (fun g => chain comparisonOp? g.term g.rounds left) c
  terms : ∀ left, Settles 0 (fun g => chain termOp? g.factor g.rounds left) c
  factors : ∀ left, Settles 0 (fun g => chain factorOp? (g.unary (g.rounds + 1)) g.rounds left) c
  postfixes : ∀ start left, Settles 0 (fun g => g.postfixes start g.rounds left) c
  exprList : ∀ done, Settles 1 (fun g => commaList g.expr g.rounds done) c
  entryList : ∀ done, Settles 1 (fun g => commaList g.dictEntry g.rounds done) c
  nameList : ∀ done, Settles 1 (fun g => commaList identifier g.rounds done) c
  semicolons : Settles 0 (fun _ => skipSemis) c

theorem map_moved_none (ss : List Stmt) : ss.map (Stmt.moved .none) = ss := by
  rw [← Stmt.movedAll_eq, Stmt.movedAll_none]

theorem map_exprs_none (es : List Expr) : es.map (Expr.moved .none) = es := by
  rw [← Expr.movedAll_eq, Expr.movedAll_none]

theorem map_methods_none (fs : List FunctionDecl) : fs.map (Stmt.movedFunction .none) = fs := by
  rw [← Stmt.movedMethods_eq, Stmt.movedMethods_none]

theorem map_entries_none (entries : List (String × Expr)) :
    entries.map (fun x => (x.1, x.2.moved .none)) = entries := by
  rw [← Expr.movedEntries_eq, Expr.movedEntries_none]

theorem chain_settles {op? : Token → Option BinaryOp} {operand : Grammar → Parser Expr}
    (hop : op? (.symbol .semi) = none)
    (h : ∀ {w n g g'}, Inner w n g g' →
      Starts w (n + 1) (operand g) (operand g') (Expr.moved w.toShift) IsExpr)
    (left : Expr) (c : Cursor) : Settles 0 (fun g => chain op? (operand g) g.rounds left) c := by
  refine settles_of_follows
    (fun g => congrArg (chain op? (operand g) g.rounds) (Expr.moved_none left)) Expr.moved_none
    (Q := fun _ d => c.Passes 0 d) (fun _ _ hd => hd) fun hinner => ?_
  exact chain_follows hop ((h hinner).mono (Nat.le_succ _))
    (fun hc hop hright => ((hc.trans hop).trans hright.passes).zero) hinner.bound hinner.rounds
    (.refl c)

theorem postfixes_settles (start : Span) (left : Expr) (c : Cursor) :
    Settles 0 (fun g => g.postfixes start g.rounds left) c := by
  refine settles_of_follows
    (fun g => congrArg (g.postfixes start g.rounds) (Expr.moved_none left)) Expr.moved_none
    (Q := fun _ d => c.Passes 0 d) (fun _ _ hd => hd) fun hinner => ?_
  exact postfixes_follows hinner (fun hc hd _ _ _ => (hc.trans hd.passes).zero) hinner.bound
    hinner.rounds (.refl c)

/-- A list settles that is read in one go with its items, whatever was read before. -/
theorem commaList_settles {α : Type} {item : Grammar → Parser α} {m : Shift → α → α}
    {nodes : α → List Node} (hm : ∀ xs : List α, xs.map (m .none) = xs)
    (h : ∀ {w n g g'}, Inner w n g g' →
      Starts w n (item g) (item g') (m w.toShift) fun c a d => c.Reads (nodes a) d)
    (done : List α) (c : Cursor) :
    Settles 1 (fun g => commaList (item g) g.rounds done) c := by
  refine settles_of_follows (fun g => congrArg (commaList (item g) g.rounds) (hm done)) hm
    (Q := fun _ d => c.Passes 1 d) (fun _ _ hd => hd) fun hinner => ?_
  refine ((h hinner).commaList hinner.bound hinner.rounds done c _ (Cursor.near_within _ c)).imp ?_
  rintro _ d ⟨bs, -, -, hd⟩
  exact hd.passes

theorem progress (c : Cursor) : Progress c where
  statement := settles_of_starts Stmt.moved_none (fun hs => hs.spans.passes)
    (fun h => (statement_starts h).mono (Nat.le_succ _)) c
  expr := settles_of_starts Expr.moved_none Cursor.Spans.passes (fun h => h.expr) c
  comparison := settles_of_starts Expr.moved_none Cursor.Spans.passes
    (fun h => (comparison_starts h).mono (Nat.le_succ _)) c
  term := settles_of_starts Expr.moved_none Cursor.Spans.passes
    (fun h => (term_starts h).mono (Nat.le_succ _)) c
  factor := settles_of_starts Expr.moved_none Cursor.Spans.passes
    (fun h => (factor_starts h).mono (Nat.le_succ _)) c
  unary := settles_of_starts Expr.moved_none Cursor.Spans.passes
    (fun h => (signed_starts h).mono (Nat.le_succ _)) c
  postfixed := settles_of_starts Expr.moved_none Cursor.Spans.passes
    (fun h => (postfixed_starts h).mono (Nat.le_succ _)) c
  primary := settles_of_starts Expr.moved_none Cursor.Spans.passes
    (fun h => (primary_starts h).mono (Nat.le_succ _)) c
  block := settles_of_starts (m := fun σ => List.map (Stmt.moved σ)) map_moved_none
    Cursor.Reads.passes (fun h => (block_starts h).mono (Nat.le_succ _)) c
  arguments := settles_of_starts (m := fun σ => List.map (Expr.moved σ)) map_exprs_none
    Cursor.Reads.passes (fun h => (arguments_starts h).mono (Nat.le_succ _)) c
  classBody fields methods := by
    refine settles_of_follows
      (fun g => congrArg (g.classMembers g.rounds fields) (map_methods_none methods))
      (fun x => congrArg (Prod.mk x.1) (map_methods_none x.2)) (Q := fun _ d => c.Passes 1 d)
      (fun _ _ hd => hd) fun h => ?_
    refine (classMembers_follows ((functionDecl_starts h).mono (Nat.le_succ _)) h.bound h.rounds
      fields methods).imp ?_
    rintro _ d ⟨fs, -, hd⟩
    exact hd.passes
  topLevel done := by
    refine settles_of_follows
      (fun g => congrArg (g.stmtsUntilEnd g.rounds) (map_moved_none done)) map_moved_none
      (Q := fun _ d => c.Passes 0 d) (fun _ _ hd => hd) fun h => ?_
    refine (stmtsUntilEnd_follows rfl h.stmt h.bound h.rounds done).imp ?_
    rintro _ d ⟨ts, -, hd⟩
    exact hd.passes
  blockItems done := by
    refine settles_of_follows
      (fun g => congrArg (g.stmtsUntilBrace g.rounds) (map_moved_none done)) map_moved_none
      (Q := fun _ d => c.Passes 1 d) (fun _ _ hd => hd) fun h => ?_
    refine (stmtsUntilBrace_follows h.stmt h.bound h.rounds done).imp ?_
    rintro _ d ⟨ts, -, hd⟩
    exact hd.passes
  comparisons left := chain_settles rfl term_starts left c
  terms left := chain_settles rfl factor_starts left c
  factors left := chain_settles rfl signed_starts left c
  postfixes start left := postfixes_settles start left c
  exprList done := commaList_settles map_exprs_none (fun h => expr_node h.expr) done c
  entryList done := commaList_settles (m := fun σ x => (x.1, x.2.moved σ)) map_entries_none
    dictEntry_starts done c
  nameList done := commaList_settles (m := fun _ x => x) List.map_id'
    (fun _ => Starts.identifier) done c
  semicolons := ⟨_, fun _ _ => rfl, Cursor.Passes.skipSemis c⟩

end Grammar

namespace Program

open ScriptLang.Parser

/-- Whatever tokens are left at a cursor, every parser of the grammar settles there: the result is
the same for all bounds above the number of these tokens, the cursor moves over tokens that are
left and over one at least where something is read, and an error is raised at a token that was come
to. So whatever the tokens are, lexed or not, the loop over all of them ends with a program or with
an error at one of them. -/
theorem parsing_progresses :
    (∀ c, Grammar.Progress c) ∧
    ∀ (source : String) (tokens : List (Token × Span)),
      (∀ bound, tokens.length < bound →
        ((Grammar.ofBound bound).stmtsUntilEnd bound [] (startOf source tokens).skipSemis).map
          (fun x => (⟨x.1⟩ : Program)) = ofTokens source tokens) ∧
      ((∃ p, ofTokens source tokens = .ok p) ∨
        ∃ e d, ofTokens source tokens = .error e ∧ (startOf source tokens).Passes 0 d ∧
          e.RaisedAt d) := by
  refine ⟨Grammar.progress, fun source tokens => ⟨fun bound hb => ?_, ?_⟩⟩
  · have hlength : (startOf source tokens).rest.length = tokens.length := List.length_map _
    have hread := startOf_follows source tokens hb
    rw [ofTokens_eq]
    cases hresult : (Grammar.ofBound (tokens.length + 1)).stmtsUntilEnd (tokens.length + 1) []
        (startOf source tokens).skipSemis with
    | ok x =>
        rw [(hread.ok hresult).1, Grammar.map_moved_none]
        rfl
    | error e => rw [(hread.error hresult (by omega)).2 rfl]
  · rcases ofTokens_cases source tokens with ⟨p, -, hok, -⟩ | herror
    · exact .inl ⟨p, hok⟩
    · exact .inr herror

end Program

end ScriptLang
