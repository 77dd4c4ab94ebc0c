import Mathlib
import ScriptLang.Proofs.Program.Parsing
import ScriptLang.Proofs.Program.ReadStmt

/-!
# Reading back what was printed

The tokens that a printable program is printed as form that program again, wherever they
stand and whatever text they come from. Nothing else is ever read: every program that tokens
form is printable.
-/

namespace ScriptLang

open ScriptLang.Parser

namespace Program

variable {source : String} {tokens : List (Token × Span)} {p : Program}

theorem tokens_lexemes (place : Span) :
    (⟨lexemes source tokens, place, place⟩ : Cursor).tokens = tokens.map Prod.fst := by
  rw [Cursor.tokens, lexemes, List.map_map]
  rfl

/-- The loop over the whole of the tokens reads the statements they were printed from. -/
theorem succeeds_stmtsUntilEnd {ss : List Stmt} {c : Cursor} {m : Nat}
    (hprintable : Stmt.AllPrintable ss) (hm : (Stmt.tokensAll ss).length ≤ m)
    (hc : c.tokens = Stmt.tokensAll ss) :
    Succeeds ((Grammar.ofBound (m + 1)).stmtsUntilEnd (m + 1) []) c fun ss' _ =>
      Stmt.bareAll ss' = Stmt.bareAll ss := by
  have hrounds : ss.length < m + 1 := by
    have hle := Grammar.length_le_tokensAll ss
    omega
  suffices hread : Succeeds ((Grammar.ofBound (m + 1)).stmtsUntilEnd (m + 1) []) c fun ss' c' =>
      Stmt.bareAll ss' = Stmt.bareAll ss ∧ c'.tokens = [] from hread.imp fun _ _ h => h.1
  refine Grammar.succeeds_stmts (m := m) (k := []) (Grammar.readStmts ss hprintable) hm hrounds
    (by simp) ?_ ?_ [] ?_
  · rintro rounds done c Q ⟨t, ht, _⟩ hstmt
    rw [Grammar.stmtsUntilEnd, succeeds_bind, succeeds_peek, Option.mem_def.mp ht]
    simpa only [succeeds_bind, succeeds_skipSemis] using hstmt
  · intro rounds done c hend
    rw [Grammar.stmtsUntilEnd]
    simp [hend]
  · rw [hc, List.append_nil]

theorem exists_ofTokens (hp : p.Printable) (h : tokens.map Prod.fst = p.tokens) :
    ∃ p', ofTokens source tokens = .ok p' ∧ p'.bare = p.bare := by
  obtain ⟨ss⟩ := p
  have hlength := congrArg List.length h
  rw [List.length_map] at hlength
  -- No statement begins with a semicolon, so nothing is skipped before the first.
  have hhead := Grammar.head_stmts ss [] (by simp)
  rw [List.append_nil] at hhead
  have hc (place : Span) :
      (⟨lexemes source tokens, place, place⟩ : Cursor).skipSemis.tokens = Stmt.tokensAll ss := by
    rw [Cursor.tokens_skipSemis, tokens_lexemes, h]
    exact Cursor.dropWhile_semi hhead
  obtain ⟨ss', c', heq, hbare⟩ :=
    succeeds_stmtsUntilEnd hp hlength.ge (hc ⟨source.utf8ByteSize, source.utf8ByteSize⟩)
  refine ⟨⟨ss'⟩, ?_, congrArg Program.mk hbare⟩
  unfold ofTokens
  simp only [heq]

theorem printable_of_ofTokens (h : ofTokens source tokens = .ok p) : p.Printable := by
  rcases ofTokens_cases source tokens with ⟨p', d, hok, hholds⟩ | ⟨e, d, herror, -⟩
  · obtain rfl := Except.ok.inj (h.symm.trans hok)
    exact Node.forall_mem_ofBlock.mp hholds.printable
  · rw [herror] at h
    cases h

/-- Reading inverts printing, and gives printable programs only. -/
theorem ofTokens_tokens :
    (∀ p : Program, p.Printable → ∀ (source : String) (tokens : List (Token × Span)),
      tokens.map Prod.fst = p.tokens →
        ∃ p', ofTokens source tokens = .ok p' ∧ p'.bare = p.bare) ∧
    (∀ (source : String) (tokens : List (Token × Span)) (p : Program),
      ofTokens source tokens = .ok p → p.Printable) :=
  ⟨fun _ hp _ _ h => exists_ofTokens hp h, fun _ _ _ h => printable_of_ofTokens h⟩

/-- A program with an operand in parentheses on either side, a matrix, and a handler with a kind
inside an exported function. -/
def mixed : Program := ⟨[
  .bind default "m" (.matrix default 2 1 [
    .binary default (.name default "a") .sub
      (.binary default (.name default "b") .sub (.number default 1.5)),
    .unary default .neg (.index default
      (.binary default (.name default "a") .add (.name default "b")) (.text default "k"))]),
  .share default (.define default ⟨"f", ["x"], [
    .attempt default
      [.assignField default (.call default "g" [.dict default [("k", .name default "x")]]) "y"
        (.bool default true)]
      (some ⟨some "E", some "e", [.raise default (.name default "e")]⟩) none], 0⟩)]⟩

def mixedText : String :=
  "let m = [[a - (b - 1.5)], [-(a + b)[\"k\"]]];\nexport fn f(x) \x7b\n  try \x7b " ++
  "g(\x7b\"k\": x\x7d).y = true; \x7d catch E as e \x7b throw e; \x7d;\n\x7d;\n"

theorem mixed_read_back : mixed.Printable ∧ ∃ tokens, Token.scan mixedText = .ok tokens ∧
    tokens.map Prod.fst = mixed.tokens ∧
      ∃ p, ofTokens mixedText tokens = .ok p ∧ p.bare = mixed.bare ∧ p.Printable := by
  have hprintable : mixed.Printable := by
    simp [mixed, Printable, Stmt.AllPrintable, Stmt.Printable, Stmt.FunctionPrintable,
      Stmt.HandlerPrintable, Stmt.OptionPrintable, Stmt.IsShareable, Expr.Printable,
      Expr.AllPrintable, Expr.EntriesPrintable, Expr.UniformRows, rowsOf]
  have htokens : (Token.scan mixedText).toOption.map (List.map Prod.fst) = some mixed.tokens := by
    decide +kernel
  cases hscan : Token.scan mixedText with
  | error e =>
      rw [hscan] at htokens
      cases htokens
  | ok tokens =>
      rw [hscan] at htokens
      have hprinted : tokens.map Prod.fst = mixed.tokens := Option.some.inj htokens
      obtain ⟨p, hread, hbare⟩ := ofTokens_tokens.1 mixed hprintable mixedText tokens hprinted
      have hp := ofTokens_tokens.2 mixedText tokens p hread
      exact ⟨hprintable, tokens, rfl, hprinted, p, hread, hbare, hp⟩

end Program

end ScriptLang
