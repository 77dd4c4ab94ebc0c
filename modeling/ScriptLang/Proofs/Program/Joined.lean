import Mathlib
import ScriptLang.Proofs.Lines
import ScriptLang.Proofs.Program.Parsing

/-!
# Two programs in one text

A program, a semicolon on a line of its own and another program form the program of
all their statements. Those of the first stand where they stood, and those of the
second are moved by the bytes and lines of what is now in front of them.
-/

namespace ScriptLang

/-! ## Tokens -/

namespace Token

theorem span_of_scan {source : String} {tokens : List (Token × Span)}
    (h : scan source = .ok tokens) {x : Token × Span} (hx : x ∈ tokens) :
    x.2.start < x.2.stop ∧ x.2.stop ≤ source.utf8ByteSize := by
  have htiling := tiling_of_scanFrom h [] rfl
  refine ⟨(splits_of_tiling htiling).nonempty x hx, ?_⟩
  obtain ⟨pre, word, after, hsource, hspan, -⟩ := htiling.exists_lexeme x hx
  rw [List.nil_append] at hsource
  rw [utf8ByteSize_eq, hsource, hspan, byteLength_append (pre ++ word)]
  exact Nat.le_add_right _ _

/-- The separator is scanned as one semicolon. -/
theorem scan_joined {a b : String} {as bs : List (Token × Span)} (ha : scan a = .ok as)
    (hb : scan b = .ok bs) :
    scan (a ++ "\n;\n" ++ b) =
      .ok (as ++ (.symbol .semi, ⟨a.utf8ByteSize + 1, a.utf8ByteSize + 2⟩) ::
        movedAll (a.utf8ByteSize + 3) bs) := by
  have hchars : (a ++ "\n;\n" ++ b).toList = a.toList ++ '\n' :: ([';'] ++ '\n' :: b.toList) := by
    rw [String.toList_append, String.toList_append, List.append_assoc]
    rfl
  have hsemi (offset : Nat) :
      scanFrom offset [';'] = .ok [(.symbol .semi, ⟨offset, offset + 1⟩)] := by
    have htoken : tokenAt ';' [] = .ok (.symbol .semi, []) := rfl
    have hend : scanFrom (offset + ';'.utf8Size + byteLength []) [] = .ok [] := by rw [scanFrom]
    exact scanFrom_token (by decide) (by decide) htoken hend
  have hbehind := scanFrom_add hb (a.utf8ByteSize + 3)
  rw [Nat.zero_add] at hbehind
  rw [scan, hchars, scanFrom_break ha, scanFrom_break (hsemi _), Nat.zero_add,
    ← utf8ByteSize_eq]
  show Except.map _ (Except.map _ (scanFrom (a.utf8ByteSize + 3) b.toList)) = _
  rw [hbehind]
  rfl

end Token

namespace Program

open ScriptLang.Parser

theorem lexemes_append (source : String) (as bs : List (Token × Span)) :
    lexemes source (as ++ bs) = lexemes source as ++ lexemes source bs :=
  List.map_append

/-- The lexemes of a text do not change if something is put behind it. -/
theorem lexemes_front {a : String} {as : List (Token × Span)} (h : Token.scan a = .ok as)
    (more : String) : lexemes (a ++ more) as = lexemes a as := by
  refine List.map_congr_left fun x hx => ?_
  have hspan := Token.span_of_scan h hx
  have hline := Lines.line_append_left a more (o := x.2.start) (by omega)
  exact congrArg (Lexeme.mk x.1 x.2) hline

theorem lexemes_behind (before b : String) (bs : List (Token × Span)) :
    lexemes (before ++ b) (Token.movedAll before.utf8ByteSize bs) =
      (lexemes b bs).map
        (Lexeme.moved ⟨before.utf8ByteSize, before.toList.count '\n'⟩) := by
  rw [lexemes, lexemes, Token.movedAll, List.map_map, List.map_map]
  refine List.map_congr_left fun x _ => ?_
  have hline := Lines.line_append_right before b x.2.start
  exact congrArg (Lexeme.mk x.1 (x.2.moved before.utf8ByteSize)) hline

/-- The lexemes of both texts stand there, the second moved, with a semicolon between them. -/
theorem lexemes_joined {a : String} {as : List (Token × Span)} (ha : Token.scan a = .ok as)
    (b : String) (bs : List (Token × Span)) (middle : Span) : ∃ line,
      lexemes (a ++ "\n;\n" ++ b)
          (as ++ (.symbol .semi, middle) :: Token.movedAll (a.utf8ByteSize + 3) bs) =
        lexemes a as ++ ⟨.symbol .semi, middle, line⟩ ::
          (lexemes b bs).map (Lexeme.moved ⟨a.utf8ByteSize + 3, a.toList.count '\n' + 2⟩) := by
  have hbytes : (a ++ "\n;\n").utf8ByteSize = a.utf8ByteSize + 3 := by
    rw [String.utf8ByteSize_append]
    rfl
  have hlines : (a ++ "\n;\n").toList.count '\n' = a.toList.count '\n' + 2 := by
    rw [String.toList_append, List.count_append]
    rfl
  have hfront := lexemes_front ha ("\n;\n" ++ b)
  have hbehind := lexemes_behind (a ++ "\n;\n") b bs
  rw [hbytes, hlines] at hbehind
  rw [lexemes_append, String.append_assoc, hfront, ← String.append_assoc, ← hbehind]
  exact ⟨_, rfl⟩

end Program

/-! ## Statements -/

namespace Grammar

open ScriptLang.Parser

variable {w : Around} {g g' : Grammar} {rounds : Nat} {done : List Stmt} {c : Cursor}

theorem stmtsUntilEnd_nil (hc : c.rest = []) :
    g.stmtsUntilEnd (rounds + 1) done c = .ok (done.reverse, c) := by
  have htoken : c.token? = none := by rw [Cursor.token?, hc]; rfl
  rw [stmtsUntilEnd, bind_apply, peek, htoken]
  rfl

theorem stmtsUntilEnd_cons (hc : c.rest ≠ []) :
    g.stmtsUntilEnd (rounds + 1) done c =
      (g.stmt c).bind fun x => g.stmtsUntilEnd rounds (x.1 :: done) x.2.skipSemis := by
  obtain ⟨l, rest, hrest⟩ := List.exists_cons_of_ne_nil hc
  have htoken : c.token? = some l.token := by rw [Cursor.token?, hrest]; rfl
  rw [stmtsUntilEnd, bind_apply, peek, htoken]
  rfl

/-- The loop over all tokens reads the statements of a text in a longer one and goes on behind
them, with rounds left. -/
theorem stmtsUntilEnd_goes_on (h : Inner w 0 g g') (extra : Nat) (prior : List Stmt) :
    ∀ {rounds rounds' : Nat} {done ss : List Stmt} {c c' d : Cursor}, Cursor.Near w c c' →
      g.stmtsUntilEnd rounds done c.skipSemis = .ok (ss, d) → rounds + extra ≤ rounds' →
      ∃ (rest : Nat) (e : Cursor), extra < rest ∧ e.rest = w.more ∧ e.final = w.final ∧
        g'.stmtsUntilEnd rounds' (done.map (Stmt.moved w.toShift) ++ prior) c'.skipSemis =
          g'.stmtsUntilEnd rest ((ss.map (Stmt.moved w.toShift)).reverse ++ prior) e.skipSemis
  | 0, _, _, _, _, _, _, _, heq, _ => by cases heq
  | rounds + 1, rounds', done, ss, c, c', d, hc, heq, hrounds => by
      -- the shorter text ends here, or both go on with the same statement
      by_cases hnil : c.skipSemis.rest = []
      · rw [stmtsUntilEnd_nil hnil] at heq
        obtain ⟨rfl, -⟩ := Prod.mk.inj (Except.ok.inj heq)
        obtain ⟨e, hrest, hfinal, hskip⟩ := hc.skipSemis_end hnil
        refine ⟨rounds', e, by omega, hrest, hfinal, ?_⟩
        rw [hskip, List.map_reverse, List.reverse_reverse]
      · obtain ⟨rounds', rfl⟩ : ∃ n, rounds' = n + 1 := Nat.exists_eq_succ_of_ne_zero (by omega)
        have hnear := hc.skipSemis hnil
        have hne : c'.skipSemis.rest ≠ [] := by
          obtain ⟨l, rest, hrest⟩ := List.exists_cons_of_ne_nil hnil
          rw [hnear.rest_cons hrest]
          exact List.cons_ne_nil _ _
        rw [stmtsUntilEnd_cons hnil] at heq
        rw [stmtsUntilEnd_cons hne]
        cases hs : g.stmt c.skipSemis with
        | error e =>
            rw [hs] at heq
            cases heq
        | ok x =>
            rw [hs] at heq
            rw [((h.stmt _ _ hnear).ok hs).1]
            exact stmtsUntilEnd_goes_on h extra prior (Cursor.near_within w x.2) heq (by omega)

/-- What is read from two texts alone is read from the longer one, if the second stands behind the
first and a semicolon. -/
theorem stmtsUntilEnd_joined {n n' : Nat} {σ : Shift} {ss ss' : List Stmt} {c c' d d' e : Cursor}
    {semi : Lexeme} (hsemi : semi.token = .symbol .semi)
    (h : (ofBound n).stmtsUntilEnd n [] c.skipSemis = .ok (ss, d))
    (h' : (ofBound n').stmtsUntilEnd n' [] c'.skipSemis = .ok (ss', d'))
    (he : e.rest = c.rest ++ semi :: c'.rest.map (Lexeme.moved σ)) :
    ∃ d'', (ofBound (n + n')).stmtsUntilEnd (n + n') [] e.skipSemis =
      .ok (ss ++ ss'.map (Stmt.moved σ), d'') := by
  let front : Around :=
    ⟨.none, semi :: c'.rest.map (Lexeme.moved σ), e.final, fun l hl => by cases hl; exact hsemi⟩
  let back : Around := ⟨σ, [], e.final, fun l hl => by cases hl⟩
  have hnear : Cursor.Near front c e := by
    refine ⟨?_, rfl⟩
    rw [he, Cursor.within]
    exact congrArg (· ++ _) (List.map_id _).symm
  obtain ⟨rest, e₁, hrest, he₁, hfinal₁, hfirst⟩ :=
    stmtsUntilEnd_goes_on (inner_ofBound front (Nat.zero_le n) (Nat.le_add_right n n')) n' [] hnear
      h le_rfl
  -- behind the semicolon the second text begins
  have hskip : e₁.skipSemis =
      (⟨c'.rest.map (Lexeme.moved σ), semi.span, e.final⟩ : Cursor).skipSemis := by
    rw [Cursor.skipSemis, he₁, hfinal₁]
    show Cursor.mk (Cursor.overSemis _ (semi :: _)).1 (Cursor.overSemis _ (semi :: _)).2 _ = _
    rw [Cursor.overSemis, if_pos hsemi]
    rfl
  have hnear' : Cursor.Near back c' ⟨c'.rest.map (Lexeme.moved σ), semi.span, e.final⟩ :=
    ⟨(List.append_nil _).symm, rfl⟩
  obtain ⟨rest', e₂, hrest', he₂, -, hsecond⟩ :=
    stmtsUntilEnd_goes_on (inner_ofBound back (Nat.zero_le n') (Nat.le_add_left n' n)) 0 ss.reverse
      hnear' h' (Nat.le_of_lt hrest)
  have hunmoved : ss.map (Stmt.moved .none) = ss := by
    rw [← Stmt.movedAll_eq, Stmt.movedAll_none]
  obtain ⟨rest', rfl⟩ := Nat.exists_eq_succ_of_ne_zero (Nat.ne_of_gt hrest')
  have hend : e₂.skipSemis.rest = [] := by
    rw [Cursor.skipSemis_rest, he₂]
    rfl
  have hjoined := calc
    (ofBound (n + n')).stmtsUntilEnd (n + n') [] e.skipSemis
    _ = (ofBound (n + n')).stmtsUntilEnd rest ((ss.map (Stmt.moved .none)).reverse ++ [])
        e₁.skipSemis := hfirst
    _ = (ofBound (n + n')).stmtsUntilEnd rest ss.reverse e₁.skipSemis := by
      rw [hunmoved, List.append_nil]
    _ = (ofBound (n + n')).stmtsUntilEnd (rest' + 1)
        ((ss'.map (Stmt.moved σ)).reverse ++ ss.reverse) e₂.skipSemis := by
      rw [hskip]
      exact hsecond
  refine ⟨e₂.skipSemis, ?_⟩
  rw [hjoined, stmtsUntilEnd_nil hend, List.reverse_append, List.reverse_reverse,
    List.reverse_reverse]

end Grammar

theorem Except.exists_of_toOption_map {ε α β : Type} {x : Except ε α} {f : α → β} {b : β}
    (h : x.toOption.map f = some b) : ∃ a, x = .ok a ∧ f a = b := by
  cases x with
  | error e => cases h
  | ok a => exact ⟨a, rfl, Option.some.inj h⟩

namespace Program

theorem ofText_of_scan {source : String} {tokens : List (Token × Span)}
    (h : Token.scan source = .ok tokens) :
    ofText source = (ofTokens source tokens).mapError .parse := by
  unfold ofText
  rw [h]
  dsimp only
  cases ofTokens source tokens <;> rfl

theorem ofText_ok {source : String} {p : Program} (h : ofText source = .ok p) :
    ∃ tokens, Token.scan source = .ok tokens ∧ ofTokens source tokens = .ok p := by
  cases hscan : Token.scan source with
  | error e =>
      unfold ofText at h
      rw [hscan] at h
      cases h
  | ok tokens =>
      rw [ofText_of_scan hscan] at h
      refine ⟨tokens, rfl, ?_⟩
      cases hread : ofTokens source tokens with
      | error e =>
          rw [hread] at h
          cases h
      | ok p' =>
          rw [hread] at h
          exact congrArg Except.ok (Except.ok.inj h)

theorem ofTokens_ok {source : String} {tokens : List (Token × Span)} {p : Program}
    (h : ofTokens source tokens = .ok p) :
    ∃ d, (Grammar.ofBound (tokens.length + 1)).stmtsUntilEnd (tokens.length + 1) []
      (startOf source tokens).skipSemis = .ok (p.stmts, d) := by
  rw [ofTokens_eq] at h
  cases hread : (Grammar.ofBound (tokens.length + 1)).stmtsUntilEnd (tokens.length + 1) []
      (startOf source tokens).skipSemis with
  | error e =>
      rw [hread] at h
      cases h
  | ok x =>
      rw [hread] at h
      cases h
      exact ⟨x.2, rfl⟩

/-- The text of a program, a semicolon on a line of its own and the text of another program make
up the statements of both. Those of the first are unchanged, and those of the second are moved by
what stands in front of them. -/
theorem ofText_joined {a b : String} {p q : Program} (ha : ofText a = .ok p)
    (hb : ofText b = .ok q) :
    ofText (a ++ "\n;\n" ++ b) =
      .ok ⟨p.stmts ++ (q.moved ⟨a.utf8ByteSize + 3, a.toList.count '\n' + 2⟩).stmts⟩ := by
  obtain ⟨as, has, hread⟩ := ofText_ok ha
  obtain ⟨bs, hbs, hread'⟩ := ofText_ok hb
  obtain ⟨d, hp⟩ := ofTokens_ok hread
  obtain ⟨d', hq⟩ := ofTokens_ok hread'
  have hscan := Token.scan_joined has hbs
  obtain ⟨line, hlexemes⟩ := lexemes_joined has b bs ⟨a.utf8ByteSize + 1, a.utf8ByteSize + 2⟩
  have hlength (middle : Token × Span) :
      (as ++ middle :: Token.movedAll (a.utf8ByteSize + 3) bs).length + 1 =
        as.length + 1 + (bs.length + 1) := by
    rw [List.length_append, List.length_cons, Token.movedAll, List.length_map]
    omega
  obtain ⟨d'', hjoined⟩ :=
    Grammar.stmtsUntilEnd_joined (e := startOf (a ++ "\n;\n" ++ b) _) rfl hp hq hlexemes
  rw [ofText_of_scan hscan, ofTokens_eq, hlength, hjoined, moved, Stmt.movedAll_eq]
  rfl

/-- An assignment with a remark behind it that has a two-byte character in it. -/
def remarked : String := "x = 1\n# é"

/-- A function whose body stands on a line of its own and ends with a bare return. -/
def returning : String := "fn f() \x7b\n  return\n\x7d"

theorem remarked_joined_returning :
    ∃ p q, ofText remarked = .ok p ∧ p.stmts.map Stmt.place = [⟨⟨0, 5⟩, 1⟩] ∧
      ofText returning = .ok q ∧ q.stmts.map Stmt.place = [⟨⟨0, 19⟩, 1⟩] ∧
      ofText (remarked ++ "\n;\n" ++ returning) = .ok ⟨p.stmts ++ (q.moved ⟨13, 3⟩).stmts⟩ := by
  have hp : (ofText remarked).toOption.map (·.stmts.map Stmt.place) = some [⟨⟨0, 5⟩, 1⟩] := by
    decide +kernel
  have hq : (ofText returning).toOption.map (·.stmts.map Stmt.place) = some [⟨⟨0, 19⟩, 1⟩] := by
    decide +kernel
  obtain ⟨p, ha, hpp⟩ := Except.exists_of_toOption_map hp
  obtain ⟨q, hb, hqq⟩ := Except.exists_of_toOption_map hq
  exact ⟨p, q, ha, hpp, hb, hqq, ofText_joined ha hb⟩

end Program

end ScriptLang
