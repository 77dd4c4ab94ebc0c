import Mathlib
import ScriptLang.Proofs.Program.ReadExpr

/-!
# Reading statements back

The tokens of a printable statement in front of a semicolon are read as that statement again,
up to places and lines (`readStmt`). Blocks, functions and classes are read part by part.
-/

namespace ScriptLang

namespace Grammar

open ScriptLang.Parser

section Reading

variable {m : Nat} {k : List Token} {c : Cursor} {e : Expr}

-- one set of equations for all lemmas below
attribute [local simp] Stmt.tokens Stmt.bare

@[simp] theorem endsAt_braced (ts : List Token) : EndsAt 0 (braced ts ++ k) := by
  simp [braced, enclosed, Token.reach]

@[simp] theorem head?_braced (ts : List Token) :
    (braced ts ++ k).head? = some (.symbol .lbrace) :=
  rfl

theorem Readable.comparison (h : Readable e) (hm : e.tokens.length ≤ m) (hk : EndsAt 0 k)
    (hc : c.tokens = e.tokens ++ k) : Succeeds (ofBound m).comparison c (Gives e k) :=
  h.expr.whole hm hk hc

/-- The statement is read back in front of a semicolon. -/
def ReadStmt (s : Stmt) : Prop :=
  ∀ (m : Nat) (k : List Token) (c : Cursor), s.tokens.length ≤ m →
    c.tokens = s.tokens ++ .symbol .semi :: k →
    Succeeds (ofBound m).statement c fun s' c' =>
      s'.bare = s.bare ∧ c'.tokens = .symbol .semi :: k

theorem ne_of_startsExpr {t : Token} (h : t.startsExpr = true) :
    t ≠ .symbol .semi ∧ t ≠ .symbol .rbrace := by
  constructor
  all_goals
    rintro rfl
    cases h

/-- A statement does not begin where another or a block ends. -/
theorem head_stmt (s : Stmt) :
    ∃ t ∈ s.tokens.head?, t ≠ .symbol .semi ∧ t ≠ .symbol .rbrace := by
  cases s with
  | expr _ e =>
      obtain ⟨t, ht, hstarts⟩ := startsExpr_tokens e
      rw [Stmt.tokens]
      exact ⟨t, ht, ne_of_startsExpr hstarts⟩
  | assignField _ target _ _ =>
      obtain ⟨t, ht, hstarts, _⟩ := head_operand 4 (head_tokens target) _
      rw [Stmt.tokens]
      exact ⟨t, ht, ne_of_startsExpr hstarts⟩
  | define _ decl =>
      obtain ⟨name, params, body, line⟩ := decl
      rw [Stmt.tokens, Stmt.tokensFunction]
      exact ⟨_, rfl, by decide, by decide⟩
  | defineClass _ decl =>
      obtain ⟨name, parent, fields, methods⟩ := decl
      rw [Stmt.tokens, Stmt.tokensClass]
      exact ⟨_, rfl, by decide, by decide⟩
  | forEach _ _ _ _ parallel =>
      rw [Stmt.tokens]
      cases parallel
      all_goals exact ⟨_, rfl, by decide, by decide⟩
  | assign _ x _ =>
      rw [Stmt.tokens]
      exact ⟨.name x, rfl, by simp, by simp⟩
  | _ =>
      rw [Stmt.tokens]
      exact ⟨_, rfl, by decide, by decide⟩

theorem tokens_stmt_pos (s : Stmt) : 0 < s.tokens.length := by
  obtain ⟨t, ht, _⟩ := head_stmt s
  rw [List.length_pos_iff]
  intro hnil
  rw [hnil] at ht
  cases ht

/-! ## Blocks -/

theorem head_stmts (ss : List Stmt) (k : List Token)
    (hk : k.head? ≠ some (.symbol .semi)) :
    (Stmt.tokensAll ss ++ k).head? ≠ some (.symbol .semi) := by
  cases ss with
  | nil =>
      rw [Stmt.tokensAll]
      exact hk
  | cons s ss =>
      obtain ⟨t, ht, hne, _⟩ := head_stmt s
      rw [Stmt.tokensAll, List.append_assoc, List.head?_append, Option.mem_def.mp ht]
      simpa using hne

theorem length_le_tokensAll (ss : List Stmt) : ss.length ≤ (Stmt.tokensAll ss).length := by
  induction ss with
  | nil => exact Nat.zero_le _
  | cons s ss ih =>
      rw [Stmt.tokensAll, List.length_append, List.length_cons, List.length_cons]
      omega

/-- One statement of a list is read, with the semicolon behind it. -/
theorem succeeds_next {s : Stmt} {ss : List Stmt} (h : ReadStmt s)
    (hm : (Stmt.tokensAll (s :: ss)).length ≤ m) (hk : k.head? ≠ some (.symbol .semi))
    (hc : c.tokens = Stmt.tokensAll (s :: ss) ++ k) :
    Succeeds (ofBound (m + 1)).stmt c fun s' c' =>
      s'.bare = s.bare ∧ c'.skipSemis.tokens = Stmt.tokensAll ss ++ k := by
  rw [Stmt.tokensAll, List.length_append, List.length_cons] at hm
  rw [Stmt.tokensAll, List.append_assoc, List.cons_append] at hc
  refine Succeeds.imp (h m _ c (by omega) hc) ?_
  rintro s' c' ⟨hs', hc'⟩
  refine ⟨hs', ?_⟩
  rw [Cursor.tokens_skipSemis, hc', List.dropWhile_cons_of_pos (by simp)]
  exact Cursor.dropWhile_semi (head_stmts ss k hk)

/-- A loop over statements reads a list of them, if it takes one before anything but an end and
stops before that. -/
theorem succeeds_stmts {loop : Nat → List Stmt → Parser (List Stmt)} {body : List Stmt}
    {rounds : Nat} {last : List Token} (h : ∀ s ∈ body, ReadStmt s)
    (hm : (Stmt.tokensAll body).length ≤ m) (hrounds : body.length < rounds)
    (hk : k.head? ≠ some (.symbol .semi))
    (hstep : ∀ (rounds : Nat) (done : List Stmt) (c : Cursor) (Q : List Stmt → Cursor → Prop),
      (∃ t ∈ c.tokens.head?, t ≠ .symbol .rbrace) →
      (Succeeds (ofBound (m + 1)).stmt c fun s c' =>
        Succeeds (loop rounds (s :: done)) c'.skipSemis Q) →
      Succeeds (loop (rounds + 1) done) c Q)
    (hend : ∀ (rounds : Nat) (done : List Stmt) (c : Cursor), c.tokens = k →
      Succeeds (loop (rounds + 1) done) c fun ss c' => ss = done.reverse ∧ c'.tokens = last)
    (done : List Stmt) (hc : c.tokens = Stmt.tokensAll body ++ k) :
    Succeeds (loop rounds done) c fun ss c' =>
      Stmt.bareAll ss = Stmt.bareAll (done.reverse ++ body) ∧ c'.tokens = last := by
  obtain ⟨rounds, rfl⟩ : ∃ n, rounds = n + 1 := ⟨rounds - 1, by omega⟩
  induction body generalizing c rounds done with
  | nil =>
      rw [Stmt.tokensAll, List.nil_append] at hc
      refine (hend rounds done c hc).imp ?_
      rintro ss c' ⟨rfl, hc'⟩
      rw [List.append_nil]
      exact ⟨rfl, hc'⟩
  | cons s body ih =>
      obtain ⟨hs, hbody⟩ := List.forall_mem_cons.mp h
      have hhead : ∃ t ∈ c.tokens.head?, t ≠ .symbol .rbrace := by
        obtain ⟨t, ht, _, hne⟩ := head_stmt s
        refine ⟨t, ?_, hne⟩
        rw [hc, Stmt.tokensAll, List.append_assoc, List.head?_append, Option.mem_def.mp ht]
        rfl
      -- the semicolon behind the statement is skipped before the next round
      refine hstep rounds done c _ hhead ((succeeds_next hs hm hk hc).imp ?_)
      rintro s' c' ⟨hs', hc'⟩
      rw [Stmt.tokensAll, List.length_append, List.length_cons] at hm
      rw [List.length_cons] at hrounds
      obtain ⟨rounds, rfl⟩ : ∃ n, rounds = n + 1 := ⟨rounds - 1, by omega⟩
      refine (ih hbody (by omega) (s' :: done) hc' rounds (by omega)).imp ?_
      rintro ss c'' ⟨hss, hc''⟩
      refine ⟨?_, hc''⟩
      rw [hss]
      simp only [Stmt.bareAll_eq, List.reverse_cons, List.append_assoc, List.map_append,
        List.map_cons, List.cons_append, List.nil_append, hs']

theorem succeeds_block {body : List Stmt} (h : ∀ s ∈ body, ReadStmt s)
    (hm : (braced (Stmt.tokensAll body)).length ≤ m + 1)
    (hc : c.tokens = braced (Stmt.tokensAll body) ++ k) :
    Succeeds (ofBound (m + 1)).block c fun body' c' =>
      Stmt.bareAll body' = Stmt.bareAll body ∧ c'.tokens = k := by
  simp only [braced, enclosed, List.length_cons, List.length_append, List.cons_append,
    List.append_assoc, List.nil_append] at hm hc
  have hle := length_le_tokensAll body
  have hsemi : (Token.symbol .rbrace :: k).head? ≠ some (.symbol .semi) := by simp
  rw [block]
  simp only [succeeds_bind, succeeds_expect, hc, List.head?_cons, true_and, succeeds_skipSemis]
  -- the loop ends at the brace, which begins no statement
  refine succeeds_stmts (m := m) h (by omega) (by rw [rounds_ofBound]; omega) hsemi ?_ ?_ [] ?_
  · intro rounds done c Q hhead hstmt
    obtain ⟨t, ht, hne⟩ := hhead
    rw [stmtsUntilBrace, succeeds_bind, succeeds_peek, Option.mem_def.mp ht]
    split
    · rename_i heq
      exact absurd (Option.some.inj heq) hne
    · rename_i heq
      cases heq
    · simpa only [succeeds_bind, succeeds_skipSemis] using hstmt
  · intro rounds done c hc
    rw [stmtsUntilBrace]
    simp [hc]
  · rw [Cursor.tokens_skipSemis, Cursor.tokens_next, hc, List.tail_cons]
    exact Cursor.dropWhile_semi (head_stmts body _ hsemi)

/-- An expression with a block behind it. -/
theorem succeeds_headed {body : List Stmt} (h : Readable e) (hbody : ∀ s ∈ body, ReadStmt s)
    (hm : e.tokens.length + (braced (Stmt.tokensAll body)).length ≤ m + 1)
    (hc : c.tokens = e.tokens ++ (braced (Stmt.tokensAll body) ++ k)) :
    Succeeds (ofBound (m + 1)).comparison c fun e' c₁ =>
      Succeeds (ofBound (m + 1)).block c₁ fun body' c₂ =>
        e'.bare = e.bare ∧ Stmt.bareAll body' = Stmt.bareAll body ∧ c₂.tokens = k := by
  refine (h.comparison (by omega) (endsAt_braced _) hc).imp ?_
  rintro e' c₁ ⟨he', hc₁⟩
  refine (succeeds_block hbody (by omega) hc₁).imp ?_
  rintro body' c₂ ⟨hbody', hc₂⟩
  exact ⟨he', hbody', hc₂⟩

/-! ## Functions and classes -/

theorem readsEach_names (names : List String) :
    ReadsEach identifier (fun x => [.name x]) (fun x' x => x' = x) (fun _ => True) names := by
  intro x hx k c _ hc
  simp [hc]

theorem succeeds_params (names : List String) {rounds : Nat} (hrounds : names.length ≤ rounds)
    (hc : c.tokens = commas (names.map fun x => [.name x]) ++ .symbol .rparen :: k) :
    Succeeds (listUntil .rparen identifier rounds) c fun xs c' => xs = names ∧ c'.tokens = k := by
  refine (succeeds_listUntil (readsEach_names names) (fun _ => trivial) (fun _ => trivial)
    (by decide) hrounds (fun _ _ => ⟨_, rfl, by simp⟩) hc).imp ?_
  rintro xs c' ⟨hxs, hc'⟩
  exact ⟨List.forall₂_eq_eq_eq ▸ hxs, hc'⟩

theorem succeeds_functionDecl {decl : FunctionDecl} (h : ∀ s ∈ decl.body, ReadStmt s)
    (hm : (Stmt.tokensFunction decl).length ≤ m + 1)
    (hc : c.tokens = Stmt.tokensFunction decl ++ k) :
    Succeeds (ofBound (m + 1)).functionDecl c fun decl' c' =>
      Stmt.bareFunction decl' = Stmt.bareFunction decl ∧ c'.tokens = k := by
  obtain ⟨name, params, body, line⟩ := decl
  have hle := length_parts_le (params.map fun x => [Token.name x])
  simp only [Stmt.tokensFunction, parenthesized, enclosed, List.length_cons, List.length_append,
    List.length_map, List.cons_append, List.append_assoc, List.nil_append] at hm hc hle
  rw [functionDecl]
  simp only [succeeds_bind, succeeds_here, succeeds_expect, succeeds_identifier, hc,
    Cursor.tokens_next, List.head?_cons, List.tail_cons, true_and, Option.some.injEq,
    Token.name.injEq, exists_eq_left']
  refine (succeeds_params params (k := braced (Stmt.tokensAll body) ++ k)
    (by rw [rounds_ofBound]; omega) (by simp [hc])).imp ?_
  rintro _ c' ⟨rfl, hc'⟩
  have hbody : ∀ s ∈ body, ReadStmt s := h
  refine (succeeds_block hbody (by omega) hc').imp ?_
  rintro body' c'' ⟨hbody', hc''⟩
  simp [Stmt.bareFunction, hbody', hc'']

theorem succeeds_methods {methods : List FunctionDecl} {rounds : Nat}
    (h : ∀ d ∈ methods, ∀ s ∈ d.body, ReadStmt s)
    (hm : (Stmt.tokensMethods methods).length ≤ m + 1) (hrounds : methods.length < rounds)
    (fields : List String) (done : List FunctionDecl)
    (hc : c.tokens = Stmt.tokensMethods methods ++ .symbol .rbrace :: k) :
    Succeeds ((ofBound (m + 1)).classMembers rounds fields done) c fun x c' =>
      x.1 = fields.reverse ∧ Stmt.bareMethods x.2 = Stmt.bareMethods (done.reverse ++ methods) ∧
        c'.tokens = k := by
  obtain ⟨rounds, rfl⟩ : ∃ n, rounds = n + 1 := ⟨rounds - 1, by omega⟩
  induction methods generalizing c rounds done with
  | nil =>
      rw [Stmt.tokensMethods, List.nil_append] at hc
      rw [classMembers]
      simp [hc]
  | cons d methods ih =>
      obtain ⟨hd, hmethods⟩ := List.forall_mem_cons.mp h
      rw [Stmt.tokensMethods, List.length_append] at hm
      rw [Stmt.tokensMethods, List.append_assoc] at hc
      rw [List.length_cons] at hrounds
      obtain ⟨rounds, rfl⟩ : ∃ n, rounds = n + 1 := ⟨rounds - 1, by omega⟩
      have hhead : c.tokens.head? = some (.keyword .fnKw) := by
        obtain ⟨name, params, body, line⟩ := d
        rw [hc, Stmt.tokensFunction]
        rfl
      -- the loop skips semicolons before a member, and a method begins with none
      have hskip : c.skipSemis.tokens = c.tokens := by
        rw [Cursor.tokens_skipSemis]
        exact Cursor.dropWhile_semi (by rw [hhead]; decide)
      rw [classMembers]
      simp only [succeeds_bind, succeeds_skipSemis, succeeds_peek, hskip, hhead]
      refine (succeeds_functionDecl hd (by omega) (hskip.trans hc)).imp ?_
      rintro d' c' ⟨hd', hc'⟩
      refine (ih hmethods (by omega) (d' :: done) hc' rounds (by omega)).imp ?_
      rintro x c'' ⟨hfields, hbare, hc''⟩
      refine ⟨hfields, ?_, hc''⟩
      rw [hbare]
      simp only [Stmt.bareMethods_eq, List.reverse_cons, List.append_assoc, List.map_append,
        List.map_cons, List.cons_append, List.nil_append, hd']

theorem succeeds_members {fields : List String} {methods : List FunctionDecl} {rounds : Nat}
    (h : ∀ d ∈ methods, ∀ s ∈ d.body, ReadStmt s)
    (hm : (Stmt.tokensMethods methods).length ≤ m + 1)
    (hrounds : fields.length + methods.length < rounds) (done : List String)
    (hc : c.tokens = fields.flatMap (fun x => [.keyword .letKw, .name x]) ++
      (Stmt.tokensMethods methods ++ .symbol .rbrace :: k)) :
    Succeeds ((ofBound (m + 1)).classMembers rounds done []) c fun x c' =>
      x.1 = done.reverse ++ fields ∧ Stmt.bareMethods x.2 = Stmt.bareMethods methods ∧
        c'.tokens = k := by
  induction fields generalizing c rounds done with
  | nil =>
      simp only [List.append_nil]
      exact succeeds_methods h hm (by simpa using hrounds) done [] hc
  | cons x fields ih =>
      rw [List.length_cons] at hrounds
      obtain ⟨rounds, rfl⟩ : ∃ n, rounds = n + 1 := ⟨rounds - 1, by omega⟩
      simp only [List.flatMap_cons, List.cons_append, List.nil_append] at hc
      have hskip : c.skipSemis.tokens = c.tokens := by
        rw [Cursor.tokens_skipSemis, hc]
        exact Cursor.dropWhile_semi (by simp)
      rw [classMembers]
      simp only [succeeds_bind, succeeds_skipSemis, succeeds_peek, succeeds_advance,
        succeeds_identifier, Cursor.tokens_next, hskip, hc, List.head?_cons, List.tail_cons,
        Option.some.injEq, Token.name.injEq, exists_eq_left', Option.isSome_some, true_and]
      refine (ih (by omega) (x :: done) (by simp [hskip, hc])).imp ?_
      rintro ⟨fields', methods'⟩ c' ⟨hfields, hmethods, hc'⟩
      exact ⟨by simpa using hfields, hmethods, hc'⟩

theorem length_le_tokensMethods (methods : List FunctionDecl) :
    methods.length ≤ (Stmt.tokensMethods methods).length := by
  induction methods with
  | nil => exact Nat.zero_le _
  | cons d methods ih =>
      obtain ⟨name, params, body, line⟩ := d
      simp only [Stmt.tokensMethods, Stmt.tokensFunction, List.length_append, List.length_cons]
      omega

theorem succeeds_classDecl {decl : ClassDecl} (h : ∀ d ∈ decl.methods, ∀ s ∈ d.body, ReadStmt s)
    (hm : (Stmt.tokensClass decl).length ≤ m + 1) (hc : c.tokens = Stmt.tokensClass decl ++ k) :
    Succeeds (ofBound (m + 1)).classDecl c fun decl' c' =>
      Stmt.bareClass decl' = Stmt.bareClass decl ∧ c'.tokens = k := by
  obtain ⟨name, parent, fields, methods⟩ := decl
  have hmethods : ∀ d ∈ methods, ∀ s ∈ d.body, ReadStmt s := h
  have hle := length_le_tokensMethods methods
  have hfields : fields.length ≤
      (fields.flatMap fun x => [Token.keyword .letKw, .name x]).length := by
    simp only [List.length_flatMap, List.length_cons, List.length_nil, List.map_const',
      List.sum_replicate, smul_eq_mul]
    omega
  simp only [Stmt.tokensClass, braced, enclosed, List.length_cons, List.length_append,
    List.cons_append, List.append_assoc, List.nil_append] at hm hc
  -- with a parent or without, the members are read in the same way
  have hmembers (c : Cursor) (hc : c.tokens =
      fields.flatMap (fun x => [.keyword .letKw, .name x]) ++
        (Stmt.tokensMethods methods ++ .symbol .rbrace :: k)) :=
    succeeds_members (m := m) hmethods (by omega)
      (show _ < (ofBound (m + 1)).rounds by rw [rounds_ofBound]; omega) [] hc
  rw [classDecl]
  cases parent with
  | none =>
      simp only [Option.elim_none, List.nil_append] at hc
      simp only [succeeds_bind, succeeds_expect, succeeds_identifier, succeeds_eat, succeeds_pure,
        hc, Cursor.tokens_next, List.head?_cons, List.tail_cons, true_and, Option.some.injEq,
        Token.name.injEq, exists_eq_left', reduceCtorEq, if_false, Bool.false_eq_true]
      refine (hmembers _ (by simp [hc])).imp ?_
      rintro ⟨fields', methods'⟩ c' ⟨rfl, hmethods', hc'⟩
      simp [Stmt.bareClass, hmethods', hc']
  | some x =>
      simp only [Option.elim_some, List.cons_append, List.nil_append] at hc
      simp only [succeeds_bind, succeeds_expect, succeeds_identifier, succeeds_eat, succeeds_map,
        hc, Cursor.tokens_next, List.head?_cons, List.tail_cons, true_and, Option.some.injEq,
        Token.name.injEq, exists_eq_left', if_true]
      refine (hmembers _ (by simp [hc])).imp ?_
      rintro ⟨fields', methods'⟩ c' ⟨rfl, hmethods', hc'⟩
      simp [Stmt.bareClass, hmethods', hc']

/-! ## Statements -/

/-- The token at hand tells which statement begins. -/
theorem succeeds_at {f : Place → Option Token → Parser Stmt} {t : Token}
    {Q : Stmt → Cursor → Prop} (ht : c.tokens.head? = some t) :
    Succeeds (here >>= fun start => peek >>= f start) c Q ↔
      Succeeds (f ⟨c.span, c.line⟩ (some t)) c Q := by
  rw [succeeds_bind, succeeds_here, succeeds_bind, succeeds_peek, ht]

/-- What begins as an expression is an expression or an assignment. -/
theorem succeeds_statement_of_startsExpr {g : Grammar} {t : Token} {Q : Stmt → Cursor → Prop}
    (ht : c.tokens.head? = some t) (hstarts : t.startsExpr = true) :
    Succeeds g.statement c Q ↔ Succeeds (g.exprStmt ⟨c.span, c.line⟩) c Q := by
  rw [statement, succeeds_at ht]
  split
  case h_16 => rfl
  all_goals
    rename_i heq
    obtain rfl := Option.some.inj heq
    cases hstarts

variable {place : Place}

theorem readStmt_expr (h : Readable e) : ReadStmt (.expr place e) := by
  intro m k c hm hc
  rw [Stmt.tokens] at hm hc
  obtain ⟨t, ht, hstarts⟩ := startsExpr_tokens e
  have hhead : c.tokens.head? = some t := by
    rw [hc, List.head?_append, Option.mem_def.mp ht]
    rfl
  rw [succeeds_statement_of_startsExpr hhead hstarts, exprStmt, succeeds_bind]
  refine (h.comparison hm (by simp [Token.reach]) hc).imp ?_
  rintro e' c' ⟨he', hc'⟩
  simp [hc', he']

/-- A value is assigned to what was read as an expression before the sign. -/
theorem readStmt_assignment {target : Expr} {s : Stmt} (htarget : Readable target)
    (h : Readable e)
    (hs : (∃ x, target = .name default x ∧ s = .assign place x e) ∨
      ∃ owner label, target = .field default owner label ∧ s = .assignField place owner label e) :
    ReadStmt s := by
  intro m k c hm hc
  have htokens : s.tokens = target.tokens ++ .symbol .eq :: e.tokens := by
    rcases hs with ⟨x, rfl, rfl⟩ | ⟨owner, label, rfl, rfl⟩
    · rw [Stmt.tokens, Expr.tokens, List.singleton_append]
    · rw [Stmt.tokens, Expr.tokens, List.append_assoc]
      rfl
  rw [htokens] at hm hc
  simp only [List.length_append, List.length_cons] at hm
  rw [List.append_assoc, List.cons_append] at hc
  obtain ⟨t, ht, hstarts⟩ := startsExpr_tokens target
  have hhead : c.tokens.head? = some t := by
    rw [hc, List.head?_append, Option.mem_def.mp ht]
    rfl
  rw [succeeds_statement_of_startsExpr hhead hstarts, exprStmt, succeeds_bind]
  refine (htarget.comparison (by omega) (by simp [Token.reach]) hc).imp ?_
  rintro target' c₁ ⟨htarget', hc₁⟩
  simp only [succeeds_bind, succeeds_here, succeeds_eat, hc₁, List.head?_cons, if_true]
  refine (h.comparison (k := .symbol .semi :: k) (by omega) (by simp [Token.reach])
    (by simp [hc₁])).imp ?_
  rintro e' c₂ ⟨he', hc₂⟩
  -- the target that was read is known up to its places only
  rcases hs with ⟨x, rfl, rfl⟩ | ⟨owner, label, rfl, rfl⟩
  · cases target' with
    | name place' x' =>
        simp only [Expr.bare, Expr.name.injEq, true_and] at htarget'
        simp [htarget', he', hc₂]
    | _ => simp [Expr.bare] at htarget'
  · cases target' with
    | field place' owner' label' =>
        simp only [Expr.bare, Expr.field.injEq, true_and] at htarget'
        simp [htarget', he', hc₂]
    | _ => simp [Expr.bare] at htarget'

theorem readStmt_bind {x : String} (h : Readable e) : ReadStmt (.bind place x e) := by
  intro m k c hm hc
  rw [Stmt.tokens] at hm hc
  simp only [List.length_cons] at hm
  rw [statement, succeeds_at (by rw [hc]; rfl)]
  simp only [succeeds_bind, succeeds_advance, succeeds_identifier, succeeds_expect, hc,
    Cursor.tokens_next, List.cons_append, List.head?_cons, List.tail_cons, Option.some.injEq,
    Token.name.injEq, exists_eq_left', true_and, Option.isSome_some]
  refine (h.comparison (k := .symbol .semi :: k) (by omega) (by simp [Token.reach])
    (by simp [hc])).imp ?_
  rintro e' c' ⟨he', hc'⟩
  simp [he', hc']

theorem readStmt_define {decl : FunctionDecl} (h : ∀ s ∈ decl.body, ReadStmt s) :
    ReadStmt (.define place decl) := by
  intro m k c hm hc
  have hpos := tokens_stmt_pos (.define place decl)
  obtain ⟨m, rfl⟩ : ∃ n, m = n + 1 := ⟨m - 1, by omega⟩
  rw [Stmt.tokens] at hm hc
  have hhead : c.tokens.head? = some (.keyword .fnKw) := by
    obtain ⟨name, params, body, line⟩ := decl
    rw [hc, Stmt.tokensFunction]
    rfl
  rw [statement, succeeds_at hhead]
  simp only [succeeds_bind]
  refine (succeeds_functionDecl h hm hc).imp ?_
  rintro decl' c' ⟨hdecl', hc'⟩
  simp [hdecl', hc']

theorem readStmt_defineClass {decl : ClassDecl}
    (h : ∀ d ∈ decl.methods, ∀ s ∈ d.body, ReadStmt s) : ReadStmt (.defineClass place decl) := by
  intro m k c hm hc
  have hpos := tokens_stmt_pos (.defineClass place decl)
  obtain ⟨m, rfl⟩ : ∃ n, m = n + 1 := ⟨m - 1, by omega⟩
  rw [Stmt.tokens] at hm hc
  have hhead : c.tokens.head? = some (.keyword .classKw) := by
    obtain ⟨name, parent, fields, methods⟩ := decl
    rw [hc, Stmt.tokensClass]
    rfl
  rw [statement, succeeds_at hhead]
  simp only [succeeds_bind]
  refine (succeeds_classDecl h hm hc).imp ?_
  rintro decl' c' ⟨hdecl', hc'⟩
  simp [hdecl', hc']

theorem readStmt_choose {yes : List Stmt} {no : Option (List Stmt)} (h : Readable e)
    (hyes : ∀ s ∈ yes, ReadStmt s) (hno : ∀ body ∈ no, ∀ s ∈ body, ReadStmt s) :
    ReadStmt (.choose place e yes no) := by
  intro m k c hm hc
  rw [Stmt.tokens] at hm hc
  simp only [List.length_append, List.length_cons] at hm
  simp only [List.append_assoc, List.cons_append] at hc
  obtain ⟨m, rfl⟩ : ∃ n, m = n + 1 := ⟨m - 1, by omega⟩
  rw [statement, succeeds_at (by rw [hc]; rfl)]
  dsimp only
  rw [chooseStmt]
  simp only [succeeds_bind, succeeds_expect, hc, List.head?_cons, true_and]
  refine (succeeds_headed h hyes (m := m) (by omega) (by rw [Cursor.tokens_next, hc]; rfl)).imp ?_
  intro e' c₁ hblock
  refine hblock.imp ?_
  rintro yes' c₂ ⟨he', hyes', hc₂⟩
  cases no with
  | none =>
      simp only [Stmt.tokensOption, List.nil_append] at hc₂
      simp [hc₂, he', hyes', Stmt.bareOption]
  | some body =>
      -- a brace stands behind `else`, so this is not taken for an `else if`
      simp only [Stmt.tokensOption, List.length_cons, List.cons_append] at hm hc₂
      simp only [succeeds_bind, succeeds_eat, succeeds_sees, hc₂, List.head?_cons,
        Cursor.tokens_next, List.tail_cons, head?_braced, Option.some.injEq, reduceCtorEq,
        decide_false, Bool.false_eq_true, if_true, if_false]
      refine (succeeds_block (hno body rfl) (k := .symbol .semi :: k) (by omega)
        (by simp [hc₂])).imp ?_
      rintro no' c₃ ⟨hno', hc₃⟩
      simp [hc₃, he', hyes', Stmt.bareOption, hno']

theorem readStmt_loop {body : List Stmt} (h : Readable e) (hbody : ∀ s ∈ body, ReadStmt s) :
    ReadStmt (.loop place e body) := by
  intro m k c hm hc
  rw [Stmt.tokens] at hm hc
  simp only [List.length_append, List.length_cons] at hm
  simp only [List.append_assoc, List.cons_append] at hc
  obtain ⟨m, rfl⟩ : ∃ n, m = n + 1 := ⟨m - 1, by omega⟩
  rw [statement, succeeds_at (by rw [hc]; rfl)]
  simp only [succeeds_bind, succeeds_advance, hc, List.head?_cons, Option.isSome_some, true_and]
  refine (succeeds_headed h hbody (m := m) (by omega) (by rw [Cursor.tokens_next, hc]; rfl)).imp ?_
  intro e' c₁ hblock
  refine hblock.imp ?_
  rintro body' c₂ ⟨he', hbody', hc₂⟩
  simp [hc₂, he', hbody']

theorem readStmt_forEach {item : String} {body : List Stmt} {parallel : Bool} (h : Readable e)
    (hbody : ∀ s ∈ body, ReadStmt s) : ReadStmt (.forEach place item e body parallel) := by
  intro m k c hm hc
  rw [Stmt.tokens] at hm hc
  simp only [List.length_append, List.length_cons] at hm
  obtain ⟨m, rfl⟩ : ∃ n, m = n + 1 := ⟨m - 1, by omega⟩
  have hheaded (c : Cursor) := succeeds_headed h hbody (m := m) (c := c)
    (k := .symbol .semi :: k) (by omega)
  cases parallel
  all_goals
    simp only [Bool.false_eq_true, if_true, if_false, List.nil_append, List.append_assoc,
      List.cons_append] at hc
    rw [statement, succeeds_at (by rw [hc]; rfl)]
    dsimp only
    rw [forStmt]
    simp only [succeeds_bind, succeeds_expect, succeeds_eat, succeeds_identifier, hc,
      Cursor.tokens_next, List.head?_cons, List.tail_cons, true_and, Option.some.injEq,
      Token.keyword.injEq, Token.name.injEq, exists_eq_left', reduceCtorEq, if_true, if_false,
      Bool.false_eq_true, succeeds_pure]
    refine (hheaded _ (by simp [hc])).imp ?_
    intro e' c₁ hblock
    refine hblock.imp ?_
    rintro body' c₂ ⟨he', hbody', hc₂⟩
    simp [hc₂, he', hbody']

theorem readStmt_giveBack {value : Option Expr} (h : ∀ e ∈ value, Readable e) :
    ReadStmt (.giveBack place value) := by
  intro m k c hm hc
  rw [Stmt.tokens] at hm hc
  rw [statement, succeeds_at (by rw [hc]; rfl)]
  cases value with
  | none =>
      simp only [Option.elim_none, List.cons_append, List.nil_append] at hc
      simp [hc]
  | some e =>
      simp only [Option.elim_some, List.length_cons, List.cons_append] at hm hc
      obtain ⟨t, ht, hstarts⟩ := startsExpr_tokens e
      have hhead : (e.tokens ++ .symbol .semi :: k).head? = some t := by
        rw [List.head?_append, Option.mem_def.mp ht]
        rfl
      simp only [succeeds_bind, succeeds_peek, succeeds_advance, hc, Cursor.tokens_next,
        List.head?_cons, List.tail_cons, hhead, Option.isSome_some, true_and]
      -- A value begins with none of the tokens that stand where no value is given.
      obtain ⟨hsemi, hbrace⟩ := ne_of_startsExpr hstarts
      split
      · rename_i heq
        cases heq
      · rename_i heq
        exact absurd (Option.some.inj heq) hbrace
      · rename_i heq
        exact absurd (Option.some.inj heq) hsemi
      · rw [succeeds_bind]
        refine ((h e rfl).comparison (k := .symbol .semi :: k) (by omega) (by simp [Token.reach])
          (by simp [hc])).imp ?_
        rintro e' c' ⟨he', hc'⟩
        simp [he', hc']

theorem readStmt_raise (h : Readable e) : ReadStmt (.raise place e) := by
  intro m k c hm hc
  rw [Stmt.tokens] at hm hc
  simp only [List.length_cons, List.cons_append] at hm hc
  rw [statement, succeeds_at (by rw [hc]; rfl)]
  simp only [succeeds_bind, succeeds_advance, hc, List.head?_cons, Option.isSome_some, true_and]
  refine (h.comparison (k := .symbol .semi :: k) (by omega) (by simp [Token.reach])
    (by simp [hc])).imp ?_
  rintro e' c' ⟨he', hc'⟩
  simp [he', hc']

theorem readStmt_check {message : Option Expr} (h : Readable e)
    (hmessage : ∀ e ∈ message, Readable e) : ReadStmt (.check place e message) := by
  intro m k c hm hc
  rw [Stmt.tokens] at hm hc
  simp only [List.length_cons, List.length_append, List.cons_append, List.append_assoc] at hm hc
  rw [statement, succeeds_at (by rw [hc]; rfl)]
  simp only [succeeds_bind, succeeds_advance, hc, List.head?_cons, Option.isSome_some, true_and]
  cases message with
  | none =>
      simp only [Option.elim_none, List.nil_append] at hc
      refine (h.comparison (k := .symbol .semi :: k) (by omega) (by simp [Token.reach])
        (by simp [hc])).imp ?_
      rintro e' c₁ ⟨he', hc₁⟩
      simp [he', hc₁]
  | some text =>
      simp only [Option.elim_some, List.length_cons, List.cons_append] at hm hc
      refine (h.comparison (k := .symbol .comma :: (text.tokens ++ .symbol .semi :: k)) (by omega)
        (by simp [Token.reach]) (by simp [hc])).imp ?_
      rintro e' c₁ ⟨he', hc₁⟩
      simp only [succeeds_bind, succeeds_eat, succeeds_map, hc₁, List.head?_cons, if_true]
      refine ((hmessage text rfl).comparison (k := .symbol .semi :: k) (by omega)
        (by simp [Token.reach]) (by simp [hc₁])).imp ?_
      rintro text' c₂ ⟨htext', hc₂⟩
      simp [he', htext', hc₂]

theorem readStmt_importModule {module : String} {rename : Option String} :
    ReadStmt (.importModule place module rename) := by
  intro m k c hm hc
  rw [Stmt.tokens] at hc
  rw [statement, succeeds_at (by rw [hc]; rfl)]
  cases rename with
  | none =>
      simp only [Option.elim_none, List.cons_append, List.nil_append] at hc
      simp [hc, moduleName]
  | some x =>
      simp only [Option.elim_some, List.cons_append, List.nil_append] at hc
      simp [hc, moduleName]

theorem readStmt_importNames {module : String} {names : List String} (hne : names ≠ []) :
    ReadStmt (.importNames place module names) := by
  intro m k c hm hc
  rw [Stmt.tokens] at hm hc
  have hle := length_parts_le (names.map fun x => [Token.name x])
  simp only [List.length_cons, List.length_map, List.cons_append] at hm hc hle
  rw [statement, succeeds_at (by rw [hc]; rfl), moduleName]
  simp only [succeeds_bind, succeeds_peek, succeeds_advance, succeeds_expect, succeeds_pure, hc,
    Cursor.tokens_next, List.head?_cons, List.tail_cons, true_and, Option.isSome_some]
  refine (succeeds_commaList (readsEach_names names) (k := .symbol .semi :: k) (fun _ => trivial)
    trivial (by simp) hne (by rw [rounds_ofBound]; omega) [] (by simp [hc])).imp ?_
  rintro names' c' ⟨⟨_, rfl, hnames⟩, hc'⟩
  rw [List.forall₂_eq_eq_eq] at hnames
  simp [hc', hnames]

theorem succeeds_handlerClause {kind binder : Option String} {body : List Stmt}
    (hkind : kind.isSome → binder.isSome) (hbody : ∀ s ∈ body, ReadStmt s)
    (hm : (braced (Stmt.tokensAll body)).length ≤ m + 1)
    (hc : c.tokens = kind.elim [] (fun x => [.name x, .keyword .asKw]) ++
      (binder.elim [] (fun x => [.name x]) ++ (braced (Stmt.tokensAll body) ++ k))) :
    Succeeds (ofBound (m + 1)).handlerClause c fun handler c' =>
      (handler.kind = kind ∧ handler.binder = binder ∧
        Stmt.bareAll handler.body = Stmt.bareAll body) ∧ c'.tokens = k := by
  rw [handlerClause]
  cases binder with
  | none =>
      cases kind with
      -- a kind is written only in front of the name that is bound
      | some x => cases hkind rfl
      | none =>
          simp only [Option.elim_none, List.nil_append] at hc
          simp only [succeeds_bind, succeeds_peek, hc, head?_braced]
          refine (succeeds_block hbody hm hc).imp ?_
          rintro body' c₁ ⟨hbody', hc₁⟩
          simp [hbody', hc₁]
  | some x =>
      cases kind with
      | none =>
          simp only [Option.elim_none, Option.elim_some, List.nil_append, List.cons_append] at hc
          simp only [succeeds_bind, succeeds_peek, succeeds_advance, succeeds_eat, hc,
            Cursor.tokens_next, List.head?_cons, List.tail_cons, head?_braced, Option.some.injEq,
            reduceCtorEq, if_false, Bool.false_eq_true, Option.isSome_some, true_and]
          refine (succeeds_block hbody hm (k := k) (by simp [hc])).imp ?_
          rintro body' c₁ ⟨hbody', hc₁⟩
          simp [hbody', hc₁]
      | some y =>
          simp only [Option.elim_some, List.nil_append, List.cons_append] at hc
          simp only [succeeds_bind, succeeds_peek, succeeds_advance, succeeds_eat,
            succeeds_identifier, hc, Cursor.tokens_next, List.head?_cons, List.tail_cons,
            Option.some.injEq, Token.name.injEq, exists_eq_left', if_true, Option.isSome_some,
            true_and]
          refine (succeeds_block hbody hm (k := k) (by simp [hc])).imp ?_
          rintro body' c₁ ⟨hbody', hc₁⟩
          simp [hbody', hc₁]

theorem readStmt_attempt {body : List Stmt} {handler : Option Handler}
    {finish : Option (List Stmt)} (hsome : handler.isSome ∨ finish.isSome)
    (hbody : ∀ s ∈ body, ReadStmt s)
    (hhandler : ∀ x ∈ handler, (x.kind.isSome → x.binder.isSome) ∧ ∀ s ∈ x.body, ReadStmt s)
    (hfinish : ∀ body ∈ finish, ∀ s ∈ body, ReadStmt s) :
    ReadStmt (.attempt place body handler finish) := by
  intro m k c hm hc
  rw [Stmt.tokens] at hm hc
  simp only [List.length_cons, List.length_append, List.cons_append, List.append_assoc] at hm hc
  obtain ⟨m, rfl⟩ : ∃ n, m = n + 1 := ⟨m - 1, by omega⟩
  rw [statement, succeeds_at (by rw [hc]; rfl)]
  dsimp only
  rw [attemptStmt]
  simp only [succeeds_bind, succeeds_expect, hc, List.head?_cons, true_and]
  refine (succeeds_block hbody (m := m) (by omega) (by rw [Cursor.tokens_next, hc]; rfl)).imp ?_
  rintro body' c₁ ⟨hbody', hc₁⟩
  cases handler with
  | none =>
      cases finish with
      | none => simp at hsome
      | some last =>
          simp only [Stmt.tokensHandler, Stmt.tokensOption, List.length_cons, List.nil_append,
            List.cons_append] at hm hc₁
          simp only [succeeds_bind, succeeds_eat, succeeds_pure, succeeds_map, hc₁,
            List.head?_cons, Option.some.injEq, Token.keyword.injEq, reduceCtorEq, if_true,
            if_false, Bool.false_eq_true]
          refine (succeeds_block (hfinish last rfl) (k := .symbol .semi :: k) (m := m) (by omega)
            (by simp [hc₁])).imp ?_
          rintro last' c₂ ⟨hlast', hc₂⟩
          simp [hc₂, Stmt.bareHandler, Stmt.bareOption, hbody', hlast']
  | some handler =>
      obtain ⟨kind, binder, inside⟩ := handler
      have hkind : kind.isSome → binder.isSome := (hhandler _ rfl).1
      have hinside : ∀ s ∈ inside, ReadStmt s := (hhandler _ rfl).2
      simp only [Stmt.tokensHandler, List.length_cons, List.length_append, List.cons_append,
        List.append_assoc] at hm hc₁
      simp only [succeeds_bind, succeeds_eat, hc₁, List.head?_cons, if_true, succeeds_map]
      refine (succeeds_handlerClause hkind hinside (m := m) (by omega)
        (by rw [Cursor.tokens_next, hc₁]; rfl)).imp ?_
      rintro ⟨kind', binder', inside'⟩ c₂ ⟨⟨rfl, rfl, hinside'⟩, hc₂⟩
      cases finish with
      | none =>
          simp only [Stmt.tokensOption, List.nil_append] at hc₂
          simp [hc₂, Stmt.bareHandler, Stmt.bareOption, hbody', hinside']
      | some last =>
          simp only [Stmt.tokensOption, List.length_cons, List.cons_append] at hm hc₂
          simp only [hc₂, List.head?_cons, if_true]
          refine (succeeds_block (hfinish last rfl) (k := .symbol .semi :: k) (m := m) (by omega)
            (by simp [hc₂])).imp ?_
          rintro last' c₃ ⟨hlast', hc₃⟩
          simp [hc₃, Stmt.bareHandler, Stmt.bareOption, hbody', hinside', hlast']

theorem head_shareable {inner : Stmt} (h : inner.IsShareable) :
    ∃ word ∈ [Keyword.fnKw, .letKw, .classKw], inner.tokens.head? = some (.keyword word) := by
  cases inner with
  | define _ decl =>
      obtain ⟨name, params, body, line⟩ := decl
      exact ⟨.fnKw, by simp, by rw [Stmt.tokens, Stmt.tokensFunction]; rfl⟩
  | bind => exact ⟨.letKw, by simp, by rw [Stmt.tokens]; rfl⟩
  | defineClass _ decl =>
      obtain ⟨name, parent, fields, methods⟩ := decl
      exact ⟨.classKw, by simp, by rw [Stmt.tokens, Stmt.tokensClass]; rfl⟩
  | _ => cases h

theorem readStmt_share {inner : Stmt} (hshareable : inner.IsShareable) (h : ReadStmt inner) :
    ReadStmt (.share place inner) := by
  intro m k c hm hc
  rw [Stmt.tokens] at hm hc
  simp only [List.length_cons, List.cons_append] at hm hc
  obtain ⟨m, rfl⟩ : ∃ n, m = n + 1 := ⟨m - 1, by omega⟩
  have hinner : Succeeds (ofBound (m + 1)).stmt c.next fun s' c' =>
      s'.bare = inner.bare ∧ c'.tokens = .symbol .semi :: k :=
    h m k c.next (by omega) (by rw [Cursor.tokens_next, hc]; rfl)
  obtain ⟨word, hword, hhead⟩ := head_shareable hshareable
  have hnext : c.next.tokens.head? = some (.keyword word) := by
    rw [Cursor.tokens_next, hc, List.tail_cons, List.head?_append, hhead]
    rfl
  rw [statement, succeeds_at (by rw [hc]; rfl)]
  simp only [succeeds_bind, succeeds_peek, succeeds_advance, hc, hnext, List.head?_cons,
    Option.isSome_some, true_and]
  simp only [List.mem_cons, List.not_mem_nil, or_false] at hword
  rcases hword with rfl | rfl | rfl
  all_goals
    simp only [succeeds_bind]
    refine hinner.imp ?_
    rintro inner' c₁ ⟨hinner', hc₁⟩
    simp [hc₁, hinner']

end Reading

/-! ## All statements -/

mutual

/-- The tokens of a printable statement are read as that statement. -/
theorem readStmt : ∀ s : Stmt, s.Printable → ReadStmt s
  | .expr _ e, h => by
      rw [Stmt.Printable] at h
      exact readStmt_expr (readable e h)
  | .bind _ _ value, h => by
      rw [Stmt.Printable] at h
      exact readStmt_bind (readable value h)
  | .assign _ x value, h => by
      rw [Stmt.Printable] at h
      have hname : Readable (.name default x) := readable _ trivial
      exact readStmt_assignment hname (readable value h) (.inl ⟨x, rfl, rfl⟩)
  | .assignField _ owner label value, h => by
      rw [Stmt.Printable] at h
      have hfield : Readable (.field default owner label) :=
        readable _ (by rw [Expr.Printable]; exact h.1)
      exact readStmt_assignment hfield (readable value h.2) (.inr ⟨owner, label, rfl, rfl⟩)
  | .define _ decl, h => by
      rw [Stmt.Printable] at h
      exact readStmt_define (readFunction decl h)
  | .defineClass _ ⟨_, _, _, methods⟩, h => by
      rw [Stmt.Printable, Stmt.ClassPrintable] at h
      exact readStmt_defineClass (readMethods methods h)
  | .choose _ condition yes no, h => by
      rw [Stmt.Printable] at h
      exact readStmt_choose (readable condition h.1) (readStmts yes h.2.1) (readOption no h.2.2)
  | .forEach _ _ source body _, h => by
      rw [Stmt.Printable] at h
      exact readStmt_forEach (readable source h.1) (readStmts body h.2)
  | .loop _ condition body, h => by
      rw [Stmt.Printable] at h
      exact readStmt_loop (readable condition h.1) (readStmts body h.2)
  | .giveBack _ value, h => by
      rw [Stmt.Printable] at h
      exact readStmt_giveBack fun e he => readable e (h e he)
  | .attempt _ body handler finish, h => by
      rw [Stmt.Printable] at h
      obtain ⟨hsome, hbody, hhandler, hfinish⟩ := h
      exact readStmt_attempt hsome (readStmts body hbody) (readHandler handler hhandler)
        (readOption finish hfinish)
  | .raise _ value, h => by
      rw [Stmt.Printable] at h
      exact readStmt_raise (readable value h)
  | .check _ condition message, h => by
      rw [Stmt.Printable] at h
      exact readStmt_check (readable condition h.1) fun e he => readable e (h.2 e he)
  | .importModule .., _ => readStmt_importModule
  | .importNames .., h => by
      rw [Stmt.Printable] at h
      exact readStmt_importNames h
  | .share _ inner, h => by
      rw [Stmt.Printable] at h
      exact readStmt_share h.1 (readStmt inner h.2)

theorem readStmts : ∀ ss : List Stmt, Stmt.AllPrintable ss → ∀ s ∈ ss, ReadStmt s
  | [], _ => List.forall_mem_nil _
  | s :: ss, h => by
      rw [Stmt.AllPrintable] at h
      exact List.forall_mem_cons.mpr ⟨readStmt s h.1, readStmts ss h.2⟩

theorem readOption : ∀ body : Option (List Stmt), Stmt.OptionPrintable body →
    ∀ ss ∈ body, ∀ s ∈ ss, ReadStmt s
  | none, _ => by simp
  | some ss, h => by
      rw [Stmt.OptionPrintable] at h
      simpa using readStmts ss h

theorem readFunction : ∀ decl : FunctionDecl, Stmt.FunctionPrintable decl →
    ∀ s ∈ decl.body, ReadStmt s
  | ⟨_, _, body, _⟩, h => by
      rw [Stmt.FunctionPrintable] at h
      exact readStmts body h

theorem readMethods : ∀ methods : List FunctionDecl, Stmt.MethodsPrintable methods →
    ∀ d ∈ methods, ∀ s ∈ d.body, ReadStmt s
  | [], _ => List.forall_mem_nil _
  | f :: fs, h => by
      rw [Stmt.MethodsPrintable] at h
      exact List.forall_mem_cons.mpr ⟨readFunction f h.1, readMethods fs h.2⟩

theorem readHandler : ∀ handler : Option Handler, Stmt.HandlerPrintable handler →
    ∀ x ∈ handler, (x.kind.isSome → x.binder.isSome) ∧ ∀ s ∈ x.body, ReadStmt s
  | none, _ => by simp
  | some ⟨kind, binder, body⟩, h => by
      rw [Stmt.HandlerPrintable] at h
      simpa using ⟨h.1, readStmts body h.2⟩

end

end Grammar

end ScriptLang
