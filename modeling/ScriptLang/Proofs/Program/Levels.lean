import Mathlib
import ScriptLang.Proofs.Program.Reading

/-!
# Reading expressions level by level

Each level of the grammar reads an operand and then goes on with what stands behind it, as long
as that belongs to its level. So an expression is read up to any tokens that do not go on with
it. What can be carried through an induction is one step more general: after the tokens of an
expression, the parser of a level stands in its loop with that expression in hand (`ReadAt`).
-/

namespace ScriptLang

/-- The level at which a token goes on with an expression before it. An opening parenthesis
belongs to the name before it. -/
def Token.reach : Token → Option Nat
  | .symbol s =>
    match s with
    | .eqEq | .notEq | .lt | .ltEq | .gt | .gtEq => some 0
    | .plus | .minus | .atSign => some 1
    | .star | .slash | .percent | .slashSlash => some 2
    | .lbracket | .dot | .arrow => some 4
    | .lparen => some 6
    | _ => none
  | _ => none

/-- The tokens that an expression can begin with. -/
def Token.startsExpr : Token → Bool
  | .number _ | .text _ | .name _ => true
  | .keyword k => k ∈ [.trueKw, .falseKw, .thisKw, .newKw, .superKw]
  | .symbol s => s ∈ [.lparen, .lbracket, .lbrace, .minus, .bang]

/-- What follows does not go on with an expression at the level `n` or above. -/
def EndsAt (n : Nat) (k : List Token) : Prop := ∀ t ∈ k.head?, ∀ m ∈ t.reach, m < n

theorem EndsAt.mono {n n' : Nat} {k : List Token} (h : EndsAt n k) (hle : n ≤ n') : EndsAt n' k :=
  fun t ht m hm => Nat.lt_of_lt_of_le (h t ht m hm) hle

theorem EndsAt.head?_ne {n m : Nat} {t : Token} {k : List Token} (h : EndsAt n k)
    (hreach : t.reach = some m) (hle : n ≤ m) : k.head? ≠ some t :=
  fun hhead => Nat.not_lt.mpr hle (h t hhead m hreach)

@[simp] theorem endsAt_cons {n : Nat} {t : Token} {k : List Token} :
    EndsAt n (t :: k) ↔ ∀ m ∈ t.reach, m < n := by
  simp [EndsAt]

@[simp] theorem Expr.bare_movedTo (place : Place) (e : Expr) : (e.movedTo place).bare = e.bare := by
  cases e <;> simp only [movedTo, bare]

namespace Grammar

open ScriptLang.Parser

/-! ## Levels -/

theorem rounds_ofBound (m : Nat) : (ofBound m).rounds = m := by
  cases m <;> rfl

/-- The operators of a level. -/
def opAt : Nat → Token → Option BinaryOp
  | 0 => comparisonOp?
  | 1 => termOp?
  | 2 => factorOp?
  | _ => fun _ => none

theorem opAt_symbol (op : BinaryOp) : opAt op.level (.symbol op.symbol) = some op := by
  cases op <;> rfl

theorem reach_symbol (op : BinaryOp) : (Token.symbol op.symbol).reach = some op.level := by
  cases op <;> rfl

theorem reach_of_opAt {n : Nat} {t : Token} {op : BinaryOp} (h : opAt n t = some op) :
    t.reach = some n := by
  obtain _ | _ | _ | n := n
  all_goals
    simp only [opAt, comparisonOp?, termOp?, factorOp?] at h
    try split at h
    all_goals first | rfl | cases h

/-- The parser of a level. -/
def parserAt (g : Grammar) : Nat → Parser Expr
  | 0 => g.comparison
  | 1 => g.term
  | 2 => g.factor
  | 3 => g.unary (g.rounds + 1)
  | 4 => g.postfixed
  | _ => g.primary

/-- The parser of a level for a number of rounds. -/
def roundsAt (g : Grammar) (n rounds : Nat) : Parser Expr :=
  if n < 3 then g.parserAt (n + 1) >>= chain (opAt n) (g.parserAt (n + 1)) rounds
  else if n = 3 then g.unary rounds
  else if n = 4 then do
    let start ← here
    let left ← g.primary
    g.postfixes start.span rounds left
  else g.primary

/-- What the parser of a level does with an operand in hand. -/
def loopAt (g : Grammar) (start : Span) (n rounds : Nat) (e : Expr) : Parser Expr :=
  if n < 3 then chain (opAt n) (g.parserAt (n + 1)) rounds e
  else if n = 4 then g.postfixes start rounds e
  else pure e

theorem parserAt_eq (g : Grammar) :
    ∀ n, ∃ rounds, g.rounds ≤ rounds ∧ g.parserAt n = g.roundsAt n rounds
  | 0 | 1 | 2 | 4 | _ + 5 => ⟨g.rounds, Nat.le_refl _, rfl⟩
  | 3 => ⟨g.rounds + 1, Nat.le_succ _, rfl⟩

/-- A loop ends before what does not go on with its level. -/
theorem succeeds_loopAt {g : Grammar} {start : Span} {n rounds : Nat} {e : Expr} {c : Cursor}
    {Q : Expr → Cursor → Prop} (hrounds : 0 < rounds) (hends : EndsAt n c.tokens) :
    Succeeds (g.loopAt start n rounds e) c Q ↔ Q e c := by
  obtain ⟨rounds, rfl⟩ := Nat.exists_eq_succ_of_ne_zero (Nat.pos_iff_ne_zero.mp hrounds)
  unfold loopAt
  -- operators below level three, what is behind an operand at four, and no loop elsewhere
  by_cases hn : n < 3
  · have hnone : c.tokens.head?.bind (opAt n) = none := by
      rw [Option.bind_eq_none_iff]
      intro t ht
      by_contra hsome
      obtain ⟨op, hop⟩ := Option.ne_none_iff_exists'.mp hsome
      exact Nat.lt_irrefl n (hends t ht n (reach_of_opAt hop))
    rw [if_pos hn, chain, succeeds_bind, succeeds_peek, hnone]
    exact succeeds_pure
  rw [if_neg hn]
  by_cases hfour : n = 4
  · subst hfour
    rw [if_pos rfl, postfixes]
    simp only [succeeds_bind, succeeds_here, succeeds_peek]
    split
    · rename_i hhead
      exact absurd hhead (hends.head?_ne rfl (Nat.le_refl 4))
    · rename_i hhead
      exact absurd hhead (hends.head?_ne rfl (Nat.le_refl 4))
    · rename_i hhead
      exact absurd hhead (hends.head?_ne rfl (Nat.le_refl 4))
    · exact succeeds_pure
  · rw [if_neg hfour]
    exact succeeds_pure

/-! ## Reading at a level -/

/-- After the tokens, the parser of the level stands in its loop with the expression in hand,
and has used no more rounds than tokens. -/
def ReadAt (n : Nat) (ts : List Token) (e : Expr) : Prop :=
  ∀ (m rounds : Nat) (k : List Token) (c : Cursor) (Q : Expr → Cursor → Prop),
    ts.length ≤ m → ts.length ≤ rounds → EndsAt (n + 1) k → c.tokens = ts ++ k →
    (∀ start e' rounds' c', e'.bare = e.bare → rounds < rounds' + ts.length → c'.tokens = k →
      Succeeds ((ofBound m).loopAt start n rounds' e') c' Q) →
    Succeeds ((ofBound m).roundsAt n rounds) c Q

/-- The parser gives the expression, up to places, and leaves `k`. -/
def Gives (e : Expr) (k : List Token) (e' : Expr) (c : Cursor) : Prop :=
  e'.bare = e.bare ∧ c.tokens = k

namespace ReadAt

variable {n m : Nat} {ts k : List Token} {e : Expr} {c : Cursor}

theorem whole (h : ReadAt n ts e) (hm : ts.length ≤ m) (hk : EndsAt n k)
    (hc : c.tokens = ts ++ k) : Succeeds ((ofBound m).parserAt n) c (Gives e k) := by
  obtain ⟨rounds, hrounds, heq⟩ := (ofBound m).parserAt_eq n
  rw [rounds_ofBound] at hrounds
  rw [heq]
  refine h m rounds k c _ hm (by omega) (hk.mono (Nat.le_succ n)) hc ?_
  intro start e' rounds' c' he' hleft hc'
  rw [succeeds_loopAt (by omega) (hc' ▸ hk)]
  exact ⟨he', hc'⟩

/-- What a level reads, the level below reads as an operand. -/
theorem chain_of_operand (hn : n < 3) (hpos : 0 < ts.length) (h : ReadAt (n + 1) ts e) :
    ReadAt n ts e := by
  intro m rounds k c Q hm hrounds hk hc hloop
  rw [roundsAt, if_pos hn, succeeds_bind]
  refine (h.whole hm hk hc).imp ?_
  rintro e' c' ⟨he', hc'⟩
  have hnext := hloop default e' rounds c' he' (by omega) hc'
  rwa [loopAt, if_pos hn] at hnext

/-- An operand that begins with no sign is read as it stands. -/
theorem unary_of_postfixed (hsign : ∃ t ∈ ts.head?, unaryOp? t = none) (h : ReadAt 4 ts e) :
    ReadAt 3 ts e := by
  intro m rounds k c Q hm hrounds hk hc hloop
  obtain ⟨t, ht, hnone⟩ := hsign
  obtain ⟨ts', rfl⟩ : ∃ ts', ts = t :: ts' := by
    cases ts with
    | nil => cases ht
    | cons t' ts' => exact ⟨ts', by rw [Option.some.inj (Option.mem_def.mp ht)]⟩
  obtain ⟨rounds, rfl⟩ : ∃ n, rounds = n + 1 := ⟨rounds - 1, by simp at hrounds; omega⟩
  have hfour := h.whole hm hk hc
  show Succeeds ((ofBound m).unary (rounds + 1)) c Q
  rw [unary, succeeds_bind, succeeds_peek, hc]
  simp only [List.cons_append, List.head?_cons, Option.bind_some, hnone]
  refine Succeeds.imp hfour ?_
  rintro e' c' ⟨he', hc'⟩
  have hnext := hloop default e' (rounds + 1) c' he' (by simp) hc'
  exact succeeds_pure.mp hnext

theorem postfixed_of_primary (hpos : 0 < ts.length) (h : ReadAt 5 ts e) : ReadAt 4 ts e := by
  intro m rounds k c Q hm hrounds hk hc hloop
  show Succeeds (do
    let start ← here
    let left ← (ofBound m).primary
    (ofBound m).postfixes start.span rounds left) c Q
  rw [succeeds_bind, succeeds_here, succeeds_bind]
  refine Succeeds.imp (h.whole (m := m) hm hk hc) ?_
  rintro e' c' ⟨he', hc'⟩
  exact hloop _ e' rounds c' he' (by omega) hc'

/-- What is read at a level is read at all levels below. -/
theorem lower {n' : Nat} (hle : n' ≤ n) (hn : n ≤ 5) (hpos : 0 < ts.length)
    (hsign : 4 ≤ n → ∃ t ∈ ts.head?, unaryOp? t = none) (h : ReadAt n ts e) : ReadAt n' ts e := by
  induction n with
  | zero => rwa [Nat.le_zero.mp hle]
  | succ n ih =>
      rcases Nat.lt_or_eq_of_le hle with hlt | rfl
      · refine ih (Nat.le_of_lt_succ hlt) (by omega) (fun h4 => hsign (by omega)) ?_
        obtain hlt | rfl | rfl : n < 3 ∨ n = 3 ∨ n = 4 := by omega
        · exact chain_of_operand hlt hpos h
        · exact unary_of_postfixed (hsign (by decide)) h
        · exact postfixed_of_primary hpos h
      · exact h

theorem of_primary (h : ∀ (m : Nat) (k : List Token) (c : Cursor), ts.length ≤ m → EndsAt 6 k →
    c.tokens = ts ++ k → Succeeds (ofBound m).primary c (Gives e k)) : ReadAt 5 ts e := by
  intro m rounds k c Q hm hrounds hk hc hloop
  refine Succeeds.imp (h m k c hm hk hc) ?_
  rintro e' c' ⟨he', hc'⟩
  exact succeeds_pure.mp (hloop default e' (rounds + 1) c' he' (by omega) hc')

/-- Parentheses make an expression of any level one that needs no operand in front. -/
theorem parenthesized (h : ReadAt 0 ts e) : ReadAt 5 (ScriptLang.parenthesized ts) e := by
  refine of_primary fun m k c hm hk hc => ?_
  simp only [ScriptLang.parenthesized, enclosed, List.length_cons, List.length_append,
    List.length_nil, List.cons_append, List.append_assoc, List.nil_append] at hm hc
  obtain ⟨m, rfl⟩ : ∃ n, m = n + 1 := ⟨m - 1, by omega⟩
  have hnext : c.next.tokens = ts ++ .symbol .rparen :: k := by
    rw [Cursor.tokens_next, hc]
    rfl
  have hinner := h.whole (m := m) (by omega) (by simp [Token.reach]) hnext
  rw [primary]
  simp only [succeeds_bind, succeeds_here, succeeds_peek, succeeds_advance, hc, List.head?_cons,
    Option.isSome_some, true_and]
  refine Succeeds.imp hinner ?_
  rintro e' c' ⟨he', hc'⟩
  simp [hc', Gives, he']

/-! ## Operands and what stands behind them -/

theorem binary {us : List Token} {op : BinaryOp} {left right : Expr} {place : Place}
    (hleft : ReadAt op.level ts left) (hright : ReadAt (op.level + 1) us right) :
    ReadAt op.level (ts ++ .symbol op.symbol :: us) (.binary place left op right) := by
  intro m rounds k c Q hm hrounds hk hc hloop
  rw [List.append_assoc, List.cons_append] at hc
  simp only [List.length_append, List.length_cons] at hm hrounds hloop
  -- The operator goes on with the left operand at its own level and at none above, so the
  -- left operand is in hand when the loop comes to it.
  have hop : EndsAt (op.level + 1) (.symbol op.symbol :: (us ++ k)) := by
    simp [reach_symbol]
  refine hleft m rounds _ c Q (by omega) (by omega) hop hc ?_
  intro start left' rounds' c' hleft' hused hc'
  obtain ⟨rounds', rfl⟩ : ∃ n, rounds' = n + 1 := ⟨rounds' - 1, by omega⟩
  have hnext : c'.next.tokens = us ++ k := by
    rw [Cursor.tokens_next, hc']
    rfl
  rw [loopAt, if_pos op.level_lt, chain]
  simp only [succeeds_bind, succeeds_peek, succeeds_advance, hc', List.head?_cons, Option.bind_some,
    opAt_symbol, Option.isSome_some, true_and]
  refine (hright.whole (by omega) hk hnext).imp ?_
  rintro right' c'' ⟨hright', hc''⟩
  have hgoes := hloop start (.binary ⟨left'.place.span.merge right'.place.span, left'.place.line⟩
    left' op right') rounds' c'' (by rw [Expr.bare, Expr.bare, hleft', hright']) (by omega) hc''
  rwa [loopAt, if_pos op.level_lt] at hgoes

theorem unary {op : UnaryOp} {place : Place} (h : ReadAt 3 ts e) :
    ReadAt 3 (.symbol op.symbol :: ts) (.unary place op e) := by
  intro m rounds k c Q hm hrounds hk hc hloop
  simp only [List.length_cons] at hm hrounds
  obtain ⟨rounds, rfl⟩ : ∃ n, rounds = n + 1 := ⟨rounds - 1, by omega⟩
  have hop : unaryOp? (.symbol op.symbol) = some op := by cases op <;> rfl
  have hnext : c.next.tokens = ts ++ k := by
    rw [Cursor.tokens_next, hc]
    rfl
  show Succeeds ((ofBound m).unary (rounds + 1)) c Q
  rw [Grammar.unary]
  simp only [succeeds_bind, succeeds_peek, succeeds_here, succeeds_advance, hc, List.cons_append,
    List.head?_cons, Option.bind_some, hop, Option.isSome_some, true_and]
  refine h m rounds k c.next _ (by omega) (by omega) hk hnext ?_
  intro _ e' _ c' he' _ hc'
  refine succeeds_pure.mpr (succeeds_since.mpr (succeeds_pure.mpr ?_))
  exact succeeds_pure.mp (hloop default _ (rounds + 1) c' (by rw [Expr.bare, Expr.bare, he'])
    (by simp) hc')

/-- What stands behind an operand is read in one round, whatever follows. -/
theorem behind {us : List Token} {e₂ : Expr} (htarget : ReadAt 4 ts e)
    (hends : ∀ k, EndsAt 5 (us ++ k)) (hpos : 0 < us.length)
    (hround : ∀ (m : Nat) (start : Span) (k : List Token) (e' : Expr) (rounds : Nat) (c : Cursor)
      (Q : Expr → Cursor → Prop), us.length ≤ m → EndsAt 5 k → e'.bare = e.bare →
      c.tokens = us ++ k → (∀ e'' c'', e''.bare = e₂.bare → c''.tokens = k →
        Succeeds ((ofBound m).postfixes start rounds e'') c'' Q) →
      Succeeds ((ofBound m).postfixes start (rounds + 1) e') c Q) :
    ReadAt 4 (ts ++ us) e₂ := by
  intro m rounds k c Q hm hrounds hk hc hloop
  rw [List.append_assoc] at hc
  simp only [List.length_append] at hm hrounds hloop
  refine htarget m rounds _ c Q (by omega) (by omega) (hends k) hc ?_
  intro start e' rounds' c' he' hused hc'
  obtain ⟨rounds', rfl⟩ : ∃ n, rounds' = n + 1 := ⟨rounds' - 1, by omega⟩
  refine hround m start k e' rounds' c' Q (by omega) hk he' hc' ?_
  intro e'' c'' he'' hc''
  exact hloop start e'' rounds' c'' he'' (by omega) hc''

theorem index {us : List Token} {key : Expr} {place : Place} (htarget : ReadAt 4 ts e)
    (hkey : ReadAt 0 us key) : ReadAt 4 (ts ++ bracketed us) (.index place e key) := by
  refine htarget.behind (by simp [bracketed, enclosed, Token.reach])
    (by simp [bracketed, enclosed]) ?_
  intro m start k e' rounds c Q hm hk he' hc hnext
  simp only [bracketed, enclosed, List.length_cons, List.length_append, List.length_nil,
    List.cons_append, List.append_assoc, List.nil_append] at hm hc
  obtain ⟨m, rfl⟩ : ∃ n, m = n + 1 := ⟨m - 1, by omega⟩
  have hinside : c.next.tokens = us ++ .symbol .rbracket :: k := by
    rw [Cursor.tokens_next, hc]
    rfl
  rw [postfixes]
  simp only [succeeds_bind, succeeds_here, succeeds_peek, succeeds_advance, hc, List.head?_cons,
    Option.isSome_some, true_and]
  refine Succeeds.imp (hkey.whole (m := m) (by omega) (by simp [Token.reach]) hinside) ?_
  rintro key' c' ⟨hkey', hc'⟩
  simp only [succeeds_expect, succeeds_since, hc', List.head?_cons, true_and]
  exact hnext _ _ (by rw [Expr.bare, Expr.bare, he', hkey']) (by simp [hc'])

theorem field {label : String} {place : Place} (htarget : ReadAt 4 ts e) :
    ReadAt 4 (ts ++ [.symbol .dot, .name label]) (.field place e label) := by
  refine htarget.behind (by simp [Token.reach]) (by simp) ?_
  intro m start k e' rounds c Q hm hk he' hc hnext
  have hparen : k.head? ≠ some (.symbol .lparen) := hk.head?_ne rfl (by decide)
  simp only [List.cons_append, List.nil_append] at hc
  rw [postfixes]
  simp only [succeeds_bind, succeeds_here, succeeds_peek, succeeds_advance, succeeds_identifier,
    succeeds_sees, succeeds_since, Cursor.tokens_next, hc, List.head?_cons, List.tail_cons,
    Option.some.injEq, Token.name.injEq, exists_eq_left', hparen, decide_false, Bool.false_eq_true,
    if_false, Option.isSome_some, true_and]
  exact hnext _ _ (by rw [Expr.bare, Expr.bare, he']) (by simp [hc])

end ReadAt

end Grammar

end ScriptLang
