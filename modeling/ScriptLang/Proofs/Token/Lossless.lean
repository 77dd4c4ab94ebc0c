import Mathlib
import ScriptLang.Proofs.Token.LongestMatch

/-!
# Scanning loses nothing

The spans of the tokens of a text are cut out of it at character boundaries, one
behind the other, and only blanks and comments stand between them. Each span holds
a longest lexeme. Where scanning fails, the text before the failure has tokens, and
no rule matches what follows.
-/

namespace ScriptLang

theorem byteLength_cons (c : Char) (cs : List Char) :
    byteLength (c :: cs) = c.utf8Size + byteLength cs :=
  rfl

theorem byteLength_append (xs ys : List Char) :
    byteLength (xs ++ ys) = byteLength xs + byteLength ys := by
  induction xs with
  | nil => exact (Nat.zero_add _).symm
  | cons c xs ih =>
      rw [List.cons_append, byteLength_cons, byteLength_cons, ih]
      omega

theorem byteLength_pos {cs : List Char} (h : cs ≠ []) : 0 < byteLength cs := by
  obtain ⟨c, cs, rfl⟩ := List.exists_cons_of_ne_nil h
  have hpos := c.utf8Size_pos
  rw [byteLength_cons]
  omega

theorem utf8ByteSize_ofList (cs : List Char) :
    (String.ofList cs).utf8ByteSize = byteLength cs := by
  rw [String.utf8ByteSize_ofList]
  induction cs with
  | nil => rfl
  | cons c cs ih =>
      rw [String.utf8Len_cons, byteLength_cons, ih]
      omega

theorem utf8ByteSize_eq (s : String) : s.utf8ByteSize = byteLength s.toList := by
  rw [← utf8ByteSize_ofList, String.ofList_toList]

namespace Token

/-- What stands between tokens: blanks, and comments that run to a line break or the end. What
follows the gap is given too, for a comment at its end. -/
inductive Skipped : List Char → List Char → Prop where
  | nil {after : List Char} : Skipped [] after
  | blank {c : Char} {gap after : List Char} : c = ' ' ∨ c = '\t' ∨ c = '\n' ∨ c = '\r' →
      Skipped gap after → Skipped (c :: gap) after
  | comment {body gap after : List Char} : (∀ c ∈ body, c ≠ '\n') →
      (∀ c ∈ (gap ++ after).head?, c = '\n') → Skipped gap after →
      Skipped ('#' :: (body ++ gap)) after

/-- The word is a lexeme of its own, and no longer one begins where it does. -/
structure IsLexeme (word after : List Char) (t : Token) : Prop where
  alone : scanFrom 0 word = .ok [(t, ⟨0, byteLength word⟩)]
  spelled : Spelled word t
  longest : ∀ (rule : TokenRule), ∀ w ∈ rule.language, w <+: word ++ after →
    w.length ≤ word.length

/-- Gaps and lexemes side by side make up a text, behind what was read of it before. -/
inductive Tiling : List Char → List Char → List (Token × Span) → Prop where
  | last {before gap : List Char} : Skipped gap [] → Tiling before gap []
  | token {before gap word after : List Char} {t : Token} {tokens : List (Token × Span)} :
      Skipped gap (word ++ after) → IsLexeme word after t →
      Tiling (before ++ gap ++ word) after tokens →
      Tiling before (gap ++ word ++ after)
        ((t, ⟨byteLength (before ++ gap), byteLength (before ++ gap ++ word)⟩) :: tokens)

theorem isSpace_iff {c : Char} :
    isSpace c = true ↔ c = ' ' ∨ c = '\t' ∨ c = '\n' ∨ c = '\r' := by
  simp [isSpace, or_assoc]

section Steps

variable {offset : Nat} {c : Char} {rest tail : List Char} {t : Token}

theorem scanFrom_blank (hspace : isSpace c = true) (offset : Nat) (rest : List Char) :
    scanFrom offset (c :: rest) = scanFrom (offset + c.utf8Size) rest := by
  rw [scanFrom, if_pos hspace]

theorem scanFrom_comment {body : List Char} (hbody : ∀ c ∈ body, c ≠ '\n')
    (hrest : ∀ c ∈ rest.head?, c = '\n') (offset : Nat) :
    scanFrom offset ('#' :: (body ++ rest)) =
      scanFrom (offset + '#'.utf8Size + byteLength body) rest := by
  have hin : ∀ c ∈ body, decide (c ≠ '\n') = true := fun c hc => decide_eq_true (hbody c hc)
  have hout : rest.takeWhile (fun c => decide (c ≠ '\n')) = [] ∧
      rest.dropWhile (fun c => decide (c ≠ '\n')) = rest := by
    cases rest with
    | nil => exact ⟨rfl, rfl⟩
    | cons d rest =>
        obtain rfl := hrest d rfl
        exact ⟨rfl, rfl⟩
  rw [scanFrom, if_neg (by decide), if_pos rfl, List.takeWhile_append_of_pos hin,
    List.dropWhile_append_of_pos hin, hout.1, hout.2, List.append_nil]

theorem scanFrom_token (hspace : ¬isSpace c = true) (hhash : c ≠ '#')
    (htoken : tokenAt c (tail ++ rest) = .ok (t, tail)) {tokens : List (Token × Span)}
    (hrest : scanFrom (offset + c.utf8Size + byteLength tail) rest = .ok tokens) :
    scanFrom offset (c :: (tail ++ rest)) =
      .ok ((t, ⟨offset, offset + c.utf8Size + byteLength tail⟩) :: tokens) := by
  rw [scanFrom, if_neg hspace, if_neg hhash, htoken]
  dsimp only
  rw [List.drop_left, hrest]

theorem isLexeme_of_tokenAt (hspace : ¬isSpace c = true) (hhash : c ≠ '#')
    (htoken : tokenAt c (tail ++ rest) = .ok (t, tail)) : IsLexeme (c :: tail) rest t := by
  have hlong := tokenAt_ok htoken
  refine ⟨?_, hlong.spelled, fun rule w hrule hw => ?_⟩
  · have halone := tokenAt_of_isPrefix htoken (List.prefix_append tail []) (by simp)
    have hend : scanFrom (0 + c.utf8Size + byteLength tail) [] = .ok [] := by rw [scanFrom]
    have hscan := scanFrom_token hspace hhash halone hend
    rwa [List.append_nil, Nat.zero_add, ← byteLength_cons] at hscan
  · cases w with
    | nil => exact Nat.zero_le _
    | cons d w =>
        obtain ⟨rfl, htail⟩ := List.cons_prefix_cons.mp hw
        exact Nat.succ_le_succ (hlong.longest w (wordAt_of_mem hrule) htail)

end Steps

/-! ## The whole text -/

theorem Tiling.skip {before skipped rest : List Char} {tokens : List (Token × Span)}
    (hskip : ∀ gap after, rest = gap ++ after → Skipped gap after → Skipped (skipped ++ gap) after)
    (h : Tiling (before ++ skipped) rest tokens) : Tiling before (skipped ++ rest) tokens := by
  cases h with
  | last hgap => exact .last (hskip _ [] (List.append_nil _).symm hgap)
  | @token _ gap word after t tokens hgap hlexeme hrest =>
      have hwide := hskip gap (word ++ after) (List.append_assoc _ _ _) hgap
      rw [List.append_assoc before] at hrest ⊢
      rw [← List.append_assoc, ← List.append_assoc]
      exact .token hwide hlexeme hrest

/-- A comment stops in front of a line break or at the end. -/
theorem head?_dropWhile (cs : List Char) :
    ∀ c ∈ (cs.dropWhile (fun c => decide (c ≠ '\n'))).head?, c = '\n' := by
  intro c hc
  have := List.head?_dropWhile_not (fun c => decide (c ≠ '\n')) cs
  rw [Option.mem_def.mp hc] at this
  simpa using this

theorem tiling_of_scanFrom {offset : Nat} {cs : List Char} {tokens : List (Token × Span)}
    (h : scanFrom offset cs = .ok tokens) (before : List Char)
    (hoffset : offset = byteLength before) : Tiling before cs tokens := by
  -- along the scanner, with `before` longer by what it has passed
  fun_induction scanFrom offset cs generalizing before tokens with
  | case1 offset =>
      obtain rfl := Except.ok.inj h
      exact .last .nil
  | case2 offset c rest hspace ih =>
      have hrest := ih h (before ++ [c]) (by rw [hoffset, byteLength_append]; rfl)
      exact hrest.skip fun gap after _ hgap => .blank (isSpace_iff.mp hspace) hgap
  | case3 offset rest hspace ih =>
      have hrest := ih h (before ++ '#' :: rest.takeWhile (fun c => decide (c ≠ '\n')))
        (by rw [hoffset, byteLength_append, byteLength_cons, Nat.add_assoc])
      have htiling := hrest.skip fun gap after hsplit hgap => .comment
        (fun c hc => by simpa using List.mem_takeWhile_imp hc)
        (by rw [← hsplit]; exact head?_dropWhile rest) hgap
      rwa [List.cons_append, List.takeWhile_append_dropWhile] at htiling
  | case4 | case5 => cases h
  | case6 offset c rest hspace hhash t tail htoken stop tokens' hrest =>
      rename_i ih
      obtain rfl := Except.ok.inj h
      obtain ⟨after, rfl⟩ := (tokenAt_ok htoken).isPrefix
      rw [List.drop_left] at hrest ih
      have hstop : stop = byteLength (before ++ [] ++ c :: tail) := by
        rw [List.append_nil, byteLength_append, byteLength_cons, ← hoffset, ← Nat.add_assoc]
      have htiling := Tiling.token .nil (isLexeme_of_tokenAt hspace hhash htoken)
        (ih hrest (before ++ [] ++ c :: tail) hstop)
      rwa [← hstop, List.append_nil, ← hoffset] at htiling

/-- Where scanning stops, the text before it has tokens and no token begins. -/
theorem stuck_of_scanFrom {offset : Nat} {cs : List Char} {e : LexError}
    (h : scanFrom offset cs = .error e) :
    ∃ before c read after, cs = before ++ c :: (read ++ after) ∧
      e.span = ⟨offset + byteLength before, offset + byteLength (before ++ c :: read)⟩ ∧
      ¬isSpace c = true ∧ c ≠ '#' ∧ (∀ w, WordAt c w → ¬w <+: read ++ after) ∧
      ∃ tokens, scanFrom offset before = .ok tokens := by
  fun_induction scanFrom offset cs with
  | case1 => cases h
  | case2 offset c rest hspace ih =>
      obtain ⟨before, d, read, after, rfl, hspan, hd, hhash, hnone, tokens, hscan⟩ := ih h
      refine ⟨c :: before, d, read, after, rfl, ?_, hd, hhash, hnone, tokens, ?_⟩
      · rw [hspan, List.cons_append, byteLength_cons, byteLength_cons, Nat.add_assoc, Nat.add_assoc]
      · rw [scanFrom_blank hspace, hscan]
  | case3 offset rest hspace ih =>
      obtain ⟨before, d, read, after, hsplit, hspan, hd, hhash, hnone, tokens, hscan⟩ := ih h
      have hbefore : ∀ c ∈ before.head?, c = '\n' := by
        intro c hc
        apply head?_dropWhile rest
        rw [hsplit, List.head?_append, Option.mem_def.mp hc]
        rfl
      refine ⟨'#' :: (rest.takeWhile (fun c => decide (c ≠ '\n')) ++ before), d, read, after,
        ?_, ?_, hd, hhash, hnone, tokens, ?_⟩
      · rw [List.cons_append, List.append_assoc, ← hsplit, List.takeWhile_append_dropWhile]
      · simp only [hspan, List.cons_append, List.append_assoc, byteLength_cons, byteLength_append,
          Nat.add_assoc]
      · rw [scanFrom_comment (fun c hc => by simpa using List.mem_takeWhile_imp hc) hbefore, hscan]
  | case4 offset c rest hspace hhash cause read hread =>
      obtain rfl := Except.error.inj h
      obtain ⟨⟨after, rfl⟩, hnone⟩ := tokenAt_error hread
      refine ⟨[], c, read, after, rfl, ?_, hspace, hhash, hnone, [], by rw [scanFrom]⟩
      rw [List.nil_append, byteLength_cons, Nat.add_assoc]
      rfl
  | case5 offset c rest hspace hhash t tail htoken stop e' hrest =>
      rename_i ih
      obtain rfl := Except.error.inj h
      obtain ⟨more, rfl⟩ := (tokenAt_ok htoken).isPrefix
      rw [List.drop_left] at hrest ih
      obtain ⟨before, d, read, after, rfl, hspan, hd, hdhash, hnone, tokens, hscan⟩ := ih hrest
      -- the token is read alike when the text is cut where scanning stops
      have hcut := tokenAt_of_isPrefix htoken (List.prefix_append tail before)
        ((List.prefix_append_right_inj tail).mpr (List.prefix_append before _))
      refine ⟨c :: (tail ++ before), d, read, after, ?_, ?_, hd, hdhash, hnone, _,
        scanFrom_token hspace hhash hcut hscan⟩
      · rw [List.cons_append, List.append_assoc]
      · simp only [hspan, stop, List.cons_append, List.append_assoc, byteLength_cons,
          byteLength_append, Nat.add_assoc]
  | case6 => cases h

namespace Tiling

variable {before cs : List Char} {tokens : List (Token × Span)}

theorem exists_lexeme (h : Tiling before cs tokens) : ∀ x ∈ tokens, ∃ pre word after,
    before ++ cs = pre ++ word ++ after ∧ x.2 = ⟨byteLength pre, byteLength (pre ++ word)⟩ ∧
      IsLexeme word after x.1 := by
  induction h with
  | last => exact List.forall_mem_nil _
  | @token before gap word after t tokens _ hlexeme _ ih =>
      refine List.forall_mem_cons.mpr ⟨⟨before ++ gap, word, after, ?_, rfl, hlexeme⟩, ?_⟩
      · simp only [List.append_assoc]
      · simpa only [List.append_assoc] using ih

theorem ordered (h : Tiling before cs tokens) :
    (∀ x ∈ tokens, byteLength before ≤ x.2.start) ∧
      tokens.Pairwise (fun x y => x.2.stop ≤ y.2.start) := by
  induction h with
  | last => exact ⟨List.forall_mem_nil _, .nil⟩
  | @token before gap word after t tokens _ _ _ ih =>
      refine ⟨List.forall_mem_cons.mpr ⟨?_, fun x hx => ?_⟩, .cons ih.1 ih.2⟩
      · exact byteLength_append before gap ▸ Nat.le_add_right _ _
      · have hle := ih.1 x hx
        rw [byteLength_append, byteLength_append] at hle
        omega

end Tiling

/-- The spans before, between and behind other spans, from `start` to `stop`. -/
def gaps (start stop : Nat) : List Span → List Span
  | [] => [⟨start, stop⟩]
  | span :: spans => ⟨start, span.start⟩ :: gaps span.stop stop spans

theorem Tiling.exists_gap {before cs : List Char} {tokens : List (Token × Span)}
    (h : Tiling before cs tokens) :
    ∀ span ∈ gaps (byteLength before) (byteLength (before ++ cs)) (tokens.map Prod.snd),
      ∃ pre gap after, before ++ cs = pre ++ gap ++ after ∧
        span = ⟨byteLength pre, byteLength (pre ++ gap)⟩ ∧ Skipped gap after := by
  induction h with
  | @last before gap hgap =>
      rintro span hspan
      obtain rfl := List.mem_singleton.mp hspan
      exact ⟨before, gap, [], (List.append_nil _).symm, rfl, hgap⟩
  | @token before gap word after t tokens hgap _ _ ih =>
      refine List.forall_mem_cons.mpr ⟨⟨before, gap, word ++ after, ?_, rfl, hgap⟩, ?_⟩
      · simp only [List.append_assoc]
      · simpa only [List.append_assoc] using ih

end Token

/-- The span cuts a text into three parts, at character boundaries. -/
def Span.Cuts (span : Span) (source before text after : String) : Prop :=
  source = before ++ text ++ after ∧ before.utf8ByteSize = span.start ∧
    (before ++ text).utf8ByteSize = span.stop

theorem Span.cuts_ofList {source : String} {before text after : List Char}
    (h : source.toList = before ++ text ++ after) :
    Span.Cuts ⟨byteLength before, byteLength (before ++ text)⟩ source (String.ofList before)
      (String.ofList text) (String.ofList after) := by
  refine ⟨?_, utf8ByteSize_ofList before, ?_⟩
  · rw [← String.ofList_append, ← String.ofList_append, ← h, String.ofList_toList]
  · rw [← String.ofList_append, utf8ByteSize_ofList]

namespace Token

/-- The tokens of a text with what stands between them give the text back, and each is a longest
lexeme that gives the same token alone. -/
structure Splits (source : String) (tokens : List (Token × Span)) : Prop where
  nonempty : ∀ x ∈ tokens, x.2.start < x.2.stop
  disjoint : tokens.Pairwise fun x y => x.2.stop ≤ y.2.start
  lexeme : ∀ x ∈ tokens, ∃ before text after, x.2.Cuts source before text after ∧
    scan text = .ok [(x.1, ⟨0, text.utf8ByteSize⟩)] ∧ Spelled text.toList x.1 ∧
    ∀ (rule : TokenRule), ∀ w ∈ rule.language, w <+: (text ++ after).toList →
      w.length ≤ text.length
  gap : ∀ span ∈ gaps 0 source.utf8ByteSize (tokens.map Prod.snd), ∃ before text after,
    span.Cuts source before text after ∧ Skipped text.toList after.toList

/-- The text before the error has tokens, and no rule matches where the error begins. -/
def StuckAt (source : String) (e : LexError) : Prop :=
  ∃ before text after, e.span.Cuts source before text after ∧ text ≠ "" ∧
    (∃ tokens, scan before = .ok tokens) ∧
    ∀ w, w ≠ [] → w <+: (text ++ after).toList →
      (∀ rule : TokenRule, w ∉ rule.language) ∧ ∀ rule : SkipRule, w ∉ rule.language

theorem splits_of_tiling {source : String} {tokens : List (Token × Span)}
    (h : Tiling [] source.toList tokens) : Splits source tokens where
  nonempty x hx := by
    obtain ⟨pre, word, after, _, hspan, hlexeme⟩ := h.exists_lexeme x hx
    obtain ⟨rule, hrule⟩ := hlexeme.spelled.exists_rule
    have hword : word ≠ [] := by
      rintro rfl
      exact rule.nil_not_mem hrule
    rw [hspan, byteLength_append]
    exact Nat.lt_add_of_pos_right (byteLength_pos hword)
  disjoint := h.ordered.2
  lexeme x hx := by
    obtain ⟨pre, word, after, hsource, hspan, hlexeme⟩ := h.exists_lexeme x hx
    refine ⟨_, _, _, hspan ▸ Span.cuts_ofList hsource, ?_, ?_, ?_⟩
    · rw [scan, String.toList_ofList, utf8ByteSize_ofList]
      exact hlexeme.alone
    · rw [String.toList_ofList]
      exact hlexeme.spelled
    · rw [← String.ofList_append, String.toList_ofList, String.length_ofList]
      exact hlexeme.longest
  gap span hspan := by
    have hstop : source.utf8ByteSize = byteLength ([] ++ source.toList) := by
      rw [List.nil_append, utf8ByteSize_eq]
    rw [hstop] at hspan
    obtain ⟨pre, gap, after, hsource, rfl, hgap⟩ := h.exists_gap span hspan
    refine ⟨_, _, _, Span.cuts_ofList hsource, ?_⟩
    rwa [String.toList_ofList, String.toList_ofList]

/-- Scanning is lossless and takes longest lexemes; it stops only where no rule matches. -/
theorem scan_lossless (source : String) :
    (∀ tokens, scan source = .ok tokens → Splits source tokens) ∧
      ∀ e, scan source = .error e → StuckAt source e := by
  constructor
  · intro tokens h
    exact splits_of_tiling (tiling_of_scanFrom h [] rfl)
  · intro e h
    obtain ⟨before, c, read, after, hsource, hspan, hspace, hhash, hnone, tokens, hscan⟩ :=
      stuck_of_scanFrom h
    rw [Nat.zero_add, Nat.zero_add] at hspan
    have hcut : source.toList = before ++ c :: read ++ after := by
      rw [hsource, List.append_assoc, List.cons_append]
    refine ⟨_, _, _, hspan ▸ Span.cuts_ofList hcut, ?_, ⟨tokens, ?_⟩, fun w hne hw => ?_⟩
    · intro hempty
      have hchars := congrArg String.toList hempty
      rw [String.toList_ofList] at hchars
      cases hchars
    · rw [scan, String.toList_ofList, hscan]
    · rw [← String.ofList_append, String.toList_ofList] at hw
      obtain ⟨d, w, rfl⟩ := List.exists_cons_of_ne_nil hne
      obtain ⟨rfl, htail⟩ := List.cons_prefix_cons.mp hw
      refine ⟨fun rule hrule => hnone w (wordAt_of_mem hrule) htail, fun rule hrule => ?_⟩
      obtain ⟨_, _, heq, hfirst⟩ := SkipRule.first_of_mem hrule
      obtain ⟨rfl, _⟩ := List.cons.inj heq
      exact hfirst.elim hspace hhash

/-- A keyword that begins a name, symbols that touch, a point behind a fraction, a quote in a
comment, and a text with a two-byte character. -/
def crowded : String := "iffy->1.5//2.5.x # it's\n\"é\\\"\"!=if"

def crowdedTokens : List (Token × Span) :=
  [(.name "iffy", ⟨0, 4⟩), (.symbol .arrow, ⟨4, 6⟩), (.number 1.5, ⟨6, 9⟩),
    (.symbol .slashSlash, ⟨9, 11⟩), (.number 2.5, ⟨11, 14⟩), (.symbol .dot, ⟨14, 15⟩),
    (.name "x", ⟨15, 16⟩), (.text "é\"", ⟨24, 30⟩), (.symbol .notEq, ⟨30, 32⟩),
    (.keyword .ifKw, ⟨32, 34⟩)]

/-- The same, with a text behind it that no quote ends. -/
def unended : String := crowded ++ " 'é"

theorem crowded_lossless :
    (scan crowded = .ok crowdedTokens ∧ Splits crowded crowdedTokens) ∧
    (scan unended = .error ⟨.unterminatedText, ⟨35, 38⟩⟩ ∧
      StuckAt unended ⟨.unterminatedText, ⟨35, 38⟩⟩) := by
  have hok : scan crowded = .ok crowdedTokens := by decide +kernel
  have herror : scan unended = .error ⟨.unterminatedText, ⟨35, 38⟩⟩ := by decide +kernel
  exact ⟨⟨hok, (scan_lossless crowded).1 _ hok⟩, herror, (scan_lossless unended).2 _ herror⟩

end Token

end ScriptLang
