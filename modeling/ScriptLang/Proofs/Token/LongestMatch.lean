import Mathlib
import ScriptLang.Proofs.Token.Lexeme

/-!
# The scanner takes longest lexemes

One token is the longest word of any rule that the text at hand begins with, and
it is read alike from every text that goes on for at least as long and no further.
-/

namespace ScriptLang.Token

/-- The word spells the token: it is a word of the token's rule and carries what the token
holds. A name that spells a keyword is that keyword. -/
def Spelled (w : List Char) : Token → Prop
  | keyword k => w ∈ (TokenRule.keyword k).language
  | symbol s => w ∈ (TokenRule.symbol s).language
  | number n => w ∈ TokenRule.number.language ∧ n = numberValue w
  | text s => (∃ rule ∈ [TokenRule.doubleQuoted, .singleQuoted], w ∈ rule.language) ∧
      s = String.ofList (unescape w.tail.dropLast)
  | name s => w ∈ TokenRule.name.language ∧ s = String.ofList w ∧
      ∀ k : Keyword, w ∉ (TokenRule.keyword k).language

theorem Spelled.exists_rule {w : List Char} {t : Token} (h : Spelled w t) :
    ∃ rule : TokenRule, w ∈ rule.language := by
  cases t with
  | keyword k => exact ⟨_, h⟩
  | symbol s => exact ⟨_, h⟩
  | number n => exact ⟨_, h.1⟩
  | text s =>
      obtain ⟨⟨rule, _, hrule⟩, _⟩ := h
      exact ⟨rule, hrule⟩
  | name s => exact ⟨_, h.1⟩

section Numbers

variable {c : Char} {cs w : List Char}

theorem length_takeWhile_append {p : Char → Bool} (h : ∀ d ∈ w, p d = true) (more : List Char) :
    w.length ≤ ((w ++ more).takeWhile p).length := by
  rw [List.takeWhile_append_of_pos h, List.length_append]
  omega

theorem numberTail_of_point {more : List Char} {d : Char}
    (h : cs.dropWhile Char.isDigit = '.' :: d :: more) (hd : d.isDigit = true) :
    numberTail cs = cs.takeWhile Char.isDigit ++ '.' :: d :: more.takeWhile Char.isDigit := by
  simp [numberTail, h, hd]

/-- A number ends with its digits, or takes a point and the digits behind it. -/
theorem numberTail_cases (cs : List Char) :
    numberTail cs = cs.takeWhile Char.isDigit ∨
    ∃ d more, d.isDigit = true ∧ cs.dropWhile Char.isDigit = '.' :: d :: more ∧
      numberTail cs = cs.takeWhile Char.isDigit ++ '.' :: d :: more.takeWhile Char.isDigit := by
  by_cases h : ∃ d more, d.isDigit = true ∧ cs.dropWhile Char.isDigit = '.' :: d :: more
  · obtain ⟨d, more, hd, hdrop⟩ := h
    exact Or.inr ⟨d, more, hd, hdrop, numberTail_of_point hdrop hd⟩
  · left
    unfold numberTail
    split
    · rename_i rest hdrop
      cases rest with
      | nil => rfl
      | cons d more =>
          have hd : ¬d.isDigit = true := fun hd => h ⟨d, more, hd, hdrop⟩
          simp [hd]
    · rfl

theorem numberTail_isPrefix (cs : List Char) : numberTail cs <+: cs := by
  rcases numberTail_cases cs with h | ⟨d, more, _, hdrop, h⟩
  · rw [h]
    exact List.takeWhile_prefix _
  · rw [h]
    nth_rewrite 2 [← List.takeWhile_append_dropWhile (p := Char.isDigit) (l := cs)]
    rw [hdrop, List.prefix_append_right_inj, List.cons_prefix_cons, List.cons_prefix_cons]
    exact ⟨rfl, rfl, List.takeWhile_prefix _⟩

theorem number_numberTail (hc : c.isDigit = true) (cs : List Char) :
    c :: numberTail cs ∈ TokenRule.number.language := by
  rw [mem_number]
  refine ⟨c, cs.takeWhile Char.isDigit, hc, fun _ => List.mem_takeWhile_imp, ?_⟩
  rcases numberTail_cases cs with h | ⟨d, more, hd, _, h⟩
  · exact Or.inl (congrArg (c :: ·) h)
  · exact Or.inr ⟨d, _, congrArg (c :: ·) h, hd, fun _ => List.mem_takeWhile_imp⟩

theorem length_le_numberTail (h : c :: w ∈ TokenRule.number.language) (hw : w <+: cs) :
    w.length ≤ (numberTail cs).length := by
  obtain ⟨more, rfl⟩ := hw
  obtain ⟨_, ds, _, hds, heq | ⟨e, es, heq, he, hes⟩⟩ := mem_number.mp h
  · obtain ⟨_, rfl⟩ := List.cons.inj heq
    have hle := length_takeWhile_append hds more
    rcases numberTail_cases (w ++ more) with h | ⟨d, _, _, _, h⟩
    · rw [h]
      exact hle
    · rw [h, List.length_append]
      omega
  · obtain ⟨_, rfl⟩ := List.cons.inj heq
    rw [List.append_assoc, List.cons_append, List.cons_append]
    have hdrop : (ds ++ '.' :: e :: (es ++ more)).dropWhile Char.isDigit =
        '.' :: e :: (es ++ more) := by
      rw [List.dropWhile_append_of_pos hds]
      rfl
    have hwhole := length_takeWhile_append hds ('.' :: e :: (es ++ more))
    have hfraction := length_takeWhile_append hes more
    rw [numberTail_of_point hdrop he]
    simp only [List.length_append, List.length_cons]
    omega

end Numbers

section Texts

variable {q : Char} {body cs read : List Char}

theorem textTail_plain {c : Char} (hq : c ≠ q) (hb : c ≠ '\\') (cs : List Char) :
    textTail q (c :: cs) = (c :: (textTail q cs).1, (textTail q cs).2) := by
  cases cs <;> simp [textTail, hq, hb]

/-- A text ends at the first quote that no backslash takes. -/
theorem textTail_of_body (hq : q ≠ '\\') (h : QuotedBody q body) (more : List Char) :
    textTail q (body ++ q :: more) = (body ++ [q], true) := by
  induction h with
  | nil => cases more <;> simp [textTail]
  | plain hcq hcb _ ih =>
      rw [List.cons_append, textTail_plain hcq hcb, ih]
      rfl
  | escape hd _ ih => simp [textTail, hq.symm, hd, ih]

theorem textTail_isPrefix (q : Char) (cs : List Char) : (textTail q cs).1 <+: cs := by
  fun_induction textTail q cs with
  | case1 | case2 | case3 | case4 | case5 | case6 => simp
  | case7 d cs hd read closed hread hb ih =>
      rw [hread] at ih
      simpa using ih
  | case8 c d cs hq hb read closed hread ih =>
      rw [hread] at ih
      simpa using ih

theorem body_of_textTail (h : textTail q cs = (read, true)) :
    ∃ body, read = body ++ [q] ∧ QuotedBody q body := by
  fun_induction textTail q cs generalizing read with
  | case1 | case3 | case4 | case6 => cases h
  | case2 | case5 =>
      obtain ⟨rfl, _⟩ := Prod.mk.inj h
      exact ⟨[], rfl, .nil⟩
  | case7 d cs hd read' closed hread hb ih =>
      obtain ⟨rfl, rfl⟩ := Prod.mk.inj h
      obtain ⟨body, rfl, hbody⟩ := ih hread
      exact ⟨'\\' :: d :: body, rfl, .escape hd hbody⟩
  | case8 c d cs hq hb read' closed hread ih =>
      obtain ⟨rfl, rfl⟩ := Prod.mk.inj h
      obtain ⟨body, rfl, hbody⟩ := ih hread
      exact ⟨c :: body, rfl, .plain hq hb hbody⟩

end Texts

section Symbols

variable {c : Char} {rest tail w : List Char} {s : Symbol}

theorem find?_text_ne_none (s : Symbol) (h : s.text.toList = w) :
    Symbol.all.find? (fun s => s.text.toList == w) ≠ none := by
  intro hnone
  have hmem : s ∈ Symbol.all := by cases s <;> decide
  exact List.find?_eq_none.mp hnone s hmem (beq_iff_eq.mpr h)

/-- A symbol at hand has one character, or is the pair of the next two. -/
theorem symbol_cases (s : Symbol) (h : s.text.toList = c :: w) (hw : w <+: rest) :
    (w = [] ∧ charSymbol? c ≠ none) ∨
    ∃ d more, rest = d :: more ∧ w = [d] ∧ pairSymbol? c d ≠ none := by
  have hlength : s.text.toList.length ≤ 2 := by cases s <;> decide
  rw [h] at hlength
  cases w with
  | nil => exact Or.inl ⟨rfl, find?_text_ne_none s h⟩
  | cons d w =>
      have hnil : w = [] := List.length_eq_zero_iff.mp (by
        simp only [List.length_cons] at hlength
        omega)
      subst hnil
      obtain ⟨more, rfl⟩ := hw
      exact Or.inr ⟨d, more, rfl, rfl, find?_text_ne_none s h⟩

theorem symbolAt?_eq_some (h : symbolAt? c rest = some (s, tail)) :
    Symbol.all.find? (fun s => s.text.toList == c :: tail) = some s ∧ tail <+: rest ∧
      ∀ (s' : Symbol) (w : List Char), s'.text.toList = c :: w → w <+: rest →
        w.length ≤ tail.length := by
  have hlongest (s' : Symbol) (w : List Char) (hs' : s'.text.toList = c :: w) (hw : w <+: rest) :
      w.length ≤ tail.length := by
    rcases symbol_cases s' hs' hw with ⟨rfl, _⟩ | ⟨d, more, rfl, rfl, hpair⟩
    · exact Nat.zero_le _
    · obtain ⟨pair, hsome⟩ := Option.ne_none_iff_exists'.mp hpair
      simp only [symbolAt?, hsome, Option.some.injEq, Prod.mk.injEq] at h
      rw [← h.2]
  have hsingle (hmap : (charSymbol? c).map (·, []) = some (s, tail)) :
      Symbol.all.find? (fun s => s.text.toList == c :: tail) = some s ∧ tail <+: rest := by
    obtain ⟨s', hs', heq⟩ := Option.map_eq_some_iff.mp hmap
    obtain ⟨rfl, rfl⟩ := Prod.mk.inj heq
    exact ⟨hs', List.nil_prefix⟩
  refine and_assoc.mp ⟨?_, hlongest⟩
  -- a symbol of two characters is tried before one of one
  cases rest with
  | nil => exact hsingle h
  | cons d rest =>
      cases hpair : pairSymbol? c d with
      | some pair =>
          simp only [symbolAt?, hpair, Option.some.injEq, Prod.mk.injEq] at h
          obtain ⟨rfl, rfl⟩ := h
          exact ⟨hpair, List.cons_prefix_cons.mpr ⟨rfl, List.nil_prefix⟩⟩
      | none =>
          simp only [symbolAt?, hpair] at h
          exact hsingle h

theorem symbolAt?_eq_none (h : symbolAt? c rest = none) (s : Symbol)
    (hs : s.text.toList = c :: w) : ¬w <+: rest := by
  intro hw
  rcases symbol_cases s hs hw with ⟨_, hchar⟩ | ⟨d, more, rfl, _, hpair⟩
  · obtain ⟨single, hsome⟩ := Option.ne_none_iff_exists'.mp hchar
    unfold symbolAt? at h
    rw [hsome] at h
    split at h
    · cases h
    · split at h <;> cases h
  · obtain ⟨pair, hsome⟩ := Option.ne_none_iff_exists'.mp hpair
    simp only [symbolAt?, hsome] at h
    cases h

end Symbols

/-! ## One token -/

section OneToken

variable {c : Char} {rest tail w : List Char} {t : Token}

/-- What a word of the name rule stands for. -/
def ofWord (w : List Char) : Token :=
  match Keyword.ofText? (String.ofList w) with
  | some k => keyword k
  | none => name (String.ofList w)

theorem spelled_ofWord (h : w ∈ TokenRule.name.language) : Spelled w (ofWord w) := by
  unfold ofWord
  cases hfind : Keyword.ofText? (String.ofList w) with
  | some k =>
      have htext := List.find?_some hfind
      show w = k.text.toList
      rw [eq_of_beq htext, String.toList_ofList]
  | none =>
      refine ⟨h, rfl, fun k hk => ?_⟩
      have hmem : k ∈ Keyword.all := by cases k <;> decide
      have htext : k.text = String.ofList w := by
        rw [show w = k.text.toList from hk, String.ofList_toList]
      exact List.find?_eq_none.mp hfind k hmem (beq_iff_eq.mpr htext)

/-- The token that a word of some rule stands for, whatever follows it. -/
def ofWordAt? (c : Char) (w : List Char) : Option Token :=
  if c.isDigit then some (number (numberValue (c :: w)))
  else if isNameStart c then some (ofWord (c :: w))
  else if c = '"' || c = '\'' then some (text (String.ofList (unescape w.dropLast)))
  else (Symbol.all.find? fun s => s.text.toList == c :: w).map symbol

/-- The token at hand takes the longest word of any rule, and hangs on that word only. -/
structure Longest (c : Char) (rest : List Char) (t : Token) (tail : List Char) : Prop where
  isPrefix : tail <+: rest
  token : ofWordAt? c tail = some t
  spelled : Spelled (c :: tail) t
  longest : ∀ w, WordAt c w → w <+: rest → w.length ≤ tail.length

section Classes

theorem tokenAt_of_isDigit (hdigit : c.isDigit = true) (rest : List Char) :
    tokenAt c rest = .ok (number (numberValue (c :: numberTail rest)), numberTail rest) := by
  rw [tokenAt, if_pos hdigit]

theorem longest_number (hdigit : c.isDigit = true) (rest : List Char) :
    Longest c rest (number (numberValue (c :: numberTail rest))) (numberTail rest) := by
  refine ⟨numberTail_isPrefix rest, by rw [ofWordAt?, if_pos hdigit],
    ⟨number_numberTail hdigit rest, rfl⟩, fun w hword hw => ?_⟩
  rw [WordAt, if_pos hdigit] at hword
  exact length_le_numberTail hword hw

variable (hdigit : ¬c.isDigit = true)
include hdigit

theorem tokenAt_of_isNameStart (hstart : isNameStart c = true) (rest : List Char) :
    tokenAt c rest =
      .ok (ofWord (c :: rest.takeWhile isNamePart), rest.takeWhile isNamePart) := by
  rw [tokenAt, if_neg hdigit, if_pos hstart]
  dsimp only [ofWord]
  cases Keyword.ofText? (String.ofList (c :: rest.takeWhile isNamePart)) <;> rfl

theorem longest_word (hstart : isNameStart c = true) (rest : List Char) :
    Longest c rest (ofWord (c :: rest.takeWhile isNamePart)) (rest.takeWhile isNamePart) := by
  have hname : c :: rest.takeWhile isNamePart ∈ TokenRule.name.language :=
    mem_name.mpr ⟨c, _, rfl, hstart, fun _ => List.mem_takeWhile_imp⟩
  refine ⟨List.takeWhile_prefix _, by rw [ofWordAt?, if_neg hdigit, if_pos hstart],
    spelled_ofWord hname, fun w hword hw => ?_⟩
  rw [WordAt, if_neg hdigit, if_pos hstart] at hword
  obtain ⟨_, ds, heq, _, hds⟩ := mem_name.mp hword
  obtain ⟨_, rfl⟩ := List.cons.inj heq
  obtain ⟨more, rfl⟩ := hw
  exact length_takeWhile_append hds more

variable (hstart : ¬isNameStart c = true)
include hstart

theorem textTail_of_wordAt (hquote : (c = '"' || c = '\'') = true) (hword : WordAt c w)
    (hw : w <+: rest) : textTail c rest = (w, true) := by
  have hne : c ≠ '\\' := by rintro rfl; cases hquote
  rw [WordAt, if_neg hdigit, if_neg hstart, if_pos hquote] at hword
  obtain ⟨body, heq, hbody⟩ := mem_quotedBy.mp hword
  obtain ⟨_, rfl⟩ := List.cons.inj heq
  obtain ⟨more, rfl⟩ := hw
  rw [List.append_assoc]
  exact textTail_of_body hne hbody more

theorem tokenAt_of_quote (hquote : (c = '"' || c = '\'') = true) {read : List Char}
    {closed : Bool} (h : textTail c rest = (read, closed)) :
    tokenAt c rest = if closed then .ok (text (String.ofList (unescape read.dropLast)), read)
      else .error (.unterminatedText, read) := by
  rw [tokenAt, if_neg hdigit, if_neg hstart, if_pos hquote, h]
  cases closed <;> rfl

theorem longest_text (hquote : (c = '"' || c = '\'') = true) {read : List Char}
    (h : textTail c rest = (read, true)) :
    Longest c rest (text (String.ofList (unescape read.dropLast))) read := by
  have hpre : read <+: rest := by simpa only [h] using textTail_isPrefix c rest
  obtain ⟨body, rfl, hbody⟩ := body_of_textTail h
  have hquoted : c :: (body ++ [c]) ∈ quotedBy c := mem_quotedBy.mpr ⟨body, rfl, hbody⟩
  refine ⟨hpre, by rw [ofWordAt?, if_neg hdigit, if_neg hstart, if_pos hquote], ⟨?_, rfl⟩,
    fun w hword hw => ?_⟩
  · rw [Bool.or_eq_true, decide_eq_true_eq, decide_eq_true_eq] at hquote
    rcases hquote with rfl | rfl
    · exact ⟨.doubleQuoted, by simp, hquoted⟩
    · exact ⟨.singleQuoted, by simp, hquoted⟩
  · have heq := (textTail_of_wordAt hdigit hstart hquote hword hw).symm.trans h
    rw [(Prod.mk.inj heq).1]

variable (hquote : ¬(c = '"' || c = '\'') = true)
include hquote

theorem tokenAt_of_symbol {s : Symbol} (h : symbolAt? c rest = some (s, tail)) :
    tokenAt c rest = .ok (symbol s, tail) := by
  rw [tokenAt, if_neg hdigit, if_neg hstart, if_neg hquote, h]

theorem tokenAt_of_no_symbol (h : symbolAt? c rest = none) :
    tokenAt c rest = .error (.unexpected c, []) := by
  rw [tokenAt, if_neg hdigit, if_neg hstart, if_neg hquote, h]

theorem wordAt_of_other : WordAt c w ↔ ∃ s : Symbol, s.text.toList = c :: w := by
  rw [WordAt, if_neg hdigit, if_neg hstart, if_neg hquote]

theorem longest_symbol {s : Symbol} (h : symbolAt? c rest = some (s, tail)) :
    Longest c rest (symbol s) tail := by
  obtain ⟨hfind, hpre, hlongest⟩ := symbolAt?_eq_some h
  have htext := List.find?_some hfind
  refine ⟨hpre, ?_, (eq_of_beq htext).symm, fun w hword hw => ?_⟩
  · rw [ofWordAt?, if_neg hdigit, if_neg hstart, if_neg hquote, hfind]
    rfl
  · obtain ⟨s', hs'⟩ := (wordAt_of_other hdigit hstart hquote).mp hword
    exact hlongest s' w hs' hw

end Classes

/-- A token is spelled by the longest word that the text begins with. -/
theorem tokenAt_ok (h : tokenAt c rest = .ok (t, tail)) : Longest c rest t tail := by
  by_cases hdigit : c.isDigit = true
  · rw [tokenAt_of_isDigit hdigit] at h
    obtain ⟨rfl, rfl⟩ := Prod.mk.inj (Except.ok.inj h)
    exact longest_number hdigit rest
  by_cases hstart : isNameStart c = true
  · rw [tokenAt_of_isNameStart hdigit hstart] at h
    obtain ⟨rfl, rfl⟩ := Prod.mk.inj (Except.ok.inj h)
    exact longest_word hdigit hstart rest
  by_cases hquote : (c = '"' || c = '\'') = true
  · obtain ⟨read, closed, hread⟩ : ∃ read closed, textTail c rest = (read, closed) := ⟨_, _, rfl⟩
    rw [tokenAt_of_quote hdigit hstart hquote hread] at h
    cases closed with
    | false => cases h
    | true =>
        obtain ⟨rfl, rfl⟩ := Prod.mk.inj (Except.ok.inj h)
        exact longest_text hdigit hstart hquote hread
  cases hsymbol : symbolAt? c rest with
  | none =>
      rw [tokenAt_of_no_symbol hdigit hstart hquote hsymbol] at h
      cases h
  | some found =>
      rw [tokenAt_of_symbol hdigit hstart hquote hsymbol] at h
      obtain ⟨rfl, rfl⟩ := Prod.mk.inj (Except.ok.inj h)
      exact longest_symbol hdigit hstart hquote hsymbol

/-- Where no token is found, no word of any rule stands, and the error covers what was read. -/
theorem tokenAt_error {cause : LexCause} {read : List Char}
    (h : tokenAt c rest = .error (cause, read)) :
    read <+: rest ∧ ∀ w, WordAt c w → ¬w <+: rest := by
  -- numbers and names never fail, a text fails if it is not closed
  by_cases hdigit : c.isDigit = true
  · rw [tokenAt_of_isDigit hdigit] at h
    cases h
  by_cases hstart : isNameStart c = true
  · rw [tokenAt_of_isNameStart hdigit hstart] at h
    cases h
  by_cases hquote : (c = '"' || c = '\'') = true
  · obtain ⟨read', closed, hread⟩ : ∃ read closed, textTail c rest = (read, closed) := ⟨_, _, rfl⟩
    rw [tokenAt_of_quote hdigit hstart hquote hread] at h
    cases closed with
    | true => cases h
    | false =>
        obtain ⟨_, rfl⟩ := Prod.mk.inj (Except.error.inj h)
        refine ⟨by simpa only [hread] using textTail_isPrefix c rest, fun w hword hw => ?_⟩
        rw [textTail_of_wordAt hdigit hstart hquote hword hw] at hread
        cases hread
  cases hsymbol : symbolAt? c rest with
  | none =>
      rw [tokenAt_of_no_symbol hdigit hstart hquote hsymbol] at h
      obtain ⟨_, rfl⟩ := Prod.mk.inj (Except.error.inj h)
      refine ⟨List.nil_prefix, fun w hword => ?_⟩
      obtain ⟨s, hs⟩ := (wordAt_of_other hdigit hstart hquote).mp hword
      exact symbolAt?_eq_none hsymbol s hs
  | some found =>
      rw [tokenAt_of_symbol hdigit hstart hquote hsymbol] at h
      cases h

theorem Spelled.wordAt (h : Spelled (c :: w) t) : WordAt c w := by
  obtain ⟨rule, hrule⟩ := h.exists_rule
  exact wordAt_of_mem hrule

/-- A token is read alike from every text that goes on for as long as it, and no further. -/
theorem tokenAt_of_isPrefix {rest' : List Char} (h : tokenAt c rest = .ok (t, tail))
    (htail : tail <+: rest') (hrest : rest' <+: rest) : tokenAt c rest' = .ok (t, tail) := by
  have hlong := tokenAt_ok h
  cases hread : tokenAt c rest' with
  | error e => exact absurd htail ((tokenAt_error hread).2 tail hlong.spelled.wordAt)
  | ok found =>
      obtain ⟨t', tail'⟩ := found
      have hlong' := tokenAt_ok hread
      have hpre := hlong'.isPrefix.trans hrest
      have hle := hlong.longest tail' hlong'.spelled.wordAt hpre
      have hge := hlong'.longest tail hlong.spelled.wordAt htail
      have heq : tail' = tail := (List.prefix_of_prefix_length_le hpre hlong.isPrefix
        hle).eq_of_length_le hge
      subst heq
      rw [Option.some.inj (hlong'.token.symm.trans hlong.token)]

end OneToken

end ScriptLang.Token
