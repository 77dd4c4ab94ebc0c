import Mathlib
import ScriptLang.Token.Scanner

/-!
# The lexemes of tokens

The words that each token rule matches, as regular languages: keywords and symbols
are words of their own, and numbers, texts and names are built from classes of
characters. What is skipped between tokens has two rules more. The scanner takes the
longest word that a rule matches, and only words of one rule begin with a given
character, but for keywords, which are names too.
-/

namespace ScriptLang

/-- The words of one character that has a property. -/
def oneOf (p : Char → Prop) : Language Char := {w | ∃ c, p c ∧ w = [c]}

/-- A text between quotes. A backslash takes the next character with it, which may be any but a
line break. -/
def quotedBy (q : Char) : Language Char :=
  {[q]} * KStar.kstar (oneOf (fun c => c ≠ q ∧ c ≠ '\\') + {['\\']} * oneOf (· ≠ '\n')) * {[q]}

/-- The rules for tokens. -/
inductive TokenRule where
  | keyword (k : Keyword)
  | symbol (s : Symbol)
  | number
  | doubleQuoted
  | singleQuoted
  | name

def TokenRule.language : TokenRule → Language Char
  | keyword k => {k.text.toList}
  | symbol s => {s.text.toList}
  | number =>
    let digits := oneOf (·.isDigit) * KStar.kstar (oneOf (·.isDigit))
    digits * (1 + {['.']} * digits)
  | doubleQuoted => quotedBy '"'
  | singleQuoted => quotedBy '\''
  | name => oneOf (Token.isNameStart ·) * KStar.kstar (oneOf (Token.isNamePart ·))

/-- The rules for what stands between tokens. -/
inductive SkipRule where
  | blanks
  | comment

def SkipRule.language : SkipRule → Language Char
  | blanks => oneOf (Token.isSpace ·) * KStar.kstar (oneOf (Token.isSpace ·))
  | comment => {['#']} * KStar.kstar (oneOf (· ≠ '\n'))

/-! ## The words of each rule -/

section Words

variable {p : Char → Prop} {l : Language Char} {q c : Char} {w : List Char}

theorem mem_oneOf_mul : w ∈ oneOf p * l ↔ ∃ c cs, w = c :: cs ∧ p c ∧ cs ∈ l := by
  rw [Language.mem_mul]
  constructor
  · rintro ⟨_, ⟨c, hc, rfl⟩, cs, hcs, rfl⟩
    exact ⟨c, cs, rfl, hc, hcs⟩
  · rintro ⟨c, cs, rfl, hc, hcs⟩
    exact ⟨[c], ⟨c, hc, rfl⟩, cs, hcs, rfl⟩

theorem mem_single_mul : w ∈ ({[c]} : Language Char) * l ↔ ∃ cs, w = c :: cs ∧ cs ∈ l := by
  rw [Language.mem_mul]
  constructor
  · rintro ⟨_, rfl, cs, hcs, rfl⟩
    exact ⟨cs, rfl, hcs⟩
  · rintro ⟨cs, rfl, hcs⟩
    exact ⟨[c], rfl, cs, hcs, rfl⟩

theorem nil_mem_kstar : [] ∈ KStar.kstar l :=
  Language.mem_kstar.mpr ⟨[], rfl, List.forall_mem_nil _⟩

theorem append_mem_kstar {x : List Char} (hx : x ∈ l) (hw : w ∈ KStar.kstar l) :
    x ++ w ∈ KStar.kstar l := by
  obtain ⟨parts, rfl, hparts⟩ := Language.mem_kstar.mp hw
  exact Language.mem_kstar.mpr ⟨x :: parts, rfl, List.forall_mem_cons.mpr ⟨hx, hparts⟩⟩

theorem mem_kstar_oneOf : w ∈ KStar.kstar (oneOf p) ↔ ∀ c ∈ w, p c := by
  constructor
  · intro hw
    obtain ⟨parts, rfl, hparts⟩ := Language.mem_kstar.mp hw
    intro c hc
    obtain ⟨part, hpart, hc⟩ := List.mem_flatten.mp hc
    obtain ⟨d, hd, rfl⟩ := hparts part hpart
    rw [List.mem_singleton.mp hc]
    exact hd
  · intro hw
    induction w with
    | nil => exact nil_mem_kstar
    | cons c w ih =>
        rw [List.forall_mem_cons] at hw
        exact append_mem_kstar (x := [c]) ⟨c, hw.1, rfl⟩ (ih hw.2)

/-- The inside of a quoted text. -/
inductive QuotedBody (q : Char) : List Char → Prop where
  | nil : QuotedBody q []
  | plain {c : Char} {cs : List Char} : c ≠ q → c ≠ '\\' → QuotedBody q cs → QuotedBody q (c :: cs)
  | escape {d : Char} {cs : List Char} : d ≠ '\n' → QuotedBody q cs → QuotedBody q ('\\' :: d :: cs)

theorem quotedBody_iff : QuotedBody q w ↔
    w ∈ KStar.kstar (oneOf (fun c => c ≠ q ∧ c ≠ '\\') + {['\\']} * oneOf (· ≠ '\n')) := by
  constructor
  · intro h
    induction h with
    | nil => exact nil_mem_kstar
    | @plain c cs hq hb _ ih =>
        exact append_mem_kstar (x := [c]) (Or.inl ⟨c, ⟨hq, hb⟩, rfl⟩) ih
    | @escape d cs hd _ ih =>
        have hpair : ['\\', d] ∈ ({['\\']} : Language Char) * oneOf (· ≠ '\n') :=
          mem_single_mul.mpr ⟨[d], rfl, d, hd, rfl⟩
        exact append_mem_kstar (x := ['\\', d]) (Or.inr hpair) ih
  · intro hw
    obtain ⟨parts, rfl, hparts⟩ := Language.mem_kstar.mp hw
    clear hw
    induction parts with
    | nil => exact .nil
    | cons part parts ih =>
        rw [List.forall_mem_cons] at hparts
        have hrest := ih hparts.2
        rcases hparts.1 with ⟨c, ⟨hq, hb⟩, rfl⟩ | hpair
        · exact .plain hq hb hrest
        · obtain ⟨_, rfl, d, hd, rfl⟩ := mem_single_mul.mp hpair
          exact .escape hd hrest

theorem mem_quotedBy : w ∈ quotedBy q ↔ ∃ body, w = q :: (body ++ [q]) ∧ QuotedBody q body := by
  rw [quotedBy, mul_assoc, mem_single_mul]
  constructor
  · rintro ⟨_, rfl, hcs⟩
    obtain ⟨body, hbody, _, rfl, rfl⟩ := Language.mem_mul.mp hcs
    exact ⟨body, rfl, quotedBody_iff.mpr hbody⟩
  · rintro ⟨body, rfl, hbody⟩
    exact ⟨_, rfl, Language.mem_mul.mpr ⟨body, quotedBody_iff.mp hbody, [q], rfl, rfl⟩⟩

theorem mem_name : w ∈ TokenRule.name.language ↔
    ∃ c cs, w = c :: cs ∧ Token.isNameStart c = true ∧ ∀ d ∈ cs, Token.isNamePart d = true := by
  simp only [TokenRule.language, mem_oneOf_mul, mem_kstar_oneOf]

theorem mem_number : w ∈ TokenRule.number.language ↔
    ∃ c cs, c.isDigit = true ∧ (∀ d ∈ cs, d.isDigit = true) ∧
      (w = c :: cs ∨ ∃ d ds, w = c :: (cs ++ '.' :: d :: ds) ∧ d.isDigit = true ∧
        ∀ d ∈ ds, d.isDigit = true) := by
  simp only [TokenRule.language, mul_assoc, mem_oneOf_mul, Language.mem_mul (m := _ + _),
    mem_kstar_oneOf, Language.mem_add, Language.mem_one, mem_single_mul]
  constructor
  · rintro ⟨c, _, rfl, hc, cs, hcs, _, rfl | ⟨_, rfl, d, ds, rfl, hd, hds⟩, rfl⟩
    · exact ⟨c, cs, hc, hcs, Or.inl (by rw [List.append_nil])⟩
    · exact ⟨c, cs, hc, hcs, Or.inr ⟨d, ds, rfl, hd, hds⟩⟩
  · rintro ⟨c, cs, hc, hcs, rfl | ⟨d, ds, rfl, hd, hds⟩⟩
    · exact ⟨c, cs, rfl, hc, cs, hcs, [], Or.inl rfl, List.append_nil cs⟩
    · exact ⟨c, _, rfl, hc, cs, hcs, _, Or.inr ⟨_, rfl, d, ds, rfl, hd, hds⟩, rfl⟩

end Words

/-! ## Which words begin with a character -/

section FirstCharacter

open Token

variable {c : Char} {w : List Char}

theorem Keyword.isName_text (k : Keyword) : k.text.toList ∈ TokenRule.name.language := by
  have hstart : k.text.toList.head?.any isNameStart = true := by cases k <;> rfl
  have hparts : k.text.toList.tail.all isNamePart = true := by cases k <;> rfl
  rw [mem_name]
  generalize k.text.toList = w at hstart hparts
  cases w with
  | nil => cases hstart
  | cons c cs => exact ⟨c, cs, rfl, hstart, List.all_eq_true.mp hparts⟩

/-- A symbol does not begin as a number, a name or a text does. -/
theorem Symbol.first_of_text (s : Symbol) (h : s.text.toList = c :: w) :
    c.isDigit = false ∧ isNameStart c = false ∧ (c = '"' || c = '\'') = false := by
  have hall : s.text.toList.all (fun c =>
      !c.isDigit && !isNameStart c && !(c = '"' || c = '\'')) = true := by
    cases s <;> rfl
  simp only [h, List.all_cons, Bool.and_eq_true, Bool.not_eq_true', and_assoc] at hall
  exact ⟨hall.1, hall.2.1, hall.2.2.1⟩

theorem isNameStart_of_isDigit (h : c.isDigit = true) : isNameStart c = false := by
  have hbounds : 48 ≤ c.val ∧ c.val ≤ 57 := by simpa [Char.isDigit] using h
  have hne : c ≠ '_' := by rintro rfl; cases h
  rw [UInt32.le_iff_toNat_le, UInt32.le_iff_toNat_le] at hbounds
  simp only [isNameStart, Char.isAlpha, Char.isUpper, Char.isLower, hne, decide_false,
    Bool.or_false, Bool.or_eq_false_iff, Bool.and_eq_false_iff, decide_eq_false_iff_not,
    ge_iff_le, UInt32.le_iff_toNat_le]
  simp at hbounds ⊢
  omega

theorem first_of_name (h : c :: w ∈ TokenRule.name.language) :
    ¬c.isDigit = true ∧ isNameStart c = true := by
  obtain ⟨d, ds, heq, hd, _⟩ := mem_name.mp h
  obtain ⟨rfl, rfl⟩ := List.cons.inj heq
  refine ⟨fun hdigit => ?_, hd⟩
  rw [isNameStart_of_isDigit hdigit] at hd
  cases hd

theorem first_of_number (h : c :: w ∈ TokenRule.number.language) : c.isDigit = true := by
  obtain ⟨d, ds, hd, _, heq | ⟨_, _, heq, _⟩⟩ := mem_number.mp h
  · exact (List.cons.inj heq).1 ▸ hd
  · exact (List.cons.inj heq).1 ▸ hd

theorem first_of_quoted {q : Char} (h : c :: w ∈ quotedBy q) : c = q := by
  obtain ⟨_, heq, _⟩ := mem_quotedBy.mp h
  exact (List.cons.inj heq).1

/-- The words that begin with a character and are a word of some rule. The first character alone
tells numbers, names, texts and symbols apart. -/
def WordAt (c : Char) (w : List Char) : Prop :=
  if c.isDigit then c :: w ∈ TokenRule.number.language
  else if isNameStart c then c :: w ∈ TokenRule.name.language
  else if c = '"' || c = '\'' then c :: w ∈ quotedBy c
  else ∃ s : Symbol, s.text.toList = c :: w

theorem wordAt_of_name (h : c :: w ∈ TokenRule.name.language) : WordAt c w := by
  obtain ⟨hdigit, hstart⟩ := first_of_name h
  rw [WordAt, if_neg hdigit, if_pos hstart]
  exact h

theorem wordAt_of_mem {rule : TokenRule} (h : c :: w ∈ rule.language) : WordAt c w := by
  cases rule with
  | keyword k =>
      apply wordAt_of_name
      rw [show c :: w = k.text.toList from h]
      exact k.isName_text
  | name => exact wordAt_of_name h
  | symbol s =>
      obtain ⟨hdigit, hstart, hquote⟩ := s.first_of_text (show s.text.toList = c :: w from h.symm)
      simp only [WordAt, hdigit, hstart, hquote, Bool.false_eq_true, if_false]
      exact ⟨s, h.symm⟩
  | number =>
      rw [WordAt, if_pos (first_of_number h)]
      exact h
  | doubleQuoted | singleQuoted =>
      obtain rfl := first_of_quoted h
      exact h

theorem TokenRule.nil_not_mem (rule : TokenRule) : [] ∉ rule.language := by
  intro h
  cases rule with
  | keyword k =>
      obtain ⟨_, _, heq, _⟩ := mem_name.mp k.isName_text
      exact List.cons_ne_nil _ _ (heq.symm.trans (show [] = k.text.toList from h).symm)
  | name =>
      obtain ⟨_, _, heq, _⟩ := mem_name.mp h
      cases heq
  | symbol s =>
      have hne : s.text.toList ≠ [] := by cases s <;> decide
      exact hne h.symm
  | number =>
      obtain ⟨_, _, _, _, heq | ⟨_, _, heq, _⟩⟩ := mem_number.mp h <;> cases heq
  | doubleQuoted | singleQuoted =>
      obtain ⟨_, heq, _⟩ := mem_quotedBy.mp h
      cases heq

theorem SkipRule.first_of_mem {rule : SkipRule} (h : w ∈ rule.language) :
    ∃ c cs, w = c :: cs ∧ (isSpace c = true ∨ c = '#') := by
  cases rule with
  | blanks =>
      obtain ⟨c, cs, rfl, hc, _⟩ := mem_oneOf_mul.mp h
      exact ⟨c, cs, rfl, Or.inl hc⟩
  | comment =>
      obtain ⟨cs, rfl, _⟩ := mem_single_mul.mp h
      exact ⟨'#', cs, rfl, Or.inr rfl⟩

end FirstCharacter

end ScriptLang
