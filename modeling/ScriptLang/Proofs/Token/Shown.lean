import Mathlib
import ScriptLang.Proofs.Number.Shortest
import ScriptLang.Proofs.Token.Literal

/-!
# Tokens are read back from their texts

The text that messages show of a token spells it, if the token can be had from a text at all.
Each kind of token has its reason for that:

- keywords, symbols and names are their own texts,
- the escapes between quotes are those that the scanner resolves (`piece_quotedChar`),
- the digits of a number are enough to read it back (`spelled_inMessage`).

Words that spell tokens are scanned one by one if blanks stand between them, so the texts of
tokens give the tokens again (`scan_rendered`).
-/

namespace ScriptLang

namespace Token

/-! ## Texts -/

/-- The character is written between quotes as itself or as one of the escapes that the scanner
resolves. -/
def LegibleChar (c : Char) : Prop :=
  Text.quotedChar c ∈
    [[c], ['\\', '"'], ['\\', '\\'], ['\\', 'n'], ['\\', 'r'], ['\\', 't'], ['\\', '0']]

instance (c : Char) : Decidable (LegibleChar c) := inferInstanceAs (Decidable (_ ∈ _))

theorem piece_quotedChar {c : Char} (h : LegibleChar c) : Piece '"' c (Text.quotedChar c) := by
  unfold LegibleChar at h
  unfold Text.quotedChar at h ⊢
  split_ifs at h ⊢ with hquote hbackslash hn hr ht hzero
  · exact .escape (by rw [hquote]; rfl)
  · exact .escape (by rw [hbackslash]; rfl)
  · exact .escape (by rw [hn]; rfl)
  · exact .escape (by rw [hr]; rfl)
  · exact .escape (by rw [ht]; rfl)
  · refine .escape ?_
    show [Char.ofNat 0] = [c]
    rw [← hzero, Char.ofNat_toNat]
  · exact .plain hquote hbackslash
  · simp at h

theorem spelled_quoted {s : String} (h : ∀ c ∈ s.toList, LegibleChar c) :
    Spelled (Text.quoted s).toList (text s) := by
  have hpieces : ∀ c ∈ s.toList, Piece '"' c (Text.quotedChar c) := fun c hc =>
    piece_quotedChar (h c hc)
  have hspelled := spelled_pieces (Or.inl rfl) hpieces
  rw [String.ofList_toList] at hspelled
  rw [Text.quoted, String.toList_ofList]
  exact hspelled

/-! ## Numbers -/

section Numbers

variable {n : Numeral} (h : n.WellFormed) (hsign : n.negative = false) (hexp : n.exponent = none)

section Plain

include hsign hexp

theorem text_of_plain : n.text = n.whole ++ n.fraction.elim [] ('.' :: ·) := by
  simp [Numeral.text, hsign, hexp]

theorem value_of_plain : n.value =
    Nat.ofDigitChars 10 (n.whole ++ n.fraction.getD []) 0 / 10 ^ (n.fraction.getD []).length := by
  rw [Numeral.value, Numeral.power, hsign, hexp, if_neg Bool.false_ne_true, one_mul,
    Option.elim_none, zero_sub, zpow_neg, zpow_natCast, div_eq_mul_inv]

end Plain

include h hsign hexp

/-- A number takes all of a numeral that has no sign and no exponent. -/
theorem number_text (hpoint : n.fraction ≠ some []) : n.text ∈ TokenRule.number.language := by
  obtain ⟨c, cs, hwhole⟩ := List.exists_cons_of_ne_nil h.whole_ne
  have hdigits := h.whole
  rw [hwhole, List.forall_mem_cons] at hdigits
  rw [text_of_plain hsign hexp, hwhole, mem_number]
  refine ⟨c, cs, hdigits.1, hdigits.2, ?_⟩
  rcases hf : n.fraction with _ | _ | ⟨d, ds⟩
  · exact Or.inl (List.append_nil _)
  · exact absurd hf hpoint
  · have hfraction := h.fraction _ hf
    rw [List.forall_mem_cons] at hfraction
    exact Or.inr ⟨d, ds, rfl, hfraction.1, hfraction.2⟩

/-- A numeral is read as the double of its digits. -/
theorem numberValue_text : numberValue n.text =
    Float.ofScientific (Nat.ofDigitChars 10 (n.whole ++ n.fraction.getD []) 0) true
      (n.fraction.getD []).length := by
  have hbehind := n.head?_behind
  rw [hexp, Option.elim_none, List.append_nil] at hbehind
  have hdrop : (n.fraction.elim [] ('.' :: ·)).drop 1 = n.fraction.getD [] := by
    cases n.fraction <;> rfl
  obtain ⟨htake, hrest⟩ := Numeral.takeWhile_digits h.whole hbehind
  rw [text_of_plain hsign hexp, numberValue, htake, hrest, hdrop]
  rfl

end Numbers

open Number

/-- The text of a number is read back: no other double is nearer to its digits. -/
theorem spelled_inMessage {x : Float} {d : Dyadic} (hx : magnitude x = .finite d)
    (hsign : d.negative = false) : Spelled (inMessage.write x).toList (number x) := by
  rcases Nat.eq_zero_or_pos d.mantissa with hzero | hpos
  · rw [toList_inMessage_zero hx hzero, hsign]
    refine ⟨mem_number.mpr ⟨'0', [], rfl, List.forall_mem_nil _, Or.inl rfl⟩, ?_⟩
    exact (ofScientific_zero hx hsign hzero).symm
  · obtain ⟨hlt, -⟩ := ofBits_finite (magnitude_eq_ofBits x ▸ hx)
    obtain ⟨hfull, hnear⟩ := Dyadic.shortest_near .away hpos hlt
    rw [toList_inMessage hx hpos.ne', hsign]
    have hformed := hfull.wellFormed_plain false
    refine ⟨number_text hformed rfl rfl Numeral.trimmed_trim.point, ?_⟩
    have hvalue := hfull.value_plain false
    rw [value_of_plain rfl rfl, if_neg Bool.false_ne_true, one_mul] at hvalue
    rw [← hvalue] at hnear
    rw [numberValue_text hformed rfl rfl, ofScientific_eq hx hsign hpos hnear]

/-! ## All tokens -/

/-- What can be read back: a name that is a word of the name rule and no keyword, a number that is
finite and not negative, a text of legible characters, and every keyword and symbol. -/
def Legible : Token → Prop
  | keyword _ => True
  | symbol _ => True
  | number n => ∃ d, magnitude n = .finite d ∧ d.negative = false
  | text s => ∀ c ∈ s.toList, LegibleChar c
  | name s => s.toList ∈ TokenRule.name.language ∧ ∀ k : Keyword, k.text ≠ s

theorem spelled_render {t : Token} (h : Legible t) : Spelled t.render.toList t := by
  cases t with
  | keyword k => rfl
  | symbol s => rfl
  | number n =>
      obtain ⟨d, hd, hsign⟩ := h
      exact spelled_inMessage hd hsign
  | text s => exact spelled_quoted h
  | name s =>
      refine ⟨h.1, (String.ofList_toList).symm, fun k hk => h.2 k ?_⟩
      exact (String.toList_inj.mp hk).symm

/-- **Shown tokens are read back.** The texts that messages show of tokens, with single blanks
between them, are scanned as the same tokens. -/
theorem scan_rendered {ts : List Token} (h : ∀ t ∈ ts, Legible t) :
    (scan (" ".intercalate (ts.map render))).map (List.map Prod.fst) = .ok ts := by
  obtain ⟨tokens, hscan, hmap⟩ := scanFrom_words (fun t ht => spelled_render (h t ht)) 0
  have hlist : (" ".intercalate (ts.map render)).toList =
      [' '].intercalate (ts.map fun t => t.render.toList) := by
    rw [String.toList_intercalate, List.map_map]
    rfl
  rw [scan, hlist, hscan]
  exact congrArg Except.ok hmap

/-- A name that begins with a keyword, symbols that make up another one, a point behind a number,
a number with many zeros, and a text with quotes, a backslash and escapes. -/
def mixed : List Token :=
  [.name "iffy", .keyword .ifKw, .symbol .minus, .symbol .gt, .symbol .arrow,
    .number (Float.ofBits 0x3FB999999999999A), .symbol .dot,
    .number (Float.ofBits 0x44B52D02C7E14AF6), .number 0.0, .text "it's \"\\\n\x00"]

theorem scan_rendered_mixed :
    (∀ t ∈ mixed, Legible t) ∧
      " ".intercalate (mixed.map render) =
        "iffy if - > -> 0.1 . 100000000000000000000000 0 \"it's \\\"\\\\\\n\\0\"" ∧
      (scan "iffy if - > -> 0.1 . 100000000000000000000000 0 \"it's \\\"\\\\\\n\\0\"").map
        (List.map Prod.fst) = .ok mixed := by
  have hlegible : ∀ t ∈ mixed, Legible t := by
    simp only [mixed, List.forall_mem_cons, List.not_mem_nil, false_imp_iff, implies_true,
      and_true]
    refine ⟨⟨?_, ?_⟩, trivial, trivial, trivial, trivial,
      ⟨⟨false, 7205759403792794, -56⟩, by decide +kernel, rfl⟩, trivial,
      ⟨⟨false, 5960464477539062, 24⟩, by decide +kernel, rfl⟩,
      ⟨⟨false, 0, -1074⟩, by decide +kernel, rfl⟩, ?_⟩
    · exact mem_name.mpr ⟨'i', ['f', 'f', 'y'], rfl, rfl, List.all_eq_true.mp rfl⟩
    · intro k
      cases k <;> decide
    · have hall : ("it's \"\\\n\x00".toList.all fun c => decide (LegibleChar c)) = true := by
        decide +kernel
      exact fun c hc => of_decide_eq_true (List.all_eq_true.mp hall c hc)
  have htext : " ".intercalate (mixed.map render) =
      "iffy if - > -> 0.1 . 100000000000000000000000 0 \"it's \\\"\\\\\\n\\0\"" := by decide +kernel
  exact ⟨hlegible, htext, htext ▸ scan_rendered hlegible⟩

end Token

end ScriptLang
