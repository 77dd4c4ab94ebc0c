import Mathlib
import ScriptLang.Number.Text

/-!
# Decimal numerals

A numeral is a number as it is written: a sign, digits, and if they are there a point with
more digits and an exponent. It stands for a rational number. A text is read as a numeral
without loss, so what a text says of a number does not depend on who wrote it
(`Numeral.read?_text`).

Zeros at the end of a fraction can be dropped, and with the last digit the point; this
changes the numeral and not its value.
-/

namespace ScriptLang

/-- The exponent of a numeral. -/
structure Exponent where
  /-- Whether the sign is a minus, if there is a sign. -/
  minus : Option Bool
  digits : List Char

/-- A number as it is written. -/
structure Numeral where
  negative : Bool
  whole : List Char
  /-- The digits behind the point, if there is a point. -/
  fraction : Option (List Char)
  exponent : Option Exponent

namespace Exponent

def value (e : Exponent) : ℤ :=
  if e.minus = some true then -(Nat.ofDigitChars 10 e.digits 0 : ℤ)
  else Nat.ofDigitChars 10 e.digits 0

def text (e : Exponent) : List Char :=
  'e' :: (e.minus.elim [] fun minus => [if minus then '-' else '+']) ++ e.digits

end Exponent

namespace Numeral

/-- The power of ten that the exponent stands for. -/
def power (n : Numeral) : ℤ := n.exponent.elim 0 Exponent.value

/-- The number that a numeral stands for. -/
def value (n : Numeral) : ℚ :=
  (if n.negative then -1 else 1) * Nat.ofDigitChars 10 (n.whole ++ n.fraction.getD []) 0 *
    10 ^ (n.power - (n.fraction.getD []).length)

def text (n : Numeral) : List Char :=
  (if n.negative then ['-'] else []) ++
    (n.whole ++ (n.fraction.elim [] ('.' :: ·) ++ n.exponent.elim [] Exponent.text))

/-! ## Reading -/

/-- Digits up to the end of a text, at least one. -/
def readDigits? (cs : List Char) : Option (List Char) :=
  if cs ≠ [] ∧ ∀ c ∈ cs, c.isDigit = true then some cs else none

/-- The exponent at the end of a text, if there is one. -/
def readExponent? : List Char → Option (Option Exponent)
  | [] => some none
  | 'e' :: '-' :: cs => (readDigits? cs).map fun ds => some ⟨some true, ds⟩
  | 'e' :: '+' :: cs => (readDigits? cs).map fun ds => some ⟨some false, ds⟩
  | 'e' :: cs => (readDigits? cs).map fun ds => some ⟨none, ds⟩
  | _ => none

/-- The digits behind a point, if there is one, and what follows. -/
def readFraction : List Char → Option (List Char) × List Char
  | '.' :: cs => (some (cs.takeWhile Char.isDigit), cs.dropWhile Char.isDigit)
  | cs => (none, cs)

def readUnsigned? (negative : Bool) (cs : List Char) : Option Numeral :=
  let whole := cs.takeWhile Char.isDigit
  let (fraction, rest) := readFraction (cs.dropWhile Char.isDigit)
  if whole = [] then none
  else (readExponent? rest).map fun exponent => ⟨negative, whole, fraction, exponent⟩

/-- The numeral of a text; `none` if the text is not a numeral. -/
def read? : List Char → Option Numeral
  | '-' :: cs => readUnsigned? true cs
  | cs => readUnsigned? false cs

/-- All parts hold digits only, and those that must not be empty are not. -/
structure WellFormed (n : Numeral) : Prop where
  whole_ne : n.whole ≠ []
  whole : ∀ c ∈ n.whole, c.isDigit = true
  fraction : ∀ ds ∈ n.fraction, ∀ c ∈ ds, c.isDigit = true
  exponent_ne : ∀ e ∈ n.exponent, e.digits ≠ []
  exponent : ∀ e ∈ n.exponent, ∀ c ∈ e.digits, c.isDigit = true

section Read

variable {n : Numeral} {ds rest : List Char}

/-- Digits are read up to the first character that is none. -/
theorem takeWhile_digits (hds : ∀ c ∈ ds, c.isDigit = true)
    (hrest : ∀ c ∈ rest.head?, c.isDigit = false) :
    (ds ++ rest).takeWhile Char.isDigit = ds ∧ (ds ++ rest).dropWhile Char.isDigit = rest := by
  rw [List.takeWhile_append_of_pos hds, List.dropWhile_append_of_pos hds]
  cases rest with
  | nil => simp
  | cons c rest => simp [hrest c rfl]

theorem head?_exponent_text (e : Option Exponent) :
    ∀ c ∈ (e.elim [] Exponent.text).head?, c = 'e' := by
  cases e with
  | none =>
      rintro c ⟨⟩
  | some e =>
      rintro c ⟨⟩
      rfl

theorem readExponent?_text {e : Exponent} (hne : e.digits ≠ [])
    (hds : ∀ c ∈ e.digits, c.isDigit = true) : readExponent? e.text = some (some e) := by
  rcases e with ⟨minus, ds⟩
  have hread : readDigits? ds = some ds := if_pos ⟨hne, hds⟩
  rcases minus with _ | _ | _
  · -- without a sign the first digit follows the mark
    rcases ds with _ | ⟨c, ds⟩
    · exact absurd rfl hne
    · have hc := hds c List.mem_cons_self
      show readExponent? ('e' :: c :: ds) = _
      unfold readExponent?
      split
      · rename_i heq
        cases heq
      · rename_i heq
        cases heq
        exact absurd hc (by decide)
      · rename_i heq
        cases heq
        exact absurd hc (by decide)
      · rename_i heq
        cases heq
        rw [hread]
        rfl
      · rename_i hnot
        exact absurd rfl (hnot _)
  · show (readDigits? ds).map _ = _
    rw [hread]
    rfl
  · show (readDigits? ds).map _ = _
    rw [hread]
    rfl

theorem readExponent?_elim (h : n.WellFormed) :
    readExponent? (n.exponent.elim [] Exponent.text) = some n.exponent := by
  cases he : n.exponent with
  | none => rfl
  | some e => exact readExponent?_text (h.exponent_ne e he) (h.exponent e he)

theorem readFraction_text (h : n.WellFormed) :
    readFraction (n.fraction.elim [] ('.' :: ·) ++ n.exponent.elim [] Exponent.text) =
      (n.fraction, n.exponent.elim [] Exponent.text) := by
  have hmark := head?_exponent_text n.exponent
  cases hf : n.fraction with
  | none =>
      rw [Option.elim_none, List.nil_append]
      unfold readFraction
      split
      · rename_i heq
        rw [heq] at hmark
        exact absurd (hmark '.' rfl) (by decide)
      · rfl
  | some ds =>
      have hdigits := takeWhile_digits (h.fraction ds hf) fun c hc => by rw [hmark c hc]; rfl
      rw [Option.elim_some, List.cons_append, readFraction, hdigits.1, hdigits.2]

/-- The digits before the point end where the point or the exponent begins. -/
theorem head?_behind (n : Numeral) :
    ∀ c ∈ (n.fraction.elim [] ('.' :: ·) ++ n.exponent.elim [] Exponent.text).head?,
      c.isDigit = false := by
  rintro c hc
  cases hf : n.fraction with
  | none =>
      rw [hf, Option.elim_none, List.nil_append] at hc
      rw [head?_exponent_text _ c hc]
      rfl
  | some ds =>
      rw [hf] at hc
      cases hc
      rfl

theorem readUnsigned?_text (h : n.WellFormed) (negative : Bool) :
    readUnsigned? negative
      (n.whole ++ (n.fraction.elim [] ('.' :: ·) ++ n.exponent.elim [] Exponent.text)) =
      some { n with negative } := by
  have hdigits := takeWhile_digits h.whole n.head?_behind
  unfold readUnsigned?
  rw [hdigits.1, hdigits.2, readFraction_text h]
  dsimp only
  rw [if_neg h.whole_ne, readExponent?_elim h]
  rfl

/-- What is written is read again. -/
theorem read?_text (h : n.WellFormed) : read? n.text = some n := by
  have hread := readUnsigned?_text h n.negative
  unfold text
  cases hn : n.negative with
  | true =>
      rw [hn] at hread
      rw [if_pos rfl, List.singleton_append, read?, hread, ← hn]
  | false =>
      rw [hn] at hread
      rw [if_neg Bool.false_ne_true, List.nil_append]
      -- a text that begins with a digit has no sign
      unfold read?
      split
      · rename_i heq
        obtain ⟨c, cs, hcs⟩ := List.exists_cons_of_ne_nil h.whole_ne
        rw [hcs] at heq
        cases heq
        exact absurd (h.whole '-' (by rw [hcs]; exact List.mem_cons_self)) (by decide)
      · rw [hread, ← hn]

end Read

/-! ## Zeros at the end -/

/-- The fraction does not end in a zero, and there is no point without a digit behind it. -/
structure Trimmed (n : Numeral) : Prop where
  point : n.fraction ≠ some []
  zeros : ∀ ds ∈ n.fraction, ds.getLast? ≠ some '0'

/-- The digits behind the point without zeros at the end; the point goes with the last of them. -/
def trimmed? (ds : List Char) : Option (List Char) :=
  if (Number.trimZeros ds).isEmpty then none else some (Number.trimZeros ds)

theorem getD_trimmed? (ds : List Char) : (trimmed? ds).getD [] = Number.trimZeros ds := by
  unfold trimmed?
  split_ifs with h
  · exact (List.isEmpty_iff.mp h).symm
  · rfl

theorem withFraction_eq (whole ds : List Char) :
    Number.withFraction whole (Number.trimZeros ds) =
      whole ++ (trimmed? ds).elim [] ('.' :: ·) := by
  unfold Number.withFraction trimmed?
  split_ifs
  · exact (List.append_nil whole).symm
  · rfl

/-- Zeros only are dropped. -/
theorem exists_trimZeros_append (ds : List Char) :
    ∃ k, ds = Number.trimZeros ds ++ List.replicate k '0' := by
  have hsplit : ds.rdropWhile (· = '0') ++ ds.rtakeWhile (· = '0') = ds := by
    rw [List.rdropWhile, List.rtakeWhile, ← List.reverse_append, List.takeWhile_append_dropWhile,
      List.reverse_reverse]
  have hzeros : ds.rtakeWhile (· = '0') = List.replicate (ds.rtakeWhile (· = '0')).length '0' := by
    refine List.eq_replicate_of_mem ?_
    intro c hc
    simpa using List.mem_rtakeWhile_imp hc
  exact ⟨_, (hzeros ▸ hsplit).symm⟩

theorem mem_of_mem_trimZeros {ds : List Char} {c : Char} (h : c ∈ Number.trimZeros ds) :
    c ∈ ds :=
  (List.rdropWhile_prefix (· = '0') ds).mem h

theorem getLast?_trimZeros (ds : List Char) : (Number.trimZeros ds).getLast? ≠ some '0' := by
  intro h
  have hne : Number.trimZeros ds ≠ [] := by
    rintro hnil
    rw [hnil] at h
    cases h
  rw [List.getLast?_eq_some_getLast hne, Option.some.injEq] at h
  exact List.rdropWhile_last_not (· = '0') ds hne (decide_eq_true h)

/-- A numeral whose fraction has been trimmed. -/
def trim (negative : Bool) (whole ds : List Char) (exponent : Option Exponent) : Numeral :=
  ⟨negative, whole, trimmed? ds, exponent⟩

section Trim

variable {negative : Bool} {whole ds : List Char} {exponent : Option Exponent}

theorem trimmed_trim : (trim negative whole ds exponent).Trimmed := by
  constructor
  · show trimmed? ds ≠ some []
    unfold trimmed?
    split_ifs with h
    · rintro ⟨⟩
    · intro heq
      rw [Option.some.injEq] at heq
      exact h (List.isEmpty_iff.mpr heq)
  · intro fs hfs
    have hfs : trimmed? ds = some fs := hfs
    unfold trimmed? at hfs
    split_ifs at hfs
    rw [← Option.some.inj hfs]
    exact getLast?_trimZeros ds

theorem wellFormed_trim (hne : whole ≠ []) (hwhole : ∀ c ∈ whole, c.isDigit = true)
    (hds : ∀ c ∈ ds, c.isDigit = true) (hene : ∀ e ∈ exponent, e.digits ≠ [])
    (he : ∀ e ∈ exponent, ∀ c ∈ e.digits, c.isDigit = true) :
    (trim negative whole ds exponent).WellFormed := by
  refine ⟨hne, hwhole, ?_, hene, he⟩
  intro fs hfs c hc
  have hget : (trimmed? ds).getD [] = fs := by
    rw [show trimmed? ds = some fs from hfs, Option.getD_some]
  rw [← hget, getD_trimmed?] at hc
  exact hds c (mem_of_mem_trimZeros hc)

/-- The zeros that are dropped do not count. -/
theorem value_trim : (trim negative whole ds exponent).value =
    (if negative then -1 else 1) * Nat.ofDigitChars 10 (whole ++ ds) 0 *
      10 ^ (exponent.elim 0 Exponent.value - ds.length) := by
  obtain ⟨k, hk⟩ := exists_trimZeros_append ds
  have hdigits : Nat.ofDigitChars 10 (whole ++ ds) 0 =
      10 ^ k * Nat.ofDigitChars 10 (whole ++ Number.trimZeros ds) 0 := by
    conv_lhs => rw [hk, ← List.append_assoc]
    rw [Nat.ofDigitChars_append, Nat.ofDigitChars_replicate_zero]
  have hlength : (ds.length : ℤ) = (Number.trimZeros ds).length + k := by
    have := congrArg List.length hk
    rw [List.length_append, List.length_replicate] at this
    exact_mod_cast this
  have hzeros : (10 : ℚ) ^ (exponent.elim 0 Exponent.value - ((Number.trimZeros ds).length : ℤ)) =
      10 ^ k * 10 ^ (exponent.elim 0 Exponent.value - (ds.length : ℤ)) := by
    rw [← zpow_natCast, ← zpow_add₀ (by norm_num), hlength]
    congr 1
    ring
  rw [value, power, trim, getD_trimmed?, hzeros, hdigits]
  push_cast
  ring

end Trim

end Numeral

end ScriptLang
