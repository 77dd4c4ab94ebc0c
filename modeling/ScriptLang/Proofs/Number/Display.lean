import Mathlib
import ScriptLang.Proofs.Number.Exact
import ScriptLang.Proofs.Number.Significant
import ScriptLang.Proofs.Number.Numeral

/-!
# Printed numbers

The text of a finite double is a numeral. A whole number of 32 bits is printed in full,
any other number rounded to six significant digits, without zeros at the end.

Both notations cut one row of digits in two: behind the leading digit if an exponent
follows, behind the digit of the ones otherwise. The second row can also be had by rounding
to a number of decimals that the first rounding determines, and a carry in the first
rounding does not make a difference (`RoundsTo.positional_eq_fixed`).
-/

namespace ScriptLang

namespace Number

/-! ## Rows of digits -/

/-- The digits of a number, with zeros before them if there are fewer than `count`. -/
def padded (count n : ℕ) : List Char :=
  List.replicate (count - (Nat.toDigits 10 n).length) '0' ++ Nat.toDigits 10 n

theorem isDigit_of_mem_padded {count n : ℕ} {c : Char} (h : c ∈ padded count n) :
    c.isDigit = true := by
  rcases List.mem_append.mp h with h | h
  · rw [(List.mem_replicate.mp h).2]
    rfl
  · exact Nat.isDigit_of_mem_toDigits (by decide) (by decide) h

theorem ofDigitChars_padded (count n : ℕ) : Nat.ofDigitChars 10 (padded count n) 0 = n := by
  rw [padded, Nat.ofDigitChars_append, Nat.ofDigitChars_replicate_zero, mul_zero,
    Nat.ofDigitChars_toDigits (by decide) (by decide)]

theorem le_length_padded (count n : ℕ) : count ≤ (padded count n).length := by
  rw [padded, List.length_append, List.length_replicate]
  exact Nat.sub_le_iff_le_add.mp le_rfl

/-- One digit is always there, so two digits take one zero at most. -/
theorem padded_two (n : ℕ) :
    padded 2 n =
      if (Nat.toDigits 10 n).length < 2 then '0' :: Nat.toDigits 10 n else Nat.toDigits 10 n := by
  have hpos : 0 < (Nat.toDigits 10 n).length := List.length_pos_of_ne_nil Nat.toDigits_ne_nil
  unfold padded
  split_ifs with h
  · rw [Nat.le_antisymm (Nat.lt_succ_iff.mp h) hpos]
    rfl
  · rw [Nat.sub_eq_zero_of_le (not_lt.mp h)]
    rfl

/-- The digits of a number before the point and behind it, if the last `decimals` of them
stand behind it. -/
def pointed (decimals n : ℕ) : List Char × List Char :=
  let ds := padded (decimals + 1) n
  ds.splitAt (ds.length - decimals)

/-- A quotient rounded to so many decimals. -/
def fixed (decimals num den : ℕ) : List Char × List Char :=
  pointed decimals (roundDiv .toEven (num * 10 ^ decimals) den)

section Pointed

variable (decimals n : ℕ)

theorem pointed_append :
    (pointed decimals n).1 ++ (pointed decimals n).2 = padded (decimals + 1) n := by
  rw [pointed, List.splitAt_eq]
  exact List.take_append_drop _ _

theorem length_pointed : (pointed decimals n).2.length = decimals := by
  rw [pointed, List.splitAt_eq, List.length_drop]
  exact Nat.sub_sub_self (Nat.le_of_succ_le (le_length_padded _ n))

theorem pointed_ne_nil : (pointed decimals n).1 ≠ [] := by
  have hlength := congrArg List.length (pointed_append decimals n)
  rw [List.length_append, length_pointed] at hlength
  have := le_length_padded (decimals + 1) n
  exact List.ne_nil_of_length_pos (by omega)

end Pointed

end Number

open Number

namespace Decimal

variable {d : Decimal}

theorem Full.digits_ne_zero (h : d.Full) : d.digits ≠ 0 :=
  (lt_of_lt_of_le (Nat.pow_pos (by decide)) h.le_digits).ne'

theorem Full.length_toDigits (h : d.Full) : (Nat.toDigits 10 d.digits).length = d.count := by
  have hcount := h.count_pos
  have hne := h.digits_ne_zero
  have hlow := pow_digitCount_le hne
  have hhigh := lt_pow_digitCount d.digits
  rw [digitCount, if_neg hne] at hlow hhigh
  have hge : d.count - 1 < (Nat.toDigits 10 d.digits).length :=
    (Nat.pow_lt_pow_iff_right (by decide)).mp (h.le_digits.trans_lt hhigh)
  have hle : (Nat.toDigits 10 d.digits).length - 1 < d.count :=
    (Nat.pow_lt_pow_iff_right (by decide)).mp (hlow.trans_lt h.digits_lt)
  omega

/-- A row that is long enough has no zeros before it. -/
theorem Full.padded_of_le (h : d.Full) {count : ℕ} (hle : count ≤ d.count) :
    padded count d.digits = Nat.toDigits 10 d.digits := by
  rw [padded, h.length_toDigits, Nat.sub_eq_zero_of_le hle]
  rfl

theorem Full.digitText_eq (h : d.Full) : d.digitText = Nat.toDigits 10 d.digits :=
  h.padded_of_le le_rfl

/-! ## The two notations -/

/-- The leading digit stands before the point. -/
theorem Full.normalised_eq (h : d.Full) : normalised d = pointed (d.count - 1) d.digits := by
  have hcount := h.count_pos
  rw [normalised, pointed, h.padded_of_le (by omega), h.digitText_eq, h.length_toDigits,
    List.splitAt_eq, Nat.sub_sub_self hcount]

/-- The last digit is so many places behind the point as the leading one leaves. -/
theorem Full.positional_eq (h : d.Full) (he : d.exponent < d.count) :
    positional d = pointed (d.count - 1 - d.exponent).toNat d.digits := by
  have hcount := h.count_pos
  have hlength := h.length_toDigits
  unfold positional
  rw [h.digitText_eq]
  dsimp only
  split_ifs with hneg
  · -- zeros up to the leading digit, the first of them before the point
    obtain ⟨k, hk⟩ : ∃ k : ℕ, d.exponent = -(k + 1 : ℕ) :=
      ⟨(-d.exponent).toNat - 1, by omega⟩
    have hdecimals : (d.count - 1 - d.exponent).toNat = d.count + k := by omega
    have hzeros : d.count + k + 1 - d.count = k + 1 := by omega
    have hplace : (padded (d.count + k + 1) d.digits).length - (d.count + k) = 1 := by
      rw [padded, List.length_append, List.length_replicate, hlength]
      omega
    rw [hdecimals, pointed, hplace, padded, hlength, hzeros, List.splitAt_eq, hk, neg_neg,
      Int.toNat_natCast, Nat.add_sub_cancel]
    rfl
  · obtain ⟨k, hk⟩ := Int.eq_ofNat_of_zero_le (not_lt.mp hneg)
    have hdecimals : (d.count - 1 - d.exponent).toNat = d.count - 1 - k := by omega
    have hplace : d.count - (d.count - 1 - k) = k + 1 := by omega
    rw [hdecimals, pointed, h.padded_of_le (by omega), List.splitAt_eq, hlength, hplace, hk,
      Int.toNat_natCast, Nat.sub_eq_zero_of_le (by omega), List.replicate_zero, List.append_nil]

end Decimal

namespace Number

/-- Rounding anew, to as many decimals as the exponent leaves, gives the same digits. -/
theorem RoundsTo.positional_eq_fixed {num den count : ℕ} {d : Decimal}
    (h : RoundsTo count ((num : ℚ) / den) d) (hden : 0 < den) (he : d.exponent < count) :
    positional d = fixed (count - 1 - d.exponent).toNat num den := by
  have hcount := h.count_eq
  obtain ⟨k, hk⟩ := Int.eq_ofNat_of_zero_le (by omega : 0 ≤ (count : ℤ) - 1 - d.exponent)
  have hunit : d.exponent - count + 1 = -(k : ℤ) := by omega
  have hdigits : (roundDiv .toEven (num * 10 ^ k) den : ℤ) = d.digits := by
    rw [← halfEven_div _ hden, ← h.again, hunit, zpow_neg, zpow_natCast, div_inv_eq_mul]
    congr 1
    push_cast
    ring
  rw [h.full.positional_eq (hcount ▸ he), hcount, hk, fixed, Int.toNat_natCast,
    Int.ofNat_inj.mp hdigits]

end Number

namespace Numeral

variable {negative : Bool} {decimals n : ℕ} {exponent : Option Exponent}

theorem value_trim_pointed :
    (trim negative (pointed decimals n).1 (pointed decimals n).2 exponent).value =
      (if negative then -1 else 1) * n * 10 ^ (exponent.elim 0 Exponent.value - decimals) := by
  rw [value_trim, pointed_append, ofDigitChars_padded, length_pointed]

theorem wellFormed_trim_pointed (hne : ∀ e ∈ exponent, e.digits ≠ [])
    (he : ∀ e ∈ exponent, ∀ c ∈ e.digits, c.isDigit = true) :
    (trim negative (pointed decimals n).1 (pointed decimals n).2 exponent).WellFormed := by
  have hdigits : ∀ c ∈ (pointed decimals n).1 ++ (pointed decimals n).2, c.isDigit = true := by
    intro c hc
    rw [pointed_append] at hc
    exact isDigit_of_mem_padded hc
  refine wellFormed_trim (pointed_ne_nil decimals n) ?_ ?_ hne he
  · intro c hc
    exact hdigits c (List.mem_append_left _ hc)
  · intro c hc
    exact hdigits c (List.mem_append_right _ hc)

end Numeral

namespace Decimal

/-- The exponent as it is written, with a sign and two digits or more. -/
def written (d : Decimal) : Exponent := ⟨some (d.exponent < 0), padded 2 d.exponent.natAbs⟩

theorem value_written (d : Decimal) : d.written.value = d.exponent := by
  simp only [written, Exponent.value, ofDigitChars_padded, Option.some.injEq, decide_eq_true_eq]
  split_ifs with h
  · exact (Int.eq_neg_natAbs_of_nonpos h.le).symm
  · exact Int.natAbs_of_nonneg (not_lt.mp h)

/-- The numeral of a decimal. The exponent is written if it is far from that of the ones. -/
def numeral (negative : Bool) (d : Decimal) : Numeral :=
  if d.exponent < -4 ∨ 6 ≤ d.exponent then
    .trim negative (normalised d).1 (normalised d).2 (some d.written)
  else .trim negative (positional d).1 (positional d).2 none

variable {d : Decimal} {negative : Bool}

theorem Full.value_positional_of_lt (h : d.Full) (he : d.exponent < d.count) :
    (Numeral.trim negative (positional d).1 (positional d).2 none).value =
      (if negative then -1 else 1) * d.value := by
  have hunit : (0 : ℤ) - ((d.count - 1 - d.exponent).toNat : ℤ) = d.exponent - d.count + 1 := by
    omega
  rw [h.positional_eq he, Numeral.value_trim_pointed, Option.elim_none, hunit, mul_assoc, value]

/-- It stands for the same number in either notation. -/
theorem Full.value_numeral (h : d.Full) (hsix : d.count = 6) :
    (d.numeral negative).value = (if negative then -1 else 1) * d.value := by
  have hcount := h.count_pos
  unfold numeral
  by_cases hfar : d.exponent < -4 ∨ 6 ≤ d.exponent
  · have hunit : d.exponent - ((d.count - 1 : ℕ) : ℤ) = d.exponent - d.count + 1 := by omega
    rw [if_pos hfar, h.normalised_eq, Numeral.value_trim_pointed, Option.elim_some, value_written,
      hunit, mul_assoc, value]
  · rw [if_neg hfar, h.value_positional_of_lt (by omega)]

theorem Full.wellFormed_numeral (h : d.Full) (hsix : d.count = 6) :
    (d.numeral negative).WellFormed := by
  unfold numeral
  split_ifs with hfar
  · rw [h.normalised_eq]
    refine Numeral.wellFormed_trim_pointed ?_ ?_
    · rintro e ⟨⟩
      exact List.ne_nil_of_length_pos (lt_of_lt_of_le (by decide) (le_length_padded 2 _))
    · rintro e ⟨⟩ c hc
      exact isDigit_of_mem_padded hc
  · rw [h.positional_eq (by omega)]
    refine Numeral.wellFormed_trim_pointed ?_ ?_
    · rintro e ⟨⟩
    · rintro e ⟨⟩

theorem trimmed_numeral (negative : Bool) (d : Decimal) : (d.numeral negative).Trimmed := by
  unfold numeral
  split_ifs
  · exact Numeral.trimmed_trim
  · exact Numeral.trimmed_trim

theorem exponent_numeral (negative : Bool) (d : Decimal) : (d.numeral negative).exponent =
    if d.exponent < -4 ∨ 6 ≤ d.exponent then some d.written else none := by
  unfold numeral
  split_ifs
  · rfl
  · rfl

end Decimal

namespace Number

/-! ## The text -/

theorem toList_signed (negative : Bool) (cs : List Char) :
    (signed negative cs).toList = (if negative then ['-'] else []) ++ cs := by
  rw [signed, String.toList_ofList]
  split_ifs
  · rfl
  · rfl

/-- Numbers other than zero are printed as the numeral of six digits. -/
theorem toList_general {x : Float} {d : Dyadic} (hx : magnitude x = .finite d)
    (hd : d.mantissa ≠ 0) :
    (general x).toList =
      ((roundSignificant 6 d.fraction.1 d.fraction.2).numeral d.negative).text := by
  unfold general Decimal.numeral
  rw [hx]
  dsimp only
  rw [if_neg hd]
  generalize roundSignificant 6 d.fraction.1 d.fraction.2 = rounded
  by_cases hfar : rounded.exponent < -4 ∨ 6 ≤ rounded.exponent
  · have hmark : (if rounded.exponent < 0 then ['e', '-'] else ['e', '+']) =
        ['e', if decide (rounded.exponent < 0) then '-' else '+'] := by
      simp only [decide_eq_true_eq]
      split_ifs <;> rfl
    rw [if_pos hfar, if_pos hfar, toList_signed, Numeral.withFraction_eq, ← padded_two, hmark,
      List.append_assoc, List.append_assoc]
    rfl
  · rw [if_neg hfar, if_neg hfar, toList_signed, Numeral.withFraction_eq]
    exact congrArg _ (congrArg _ (List.append_nil _).symm)

theorem abs_sign_mul (negative : Bool) {q : ℚ} (h : 0 ≤ q) :
    |(if negative then (-1 : ℚ) else 1) * q| = q := by
  split_ifs
  · rw [neg_one_mul, abs_neg, abs_of_nonneg h]
  · rw [one_mul, abs_of_nonneg h]

end Number

namespace Dyadic

theorem fraction_pos (d : Dyadic) : 0 < d.fraction.2 := by
  unfold fraction
  split_ifs
  · exact Nat.one_pos
  · exact Nat.pow_pos (by decide)

theorem fraction_num_pos {d : Dyadic} (h : d.mantissa ≠ 0) : 0 < d.fraction.1 := by
  unfold fraction
  split_ifs
  · exact Nat.mul_pos (Nat.pos_of_ne_zero h) (Nat.pow_pos (by decide))
  · exact Nat.pos_of_ne_zero h

theorem fraction_div (d : Dyadic) :
    (d.fraction.1 : ℚ) / d.fraction.2 = d.mantissa * 2 ^ d.exponent := by
  unfold fraction
  split_ifs with he
  · obtain ⟨k, hk⟩ := Int.eq_ofNat_of_zero_le he
    show ((d.mantissa * 2 ^ d.exponent.toNat : ℕ) : ℚ) / (1 : ℕ) = _
    rw [hk, zpow_natCast, Int.toNat_natCast]
    push_cast
    rw [div_one]
  · obtain ⟨k, hk⟩ := Int.eq_ofNat_of_zero_le (neg_nonneg.mpr (not_le.mp he).le)
    show (d.mantissa : ℚ) / ((2 ^ (-d.exponent).toNat : ℕ) : ℚ) = _
    rw [hk, ← neg_neg d.exponent, hk, zpow_neg, zpow_natCast, Int.toNat_natCast, div_eq_mul_inv]
    push_cast
    rfl

theorem toRat_eq_fraction (d : Dyadic) :
    d.toRat = (if d.negative then -1 else 1) * ((d.fraction.1 : ℚ) / d.fraction.2) := by
  rw [toRat, fraction_div]

theorem isWhole_of_toRat_eq {d : Dyadic} {z : ℤ} (h : d.toRat = z) : d.isWhole = true := by
  unfold isWhole
  by_cases he : 0 ≤ d.exponent
  · rw [decide_eq_true he, Bool.true_or]
  · obtain ⟨k, hk⟩ := Int.eq_ofNat_of_zero_le (neg_nonneg.mpr (not_le.mp he).le)
    have habs : (d.mantissa : ℚ) * 2 ^ d.exponent = z.natAbs := by
      rw [← abs_sign_mul d.negative (by positivity : (0 : ℚ) ≤ d.mantissa * 2 ^ d.exponent),
        ← toRat, h, Nat.cast_natAbs, Int.cast_abs]
    have hmantissa : d.mantissa = z.natAbs * 2 ^ k := by
      rw [← neg_neg d.exponent, hk, zpow_neg, zpow_natCast,
        mul_inv_eq_iff_eq_mul₀ (by positivity)] at habs
      exact_mod_cast habs
    rw [hk, Bool.or_eq_true, beq_iff_eq, hmantissa]
    exact Or.inr (Nat.mul_mod_left _ _)

end Dyadic

namespace Numeral

/-- An integer in full. -/
def ofInt (z : ℤ) : Numeral := ⟨z < 0, Nat.toDigits 10 z.natAbs, none, none⟩

theorem value_ofInt (z : ℤ) : (ofInt z).value = z := by
  have hdigits : Nat.ofDigitChars 10 (Nat.toDigits 10 z.natAbs) 0 = z.natAbs :=
    Nat.ofDigitChars_toDigits (by decide) (by decide)
  rw [value, power]
  simp only [ofInt, Option.getD_none, List.append_nil, hdigits, Option.elim_none, List.length_nil,
    decide_eq_true_eq, Nat.cast_zero, sub_zero, zpow_zero, mul_one]
  rw [Nat.cast_natAbs, Int.cast_abs]
  split_ifs with h
  · rw [neg_one_mul, abs_of_neg (by exact_mod_cast h), neg_neg]
  · rw [one_mul, abs_of_nonneg (by exact_mod_cast not_lt.mp h)]

theorem wellFormed_ofInt (z : ℤ) : (ofInt z).WellFormed := by
  refine ⟨Nat.toDigits_ne_nil, ?_, ?_, ?_, ?_⟩
  · intro c hc
    exact Nat.isDigit_of_mem_toDigits (by decide) (by decide) hc
  · rintro ds ⟨⟩
  · rintro e ⟨⟩
  · rintro e ⟨⟩

theorem toList_toString (z : ℤ) : (toString z).toList = (ofInt z).text := by
  show z.repr.toList = _
  rw [Int.repr_eq_if, text, ofInt]
  simp only [decide_eq_true_eq, Option.elim_none, List.append_nil]
  by_cases h : z < 0
  · rw [if_neg (not_le.mpr h), if_pos h, String.toList_append, Nat.toList_repr,
      show (-z).toNat = z.natAbs by omega]
    rfl
  · rw [if_pos (not_lt.mp h), if_neg h, Nat.toList_repr, List.nil_append,
      show z.toNat = z.natAbs by omega]

end Numeral

namespace Number

/-- A whole number that fits in 32 bits with a sign. -/
def IsShort (q : ℚ) : Prop := ∃ z : ℤ, q = z ∧ -2 ^ 31 ≤ z ∧ z < 2 ^ 31

theorem isShort_toRat (d : Dyadic) :
    (d.isWhole && leastShortInt ≤ d.truncate && d.truncate ≤ greatestShortInt) = true ↔
      IsShort d.toRat := by
  rw [Bool.and_eq_true, Bool.and_eq_true, decide_eq_true_eq, decide_eq_true_eq]
  constructor
  · rintro ⟨⟨hwhole, hlow⟩, hhigh⟩
    exact ⟨d.truncate, Dyadic.toRat_eq_truncate hwhole, hlow, Int.lt_add_one_iff.mpr hhigh⟩
  · rintro ⟨z, hz, hlow, hhigh⟩
    have htruncate : d.truncate = z := by rw [d.truncate_eq, hz, towardZero_intCast]
    rw [htruncate]
    exact ⟨⟨Dyadic.isWhole_of_toRat_eq hz, hlow⟩, Int.lt_add_one_iff.mp hhigh⟩

/-- The text of a double that is rounded to so many decimals, without zeros at the end. -/
def fixedText (decimals : ℕ) (x : Float) : String :=
  match magnitude x with
  | .finite d =>
    let (whole, fraction) := fixed decimals d.fraction.1 d.fraction.2
    signed d.negative (withFraction whole (trimZeros fraction))
  | _ => general x

end Number

/-- What a numeral of six significant digits says of a number. -/
structure Numeral.Rounds (n : Numeral) (q : ℚ) : Prop where
  value_eq : n.value = significant 6 q
  /-- Rounding to the place of the last of the six digits gives the same number. -/
  again : roundedTo (10 ^ (Int.log 10 |n.value| - 5)) q = n.value
  exponent_iff : n.exponent.isSome = true ↔
    Int.log 10 |n.value| < -4 ∨ 6 ≤ Int.log 10 |n.value|
  /-- The exponent has a sign and two digits or more, and is that of the leading digit. -/
  exponent : ∀ e ∈ n.exponent,
    e.minus.isSome = true ∧ 2 ≤ e.digits.length ∧ e.value = Int.log 10 |n.value|
  trimmed : n.Trimmed

namespace Number

/-- Rounding to the unit of the last digit gives the rounded number again. -/
theorem RoundsTo.roundedTo_eq {count : ℕ} {q : ℚ} {d : Decimal} (h : RoundsTo count q d) :
    roundedTo (10 ^ (d.exponent - count + 1)) q = d.value := by
  rw [roundedTo, h.again, Decimal.value, h.count_eq, Int.cast_natCast]

theorem RoundsTo.log_numeral {q : ℚ} {d : Decimal} (h : RoundsTo 6 q d) (negative : Bool) :
    Int.log 10 |(d.numeral negative).value| = d.exponent := by
  rw [h.full.value_numeral h.count_eq, abs_sign_mul negative h.full.value_pos.le, h.full.log_value]

theorem RoundsTo.rounds_numeral {q : ℚ} {d : Decimal} (h : RoundsTo 6 q d) (negative : Bool) :
    (d.numeral negative).Rounds ((if negative then -1 else 1) * q) := by
  have hvalue : (d.numeral negative).value = (if negative then -1 else 1) * d.value :=
    h.full.value_numeral h.count_eq
  have hlog := h.log_numeral negative
  have hunit : d.exponent - 5 = d.exponent - (6 : ℕ) + 1 := by
    push_cast
    ring
  have hexponent := d.exponent_numeral negative
  -- rounding half to even is symmetric, so the sign may be put in front before or after it
  refine ⟨?_, ?_, ?_, ?_, d.trimmed_numeral negative⟩
  · rw [hvalue, h.value_eq]
    cases negative with
    | true => simp [significant_neg]
    | false => simp
  · rw [hlog, hunit, hvalue, ← h.roundedTo_eq]
    cases negative with
    | true => simp [roundedTo_neg]
    | false => simp
  · rw [hlog, hexponent]
    split_ifs with hfar
    · exact iff_of_true rfl hfar
    · exact iff_of_false Bool.false_ne_true hfar
  · intro e he
    rw [hexponent] at he
    split_ifs at he with hfar
    · cases he
      exact ⟨rfl, le_length_padded 2 _, d.value_written.trans hlog.symm⟩
    · cases he

/-- A number that is not short is not zero, and so has a leading digit. -/
theorem mantissa_ne_zero {d : Dyadic} (h : ¬IsShort d.toRat) : d.mantissa ≠ 0 := by
  intro hzero
  refine h ⟨0, ?_, by decide, by decide⟩
  rw [Dyadic.toRat, hzero]
  simp

/-- Without an exponent, the text is that of the number rounded to a number of decimals. -/
theorem general_eq_fixedText {x : Float} {d : Dyadic} (hx : magnitude x = .finite d)
    (hd : d.mantissa ≠ 0)
    (hrounds : RoundsTo 6 ((d.fraction.1 : ℚ) / d.fraction.2)
      (roundSignificant 6 d.fraction.1 d.fraction.2))
    (hnone : ((roundSignificant 6 d.fraction.1 d.fraction.2).numeral d.negative).exponent = none) :
    general x =
      fixedText (5 - (roundSignificant 6 d.fraction.1 d.fraction.2).exponent).toNat x := by
  rw [Decimal.exponent_numeral, ite_eq_right_iff] at hnone
  have hnear := mt hnone (Option.some_ne_none _)
  have hfixed := hrounds.positional_eq_fixed d.fraction_pos (by push_cast; omega)
  unfold general fixedText
  rw [hx]
  dsimp only
  rw [if_neg hd, if_neg hnear, hfixed]
  rfl

/-- **Printed numbers are correctly rounded.** The text of a finite double is a numeral and is
read as one. A whole number of 32 bits is printed exactly, without a point and an exponent. Any
other number is printed as the number rounded to six significant digits, halfway to the even
digit. The exponent is written just for a rounded number whose leading digit stands below the
fourth place behind the point or above the sixth one before it; without it the text is the one
that rounding to the remaining decimals gives. -/
theorem render_correctly_rounded {x : Float} {q : ℚ} (hx : HasValue x q) :
    ∃ n : Numeral, (render x).toList = n.text ∧ Numeral.read? (render x).toList = some n ∧
      (IsShort q → n.value = q ∧ n.fraction = none ∧ n.exponent = none) ∧
      (¬IsShort q → n.Rounds q ∧
        (n.exponent = none → render x = fixedText (5 - Int.log 10 |n.value|).toNat x)) := by
  obtain ⟨d, hd, rfl⟩ := hx
  by_cases hshort : IsShort d.toRat
  · have hcond := (isShort_toRat d).mpr hshort
    have hwhole : d.isWhole = true := by
      rw [Bool.and_eq_true, Bool.and_eq_true] at hcond
      exact hcond.1.1
    have htext : (render x).toList = (Numeral.ofInt d.truncate).text := by
      rw [render, hd]
      dsimp only
      rw [if_pos hcond, Numeral.toList_toString]
    refine ⟨Numeral.ofInt d.truncate, htext, ?_, ?_, fun h => absurd hshort h⟩
    · rw [htext, Numeral.read?_text (Numeral.wellFormed_ofInt _)]
    · intro _
      exact ⟨by rw [Numeral.value_ofInt, Dyadic.toRat_eq_truncate hwhole], rfl, rfl⟩
  · have hcond := mt (isShort_toRat d).mp hshort
    have hrounds := roundsTo_roundSignificant (Dyadic.fraction_num_pos (mantissa_ne_zero hshort))
      d.fraction_pos 5
    have hrender : render x = general x := by
      rw [render, hd]
      exact if_neg hcond
    have htext := toList_general hd (mantissa_ne_zero hshort)
    rw [← hrender] at htext
    refine ⟨_, htext, ?_, fun h => absurd h hshort, ?_⟩
    · rw [htext, Numeral.read?_text (hrounds.full.wellFormed_numeral hrounds.count_eq)]
    · intro _
      rw [d.toRat_eq_fraction]
      refine ⟨hrounds.rounds_numeral _, ?_⟩
      intro hnone
      rw [hrender, hrounds.log_numeral]
      exact general_eq_fixedText hd (mantissa_ne_zero hshort) hrounds hnone

/-- The leading digit of `999999.5` moves when it is rounded, and the notation changes with it:
the numeral is `1e+06`. -/
theorem render_carried :
    render (Float.ofBits 0x412e847f00000000) = "1e+06" ∧
      HasValue (Float.ofBits 0x412e847f00000000) (1999999 / 2) ∧ ¬IsShort (1999999 / 2) ∧
      ∃ n, Numeral.read? "1e+06".toList = some n ∧ n.Rounds (1999999 / 2) := by
  have hrender : render (Float.ofBits 0x412e847f00000000) = "1e+06" := by decide +kernel
  have hvalue : HasValue (Float.ofBits 0x412e847f00000000) (1999999 / 2) :=
    ⟨⟨false, 8589930297032704, -33⟩, by decide +kernel, by norm_num [Dyadic.toRat]⟩
  have hshort : ¬IsShort (1999999 / 2) := by
    rintro ⟨z, hz, -⟩
    have htwice : (1999999 : ℤ) = 2 * z := by
      have : (1999999 : ℚ) = 2 * z := by linarith
      exact_mod_cast this
    omega
  obtain ⟨n, -, hread, -, hrounds⟩ := render_correctly_rounded hvalue
  rw [hrender] at hread
  exact ⟨hrender, hvalue, hshort, n, hread, (hrounds hshort).1⟩

end Number

end ScriptLang
