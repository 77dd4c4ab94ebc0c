import Mathlib
import ScriptLang.Number.Decimal

/-!
# Rounding to significant digits

A fraction is rounded to a number of significant digits on natural numbers. What comes
out is said here on rationals: the unit of the last digit is the power of ten that lies so
many digits below the leading one, and the fraction goes to the nearest multiple of it,
halfway to the even one.

The rounded number may have one digit more before the point than the fraction. Rounding
the fraction to the unit that the rounded number asks for gives the same digits again
(`RoundsTo.again`), because a fraction that is carried over is close to a power of ten.
-/

namespace ScriptLang

namespace Number

/-! ## The nearest integer -/

/-- No integer is nearer, and it is even if another one is as near. -/
def Nearest (q : ℚ) (n : ℤ) : Prop := |q - n| < 1 / 2 ∨ |q - n| = 1 / 2 ∧ Even n

/-- The nearest integer, halfway the even one. -/
def halfEven (q : ℚ) : ℤ :=
  if Int.fract q < 1 / 2 then ⌊q⌋
  else if 1 / 2 < Int.fract q then ⌊q⌋ + 1
  else if Even ⌊q⌋ then ⌊q⌋ else ⌊q⌋ + 1

theorem Nearest.abs_sub_le {q : ℚ} {n : ℤ} (h : Nearest q n) : |q - n| ≤ 1 / 2 := by
  rcases h with h | ⟨h, -⟩
  · exact h.le
  · exact h.le

theorem nearest_of_even {q : ℚ} {n : ℤ} (hn : Even n) : Nearest q n ↔ |q - n| ≤ 1 / 2 :=
  ⟨Nearest.abs_sub_le, fun h => h.lt_or_eq.imp_right (⟨·, hn⟩)⟩

theorem nearest_of_not_even {q : ℚ} {n : ℤ} (hn : ¬Even n) : Nearest q n ↔ |q - n| < 1 / 2 :=
  ⟨fun h => h.resolve_right fun heven => hn heven.2, Or.inl⟩

theorem Nearest.unique {q : ℚ} {m n : ℤ} (hm : Nearest q m) (hn : Nearest q n) : m = n := by
  by_contra hne
  have hfar : (1 : ℚ) ≤ |(m : ℚ) - n| := by
    have hint : 1 ≤ |m - n| := Int.one_le_abs (sub_ne_zero.mpr hne)
    exact_mod_cast hint
  have hsplit : |(m : ℚ) - n| ≤ |q - m| + |q - n| := by
    have := abs_sub (q - n) (q - m)
    rw [show q - n - (q - m) = (m : ℚ) - n by ring] at this
    linarith
  -- both are halfway off, so they are neighbours and not both even
  rcases hm with hm | ⟨hm, hem⟩
  · linarith [hn.abs_sub_le]
  · rcases hn with hn | ⟨hn, hen⟩
    · linarith
    · have hone : |m - n| = 1 := by
        have : |(m : ℚ) - n| = 1 := le_antisymm (by linarith) hfar
        exact_mod_cast this
      have heven : Even |m - n| := even_abs.mpr (hem.sub hen)
      rw [hone] at heven
      exact absurd heven (by decide)

theorem nearest_halfEven (q : ℚ) : Nearest q (halfEven q) := by
  have hfract : q - ⌊q⌋ = Int.fract q := rfl
  have hnonneg := Int.fract_nonneg q
  have hlt := Int.fract_lt_one q
  have hbelow : |q - (⌊q⌋ : ℤ)| = Int.fract q := by rw [hfract, abs_of_nonneg hnonneg]
  have habove : |q - ((⌊q⌋ + 1 : ℤ) : ℚ)| = 1 - Int.fract q := by
    push_cast
    rw [abs_of_nonpos (by linarith)]
    linarith
  unfold halfEven Nearest
  split_ifs with hless hmore heven
  · exact Or.inl (hbelow ▸ hless)
  · rw [habove]
    exact Or.inl (by linarith)
  · rw [hbelow]
    exact Or.inr ⟨le_antisymm (not_lt.mp hmore) (not_lt.mp hless), heven⟩
  · rw [habove]
    exact Or.inr ⟨by linarith, Int.even_add_one.mpr heven⟩

theorem Nearest.halfEven_eq {q : ℚ} {n : ℤ} (h : Nearest q n) : halfEven q = n :=
  (nearest_halfEven q).unique h

theorem halfEven_neg (q : ℚ) : halfEven (-q) = -halfEven q := by
  refine Nearest.halfEven_eq ?_
  have h := nearest_halfEven q
  rw [Nearest, Int.cast_neg, ← neg_sub', abs_neg, even_neg]
  exact h

/-- Rounding keeps to the integers on both sides. -/
theorem le_halfEven {q : ℚ} {n : ℤ} (h : (n : ℚ) ≤ q) : n ≤ halfEven q := by
  have hfloor : n ≤ ⌊q⌋ := Int.le_floor.mpr h
  unfold halfEven
  split_ifs
  · exact hfloor
  · exact hfloor.trans (Int.le_add_one le_rfl)
  · exact hfloor
  · exact hfloor.trans (Int.le_add_one le_rfl)

theorem halfEven_le {q : ℚ} {n : ℤ} (h : q ≤ n) : halfEven q ≤ n := by
  have hneg : -n ≤ halfEven (-q) := le_halfEven (by push_cast; linarith)
  rw [halfEven_neg] at hneg
  exact neg_le_neg_iff.mp hneg

/-- A quotient of natural numbers is its integer part and what the remainder gives. -/
theorem natCast_div_eq (num : ℕ) {den : ℕ} (hden : 0 < den) :
    (num : ℚ) / den = (num / den : ℕ) + ((num % den : ℕ) : ℚ) / den := by
  have hden' : (0 : ℚ) < den := by exact_mod_cast hden
  have hsplit : (num : ℚ) = den * ((num / den : ℕ) : ℚ) + ((num % den : ℕ) : ℚ) := by
    exact_mod_cast (Nat.div_add_mod num den).symm
  conv_lhs => rw [hsplit, add_div, mul_div_cancel_left₀ _ hden'.ne']

/-- Rounding a quotient of natural numbers goes to the nearest integer. -/
theorem halfEven_div (num : ℕ) {den : ℕ} (hden : 0 < den) :
    halfEven (num / den) = roundDiv .toEven num den := by
  have hden' : (0 : ℚ) < den := by exact_mod_cast hden
  have hfloor : ⌊(num : ℚ) / den⌋ = ((num / den : ℕ) : ℤ) := Rat.floor_natCast_div_natCast num den
  have hfract : Int.fract ((num : ℚ) / den) = (num % den : ℕ) / den := by
    rw [Int.fract, hfloor, Int.cast_natCast, natCast_div_eq num hden, add_sub_cancel_left]
  have hless : ((num % den : ℕ) : ℚ) / den < 1 / 2 ↔ 2 * (num % den) < den := by
    rw [div_lt_div_iff₀ hden' two_pos, one_mul, mul_comm]
    exact_mod_cast Iff.rfl
  have hmore : (1 : ℚ) / 2 < ((num % den : ℕ) : ℚ) / den ↔ den < 2 * (num % den) := by
    rw [div_lt_div_iff₀ two_pos hden', one_mul, mul_comm]
    exact_mod_cast Iff.rfl
  have heven : Even ((num / den : ℕ) : ℤ) ↔ num / den % 2 = 0 := by
    rw [Int.even_coe_nat, Nat.even_iff]
  simp only [halfEven, roundDiv, hfloor, hfract, hless, hmore, heven]
  split_ifs <;> rfl

/-! ## The leading digit -/

theorem log_eq_of_bounds {q : ℚ} {e : ℤ} (hl : (10 : ℚ) ^ e ≤ q) (hu : q < 10 ^ (e + 1)) :
    Int.log 10 q = e := by
  have hpos : 0 < q := lt_of_lt_of_le (by positivity) hl
  have hle := (Int.zpow_le_iff_le_log (b := 10) (by decide) hpos).mp (by exact_mod_cast hl)
  have hlt := (Int.lt_zpow_iff_log_lt (b := 10) (by decide) hpos).mp (by exact_mod_cast hu)
  exact le_antisymm (Int.lt_add_one_iff.mp hlt) hle

theorem zpow_log_le {q : ℚ} (hq : 0 < q) : (10 : ℚ) ^ Int.log 10 q ≤ q := by
  exact_mod_cast Int.zpow_log_le_self (b := 10) (by decide) hq

theorem lt_zpow_log (q : ℚ) : q < (10 : ℚ) ^ (Int.log 10 q + 1) := by
  exact_mod_cast Int.lt_zpow_succ_log_self (b := 10) (by decide) q

theorem digitCount_pos {n : ℕ} (hn : n ≠ 0) : 0 < digitCount n := by
  rw [digitCount, if_neg hn]
  exact List.length_pos_of_ne_nil Nat.toDigits_ne_nil

theorem lt_pow_digitCount (n : ℕ) : n < 10 ^ digitCount n := by
  unfold digitCount
  split_ifs with hn
  · rw [hn]
    decide
  · exact (Nat.length_toDigits_le_iff (by decide)
      (List.length_pos_of_ne_nil Nat.toDigits_ne_nil)).mp le_rfl

theorem pow_digitCount_le {n : ℕ} (hn : n ≠ 0) : 10 ^ (digitCount n - 1) ≤ n := by
  rcases Nat.eq_zero_or_pos (digitCount n - 1) with hone | hmore
  · rw [hone]
    exact Nat.one_le_iff_ne_zero.mpr hn
  · by_contra hlt
    have hle := (Nat.length_toDigits_le_iff (by decide) hmore).mpr (not_le.mp hlt)
    rw [digitCount, if_neg hn] at hle hmore
    omega

/-- A fraction that is not below one has the exponent of its integer part. -/
theorem log_of_le {num den : ℕ} (hden : 0 < den) (h : den ≤ num) :
    Int.log 10 ((num : ℚ) / den) = (digitCount (num / den) : ℤ) - 1 := by
  have hden' : (0 : ℚ) < den := by exact_mod_cast hden
  have hne : num / den ≠ 0 := (Nat.div_pos h hden).ne'
  have hpos := digitCount_pos hne
  have hexp : (digitCount (num / den) : ℤ) - 1 = ((digitCount (num / den) - 1 : ℕ) : ℤ) := by omega
  apply log_eq_of_bounds
  · rw [hexp, zpow_natCast, le_div_iff₀ hden']
    exact_mod_cast (Nat.le_div_iff_mul_le hden).mp (pow_digitCount_le hne)
  · rw [sub_add_cancel, zpow_natCast, div_lt_iff₀ hden']
    exact_mod_cast (Nat.div_lt_iff_lt_mul hden).mp (lt_pow_digitCount _)

/-- A fraction below one has the exponent that its inverse asks for. -/
theorem log_of_lt {num den : ℕ} (hnum : 0 < num) (h : num < den) :
    Int.log 10 ((num : ℚ) / den) = -(digitCount ((den + num - 1) / num - 1) : ℤ) := by
  have hnum' : (0 : ℚ) < num := by exact_mod_cast hnum
  have hden' : (0 : ℚ) < den := by exact_mod_cast hnum.trans h
  -- `m` is the greatest integer below the inverse
  obtain ⟨m, hm⟩ : ∃ m, (den + num - 1) / num = m + 1 :=
    Nat.exists_eq_succ_of_ne_zero (Nat.div_pos (by omega) hnum).ne'
  have hlow : m * num < den := by
    have := (Nat.le_div_iff_mul_le hnum).mp hm.ge
    rw [Nat.succ_mul] at this
    omega
  have hhigh : den ≤ (m + 1) * num := by
    have := (Nat.div_lt_iff_lt_mul hnum).mp (hm.trans_lt (Nat.lt_succ_self _))
    rw [Nat.succ_mul] at this
    omega
  have hne : m ≠ 0 := by
    rintro rfl
    omega
  rw [hm, Nat.add_sub_cancel]
  have hpos := digitCount_pos hne
  have hexp : -(digitCount m : ℤ) + 1 = -((digitCount m - 1 : ℕ) : ℤ) := by omega
  apply log_eq_of_bounds
  · rw [zpow_neg, zpow_natCast, inv_le_comm₀ (by positivity) (by positivity), inv_div,
      div_le_iff₀ hnum']
    have hle : (m + 1) * num ≤ 10 ^ digitCount m * num :=
      Nat.mul_le_mul_right _ (lt_pow_digitCount m)
    exact_mod_cast hhigh.trans hle
  · rw [hexp, zpow_neg, zpow_natCast, lt_inv_comm₀ (by positivity) (by positivity), inv_div,
      lt_div_iff₀ hnum']
    have hle : 10 ^ (digitCount m - 1) * num ≤ m * num :=
      Nat.mul_le_mul_right _ (pow_digitCount_le hne)
    exact_mod_cast hle.trans_lt hlow

theorem leadingExponent_eq {num den : ℕ} (hnum : 0 < num) (hden : 0 < den) :
    leadingExponent num den = Int.log 10 ((num : ℚ) / den) := by
  unfold leadingExponent
  split_ifs with h
  · rw [log_of_le hden h]
  · rw [log_of_lt hnum (not_le.mp h)]

/-! ## Rounding to a unit -/

/-- The nearest multiple of a unit, halfway the even one. -/
def roundedTo (unit q : ℚ) : ℚ := halfEven (q / unit) * unit

/-- A number rounded to so many digits, counted from its leading one. -/
def significant (count : ℕ) (q : ℚ) : ℚ := roundedTo (10 ^ (Int.log 10 |q| - count + 1)) q

theorem roundedTo_neg (unit q : ℚ) : roundedTo unit (-q) = -roundedTo unit q := by
  rw [roundedTo, roundedTo, neg_div, halfEven_neg, Int.cast_neg, neg_mul]

theorem significant_neg (count : ℕ) (q : ℚ) : significant count (-q) = -significant count q := by
  rw [significant, significant, abs_neg, roundedTo_neg]

theorem scaled_pos (num : ℕ) {den : ℕ} (hden : 0 < den) (e : ℤ) : 0 < (scaled num den e).2 := by
  unfold scaled
  split_ifs
  · exact Nat.mul_pos hden (Nat.pow_pos (by decide))
  · exact hden

theorem scaled_div (num den : ℕ) (e : ℤ) :
    ((scaled num den e).1 : ℚ) / (scaled num den e).2 = num / den / 10 ^ e := by
  unfold scaled
  split_ifs with he
  · obtain ⟨k, rfl⟩ := Int.eq_ofNat_of_zero_le he
    show (num : ℚ) / ((den * 10 ^ k : ℕ) : ℚ) = _
    rw [zpow_natCast, div_div]
    push_cast
    rfl
  · obtain ⟨k, hk⟩ := Int.eq_ofNat_of_zero_le (neg_nonneg.mpr (not_le.mp he).le)
    rw [hk, ← neg_neg e, hk, zpow_neg, zpow_natCast]
    show ((num * 10 ^ k : ℕ) : ℚ) / den = _
    rw [div_inv_eq_mul]
    push_cast
    ring

theorem roundDiv_scaled (num : ℕ) {den : ℕ} (hden : 0 < den) (e : ℤ) :
    (roundDiv .toEven (scaled num den e).1 (scaled num den e).2 : ℤ) =
      halfEven (num / den / 10 ^ e) := by
  rw [← halfEven_div _ (scaled_pos num hden e), scaled_div]

end Number

namespace Decimal

/-- The number that its digits and its exponent stand for. -/
def value (d : Decimal) : ℚ := d.digits * 10 ^ (d.exponent - d.count + 1)

/-- There are as many digits as it says, and the leading one is not zero. -/
structure Full (d : Decimal) : Prop where
  count_pos : 0 < d.count
  le_digits : 10 ^ (d.count - 1) ≤ d.digits
  digits_lt : d.digits < 10 ^ d.count

variable {d : Decimal}

theorem Full.value_pos (h : d.Full) : 0 < d.value := by
  have hpos : (0 : ℚ) < d.digits := by exact_mod_cast lt_of_lt_of_le (by positivity) h.le_digits
  unfold value
  positivity

/-- The exponent is that of the leading digit. -/
theorem Full.log_value (h : d.Full) : Int.log 10 d.value = d.exponent := by
  have hcount := h.count_pos
  apply Number.log_eq_of_bounds
  · have hle : (10 : ℚ) ^ (d.count - 1) ≤ d.digits := by exact_mod_cast h.le_digits
    calc (10 : ℚ) ^ d.exponent
        = 10 ^ (d.count - 1) * 10 ^ (d.exponent - d.count + 1) := by
          rw [← zpow_natCast, ← zpow_add₀ (by norm_num)]
          congr 1
          omega
      _ ≤ d.value := mul_le_mul_of_nonneg_right hle (by positivity)
  · have hlt : (d.digits : ℚ) < 10 ^ d.count := by exact_mod_cast h.digits_lt
    calc d.value
        < 10 ^ d.count * 10 ^ (d.exponent - d.count + 1) :=
          mul_lt_mul_of_pos_right hlt (by positivity)
      _ = 10 ^ (d.exponent + 1) := by
          rw [← zpow_natCast, ← zpow_add₀ (by norm_num)]
          congr 1
          omega

end Decimal

namespace Number

/-- The decimal has so many digits and is the number rounded to them. Rounding the number to the
unit of its last digit gives the same digits. -/
structure RoundsTo (count : ℕ) (q : ℚ) (d : Decimal) : Prop where
  full : d.Full
  count_eq : d.count = count
  value_eq : d.value = significant count q
  again : halfEven (q / 10 ^ (d.exponent - count + 1)) = d.digits

/-- Measured in units of the last digit, a number lies between two powers of ten. -/
theorem units_bounds {q : ℚ} (hq : 0 < q) {count : ℕ} (hcount : 0 < count) :
    (10 : ℚ) ^ (count - 1) ≤ q / 10 ^ (Int.log 10 q - count + 1) ∧
      q / 10 ^ (Int.log 10 q - count + 1) < 10 ^ count := by
  have hunit : (0 : ℚ) < 10 ^ (Int.log 10 q - count + 1) := by positivity
  constructor
  · rw [le_div_iff₀ hunit, ← zpow_natCast, ← zpow_add₀ (by norm_num)]
    refine le_of_eq_of_le ?_ (zpow_log_le hq)
    congr 1
    omega
  · rw [div_lt_iff₀ hunit, ← zpow_natCast, ← zpow_add₀ (by norm_num)]
    refine lt_of_lt_of_eq (lt_zpow_log q) ?_
    congr 1
    omega

/-- A row of `k + 1` digits, or the power of ten that is one digit longer and moves the exponent. -/
def carried (k digits : ℕ) (e : ℤ) : Decimal :=
  if digits = 10 ^ (k + 1) then ⟨10 ^ k, k + 1, e + 1⟩ else ⟨digits, k + 1, e⟩

theorem full_carried {k digits : ℕ} (e : ℤ) (hle : 10 ^ k ≤ digits)
    (hge : digits ≤ 10 ^ (k + 1)) : (carried k digits e).Full := by
  unfold carried
  split_ifs with hcarry
  · exact ⟨Nat.succ_pos k, le_rfl, Nat.pow_lt_pow_right (by decide) (Nat.lt_succ_self k)⟩
  · exact ⟨Nat.succ_pos k, hle, lt_of_le_of_ne hge hcarry⟩

theorem value_carried (k digits : ℕ) (e : ℤ) :
    (carried k digits e).value = digits * 10 ^ (e - (k + 1 : ℕ) + 1) := by
  unfold carried
  split_ifs with hcarry
  · rw [hcarry, Decimal.value]
    push_cast
    rw [← zpow_natCast, ← zpow_natCast, ← zpow_add₀ (by norm_num), ← zpow_add₀ (by norm_num)]
    congr 1
    push_cast
    ring
  · rfl

/-- A number that is carried over to a power of ten is rounded to it by the greater unit too. -/
theorem halfEven_carried {t : ℚ} {k : ℕ} (h : halfEven t = ((10 ^ (k + 1) : ℕ) : ℤ)) :
    halfEven (t / 10) = ((10 ^ k : ℕ) : ℤ) := by
  have hnear : |t - 10 ^ (k + 1)| ≤ 1 / 2 := by
    have := (nearest_halfEven t).abs_sub_le
    rw [h] at this
    exact_mod_cast this
  have hsmaller : t / 10 - 10 ^ k = (t - 10 ^ (k + 1)) / 10 := by
    rw [pow_succ]
    ring
  refine Nearest.halfEven_eq (Or.inl ?_)
  push_cast
  calc |t / 10 - 10 ^ k| = |t - 10 ^ (k + 1)| / 10 := by
        rw [hsmaller, abs_div, abs_of_pos (by norm_num : (0 : ℚ) < 10)]
    _ ≤ 1 / 2 / 10 := div_le_div_of_nonneg_right hnear (by norm_num)
    _ < 1 / 2 := by norm_num

/-- The digits of a number, with its exponent or, if they are carried over, the next one. -/
theorem roundsTo_of_digits {q : ℚ} (hq : 0 < q) (k : ℕ) {digits : ℕ}
    (hdigits : (digits : ℤ) = halfEven (q / 10 ^ (Int.log 10 q - (k + 1 : ℕ) + 1))) :
    RoundsTo (k + 1) q (carried k digits (Int.log 10 q)) := by
  obtain ⟨hlow, hhigh⟩ := units_bounds hq (Nat.succ_pos k)
  have hle := le_halfEven (n := ((10 ^ k : ℕ) : ℤ)) (by exact_mod_cast hlow)
  have hge := halfEven_le (n := ((10 ^ (k + 1) : ℕ) : ℤ)) (by exact_mod_cast hhigh.le)
  rw [← hdigits] at hle hge
  have hfull := full_carried (Int.log 10 q) (by exact_mod_cast hle) (by exact_mod_cast hge)
  refine ⟨hfull, ?_, ?_, ?_⟩
  · unfold carried
    split_ifs <;> rfl
  · rw [value_carried, significant, abs_of_pos hq, roundedTo, ← hdigits, Int.cast_natCast]
  · unfold carried
    split_ifs with hcarry
    · have hunit : (10 : ℚ) ^ (Int.log 10 q + 1 - (k + 1 : ℕ) + 1) =
          10 ^ (Int.log 10 q - (k + 1 : ℕ) + 1) * 10 := by
        rw [← zpow_add_one₀ (by norm_num)]
        congr 1
        ring
      dsimp only
      rw [hunit, ← div_div]
      exact halfEven_carried (hdigits.symm.trans (by rw [hcarry]))
    · exact hdigits.symm

theorem roundsTo_roundSignificant {num den : ℕ} (hnum : 0 < num) (hden : 0 < den) (k : ℕ) :
    RoundsTo (k + 1) ((num : ℚ) / den) (roundSignificant (k + 1) num den) := by
  have hq : (0 : ℚ) < (num : ℚ) / den := by positivity
  have h := roundsTo_of_digits hq k (roundDiv_scaled num hden _)
  rw [← leadingExponent_eq hnum hden] at h
  exact h

end Number

end ScriptLang
