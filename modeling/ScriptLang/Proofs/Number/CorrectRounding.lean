import Mathlib
import ScriptLang.Proofs.Number.Exact
import ScriptLang.Proofs.Number.Significant

/-!
# Correct rounding

A quotient is taken with 53 bits at least, and what is left of it says how the rest compares
with a half. That is enough to round it to the nearest double, halfway to the even one:

- `roundWithAccuracy_eq`: rounding goes to the nearest multiple of the last place,
- `settle_of_near`: a number that no other double is nearer to is rounded to this one,
- `ofScientific_eq`: so the number `n / 10 ^ k` becomes the double that it is near to.
-/

namespace ScriptLang

namespace Number

open Float.Model Float.Model.UnpackedFloat

/-! ## The bits behind a mantissa -/

/-- The mantissa is the integer part of a number, and the two bits behind it tell how the rest
compares with a half. -/
inductive Tells : ExtendedMantissa → ℚ → Prop where
  | exact {m : ℕ} {r : ℚ} : r = m → Tells ⟨m, false, false⟩ r
  | less {m : ℕ} {r : ℚ} : m < r → r < m + 1 / 2 → Tells ⟨m, false, true⟩ r
  | half {m : ℕ} {r : ℚ} : r = m + 1 / 2 → Tells ⟨m, true, false⟩ r
  | more {m : ℕ} {r : ℚ} : m + 1 / 2 < r → r < m + 1 → Tells ⟨m, true, true⟩ r

namespace Tells

variable {em : ExtendedMantissa} {r : ℚ}

theorem bounds (h : Tells em r) : em.mantissa ≤ r ∧ r < em.mantissa + 1 := by
  cases h with
  | exact h => exact ⟨h.ge, by linarith⟩
  | less hl hu => exact ⟨hl.le, by linarith⟩
  | half h => exact ⟨by linarith, by linarith⟩
  | more hl hu => exact ⟨by linarith, hu⟩

/-- Rounding by the bits goes to the nearest integer, halfway to the even one. -/
theorem halfEven_eq (h : Tells em r) : halfEven r = em.roundedMantissa := by
  apply Nearest.halfEven_eq
  cases h with
  | @exact m r h =>
      left
      show |r - (m : ℤ)| < 1 / 2
      rw [h, Int.cast_natCast, sub_self, abs_zero]
      norm_num
  | @less m r hl hu =>
      left
      show |r - (m : ℤ)| < 1 / 2
      rw [Int.cast_natCast, abs_lt]
      constructor <;> linarith
  -- halfway, the last bit is what leads to the even one
  | @half m r h =>
      right
      show |r - ((m + m % 2 : ℕ) : ℤ)| = 1 / 2 ∧ Even ((m + m % 2 : ℕ) : ℤ)
      rw [Int.even_coe_nat, Int.cast_natCast, h]
      rcases Nat.mod_two_eq_zero_or_one m with h0 | h1
      · rw [h0, Nat.add_zero, add_sub_cancel_left, abs_of_pos (by norm_num)]
        exact ⟨rfl, Nat.even_iff.mpr h0⟩
      · rw [h1, Nat.cast_add, add_sub_add_left_eq_sub, Nat.cast_one]
        exact ⟨by norm_num [abs_of_neg], Nat.even_iff.mpr (by omega)⟩
  | @more m r hl hu =>
      left
      show |r - ((m + 1 : ℕ) : ℤ)| < 1 / 2
      rw [Int.cast_natCast, Nat.cast_add, Nat.cast_one, abs_lt]
      constructor <;> linarith

/-- Half of a number is told by the bits moved by one place. -/
theorem shiftRightOne (h : Tells em r) : Tells em.shiftRightOne (r / 2) := by
  obtain ⟨m, half, rest⟩ := em
  -- the last bit becomes the half, and the half goes to the rest
  rcases Nat.even_or_odd' m with ⟨k, rfl | rfl⟩
  · have hbits : ExtendedMantissa.shiftRightOne ⟨2 * k, half, rest⟩ = ⟨k, false, half || rest⟩ := by
      simp [ExtendedMantissa.shiftRightOne]
    rw [hbits]
    cases h with
    | exact h =>
        push_cast at h
        exact .exact (by linarith)
    | less hl hu | more hl hu =>
        push_cast at hl hu
        exact .less (by linarith) (by linarith)
    | half h =>
        push_cast at h
        exact .less (by linarith) (by linarith)
  · have hbits : ExtendedMantissa.shiftRightOne ⟨2 * k + 1, half, rest⟩ =
        ⟨k, true, half || rest⟩ := by
      simp [ExtendedMantissa.shiftRightOne, Nat.add_div]
    rw [hbits]
    cases h with
    | exact h =>
        push_cast at h
        exact .half (by linarith)
    | less hl hu | more hl hu =>
        push_cast at hl hu
        exact .more (by linarith) (by linarith)
    | half h =>
        push_cast at h
        exact .more (by linarith) (by linarith)

theorem shiftRight (h : Tells em r) (j : ℕ) : Tells (em >>> j) (r / 2 ^ j) := by
  induction j with
  | zero =>
      rw [pow_zero, div_one]
      exact h
  | succ j ih =>
      rw [pow_succ, ← div_div]
      exact ih.shiftRightOne

end Tells

/-- A quotient of natural numbers is told by its integer part and the remainder. -/
theorem tells_div (num : ℕ) {den : ℕ} (hden : 0 < den) :
    Tells (.ofMantissaAndAccuracy (num / den) (accuracyOfFraction (num % den) den))
      (num / den) := by
  have hden' : (0 : ℚ) < den := by exact_mod_cast hden
  have hvalue := natCast_div_eq num hden
  have hlt : ((num % den : ℕ) : ℚ) / den < 1 := by
    rw [div_lt_one hden']
    exact_mod_cast Nat.mod_lt num hden
  generalize hrem : num % den = rem at hvalue hlt
  unfold accuracyOfFraction
  split_ifs with h0
  · exact .exact (by rw [hvalue, h0, Nat.cast_zero, zero_div, add_zero])
  · have hpos : (0 : ℚ) < (rem : ℚ) / den := by
      have : (0 : ℚ) < rem := by exact_mod_cast Nat.pos_of_ne_zero h0
      positivity
    rcases lt_trichotomy (2 * rem) den with h | h | h
    · have hhalf : (rem : ℚ) / den < 1 / 2 := by
        rw [div_lt_div_iff₀ hden' two_pos, one_mul, mul_comm]
        exact_mod_cast h
      rw [Nat.compare_eq_lt.mpr h]
      exact .less (by linarith) (by linarith)
    · have hhalf : (rem : ℚ) / den = 1 / 2 := by
        rw [div_eq_div_iff hden'.ne' two_ne_zero, one_mul, mul_comm]
        exact_mod_cast h
      rw [Nat.compare_eq_eq.mpr h]
      exact .half (by linarith)
    · have hhalf : 1 / 2 < (rem : ℚ) / den := by
        rw [div_lt_div_iff₀ two_pos hden', one_mul, mul_comm]
        exact_mod_cast h
      rw [Nat.compare_eq_gt.mpr h]
      exact .more (by linarith) (by linarith)

/-! ## The place of the last bit -/

/-- At this exponent 53 bits of a number are left, or less at the least exponent. -/
structure FitsAt (q : ℚ) (t : ℤ) : Prop where
  least : -1074 ≤ t
  lt : q < 2 ^ (t + 53)
  le : t = -1074 ∨ 2 ^ (t + 52) ≤ q

/-- The place follows from the integer part at an exponent that is low enough. -/
theorem fitsAt_target {m : ℕ} {e : ℤ} {q : ℚ} (hl : m ≤ q / 2 ^ e) (hu : q / 2 ^ e < m + 1)
    (he : e ≤ target m e) : FitsAt q (target m e) := by
  have hpow : (0 : ℚ) < 2 ^ e := by positivity
  rw [le_div_iff₀ hpow] at hl
  rw [div_lt_iff₀ hpow] at hu
  refine ⟨le_max_right _ _, ?_, ?_⟩
  · have hlog : (m : ℚ) + 1 ≤ 2 ^ (m.log2 + 1) := by
      exact_mod_cast Nat.succ_le_of_lt Nat.lt_log2_self
    have hle : (m.log2 : ℤ) - 52 + e ≤ target m e := le_max_left _ _
    calc q < (m + 1) * 2 ^ e := hu
      _ ≤ 2 ^ (m.log2 + 1) * 2 ^ e := by gcongr
      _ = 2 ^ ((m.log2 : ℤ) + 1 + e) := by
          rw [zpow_add₀ (by norm_num), ← Nat.cast_succ, zpow_natCast]
      _ ≤ 2 ^ (target m e + 53) := zpow_le_zpow_right₀ (by norm_num) (by omega)
  · by_cases hleast : target m e = -1074
    · exact Or.inl hleast
    · have htarget : target m e = (m.log2 : ℤ) - 52 + e := by
        rw [target] at hleast ⊢
        omega
      -- the integer part is not zero, for then the place would be further down
      have hm : m ≠ 0 := by
        rintro rfl
        rw [Nat.log2_zero] at htarget
        omega
      have hlog : (2 : ℚ) ^ m.log2 ≤ m := by exact_mod_cast Nat.log2_self_le hm
      right
      calc (2 : ℚ) ^ (target m e + 52) = 2 ^ m.log2 * 2 ^ e := by
            rw [← zpow_natCast, ← zpow_add₀ (by norm_num), htarget]
            congr 1
            omega
        _ ≤ m * 2 ^ e := by gcongr
        _ ≤ q := hl

/-- A number is rounded to the nearest multiple of its last place. -/
theorem roundWithAccuracy_eq (s : Sign) {m : ℕ} {e : ℤ} {accuracy : Accuracy} {q : ℚ}
    (h : Tells (.ofMantissaAndAccuracy m accuracy) (q / 2 ^ e)) (he : e ≤ target m e) :
    ∃ t, FitsAt q t ∧
      roundWithAccuracy Format.binary64 s m e accuracy =
        settle s (halfEven (q / 2 ^ t)).toNat t := by
  have hmant : (ExtendedMantissa.ofMantissaAndAccuracy m accuracy).mantissa = m := by
    rcases accuracy with _ | (_ | _ | _) <;> rfl
  obtain ⟨hl, hu⟩ := h.bounds
  rw [hmant] at hl hu
  have hfits := fitsAt_target hl hu he
  refine ⟨target m e, hfits, ?_⟩
  obtain ⟨j, hj⟩ := Int.eq_ofNat_of_zero_le (sub_nonneg.mpr he)
  have htells := h.shiftRight j
  rw [div_div, ← zpow_natCast, ← zpow_add₀ (by norm_num), ← hj, add_sub_cancel] at htells
  have hshift : shiftToTargetExponent Format.binary64 m e accuracy =
      (ExtendedMantissa.ofMantissaAndAccuracy m accuracy >>> j, target m e) := by
    rw [shiftToTargetExponent, targetExponent_eq, shiftToExponent, hj, Int.toNat_natCast]
    exact Prod.ext rfl (by dsimp only; omega)
  have hlt : (ExtendedMantissa.ofMantissaAndAccuracy m accuracy >>> j).mantissa < 2 ^ 53 := by
    have hq : q / 2 ^ target m e < 2 ^ 53 := by
      rw [div_lt_iff₀ (by positivity), ← zpow_natCast, ← zpow_add₀ (by norm_num), add_comm]
      exact hfits.lt
    exact_mod_cast htells.bounds.1.trans_lt hq
  rw [roundWithAccuracy_eq_settle s hlt hfits.least hshift, htells.halfEven_eq, Int.toNat_natCast]

/-! ## Numbers near to a double -/

/-- No double is nearer to the number than this one, and the mantissa is even if another one is as
near. The double below a power of two is half as far away as the one above it. -/
structure Near (m : ℕ) (e : ℤ) (q : ℚ) : Prop where
  nearest : Nearest (q / 2 ^ e) m
  edge : m = hiddenBit → leastExponent < e → (m : ℚ) - 1 / 4 ≤ q / 2 ^ e

theorem Near.bounds {m : ℕ} {e : ℤ} {q : ℚ} (h : Near m e q) :
    (m : ℚ) - 1 / 2 ≤ q / 2 ^ e ∧ q / 2 ^ e ≤ m + 1 / 2 := by
  obtain ⟨hlow, hhigh⟩ := abs_le.mp h.nearest.abs_sub_le
  rw [Int.cast_natCast] at hlow hhigh
  constructor <;> linarith

section Settle

variable {s : Sign} {m : ℕ} {e t : ℤ} {q : ℚ} {hm : 0 < m} (hd : IsDouble (.finite s m e hm))
  (hq : Near m e q) (ht : FitsAt q t)
include hd hq ht

/-- A number near to a double has no higher place than the double. -/
theorem place_le : t ≤ e := by
  obtain ⟨hlt, hle, -, -⟩ := hd
  by_contra habove
  have hm53 : (m : ℚ) + 1 ≤ 2 ^ 53 := by exact_mod_cast Nat.succ_le_of_lt hlt
  have hq53 : (2 : ℚ) ^ 53 ≤ q / 2 ^ e := by
    rw [le_div_iff₀ (by positivity), ← zpow_natCast, ← zpow_add₀ (by norm_num)]
    calc (2 : ℚ) ^ (((53 : ℕ) : ℤ) + e) ≤ 2 ^ (t + 52) :=
          zpow_le_zpow_right₀ (by norm_num) (by omega)
      _ ≤ q := ht.le.resolve_left (by omega)
  linarith [hq.bounds.2]

/-- Only a power of two has numbers near to it with a lower place, the next one. There they are
carried over. -/
theorem carried_of_lt (hte : t < e) :
    m = 2 ^ 52 ∧ t + 1 = e ∧ Nearest (q / 2 ^ t) ((2 ^ 53 : ℕ) : ℤ) := by
  obtain ⟨-, hle, -, hfull⟩ := hd
  have hleast := ht.least
  have hm52 : 2 ^ 52 ≤ m := hfull.resolve_right (by omega)
  have hsmall : q / 2 ^ e < 2 ^ (t - e + 53) := by
    rw [div_lt_iff₀ (by positivity), ← zpow_add₀ (by norm_num)]
    exact ht.lt.trans_eq (by congr 1; omega)
  have hlt52 : q / 2 ^ e < 2 ^ 52 :=
    hsmall.trans_le (zpow_le_zpow_right₀ (by norm_num) (by omega : t - e + 53 ≤ (52 : ℕ)))
  have hmeq : m = 2 ^ 52 := by
    have hlt' : (m : ℚ) < 2 ^ 52 + 1 := by linarith [hq.bounds.1]
    have : m < 2 ^ 52 + 1 := by exact_mod_cast hlt'
    omega
  subst hmeq
  -- below a power of two a number is near only within a quarter, so its place is the next one
  have hedge := hq.edge rfl (by show (-1074 : ℤ) < e; omega)
  push_cast at hedge
  have hnext : t + 1 = e := by
    by_contra hne
    have hlt51 : q / 2 ^ e < 2 ^ 51 :=
      hsmall.trans_le (zpow_le_zpow_right₀ (by norm_num) (by omega : t - e + 53 ≤ (51 : ℕ)))
    linarith
  refine ⟨rfl, hnext, ?_⟩
  have hdouble : q / 2 ^ t = 2 * (q / 2 ^ e) := by
    rw [← hnext, zpow_add_one₀ (by norm_num)]
    field_simp
  rw [nearest_of_even (by decide), hdouble, abs_le]
  push_cast
  constructor <;> linarith

/-- A number near to a double is rounded to it. -/
theorem settle_of_near : settle s (halfEven (q / 2 ^ t)).toNat t = .finite s m e hm := by
  rcases (place_le hd hq ht).lt_or_eq with hte | rfl
  · obtain ⟨rfl, rfl, hnear⟩ := carried_of_lt hd hq ht hte
    rw [hnear.halfEven_eq, Int.toNat_natCast]
    rfl
  · rw [hq.nearest.halfEven_eq, Int.toNat_natCast]
    exact settle_of_lt s t hm hd.1

end Settle

theorem roundWithAccuracy_of_near (s : Sign) {m n : ℕ} {e f : ℤ} {accuracy : Accuracy} {q : ℚ}
    (h : Tells (.ofMantissaAndAccuracy n accuracy) (q / 2 ^ f)) (hf : f ≤ target n f)
    (hm : 0 < m) (hd : IsDouble (.finite s m e hm)) (hq : Near m e q) :
    roundWithAccuracy Format.binary64 s n f accuracy = .finite s m e hm := by
  obtain ⟨t, ht, hround⟩ := roundWithAccuracy_eq s h hf
  rw [hround, settle_of_near hd hq ht]

/-! ## Quotients -/

/-- The quotient of two mantissas has 53 bits if the dividend is shifted far enough. -/
theorem le_log2_div {m₁ m₂ j : ℕ} (h₁ : 0 < m₁) (h₂ : 0 < m₂)
    (hj : m₂.log2 + 53 ≤ m₁.log2 + j) : 52 ≤ (m₁ * 2 ^ j / m₂).log2 := by
  have hle : 2 ^ 52 ≤ m₁ * 2 ^ j / m₂ := by
    rw [Nat.le_div_iff_mul_le h₂]
    calc 2 ^ 52 * m₂ ≤ 2 ^ 52 * 2 ^ (m₂.log2 + 1) := Nat.mul_le_mul_left _ Nat.lt_log2_self.le
      _ = 2 ^ (m₂.log2 + 53) := by rw [← Nat.pow_add]; congr 1; omega
      _ ≤ 2 ^ (m₁.log2 + j) := Nat.pow_le_pow_right (by decide) hj
      _ = 2 ^ m₁.log2 * 2 ^ j := Nat.pow_add ..
      _ ≤ m₁ * 2 ^ j := Nat.mul_le_mul_right _ (Nat.log2_self_le h₁.ne')
  exact (Nat.le_log2 (by omega)).mpr hle

/-- A quotient is rounded to the double that it is near to. -/
theorem div_of_near {m m₁ m₂ : ℕ} {e e₁ e₂ : ℤ} (h₁ : 0 < m₁) (h₂ : 0 < m₂) (hm : 0 < m)
    (hd : IsDouble (.finite .positive m e hm))
    (hq : Near m e ((m₁ * 2 ^ e₁) / (m₂ * 2 ^ e₂))) :
    UnpackedFloat.div Format.binary64 (.finite .positive m₁ e₁ h₁) (.finite .positive m₂ e₂ h₂) =
      .finite .positive m e hm := by
  -- the exponent at which the quotient is taken
  obtain ⟨f, hf⟩ : ∃ f, f = min (e₁ - e₂) (Format.binary64.targetExponent
    (totalExponent m₁ e₁ - totalExponent m₂ e₂)) := ⟨_, rfl⟩
  have hcases : f ≤ -1074 ∨ f ≤ (m₁.log2 : ℤ) + e₁ - m₂.log2 - e₂ - 53 := by
    have htarget : Format.binary64.targetExponent (totalExponent m₁ e₁ - totalExponent m₂ e₂) =
        max ((m₁.log2 : ℤ) + e₁ - m₂.log2 - e₂ - 53) (-1074) := by
      simp only [Format.targetExponent, totalExponent, Format.mantissaBits, Format.minExponent]
      omega
    omega
  obtain ⟨j, hj⟩ := Int.eq_ofNat_of_zero_le (by omega : 0 ≤ e₁ - e₂ - f)
  have hquot : m₁ * 2 ^ e₁ / (m₂ * 2 ^ e₂) / 2 ^ f = ((m₁ * 2 ^ j : ℕ) : ℚ) / m₂ := by
    have hexp : e₁ = j + f + e₂ := by omega
    rw [hexp, zpow_add₀ (by norm_num), zpow_add₀ (by norm_num), zpow_natCast]
    push_cast
    field_simp
  have hcore : divCore Format.binary64 m₁ e₁ m₂ e₂ =
      (m₁ * 2 ^ j / m₂, f, accuracyOfFraction (m₁ * 2 ^ j % m₂) m₂) := by
    simp only [divCore, ← hf, hj, Int.toNat_natCast, Nat.shiftLeft_eq]
  have hround : UnpackedFloat.div Format.binary64 (.finite .positive m₁ e₁ h₁)
      (.finite .positive m₂ e₂ h₂) = roundWithAccuracy Format.binary64 .positive
        (m₁ * 2 ^ j / m₂) f (accuracyOfFraction (m₁ * 2 ^ j % m₂) m₂) := by
    simp only [UnpackedFloat.div, hcore]
    rfl
  rw [hround]
  refine roundWithAccuracy_of_near .positive (hquot ▸ tells_div _ h₂) ?_ hm hd hq
  rw [target]
  rcases hcases with hleast | hbits
  · exact hleast.trans (le_max_right _ _)
  · have := le_log2_div (j := j) h₁ h₂ (by omega)
    omega

/-! ## Numbers with an exponent -/

/-- Numbers near to a double are not much smaller than the least one. -/
theorem Near.two_zpow_le {m : ℕ} {e : ℤ} {q : ℚ} (hq : Near m e q) (hm : 0 < m)
    (he : -1074 ≤ e) : 2 ^ (-1075 : ℤ) ≤ q := by
  have hpow : (0 : ℚ) < 2 ^ e := by positivity
  have hone : (1 : ℚ) ≤ m := by exact_mod_cast hm
  have hhalf : 1 / 2 ≤ q / 2 ^ e := by linarith [hq.bounds.1]
  calc (2 : ℚ) ^ (-1075 : ℤ) ≤ 2 ^ (e - 1) := zpow_le_zpow_right₀ (by norm_num) (by omega)
    _ = 1 / 2 * 2 ^ e := by
        rw [zpow_sub_one₀ (by norm_num)]
        ring
    _ ≤ q := (le_div_iff₀ hpow).mp hhalf

theorem Near.lt_log2_add {m n k : ℕ} {e : ℤ} (hq : Near m e (n / 10 ^ k)) (hm : 0 < m)
    (he : -1074 ≤ e) : k < n.log2 + 1076 := by
  have hn : (n : ℚ) < 2 ^ (n.log2 + 1) := by exact_mod_cast Nat.lt_log2_self
  have hlt : (2 : ℚ) ^ (-1075 : ℤ) < 2 ^ ((n.log2 + 1 : ℕ) - k : ℤ) :=
    calc (2 : ℚ) ^ (-1075 : ℤ) ≤ n / 10 ^ k := hq.two_zpow_le hm he
      _ ≤ n / 2 ^ k := by gcongr; norm_num
      _ < 2 ^ (n.log2 + 1) / 2 ^ k := by gcongr
      _ = 2 ^ ((n.log2 + 1 : ℕ) - k : ℤ) := by
          rw [zpow_sub₀ (by norm_num), zpow_natCast, zpow_natCast]
  have := (zpow_lt_zpow_iff_right₀ (by norm_num)).mp hlt
  omega

/-- The number `n / 10 ^ k` is rounded to the double that it is near to. -/
theorem ofScientific_of_near {m n k : ℕ} {e : ℤ} (hn : n ≠ 0) (hm : 0 < m)
    (hd : IsDouble (.finite .positive m e hm)) (hq : Near m e (n / 10 ^ k)) :
    UnpackedFloat.ofScientific Format.binary64 n (-(k : ℤ)) = .finite .positive m e hm := by
  have hbits : (2 : ℤ) ^ Format.binary64.exponentBits = 2048 := rfl
  have hk := hq.lt_log2_add hm hd.2.1
  -- neither of the two checks against huge powers of ten applies
  have hlarge : ¬ -(k : ℤ) > 2 ^ Format.binary64.exponentBits := by
    rw [hbits]
    omega
  have hsmall : ¬ -(k : ℤ) < -((2 ^ Format.binary64.exponentBits : ℤ) + n.log2) := by
    rw [hbits]
    omega
  rw [UnpackedFloat.ofScientific, dif_neg hn, if_neg hlarge, if_neg hsmall]
  split_ifs with hpos
  · obtain rfl : k = 0 := by omega
    rw [pow_zero, div_one] at hq
    have hexact : Tells (.ofMantissaAndAccuracy (n * 2 ^ 53) .exact) (n / 2 ^ (-53 : ℤ)) :=
      .exact (by rw [zpow_neg, div_inv_eq_mul]; push_cast; rfl)
    have htarget : -53 ≤ target (n * 2 ^ 53) (-53) := by
      rw [target, log2_mul_pow n 53 hn]
      omega
    rw [← roundWithAccuracy_of_near .positive hexact htarget hm hd hq]
    simp only [UnpackedFloat.mul, Nat.shiftLeft_eq, Nat.cast_zero, neg_zero, Int.toNat_zero,
      pow_zero, mul_one, add_zero]
    rfl
  · simp only [neg_neg, Int.toNat_natCast]
    refine div_of_near _ _ hm hd ?_
    push_cast
    simpa using hq

/-! ## Powers of ten -/

/-- Whether a double is `10 ^ k`, in steps of `2 ^ -52`. -/
def isPowerOfTen (k : ℕ) : Magnitude → Bool
  | .finite d => !d.negative && decide (-52 ≤ d.exponent) &&
      d.mantissa * 2 ^ (d.exponent + 52).toNat == 10 ^ k * 2 ^ 52
  | _ => false

theorem hasValue_of_isPowerOfTen {x : Float} {k : ℕ} (h : isPowerOfTen k (magnitude x) = true) :
    HasValue x (10 ^ k) := by
  cases hx : magnitude x with
  | finite d =>
      simp only [hx, isPowerOfTen, Bool.and_eq_true, Bool.not_eq_true', decide_eq_true_eq,
        beq_iff_eq] at h
      obtain ⟨⟨hsign, hexp⟩, hvalue⟩ := h
      refine ⟨d, hx, ?_⟩
      obtain ⟨j, hj⟩ := Int.eq_ofNat_of_zero_le (by omega : 0 ≤ d.exponent + 52)
      rw [hj, Int.toNat_natCast] at hvalue
      have hcast : (d.mantissa : ℚ) * 2 ^ j = 10 ^ k * 2 ^ 52 := by exact_mod_cast hvalue
      have he : d.exponent = j - (52 : ℕ) := by omega
      rw [Dyadic.toRat, hsign, he, zpow_sub₀ (by norm_num), zpow_natCast, zpow_natCast,
        ← mul_div_assoc, hcast, mul_div_cancel_right₀ _ (by positivity)]
      simp
  | infinite negative => simp [hx, isPowerOfTen] at h
  | nan => simp [hx, isPowerOfTen] at h

theorem isPowerOfTen_table : ∀ k : Fin Float.exactlyRepresentablePowersOfTen.size,
    isPowerOfTen k (magnitude Float.exactlyRepresentablePowersOfTen[k]) = true := by
  decide +kernel

/-- A positive number has a positive sign, a mantissa and an exponent. -/
theorem HasValue.parts {x : Float} {q : ℚ} (h : HasValue x q) (hq : 0 < q) :
    ∃ m e, ∃ hm : 0 < m, x.toModel.unpack = .finite .positive m e hm ∧ (m : ℚ) * 2 ^ e = q := by
  rw [hasValue_iff] at h
  cases hx : x.toModel.unpack with
  | zero s =>
      rw [hx, value?, Option.some.injEq] at h
      exact absurd h hq.ne
  | finite s m e hm =>
      rw [hx, value?, Option.some.injEq] at h
      cases s with
      | positive => exact ⟨m, e, hm, rfl, by simpa [Sign.apply] using h⟩
      | negative =>
          have hneg : (0 : ℚ) ≤ m * 2 ^ e := by positivity
          simp only [Sign.apply, Int.cast_neg, Int.cast_natCast] at h
          linarith
  | infinity s => simp [hx, value?] at h
  | notANumber => simp [hx, value?] at h

theorem hasValue_powerOfTen {k : ℕ} (hk : k < Float.exactlyRepresentablePowersOfTen.size) :
    HasValue Float.exactlyRepresentablePowersOfTen[k] (10 ^ k) :=
  hasValue_of_isPowerOfTen (isPowerOfTen_table ⟨k, hk⟩)

theorem hasValue_toFloat_toUInt64 {n : ℕ} (h0 : 0 < n) (hn : n < 2 ^ 53) :
    HasValue n.toUInt64.toFloat n :=
  hasValue_of_pack (wholeParts_isDouble h0 hn) (congrArg Float.Model.pack (ofUInt64_eq h0 hn))
    (value?_wholeParts h0 hn)

/-! ## The double of a decimal -/

theorem ofModel_pack_unpack (x : Float) : Float.ofModel (Float.Model.pack x.toModel.unpack) = x :=
  Float.ofBits_toBits x

/-- The parts of a number that is not negative. -/
theorem unpack_of_magnitude {x : Float} {d : Dyadic} (hx : magnitude x = .finite d)
    (hs : d.negative = false) : x.toModel.unpack =
      if hm : 0 < d.mantissa then .finite .positive d.mantissa d.exponent hm
      else .zero .positive := by
  rw [magnitude_eq_ofParts] at hx
  cases hp : x.toModel.unpack with
  | finite s m e h =>
      rw [hp] at hx
      cases hx
      cases s with
      | positive => exact (dif_pos h).symm
      | negative => exact absurd hs Bool.true_eq_false.mp
  | zero s =>
      rw [hp] at hx
      cases hx
      cases s with
      | positive => rfl
      | negative => exact absurd hs Bool.true_eq_false.mp
  | infinity s => simp [hp, ofParts] at hx
  | notANumber => simp [hp, ofParts] at hx

/-- The number `n / 10 ^ k` is read as the double that it is near to. -/
theorem ofScientific_eq {x : Float} {d : Dyadic} {n k : ℕ} (hx : magnitude x = .finite d)
    (hs : d.negative = false) (hm : 0 < d.mantissa)
    (hq : Near d.mantissa d.exponent (n / 10 ^ k)) : Float.ofScientific n true k = x := by
  have hparts := (unpack_of_magnitude hx hs).trans (dif_pos hm)
  have hd := isDouble_unpack x
  rw [hparts] at hd
  have hn : 0 < n := by
    rcases Nat.eq_zero_or_pos n with rfl | h
    · have := hq.two_zpow_le hm hd.2.1
      rw [Nat.cast_zero, zero_div] at this
      exact absurd this (not_le.mpr (by positivity))
    · exact h
  rw [← ofModel_pack_unpack x, hparts, Float.ofScientific]
  by_cases h : n < 2 ^ 53 ∧ k ≤ 22
  · rw [dif_pos h]
    -- both numbers are doubles, and so one division rounds once
    obtain ⟨m₁, e₁, h₁, hu₁, hv₁⟩ := (hasValue_toFloat_toUInt64 hn h.1).parts (by positivity)
    obtain ⟨m₂, e₂, h₂, hu₂, hv₂⟩ := (hasValue_powerOfTen (k := k) (by
      show k < 23
      omega)).parts (by positivity)
    rw [← hv₁, ← hv₂] at hq
    show Float.ofModel (Float.Model.pack (UnpackedFloat.div Format.binary64 _ _)) = _
    rw [hu₁, hu₂, div_of_near h₁ h₂ hm hd hq]
  · rw [dif_neg h]
    show Float.ofModel (Float.Model.pack
      (UnpackedFloat.ofScientific Format.binary64 n (Int.negOfNat k))) = _
    rw [Int.negOfNat_eq, Int.ofNat_eq_natCast, ofScientific_of_near hn.ne' hm hd hq]

theorem ofScientific_zero {x : Float} {d : Dyadic} (hx : magnitude x = .finite d)
    (hs : d.negative = false) (hm : d.mantissa = 0) : Float.ofScientific 0 true 0 = x := by
  rw [← ofModel_pack_unpack x, unpack_of_magnitude hx hs, dif_neg (by omega)]
  rfl

end Number

end ScriptLang
