import Mathlib
import ScriptLang.Proofs.Number.Parts

/-!
# Rounding to 53 bits

A number `m * 2 ^ e` is rounded in two steps: its bits are shifted to the exponent at which
53 of them are left, and what was shifted out decides between the mantissa and the next one.

- `round_congr`: the rounded number depends on the value only, not on how it is split into
  mantissa and exponent,
- `round_double`: a double is not changed,
- `round_of_le`: from `2 ^ 53` on a natural number becomes a double with a positive exponent.
-/

namespace ScriptLang

namespace Number

open Float.Model Float.Model.UnpackedFloat

theorem shiftRight_exact (m j : Nat) :
    ((⟨m * 2 ^ j, false, false⟩ : ExtendedMantissa) >>> j) = ⟨m, false, false⟩ := by
  change j.repeat ExtendedMantissa.shiftRightOne _ = _
  induction j generalizing m with
  | zero => simp [Nat.repeat]
  | succ j ih =>
      have h : m * 2 ^ (j + 1) = 2 * m * 2 ^ j := by rw [Nat.pow_succ]; ring
      rw [Nat.repeat, h, ih]
      simp [ExtendedMantissa.shiftRightOne]

theorem log2_mul_pow (m j : Nat) (hm : m ≠ 0) : (m * 2 ^ j).log2 = m.log2 + j := by
  induction j with
  | zero => simp
  | succ j ih =>
      have h : m * 2 ^ (j + 1) = 2 * (m * 2 ^ j) := by rw [Nat.pow_succ]; ring
      have hne : m * 2 ^ j ≠ 0 := Nat.mul_ne_zero hm (by positivity)
      rw [h, Nat.log2_two_mul hne, ih]
      omega

theorem shiftRight_add (em : ExtendedMantissa) (i j : Nat) : em >>> (i + j) = (em >>> i) >>> j := by
  induction j with
  | zero => rfl
  | succ j ih =>
      change ExtendedMantissa.shiftRightOne (em >>> (i + j)) = _
      rw [ih]
      rfl

theorem mantissa_shiftRight (em : ExtendedMantissa) (j : Nat) :
    (em >>> j).mantissa = em.mantissa / 2 ^ j := by
  induction j with
  | zero => exact (Nat.div_one _).symm
  | succ j ih =>
      change (em >>> j).mantissa / 2 = _
      rw [ih, Nat.div_div_eq_div_mul, Nat.pow_succ]

theorem roundedMantissa_bounds (em : ExtendedMantissa) :
    em.mantissa ≤ em.roundedMantissa ∧ em.roundedMantissa ≤ em.mantissa + 1 := by
  obtain ⟨m, half, rest⟩ := em
  cases half <;> cases rest
  · exact ⟨le_rfl, Nat.le_succ m⟩
  · exact ⟨le_rfl, Nat.le_succ m⟩
  · -- a tie goes to the even mantissa
    change m ≤ m + m % 2 ∧ m + m % 2 ≤ m + 1
    omega
  · exact ⟨Nat.le_succ m, le_rfl⟩

/-! ## The two steps of rounding -/

/-- The exponent that `m * 2 ^ e` is rounded at. -/
def target (m : Nat) (e : Int) : Int := max ((m.log2 : Int) - 52 + e) (-1074)

theorem targetExponent_eq (m : Nat) (e : Int) :
    Format.binary64.targetExponent (totalExponent m e) = target m e := by
  simp only [Format.targetExponent, totalExponent, Format.mantissaBits, Format.minExponent, target]
  omega

theorem target_shift {m : Nat} (hm : m ≠ 0) (e : Int) (j : Nat) :
    target (m * 2 ^ j) (e - j) = target m e := by
  rw [target, target, log2_mul_pow m j hm]
  omega

/-- The mantissa of `m * 2 ^ e` at the exponent `t`, with what remains of the bits shifted out. -/
def shifted (m : Nat) (e t : Int) : ExtendedMantissa :=
  (⟨m * 2 ^ (e - t).toNat, false, false⟩ : ExtendedMantissa) >>> (t - e).toNat

/-- The parts that a rounded mantissa gives; it may have become one bit too long. -/
def settle (s : Sign) (m : Nat) (e : Int) : UnpackedFloat :=
  if h : m = 0 then .zero s
  else if m < 2 ^ 53 then .finite s m e (by omega)
  else .finite s (2 ^ 52) (e + 1) (by decide)

theorem settle_of_lt (s : Sign) {m : Nat} (e : Int) (hm : 0 < m) (hlt : m < 2 ^ 53) :
    settle s m e = .finite s m e hm := by
  have hne : m ≠ 0 := by omega
  simp only [settle, hne, hlt, dif_neg, not_false_iff, if_true]

theorem shifted_lt (m : Nat) (e : Int) : (shifted m e (target m e)).mantissa < 2 ^ 53 := by
  have ht : (m.log2 : Int) - 52 + e ≤ target m e := le_max_left _ _
  generalize target m e = t at ht
  rw [shifted, mantissa_shiftRight, Nat.div_lt_iff_lt_mul (by positivity)]
  calc m * 2 ^ (e - t).toNat < 2 ^ (m.log2 + 1) * 2 ^ (e - t).toNat :=
        Nat.mul_lt_mul_of_pos_right Nat.lt_log2_self (by positivity)
    _ = 2 ^ (m.log2 + 1 + (e - t).toNat) := (Nat.pow_add ..).symm
    _ ≤ 2 ^ (53 + (t - e).toNat) := Nat.pow_le_pow_right (by decide) (by omega)
    _ = 2 ^ 53 * 2 ^ (t - e).toNat := Nat.pow_add ..

/-- A mantissa of at most 53 bits is left where it is. -/
theorem shiftToTarget_of_lt {m : Nat} {e : Int} (hm : m < 2 ^ 53) (he : -1074 ≤ e) :
    shiftToTargetExponent Format.binary64 m e .exact = (⟨m, false, false⟩, e) := by
  have hlog : m.log2 ≤ 52 := by
    rcases Nat.eq_zero_or_pos m with rfl | h0
    · decide
    · exact Nat.le_of_lt_succ ((Nat.log2_lt (by omega)).mpr hm)
  have ht : (target m e - e).toNat = 0 := by
    rw [target]
    omega
  rw [shiftToTargetExponent, targetExponent_eq]
  simp only [shiftToExponent, ht, ExtendedMantissa.ofMantissaAndAccuracy]
  exact Prod.ext rfl (add_zero e)

theorem shiftToTarget_overflow {e : Int} (he : -1074 ≤ e) :
    shiftToTargetExponent Format.binary64 (2 ^ 53) e .exact = (⟨2 ^ 52, false, false⟩, e + 1) := by
  have hlog : (2 ^ 53 : Nat).log2 = 53 := Nat.log2_two_pow
  have ht : (target (2 ^ 53) e - e).toNat = 1 := by
    rw [target, hlog]
    omega
  rw [shiftToTargetExponent, targetExponent_eq]
  simp only [shiftToExponent, ht, ExtendedMantissa.ofMantissaAndAccuracy]
  exact Prod.ext (shiftRight_exact (2 ^ 52) 1) rfl

/-- What is left to do once the bits are in place. -/
theorem roundWithAccuracy_eq_settle (s : Sign) {m : Nat} {e t : Int} {accuracy : Accuracy}
    {em : ExtendedMantissa} (hm : em.mantissa < 2 ^ 53) (ht : -1074 ≤ t)
    (h : shiftToTargetExponent Format.binary64 m e accuracy = (em, t)) :
    roundWithAccuracy Format.binary64 s m e accuracy = settle s em.roundedMantissa t := by
  obtain ⟨-, hle⟩ := roundedMantissa_bounds em
  simp only [roundWithAccuracy, h]
  rcases Nat.lt_or_ge em.roundedMantissa (2 ^ 53) with hr | hr
  · simp only [shiftToTarget_of_lt hr ht, settle, hr, if_true]
  · have hfull : em.roundedMantissa = 2 ^ 53 := by omega
    simp only [hfull, shiftToTarget_overflow ht]
    rfl

theorem round_eq_settle (s : Sign) {m : Nat} (hm : m ≠ 0) (e : Int) :
    UnpackedFloat.round Format.binary64 s m e =
      settle s (shifted m e (target m e)).roundedMantissa (target m e) := by
  rw [UnpackedFloat.round, targetExponent_eq]
  simp only [decreaseExponent, Nat.shiftLeft_eq]
  refine roundWithAccuracy_eq_settle s (shifted_lt m e) (le_max_right _ _) ?_
  -- the shift ends at the target, from whichever side it comes
  rw [shiftToTargetExponent, targetExponent_eq, target_shift hm]
  generalize target m e = t
  have hshift : (t - (e - (e - t).toNat)).toNat = (t - e).toNat := by omega
  simp only [shiftToExponent, hshift, ExtendedMantissa.ofMantissaAndAccuracy, shifted]
  exact Prod.ext rfl (by dsimp only; omega)

/-! ## What rounding does -/

theorem shifted_shift (m : Nat) (e t : Int) (j : Nat) :
    shifted (m * 2 ^ j) (e - j) t = shifted m e t := by
  unfold shifted
  by_cases ht : t ≤ e
  · -- the zeros that were put behind `m` either stay or are shifted out again
    have hright : (t - e).toNat = 0 := by omega
    have hsplit : m * 2 ^ j * 2 ^ (e - j - t).toNat =
        m * 2 ^ (e - t).toNat * 2 ^ (t - (e - j)).toNat := by
      rw [Nat.mul_assoc, Nat.mul_assoc, ← Nat.pow_add, ← Nat.pow_add]
      congr 2
      omega
    rw [hsplit, shiftRight_exact, hright]
    rfl
  · have hleft : (e - t).toNat = 0 := by omega
    have hleft' : (e - j - t).toNat = 0 := by omega
    have hright : (t - (e - j)).toNat = j + (t - e).toNat := by omega
    rw [hleft, hleft', hright, Nat.pow_zero, Nat.mul_one, Nat.mul_one, shiftRight_add,
      shiftRight_exact]

theorem round_shift (s : Sign) {m : Nat} (hm : m ≠ 0) (e : Int) (j : Nat) :
    UnpackedFloat.round Format.binary64 s (m * 2 ^ j) (e - j) =
      UnpackedFloat.round Format.binary64 s m e := by
  have hne : m * 2 ^ j ≠ 0 := Nat.mul_ne_zero hm (by positivity)
  rw [round_eq_settle s hne, round_eq_settle s hm, target_shift hm, shifted_shift]

/-- Rounding depends on the value only. -/
theorem round_congr (s : Sign) {m n : Nat} {e f : Int} (hm : m ≠ 0) (hn : n ≠ 0)
    (h : (m : ℚ) * 2 ^ e = n * 2 ^ f) :
    UnpackedFloat.round Format.binary64 s m e = UnpackedFloat.round Format.binary64 s n f := by
  wlog hle : e ≤ f generalizing m n e f
  · exact (this hn hm h.symm (by omega)).symm
  obtain ⟨j, hj⟩ := Int.eq_ofNat_of_zero_le (by omega : 0 ≤ f - e)
  have he : e = f - j := by omega
  have hcast : (m : ℚ) = n * 2 ^ j := by
    have hpow : (2 : ℚ) ^ f = 2 ^ j * 2 ^ e := by
      rw [← zpow_natCast, ← zpow_add₀ (by norm_num)]
      congr 1
      omega
    rw [hpow, ← mul_assoc] at h
    exact mul_right_cancel₀ (by positivity) h
  have hmant : m = n * 2 ^ j := by exact_mod_cast hcast
  rw [hmant, he, round_shift s hn]

theorem target_double {s : Sign} {m : Nat} {e : Int} {hm : 0 < m}
    (h : IsDouble (.finite s m e hm)) : target m e = e := by
  obtain ⟨hlt, hle, -, hfull⟩ := h
  have hlog : m.log2 ≤ 52 := Nat.le_of_lt_succ ((Nat.log2_lt (by omega)).mpr hlt)
  rw [target]
  rcases hfull with hl | rfl
  · rw [log2_eq_of_bounds hl hlt]
    omega
  · omega

/-- Nothing is rounded when the mantissa of a double is followed by zeros. -/
theorem roundWithAccuracy_exact (s : Sign) {m : Nat} (j : Nat) {e : Int} (hm : 0 < m)
    (h : IsDouble (.finite s m e hm)) :
    roundWithAccuracy Format.binary64 s (m * 2 ^ j) (e - j) .exact = .finite s m e hm := by
  have hshift : shiftToTargetExponent Format.binary64 (m * 2 ^ j) (e - j) .exact =
      (⟨m, false, false⟩, e) := by
    have hj : (e - (e - (j : Int))).toNat = j := by omega
    rw [shiftToTargetExponent, targetExponent_eq, target_shift (by omega), target_double h]
    simp only [shiftToExponent, hj, ExtendedMantissa.ofMantissaAndAccuracy, shiftRight_exact]
    exact Prod.ext rfl (by dsimp only; omega)
  rw [roundWithAccuracy_eq_settle s h.1 h.2.1 hshift]
  exact settle_of_lt s e hm h.1

/-- The parts of a double are not changed. -/
theorem round_double (s : Sign) {m : Nat} {e : Int} (hm : 0 < m)
    (h : IsDouble (.finite s m e hm)) :
    UnpackedFloat.round Format.binary64 s m e = .finite s m e hm := by
  have hself : shifted m e e = ⟨m, false, false⟩ := by
    rw [shifted, Int.sub_self]
    exact congrArg (ExtendedMantissa.mk · false false) (Nat.mul_one m)
  rw [round_eq_settle s (by omega), target_double h, hself]
  exact settle_of_lt s e hm h.1

/-- Natural numbers from `2 ^ 53` on have a double with a positive exponent, or none. -/
theorem round_of_le (s : Sign) {n : Nat} (hn : 2 ^ 53 ≤ n) :
    ∃ m e, ∃ hm : 0 < m, 2 ^ 52 ≤ m ∧ m < 2 ^ 53 ∧ 1 ≤ e ∧
      UnpackedFloat.round Format.binary64 s n 0 = .finite s m e hm := by
  have hne : n ≠ 0 := by omega
  have hlog : 53 ≤ n.log2 := (Nat.le_log2 hne).mpr hn
  have ht : target n 0 = (n.log2 : Int) - 52 := by
    rw [target]
    omega
  have hlt := shifted_lt n 0
  have hge : 2 ^ 52 ≤ (shifted n 0 (target n 0)).mantissa := by
    rw [ht, shifted, mantissa_shiftRight, Nat.le_div_iff_mul_le (by positivity), ← Nat.pow_add]
    calc 2 ^ (52 + ((n.log2 : Int) - 52 - 0).toNat) = 2 ^ n.log2 := by congr 1; omega
      _ ≤ n := Nat.log2_self_le hne
      _ ≤ n * 2 ^ (0 - ((n.log2 : Int) - 52)).toNat := Nat.le_mul_of_pos_right _ (by positivity)
  obtain ⟨hr, hr'⟩ := roundedMantissa_bounds (shifted n 0 (target n 0))
  rw [round_eq_settle s hne]
  generalize (shifted n 0 (target n 0)).roundedMantissa = r at hr hr'
  unfold settle
  rw [dif_neg (by omega)]
  split_ifs with hfull
  · exact ⟨r, target n 0, by omega, by omega, hfull, by omega, rfl⟩
  · exact ⟨2 ^ 52, target n 0 + 1, by decide, le_rfl, by decide, by omega, rfl⟩

end Number

end ScriptLang
