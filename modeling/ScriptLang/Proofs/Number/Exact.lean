import Mathlib
import ScriptLang.Proofs.Number.Whole

/-!
# The exact value of a double

A finite double is a rational number. Dropping the fraction, changing the sign and
converting integers below `2 ^ 53` give the number that they should, without rounding.
-/

namespace ScriptLang

namespace Number

/-- The integer next to `q` on the way to zero. -/
def towardZero (q : ℚ) : ℤ := if 0 ≤ q then ⌊q⌋ else ⌈q⌉

theorem towardZero_neg (q : ℚ) : towardZero (-q) = -towardZero q := by
  unfold towardZero
  rcases lt_trichotomy q 0 with h | rfl | h
  · rw [if_pos (by linarith), if_neg (by linarith), Int.floor_neg]
  · simp
  · rw [if_neg (by linarith), if_pos (by linarith), Int.ceil_neg]

theorem abs_towardZero_le (q : ℚ) : |(towardZero q : ℚ)| ≤ |q| := by
  unfold towardZero
  split_ifs with h
  · have hfloor : (0 : ℚ) ≤ ⌊q⌋ := by exact_mod_cast Int.floor_nonneg.mpr h
    rw [abs_of_nonneg hfloor, abs_of_nonneg h]
    exact Int.floor_le q
  · have hceil : (⌈q⌉ : ℚ) ≤ 0 := by exact_mod_cast Int.ceil_le.mpr (by push_cast; linarith)
    rw [abs_of_nonpos hceil, abs_of_neg (by linarith)]
    exact neg_le_neg (Int.le_ceil q)

@[simp]
theorem towardZero_intCast (z : ℤ) : towardZero z = z := by
  simp [towardZero]

end Number

namespace Dyadic

/-- The number that it stands for. -/
def toRat (d : Dyadic) : ℚ := (if d.negative then -1 else 1) * (d.mantissa * 2 ^ d.exponent)

theorem wholePart_eq_floor (d : Dyadic) :
    (d.wholePart : ℤ) = ⌊(d.mantissa * 2 ^ d.exponent : ℚ)⌋ := by
  unfold wholePart
  split_ifs with h
  · obtain ⟨k, hk⟩ := Int.eq_ofNat_of_zero_le h
    have hcast : (d.mantissa * 2 ^ d.exponent : ℚ) = ((d.mantissa * 2 ^ k : ℕ) : ℤ) := by
      rw [hk]
      push_cast
      rw [zpow_natCast]
    rw [hcast, Int.floor_intCast, hk]
    rfl
  · obtain ⟨k, hk⟩ := Int.eq_ofNat_of_zero_le (by omega : 0 ≤ -d.exponent)
    have hexp : d.exponent = -(k : ℤ) := by omega
    have hcast : (d.mantissa * 2 ^ d.exponent : ℚ) = (d.mantissa : ℚ) / ((2 ^ k : ℕ) : ℚ) := by
      rw [hexp, zpow_neg, zpow_natCast, div_eq_mul_inv]
      push_cast
      rfl
    rw [hcast, Rat.floor_natCast_div_natCast, hk]
    rfl

/-- The integer next to `d` toward zero is that of its value. -/
theorem truncate_eq (d : Dyadic) : d.truncate = Number.towardZero d.toRat := by
  have hpos : (0 : ℚ) ≤ d.mantissa * 2 ^ d.exponent := by positivity
  have hfloor : (d.wholePart : ℤ) = Number.towardZero (d.mantissa * 2 ^ d.exponent) := by
    rw [Number.towardZero, if_pos hpos, wholePart_eq_floor]
  unfold truncate toRat
  cases d.negative
  · simp [hfloor]
  · simp [hfloor, Number.towardZero_neg]

theorem toRat_eq_truncate {d : Dyadic} (h : d.isWhole = true) : d.toRat = d.truncate := by
  have hwhole : (d.mantissa * 2 ^ d.exponent : ℚ) = d.wholePart := by
    unfold wholePart
    simp only [isWhole, Bool.or_eq_true, decide_eq_true_eq, beq_iff_eq] at h
    split_ifs with hexp
    · obtain ⟨k, hk⟩ := Int.eq_ofNat_of_zero_le hexp
      rw [hk, zpow_natCast]
      simp
    · obtain ⟨k, hk⟩ := Int.eq_ofNat_of_zero_le (by omega : 0 ≤ -d.exponent)
      have hdvd : 2 ^ k ∣ d.mantissa := by
        have := h.resolve_left hexp
        rw [hk] at this
        exact Nat.dvd_of_mod_eq_zero this
      have hexp' : d.exponent = -(k : ℤ) := by omega
      have hdiv : ((d.mantissa / 2 ^ k : ℕ) : ℚ) = d.mantissa / ((2 ^ k : ℕ) : ℚ) :=
        Nat.cast_div hdvd (by positivity)
      rw [hk, hexp', zpow_neg, zpow_natCast, ← div_eq_mul_inv]
      push_cast at hdiv
      exact hdiv.symm
  unfold toRat truncate
  rw [hwhole]
  cases d.negative <;> simp

end Dyadic

namespace Number

open Float.Model Float.Model.UnpackedFloat

/-- The double is finite, and this number. -/
def HasValue (x : Float) (q : ℚ) : Prop := ∃ d, magnitude x = .finite d ∧ d.toRat = q

theorem exists_hasValue {x : Float} (hnan : magnitude x ≠ .nan)
    (hinf : ∀ negative, magnitude x ≠ .infinite negative) : ∃ q, HasValue x q := by
  cases h : magnitude x with
  | finite d => exact ⟨_, d, h, rfl⟩
  | infinite negative => exact absurd h (hinf negative)
  | nan => exact absurd h hnan

/-- The number that parts stand for. -/
def value? : UnpackedFloat → Option ℚ
  | .zero _ => some 0
  | .finite s m e _ => some (s.apply m * 2 ^ e)
  | _ => none

theorem hasValue_iff {x : Float} {q : ℚ} : HasValue x q ↔ value? x.toModel.unpack = some q := by
  unfold HasValue
  rw [magnitude_eq_ofParts]
  cases x.toModel.unpack with
  | zero s => cases s <;> simp [ofParts, value?, Dyadic.toRat]
  | finite s m e hm => cases s <;> simp [ofParts, value?, Dyadic.toRat, Sign.apply]
  | _ => simp [ofParts, value?]

/-- A double can be given by parts that are in order. -/
theorem hasValue_of_pack {x : Float} {p : UnpackedFloat} {q : ℚ} (hp : IsDouble p)
    (hx : x.toModel = Float.Model.pack p) (hq : value? p = some q) : HasValue x q := by
  rw [hasValue_iff, hx, unpack_pack hp, hq]

theorem IsDouble.neg {p : UnpackedFloat} (h : IsDouble p) : IsDouble p.neg := by
  cases p with
  | finite s m e hm => exact h
  | _ => trivial

theorem apply_neg (s : Sign) (z : ℤ) : (-s).apply z = -s.apply z := by
  cases s with
  | negative => exact (neg_neg z).symm
  | positive => rfl

theorem value?_neg (p : UnpackedFloat) : value? p.neg = (value? p).map fun q => -q := by
  cases p with
  | zero s => simp [UnpackedFloat.neg, value?]
  | finite s m e hm =>
      simp only [UnpackedFloat.neg, value?, apply_neg, Option.map_some]
      push_cast
      rw [neg_mul]
  | _ => rfl

theorem HasValue.neg {x : Float} {q : ℚ} (h : HasValue x q) : HasValue (-x) (-q) := by
  have hneg : (-x).toModel = Float.Model.pack x.toModel.unpack.neg := rfl
  refine hasValue_of_pack (isDouble_unpack x).neg hneg ?_
  rw [value?_neg, hasValue_iff.mp h, Option.map_some]

theorem value?_wholeParts {n : ℕ} (h0 : 0 < n) (hn : n < 2 ^ 53) :
    value? (wholeParts n h0 hn) = some (n : ℚ) := by
  have hlog := log2_le h0 hn
  have hexp : ((n.log2 : ℤ) - 52) = -((52 - n.log2 : ℕ) : ℤ) := by omega
  simp only [value?, wholeParts, Sign.apply, wholeMantissa, hexp, zpow_neg, zpow_natCast]
  push_cast
  rw [mul_inv_cancel_right₀ (by positivity)]

theorem hasValue_ofNat {n : ℕ} (hn : n < 2 ^ 53) : HasValue (Float.ofNat n) n := by
  rcases Nat.eq_zero_or_pos n with rfl | h0
  · exact hasValue_iff.mpr (by rw [unpack_ofNat_zero]; simp [value?])
  exact hasValue_of_pack (wholeParts_isDouble h0 hn) (toModel_ofNat h0 hn) (value?_wholeParts h0 hn)

/-- Integers below `2 ^ 53` in absolute value are converted exactly. -/
theorem hasValue_ofInt {z : ℤ} (hz : z.natAbs < 2 ^ 53) : HasValue (Float.ofInt z) z := by
  cases z with
  | ofNat n => exact hasValue_ofNat hz
  | negSucc n =>
      have h := (hasValue_ofNat (n := n + 1) hz).neg
      rw [Int.cast_negSucc]
      exact h

/-! ## Putting doubles together -/

theorem magnitude_ofBits (negative : Bool) {biased fraction : ℕ} (hb : biased < 2047)
    (hf : fraction < 2 ^ 52) :
    magnitude (Float.ofBits (UInt64.ofNat
      ((if negative then 2 ^ 63 else 0) + biased * 2 ^ 52 + fraction))) =
      if biased = 0 then .finite ⟨negative, fraction, -1074⟩
      else .finite ⟨negative, 2 ^ 52 + fraction, -1074 + (biased : ℤ) - 1⟩ := by
  generalize hbits : (if negative then 2 ^ 63 else 0) + biased * 2 ^ 52 + fraction = bits
  have hsign : (if negative then 2 ^ 63 else 0) = (if negative then 1 else 0) * 2 ^ 63 := by
    cases negative <;> rfl
  have hle : (if negative then 1 else 0) ≤ 1 := by cases negative <;> decide
  have hneg : (bits / 2 ^ 63 == 1) = negative := by
    have hdiv : bits / 2 ^ 63 = if negative then 1 else 0 := by
      rw [hsign] at hbits
      omega
    rw [hdiv]
    cases negative <;> rfl
  rw [hsign] at hbits
  have hword : (UInt64.ofNat bits).toNat = bits := by
    rw [UInt64.toNat_ofNat', Nat.mod_eq_of_lt (by omega)]
  have hexp : bits / 2 ^ 52 % 2 ^ 11 = biased := by omega
  have hfrac : bits % 2 ^ 52 = fraction := by omega
  rw [magnitude_eq_ofBits, toBits_ofBits (by rw [hword, hexp]; omega), hword, ofBits, hneg, hexp,
    hfrac, if_neg (by omega)]

theorem toFloat_zero (negative : Bool) (e : ℤ) : Dyadic.toFloat ⟨negative, 0, e⟩ =
    Float.ofBits (UInt64.ofNat ((if negative then 2 ^ 63 else 0) + 0 * 2 ^ 52 + 0)) := by
  cases negative <;> rfl

/-- The mantissa is filled up to 53 bits, as far as the exponent can be lowered for it. -/
theorem toFloat_eq (negative : Bool) {m : ℕ} (e : ℤ) (hm : m ≠ 0) :
    Dyadic.toFloat ⟨negative, m, e⟩ =
      Float.ofBits (UInt64.ofNat ((if negative then 2 ^ 63 else 0) +
        (if 52 - m.log2 ≤ (e + 1074).toNat then (e + 1074).toNat - (52 - m.log2) + 1 else 0) *
          2 ^ 52 +
        m * 2 ^ min (52 - m.log2) (e + 1074).toNat % 2 ^ 52)) := by
  rw [Dyadic.toFloat]
  simp only [hm, if_false]
  rfl

/-- A mantissa below `2 ^ 53` at an exponent that is not out of range makes a double of the same
value. -/
theorem hasValue_toFloat {d : Dyadic} (hm : d.mantissa < 2 ^ 53) (hle : -1074 ≤ d.exponent)
    (hge : d.exponent + d.mantissa.log2 ≤ 1023) : HasValue d.toFloat d.toRat := by
  obtain ⟨negative, m, e⟩ := d
  simp only at hm hle hge
  rcases Nat.eq_zero_or_pos m with rfl | h0
  · refine ⟨⟨negative, 0, -1074⟩, ?_, by simp [Dyadic.toRat]⟩
    rw [toFloat_zero, magnitude_ofBits negative (by decide) (by decide), if_pos rfl]
  have hlog := log2_le h0 hm
  have hfull : 2 ^ 52 ≤ m * 2 ^ (52 - m.log2) ∧ m * 2 ^ (52 - m.log2) < 2 ^ 53 :=
    wholeMantissa_bounds h0 hm
  have hscale (k : ℕ) : ((m * 2 ^ k : ℕ) : ℚ) * 2 ^ (e - k) = m * 2 ^ e := by
    rw [zpow_sub₀ (by norm_num), zpow_natCast]
    push_cast
    field_simp
  rw [HasValue, toFloat_eq negative e (by omega)]
  by_cases hroom : 52 - m.log2 ≤ (e + 1074).toNat
  · -- a full mantissa, whose leading bit the bits leave out
    have hmod : m * 2 ^ (52 - m.log2) % 2 ^ 52 = m * 2 ^ (52 - m.log2) - 2 ^ 52 := by omega
    have hmant : 2 ^ 52 + (m * 2 ^ (52 - m.log2) - 2 ^ 52) = m * 2 ^ (52 - m.log2) := by omega
    have hexp : -1074 + (((e + 1074).toNat - (52 - m.log2) + 1 : ℕ) : ℤ) - 1 =
        e - ((52 - m.log2 : ℕ) : ℤ) := by omega
    rw [if_pos hroom, min_eq_left hroom, hmod, magnitude_ofBits negative (by omega) (by omega),
      if_neg (by omega), hmant, hexp]
    exact ⟨_, rfl, by simp only [Dyadic.toRat, hscale]⟩
  · -- the least exponent is reached before
    have hexp : (-1074 : ℤ) = e - ((e + 1074).toNat : ℤ) := by omega
    have hlt : m * 2 ^ (e + 1074).toNat < 2 ^ 52 := by
      have hmono : m * 2 ^ ((e + 1074).toNat + 1) ≤ m * 2 ^ (52 - m.log2) :=
        Nat.mul_le_mul_left _ (Nat.pow_le_pow_right (by decide) (by omega))
      rw [Nat.pow_succ, ← Nat.mul_assoc] at hmono
      omega
    rw [if_neg hroom, min_eq_right (by omega), Nat.mod_eq_of_lt hlt,
      magnitude_ofBits negative (by decide) hlt, if_pos rfl, hexp]
    exact ⟨_, rfl, by simp only [Dyadic.toRat, hscale]⟩

/-- Dropping the fraction goes to the next integer toward zero. -/
theorem HasValue.truncated {x : Float} {q : ℚ} (h : HasValue x q) :
    HasValue (truncated x) (towardZero q) := by
  obtain ⟨d, hd, rfl⟩ := h
  obtain ⟨hlt, -, -, -⟩ := ofBits_finite hd
  simp only [Number.truncated, hd]
  rw [← d.truncate_eq]
  split_ifs with hwhole
  · exact ⟨d, hd, Dyadic.toRat_eq_truncate hwhole⟩
  · have hpart : d.wholePart < 2 ^ 53 := by
      have hexp : ¬ 0 ≤ d.exponent := fun hexp => hwhole (by simp [Dyadic.isWhole, hexp])
      rw [Dyadic.wholePart, if_neg hexp]
      exact lt_of_le_of_lt (Nat.div_le_self _ _) hlt
    have hlog : d.wholePart.log2 ≤ 52 := by
      rcases Nat.eq_zero_or_pos d.wholePart with h0 | h0
      · simp [h0]
      · exact log2_le h0 hpart
    have hvalue : Dyadic.toRat ⟨d.negative, d.wholePart, 0⟩ = d.truncate := by
      unfold Dyadic.truncate
      cases d.negative <;> simp [Dyadic.toRat]
    rw [← hvalue]
    refine hasValue_toFloat hpart ?_ ?_
    · dsimp only
      decide
    · dsimp only
      omega

theorem HasValue.clampedInt {x : Float} {q : ℚ} (h : HasValue x q) (lo hi : ℤ) :
    clampedInt lo hi x = max lo (min hi (towardZero q)) := by
  obtain ⟨d, hd, rfl⟩ := h
  rw [Number.clampedInt, hd, ← d.truncate_eq]

/-- The integer part is that of the number without its fraction. -/
theorem clampedInt_truncated (lo hi : ℤ) (x : Float) :
    Number.clampedInt lo hi (truncated x) = Number.clampedInt lo hi x := by
  cases h : magnitude x with
  | finite d =>
      have hx : HasValue x d.toRat := ⟨d, h, rfl⟩
      rw [hx.truncated.clampedInt, hx.clampedInt, towardZero_intCast]
  | infinite negative => simp only [truncated, h]
  | nan => simp only [truncated, h]

theorem magnitude_truncated_ne {x : Float} {m : Magnitude} (hm : ∀ d, m ≠ .finite d)
    (h : magnitude x ≠ m) : magnitude (truncated x) ≠ m := by
  cases hx : magnitude x with
  | finite d =>
      obtain ⟨d', hd', -⟩ := HasValue.truncated ⟨d, hx, rfl⟩
      rw [hd']
      exact (hm d').symm
  | infinite negative => simpa only [truncated, hx] using h
  | nan => simpa only [truncated, hx] using h

end Number

end ScriptLang
