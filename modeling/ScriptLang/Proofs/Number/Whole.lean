import Mathlib
import ScriptLang.Proofs.Number.Rounding

/-!
# Doubles of natural numbers

Natural numbers below `2 ^ 53` have an exact double. The mantissa is filled up
to 53 bits, so taking the double apart and rounding it give the same parts back,
and counting by ones, comparing and using the number as an index are exact:

- `ofNat_add_one`: adding one,
- `ofNat_lt_ofNat`: comparing,
- `toIndex_ofNat`: the integer part.
-/

namespace ScriptLang

namespace Number

open Float.Model Float.Model.UnpackedFloat

/-! ## The parts of a natural number -/

/-- The mantissa of a natural number, filled up to 53 bits. -/
def wholeMantissa (n : Nat) : Nat := n * 2 ^ (52 - n.log2)

theorem log2_le {n : Nat} (h0 : 0 < n) (hn : n < 2 ^ 53) : n.log2 ≤ 52 := by
  have := (Nat.log2_lt (by omega : n ≠ 0)).mpr hn
  omega

theorem wholeMantissa_bounds {n : Nat} (h0 : 0 < n) (hn : n < 2 ^ 53) :
    2 ^ 52 ≤ wholeMantissa n ∧ wholeMantissa n < 2 ^ 53 := by
  have hne : n ≠ 0 := by omega
  have hlog := log2_le h0 hn
  have hl := Nat.log2_self_le hne
  have hu := Nat.lt_log2_self (n := n)
  unfold wholeMantissa
  constructor
  · calc 2 ^ 52 = 2 ^ n.log2 * 2 ^ (52 - n.log2) := by rw [← Nat.pow_add]; congr 1; omega
      _ ≤ n * 2 ^ (52 - n.log2) := Nat.mul_le_mul_right _ hl
  · calc n * 2 ^ (52 - n.log2) < 2 ^ (n.log2 + 1) * 2 ^ (52 - n.log2) :=
          Nat.mul_lt_mul_of_pos_right hu (by positivity)
      _ = 2 ^ 53 := by rw [← Nat.pow_add]; congr 1; omega

/-- The double of a positive natural number below `2 ^ 53`, taken apart. -/
def wholeParts (n : Nat) (h0 : 0 < n) (hn : n < 2 ^ 53) : UnpackedFloat :=
  .finite .positive (wholeMantissa n) ((n.log2 : Int) - 52)
    (by have := wholeMantissa_bounds h0 hn; omega)

theorem wholeParts_isDouble {n : Nat} (h0 : 0 < n) (hn : n < 2 ^ 53) :
    IsDouble (wholeParts n h0 hn) := by
  obtain ⟨hl, hu⟩ := wholeMantissa_bounds h0 hn
  have hlog := log2_le h0 hn
  exact ⟨hu, by omega, by omega, Or.inl hl⟩

theorem round_whole {n : Nat} (k : Nat) (h0 : 0 < n) (hn : n < 2 ^ 53) :
    UnpackedFloat.round Format.binary64 .positive (n * 2 ^ k) (-(k : Int)) =
      wholeParts n h0 hn := by
  have hne : n ≠ 0 := by omega
  have hlog := log2_le h0 hn
  have hexp : ((n.log2 : Int) - 52) = 0 - ((52 - n.log2 : Nat) : Int) := by omega
  calc UnpackedFloat.round Format.binary64 .positive (n * 2 ^ k) (-(k : Int))
      = UnpackedFloat.round Format.binary64 .positive n 0 := by
        rw [← Int.zero_sub, round_shift .positive hne]
    _ = UnpackedFloat.round Format.binary64 .positive (wholeMantissa n) ((n.log2 : Int) - 52) := by
        rw [wholeMantissa, hexp, round_shift .positive hne]
    _ = wholeParts n h0 hn := round_double .positive _ (wholeParts_isDouble h0 hn)

/-- A natural number is read back from its bits. -/
theorem unpack_pack_wholeParts {n : Nat} (h0 : 0 < n) (hn : n < 2 ^ 53) :
    (Float.Model.pack (wholeParts n h0 hn)).unpack = wholeParts n h0 hn :=
  unpack_pack (wholeParts_isDouble h0 hn)

/-! ## Doubles of natural numbers -/

theorem one_parts :
    (1.0 : Float).toModel.unpack = .finite .positive (2 ^ 52) (-52) (by decide) := by
  rfl

theorem ofNat_zero : Float.ofNat 0 = 0.0 := by
  rfl

theorem ofUInt64_eq {n : Nat} (h0 : 0 < n) (hn : n < 2 ^ 53) :
    UnpackedFloat.ofUInt64 Format.binary64 n.toUInt64 = wholeParts n h0 hn := by
  have hword : n.toUInt64.toNat = n := by simp; omega
  have hcmp : compare (n : Int) 0 = .gt := Int.compare_eq_gt.mpr (by omega)
  have h := round_whole 0 h0 hn
  simp only [Nat.pow_zero, Nat.mul_one, Int.natCast_zero, Int.neg_zero] at h
  simp only [UnpackedFloat.ofUInt64, UnpackedFloat.ofNat, UnpackedFloat.ofInt,
    UnpackedFloat.normalize, hword, hcmp, Int.toNat_natCast, h]

/-- Converting a natural number below `2 ^ 53` loses nothing. -/
theorem toModel_ofNat {n : Nat} (h0 : 0 < n) (hn : n < 2 ^ 53) :
    (Float.ofNat n).toModel = Float.Model.pack (wholeParts n h0 hn) := by
  have hfast : Float.ofNat n = n.toUInt64.toFloat * Float.ofBits 0x3FF0000000000000 := by
    change Float.ofScientific n false 0 = _
    rw [Float.ofScientific, dif_pos ⟨hn, by decide⟩]
    rfl
  have hone : (Float.ofBits 0x3FF0000000000000).toModel.unpack =
      .finite .positive (2 ^ 52) (-52) (by decide) := one_parts
  rw [hfast]
  change Float.Model.pack (UnpackedFloat.mul Format.binary64
    (Float.Model.pack (UnpackedFloat.ofUInt64 Format.binary64 n.toUInt64)).unpack
    (Float.ofBits 0x3FF0000000000000).toModel.unpack) = _
  rw [ofUInt64_eq h0 hn, unpack_pack_wholeParts, hone, wholeParts]
  congr 1
  exact roundWithAccuracy_exact .positive 52 _ (wholeParts_isDouble h0 hn)

theorem unpack_ofNat {n : Nat} (h0 : 0 < n) (hn : n < 2 ^ 53) :
    (Float.ofNat n).toModel.unpack = wholeParts n h0 hn := by
  rw [toModel_ofNat h0 hn, unpack_pack_wholeParts]

theorem float_ext {x y : Float} (h : x.toModel = y.toModel) : x = y := by
  cases x
  cases y
  cases h
  rfl

/-- Adding one to a natural number below `2 ^ 53 - 1` is exact. -/
theorem ofNat_add_one {n : Nat} (hn : n + 1 < 2 ^ 53) :
    Float.ofNat n + 1.0 = Float.ofNat (n + 1) := by
  rcases Nat.eq_zero_or_pos n with rfl | h0
  · rfl
  apply float_ext
  rw [toModel_ofNat (by omega) hn]
  change Float.Model.pack (UnpackedFloat.add Format.binary64 (Float.ofNat n).toModel.unpack
    (1.0 : Float).toModel.unpack) = _
  rw [unpack_ofNat h0 (by omega), one_parts, wholeParts]
  congr 1
  -- at the exponent of one, both summands are multiples of `2 ^ 52`
  have hlog := log2_le h0 (by omega)
  have hmin : min ((n.log2 : Int) - 52) (-52) = -52 := by omega
  have h1 : ((n.log2 : Int) - 52 - (-52)).toNat = n.log2 := by omega
  have h2 : wholeMantissa n * 2 ^ n.log2 = n * 2 ^ 52 := by
    rw [wholeMantissa, Nat.mul_assoc, ← Nat.pow_add]
    congr 2
    omega
  have hsum : ((n * 2 ^ 52 : Nat) : Int) + ((2 ^ 52 : Nat) : Int) =
      (((n + 1) * 2 ^ 52 : Nat) : Int) := by
    push_cast
    ring
  have hcmp : compare (((n + 1) * 2 ^ 52 : Nat) : Int) 0 = .gt :=
    Int.compare_eq_gt.mpr (by positivity)
  have hround := round_whole 52 (by omega : 0 < n + 1) hn
  simp only [UnpackedFloat.add, hmin, decreaseExponent, h1, Nat.shiftLeft_eq, h2, Sign.apply,
    Int.sub_self, Int.toNat_zero, Nat.pow_zero, Nat.mul_one, hsum, UnpackedFloat.normalize, hcmp,
    Int.toNat_natCast]
  exact hround

theorem unpack_ofNat_zero : (Float.ofNat 0).toModel.unpack = .zero .positive := rfl

/-- Doubles are compared by their parts. -/
theorem lt_iff_compare (x y : Float) :
    x < y ↔ x.toModel.unpack.compare y.toModel.unpack = some .lt := by
  change decide (x.toModel.unpack.lt y.toModel.unpack = true) = true ↔ _
  simp [UnpackedFloat.lt]

theorem compare_wholeParts {a b : Nat} (ha0 : 0 < a) (ha : a < 2 ^ 53) (hb0 : 0 < b)
    (hb : b < 2 ^ 53) :
    (wholeParts a ha0 ha).compare (wholeParts b hb0 hb) = some .lt ↔ a < b := by
  simp only [wholeParts, UnpackedFloat.compare, Option.some.injEq]
  rcases Nat.lt_trichotomy a.log2 b.log2 with h | h | h
  · have hcmp : compare ((a.log2 : Int) - 52) ((b.log2 : Int) - 52) = .lt :=
      Int.compare_eq_lt.mpr (by omega)
    have hab : a < b := by
      have h1 := Nat.lt_log2_self (n := a)
      have h2 := Nat.log2_self_le (by omega : b ≠ 0)
      have h3 : 2 ^ (a.log2 + 1) ≤ 2 ^ b.log2 := Nat.pow_le_pow_right (by decide) h
      omega
    simp [hcmp, hab]
  · have hcmp : compare ((a.log2 : Int) - 52) ((b.log2 : Int) - 52) = .eq :=
      Int.compare_eq_eq.mpr (by omega)
    rw [hcmp, Ordering.eq_then, Nat.compare_eq_lt, wholeMantissa, wholeMantissa, h]
    exact Nat.mul_lt_mul_right (by positivity)
  · have hcmp : compare ((a.log2 : Int) - 52) ((b.log2 : Int) - 52) = .gt :=
      Int.compare_eq_gt.mpr (by omega)
    have hab : ¬ a < b := by
      have h1 := Nat.lt_log2_self (n := b)
      have h2 := Nat.log2_self_le (by omega : a ≠ 0)
      have h3 : 2 ^ (b.log2 + 1) ≤ 2 ^ a.log2 := Nat.pow_le_pow_right (by decide) h
      omega
    simp [hcmp, hab]

/-- Natural numbers below `2 ^ 53` are compared as such. -/
theorem ofNat_lt_ofNat {a b : Nat} (ha : a < 2 ^ 53) (hb : b < 2 ^ 53) :
    Float.ofNat a < Float.ofNat b ↔ a < b := by
  rw [lt_iff_compare]
  rcases Nat.eq_zero_or_pos a with rfl | ha0 <;> rcases Nat.eq_zero_or_pos b with rfl | hb0
  · simp [unpack_ofNat_zero, UnpackedFloat.compare]
  · rw [unpack_ofNat_zero, unpack_ofNat hb0 hb]
    simp [wholeParts, UnpackedFloat.compare, hb0]
  · rw [unpack_ofNat_zero, unpack_ofNat ha0 ha]
    simp [wholeParts, UnpackedFloat.compare]
  · rw [unpack_ofNat ha0 ha, unpack_ofNat hb0 hb]
    exact compare_wholeParts ha0 ha hb0 hb

theorem magnitude_ofNat {n : Nat} (h0 : 0 < n) (hn : n < 2 ^ 53) :
    magnitude (Float.ofNat n) = .finite ⟨false, wholeMantissa n, (n.log2 : Int) - 52⟩ := by
  rw [magnitude_eq_ofParts, unpack_ofNat h0 hn]
  rfl

/-- A natural number below `2 ^ 53` is an index of its own. -/
theorem toIndex_ofNat {n : Nat} (hn : n < 2 ^ 53) : toIndex (Float.ofNat n) = n := by
  rcases Nat.eq_zero_or_pos n with rfl | h0
  · decide +kernel
  have hlog := log2_le h0 hn
  have hwhole : Dyadic.wholePart ⟨false, wholeMantissa n, (n.log2 : Int) - 52⟩ = n := by
    unfold Dyadic.wholePart
    by_cases h : n.log2 = 52
    · rw [if_pos (by simp only; omega)]
      simp [wholeMantissa, h]
    · rw [if_neg (by simp only; omega)]
      have hk : (-((n.log2 : Int) - 52)).toNat = 52 - n.log2 := by omega
      simp only [hk, Nat.pow_eq, wholeMantissa]
      exact Nat.mul_div_cancel _ (by positivity)
  simp only [toIndex, clampedInt, magnitude_ofNat h0 hn, Dyadic.truncate, hwhole]
  simp
  omega

end Number

end ScriptLang
