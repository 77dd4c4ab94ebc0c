import Mathlib
import ScriptLang.Proofs.Number.Exact

/-!
# Differences of doubles

The difference of two finite doubles is the exact difference, rounded. For integers this is
enough to compare it with a natural number below `2 ^ 53` as if nothing had been rounded.
-/

namespace ScriptLang

namespace Number

open Float.Model Float.Model.UnpackedFloat

/-! ## The rounded difference -/

theorem apply_decrease (s : Sign) (m : ℕ) {e f : ℤ} (h : f ≤ e) :
    ((s.apply (m <<< (e - f).toNat : ℕ) : ℤ) : ℚ) * 2 ^ f = (s.apply m : ℤ) * 2 ^ e := by
  have hpow : (2 : ℚ) ^ e = 2 ^ (e - f).toNat * 2 ^ f := by
    rw [← zpow_natCast, ← zpow_add₀ (by norm_num)]
    congr 1
    omega
  rw [Nat.shiftLeft_eq, hpow]
  cases s <;> simp only [Sign.apply] <;> push_cast <;> ring

/-- The parts are those of a number, rounded. -/
def Rounds (p : UnpackedFloat) (q : ℚ) : Prop :=
  (q = 0 ∧ ∃ s, p = .zero s) ∨
    ∃ s m e, 0 < m ∧ (s.apply m : ℤ) * 2 ^ e = q ∧ p = UnpackedFloat.round Format.binary64 s m e

theorem rounds_normalize (z e : ℤ) :
    Rounds (UnpackedFloat.normalize Format.binary64 z e .positive) (z * 2 ^ e) := by
  unfold UnpackedFloat.normalize
  rcases lt_trichotomy z 0 with h | rfl | h
  · have hcast : ((-z).toNat : ℤ) = -z := Int.toNat_of_nonneg (by omega)
    rw [Int.compare_eq_lt.mpr h]
    refine Or.inr ⟨.negative, _, e, by omega, ?_, rfl⟩
    simp only [Sign.apply, hcast, neg_neg]
  · exact Or.inl ⟨by simp, .positive, rfl⟩
  · have hcast : (z.toNat : ℤ) = z := Int.toNat_of_nonneg h.le
    rw [Int.compare_eq_gt.mpr h]
    refine Or.inr ⟨.positive, _, e, by omega, ?_, rfl⟩
    simp only [Sign.apply, hcast]

theorem rounds_sub {p q : UnpackedFloat} {a b : ℚ} (hp : IsDouble p) (hq : IsDouble q)
    (ha : value? p = some a) (hb : value? q = some b) :
    Rounds (UnpackedFloat.sub Format.binary64 p q) (a - b) := by
  cases p with
  | zero s =>
      cases ha
      cases q with
      | zero s' =>
          cases hb
          refine Or.inl ⟨sub_zero 0, ?_⟩
          simp only [UnpackedFloat.sub]
          split_ifs
          · exact ⟨_, rfl⟩
          · exact ⟨_, rfl⟩
      | finite s' m e hm =>
          cases hb
          refine Or.inr ⟨-s', m, e, hm, ?_, (round_double (-s') hm hq).symm⟩
          rw [apply_neg]
          push_cast
          ring
      | _ => cases hb
  | finite s m e hm =>
      cases ha
      cases q with
      | zero s' =>
          cases hb
          exact Or.inr ⟨s, m, e, hm, (sub_zero _).symm, (round_double s hm hp).symm⟩
      | finite s' m' e' hm' =>
          cases hb
          -- at the lower one of the exponents the difference is one of integers
          rw [← apply_decrease s m (min_le_left e e'), ← apply_decrease s' m' (min_le_right e e'),
            ← sub_mul, ← Int.cast_sub]
          exact rounds_normalize _ _
      | _ => cases hb
  | _ => cases ha

/-! ## Comparing with a natural number -/

theorem pack_overflow (s : Sign) {m : ℕ} {e : ℤ} (hm : 0 < m) (he : 971 < e) :
    (Float.Model.pack (.finite s m e hm)).unpack = .infinity s := by
  have hpack : UnpackedFloat.pack Format.binary64 (.finite s m e hm) =
      UnpackedFloat.pack Format.binary64 (.infinity s) := by
    have hbias : e + Format.binary64.exponentBias + Format.binary64.mantissaBitsWithoutImplicit =
        e + 1075 := by
      change e + (1023 : ℕ) + (52 : ℕ) = _
      omega
    simp only [UnpackedFloat.pack, hbias]
    exact if_pos (by omega)
  have hinf : (Float.Model.pack (.infinity s)).unpack = .infinity s := unpack_pack trivial
  change UnpackedFloat.unpack Format.binary64 (UnpackedFloat.pack Format.binary64 _) = _
  rw [hpack]
  exact hinf

/-- The sign of a rounded number is kept by its bits. -/
theorem unpackSign_pack_round (s : Sign) {m : ℕ} (hm : m ≠ 0) (e : ℤ) :
    unpackSign (UnpackedFloat.pack Format.binary64 (UnpackedFloat.round Format.binary64 s m e)) =
      s.toBitVec := by
  have hfinite (n : ℕ) (f : ℤ) (hn : 0 < n) :
      unpackSign (UnpackedFloat.pack Format.binary64 (.finite s n f hn)) = s.toBitVec := by
    simp only [UnpackedFloat.pack, packedInfinity]
    split_ifs <;> exact unpackSign_packComponents ..
  rw [round_eq_settle s hm]
  unfold settle
  split_ifs
  · exact unpackSign_packComponents ..
  · exact hfinite ..
  · exact hfinite ..

theorem compare_wholeParts_negative {n : ℕ} (h0 : 0 < n) (hn : n < 2 ^ 53) {b : BitVec 64}
    (hb : @unpackSign Format.binary64 b = 1#1) :
    (wholeParts n h0 hn).compare (UnpackedFloat.unpack Format.binary64 b) ≠ some .lt := by
  have hsign : Sign.ofBitVec (@unpackSign Format.binary64 b) = .negative := by
    rw [hb]
    rfl
  unfold UnpackedFloat.unpack
  dsimp only
  rw [hsign]
  split_ifs <;> simp [wholeParts, UnpackedFloat.compare]

theorem compare_round_natural {n k : ℕ} (h0 : 0 < n) (hn : n < 2 ^ 53) (hk0 : 0 < k) :
    (wholeParts n h0 hn).compare
      (Float.Model.pack (UnpackedFloat.round Format.binary64 .positive k 0)).unpack = some .lt ↔
      n < k := by
  by_cases hk : k < 2 ^ 53
  · have hround := round_whole 0 hk0 hk
    simp only [Nat.pow_zero, Nat.mul_one, Int.natCast_zero, Int.neg_zero] at hround
    rw [hround, unpack_pack_wholeParts, compare_wholeParts]
  · obtain ⟨m, e, hm, hl, hu, he, hround⟩ := round_of_le .positive (by omega : 2 ^ 53 ≤ k)
    rw [hround, iff_true_right (by omega)]
    by_cases hover : 971 < e
    · rw [pack_overflow .positive hm hover]
      rfl
    · have hdouble : IsDouble (.finite .positive m e hm) := ⟨hu, by omega, by omega, Or.inl hl⟩
      have hlog := log2_le h0 hn
      have hcmp : compare ((n.log2 : ℤ) - 52) e = .lt := Int.compare_eq_lt.mpr (by omega)
      rw [unpack_pack hdouble]
      simp only [wholeParts, UnpackedFloat.compare, hcmp]
      rfl

/-- A rounded integer is greater than a natural number below `2 ^ 53` exactly if the integer
itself is. -/
theorem compare_rounds {n : ℕ} (h0 : 0 < n) (hn : n < 2 ^ 53) {p : UnpackedFloat} {z : ℤ}
    (hp : Rounds p z) :
    (wholeParts n h0 hn).compare (Float.Model.pack p).unpack = some .lt ↔ (n : ℤ) < z := by
  rcases hp with ⟨hz, s, rfl⟩ | ⟨s, m, e, hm, hz, rfl⟩
  · obtain rfl : z = 0 := by exact_mod_cast hz
    have hzero : (Float.Model.pack (.zero s)).unpack = .zero s := unpack_pack trivial
    rw [hzero]
    simp [wholeParts, UnpackedFloat.compare]
  have hpos : (0 : ℚ) < m * 2 ^ e := by positivity
  cases s with
  | negative =>
      have hneg : (z : ℚ) < 0 := by
        simp only [Sign.apply, Int.cast_neg, Int.cast_natCast] at hz
        linarith
      have hneg' : z < 0 := by exact_mod_cast hneg
      have hsign := unpackSign_pack_round .negative (by omega : m ≠ 0) e
      have hcmp := compare_wholeParts_negative h0 hn hsign
      constructor
      · intro h
        exact absurd h hcmp
      · intro h
        omega
  | positive =>
      simp only [Sign.apply, Int.cast_natCast] at hz
      have hz0 : 0 < z := by
        rw [hz] at hpos
        exact_mod_cast hpos
      lift z to ℕ using hz0.le with k
      -- the same number at the exponent zero
      have hvalue : (m : ℚ) * 2 ^ e = k * 2 ^ (0 : ℤ) := by
        rw [hz, zpow_zero, mul_one, Int.cast_natCast]
      rw [round_congr .positive (by omega) (by omega : k ≠ 0) hvalue,
        compare_round_natural h0 hn (by omega), Nat.cast_lt]

theorem toModel_sub (x y : Float) : (x - y).toModel =
    Float.Model.pack (UnpackedFloat.sub Format.binary64 x.toModel.unpack y.toModel.unpack) := rfl

/-- The difference of two integers is compared with a natural number below `2 ^ 53` as if it were
not rounded. -/
theorem ofNat_lt_sub {n : ℕ} (h0 : 0 < n) (hn : n < 2 ^ 53) {x y : Float} {a b : ℤ}
    (hx : HasValue x a) (hy : HasValue y b) : Float.ofNat n < x - y ↔ (n : ℤ) < a - b := by
  have hsub := rounds_sub (isDouble_unpack x) (isDouble_unpack y) (hasValue_iff.mp hx)
    (hasValue_iff.mp hy)
  rw [← Int.cast_sub] at hsub
  rw [lt_iff_compare, unpack_ofNat h0 hn, toModel_sub]
  exact compare_rounds h0 hn hsub

/-! ## Infinities and NaN -/

theorem magnitude_eq_nan {x : Float} : magnitude x = .nan ↔ x.toModel.unpack = .notANumber := by
  rw [magnitude_eq_ofParts]
  cases x.toModel.unpack <;> simp [ofParts]

theorem magnitude_eq_infinite {x : Float} {s : Sign} :
    magnitude x = .infinite (s == .negative) ↔ x.toModel.unpack = .infinity s := by
  rw [magnitude_eq_ofParts]
  cases x.toModel.unpack with
  | infinity s' => cases s <;> cases s' <;> simp [ofParts]
  | _ => simp [ofParts]

theorem isNaN_iff_magnitude {x : Float} : x.isNaN = true ↔ magnitude x = .nan := by
  rw [magnitude_eq_nan]
  exact UnpackedFloat.isNaN_iff

/-- Nothing is less than a difference from or to a NaN. -/
theorem not_lt_sub_nan (c : Float) {x y : Float} (h : magnitude x = .nan ∨ magnitude y = .nan) :
    ¬ c < x - y := by
  have hsub : UnpackedFloat.sub Format.binary64 x.toModel.unpack y.toModel.unpack =
      .notANumber := by
    rcases h with h | h
    · rw [magnitude_eq_nan.mp h]
      rfl
    · rw [magnitude_eq_nan.mp h]
      cases x.toModel.unpack <;> rfl
  have hnan : (Float.Model.pack .notANumber).unpack = .notANumber := unpack_pack trivial
  rw [lt_iff_compare, toModel_sub, hsub, hnan]
  cases c.toModel.unpack <;> simp [UnpackedFloat.compare]

theorem ofNat_lt_of_infinite {n : ℕ} (h0 : 0 < n) (hn : n < 2 ^ 53) {x y : Float}
    (h : UnpackedFloat.sub Format.binary64 x.toModel.unpack y.toModel.unpack =
      .infinity .positive) : Float.ofNat n < x - y := by
  have hinf : (Float.Model.pack (.infinity .positive)).unpack = .infinity .positive :=
    unpack_pack trivial
  rw [lt_iff_compare, unpack_ofNat h0 hn, toModel_sub, h, hinf]
  rfl

/-- Every natural number is less than infinity minus a number or negative infinity. -/
theorem ofNat_lt_infinity_sub {n : ℕ} (h0 : 0 < n) (hn : n < 2 ^ 53) {x y : Float}
    (hx : magnitude x = .infinite false) (hy : magnitude y ≠ .infinite false)
    (hnan : magnitude y ≠ .nan) : Float.ofNat n < x - y := by
  apply ofNat_lt_of_infinite h0 hn
  rw [(magnitude_eq_infinite (s := .positive)).mp hx]
  have hy' := mt (magnitude_eq_infinite (s := .positive)).mpr hy
  have hnan' := mt magnitude_eq_nan.mpr hnan
  cases hq : y.toModel.unpack with
  | notANumber => exact absurd hq hnan'
  | infinity s =>
      cases s with
      | positive => exact absurd hq hy'
      | negative => rfl
  | _ => rfl

/-- Every natural number is less than a number or infinity minus negative infinity. -/
theorem ofNat_lt_sub_infinity {n : ℕ} (h0 : 0 < n) (hn : n < 2 ^ 53) {x y : Float}
    (hy : magnitude y = .infinite true) (hx : magnitude x ≠ .infinite true)
    (hnan : magnitude x ≠ .nan) : Float.ofNat n < x - y := by
  apply ofNat_lt_of_infinite h0 hn
  rw [(magnitude_eq_infinite (s := .negative)).mp hy]
  have hx' := mt (magnitude_eq_infinite (s := .negative)).mpr hx
  have hnan' := mt magnitude_eq_nan.mpr hnan
  cases hp : x.toModel.unpack with
  | notANumber => exact absurd hp hnan'
  | infinity s =>
      cases s with
      | negative => exact absurd hp hx'
      | positive => rfl
  | _ => rfl

end Number

end ScriptLang
