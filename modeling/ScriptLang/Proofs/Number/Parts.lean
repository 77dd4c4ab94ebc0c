import Mathlib
import ScriptLang.Number.Dyadic

/-!
# The parts of a double

A double is taken apart into sign, mantissa and exponent, and put together again.
What `Number.magnitude` reads off the bits is what these parts stand for, and nothing is
lost on the way:

- `magnitude_eq_ofParts`: the exact meaning of a double is that of its parts,
- `unpack_pack`: parts that are in order are kept by the bits,
- `toBits_ofBits`: bits that do not stand for a NaN are kept by the double.
-/

namespace ScriptLang

namespace Number

open Float.Model Float.Model.UnpackedFloat

theorem toNat_append_eq {v w : Nat} (x : BitVec v) (y : BitVec w) :
    (x ++ y).toNat = x.toNat * 2 ^ w + y.toNat := by
  rw [BitVec.toNat_append, Nat.shiftLeft_eq, Nat.mul_comm]
  exact (Nat.two_pow_add_eq_or_of_lt y.isLt x.toNat).symm

theorem log2_eq_of_bounds {m : Nat} (hl : 2 ^ 52 ≤ m) (hu : m < 2 ^ 53) : m.log2 = 52 := by
  have hm : m ≠ 0 := by intro h; rw [h] at hl; exact absurd hl (by decide)
  have h1 := (Nat.le_log2 hm).mpr hl
  have h2 := (Nat.log2_lt hm).mpr hu
  omega

/-! ## Bits, parts and meaning -/

/-- The meaning of 64 bits. -/
def ofBits (bits : Nat) : Magnitude :=
  if bits / 2 ^ 52 % 2 ^ 11 = 2047 then
    if bits % 2 ^ 52 = 0 then .infinite (bits / 2 ^ 63 == 1) else .nan
  else if bits / 2 ^ 52 % 2 ^ 11 = 0 then .finite ⟨bits / 2 ^ 63 == 1, bits % 2 ^ 52, -1074⟩
  else
    .finite ⟨bits / 2 ^ 63 == 1, 2 ^ 52 + bits % 2 ^ 52,
      -1074 + ((bits / 2 ^ 52 % 2 ^ 11 : Nat) : Int) - 1⟩

theorem magnitude_eq_ofBits (x : Float) : magnitude x = ofBits x.toBits.toNat := rfl

/-- The meaning of a sign, a mantissa and an exponent. -/
def ofParts : UnpackedFloat → Magnitude
  | .notANumber => .nan
  | .infinity s => .infinite (s == .negative)
  | .zero s => .finite ⟨s == .negative, 0, -1074⟩
  | .finite s m e _ => .finite ⟨s == .negative, m, e⟩

theorem toNat_unpackMantissa (b : BitVec 64) :
    (@unpackMantissa Format.binary64 b).toNat = b.toNat % 2 ^ 52 := by
  rw [unpackMantissa_def]
  change (b.extractLsb' 0 52).toNat = _
  rw [BitVec.extractLsb'_toNat, Nat.shiftRight_zero]

theorem toNat_unpackExponent (b : BitVec 64) :
    (@unpackExponent Format.binary64 b).toNat = b.toNat / 2 ^ 52 % 2 ^ 11 := by
  rw [unpackExponent_def]
  change (b.extractLsb' 52 11).toNat = _
  rw [BitVec.extractLsb'_toNat, Nat.shiftRight_eq_div_pow]

theorem ofBitVec_unpackSign (b : BitVec 64) :
    (Sign.ofBitVec (@unpackSign Format.binary64 b) == .negative) = (b.toNat / 2 ^ 63 == 1) := by
  have hb := b.isLt
  have hsign : (@unpackSign Format.binary64 b).toNat = b.toNat / 2 ^ 63 := by
    rw [unpackSign_def]
    change (b.extractLsb' 63 1).toNat = _
    rw [BitVec.extractLsb'_toNat, Nat.shiftRight_eq_div_pow]
    omega
  rw [← hsign]
  generalize @unpackSign Format.binary64 b = v
  revert v
  decide

theorem ofParts_unpack (b : BitVec 64) :
    ofParts (UnpackedFloat.unpack Format.binary64 b) = ofBits b.toNat := by
  have hbias : Format.binary64.exponentBias = 1023 := by decide
  have hwidth : ((Format.binary64.mantissaBitsWithoutImplicit : Nat) : Int) = 52 := rfl
  have hmask : @unpackExponent Format.binary64 b = -1#11 ↔ b.toNat / 2 ^ 52 % 2 ^ 11 = 2047 := by
    rw [← toNat_unpackExponent, ← BitVec.toNat_inj]
    rfl
  have hnull : @unpackExponent Format.binary64 b = 0#11 ↔ b.toNat / 2 ^ 52 % 2 ^ 11 = 0 := by
    rw [← toNat_unpackExponent, ← BitVec.toNat_inj]
    rfl
  have hzero : @unpackMantissa Format.binary64 b = 0#52 ↔ b.toNat % 2 ^ 52 = 0 := by
    rw [← toNat_unpackMantissa, ← BitVec.toNat_inj]
    rfl
  rw [ofBits, ← ofBitVec_unpackSign]
  -- an infinity, a NaN, a zero, a subnormal and a normal number
  fun_cases UnpackedFloat.unpack Format.binary64 b with
  | case1 mantissa exponent signVec sign h1 h2 =>
      rw [if_pos (hmask.mp h1), if_pos (hzero.mp h2)]
      rfl
  | case2 mantissa exponent h1 h2 =>
      rw [if_pos (hmask.mp h1), if_neg (mt hzero.mpr h2)]
      rfl
  | case3 mantissa exponent signVec sign h1 h2 h3 =>
      rw [if_neg (mt hmask.mpr h1), if_pos (hnull.mp h2), hzero.mp h3]
      rfl
  | case4 mantissa exponentVec exponent signVec sign h1 h2 h3 =>
      rw [if_neg (mt hmask.mpr h1), if_pos (hnull.mp h2), ← toNat_unpackMantissa]
      have hvec : exponentVec.toNat = 0 := by rw [h2]; rfl
      have he : exponent = -1075 := by simp only [exponent, hbias, hwidth, hvec]; rfl
      simp only [ofParts, he]
      rfl
  | case5 mantissa exponentVec exponent signVec sign h1 h2 =>
      rw [if_neg (mt hmask.mpr h1), if_neg (mt hnull.mpr h2), ← toNat_unpackMantissa,
        ← toNat_unpackExponent]
      have he : exponent = -1074 + (exponentVec.toNat : Int) - 1 := by
        simp only [exponent, hbias, hwidth]
        omega
      simp only [ofParts, he, toNat_append_eq]
      rfl

/-- The exact meaning of a double is that of its parts. -/
theorem magnitude_eq_ofParts (x : Float) : magnitude x = ofParts x.toModel.unpack :=
  (ofParts_unpack x.toBits.toBitVec).symm

/-- Bits that do not stand for a NaN are kept. -/
theorem toBits_ofBits {u : UInt64} (h : u.toNat / 2 ^ 52 % 2 ^ 11 ≠ 2047) :
    (Float.ofBits u).toBits = u := by
  have hnan : @isNaNBits Format.binary64 u.toBitVec = false := by
    have hexp : @unpackExponent Format.binary64 u.toBitVec ≠ -1#11 := by
      rw [Ne, ← BitVec.toNat_inj, toNat_unpackExponent]
      exact h
    exact decide_eq_false fun hb => hexp hb.1
  apply UInt64.toBitVec_inj.mp
  change UnpackedFloat.pack Format.binary64 (UnpackedFloat.unpack Format.binary64 u.toBitVec) = _
  rw [pack_unpack, hnan]
  rfl

/-! ## Parts of doubles -/

/-- The parts are those of a double: the mantissa has 53 bits or, at the least exponent, less. -/
def IsDouble : UnpackedFloat → Prop
  | .finite _ m e _ => m < 2 ^ 53 ∧ -1074 ≤ e ∧ e ≤ 971 ∧ (2 ^ 52 ≤ m ∨ e = -1074)
  | _ => True

theorem ofBits_finite {bits : Nat} {d : Dyadic} (h : ofBits bits = .finite d) :
    d.mantissa < 2 ^ 53 ∧ -1074 ≤ d.exponent ∧ d.exponent ≤ 971 ∧
      (2 ^ 52 ≤ d.mantissa ∨ d.exponent = -1074) := by
  have hexp : bits / 2 ^ 52 % 2 ^ 11 < 2048 := Nat.mod_lt _ (by decide)
  have hfrac : bits % 2 ^ 52 < 2 ^ 52 := Nat.mod_lt _ (by decide)
  unfold ofBits at h
  generalize bits / 2 ^ 52 % 2 ^ 11 = biased at h hexp
  generalize bits % 2 ^ 52 = fraction at h hfrac
  split_ifs at h with h1 h2 h3
  · cases h
    dsimp only
    omega
  · cases h
    dsimp only
    omega

theorem isDouble_unpack (x : Float) : IsDouble x.toModel.unpack := by
  have h : ofParts x.toModel.unpack = ofBits x.toBits.toNat := ofParts_unpack x.toBits.toBitVec
  generalize x.toModel.unpack = p at h
  cases p with
  | finite s m e hm => exact ofBits_finite h.symm
  | _ => trivial

theorem pack_finite {s : Sign} {m : Nat} {e : Int} (hm : 0 < m)
    (h : IsDouble (.finite s m e hm)) :
    UnpackedFloat.pack Format.binary64 (.finite s m e hm) =
      packComponents Format.binary64 s
        (if 2 ^ 52 ≤ m then BitVec.ofNat 11 (e + 1075).toNat else 0#11) (BitVec.ofNat 52 m) := by
  obtain ⟨hlt, hle, hge, hfull⟩ := h
  have hbias : e + Format.binary64.exponentBias + Format.binary64.mantissaBitsWithoutImplicit =
      e + 1075 := by
    change e + (1023 : Nat) + (52 : Nat) = _
    omega
  simp only [UnpackedFloat.pack, hbias]
  rw [if_neg (by show ¬ 2 ^ 11 ≤ (e + 1075).toNat + 1; omega)]
  by_cases hnormal : 2 ^ 52 ≤ m
  · rw [if_pos hnormal, if_pos (by rw [log2_eq_of_bounds hnormal hlt]; rfl)]
  · have hlog : m.log2 < 52 := (Nat.log2_lt (by omega)).mpr (by omega)
    rw [if_neg hnormal, if_neg (by show ¬ m.log2 + 1 = 53; omega)]

theorem unpack_packComponents_normal (s : Sign) {m : Nat} {e : Int} (hm : 0 < m)
    (hl : 2 ^ 52 ≤ m) (hu : m < 2 ^ 53) (hle : -1074 ≤ e) (hge : e ≤ 971) :
    UnpackedFloat.unpack Format.binary64 (packComponents Format.binary64 s
      (BitVec.ofNat 11 (e + 1075).toNat) (BitVec.ofNat 52 m)) = .finite s m e hm := by
  have hbias : Format.binary64.exponentBias = 1023 := by decide
  have hwidth : ((Format.binary64.mantissaBitsWithoutImplicit : Nat) : Int) = 52 := rfl
  have hexp : (BitVec.ofNat 11 (e + 1075).toNat).toNat = (e + 1075).toNat := by
    rw [BitVec.toNat_ofNat, Nat.mod_eq_of_lt (by omega)]
  have hmask : BitVec.ofNat 11 (e + 1075).toNat ≠ -1#11 := by
    rw [Ne, ← BitVec.toNat_inj, hexp]
    change (e + 1075).toNat ≠ 2047
    omega
  have hnull : BitVec.ofNat 11 (e + 1075).toNat ≠ 0#11 := by
    rw [Ne, ← BitVec.toNat_inj, hexp]
    change (e + 1075).toNat ≠ 0
    omega
  -- the leading bit is left out of the bits and put back
  have hmant : (1#1 ++ BitVec.ofNat 52 m).toNat = m := by
    rw [toNat_append_eq]
    change 1 * 2 ^ 52 + m % 2 ^ 52 = m
    omega
  simp only [UnpackedFloat.unpack, unpackExponent_packComponents, unpackMantissa_packComponents,
    unpackSign_packComponents, Sign.ofBitVec_toBitVec, hmask, hnull, if_false, hmant, hexp, hbias,
    hwidth, UnpackedFloat.finite.injEq, true_and]
  omega

theorem unpack_packComponents_subnormal (s : Sign) {m : Nat} (hm : 0 < m) (hu : m < 2 ^ 52) :
    UnpackedFloat.unpack Format.binary64 (packComponents Format.binary64 s 0#11
      (BitVec.ofNat 52 m)) = .finite s m (-1074) hm := by
  have hmant : (BitVec.ofNat 52 m).toNat = m := by
    rw [BitVec.toNat_ofNat, Nat.mod_eq_of_lt hu]
  have hmask : 0#11 ≠ -1#11 := by decide
  have hzero : BitVec.ofNat 52 m ≠ 0#52 := by
    rw [Ne, ← BitVec.toNat_inj, hmant]
    exact Nat.pos_iff_ne_zero.mp hm
  simp only [UnpackedFloat.unpack, unpackExponent_packComponents, unpackMantissa_packComponents,
    unpackSign_packComponents, Sign.ofBitVec_toBitVec, hmask, hzero, if_false, if_true, dif_neg,
    not_false_iff, hmant]
  rfl

/-- Parts of a double are kept by its bits. -/
theorem unpack_pack {p : UnpackedFloat} (h : IsDouble p) : (Float.Model.pack p).unpack = p := by
  change UnpackedFloat.unpack Format.binary64 (UnpackedFloat.pack Format.binary64 p) = p
  cases p with
  | notANumber => exact unpack_packedNaN
  | infinity s => cases s <;> rfl
  | zero s => exact unpack_packedZero
  | finite s m e hm =>
      rw [pack_finite hm h]
      obtain ⟨hlt, hle, hge, hfull⟩ := h
      by_cases hnormal : 2 ^ 52 ≤ m
      · rw [if_pos hnormal]
        exact unpack_packComponents_normal s hm hnormal hlt hle hge
      · rw [if_neg hnormal, hfull.resolve_left hnormal]
        exact unpack_packComponents_subnormal s hm (by omega)

end Number

end ScriptLang
