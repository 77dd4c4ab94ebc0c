import Mathlib
import ScriptLang.Proofs.Number.Difference
import ScriptLang.Value.Builtin

/-!
# The numbers between two bounds

Whether a range is too large is decided on doubles, while its items are counted with
integers of 64 bits. Neither the rounding of the difference nor the clamping of the bounds
lets a range through that is too large: a difference of integers is compared with the limit
as if it were exact, and clamping brings two bounds only nearer to each other.

The one way past the limit is a NaN. No comparison holds of it, and as an integer it is zero,
so a range from or to a NaN is never refused and is the range from or to zero.
-/

namespace ScriptLang

namespace Builtin

open Number

/-- The number that a bound of a range is read as. -/
def bound (v : Value) : Float := v.number?.getD 0.0

/-- A range was refused for its size, or is not larger than the limit. -/
def WithinLimit (result : Except Fault Value) : Prop :=
  (∃ fault, result = .error fault ∧ fault.kind = "MemoryError") ∨
    ∃ items, result = .ok (.array items) ∧ items.size ≤ sequenceLimit

/-- The items are the integers from `a` up to but excluding `b`. -/
def Counts (items : Array Value) (a b : ℤ) : Prop :=
  items.size = (b - a).toNat ∧
    ∀ i (h : i < items.size), ∃ x, items[i] = .number x ∧ HasValue x (a + i : ℤ)

/-! ## The items -/

theorem size_numbersFrom (lo hi : ℤ) : (numbersFrom lo hi).size = (hi - lo).toNat := by
  rw [numbersFrom, Array.size_map, Array.size_range]

theorem numbersFrom_counts {lo hi : ℤ} (hlo : -2 ^ 53 < lo) (hhi : hi < 2 ^ 53) :
    Counts (numbersFrom lo hi) lo hi := by
  refine ⟨size_numbersFrom lo hi, fun i h => ?_⟩
  rw [size_numbersFrom] at h
  refine ⟨Float.ofInt (lo + i), ?_, hasValue_ofInt (by omega)⟩
  simp only [numbersFrom, Array.getElem_map, Array.getElem_range]

/-! ## The limit -/

theorem sequenceLimit_bounds : 0 < sequenceLimit ∧ sequenceLimit < 2 ^ 53 := by decide

theorem numberRange_eq (first last : Value) :
    numberRange first last =
      if Float.ofNat sequenceLimit < truncated (bound last) - truncated (bound first) then
        .error (.rangeTooLarge (truncated (bound last) - truncated (bound first)))
      else .ok (.array (numbersFrom (toIndex (bound first)) (toIndex (bound last)))) := by
  have hindex (x : Float) : toIndex (truncated x) = toIndex x := clampedInt_truncated ..
  rw [← hindex (bound first), ← hindex (bound last)]
  rfl

/-- Between numbers a range is refused exactly if it is too large. -/
theorem limit_lt_iff {x y : Float} {p q : ℚ} (hx : HasValue x p) (hy : HasValue y q) :
    Float.ofNat sequenceLimit < truncated y - truncated x ↔
      (sequenceLimit : ℤ) < towardZero q - towardZero p :=
  ofNat_lt_sub sequenceLimit_bounds.1 sequenceLimit_bounds.2 hy.truncated hx.truncated

theorem toIndex_bounds (x : Float) :
    -9223372036854775808 ≤ toIndex x ∧ toIndex x ≤ 9223372036854775807 := by
  unfold toIndex clampedInt
  split
  · omega
  · split <;> omega
  · decide

/-- Clamped bounds are not farther from each other than the bounds. -/
theorem toIndex_sub_le {x y : Float} {p q : ℚ} (hx : HasValue x p) (hy : HasValue y q) :
    toIndex y - toIndex x ≤ max 0 (towardZero q - towardZero p) := by
  rw [toIndex, toIndex, hx.clampedInt, hy.clampedInt]
  omega

/-- A range without a NaN that is not refused is not too large. -/
theorem size_le_limit {x y : Float} (hx : magnitude x ≠ .nan) (hy : magnitude y ≠ .nan)
    (h : ¬ Float.ofNat sequenceLimit < truncated y - truncated x) :
    (toIndex y - toIndex x).toNat ≤ sequenceLimit := by
  obtain ⟨hpos, hlt⟩ := sequenceLimit_bounds
  obtain ⟨hxl, hxu⟩ := toIndex_bounds x
  obtain ⟨hyl, hyu⟩ := toIndex_bounds y
  -- nothing lies above the greatest or below the least integer
  by_cases hxtop : magnitude x = .infinite false
  · have : toIndex x = 9223372036854775807 := by rw [toIndex, clampedInt, hxtop]; rfl
    omega
  by_cases hybot : magnitude y = .infinite true
  · have : toIndex y = -9223372036854775808 := by rw [toIndex, clampedInt, hybot]; rfl
    omega
  -- an infinite distance is refused
  by_cases hytop : magnitude y = .infinite false
  · refine absurd (ofNat_lt_infinity_sub hpos hlt ?_ ?_ ?_) h
    · rw [truncated, hytop, hytop]
    · exact magnitude_truncated_ne (by simp) hxtop
    · exact magnitude_truncated_ne (by simp) hx
  by_cases hxbot : magnitude x = .infinite true
  · refine absurd (ofNat_lt_sub_infinity hpos hlt ?_ ?_ ?_) h
    · rw [truncated, hxbot, hxbot]
    · exact magnitude_truncated_ne (by simp) hybot
    · exact magnitude_truncated_ne (by simp) hy
  obtain ⟨p, hp⟩ := exists_hasValue hx (Bool.forall_bool.mpr ⟨hxtop, hxbot⟩)
  obtain ⟨q, hq⟩ := exists_hasValue hy (Bool.forall_bool.mpr ⟨hytop, hybot⟩)
  have hle := toIndex_sub_le hp hq
  rw [limit_lt_iff hp hq] at h
  omega

/-! ## Ranges -/

theorem numberRange_nan {first last : Value}
    (h : magnitude (bound first) = .nan ∨ magnitude (bound last) = .nan) :
    numberRange first last =
      .ok (.array (numbersFrom (toIndex (bound first)) (toIndex (bound last)))) := by
  have hnan {x : Float} (hx : magnitude x = .nan) : magnitude (truncated x) = .nan := by
    rw [truncated, hx, hx]
  rw [numberRange_eq, if_neg (not_lt_sub_nan _ (h.symm.imp hnan hnan))]

theorem numberRange_withinLimit {first last : Value} (hx : magnitude (bound first) ≠ .nan)
    (hy : magnitude (bound last) ≠ .nan) : WithinLimit (numberRange first last) := by
  rw [numberRange_eq]
  split_ifs with h
  · exact Or.inl ⟨_, rfl, rfl⟩
  · exact Or.inr ⟨_, rfl, by rw [size_numbersFrom]; exact size_le_limit hx hy h⟩

theorem numberRange_counts {first last : Value} {p q : ℚ} (hx : HasValue (bound first) p)
    (hy : HasValue (bound last) q) (hp : |p| < 2 ^ 53) (hq : |q| < 2 ^ 53)
    (h : towardZero q - towardZero p ≤ sequenceLimit) :
    ∃ items, numberRange first last = .ok (.array items) ∧
      Counts items (towardZero p) (towardZero q) := by
  have habs {r : ℚ} (hr : |r| < 2 ^ 53) : |towardZero r| < 2 ^ 53 := by
    have := lt_of_le_of_lt (abs_towardZero_le r) hr
    exact_mod_cast this
  have hpa := abs_lt.mp (habs hp)
  have hqa := abs_lt.mp (habs hq)
  have hlo : toIndex (bound first) = towardZero p := by
    rw [toIndex, hx.clampedInt]
    omega
  have hhi : toIndex (bound last) = towardZero q := by
    rw [toIndex, hy.clampedInt]
    omega
  rw [numberRange_eq, hlo, hhi, if_neg (by rw [limit_lt_iff hx hy]; omega)]
  exact ⟨_, rfl, numbersFrom_counts hpa.1 hqa.2⟩

/-- For bounds that are not NaN, `range` keeps to its limit. Between numbers it is refused
exactly if there are too many integers between them, and if they are below `2 ^ 53` it gives
all of them. A NaN stands for zero and is never refused. -/
theorem range_withinLimit_unless_nan (first last : Value) :
    ∃ result, range.applyPure [first, last] = some result ∧
      ((bound first).isNaN = false → (bound last).isNaN = false → WithinLimit result) ∧
      (∀ p q, HasValue (bound first) p → HasValue (bound last) q →
        ((∃ fault, result = .error fault) ↔
          (sequenceLimit : ℤ) < towardZero q - towardZero p) ∧
        (|p| < 2 ^ 53 → |q| < 2 ^ 53 → towardZero q - towardZero p ≤ sequenceLimit →
          ∃ items, result = .ok (.array items) ∧ Counts items (towardZero p) (towardZero q))) ∧
      ((bound first).isNaN = true →
        result = .ok (.array (numbersFrom 0 (toIndex (bound last))))) ∧
      ((bound last).isNaN = true →
        result = .ok (.array (numbersFrom (toIndex (bound first)) 0))) := by
  have hnan {x : Float} (hx : x.isNaN = false) : magnitude x ≠ .nan := by
    rw [Ne, ← isNaN_iff_magnitude, hx]
    exact Bool.false_ne_true
  have hzero {x : Float} (hx : magnitude x = .nan) : toIndex x = 0 := by
    rw [toIndex, clampedInt, hx]
  refine ⟨numberRange first last, rfl, ?_, ?_, ?_, ?_⟩
  · intro hx hy
    exact numberRange_withinLimit (hnan hx) (hnan hy)
  · intro p q hx hy
    refine ⟨?_, numberRange_counts hx hy⟩
    rw [← limit_lt_iff hx hy, numberRange_eq]
    split_ifs with h <;> simp [h]
  · intro hx
    have hx' := isNaN_iff_magnitude.mp hx
    rw [numberRange_nan (Or.inl hx'), hzero hx']
  · intro hy
    have hy' := isNaN_iff_magnitude.mp hy
    rw [numberRange_nan (Or.inr hy'), hzero hy']

theorem range_around_zero :
    (∃ items, range.applyPure [.number (-1.5), .number 2.5] = some (.ok (.array items)) ∧
      WithinLimit (.ok (.array items)) ∧ Counts items (-1) 2) ∧
    range.applyPure [.number (0.0 / 0.0), .text "four"] = some (.ok (.array #[])) ∧
    range.applyPure [.text "four", .number (0.0 / 0.0)] = some (.ok (.array #[])) := by
  have hempty {n : ℤ} (hn : n ≤ 0) : numbersFrom 0 n = #[] := by
    refine Array.eq_empty_of_size_eq_zero ?_
    rw [size_numbersFrom, Int.sub_zero, Int.toNat_of_nonpos hn]
  refine ⟨?_, ?_, ?_⟩
  · obtain ⟨result, hresult, hlimit, hnumbers, -⟩ :=
      range_withinLimit_unless_nan (.number (-1.5)) (.number 2.5)
    have hfirst : HasValue (-1.5) (-3 / 2) :=
      ⟨⟨true, 6755399441055744, -52⟩, by decide +kernel, by norm_num [Dyadic.toRat]⟩
    have hlast : HasValue 2.5 (5 / 2) :=
      ⟨⟨false, 5629499534213120, -51⟩, by decide +kernel, by norm_num [Dyadic.toRat]⟩
    have hlo : towardZero (-3 / 2) = -1 := by norm_num [towardZero]
    have hhi : towardZero (5 / 2) = 2 := by norm_num [towardZero]
    have hwithin := hlimit (by decide +kernel) (by decide +kernel)
    obtain ⟨-, hcounts⟩ := hnumbers _ _ hfirst hlast
    obtain ⟨items, rfl, hitems⟩ := hcounts (by norm_num [abs_lt]) (by norm_num [abs_lt])
      (by rw [hlo, hhi]; decide)
    rw [hlo, hhi] at hitems
    exact ⟨items, hresult, hwithin, hitems⟩
  · obtain ⟨result, hresult, -, -, hnan, -⟩ :=
      range_withinLimit_unless_nan (.number (0.0 / 0.0)) (.text "four")
    rw [hresult, hnan (by decide +kernel), hempty (by decide +kernel)]
  · obtain ⟨result, hresult, -, -, -, hnan⟩ :=
      range_withinLimit_unless_nan (.text "four") (.number (0.0 / 0.0))
    have hzero : toIndex (bound (.text "four")) = 0 := by decide +kernel
    rw [hresult, hnan (by decide +kernel), hzero, hempty le_rfl]

/-- A range from a NaN is not empty, and may be larger than the limit. -/
theorem range_from_nan_exceeds_limit :
    (∃ items, range.applyPure [.number (0.0 / 0.0), .number 5.0] = some (.ok (.array items)) ∧
      items.size = 5) ∧
    ∃ items, range.applyPure [.number (0.0 / 0.0), .number 33554432.0] =
      some (.ok (.array items)) ∧ sequenceLimit < items.size := by
  have hnan : magnitude (bound (.number (0.0 / 0.0))) = .nan := by decide +kernel
  have hrange (y : Float) : range.applyPure [.number (0.0 / 0.0), .number y] =
      some (.ok (.array (numbersFrom 0 (toIndex y)))) :=
    congrArg some (numberRange_nan (Or.inl hnan))
  refine ⟨⟨_, hrange _, ?_⟩, ⟨_, hrange _, ?_⟩⟩
  · rw [size_numbersFrom]
    decide +kernel
  · rw [size_numbersFrom]
    decide +kernel

end Builtin

end ScriptLang
