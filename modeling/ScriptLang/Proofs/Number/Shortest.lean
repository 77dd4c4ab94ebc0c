import Mathlib
import ScriptLang.Proofs.Number.CorrectRounding
import ScriptLang.Proofs.Number.Display

/-!
# The fewest digits

A double is written with the fewest digits that read back. Whether a decimal reads back is
decided on natural numbers, and it means that no other double is nearer to the decimal
(`Dyadic.readsBack_iff`). Seventeen digits always do, since rounding to them moves a number by
less than half of the last place of its double, so the search ends (`Dyadic.shortest_near`).

In messages the digits are written without an exponent, and the text stands for the number that
was found (`toList_inMessage`).
-/

namespace ScriptLang

namespace Number

/-! ## Reading back -/

theorem pow_toNat_eq {b : ℚ} (hb : b ≠ 0) (z : ℤ) : b ^ z.toNat = b ^ z * b ^ (-z).toNat := by
  rw [← zpow_natCast, ← zpow_natCast, ← zpow_add₀ hb]
  congr 1
  omega

end Number

namespace Dyadic

open Number

/-- Halfway to the lower neighbour, which is nearer below a power of two. -/
theorem neighbourhood_fst {d : Dyadic} (hm : 0 < d.mantissa) : (d.neighbourhood.1 : ℚ) / 4 =
    if d.mantissa = hiddenBit ∧ leastExponent < d.exponent then (d.mantissa : ℚ) - 1 / 4
    else d.mantissa - 1 / 2 := by
  simp only [neighbourhood]
  split_ifs
  · rw [Nat.cast_sub (by omega)]
    push_cast
    ring
  · rw [Nat.cast_sub (by omega)]
    push_cast
    ring

theorem neighbourhood_snd (d : Dyadic) :
    (d.neighbourhood.2 : ℚ) / 4 = d.mantissa + 1 / 2 := by
  simp only [neighbourhood]
  push_cast
  ring

/-- A decimal is compared with quarters of the last place over a common scale. -/
theorem readsBack_iff_quarters (d : Dyadic) (n : ℕ) (e : ℤ) :
    d.readsBack n e = true ↔
      if d.mantissa % 2 = 0 then
        (d.neighbourhood.1 : ℚ) / 4 ≤ n * 10 ^ e / 2 ^ d.exponent ∧
          n * 10 ^ e / 2 ^ d.exponent ≤ (d.neighbourhood.2 : ℚ) / 4
      else
        (d.neighbourhood.1 : ℚ) / 4 < n * 10 ^ e / 2 ^ d.exponent ∧
          n * 10 ^ e / 2 ^ d.exponent < (d.neighbourhood.2 : ℚ) / 4 := by
  obtain ⟨k, hk⟩ : ∃ k, k = d.exponent - 2 := ⟨_, rfl⟩
  have hquarter : (2 : ℚ) ^ k = 2 ^ d.exponent / 4 := by
    rw [hk, zpow_sub₀ (by norm_num)]
    norm_num
  -- times this, all numbers that are compared are natural
  have hscale : (0 : ℚ) < 10 ^ (-e).toNat * 2 ^ (-k).toNat * 2 ^ d.exponent := by positivity
  have hvalue : ((n * 10 ^ e.toNat * 2 ^ (-k).toNat : ℕ) : ℚ) =
      n * 10 ^ e / 2 ^ d.exponent * (10 ^ (-e).toNat * 2 ^ (-k).toNat * 2 ^ d.exponent) := by
    push_cast
    rw [pow_toNat_eq (by norm_num) e]
    field_simp
  have hunit (c : ℕ) : ((c * (10 ^ (-e).toNat * 2 ^ k.toNat) : ℕ) : ℚ) =
      c / 4 * (10 ^ (-e).toNat * 2 ^ (-k).toNat * 2 ^ d.exponent) := by
    push_cast
    rw [pow_toNat_eq (by norm_num) k, hquarter]
    ring
  simp only [readsBack, Nat.pow_eq, ← hk]
  split_ifs
  · rw [Bool.and_eq_true, decide_eq_true_eq, decide_eq_true_eq, ← Nat.cast_le (α := ℚ),
      ← Nat.cast_le (α := ℚ), hvalue, hunit, hunit, mul_le_mul_iff_of_pos_right hscale,
      mul_le_mul_iff_of_pos_right hscale]
  · rw [Bool.and_eq_true, decide_eq_true_eq, decide_eq_true_eq, ← Nat.cast_lt (α := ℚ),
      ← Nat.cast_lt (α := ℚ), hvalue, hunit, hunit, mul_lt_mul_iff_of_pos_right hscale,
      mul_lt_mul_iff_of_pos_right hscale]

/-- A decimal reads back just if no other double is nearer to it. -/
theorem readsBack_iff {d : Dyadic} (hm : 0 < d.mantissa) (n : ℕ) (e : ℤ) :
    d.readsBack n e = true ↔ Near d.mantissa d.exponent (n * 10 ^ e) := by
  have heven : Even (d.mantissa : ℤ) ↔ d.mantissa % 2 = 0 := by
    rw [Int.even_coe_nat, Nat.even_iff]
  rw [readsBack_iff_quarters, neighbourhood_fst hm, neighbourhood_snd]
  -- below a power of two the doubles are twice as dense, so the lower bound is nearer there
  by_cases hedge : d.mantissa = hiddenBit ∧ leastExponent < d.exponent
  · have hmod : d.mantissa % 2 = 0 := by
      rw [hedge.1]
      rfl
    rw [if_pos hedge, if_pos hmod]
    constructor
    · rintro ⟨hl, hu⟩
      refine ⟨(nearest_of_even (heven.mpr hmod)).mpr ?_, fun _ _ => hl⟩
      rw [Int.cast_natCast, abs_le]
      constructor <;> linarith
    · intro h
      exact ⟨h.edge hedge.1 hedge.2, h.bounds.2⟩
  · have hnear : Near d.mantissa d.exponent (n * 10 ^ e) ↔
        Nearest (n * 10 ^ e / 2 ^ d.exponent) d.mantissa :=
      ⟨Near.nearest, fun h => ⟨h, fun hm he => absurd ⟨hm, he⟩ hedge⟩⟩
    rw [if_neg hedge, hnear]
    split_ifs with hmod
    · rw [nearest_of_even (heven.mpr hmod), Int.cast_natCast, abs_le, neg_le_sub_iff_le_add,
        sub_le_iff_le_add, sub_le_iff_le_add']
    · rw [nearest_of_not_even (mt heven.mp hmod), Int.cast_natCast, abs_lt, neg_lt_sub_iff_lt_add',
        sub_lt_iff_lt_add, sub_lt_iff_lt_add']

end Dyadic

namespace Number

/-! ## Seventeen digits -/

theorem roundDiv_cases (tie : TieRule) (num den : ℕ) :
    (roundDiv tie num den = num / den ∧ 2 * (num % den) ≤ den) ∨
      (roundDiv tie num den = num / den + 1 ∧ den ≤ 2 * (num % den)) := by
  unfold roundDiv
  cases tie with
  | toEven =>
      dsimp only
      split_ifs with hless hmore heven
      · exact Or.inl ⟨rfl, hless.le⟩
      · exact Or.inr ⟨rfl, hmore.le⟩
      · exact Or.inl ⟨rfl, not_lt.mp hmore⟩
      · exact Or.inr ⟨rfl, not_lt.mp hless⟩
  | away =>
      dsimp only
      split_ifs with hless hmore
      · exact Or.inl ⟨rfl, hless.le⟩
      · exact Or.inr ⟨rfl, hmore.le⟩
      · exact Or.inr ⟨rfl, not_lt.mp hless⟩

theorem abs_sub_roundDiv_le (tie : TieRule) (num : ℕ) {den : ℕ} (hden : 0 < den) :
    |(num : ℚ) / den - roundDiv tie num den| ≤ 1 / 2 := by
  have hden' : (0 : ℚ) < den := by exact_mod_cast hden
  rw [natCast_div_eq num hden]
  rcases roundDiv_cases tie num den with ⟨hround, h⟩ | ⟨hround, h⟩
  · have hhalf : ((num % den : ℕ) : ℚ) / den ≤ 1 / 2 := by
      rw [div_le_div_iff₀ hden' two_pos, one_mul, mul_comm]
      exact_mod_cast h
    rw [hround, add_sub_cancel_left, abs_of_nonneg (by positivity)]
    exact hhalf
  · have hhalf : 1 / 2 ≤ ((num % den : ℕ) : ℚ) / den := by
      rw [div_le_div_iff₀ two_pos hden', one_mul, mul_comm _ (2 : ℚ)]
      exact_mod_cast h
    have hlt : ((num % den : ℕ) : ℚ) / den < 1 := by
      rw [div_lt_one hden']
      exact_mod_cast Nat.mod_lt num hden
    rw [hround, Nat.cast_add, Nat.cast_one, abs_le]
    constructor <;> linarith

/-- A double differs by less than half of its last place from what is as near to it. -/
theorem near_of_close {m : ℕ} {e : ℤ} {q : ℚ} (hm : m < 2 ^ 53)
    (h : |q / 2 ^ e - m| ≤ m / (2 * 10 ^ 16)) : Near m e q := by
  refine ⟨Or.inl (h.trans_lt ?_), ?_⟩
  · have hcast : (m : ℚ) < 2 ^ 53 := by exact_mod_cast hm
    rw [div_lt_iff₀ (by norm_num)]
    norm_num at hcast ⊢
    linarith
  · intro hedge _
    have hlow := (abs_le.mp h).1
    have hquarter : (m : ℚ) / (2 * 10 ^ 16) ≤ 1 / 4 := by
      rw [hedge, div_le_iff₀ (by norm_num)]
      norm_num [hiddenBit, mantissaBits]
    linarith

/-- Seventeen digits are enough: rounding to them moves a number by less than one part in
`2 * 10 ^ 16`. -/
theorem near_of_seventeen {m n : ℕ} {e : ℤ} (hm : 0 < m) (hlt : m < 2 ^ 53)
    (h : |(m : ℚ) * 2 ^ e / 10 ^ (Int.log 10 ((m : ℚ) * 2 ^ e) - 16) - n| ≤ 1 / 2) :
    Near m e (n * 10 ^ (Int.log 10 ((m : ℚ) * 2 ^ e) - 16)) := by
  have hpow : (0 : ℚ) < 2 ^ e := by positivity
  have hpos : (0 : ℚ) < m * 2 ^ e := by positivity
  have hlog := zpow_log_le hpos
  generalize hv : (m : ℚ) * 2 ^ e = v at *
  generalize hu : (10 : ℚ) ^ (Int.log 10 v - 16) = unit at *
  have hunit : unit * 10 ^ 16 ≤ v := by
    rw [← hu, ← zpow_natCast, ← zpow_add₀ (by norm_num)]
    exact le_of_eq_of_le (by congr 1; push_cast; ring) hlog
  have hupos : 0 < unit := by
    rw [← hu]
    positivity
  apply near_of_close hlt
  have hdist : n * unit / 2 ^ e - m = -((v / unit - n) * unit / 2 ^ e) := by
    rw [← hv]
    field_simp
    ring
  calc |n * unit / 2 ^ e - m| = |v / unit - n| * unit / 2 ^ e := by
        rw [hdist, abs_neg, abs_div, abs_mul, abs_of_pos hupos, abs_of_pos hpow]
    _ ≤ 1 / 2 * unit / 2 ^ e := by gcongr
    _ ≤ m / (2 * 10 ^ 16) := by
        rw [div_le_div_iff₀ hpow (by norm_num), hv]
        linarith

/-- The lower neighbour on a grid has as many digits as the grid. -/
theorem scaled_bounds {num den : ℕ} (hnum : 0 < num) (hden : 0 < den) (k : ℕ) {s : ℕ × ℕ}
    (hs : scaled num den (leadingExponent num den - (k + 1 : ℕ) + 1) = s) :
    10 ^ k ≤ s.1 / s.2 ∧ s.1 / s.2 < 10 ^ (k + 1) := by
  have hpos : 0 < s.2 := hs ▸ scaled_pos num hden _
  have hpos' : (0 : ℚ) < s.2 := by exact_mod_cast hpos
  obtain ⟨hlow, hhigh⟩ := units_bounds (by positivity : (0 : ℚ) < num / den) (Nat.succ_pos k)
  rw [← leadingExponent_eq hnum hden, ← scaled_div, hs] at hlow hhigh
  rw [le_div_iff₀ hpos'] at hlow
  rw [div_lt_iff₀ hpos'] at hhigh
  rw [Nat.le_div_iff_mul_le hpos, Nat.div_lt_iff_lt_mul hpos]
  exact ⟨by exact_mod_cast hlow, by exact_mod_cast hhigh⟩

end Number

namespace Dyadic

open Number

variable {d : Dyadic} {tie : TieRule} {k : ℕ} {decimal : Decimal}

/-! ## The search -/

/-- Of the two neighbours on a grid the nearer one is tried first. -/
theorem onGrid_eq (tie : TieRule) (d : Dyadic) (k : ℕ) (e : ℤ) {s : ℕ × ℕ}
    (hs : scaled d.fraction.1 d.fraction.2 (e - (k + 1 : ℕ) + 1) = s) :
    ∃ other, (other = s.1 / s.2 ∨ other = s.1 / s.2 + 1) ∧
      d.onGrid tie (k + 1) e =
        if d.readsBack (roundDiv tie s.1 s.2) (e - (k + 1 : ℕ) + 1) then
          some (carried k (roundDiv tie s.1 s.2) e)
        else if d.readsBack other (e - (k + 1 : ℕ) + 1) then some (carried k other e)
        else none := by
  refine ⟨if roundDiv tie s.1 s.2 = s.1 / s.2 then s.1 / s.2 + 1 else s.1 / s.2, ?_, ?_⟩
  · split_ifs
    · exact Or.inr rfl
    · exact Or.inl rfl
  · rw [← hs]
    rfl

/-- What is found on a grid has as many digits as the grid, and reads back. -/
theorem onGrid_eq_some (hm : 0 < d.mantissa)
    (h : d.onGrid tie (k + 1) (leadingExponent d.fraction.1 d.fraction.2) = some decimal) :
    decimal.Full ∧ Near d.mantissa d.exponent decimal.value := by
  obtain ⟨s, hs⟩ : ∃ s, scaled d.fraction.1 d.fraction.2
    (leadingExponent d.fraction.1 d.fraction.2 - (k + 1 : ℕ) + 1) = s := ⟨_, rfl⟩
  obtain ⟨hlow, hhigh⟩ := scaled_bounds (fraction_num_pos hm.ne') d.fraction_pos k hs
  obtain ⟨other, hother, heq⟩ := onGrid_eq tie d k _ hs
  have hneighbour {n : ℕ} (hn : n = s.1 / s.2 ∨ n = s.1 / s.2 + 1)
      (hreads : d.readsBack n (leadingExponent d.fraction.1 d.fraction.2 - (k + 1 : ℕ) + 1) = true)
      (hd : carried k n (leadingExponent d.fraction.1 d.fraction.2) = decimal) :
      decimal.Full ∧ Near d.mantissa d.exponent decimal.value := by
    rw [← hd, value_carried]
    exact ⟨full_carried _ (by omega) (by omega), (readsBack_iff hm _ _).mp hreads⟩
  rw [heq] at h
  split_ifs at h with hnear hnext
  · exact hneighbour ((roundDiv_cases tie s.1 s.2).imp And.left And.left) hnear (Option.some.inj h)
  · exact hneighbour hother hnext (Option.some.inj h)

/-- On the grid of seventeen digits the nearest neighbour reads back. -/
theorem onGrid_seventeen (tie : TieRule) (hm : 0 < d.mantissa) (hlt : d.mantissa < 2 ^ 53) :
    d.onGrid tie 17 (leadingExponent d.fraction.1 d.fraction.2) ≠ none := by
  obtain ⟨s, hs⟩ : ∃ s, scaled d.fraction.1 d.fraction.2
    (leadingExponent d.fraction.1 d.fraction.2 - (16 + 1 : ℕ) + 1) = s := ⟨_, rfl⟩
  obtain ⟨other, -, heq⟩ := onGrid_eq tie d 16 _ hs
  have hunit : leadingExponent d.fraction.1 d.fraction.2 - (16 + 1 : ℕ) + 1 =
      Int.log 10 ((d.mantissa : ℚ) * 2 ^ d.exponent) - 16 := by
    rw [leadingExponent_eq (fraction_num_pos hm.ne') d.fraction_pos, fraction_div]
    push_cast
    ring
  have hclose := abs_sub_roundDiv_le tie s.1 (hs ▸ scaled_pos d.fraction.1 d.fraction_pos _)
  rw [← hs, scaled_div, hs, fraction_div, hunit] at hclose
  have hreads := (readsBack_iff hm _ _).mpr (near_of_seventeen hm hlt hclose)
  rw [← hunit] at hreads
  rw [heq, if_pos hreads]
  exact Option.some_ne_none _

/-- The search ends with a decimal that reads back. -/
theorem shortest_near (tie : TieRule) (hm : 0 < d.mantissa) (hlt : d.mantissa < 2 ^ 53) :
    (d.shortest tie).Full ∧ Near d.mantissa d.exponent (d.shortest tie).value := by
  unfold shortest
  dsimp only
  split
  · rename_i decimal hfound
    obtain ⟨k, -, hk⟩ := List.exists_of_findSome?_eq_some hfound
    exact onGrid_eq_some hm hk
  · rename_i hnone
    have hlast := List.findSome?_eq_none_iff.mp hnone 16 (List.mem_range.mpr (by decide))
    exact absurd hlast (onGrid_seventeen tie hm hlt)

end Dyadic

namespace Decimal

open Number

variable {d : Decimal}

/-! ## The text -/

/-- Zeros fill up the places from the last digit to that of the ones. -/
theorem Full.positional_of_le (h : d.Full) {k : ℕ} (hk : d.exponent + 1 = (d.count + k : ℕ)) :
    positional d = (Nat.toDigits 10 d.digits ++ List.replicate k '0', []) := by
  have hlength := h.length_toDigits
  have hwhole : d.exponent.toNat + 1 = (Nat.toDigits 10 d.digits).length + k := by
    have := h.count_pos
    omega
  unfold positional
  rw [h.digitText_eq]
  dsimp only
  rw [if_neg (by have := h.count_pos; omega), hwhole, List.take_of_length_le (by omega),
    List.drop_of_length_le (by omega), Nat.add_sub_cancel_left]

/-- The numeral without an exponent. -/
def plain (negative : Bool) (d : Decimal) : Numeral :=
  .trim negative (positional d).1 (positional d).2 none

theorem Full.value_plain (h : d.Full) (negative : Bool) :
    (d.plain negative).value = (if negative then -1 else 1) * d.value := by
  rcases lt_or_ge d.exponent d.count with he | he
  · exact h.value_positional_of_lt he
  · obtain ⟨k, hk⟩ := Int.eq_ofNat_of_zero_le (by omega : 0 ≤ d.exponent + 1 - d.count)
    have hunit : d.exponent - d.count + 1 = k := by omega
    rw [plain, h.positional_of_le (k := k) (by omega), Numeral.value_trim, List.append_nil,
      Nat.ofDigitChars_append, Nat.ofDigitChars_toDigits (by decide) (by decide),
      Nat.ofDigitChars_replicate_zero, value, hunit, zpow_natCast, Option.elim_none,
      List.length_nil, Nat.cast_zero, sub_zero, zpow_zero, mul_one, Nat.mul_comm]
    push_cast
    rfl

theorem Full.wellFormed_plain (h : d.Full) (negative : Bool) :
    (d.plain negative).WellFormed := by
  unfold plain
  rcases lt_or_ge d.exponent d.count with he | he
  · rw [h.positional_eq he]
    refine Numeral.wellFormed_trim_pointed ?_ ?_
    · rintro e ⟨⟩
    · rintro e ⟨⟩
  · obtain ⟨k, hk⟩ := Int.eq_ofNat_of_zero_le (by omega : 0 ≤ d.exponent + 1 - d.count)
    rw [h.positional_of_le (k := k) (by omega)]
    refine Numeral.wellFormed_trim ?_ ?_ ?_ ?_ ?_
    · exact List.append_ne_nil_of_left_ne_nil Nat.toDigits_ne_nil _
    · intro c hc
      rcases List.mem_append.mp hc with hc | hc
      · exact Nat.isDigit_of_mem_toDigits (by decide) (by decide) hc
      · rw [List.eq_of_mem_replicate hc]
        rfl
    · rintro c ⟨⟩
    · rintro e ⟨⟩
    · rintro e ⟨⟩

end Decimal

namespace Number

theorem toList_inMessage_zero {x : Float} {d : Dyadic} (hx : magnitude x = .finite d)
    (hm : d.mantissa = 0) :
    (inMessage.write x).toList = (if d.negative then ['-'] else []) ++ ['0'] := by
  have hwrite : inMessage.write? x = some (signed d.negative ['0']) := by
    unfold NumberFormat.write?
    rw [hx]
    exact if_pos hm
  rw [NumberFormat.write, hwrite, toList_signed]

/-- Messages write the fewest digits without an exponent. -/
theorem toList_inMessage {x : Float} {d : Dyadic} (hx : magnitude x = .finite d)
    (hm : d.mantissa ≠ 0) :
    (inMessage.write x).toList = ((d.shortest .away).plain d.negative).text := by
  have hwrite : inMessage.write? x = some (signed d.negative
      (withFraction (positional (d.shortest .away)).1
        (trimZeros (positional (d.shortest .away)).2))) := by
    unfold NumberFormat.write?
    rw [hx]
    dsimp only
    rw [if_neg hm]
    simp [inMessage]
  rw [NumberFormat.write, hwrite, toList_signed, Numeral.withFraction_eq]
  exact congrArg _ (congrArg _ (List.append_nil _).symm)

end Number

end ScriptLang
