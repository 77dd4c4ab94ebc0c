import Mathlib
import ScriptLang.Proofs.Agreement.Operators
import ScriptLang.Proofs.Bytecode.Resources
import ScriptLang.Proofs.Eval.Outcome
import ScriptLang.Proofs.Number.Difference

/-!
# Repeated texts

A text times a number is that many copies of the text, one behind another. The number is
brought to a count of 64 bits first. The result is refused exactly if it would be larger than
the limit, where the size is that of all the copies and nothing wraps around or is rounded.
Evaluator and machine agree on it, whichever operand comes first (`Text.repetition_exact`).
-/

namespace ScriptLang

namespace Number

open Float.Model Float.Model.UnpackedFloat

/-! ## Comparing with zero -/

theorem le_iff_compare (x y : Float) :
    x ≤ y ↔ (x.toModel.unpack.compare y.toModel.unpack).any (·.isLE) = true := by
  change decide (x.toModel.unpack.le y.toModel.unpack = true) = true ↔ _
  exact decide_eq_true_iff

theorem unpack_zero : (0.0 : Float).toModel.unpack = .zero .positive := by
  rw [← ofNat_zero, unpack_ofNat_zero]

/-- A double that is a number is compared with zero as that number. -/
theorem HasValue.le_zero_iff {x : Float} {q : ℚ} (h : HasValue x q) : x ≤ 0.0 ↔ q ≤ 0 := by
  rw [hasValue_iff] at h
  rw [le_iff_compare, unpack_zero]
  cases hp : x.toModel.unpack with
  | zero s =>
      rw [hp] at h
      cases h
      simp [UnpackedFloat.compare]
  | finite s m e hm =>
      rw [hp] at h
      cases h
      have hpow : (0 : ℚ) < m * 2 ^ e := by positivity
      cases s with
      | negative => simpa [UnpackedFloat.compare, Sign.apply] using hpow.le
      | positive => simpa [UnpackedFloat.compare, Sign.apply] using hpow
  | infinity s => rw [hp] at h; cases h
  | notANumber => rw [hp] at h; cases h

theorem le_zero_of_infinite {x : Float} {negative : Bool} (h : magnitude x = .infinite negative) :
    x ≤ 0.0 ↔ negative = true := by
  rw [le_iff_compare, unpack_zero]
  cases negative with
  | true =>
      rw [(magnitude_eq_infinite (s := .negative)).mp h]
      simp [UnpackedFloat.compare]
  | false =>
      rw [(magnitude_eq_infinite (s := .positive)).mp h]
      simp [UnpackedFloat.compare]

theorem not_le_zero_of_nan {x : Float} (h : magnitude x = .nan) : ¬ x ≤ 0.0 := by
  rw [le_iff_compare, magnitude_eq_nan.mp h]
  simp [UnpackedFloat.compare]

/-! ## The count -/

/-- How many copies a number asks for: none if it is a NaN or not above zero, otherwise its whole
part, but not more than 64 bits can count. -/
inductive Asks : Float → ℕ → Prop
  | nan {x : Float} : x.isNaN = true → Asks x 0
  | nonpositive {x : Float} : x ≤ 0.0 → Asks x 0
  | positive {x : Float} {q : ℚ} : HasValue x q → 0 < q → Asks x (min ⌊q⌋₊ (2 ^ 64 - 1))
  | infinite {x : Float} : magnitude x = .infinite false → Asks x (2 ^ 64 - 1)

theorem HasValue.toCount {x : Float} {q : ℚ} (h : HasValue x q) :
    toCount x = min (towardZero q).toNat (2 ^ 64 - 1) := by
  rw [Number.toCount, h.clampedInt]
  omega

theorem toCount_of_le_zero {x : Float} (h : x ≤ 0.0) : toCount x = 0 := by
  cases hx : magnitude x with
  | nan => exact absurd h (not_le_zero_of_nan hx)
  | infinite negative =>
      rw [toCount, clampedInt, hx, (le_zero_of_infinite hx).mp h]
      rfl
  | finite d =>
      have hq : HasValue x d.toRat := ⟨d, hx, rfl⟩
      have hle := hq.le_zero_iff.mp h
      have hwhole : towardZero d.toRat ≤ 0 := by
        rw [towardZero]
        split_ifs
        · exact Int.floor_nonpos hle
        · exact Int.ceil_nonpos.mpr hle
      rw [hq.toCount, Int.toNat_of_nonpos hwhole, Nat.zero_min]

theorem toCount_of_pos {x : Float} {q : ℚ} (h : HasValue x q) (hq : 0 < q) :
    toCount x = min ⌊q⌋₊ (2 ^ 64 - 1) := by
  rw [h.toCount, towardZero, if_pos hq.le, Int.floor_toNat]

theorem toCount_of_nan {x : Float} (h : magnitude x = .nan) : toCount x = 0 := by
  rw [toCount, clampedInt, h]
  rfl

theorem toCount_of_infinite {x : Float} (h : magnitude x = .infinite false) :
    toCount x = 2 ^ 64 - 1 := by
  rw [toCount, clampedInt, h]
  rfl

/-- Every number asks for some number of copies, and only one. -/
theorem asks_iff {x : Float} {c : ℕ} : Asks x c ↔ c = toCount x := by
  constructor
  · intro h
    cases h with
    | nan h => exact (toCount_of_nan (isNaN_iff_magnitude.mp h)).symm
    | nonpositive h => exact (toCount_of_le_zero h).symm
    | positive h hq => exact (toCount_of_pos h hq).symm
    | infinite h => exact (toCount_of_infinite h).symm
  · rintro rfl
    -- minus infinity is among the numbers that are not positive
    by_cases hle : x ≤ 0.0
    · rw [toCount_of_le_zero hle]
      exact .nonpositive hle
    cases hx : magnitude x with
    | nan =>
        rw [toCount_of_nan hx]
        exact .nan (isNaN_iff_magnitude.mpr hx)
    | infinite negative =>
        cases negative with
        | true => exact absurd ((le_zero_of_infinite hx).mpr rfl) hle
        | false =>
            rw [toCount_of_infinite hx]
            exact .infinite hx
    | finite d =>
        have hq : HasValue x d.toRat := ⟨d, hx, rfl⟩
        have hpos := not_le.mp (mt hq.le_zero_iff.mpr hle)
        rw [toCount_of_pos hq hpos]
        exact .positive hq hpos

end Number

namespace Text

/-! ## The copies -/

theorem copies_eq_join (s : String) (c : ℕ) : copies s c = String.join (List.replicate c s) := by
  induction c with
  | zero => rfl
  | succ c ih =>
      rw [List.replicate_succ', String.join_append, ← ih]
      simp [copies, Nat.repeat]

theorem copies_empty (c : ℕ) : copies "" c = "" := by
  rw [copies_eq_join]
  refine String.toList_inj.mp ?_
  simp [String.toList_join]

/-- Where nothing is to be copied, no copies are what is asked for. -/
theorem copies_of_early {s : String} {n : Float}
    (h : (n.isNaN || n ≤ 0.0 || s.isEmpty) = true) :
    s.utf8ByteSize * Number.toCount n = 0 ∧ copies s (Number.toCount n) = "" := by
  simp only [Bool.or_eq_true, decide_eq_true_eq, or_assoc] at h
  rcases h with hnan | hle | hempty
  · rw [Number.toCount_of_nan (Number.isNaN_iff_magnitude.mp hnan)]
    exact ⟨Nat.mul_zero _, rfl⟩
  · rw [Number.toCount_of_le_zero hle]
    exact ⟨Nat.mul_zero _, rfl⟩
  · obtain rfl := String.isEmpty_iff.mp hempty
    exact ⟨Nat.zero_mul _, copies_empty _⟩

/-- Neither the cases that are settled first nor the product of 64 bits make a difference: a size
that does not fit is above the limit anyway. -/
theorem repeat?_eq (s : String) (n : Float) :
    repeat? s n =
      if s.utf8ByteSize * Number.toCount n ≤ sequenceLimit then
        some (copies s (Number.toCount n))
      else none := by
  rw [repeat?]
  split
  case isTrue hearly =>
    obtain ⟨hsize, hcopies⟩ := copies_of_early hearly
    rw [hsize, hcopies, if_pos (Nat.zero_le _)]
  case isFalse =>
    simp only [Number.times?]
    by_cases hfits : s.utf8ByteSize * Number.toCount n < UInt64.size
    · rw [if_pos hfits]
    · have hlarge : ¬ s.utf8ByteSize * Number.toCount n ≤ sequenceLimit := by
        have hlimit : sequenceLimit < UInt64.size := by decide
        omega
      rw [if_neg hfits, if_neg hlarge]

theorem repeat?_of_le {s : String} {n : Float}
    (h : s.utf8ByteSize * Number.toCount n ≤ sequenceLimit) :
    repeat? s n = some (String.join (List.replicate (Number.toCount n) s)) := by
  rw [repeat?_eq, if_pos h, copies_eq_join]

theorem repeat?_of_lt {s : String} {n : Float}
    (h : sequenceLimit < s.utf8ByteSize * Number.toCount n) : repeat? s n = none := by
  rw [repeat?_eq, if_neg (Nat.not_le.mpr h)]

/-! ## Evaluator and machine -/

/-- The operands of a repetition, in one order or the other. -/
def Operands (s : String) (n : Float) (a b : Value) : Prop :=
  a = .text s ∧ b = .number n ∨ a = .number n ∧ b = .text s

namespace Operands

variable {s : String} {n : Float} {a b : Value} (h : Operands s n a b)

include h

theorem binary_eq : Value.binary .mul a b = .ok (Value.repeated s n) := by
  rcases h with ⟨rfl, rfl⟩ | ⟨rfl, rfl⟩
  · rfl
  · rfl

theorem execute_eq (chunk : Chunk) (operand : Int) (next : Nat) {m : Machine} {rest : List Value}
    (hs : m.stack = b :: a :: rest) :
    m.execute chunk ⟨.multiply, operand⟩ next =
      match repeat? s n with
      | some t => Machine.push { m with stack := rest } (.text t) next
      | none => .stop (.tooLarge .multiply sequenceLimit) { m with stack := rest } := by
  rcases h with ⟨rfl, rfl⟩ | ⟨rfl, rfl⟩
  · exact Machine.popPair_eq hs
  · exact Machine.popPair_eq hs

section Evaluator

open Eval

variable {run : Runner} {scope : ScopeId} {left right : Expr} {σ σ₁ σ₂ : Session}
  (hleft : outcome (expr run scope left) σ = (.ok a, σ₁))
  (hright : outcome (expr run scope right) σ₁ = (.ok b, σ₂))

include hleft hright

theorem outcome_of_some {t : String} (ht : repeat? s n = some t) (p : Place) :
    outcome (expr run scope (.binary p left .mul right)) σ = (.ok (.text t), σ₂) := by
  rw [outcome_binary hleft hright, h.binary_eq, Value.repeated, ht]
  rfl

theorem outcome_of_none (ht : repeat? s n = none) (p : Place) :
    ∃ x σ', outcome (expr run scope (.binary p left .mul right)) σ = (.error (.thrown x), σ') ∧
      x.kind = "MemoryError" := by
  rw [outcome_binary hleft hright, h.binary_eq, Value.repeated, ht]
  exact ⟨_, _, rfl, rfl⟩

end Evaluator

section Run

open Machine

variable {start m : Machine} {chunk : Chunk} {o : Nat} {operand : Int} {rest : List Value}
  (hi : chunk.code[o]? = some ⟨.multiply, operand⟩) (hs : m.stack = b :: a :: rest)

include hi hs

/-- Two values have left the stack, so there is room for one. -/
theorem step_of_some (hm : (o, m) ∈ start.trail chunk) {t : String} (ht : repeat? s n = some t) :
    step chunk o m =
      .next (o + 1) { m with stack := .text t :: rest, executed := m.executed + 1 } := by
  have hroom : ¬ m.capacity ≤ rest.length := by
    have hle : m.stack.length ≤ m.capacity := stack_le_of_mem_trail hm
    rw [hs, List.length_cons, List.length_cons] at hle
    omega
  rw [step_of_getElem? hi, h.execute_eq (m := m.ticked) chunk operand (o + 1) hs, ht]
  exact if_neg hroom

theorem step_of_none (ht : repeat? s n = none) :
    step chunk o m =
      .stop (.tooLarge .multiply sequenceLimit)
        { m with stack := rest, executed := m.executed + 1 } := by
  rw [step_of_getElem? hi, h.execute_eq (m := m.ticked) chunk operand (o + 1) hs, ht]
  rfl

end Run

end Operands

/-- A number asks for one count of copies. A text repeated so often is refused exactly if all the
copies together have more bytes than the limit, and otherwise it is the copies one behind another.
The product of the text and the number gives the same in either order: in the evaluator, with a
memory error for the refusal, and at every multiplication that a machine comes to. -/
theorem repetition_exact (s : String) (n : Float) :
    ∃ c, (∀ c', Number.Asks n c' ↔ c' = c) ∧
      (repeat? s n = none ↔ 2 ^ 24 < s.utf8ByteSize * c) ∧
      (∀ t, repeat? s n = some t → t = String.join (List.replicate c s)) ∧
      ∀ a b, Operands s n a b →
        (∀ run scope p left right σ σ₁ σ₂,
          Eval.outcome (Eval.expr run scope left) σ = (.ok a, σ₁) →
          Eval.outcome (Eval.expr run scope right) σ₁ = (.ok b, σ₂) →
          (∀ t, repeat? s n = some t →
            Eval.outcome (Eval.expr run scope (.binary p left .mul right)) σ =
              (.ok (.text t), σ₂)) ∧
          (repeat? s n = none →
            ∃ x σ', Eval.outcome (Eval.expr run scope (.binary p left .mul right)) σ =
              (.error (.thrown x), σ') ∧ x.kind = "MemoryError")) ∧
        ∀ (start : Machine) chunk o m operand rest,
          (o, m) ∈ start.trail chunk → chunk.code[o]? = some ⟨.multiply, operand⟩ →
          m.stack = b :: a :: rest →
          (∀ t, repeat? s n = some t →
            Machine.step chunk o m =
              .next (o + 1) { m with stack := .text t :: rest, executed := m.executed + 1 }) ∧
          (repeat? s n = none →
            Machine.step chunk o m =
              .stop (.tooLarge .multiply (2 ^ 24))
                { m with stack := rest, executed := m.executed + 1 }) := by
  refine ⟨Number.toCount n, fun c' => Number.asks_iff, ?_, ?_, ?_⟩
  · constructor
    · intro hnone
      by_contra hle
      rw [repeat?_of_le (Nat.not_lt.mp hle)] at hnone
      cases hnone
    · exact repeat?_of_lt
  · intro t ht
    by_cases hle : s.utf8ByteSize * Number.toCount n ≤ sequenceLimit
    · rw [repeat?_of_le hle] at ht
      exact (Option.some.inj ht).symm
    · rw [repeat?_of_lt (Nat.not_le.mp hle)] at ht
      cases ht
  · intro a b h
    constructor
    · intro run scope p left right σ σ₁ σ₂ hleft hright
      exact ⟨fun t ht => h.outcome_of_some hleft hright ht p,
        fun ht => h.outcome_of_none hleft hright ht p⟩
    · intro start chunk o m operand rest hm hi hs
      exact ⟨fun t ht => h.step_of_some hi hs hm ht, h.step_of_none hi hs⟩

/-- A text of two bytes times a number that asks for one copy too many. -/
def tooOften : Chunk :=
  { code := #[⟨.loadConst, 0⟩, ⟨.loadConst, 1⟩, ⟨.multiply, 0⟩],
    constants := #[.text "ab", .number 8388609.0] }

/-- At the limit all copies are made, and a fraction more than that is dropped. -/
theorem repetition_at_limit :
    let σ : Session := .ofSettings {} (fun _ => .error .missing) {}
    let m : Machine := { capacity := 2, maxInstructions := 9 }
    (∃ t, t = String.join (List.replicate 8388608 "ab") ∧
      Eval.outcome (Eval.expr (Eval.runBlock 9) Session.globals
        (.binary default (.number default 8388608.5) .mul (.text default "ab"))) σ =
          (.ok (.text t), σ)) ∧
    ∃ m₁ m₂, (m.trail tooOften)[2]? = some (2, m₁) ∧
      Machine.step tooOften 2 m₁ = .stop (.tooLarge .multiply (2 ^ 24)) m₂ ∧ m₂.stack = [] := by
  intro σ m
  constructor
  · obtain ⟨c, hc, hnone, hsome, hboth⟩ := repetition_exact "ab" 8388608.5
    obtain rfl : 8388608 = c := (hc _).mp (Number.asks_iff.mpr (by decide +kernel))
    obtain ⟨heval, -⟩ := hboth _ _ (Or.inr ⟨rfl, rfl⟩)
    cases ht : repeat? "ab" 8388608.5 with
    | none => exact absurd (hnone.mp ht) (by decide +kernel)
    | some t => exact ⟨t, hsome t ht, (heval _ _ _ _ _ _ _ _ rfl rfl).1 t ht⟩
  · obtain ⟨c, hc, hnone, -, hboth⟩ := repetition_exact "ab" 8388609.0
    obtain rfl : 8388609 = c := (hc _).mp (Number.asks_iff.mpr (by decide +kernel))
    obtain ⟨-, hmachine⟩ := hboth _ _ (Or.inl ⟨rfl, rfl⟩)
    have htrail : (m.trail tooOften)[2]? =
        some (2, { m with stack := [.number 8388609.0, .text "ab"], executed := 2 }) := rfl
    exact ⟨_, _, htrail, (hmachine m tooOften 2 _ 0 [] (List.mem_of_getElem? htrail) rfl rfl).2
      (hnone.mpr (by decide +kernel)), rfl⟩

end Text

end ScriptLang
