import Mathlib
import ScriptLang.Proofs.Bindings
import ScriptLang.Value.Builtin

/-!
# Values made from values

Operators, built-in functions and methods make plain values, arrays and dicts from
those they are given, and take items and entries out of them. So a property of values
that plain values have, and that an array or a dict has whose parts have it, goes over
from what they are given to what they make.
-/

namespace ScriptLang

namespace Value

/-- A property that plain values have, and arrays and dicts just by their parts. -/
structure Closed (V : Value → Prop) : Prop where
  null : V .null
  number (n : Float) : V (.number n)
  text (s : String) : V (.text s)
  bool (b : Bool) : V (.bool b)
  matrix (m : Matrix) : V (.matrix m)
  array {items : Array Value} : V (.array items) ↔ ∀ v ∈ items, V v
  ofPairs {entries : List (String × Value)} :
    (∀ e ∈ entries, V e.2) → V (.dict (Bindings.ofPairs entries))
  entry {entries : Bindings Value} : V (.dict entries) → ∀ e ∈ entries, V e.2

namespace Closed

variable {V W : Value → Prop}

/-- Values with both of two such properties. -/
theorem and (h : Closed V) (h' : Closed W) : Closed fun v => V v ∧ W v where
  null := ⟨h.null, h'.null⟩
  number n := ⟨h.number n, h'.number n⟩
  text s := ⟨h.text s, h'.text s⟩
  bool b := ⟨h.bool b, h'.bool b⟩
  matrix m := ⟨h.matrix m, h'.matrix m⟩
  array := by
    intro items
    rw [h.array, h'.array]
    constructor
    · rintro ⟨hv, hw⟩ v hmem
      exact ⟨hv v hmem, hw v hmem⟩
    · intro hboth
      exact ⟨fun v hmem => (hboth v hmem).1, fun v hmem => (hboth v hmem).2⟩
  ofPairs hes := ⟨h.ofPairs fun e he => (hes e he).1, h'.ofPairs fun e he => (hes e he).2⟩
  entry hes e he := ⟨h.entry hes.1 e he, h'.entry hes.2 e he⟩

variable (h : Closed V)

include h

/-! ## Operators -/

section Operators

variable {op : BinaryOp} {a b v : Value}

theorem ofBool (b : Bool) : V (.ofBool b) := h.number _

theorem numeric {x y : Float} (hv : Value.numeric op x y = .ok v) : V v := by
  have hdivide {d : Division} (hv : (Number.divide d x y).map Value.number = .ok v) : V v := by
    rcases hd : Number.divide d x y with _ | z
    · rw [hd] at hv
      cases hv
    · rw [hd] at hv
      cases hv
      exact h.number z
  cases op with
  | div | mod | floorDiv => exact hdivide hv
  | matMul =>
      cases hv
      exact h.null
  | _ =>
      cases hv
      exact h.number _

theorem textual (op : BinaryOp) (x y : String) : V (Value.textual op x y) := by
  cases op with
  | add => exact h.text _
  | eq | ne => exact h.ofBool _
  | _ => exact h.null

theorem logical (op : BinaryOp) (x y : Bool) : V (Value.logical op x y) := by
  cases op with
  | eq | ne => exact h.ofBool _
  | _ => exact h.null

theorem repeated {s : String} {n : Float} (hv : Value.repeated s n = .ok v) : V v := by
  unfold Value.repeated at hv
  split at hv
  · cases hv
    exact h.text _
  · cases hv

theorem combine (f : Float → Float → Float) (as bs : Array Value) :
    V (Value.combine f as bs) := by
  rw [Value.combine, h.array]
  intro w hw
  obtain ⟨i, hi, rfl⟩ := Array.mem_iff_getElem.mp hw
  rw [Array.getElem_zipWith]
  split
  · exact h.number _
  · exact h.null

theorem elementwise (op : BinaryOp) (as bs : Array Value) : V (Value.elementwise op as bs) := by
  cases op with
  | add | sub | mul => exact h.combine _ as bs
  | matMul => exact h.number _
  | _ => exact h.null

theorem ofMatrix? {m : Option Matrix} {fault : Fault}
    (hv : Value.ofMatrix? m fault = .ok v) : V v := by
  unfold Value.ofMatrix? at hv
  split at hv
  · cases hv
    exact h.matrix _
  · cases hv

theorem matrices {m n : Matrix} (hv : Value.matrices op m n = .ok (.ok v)) : V v := by
  unfold Value.matrices at hv
  split at hv
  · exact h.ofMatrix? (Except.ok.inj hv)
  · exact h.ofMatrix? (Except.ok.inj hv)
  · cases hmul : m.mul n with
    | error e =>
        rw [hmul] at hv
        cases hv
    | ok product =>
        rw [hmul] at hv
        exact h.ofMatrix? (Except.ok.inj hv)
  · cases hv
    exact h.null

theorem operate (hv : Value.operate op a b = .ok v) : V v := by
  unfold Value.operate at hv
  split at hv
  · exact h.numeric hv
  · cases hv
    exact h.textual _ _ _
  · cases hv
    exact h.logical _ _ _
  · split at hv
    · exact h.repeated hv
    · cases hv
      exact h.null
  · split at hv
    · exact h.repeated hv
    · cases hv
      exact h.null
  · cases hv
    split
    · exact h.elementwise _ _ _
    · exact h.null
  · cases hv
    split
    · exact h.matrix _
    · exact h.null
  · cases hv
    split
    · exact h.matrix _
    · exact h.null
  · cases hv
    exact h.null

theorem binary (hv : Value.binary op a b = .ok (.ok v)) : V v := by
  unfold Value.binary at hv
  split at hv
  · exact h.matrices hv
  · exact h.operate (Except.ok.inj hv)

theorem unary (op : UnaryOp) (a : Value) : V (Value.unary op a) := by
  unfold Value.unary
  split
  · exact h.number _
  · exact h.ofBool _
  · exact h.null

/-- An item of an array and an entry of a dict have the property, and a row of a matrix. -/
theorem index (ha : V a) (hv : Value.index a b = .ok v) : V v := by
  unfold Value.index at hv
  split at hv
  · rw [h.array] at ha
    dsimp only at hv
    split at hv
    · cases hv
    · split at hv
      · cases hv
        exact ha _ (Array.mem_of_getElem? ‹_›)
      · cases hv
  · split at hv
    · cases hv
      exact h.entry ha _ (Bindings.mem_of_get? ‹_›)
    · cases hv
  · dsimp only at hv
    split at hv
    · cases hv
    · split at hv
      · cases hv
        rw [h.array]
        intro w hw
        obtain ⟨x, -, rfl⟩ := List.mem_map.mp (List.mem_toArray.mp hw)
        exact h.number x
      · cases hv
  · cases hv
    exact h.null

end Operators

/-! ## Built-in functions and methods -/

theorem ofNat (n : Nat) : V (.ofNat n) := h.number _

theorem ofPosition (i : Option Nat) : V (Value.ofPosition i) := by
  cases i <;> exact h.number _

theorem dictKeys (entries : Bindings Value) : V (Builtin.dictKeys entries) := by
  rw [Builtin.dictKeys, h.array]
  intro w hw
  obtain ⟨x, -, rfl⟩ := List.mem_map.mp (List.mem_toArray.mp hw)
  exact h.text x

theorem dictValues {entries : Bindings Value} (hes : V (.dict entries)) :
    V (Builtin.dictValues entries) := by
  rw [Builtin.dictValues, h.array]
  intro w hw
  obtain ⟨e, he, rfl⟩ := List.mem_map.mp (List.mem_toArray.mp hw)
  exact h.entry hes e he

theorem numberRange {first last v : Value} (hv : Builtin.numberRange first last = .ok v) :
    V v := by
  unfold Builtin.numberRange at hv
  dsimp only at hv
  split at hv
  · cases hv
  · cases hv
    rw [h.array]
    intro w hw
    obtain ⟨i, -, rfl⟩ := Array.mem_map.mp hw
    exact h.number _

theorem size (v : Value) : V (Builtin.size v) := by
  unfold Builtin.size
  split
  iterate 3 exact h.ofNat _
  exact h.null

theorem test (p : Value → Bool) (args : List Value) : V (Builtin.test p args) := by
  cases args <;> exact h.ofBool _

theorem applyPure {f : Builtin} {args : List Value} {v : Value} (hargs : ∀ w ∈ args, V w)
    (hv : f.applyPure args = some (.ok v)) : V v := by
  unfold Builtin.applyPure at hv
  split at hv
  iterate 4 cases hv
  · exact h.numberRange (Option.some.inj hv)
  all_goals cases hv
  · exact h.null
  · exact h.size _
  · exact h.null
  · unfold Builtin.total
    split
    · exact h.number _
    · exact h.null
  · exact h.null
  · exact h.dictKeys _
  · exact h.null
  · exact h.dictValues (hargs _ List.mem_cons_self)
  · exact h.null
  iterate 7 exact h.test _ _
  iterate 2 exact h.text _

theorem fold (f : Float → Float → Float) (items : Array Value) : V (Value.fold f items) := by
  unfold Value.fold
  split
  · exact h.null
  · exact h.number _

theorem arrayMethod {items : Array Value} {args : List Value} (name : String)
    (hitems : V (.array items)) (hargs : ∀ w ∈ args, V w) :
    V (Value.arrayMethod items name args) := by
  rw [h.array] at hitems
  unfold Value.arrayMethod
  split
  · rw [h.array]
    intro w hw
    rcases Array.mem_push.mp hw with hw | rfl
    · exact hitems w hw
    · exact hargs _ List.mem_cons_self
  · rw [h.array]
    intro w hw
    exact hitems w (Array.mem_reverse.mp hw)
  · exact h.ofBool _
  · exact h.ofPosition _
  · exact h.fold _ _
  · exact h.fold _ _
  · exact h.ofNat _
  · exact h.null

theorem textMethod (s name : String) (args : List Value) : V (Value.textMethod s name args) := by
  unfold Value.textMethod
  split
  · exact h.ofBool _
  · exact h.ofPosition _
  · exact h.text _
  · exact h.text _
  · exact h.ofNat _
  · exact h.null

theorem dictMethod {entries : Bindings Value} (name : String) (args : List Value)
    (hes : V (.dict entries)) : V (Value.dictMethod entries name args) := by
  unfold Value.dictMethod
  split
  · exact h.dictKeys _
  · exact h.dictValues hes
  · exact h.ofBool _
  · exact h.ofNat _
  · exact h.null

theorem method {receiver : Value} {args : List Value} (name : String) (hr : V receiver)
    (hargs : ∀ w ∈ args, V w) : V (receiver.method name args) := by
  unfold Value.method
  split
  · exact h.arrayMethod name hr hargs
  · exact h.textMethod _ name args
  · exact h.dictMethod name args hr
  · exact h.null

end Closed

end Value

end ScriptLang
