import Mathlib
import ScriptLang.Bytecode.Compiler

/-!
# Fragments and where they stand

A chunk holds a fragment at an offset when its instructions and constants stand
there in order. Holding a fragment that is made of two is holding both, the
second behind the first, so what is known of the code of a program is known of
the code of its parts.
-/

namespace ScriptLang

namespace Fragment

/-! ## Sizes -/

@[simp] theorem code_append (a b : Fragment) : (a ++ b).code = a.code ++ b.code := rfl

@[simp] theorem constants_append (a b : Fragment) :
    (a ++ b).constants = a.constants ++ b.constants := rfl

@[simp] theorem code_empty : ({} : Fragment).code = #[] := rfl

@[simp] theorem constants_empty : ({} : Fragment).constants = #[] := rfl

@[simp] theorem code_emit (op : Opcode) (n : Int) : (emit op n).code = #[⟨op, n⟩] := rfl

@[simp] theorem constants_emit (op : Opcode) (n : Int) : (emit op n).constants = #[] := rfl

@[simp] theorem code_withConstant (op : Opcode) (v : Value) (pool : Nat) :
    (withConstant op v pool).code = #[⟨op, pool⟩] := rfl

@[simp] theorem constants_withConstant (op : Opcode) (v : Value) (pool : Nat) :
    (withConstant op v pool).constants = #[v] := rfl

@[simp] theorem empty_append (a : Fragment) : ({} : Fragment) ++ a = a := by
  cases a
  exact congrArg₂ Fragment.mk (Array.empty_append) (Array.empty_append)

@[simp] theorem append_empty (a : Fragment) : a ++ ({} : Fragment) = a := by
  cases a
  exact congrArg₂ Fragment.mk (Array.append_empty) (Array.append_empty)

theorem append_assoc (a b c : Fragment) : a ++ b ++ c = a ++ (b ++ c) := by
  cases a
  exact congrArg₂ Fragment.mk (Array.append_assoc) (Array.append_assoc)

end Fragment

theorem Fragment.eq_of_parts {a b : Fragment} (hcode : a.code = b.code)
    (hconst : a.constants = b.constants) : a = b := by
  cases a
  cases b
  cases hcode
  cases hconst
  rfl

/-! ## Holding a fragment -/

/-- The instructions of the fragment stand in the chunk from `base` on, its constants
from `pool` on. -/
structure Chunk.Holds (c : Chunk) (base pool : Nat) (f : Fragment) : Prop where
  code : ∀ j i, f.code[j]? = some i → c.code[base + j]? = some i
  constants : ∀ j v, f.constants[j]? = some v → c.constants[pool + j]? = some v

namespace Chunk.Holds

variable {c : Chunk} {base pool : Nat} {f g : Fragment}

theorem left (h : c.Holds base pool (f ++ g)) : c.Holds base pool f where
  code j i hj := h.code j i (by
    have hlt : j < f.code.size := (Array.getElem?_eq_some_iff.mp hj).1
    rw [Fragment.code_append, Array.getElem?_append_left hlt]
    exact hj)
  constants j v hj := h.constants j v (by
    have hlt : j < f.constants.size := (Array.getElem?_eq_some_iff.mp hj).1
    rw [Fragment.constants_append, Array.getElem?_append_left hlt]
    exact hj)

theorem right (h : c.Holds base pool (f ++ g)) :
    c.Holds (base + f.code.size) (pool + f.constants.size) g where
  code j i hj := by
    rw [Nat.add_assoc]
    apply h.code
    rw [Fragment.code_append, Array.getElem?_append_right (Nat.le_add_right _ _),
      Nat.add_sub_cancel_left]
    exact hj
  constants j v hj := by
    rw [Nat.add_assoc]
    apply h.constants
    rw [Fragment.constants_append, Array.getElem?_append_right (Nat.le_add_right _ _),
      Nat.add_sub_cancel_left]
    exact hj

/-- The instruction that a fragment of one holds. -/
theorem emit {op : Opcode} {n : Int} (h : c.Holds base pool (Fragment.emit op n)) :
    c.code[base]? = some ⟨op, n⟩ :=
  h.code 0 _ rfl

theorem constant?_of_getElem? {k : Nat} {v : Value} (h : c.constants[k]? = some v) :
    c.constant? (k : Int) = some v := by
  rw [Chunk.constant?, if_neg (by omega), Int.toNat_natCast]
  exact h

/-- The constants of a fragment, as its instructions refer to them. -/
theorem constant? (h : c.Holds base pool f) {j : Nat} {v : Value} (hj : f.constants[j]? = some v) :
    c.constant? ((pool + j : Nat) : Int) = some v :=
  constant?_of_getElem? (h.constants j v hj)

/-- The instruction with a constant of its own, and that constant. -/
theorem withConstant {op : Opcode} {v : Value}
    (h : c.Holds base pool (Fragment.withConstant op v pool)) :
    c.code[base]? = some ⟨op, pool⟩ ∧ c.constant? (pool : Int) = some v :=
  ⟨h.code 0 _ rfl, h.constant? (j := 0) rfl⟩

end Chunk.Holds

end ScriptLang
