import Mathlib
import ScriptLang.Bytecode.Compiler

/-!
# The names of hidden globals

A loop over an array keeps the array and its counter in two globals whose names
tell how many such loops are around it. The depth can be read back from a name,
so loops at different depths never share a global, and whether a name is one of
them can be decided.
-/

namespace ScriptLang

namespace Compiler

/-- The number that the digits in a name make up; zero if it has none. -/
def depthIn (name : String) : Nat :=
  Nat.ofDigitChars 10 (name.toList.filter Char.isDigit) 0

/-- Whether a name is that of a hidden global of a loop at some depth. -/
def isHidden (name : String) : Bool :=
  name == hiddenName "array" (depthIn name) || name == hiddenName "idx" (depthIn name)

theorem filter_isDigit_toString (d : Nat) :
    (toString d).toList.filter Char.isDigit = Nat.toDigits 10 d := by
  rw [Nat.toString_eq_repr, Nat.toList_repr]
  apply List.filter_eq_self.mpr
  intro c hc
  exact Nat.isDigit_of_mem_toDigits (by decide) (by decide) hc

/-- The depth is the only number in a hidden name, whatever stands around it. -/
theorem depthIn_hiddenName {base : String} (hb : base.toList.filter Char.isDigit = [])
    (d : Nat) : depthIn (hiddenName base d) = d := by
  unfold depthIn hiddenName
  have hfront : "__tmp_".toList.filter Char.isDigit = [] := by decide
  have hback : "__".toList.filter Char.isDigit = [] := by decide
  have hlink : "_".toList.filter Char.isDigit = [] := by decide
  by_cases h : d = 0
  · simp only [h, if_true, String.toList_append, List.filter_append, hb, hfront, hback]
    rfl
  · simp only [h, if_false, String.toList_append, List.filter_append, hb, hfront, hback, hlink,
      filter_isDigit_toString, List.nil_append, List.append_nil]
    exact Nat.ofDigitChars_ten_toDigits

theorem depthIn_array (d : Nat) : depthIn (hiddenName "array" d) = d :=
  depthIn_hiddenName (by decide) d

theorem depthIn_idx (d : Nat) : depthIn (hiddenName "idx" d) = d :=
  depthIn_hiddenName (by decide) d

theorem isHidden_array (d : Nat) : isHidden (hiddenName "array" d) = true := by
  rw [isHidden, depthIn_array, beq_self_eq_true, Bool.true_or]

theorem isHidden_idx (d : Nat) : isHidden (hiddenName "idx" d) = true := by
  rw [isHidden, depthIn_idx, beq_self_eq_true, Bool.or_true]

theorem hiddenName_array_ne_idx (d d' : Nat) : hiddenName "array" d ≠ hiddenName "idx" d' := by
  intro h
  have hd : d = d' := by rw [← depthIn_array d, h, depthIn_idx]
  subst hd
  -- the two texts differ behind their common beginning
  have hc := congrArg (fun s : String => s.toList[6]?) h
  unfold hiddenName at hc
  split at hc <;> simp [String.toList_append] at hc

end Compiler

/-! ## The names that a program refers to -/

mutual

/-- The variables that the code of an expression reads. -/
def Expr.variables : Expr → List String
  | .name _ x => [x]
  | .binary _ left _ right => left.variables ++ right.variables
  | .unary _ _ operand => operand.variables
  | .call _ _ args => Expr.listVariables args
  | .array _ items => Expr.listVariables items
  | .index _ target key => target.variables ++ key.variables
  | _ => []

def Expr.listVariables : List Expr → List String
  | [] => []
  | e :: es => e.variables ++ Expr.listVariables es

end

mutual

/-- The variables that the code of a statement reads or sets, the items of its loops
among them. -/
def Stmt.variables : Stmt → List String
  | .expr _ e => e.variables
  | .bind _ name value => name :: value.variables
  | .assign _ name value => name :: value.variables
  | .choose _ condition yes no =>
    condition.variables ++ Stmt.listVariables yes ++ Stmt.optionVariables no
  | .loop _ condition body => condition.variables ++ Stmt.listVariables body
  | .forEach _ item source body _ => item :: source.variables ++ Stmt.listVariables body
  | _ => []

def Stmt.listVariables : List Stmt → List String
  | [] => []
  | s :: ss => s.variables ++ Stmt.listVariables ss

def Stmt.optionVariables : Option (List Stmt) → List String
  | none => []
  | some ss => Stmt.listVariables ss

end

/-- No variable of the program has the name of a hidden global. -/
def Program.AvoidsHidden (p : Program) : Prop :=
  ∀ x ∈ Stmt.listVariables p.stmts, Compiler.isHidden x = false

end ScriptLang
