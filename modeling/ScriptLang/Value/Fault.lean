import ScriptLang.Number.Text

/-!
# Faults

The ways in which running a program can go wrong, with the kind and the message
of the exception that reports each.
-/

namespace ScriptLang

/-- The operators that refuse a divisor of zero. -/
inductive Division where
  | quotient | remainder | floor
deriving DecidableEq, Repr

def Division.byZero : Division → String
  | quotient => "division by zero"
  | remainder => "modulo by zero"
  | floor => "floor division by zero"

/-- The largest text in bytes, or array in items, that one operation builds. -/
def sequenceLimit : Nat := Nat.pow 2 24

inductive Fault where
  | divisionByZero (d : Division)
  | indexOutOfRange (i : Int)
  | rowOutOfRange (i : Int)
  | keyNotFound (key : String)
  | sumShapes (sign : String) (left right : String)
  | productShapes (left right : String)
  | repetitionTooLarge (bytes : Nat) (count : Float)
  | rangeTooLarge (size : Float)
  | recursionLimit
  | importFailed (reason : String)
  | assertionFailed (message : String)
  /-- A text thrown by the program itself. -/
  | thrown (message : String)
  | outputFailed (reason : String)

namespace Fault

def kind : Fault → String
  | divisionByZero _ => "ZeroDivisionError"
  | indexOutOfRange _ | rowOutOfRange _ => "IndexError"
  | keyNotFound _ => "KeyError"
  | sumShapes _ _ _ | productShapes _ _ => "ValueError"
  | repetitionTooLarge _ _ | rangeTooLarge _ => "MemoryError"
  | recursionLimit => "RecursionError"
  | importFailed _ => "ImportError"
  | assertionFailed _ => "AssertionError"
  | thrown _ | outputFailed _ => "RuntimeError"

def message : Fault → String
  | divisionByZero d => d.byZero
  | indexOutOfRange i => "list index out of range: " ++ toString i
  | rowOutOfRange i => "matrix row index out of range: " ++ toString i
  | keyNotFound key => "key not found: '" ++ key ++ "'"
  | sumShapes sign left right => "matrix dimension mismatch: " ++ left ++ " " ++ sign ++ " " ++ right
  | productShapes left right =>
    "matrix dimension mismatch for multiplication: " ++ left ++ " @ " ++ right
  | repetitionTooLarge bytes count =>
    "string repetition too large: " ++ toString bytes ++ " bytes * "
      ++ Number.inMessage.write count
  | rangeTooLarge size => "range too large: " ++ Number.render size ++ " elements"
  | recursionLimit => "maximum recursion depth exceeded"
  | importFailed reason => reason
  | assertionFailed message => message
  | thrown message => message
  | outputFailed reason => "cannot write output: " ++ reason

end Fault

end ScriptLang
