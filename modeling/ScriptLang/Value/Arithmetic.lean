import ScriptLang.Value
import ScriptLang.Value.Fault

/-!
# Operators on values

What an operator does depends on the kinds of both operands. A pair that has no
rule gives null; only a few rules can fail.
-/

namespace ScriptLang

namespace Number

def isZero (x : Float) : Bool := x == 0.0

/-- Division in one of its three forms. -/
def divide (d : Division) (a b : Float) : Except Fault Float :=
  if isZero b then .error (.divisionByZero d)
  else match d with
    | .quotient => .ok (a / b)
    | .remainder => .ok (remainder a b)
    | .floor => .ok (floored (a / b))

end Number

namespace Text

/-- `count` copies of a text, one behind another. -/
def copies (s : String) (count : Nat) : String :=
  Nat.repeat (· ++ s) count ""

/-- A text repeated `n` times, with fractions dropped and nothing for a NaN or a
count below one; `none` if the result would be too large. -/
def repeat? (s : String) (n : Float) : Option String :=
  if n.isNaN || n ≤ 0.0 || s.isEmpty then some ""
  else
    let count := Number.toCount n
    match Number.times? s.utf8ByteSize count with
    | some bytes => if bytes ≤ sequenceLimit then some (copies s count) else none
    | none => none

end Text

namespace Value

def numeric (op : BinaryOp) (a b : Float) : Except Fault Value :=
  match op with
  | .add => .ok (.number (a + b))
  | .sub => .ok (.number (a - b))
  | .mul => .ok (.number (a * b))
  | .div => (Number.divide .quotient a b).map .number
  | .mod => (Number.divide .remainder a b).map .number
  | .floorDiv => (Number.divide .floor a b).map .number
  | .matMul => .ok .null
  | .eq => .ok (ofBool (a == b))
  | .ne => .ok (ofBool (a != b))
  | .lt => .ok (ofBool (a < b))
  | .gt => .ok (ofBool (b < a))
  | .le => .ok (ofBool (a ≤ b))
  | .ge => .ok (ofBool (b ≤ a))

def textual (op : BinaryOp) (a b : String) : Value :=
  match op with
  | .add => .text (a ++ b)
  | .eq => ofBool (a == b)
  | .ne => ofBool (a != b)
  | _ => .null

def logical (op : BinaryOp) (a b : Bool) : Value :=
  match op with
  | .eq => ofBool (a == b)
  | .ne => ofBool (a != b)
  | _ => .null

/-- A text repeated, or the fault that says it would be too large. -/
def repeated (s : String) (n : Float) : Except Fault Value :=
  match Text.repeat? s n with
  | some t => .ok (.text t)
  | none => .error (.repetitionTooLarge s.utf8ByteSize n)

/-- Combines items that are numbers; other pairs give null. -/
def combine (f : Float → Float → Float) (as bs : Array Value) : Value :=
  .array (as.zipWith (fun x y =>
    match x.number?, y.number? with
    | some a, some b => .number (f a b)
    | _, _ => .null) bs)

/-- The products of items that are numbers, zero for other pairs. -/
def products (as bs : Array Value) : List Float :=
  (as.zipWith (fun x y =>
    match x.number?, y.number? with
    | some a, some b => a * b
    | _, _ => 0.0) bs).toList

/-- Operators on two arrays of one length. -/
def elementwise (op : BinaryOp) (as bs : Array Value) : Value :=
  match op with
  | .add => combine (· + ·) as bs
  | .sub => combine (· - ·) as bs
  | .mul => combine (· * ·) as bs
  | .matMul => .number (Number.sum (products as bs))
  | _ => .null

/-- A matrix, or the fault that says why there is none. -/
def ofMatrix? (m : Option Matrix) (fault : Fault) : Except Fault Value :=
  match m with
  | some m => .ok (.matrix m)
  | none => .error fault

def matrices (op : BinaryOp) (a b : Matrix) : Except Crash (Except Fault Value) :=
  match op with
  | .add => .ok (ofMatrix? (a.zipWith? (· + ·) b) (.sumShapes "+" a.shape b.shape))
  | .sub => .ok (ofMatrix? (a.zipWith? (· - ·) b) (.sumShapes "-" a.shape b.shape))
  | .matMul => do return ofMatrix? (← a.mul b) (.productShapes a.shape b.shape)
  | _ => .ok (.ok .null)

/-- Operators on other pairs than two matrices. -/
def operate (op : BinaryOp) (left right : Value) : Except Fault Value :=
  match left, right with
  | .number a, .number b => numeric op a b
  | .text a, .text b => .ok (textual op a b)
  | .bool a, .bool b => .ok (logical op a b)
  | .text s, .number n => if op = .mul then repeated s n else .ok .null
  | .number n, .text s => if op = .mul then repeated s n else .ok .null
  | .array as, .array bs => .ok (if as.size = bs.size then elementwise op as bs else .null)
  | .matrix m, .number k => .ok (if op = .mul then .matrix (m.scale k) else .null)
  | .number k, .matrix m => .ok (if op = .mul then .matrix (m.scale k) else .null)
  | _, _ => .ok .null

/-- Only the product of two matrices can break off. -/
def binary (op : BinaryOp) (left right : Value) : Except Crash (Except Fault Value) :=
  match left, right with
  | .matrix a, .matrix b => matrices op a b
  | _, _ => .ok (operate op left right)

def unary (op : UnaryOp) (v : Value) : Value :=
  match op, v with
  | .neg, .number n => .number (-n)
  | .not, .number n => ofBool (Number.isZero n)
  | _, _ => .null

/-- The item of an array, the entry of a dict or the row of a matrix. -/
def index (target key : Value) : Except Fault Value :=
  match target, key with
  | .array items, .number n =>
    let i := Number.toIndex n
    if i < 0 then .error (.indexOutOfRange i)
    else match items[i.toNat]? with
      | some v => .ok v
      | none => .error (.indexOutOfRange i)
  | .dict entries, .text k =>
    match Bindings.get? entries k with
    | some v => .ok v
    | none => .error (.keyNotFound k)
  | .matrix m, .number n =>
    let i := Number.toIndex n
    if i < 0 then .error (.rowOutOfRange i)
    else match m.row? i.toNat with
      | some row => .ok (.array (row.map Value.number).toArray)
      | none => .error (.rowOutOfRange i)
  | _, _ => .ok .null

end Value

end ScriptLang
