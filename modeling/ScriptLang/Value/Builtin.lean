import ScriptLang.Text.Unicode
import ScriptLang.Value.Arithmetic

/-!
# Built-in functions and methods

Built-in functions are found by name before any binding of a program, so a
program cannot hide them. Printing and the functions that call back into the
program are left to the evaluator.
-/

namespace ScriptLang

inductive Builtin where
  | print | range | len | sum | keys | values | map | filter | reduce
  | isNull | isNumber | isString | isBool | isArray | isDict | isMatrix | typeOf
deriving DecidableEq, Repr

namespace Builtin

def ofName? : String → Option Builtin
  | "print" => some print
  | "range" => some range
  | "len" => some len
  | "sum" => some sum
  | "keys" => some keys
  | "values" => some values
  | "map" => some map
  | "filter" => some filter
  | "reduce" => some reduce
  | "is_null" => some isNull
  | "is_number" => some isNumber
  | "is_string" => some isString
  | "is_bool" => some isBool
  | "is_array" => some isArray
  | "is_dict" => some isDict
  | "is_matrix" => some isMatrix
  | "typeof" => some typeOf
  | _ => none

/-- The whole numbers from `lo` up to but excluding `hi`. -/
def numbersFrom (lo hi : Int) : Array Value :=
  (Array.range (hi - lo).toNat).map fun (i : Nat) => .number (Float.ofInt (lo + i))

/-- The whole numbers between two bounds whose fractions are dropped. A bound that
is no number counts as zero. -/
def numberRange (first last : Value) : Except Fault Value :=
  let lo := Number.truncated (first.number?.getD 0.0)
  let hi := Number.truncated (last.number?.getD 0.0)
  if Float.ofNat sequenceLimit < hi - lo then .error (.rangeTooLarge (hi - lo))
  else .ok (.array (numbersFrom (Number.toIndex lo) (Number.toIndex hi)))

/-- The number of items or entries, or of bytes of a text. -/
def size : Value → Value
  | .array items => .ofNat items.size
  | .dict entries => .ofNat entries.length
  | .text s => .ofNat s.utf8ByteSize
  | _ => .null

def total : Value → Value
  | .array items => .number (Number.sum (items.toList.filterMap Value.number?))
  | _ => .null

def dictKeys (entries : Bindings Value) : Value :=
  .array (entries.names.map Value.text).toArray

def dictValues (entries : Bindings Value) : Value :=
  .array entries.values.toArray

def test (p : Value → Bool) : List Value → Value
  | [] => .ofBool false
  | v :: _ => .ofBool (p v)

/-- Whether a value can stand for a truth value. -/
def boolLike : Value → Bool
  | .bool _ => true
  | .number n => n == 0.0 || n == 1.0
  | _ => false

/-- The result of a function that needs nothing but its arguments; `none` for the
others. -/
def applyPure (f : Builtin) (args : List Value) : Option (Except Fault Value) :=
  match f, args with
  | print, _ | map, _ | filter, _ | reduce, _ => none
  | range, first :: last :: _ => some (numberRange first last)
  | range, _ => some (.ok .null)
  | len, v :: _ => some (.ok (size v))
  | len, [] => some (.ok .null)
  | sum, v :: _ => some (.ok (total v))
  | sum, [] => some (.ok .null)
  | keys, .dict entries :: _ => some (.ok (dictKeys entries))
  | keys, _ => some (.ok .null)
  | values, .dict entries :: _ => some (.ok (dictValues entries))
  | values, _ => some (.ok .null)
  | isNull, _ => some (.ok (test Value.isNull args))
  | isNumber, _ => some (.ok (test (·.number?.isSome) args))
  | isString, _ => some (.ok (test (·.text?.isSome) args))
  | isBool, _ => some (.ok (test boolLike args))
  | isArray, _ => some (.ok (test (·.typeName == "array") args))
  | isDict, _ => some (.ok (test (·.typeName == "dict") args))
  | isMatrix, _ => some (.ok (test (·.typeName == "matrix") args))
  | typeOf, v :: _ => some (.ok (.text v.typeName))
  | typeOf, [] => some (.ok (.text "undefined"))

end Builtin

namespace Number

/-- The lesser number; a NaN gives way. -/
def least (a b : Float) : Float :=
  if a.isNaN then b else if b < a then b else a

/-- The greater number; a NaN gives way. -/
def greatest (a b : Float) : Float :=
  if a.isNaN then b else if a < b then b else a

end Number

namespace Text

/-- The offset in bytes of the first place in `cs` where `needle` stands. -/
def offsetFrom (needle : List Char) (offset : Nat) : List Char → Option Nat
  | [] => if needle.isEmpty then some offset else none
  | c :: cs =>
    if needle.isPrefixOf (c :: cs) then some offset
    else offsetFrom needle (offset + c.utf8Size) cs

def offsetOf? (s needle : String) : Option Nat :=
  offsetFrom needle.toList 0 s.toList

end Text

namespace Value

/-- A position, or -1 if there is none. -/
def ofPosition : Option Nat → Value
  | some i => .ofNat i
  | none => .number (-1.0)

/-- The numbers of an array joined by `f`; null if it holds none. -/
def fold (f : Float → Float → Float) (items : Array Value) : Value :=
  match items.toList.filterMap number? with
  | [] => .null
  | x :: xs => .number (xs.foldl f x)

def arrayMethod (items : Array Value) (name : String) (args : List Value) : Value :=
  match name, args with
  | "append", v :: _ => .array (items.push v)
  | "reverse", _ => .array items.reverse
  | "contains", v :: _ => ofBool (items.any (·.same v))
  | "index_of", v :: _ => ofPosition (items.findIdx? (·.same v))
  | "min", _ => fold Number.least items
  | "max", _ => fold Number.greatest items
  | "len", _ => .ofNat items.size
  | _, _ => .null

def textMethod (s : String) (name : String) (args : List Value) : Value :=
  match name, args with
  | "contains", v :: _ => ofBool ((v.text?.bind (Text.offsetOf? s)).isSome)
  | "index_of", v :: _ => ofPosition (v.text?.bind (Text.offsetOf? s))
  | "upper", _ => .text (Text.upper s)
  | "lower", _ => .text (Text.lower s)
  | "len", _ => .ofNat s.utf8ByteSize
  | _, _ => .null

def dictMethod (entries : Bindings Value) (name : String) (args : List Value) : Value :=
  match name, args with
  | "keys", _ => Builtin.dictKeys entries
  | "values", _ => Builtin.dictValues entries
  | "has", v :: _ => ofBool (v.text?.any entries.contains)
  | "len", _ => .ofNat entries.length
  | _, _ => .null

/-- A method of a plain value; an unknown one gives null. -/
def method (receiver : Value) (name : String) (args : List Value) : Value :=
  match receiver with
  | .array items => arrayMethod items name args
  | .text s => textMethod s name args
  | .dict entries => dictMethod entries name args
  | _ => .null

end Value

end ScriptLang
