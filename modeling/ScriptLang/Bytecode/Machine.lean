import ScriptLang.Bytecode.Chunk
import ScriptLang.Output
import ScriptLang.Settings
import ScriptLang.Value.Arithmetic

/-!
# The stack machine

The machine runs a chunk against a stack of bounded size and one scope of
global names. An instruction either leads to the next one, halts or stops the
run with an error; a run takes a bounded number of instructions.
-/

namespace ScriptLang

inductive MachineError where
  | stackOverflow (capacity : Nat)
  | stackUnderflow (op : Opcode)
  | typeMismatch (op : Opcode) (left right : String)
  | badOperand (op : Opcode) (operand : String)
  | zeroDivision (d : Division)
  | undefinedVariable (name : String)
  | indexOutOfBounds (index : Int) (length : Nat)
  | notIndexable (type : String)
  | tooLarge (op : Opcode) (limit : Nat)
  | badConstant (index : Int)
  | badVariableName (index : Int)
  | instructionLimit (limit : Nat)
  | offsetOutOfBounds (offset : Int) (length : Nat)
  | output (reason : String)
deriving DecidableEq, Repr

def MachineError.message : MachineError → String
  | stackOverflow capacity => "stack overflow (capacity " ++ toString capacity ++ ")"
  | stackUnderflow op => "stack underflow in " ++ op.mnemonic
  | typeMismatch op left right =>
    "type error in " ++ op.mnemonic ++ ": " ++ left ++ " and " ++ right
  | badOperand op operand => "type error in " ++ op.mnemonic ++ ": " ++ operand
  | zeroDivision d => d.byZero
  | undefinedVariable name => "undefined variable: " ++ name
  | indexOutOfBounds index length =>
    "index out of bounds: " ++ toString index ++ " (length " ++ toString length ++ ")"
  | notIndexable type => "cannot index " ++ type
  | tooLarge op limit =>
    "result of " ++ op.mnemonic ++ " too large (limit " ++ toString limit ++ ")"
  | badConstant index => "bad constant index: " ++ toString index
  | badVariableName index =>
    "variable name must be a string (constant " ++ toString index ++ ")"
  | instructionLimit limit =>
    "too many instructions executed (" ++ toString limit ++ "); possible infinite loop"
  | offsetOutOfBounds offset length =>
    "instruction pointer out of bounds: " ++ toString offset ++ " (chunk has " ++ toString length
      ++ " instructions)"
  | output reason => "cannot write output: " ++ reason

structure Machine where
  capacity : Nat
  maxInstructions : Nat
  /-- The topmost value comes first. -/
  stack : List Value := []
  globals : Bindings Value := []
  output : Output := {}
  /-- Instructions taken by the last run. -/
  executed : Nat := 0

namespace Machine

def ofSettings (s : Settings) (output : Output) : Machine :=
  { capacity := s.stackCapacity, maxInstructions := s.maxInstructions, output }

/-- What an instruction leads to. -/
inductive Step where
  | next (offset : Nat) (m : Machine)
  | halt (m : Machine)
  | stop (e : MachineError) (m : Machine)

/-- Puts a value on the stack and goes on. -/
def push (m : Machine) (v : Value) (next : Nat) : Step :=
  if m.capacity ≤ m.stack.length then .stop (.stackOverflow m.capacity) m
  else .next next { m with stack := v :: m.stack }

/-- Takes the topmost value. -/
def pop (m : Machine) (op : Opcode) (k : Value → Machine → Step) : Step :=
  match m.stack with
  | [] => .stop (.stackUnderflow op) m
  | v :: rest => k v { m with stack := rest }

/-- Takes the right operand and then the left one. -/
def popPair (m : Machine) (op : Opcode) (k : Value → Value → Machine → Step) : Step :=
  m.pop op fun right m => m.pop op fun left m => k left right m

/-- Takes `count` values, the lowest first. -/
def popMany (m : Machine) (op : Opcode) (count : Int) (k : List Value → Machine → Step) : Step :=
  if count < 0 ∨ m.stack.length < count.toNat then .stop (.stackUnderflow op) m
  else k (m.stack.take count.toNat).reverse { m with stack := m.stack.drop count.toNat }

/-- Replaces two numbers by the result of `f`. -/
def arithmetic (m : Machine) (op : Opcode) (next : Nat)
    (f : Float → Float → Except MachineError Value) : Step :=
  m.popPair op fun left right m =>
    match left, right with
    | .number a, .number b =>
      match f a b with
      | .ok v => m.push v next
      | .error e => .stop e m
    | _, _ => .stop (.typeMismatch op left.typeName right.typeName) m

def compare (m : Machine) (op : Opcode) (next : Nat) (f : Float → Float → Bool) : Step :=
  m.arithmetic op next fun a b => .ok (.ofBool (f a b))

def divide (m : Machine) (op : Opcode) (next : Nat) (d : Division) : Step :=
  m.arithmetic op next fun a b =>
    match Number.divide d a b with
    | .ok x => .ok (.number x)
    | .error _ => .error (.zeroDivision d)

/-- Equality of numbers, truth values and texts; other pairs are unequal. -/
def plainEqual : Value → Value → Bool
  | .number a, .number b => a == b
  | .bool a, .bool b => a == b
  | .text a, .text b => a == b
  | _, _ => false

/-- The name that an operand refers to. -/
def variableName? (chunk : Chunk) (operand : Int) : Except MachineError String :=
  match chunk.constant? operand with
  | some (.text name) => .ok name
  | some _ => .error (.badVariableName operand)
  | none => .error (.badConstant operand)

/-- The offset that a jump leads to. -/
def target? (chunk : Chunk) (operand : Int) : Except MachineError Nat :=
  if operand < 0 ∨ chunk.code.size ≤ operand.toNat then
    .error (.offsetOutOfBounds operand chunk.code.size)
  else .ok operand.toNat

def jump (m : Machine) (chunk : Chunk) (operand : Int) : Step :=
  match target? chunk operand with
  | .ok offset => .next offset m
  | .error e => .stop e m

/-- The item of an array or the character of a text. -/
def itemAt (target key : Value) : Except MachineError Value :=
  match key with
  | .number n =>
    let i := Number.toIndex n
    match target with
    | .array items =>
      match if i < 0 then none else items[i.toNat]? with
      | some v => .ok v
      | none => .error (.indexOutOfBounds i items.size)
    | .text s =>
      match if i < 0 then none else s.toList[i.toNat]? with
      | some c => .ok (.text c.toString)
      | none => .error (.indexOutOfBounds i s.length)
    | other => .error (.notIndexable other.typeName)
  | other => .error (.badOperand .index other.typeName)

/-- The number of items of an array or characters of a text. -/
def lengthOf : Value → Except MachineError Nat
  | .array items => .ok items.size
  | .text s => .ok s.length
  | other => .error (.badOperand .arrayLength other.typeName)

def joined (values : List Value) : String :=
  String.intercalate " " (values.map (Value.render fun _ => []))

/-- Takes one instruction; `next` is the offset behind it. -/
def execute (chunk : Chunk) (i : Instr) (next : Nat) (m : Machine) : Step :=
  match i.op with
  | .loadConst =>
    match chunk.constant? i.operand with
    | some v => m.push v next
    | none => .stop (.badConstant i.operand) m
  | .loadTrue => m.push (.bool true) next
  | .loadFalse => m.push (.bool false) next
  | .loadNull => m.push .null next
  | .loadVar =>
    match variableName? chunk i.operand with
    | .error e => .stop e m
    | .ok name =>
      match m.globals.get? name with
      | some v => m.push v next
      | none => .stop (.undefinedVariable name) m
  | .storeVar =>
    match variableName? chunk i.operand with
    | .error e => .stop e m
    | .ok name =>
      match m.stack with
      | [] => .stop (.stackUnderflow .storeVar) m
      | v :: _ => .next next { m with globals := m.globals.set name v }
  | .add =>
    m.popPair .add fun left right m =>
      match left, right with
      | .number a, .number b => m.push (.number (a + b)) next
      | .text a, .text b => m.push (.text (a ++ b)) next
      | _, _ => .stop (.typeMismatch .add left.typeName right.typeName) m
  | .subtract => m.arithmetic .subtract next fun a b => .ok (.number (a - b))
  | .multiply =>
    let times (s : String) (n : Float) (m : Machine) : Step :=
      match Text.repeat? s n with
      | some t => m.push (.text t) next
      | none => .stop (.tooLarge .multiply sequenceLimit) m
    m.popPair .multiply fun left right m =>
      match left, right with
      | .number a, .number b => m.push (.number (a * b)) next
      | .text s, .number n => times s n m
      | .number n, .text s => times s n m
      | _, _ => .stop (.typeMismatch .multiply left.typeName right.typeName) m
  | .divide => m.divide .divide next .quotient
  | .modulo => m.divide .modulo next .remainder
  | .floorDiv => m.divide .floorDiv next .floor
  | .negate =>
    m.pop .negate fun v m =>
      match v with
      | .number n => m.push (.number (-n)) next
      | other => .stop (.badOperand .negate other.typeName) m
  | .equal => m.popPair .equal fun left right m => m.push (.ofBool (plainEqual left right)) next
  | .notEqual =>
    m.popPair .notEqual fun left right m => m.push (.ofBool (!plainEqual left right)) next
  | .less => m.compare .less next fun a b => a < b
  | .lessEqual => m.compare .lessEqual next fun a b => a ≤ b
  | .greater => m.compare .greater next fun a b => b < a
  | .greaterEqual => m.compare .greaterEqual next fun a b => b ≤ a
  | .not =>
    m.pop .not fun v m =>
      match v with
      | .bool b => m.push (.ofBool (!b)) next
      | .number n => m.push (.ofBool (Number.isZero n)) next
      | _ => m.push (.ofBool false) next
  | .buildArray =>
    m.popMany .buildArray i.operand fun items m => m.push (.array items.toArray) next
  | .index =>
    m.popPair .index fun target key m =>
      match itemAt target key with
      | .ok v => m.push v next
      | .error e => .stop e m
  | .arrayLength =>
    m.pop .arrayLength fun v m =>
      match lengthOf v with
      | .ok n => m.push (.ofNat n) next
      | .error e => .stop e m
  | .jump => m.jump chunk i.operand
  | .jumpIfFalse =>
    m.pop .jumpIfFalse fun v m =>
      if v.isTruthy then .next next m else m.jump chunk i.operand
  | .print =>
    m.popMany .print i.operand fun values m =>
      match m.output.writeLine (joined values) with
      | (true, output) => .next next { m with output }
      | (false, output) => .stop (.output Output.refusal) { m with output }
  | .pop => m.pop .pop fun _ m => .next next m
  | .dup =>
    match m.stack with
    | [] => .stop (.stackUnderflow .dup) m
    | v :: _ => m.push v next
  | .halt => .halt m

/-- Runs from an offset for at most so many instructions. -/
def runFrom (chunk : Chunk) : Nat → Nat → Machine → Except MachineError Unit × Machine
  | 0, _, m => (.error (.instructionLimit m.maxInstructions), m)
  | remaining + 1, offset, m =>
    match chunk.code[offset]? with
    | none => (.error (.offsetOutOfBounds offset chunk.code.size), m)
    | some i =>
      match execute chunk i (offset + 1) { m with executed := m.executed + 1 } with
      | .next offset m => runFrom chunk remaining offset m
      | .halt m => (.ok (), m)
      | .stop e m => (.error e, m)

/-- Runs a chunk from its start with an empty stack. Globals and output stay from
earlier runs. -/
def run (m : Machine) (chunk : Chunk) : Except MachineError Unit × Machine :=
  runFrom chunk m.maxInstructions 0 { m with stack := [], executed := 0 }

end Machine

end ScriptLang
