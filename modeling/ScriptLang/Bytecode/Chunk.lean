import ScriptLang.Text.Unicode
import ScriptLang.Value

/-!
# Bytecode

A chunk is a list of instructions with a pool of constants. An operand is an
index into the pool, a jump target or a count of values; opcodes that take none
ignore it.
-/

namespace ScriptLang

inductive Opcode where
  | loadConst | loadTrue | loadFalse | loadNull
  | loadVar | storeVar
  | add | subtract | multiply | divide | modulo | floorDiv | negate
  | equal | notEqual | less | lessEqual | greater | greaterEqual
  | not
  | buildArray | index | arrayLength
  | jump | jumpIfFalse
  | print | pop | dup | halt
deriving DecidableEq, Repr

namespace Opcode

def all : List Opcode :=
  [loadConst, loadTrue, loadFalse, loadNull, loadVar, storeVar, add, subtract, multiply, divide,
    modulo, floorDiv, negate, equal, notEqual, less, lessEqual, greater, greaterEqual, not,
    buildArray, index, arrayLength, jump, jumpIfFalse, print, pop, dup, halt]

/-- The name in listings and messages. -/
def mnemonic : Opcode → String
  | loadConst => "LOAD_CONST"
  | loadTrue => "LOAD_TRUE"
  | loadFalse => "LOAD_FALSE"
  | loadNull => "LOAD_NULL"
  | loadVar => "LOAD_VAR"
  | storeVar => "STORE_VAR"
  | add => "ADD"
  | subtract => "SUBTRACT"
  | multiply => "MULTIPLY"
  | divide => "DIVIDE"
  | modulo => "MODULO"
  | floorDiv => "FLOOR_DIV"
  | negate => "NEGATE"
  | equal => "EQUAL"
  | notEqual => "NOT_EQUAL"
  | less => "LESS"
  | lessEqual => "LESS_EQUAL"
  | greater => "GREATER"
  | greaterEqual => "GREATER_EQUAL"
  | not => "NOT"
  | buildArray => "BUILD_ARRAY"
  | index => "INDEX"
  | arrayLength => "ARRAY_LENGTH"
  | jump => "JUMP"
  | jumpIfFalse => "JUMP_IF_FALSE"
  | print => "PRINT"
  | pop => "POP"
  | dup => "DUP"
  | halt => "HALT"

def ofMnemonic? (s : String) : Option Opcode :=
  all.find? (·.mnemonic == s)

def hasOperand : Opcode → Bool
  | loadConst | loadVar | storeVar | buildArray | jump | jumpIfFalse | print => true
  | _ => false

/-- Whether the operand is an index into the constant pool. -/
def usesConstant : Opcode → Bool
  | loadConst | loadVar | storeVar => true
  | _ => false

end Opcode

structure Instr where
  op : Opcode
  operand : Int := 0
deriving DecidableEq, Repr

structure Chunk where
  code : Array Instr := #[]
  constants : Array Value := #[]

namespace Chunk

/-- The constant at an index, which may lie outside the pool. -/
def constant? (c : Chunk) (i : Int) : Option Value :=
  if i < 0 then none else c.constants[i.toNat]?

/-- Replaces the operand of the instruction at an offset, if there is one. -/
def patch (c : Chunk) (offset : Nat) (operand : Int) : Chunk :=
  { c with code := c.code.modify offset fun i => { i with operand } }

/-- A number with at least four digits. -/
def offsetText (n : Nat) : String :=
  let digits := Nat.toDigits 10 n
  String.ofList (List.replicate (4 - digits.length) '0' ++ digits)

/-- A text filled up with blanks to twenty characters. -/
def column (s : String) : String :=
  s ++ String.ofList (List.replicate (20 - s.length) ' ')

/-- The operand, followed by the constant it refers to. -/
def operandText (c : Chunk) (i : Instr) : String :=
  if i.op.hasOperand then
    let shown := if i.op.usesConstant then c.constant? i.operand else none
    " " ++ toString i.operand
      ++ (match shown with
        | some v => " (" ++ v.render (fun _ => []) ++ ")"
        | none => "")
  else ""

def listingLine (c : Chunk) (offset : Nat) (i : Instr) : String :=
  Text.trimEnd (offsetText offset ++ "  " ++ column i.op.mnemonic ++ c.operandText i)

/-- A heading, a line per instruction and an empty line. -/
def listing (c : Chunk) (name : String) : String :=
  let lines := c.code.toList.zipIdx.map fun (i, offset) => c.listingLine offset i ++ "\n"
  "== " ++ name ++ " ==\n" ++ String.join lines ++ "\n"

end Chunk

end ScriptLang
