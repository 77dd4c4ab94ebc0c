import ScriptLang.Bytecode.Chunk

/-!
# From programs to bytecode

The imperative part of the language is compiled: literals, global names,
operators, arrays, printing, conditions and loops. A node outside it stops the
compiler, which names the node and its line.

Code is built from fragments. A fragment depends on where it will stand only
through the offset of its first instruction and the size of the pool before it.
-/

namespace ScriptLang

/-- Parts of the language that have no bytecode. -/
inductive Construct where
  | functionDefinition | classDefinition | fieldAssignment | giveBack | attempt | raise | check
  | importing | sharing
  | call (name : String)
  | dictLiteral | matrixLiteral | self | fieldAccess
  | methodCall (name : String)
  | create (className : String)
  | superCall
  | matrixProduct
deriving DecidableEq, Repr

def Construct.text : Construct → String
  | functionDefinition => "function definition"
  | classDefinition => "class definition"
  | fieldAssignment => "field assignment"
  | giveBack => "return"
  | attempt => "try statement"
  | raise => "throw"
  | check => "assert"
  | importing => "import"
  | sharing => "export"
  | call name => "call to '" ++ name ++ "'"
  | dictLiteral => "dict literal"
  | matrixLiteral => "matrix literal"
  | self => "'this'"
  | fieldAccess => "field access"
  | methodCall name => "method call '" ++ name ++ "'"
  | create className => "'new " ++ className ++ "'"
  | superCall => "super call"
  | matrixProduct => "matrix multiplication"

structure Unsupported where
  construct : Construct
  line : Nat
deriving DecidableEq, Repr

def Unsupported.message (u : Unsupported) : String :=
  "line " ++ toString u.line ++ ": " ++ u.construct.text
    ++ " is not supported by the bytecode compiler"

/-- Instructions with the constants they add to the pool. -/
structure Fragment where
  code : Array Instr := #[]
  constants : Array Value := #[]

namespace Fragment

def append (a b : Fragment) : Fragment :=
  ⟨a.code ++ b.code, a.constants ++ b.constants⟩

instance : Append Fragment := ⟨append⟩

/-- One instruction. -/
def emit (op : Opcode) (operand : Int := 0) : Fragment := ⟨#[⟨op, operand⟩], #[]⟩

/-- One instruction that refers to a constant of its own, at the end of a pool of
size `pool`. -/
def withConstant (op : Opcode) (v : Value) (pool : Nat) : Fragment := ⟨#[⟨op, pool⟩], #[v]⟩

def load (name : String) (pool : Nat) : Fragment := withConstant .loadVar (.text name) pool

/-- Stores the value on top under a name and drops it. -/
def store (name : String) (pool : Nat) : Fragment :=
  withConstant .storeVar (.text name) pool ++ emit .pop

/-- Fragments one behind another, each given the size of the pool before it. -/
def sequence (pool : Nat) (parts : List (Nat → Fragment)) : Fragment :=
  parts.foldl (fun done part => done ++ part (pool + done.constants.size)) {}

end Fragment

namespace Opcode

/-- The opcode of an operator; the matrix product has none. -/
def ofBinary? : BinaryOp → Option Opcode
  | .add => some add
  | .sub => some subtract
  | .mul => some multiply
  | .div => some divide
  | .mod => some modulo
  | .floorDiv => some floorDiv
  | .eq => some equal
  | .ne => some notEqual
  | .lt => some less
  | .le => some lessEqual
  | .gt => some greater
  | .ge => some greaterEqual
  | .matMul => none

def ofUnary : UnaryOp → Opcode
  | .neg => negate
  | .not => not

end Opcode

namespace Compiler

open Fragment

/-- The hidden global of a loop at some depth of loops. -/
def hiddenName (base : String) (depth : Nat) : String :=
  if depth = 0 then "__tmp_" ++ base ++ "__"
  else "__tmp_" ++ base ++ "_" ++ toString depth ++ "__"

mutual

/-- The code of an expression behind a pool of size `pool`. It leaves one value on
the stack. -/
def expr (pool : Nat) : Expr → Except Unsupported Fragment
  | .number _ n => .ok (withConstant .loadConst (.number n) pool)
  | .text _ s => .ok (withConstant .loadConst (.text s) pool)
  | .bool _ b => .ok (emit (if b then .loadTrue else .loadFalse))
  | .name _ x => .ok (load x pool)
  | .binary p left op right =>
    match Opcode.ofBinary? op with
    | none => .error ⟨.matrixProduct, p.line⟩
    | some code => do
      let l ← expr pool left
      let r ← expr (pool + l.constants.size) right
      return l ++ r ++ emit code
  | .unary _ op operand => do
    let f ← expr pool operand
    return f ++ emit (Opcode.ofUnary op)
  | .call p callee args =>
    if callee = "print" then do
      let f ← exprs pool {} args
      return f ++ emit .print args.length ++ emit .loadNull
    else .error ⟨.call callee, p.line⟩
  | .array _ items => do
    let f ← exprs pool {} items
    return f ++ emit .buildArray items.length
  | .index _ target key => do
    let t ← expr pool target
    let k ← expr (pool + t.constants.size) key
    return t ++ k ++ emit .index
  | .dict p _ => .error ⟨.dictLiteral, p.line⟩
  | .matrix p _ _ _ => .error ⟨.matrixLiteral, p.line⟩
  | .self p => .error ⟨.self, p.line⟩
  | .field p _ _ => .error ⟨.fieldAccess, p.line⟩
  | .methodCall p _ method _ => .error ⟨.methodCall method, p.line⟩
  | .create p className _ => .error ⟨.create className, p.line⟩
  | .superCall p _ _ => .error ⟨.superCall, p.line⟩

/-- The code of expressions one behind another, after what is done already. -/
def exprs (pool : Nat) (done : Fragment) : List Expr → Except Unsupported Fragment
  | [] => .ok done
  | e :: es => do
    let f ← expr (pool + done.constants.size) e
    exprs pool (done ++ f) es

end

mutual

/-- The code of a statement at offset `base`, behind a pool of size `pool`, inside
`depth` loops over arrays. It leaves the stack as it was. -/
def stmt (depth base pool : Nat) : Stmt → Except Unsupported Fragment
  | .expr _ e => do
    let f ← expr pool e
    return f ++ emit .pop
  | .bind _ name value => do
    let f ← expr pool value
    return f ++ store name (pool + f.constants.size)
  | .assign _ name value => do
    let f ← expr pool value
    return f ++ store name (pool + f.constants.size)
  | .choose _ condition yes no => do
    let test ← expr pool condition
    let yesAt := base + test.code.size + 1
    let yesPool := pool + test.constants.size
    let onYes ← block depth yesAt yesPool {} yes
    let noAt := yesAt + onYes.code.size + 1
    let onNo ← optionalBlock depth noAt (yesPool + onYes.constants.size) no
    let stop := noAt + onNo.code.size
    return test ++ emit .jumpIfFalse noAt ++ onYes ++ emit .jump stop ++ onNo
  | .loop _ condition body => do
    let test ← expr pool condition
    let bodyAt := base + test.code.size + 1
    let inner ← block depth bodyAt (pool + test.constants.size) {} body
    let stop := bodyAt + inner.code.size + 1
    return test ++ emit .jumpIfFalse stop ++ inner ++ emit .jump base
  | .forEach _ item source body _ => do
    let items := hiddenName "array" depth
    let counter := hiddenName "idx" depth
    let value ← expr pool source
    let init := sequence (pool + value.constants.size)
      [store items, withConstant .loadConst (.number 0.0), store counter]
    let head := value ++ init
    let start := base + head.code.size
    let test := sequence (pool + head.constants.size)
      [load counter, load items, fun _ => emit .arrayLength, fun _ => emit .less]
    let fetchPool := pool + head.constants.size + test.constants.size
    let fetch := sequence fetchPool
      [load items, load counter, fun _ => emit .index, store item]
    let bodyAt := start + test.code.size + 1 + fetch.code.size
    let bodyPool := fetchPool + fetch.constants.size
    let inner ← block (depth + 1) bodyAt bodyPool {} body
    let step := sequence (bodyPool + inner.constants.size)
      [load counter, withConstant .loadConst (.number 1.0), fun _ => emit .add, store counter]
    let stop := bodyAt + inner.code.size + step.code.size + 1
    return head ++ test ++ emit .jumpIfFalse stop ++ fetch ++ inner ++ step ++ emit .jump start
  | .define p _ => .error ⟨.functionDefinition, p.line⟩
  | .defineClass p _ => .error ⟨.classDefinition, p.line⟩
  | .assignField p _ _ _ => .error ⟨.fieldAssignment, p.line⟩
  | .giveBack p _ => .error ⟨.giveBack, p.line⟩
  | .attempt p _ _ _ => .error ⟨.attempt, p.line⟩
  | .raise p _ => .error ⟨.raise, p.line⟩
  | .check p _ _ => .error ⟨.check, p.line⟩
  | .importModule p _ _ => .error ⟨.importing, p.line⟩
  | .importNames p _ _ => .error ⟨.importing, p.line⟩
  | .share p _ => .error ⟨.sharing, p.line⟩

/-- The code of statements one behind another, after what is done already. -/
def block (depth base pool : Nat) (done : Fragment) : List Stmt → Except Unsupported Fragment
  | [] => .ok done
  | s :: ss => do
    let f ← stmt depth (base + done.code.size) (pool + done.constants.size) s
    block depth base pool (done ++ f) ss

def optionalBlock (depth base pool : Nat) : Option (List Stmt) → Except Unsupported Fragment
  | none => .ok {}
  | some ss => block depth base pool {} ss

end

end Compiler

namespace Program

/-- The bytecode of a program, which ends with a halt. -/
def compile (p : Program) : Except Unsupported Chunk := do
  let f ← Compiler.block 0 0 0 {} p.stmts
  return ⟨f.code.push ⟨.halt, 0⟩, f.constants⟩

end Program

end ScriptLang
