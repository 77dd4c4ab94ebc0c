import ScriptLang.Bytecode.Compiler

/-!
# Bytecode written in one pass

The code of a program, written from front to back into one chunk. A jump ahead
is written before the code that it passes over, so its target is not known yet;
it is patched in when the writer gets there.
-/

namespace ScriptLang

/-- What the writer of a chunk keeps: the chunk so far, and how many loops over arrays
are around the code it is writing. -/
structure Emitter where
  chunk : Chunk := {}
  depth : Nat := 0

abbrev Emit := StateT Emitter (Except Unsupported)

namespace Emit

/-- Adds a constant to the pool and gives its index. -/
def constant (v : Value) : Emit Nat :=
  modifyGet fun e =>
    (e.chunk.constants.size,
      { e with chunk := { e.chunk with constants := e.chunk.constants.push v } })

/-- The offset of the next instruction. -/
def here : Emit Nat := do
  return (← get).chunk.code.size

def write (op : Opcode) (operand : Int := 0) : Emit Unit :=
  modify fun e =>
    { e with chunk := { e.chunk with code := e.chunk.code.push ⟨op, operand⟩ } }

/-- Writes a jump without its target and gives its offset. -/
def jumpAhead (op : Opcode) : Emit Nat := do
  let offset ← here
  write op
  return offset

/-- Makes the next instruction the target of the jump at an offset. -/
def arrive (offset : Nat) : Emit Unit := do
  let target ← here
  modify fun e => { e with chunk := e.chunk.patch offset target }

def writeConstant (op : Opcode) (v : Value) : Emit Unit := do
  let k ← constant v
  write op k

def load (name : String) : Emit Unit :=
  writeConstant .loadVar (.text name)

/-- Stores the value on top under a name and drops it. -/
def store (name : String) : Emit Unit := do
  writeConstant .storeVar (.text name)
  write .pop

/-- Writes code that stands one loop over an array deeper. -/
def deeper (body : Emit Unit) : Emit Unit := do
  modify fun e => { e with depth := e.depth + 1 }
  body
  modify fun e => { e with depth := e.depth - 1 }

/-- A choice, from what writes its condition and its branches. -/
def choose (condition yes no : Emit Unit) : Emit Unit := do
  condition
  let toElse ← jumpAhead .jumpIfFalse
  yes
  let toEnd ← jumpAhead .jump
  arrive toElse
  no
  arrive toEnd

/-- A loop, from what writes its condition and its body. -/
def loop (condition body : Emit Unit) : Emit Unit := do
  let start ← here
  condition
  let toEnd ← jumpAhead .jumpIfFalse
  body
  write .jump start
  arrive toEnd

/-- Keeps the array on top of the stack and counts from zero. -/
def startCount (items counter : String) : Emit Unit := do
  store items
  writeConstant .loadConst (.number 0.0)
  store counter

/-- Asks whether there is another item. -/
def testCount (items counter : String) : Emit Unit := do
  load counter
  load items
  write .arrayLength
  write .less

def fetchItem (items counter item : String) : Emit Unit := do
  load items
  load counter
  write .index
  store item

def stepCount (counter : String) : Emit Unit := do
  load counter
  writeConstant .loadConst (.number 1.0)
  write .add
  store counter

/-- A loop over an array counts through it. The array and the counter are hidden globals
of their own for each depth. -/
def forEach (item : String) (source body : Emit Unit) : Emit Unit := do
  let depth := (← get).depth
  let items := Compiler.hiddenName "array" depth
  let counter := Compiler.hiddenName "idx" depth
  source
  startCount items counter
  let start ← here
  testCount items counter
  let toEnd ← jumpAhead .jumpIfFalse
  fetchItem items counter item
  deeper body
  stepCount counter
  write .jump start
  arrive toEnd

mutual

def expr : Expr → Emit Unit
  | .number _ n => writeConstant .loadConst (.number n)
  | .text _ s => writeConstant .loadConst (.text s)
  | .bool _ b => write (if b then .loadTrue else .loadFalse)
  | .name _ x => load x
  | .binary p left op right =>
    match Opcode.ofBinary? op with
    | none => throw ⟨.matrixProduct, p.line⟩
    | some code => do
      expr left
      expr right
      write code
  | .unary _ op operand => do
    expr operand
    write (Opcode.ofUnary op)
  | .call p callee args =>
    if callee = "print" then do
      exprs args
      write .print args.length
      write .loadNull
    else throw ⟨.call callee, p.line⟩
  | .array _ items => do
    exprs items
    write .buildArray items.length
  | .index _ target key => do
    expr target
    expr key
    write .index
  | .dict p _ => throw ⟨.dictLiteral, p.line⟩
  | .matrix p _ _ _ => throw ⟨.matrixLiteral, p.line⟩
  | .self p => throw ⟨.self, p.line⟩
  | .field p _ _ => throw ⟨.fieldAccess, p.line⟩
  | .methodCall p _ method _ => throw ⟨.methodCall method, p.line⟩
  | .create p className _ => throw ⟨.create className, p.line⟩
  | .superCall p _ _ => throw ⟨.superCall, p.line⟩

def exprs : List Expr → Emit Unit
  | [] => pure ()
  | e :: es => do
    expr e
    exprs es

end

mutual

def stmt : Stmt → Emit Unit
  | .expr _ e => do
    expr e
    write .pop
  | .bind _ name value => do
    expr value
    store name
  | .assign _ name value => do
    expr value
    store name
  | .choose _ condition yes no => choose (expr condition) (block yes) (optionalBlock no)
  | .loop _ condition body => loop (expr condition) (block body)
  | .forEach _ item source body _ => forEach item (expr source) (block body)
  | .define p _ => throw ⟨.functionDefinition, p.line⟩
  | .defineClass p _ => throw ⟨.classDefinition, p.line⟩
  | .assignField p _ _ _ => throw ⟨.fieldAssignment, p.line⟩
  | .giveBack p _ => throw ⟨.giveBack, p.line⟩
  | .attempt p _ _ _ => throw ⟨.attempt, p.line⟩
  | .raise p _ => throw ⟨.raise, p.line⟩
  | .check p _ _ => throw ⟨.check, p.line⟩
  | .importModule p _ _ => throw ⟨.importing, p.line⟩
  | .importNames p _ _ => throw ⟨.importing, p.line⟩
  | .share p _ => throw ⟨.sharing, p.line⟩

def block : List Stmt → Emit Unit
  | [] => pure ()
  | s :: ss => do
    stmt s
    block ss

def optionalBlock : Option (List Stmt) → Emit Unit
  | none => pure ()
  | some ss => block ss

end

end Emit

namespace Program

/-- The bytecode of a program, written in one pass. -/
def emit (p : Program) : Except Unsupported Chunk := do
  let ((), e) ← (do Emit.block p.stmts; Emit.write .halt).run {}
  return e.chunk

end Program

end ScriptLang
