import ScriptLang.Program.Cursor
import ScriptLang.Token.Scanner

/-!
# Reading programs

Statements need nothing between them; semicolons are allowed there. Binary
operators associate to the left on three levels: comparisons bind least, then
`+`, `-` and `@`, then `*`, `/`, `%` and `//`.

A grammar holds the parsers for what stands inside brackets and blocks. Such a
part begins behind a token, so a grammar for `n` tokens is built from one for
`n - 1`, and the bound taken from the number of tokens is always large enough.
-/

namespace ScriptLang

structure Grammar where
  expr : Parser Expr
  stmt : Parser Stmt
  /-- How many rounds a loop over tokens may take. -/
  rounds : Nat

namespace Grammar

open ScriptLang.Parser

/-! ## Expressions -/

def comparisonOp? : Token → Option BinaryOp
  | .symbol .eqEq => some .eq
  | .symbol .notEq => some .ne
  | .symbol .lt => some .lt
  | .symbol .ltEq => some .le
  | .symbol .gt => some .gt
  | .symbol .gtEq => some .ge
  | _ => none

def termOp? : Token → Option BinaryOp
  | .symbol .plus => some .add
  | .symbol .minus => some .sub
  | .symbol .atSign => some .matMul
  | _ => none

def factorOp? : Token → Option BinaryOp
  | .symbol .star => some .mul
  | .symbol .slash => some .div
  | .symbol .percent => some .mod
  | .symbol .slashSlash => some .floorDiv
  | _ => none

def unaryOp? : Token → Option UnaryOp
  | .symbol .minus => some .neg
  | .symbol .bang => some .not
  | _ => none

/-- The arguments of a call, in parentheses. -/
def arguments (g : Grammar) : Parser (List Expr) := do
  expect (.symbol .lparen)
  listUntil .rparen g.expr g.rounds

/-- The items of a row that is not empty. -/
def rowOf? : Expr → Option (List Expr)
  | .array _ (x :: xs) => some (x :: xs)
  | _ => none

/-- The row length and the cells of an array of rows, if all rows have one length. -/
def matrixOf? (items : List Expr) : Option (Nat × List Expr) := do
  let rows ← items.mapM rowOf?
  match rows with
  | [] => none
  | r :: rs => if rs.all (·.length = r.length) then some (r.length, rows.flatten) else none

/-- An array literal behind its bracket. Rows of one length make a matrix. -/
def arrayLiteral (g : Grammar) (start : Place) : Parser Expr := do
  let items ← listUntil .rbracket g.expr g.rounds
  let place ← since start
  match matrixOf? items with
  | some (cols, cells) => return .matrix place items.length cols cells
  | none => return .array place items

def dictEntry (g : Grammar) : Parser (String × Expr) := do
  let key ←
    match ← peek with
    | some (.name k) =>
      advance
      pure k
    | some (.text k) =>
      advance
      pure k
    | _ => fail .dictKey
  expect (.symbol .colon)
  return (key, ← g.expr)

def primary (g : Grammar) : Parser Expr := do
  let start ← here
  match ← peek with
  | some (.number n) =>
    advance
    return .number (← since start) n
  | some (.text s) =>
    advance
    return .text (← since start) s
  | some (.keyword .trueKw) =>
    advance
    return .bool (← since start) true
  | some (.keyword .falseKw) =>
    advance
    return .bool (← since start) false
  | some (.keyword .thisKw) =>
    advance
    return .self (← since start)
  | some (.name x) =>
    advance
    if ← sees (.symbol .lparen) then
      let args ← g.arguments
      return .call (← since start) x args
    else return .name (← since start) x
  | some (.keyword .newKw) =>
    advance
    let className ← identifier
    let args ← g.arguments
    return .create (← since start) className args
  | some (.keyword .superKw) =>
    advance
    expect (.symbol .dot)
    let method ← identifier
    let args ← g.arguments
    return .superCall (← since start) method args
  | some (.symbol .lbracket) =>
    advance
    g.arrayLiteral start
  | some (.symbol .lbrace) =>
    advance
    let entries ← listUntil .rbrace g.dictEntry g.rounds
    return .dict (← since start) entries
  | some (.symbol .lparen) =>
    advance
    let inner ← g.expr
    expect (.symbol .rparen)
    return inner.movedTo (← since start)
  | _ => fail .expression

/-- Indexing, fields and method calls behind `left`, which begins at `start`. -/
def postfixes (g : Grammar) (start : Span) : Nat → Expr → Parser Expr
  | 0, _ => tooDeep
  | rounds + 1, left => do
    let spot : Place := ⟨start, (← here).line⟩
    match ← peek with
    | some (.symbol .lbracket) =>
      advance
      let key ← g.expr
      expect (.symbol .rbracket)
      postfixes g start rounds (.index (← since spot) left key)
    | some (.symbol .dot) =>
      advance
      let label ← identifier
      if ← sees (.symbol .lparen) then
        let args ← g.arguments
        postfixes g start rounds (.methodCall (← since spot) left label args)
      else postfixes g start rounds (.field (← since spot) left label)
    | some (.symbol .arrow) =>
      advance
      let method ← identifier
      let args ← g.arguments
      postfixes g start rounds (.methodCall (← since spot) left method args)
    | _ => return left

def postfixed (g : Grammar) : Parser Expr := do
  let start ← here
  let left ← g.primary
  g.postfixes start.span g.rounds left

def unary (g : Grammar) : Nat → Parser Expr
  | 0 => tooDeep
  | rounds + 1 => do
    match (← peek).bind unaryOp? with
    | none => g.postfixed
    | some op =>
      let start ← here
      advance
      let operand ← unary g rounds
      return .unary (← since start) op operand

/-- The operators of one level behind `left`, from left to right. -/
def chain (op? : Token → Option BinaryOp) (operand : Parser Expr) : Nat → Expr → Parser Expr
  | 0, _ => tooDeep
  | rounds + 1, left => do
    match (← peek).bind op? with
    | none => return left
    | some op =>
      advance
      let right ← operand
      let place : Place := ⟨left.place.span.merge right.place.span, left.place.line⟩
      chain op? operand rounds (.binary place left op right)

def factor (g : Grammar) : Parser Expr := do
  let left ← g.unary (g.rounds + 1)
  chain factorOp? (g.unary (g.rounds + 1)) g.rounds left

def term (g : Grammar) : Parser Expr := do
  let left ← g.factor
  chain termOp? g.factor g.rounds left

def comparison (g : Grammar) : Parser Expr := do
  let left ← g.term
  chain comparisonOp? g.term g.rounds left

/-! ## Statements -/

/-- Statements up to a closing brace, which is read too. -/
def stmtsUntilBrace (g : Grammar) : Nat → List Stmt → Parser (List Stmt)
  | 0, _ => tooDeep
  | rounds + 1, done => do
    match ← peek with
    | some (.symbol .rbrace) =>
      advance
      return done.reverse
    | none => fail (.token (.symbol .rbrace))
    | some _ =>
      let s ← g.stmt
      skipSemis
      stmtsUntilBrace g rounds (s :: done)

def block (g : Grammar) : Parser (List Stmt) := do
  expect (.symbol .lbrace)
  skipSemis
  g.stmtsUntilBrace g.rounds []

def functionDecl (g : Grammar) : Parser FunctionDecl := do
  let line := (← here).line
  expect (.keyword .fnKw)
  let name ← identifier
  expect (.symbol .lparen)
  let params ← listUntil .rparen identifier g.rounds
  let body ← g.block
  return ⟨name, params, body, line⟩

/-- The members of a class up to a closing brace, which is read too. -/
def classMembers (g : Grammar) :
    Nat → List String → List FunctionDecl → Parser (List String × List FunctionDecl)
  | 0, _, _ => tooDeep
  | rounds + 1, fields, methods => do
    skipSemis
    match ← peek with
    | some (.symbol .rbrace) =>
      advance
      return (fields.reverse, methods.reverse)
    | some (.keyword .letKw) =>
      advance
      let field ← identifier
      classMembers g rounds (field :: fields) methods
    | some (.keyword .fnKw) =>
      let method ← g.functionDecl
      classMembers g rounds fields (method :: methods)
    | _ => fail .classMember

def classDecl (g : Grammar) : Parser ClassDecl := do
  expect (.keyword .classKw)
  let name ← identifier
  let parent ← if ← eat (.keyword .extendsKw) then some <$> identifier else pure none
  expect (.symbol .lbrace)
  let (fields, methods) ← g.classMembers g.rounds [] []
  return ⟨name, parent, fields, methods⟩

/-- A module is named by an identifier or by a text. -/
def moduleName : Parser String := do
  match ← peek with
  | some (.text path) =>
    advance
    return path
  | _ => identifier

def chooseStmt (g : Grammar) (start : Place) : Parser Stmt := do
  expect (.keyword .ifKw)
  let condition ← g.comparison
  let yes ← g.block
  if ← eat (.keyword .elseKw) then
    let no ← if ← sees (.keyword .ifKw) then (fun s => [s]) <$> g.stmt else g.block
    return .choose (← since start) condition yes (some no)
  else return .choose (← since start) condition yes none

def forStmt (g : Grammar) (start : Place) : Parser Stmt := do
  let parallel ← eat (.keyword .parallelKw)
  expect (.keyword .forKw)
  let parens ← eat (.symbol .lparen)
  let item ← identifier
  expect (.keyword .inKw)
  let source ← g.comparison
  if parens then expect (.symbol .rparen)
  let body ← g.block
  return .forEach (← since start) item source body parallel

def handlerClause (g : Grammar) : Parser Handler := do
  match ← peek with
  | some (.name first) =>
    advance
    if ← eat (.keyword .asKw) then
      let binder ← identifier
      return ⟨some first, some binder, ← g.block⟩
    else return ⟨none, some first, ← g.block⟩
  | _ => return ⟨none, none, ← g.block⟩

def attemptStmt (g : Grammar) (start : Place) : Parser Stmt := do
  expect (.keyword .tryKw)
  let body ← g.block
  let handler ← if ← eat (.keyword .catchKw) then some <$> g.handlerClause else pure none
  let finish ← if ← eat (.keyword .finallyKw) then some <$> g.block else pure none
  if handler.isNone && finish.isNone then fail .handler
  return .attempt (← since start) body handler finish

/-- An expression, or an assignment to a name or a field. -/
def exprStmt (g : Grammar) (start : Place) : Parser Stmt := do
  let target ← g.comparison
  let mark := (← here).span
  if ← eat (.symbol .eq) then
    let value ← g.comparison
    match target with
    | .name _ x => return .assign (← since start) x value
    | .field _ owner label => return .assignField (← since start) owner label value
    | _ => throw ⟨.assignmentTarget, mark⟩
  else return .expr (← since start) target

def statement (g : Grammar) : Parser Stmt := do
  let start ← here
  match ← peek with
  | some (.keyword .importKw) =>
    advance
    let module ← moduleName
    let rename ← if ← eat (.keyword .asKw) then some <$> identifier else pure none
    return .importModule (← since start) module rename
  | some (.keyword .fromKw) =>
    advance
    let module ← moduleName
    expect (.keyword .importKw)
    let names ← commaList identifier g.rounds []
    return .importNames (← since start) module names
  | some (.keyword .exportKw) =>
    advance
    match ← peek with
    | some (.keyword .fnKw) | some (.keyword .letKw) | some (.keyword .classKw) =>
      let inner ← g.stmt
      return .share (← since start) inner
    | _ => fail .shareable
  | some (.keyword .letKw) =>
    advance
    let name ← identifier
    expect (.symbol .eq)
    let value ← g.comparison
    return .bind (← since start) name value
  | some (.keyword .fnKw) =>
    let decl ← g.functionDecl
    return .define (← since start) decl
  | some (.keyword .classKw) =>
    let decl ← g.classDecl
    return .defineClass (← since start) decl
  | some (.keyword .ifKw) => g.chooseStmt start
  | some (.keyword .forKw) | some (.keyword .parallelKw) => g.forStmt start
  | some (.keyword .whileKw) =>
    advance
    let condition ← g.comparison
    let body ← g.block
    return .loop (← since start) condition body
  | some (.keyword .returnKw) =>
    advance
    match ← peek with
    | none | some (.symbol .rbrace) | some (.symbol .semi) =>
      return .giveBack (← since start) none
    | some _ =>
      let value ← g.comparison
      return .giveBack (← since start) (some value)
  | some (.keyword .tryKw) => g.attemptStmt start
  | some (.keyword .structKw) => throw ⟨.reserved, start.span⟩
  | some (.keyword .throwKw) =>
    advance
    let value ← g.comparison
    return .raise (← since start) value
  | some (.keyword .assertKw) =>
    advance
    let condition ← g.comparison
    let message ← if ← eat (.symbol .comma) then some <$> g.comparison else pure none
    return .check (← since start) condition message
  | _ => g.exprStmt start

/-- The grammar for fewer than `bound` tokens. -/
def ofBound : Nat → Grammar
  | 0 => ⟨tooDeep, tooDeep, 0⟩
  | n + 1 => ⟨fun c => (ofBound n).comparison c, fun c => (ofBound n).statement c, n + 1⟩

/-- Statements up to the end of the tokens. -/
def stmtsUntilEnd (g : Grammar) : Nat → List Stmt → Parser (List Stmt)
  | 0, _ => tooDeep
  | rounds + 1, done => do
    match ← peek with
    | none => return done.reverse
    | some _ =>
      let s ← g.stmt
      skipSemis
      stmtsUntilEnd g rounds (s :: done)

end Grammar

/-- Why a text is not a program. -/
inductive SourceError where
  | scan (e : LexError)
  | parse (e : SyntaxError)

namespace SourceError

def span : SourceError → Span
  | scan e => e.span
  | parse e => e.span

/-- What is wrong, without the place. -/
def detail : SourceError → String
  | scan e => e.message
  | parse e => e.message

def message : SourceError → String
  | scan e => "Lexer error at " ++ e.span.render ++ ": " ++ e.message
  | parse e => "Parser error at " ++ e.span.render ++ ": " ++ e.message

end SourceError

namespace Program

/-- The tokens with the lines of a source text. -/
def lexemes (source : String) (tokens : List (Token × Span)) : List Lexeme :=
  let lines := Lines.ofText source
  tokens.map fun (t, s) => ⟨t, s, lines.line s.start⟩

/-- The program that tokens of a source text form. -/
def ofTokens (source : String) (tokens : List (Token × Span)) : Except SyntaxError Program :=
  let final : Span := ⟨source.utf8ByteSize, source.utf8ByteSize⟩
  let bound := tokens.length + 1
  let start : Cursor := ⟨lexemes source tokens, final, final⟩
  match (Grammar.ofBound bound).stmtsUntilEnd bound [] start.skipSemis with
  | .ok (stmts, _) => .ok ⟨stmts⟩
  | .error e => .error e

/-- The program that a text writes. -/
def ofText (source : String) : Except SourceError Program :=
  match Token.scan source with
  | .error e => .error (.scan e)
  | .ok tokens =>
    match ofTokens source tokens with
    | .error e => .error (.parse e)
    | .ok program => .ok program

end Program

end ScriptLang
