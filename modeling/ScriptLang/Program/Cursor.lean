import ScriptLang.Program
import ScriptLang.Token

/-!
# Reading tokens in order

A cursor holds the tokens not yet read. Parsers move it forward and never back,
and fail at the token they stand on.
-/

namespace ScriptLang

/-- A token with its span and the line it begins on. -/
structure Lexeme where
  token : Token
  span : Span
  line : Nat

structure Cursor where
  rest : List Lexeme
  /-- The span of the token read last, or `final` before the first. -/
  last : Span
  /-- The empty span at the end of the source. -/
  final : Span

/-- What a parser was looking for. -/
inductive Expected where
  | token (t : Token)
  | identifier
  | expression
  | dictKey
  | shareable
  | classMember
  | handler

def Expected.text : Expected → String
  | token t => "'" ++ t.render ++ "'"
  | identifier => "identifier"
  | expression => "expression"
  | dictKey => "dict key"
  | shareable => "'fn', 'let' or 'class' after 'export'"
  | classMember => "'let', 'fn' or '\x7d' in class body"
  | handler => "'catch' or 'finally' after try block"

/-- Why tokens do not form a program. -/
inductive SyntaxCause where
  | expected (what : Expected) (found : Option Token)
  /-- A word that is kept for later use. -/
  | reserved
  | assignmentTarget
  /-- The bound on nesting was too small, see `Grammar.ofBound`, or the tokens were read past
  their end. -/
  | tooDeep

structure SyntaxError where
  cause : SyntaxCause
  span : Span

def SyntaxError.message (e : SyntaxError) : String :=
  match e.cause with
  | .expected what (some t) => "expected " ++ what.text ++ ", found '" ++ t.render ++ "'"
  | .expected what none => "expected " ++ what.text ++ ", found end of input"
  | .reserved => "'struct' is reserved; use 'class'"
  | .assignmentTarget => "invalid assignment target"
  | .tooDeep => "nesting too deep"

abbrev Parser := StateT Cursor (Except SyntaxError)

namespace Cursor

def token? (c : Cursor) : Option Token :=
  c.rest.head?.map (·.token)

def span (c : Cursor) : Span :=
  match c.rest with
  | [] => c.final
  | l :: _ => l.span

def line (c : Cursor) : Nat :=
  match c.rest with
  | [] => 0
  | l :: _ => l.line

/-- Moves over one token. -/
def next (c : Cursor) : Cursor :=
  match c.rest with
  | [] => c
  | l :: rest => { c with rest, last := l.span }

/-- Moves over the lexemes at the front that are semicolons. -/
def overSemis (last : Span) : List Lexeme → List Lexeme × Span
  | [] => ([], last)
  | l :: rest =>
    if l.token = .symbol .semi then overSemis l.span rest else (l :: rest, last)

def skipSemis (c : Cursor) : Cursor :=
  let (rest, last) := overSemis c.last c.rest
  { c with rest, last }

end Cursor

namespace Parser

def peek : Parser (Option Token) := fun c => .ok (c.token?, c)

def here : Parser Place := fun c => .ok (⟨c.span, c.line⟩, c)

def skipSemis : Parser Unit := fun c => .ok ((), c.skipSemis)

def fail {α : Type} (what : Expected) : Parser α :=
  fun c => .error ⟨.expected what c.token?, c.span⟩

def tooDeep {α : Type} : Parser α :=
  fun c => .error ⟨.tooDeep, c.span⟩

/-- Reads the next token, which has been looked at before. -/
def advance : Parser Unit := fun c =>
  if c.rest.isEmpty then tooDeep c else .ok ((), c.next)

/-- The place from `start` up to the token read last, on the line of `start`. -/
def since (start : Place) : Parser Place :=
  fun c => .ok (⟨start.span.merge c.last, start.line⟩, c)

/-- Whether the next token is `t`. -/
def sees (t : Token) : Parser Bool := fun c => .ok (c.token? = some t, c)

/-- Reads `t` if it comes next. -/
def eat (t : Token) : Parser Bool :=
  fun c => if c.token? = some t then .ok (true, c.next) else .ok (false, c)

def expect (t : Token) : Parser Unit := do
  unless ← eat t do fail (.token t)

def identifier : Parser String := do
  match ← peek with
  | some (.name x) =>
    advance
    return x
  | _ => fail .identifier

/-- One or more items with commas between them, in at most `rounds` rounds. -/
def commaList {α : Type} (item : Parser α) : Nat → List α → Parser (List α)
  | 0, _ => tooDeep
  | rounds + 1, done => do
    let x ← item
    if ← eat (.symbol .comma) then commaList item rounds (x :: done)
    else return (x :: done).reverse

/-- Items with commas between them up to the token `close`, which is read too. -/
def listUntil {α : Type} (close : Symbol) (item : Parser α) (rounds : Nat) :
    Parser (List α) := do
  if ← eat (.symbol close) then return []
  let items ← commaList item rounds []
  expect (.symbol close)
  return items

end Parser

end ScriptLang
