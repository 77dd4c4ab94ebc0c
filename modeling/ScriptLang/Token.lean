import ScriptLang.Number.Text
import ScriptLang.Span
import ScriptLang.Text.Quoted

/-!
# Tokens

Keywords and symbols are fixed texts; numbers, texts and names carry what was
read. Each token has a text that messages show and a kind that dumps show.
-/

namespace ScriptLang

inductive Keyword where
  | letKw | fnKw | ifKw | elseKw | forKw | whileKw | returnKw | inKw | parallelKw | structKw
  | trueKw | falseKw
  | classKw | newKw | thisKw | extendsKw | superKw
  | tryKw | catchKw | throwKw | finallyKw | assertKw
  | importKw | exportKw | fromKw | asKw
deriving DecidableEq, Repr

namespace Keyword

def all : List Keyword :=
  [letKw, fnKw, ifKw, elseKw, forKw, whileKw, returnKw, inKw, parallelKw, structKw, trueKw,
    falseKw, classKw, newKw, thisKw, extendsKw, superKw, tryKw, catchKw, throwKw, finallyKw,
    assertKw, importKw, exportKw, fromKw, asKw]

def text : Keyword → String
  | letKw => "let"
  | fnKw => "fn"
  | ifKw => "if"
  | elseKw => "else"
  | forKw => "for"
  | whileKw => "while"
  | returnKw => "return"
  | inKw => "in"
  | parallelKw => "parallel"
  | structKw => "struct"
  | trueKw => "true"
  | falseKw => "false"
  | classKw => "class"
  | newKw => "new"
  | thisKw => "this"
  | extendsKw => "extends"
  | superKw => "super"
  | tryKw => "try"
  | catchKw => "catch"
  | throwKw => "throw"
  | finallyKw => "finally"
  | assertKw => "assert"
  | importKw => "import"
  | exportKw => "export"
  | fromKw => "from"
  | asKw => "as"

def kind : Keyword → String
  | letKw => "Let"
  | fnKw => "Fn"
  | ifKw => "If"
  | elseKw => "Else"
  | forKw => "For"
  | whileKw => "While"
  | returnKw => "Return"
  | inKw => "In"
  | parallelKw => "Parallel"
  | structKw => "Struct"
  | trueKw => "True"
  | falseKw => "False"
  | classKw => "Class"
  | newKw => "New"
  | thisKw => "This"
  | extendsKw => "Extends"
  | superKw => "Super"
  | tryKw => "Try"
  | catchKw => "Catch"
  | throwKw => "Throw"
  | finallyKw => "Finally"
  | assertKw => "Assert"
  | importKw => "Import"
  | exportKw => "Export"
  | fromKw => "From"
  | asKw => "As"

/-- The keyword with this text. -/
def ofText? (s : String) : Option Keyword :=
  all.find? (·.text == s)

end Keyword

inductive Symbol where
  | plus | minus | arrow | star | slash | slashSlash | percent | atSign | bang
  | eqEq | notEq | lt | ltEq | gt | gtEq
  | lparen | rparen | lbrace | rbrace | lbracket | rbracket
  | comma | dot | colon | semi | eq
deriving DecidableEq, Repr

namespace Symbol

def all : List Symbol :=
  [plus, minus, arrow, star, slash, slashSlash, percent, atSign, bang, eqEq, notEq, lt, ltEq, gt,
    gtEq, lparen, rparen, lbrace, rbrace, lbracket, rbracket, comma, dot, colon, semi, eq]

def text : Symbol → String
  | plus => "+"
  | minus => "-"
  | arrow => "->"
  | star => "*"
  | slash => "/"
  | slashSlash => "//"
  | percent => "%"
  | atSign => "@"
  | bang => "!"
  | eqEq => "=="
  | notEq => "!="
  | lt => "<"
  | ltEq => "<="
  | gt => ">"
  | gtEq => ">="
  | lparen => "("
  | rparen => ")"
  | lbrace => "\x7b"
  | rbrace => "\x7d"
  | lbracket => "["
  | rbracket => "]"
  | comma => ","
  | dot => "."
  | colon => ":"
  | semi => ";"
  | eq => "="

def kind : Symbol → String
  | plus => "Plus"
  | minus => "Minus"
  | arrow => "Arrow"
  | star => "Star"
  | slash => "Slash"
  | slashSlash => "SlashSlash"
  | percent => "Percent"
  | atSign => "At"
  | bang => "Bang"
  | eqEq => "EqEq"
  | notEq => "NotEq"
  | lt => "Lt"
  | ltEq => "LtEq"
  | gt => "Gt"
  | gtEq => "GtEq"
  | lparen => "LParen"
  | rparen => "RParen"
  | lbrace => "LBrace"
  | rbrace => "RBrace"
  | lbracket => "LBracket"
  | rbracket => "RBracket"
  | comma => "Comma"
  | dot => "Dot"
  | colon => "Colon"
  | semi => "Semi"
  | eq => "Eq"

end Symbol

inductive Token where
  | keyword (k : Keyword)
  | symbol (s : Symbol)
  | number (n : Float)
  | text (s : String)
  | name (s : String)
deriving DecidableEq

namespace Token

/-- The text that messages show. -/
def render : Token → String
  | keyword k => k.text
  | symbol s => s.text
  | number n => Number.inMessage.write n
  | text s => Text.quoted s
  | name s => s

def kind : Token → String
  | keyword k => k.kind
  | symbol s => s.kind
  | number _ => "Number"
  | text _ => "Str"
  | name _ => "Ident"

/-- The kind with what was read, as token dumps show it. -/
def dump : Token → String
  | number n => "Number(" ++ Number.inTokenDump.write n ++ ")"
  | text s => "Str(" ++ Text.quoted s ++ ")"
  | name s => "Ident(" ++ Text.quoted s ++ ")"
  | t => t.kind

end Token

/-- Why a text cannot be split into tokens. -/
inductive LexCause where
  | unterminatedText
  | unexpected (c : Char)
deriving DecidableEq, Repr

structure LexError where
  cause : LexCause
  span : Span
deriving DecidableEq, Repr

def LexError.message (e : LexError) : String :=
  match e.cause with
  | .unterminatedText => "unterminated string literal"
  | .unexpected c => "unexpected character: " ++ Text.quoted c.toString

end ScriptLang
