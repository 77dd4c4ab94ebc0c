import ScriptLang.Span

/-!
# Programs

A program is a list of statements. Every node carries its place: the bytes it
was read from and the line that stack frames and messages report.
-/

namespace ScriptLang

inductive BinaryOp where
  | add | sub | mul | div | mod | floorDiv
  /-- Dot product of arrays, product of matrices. -/
  | matMul
  | eq | ne | lt | gt | le | ge
deriving DecidableEq, Repr

namespace BinaryOp

def isComparison : BinaryOp → Bool
  | eq | ne | lt | gt | le | ge => true
  | _ => false

def text : BinaryOp → String
  | add => "+"
  | sub => "-"
  | mul => "*"
  | div => "/"
  | mod => "%"
  | floorDiv => "//"
  | matMul => "@"
  | eq => "=="
  | ne => "!="
  | lt => "<"
  | gt => ">"
  | le => "<="
  | ge => ">="

def all : List BinaryOp :=
  [add, sub, mul, div, mod, floorDiv, matMul, eq, ne, lt, gt, le, ge]

def ofText? (s : String) : Option BinaryOp :=
  all.find? (·.text == s)

end BinaryOp

inductive UnaryOp where
  | neg | not
deriving DecidableEq, Repr

namespace UnaryOp

def text : UnaryOp → String
  | neg => "-"
  | not => "!"

def ofText? (s : String) : Option UnaryOp :=
  [neg, not].find? (·.text == s)

end UnaryOp

inductive Expr where
  | number (place : Place) (n : Float)
  | text (place : Place) (s : String)
  | bool (place : Place) (b : Bool)
  | name (place : Place) (x : String)
  /-- The receiver inside a method. -/
  | self (place : Place)
  | array (place : Place) (items : List Expr)
  | dict (place : Place) (entries : List (String × Expr))
  /-- Rows of one length, read row by row. -/
  | matrix (place : Place) (rows cols : Nat) (cells : List Expr)
  | binary (place : Place) (left : Expr) (op : BinaryOp) (right : Expr)
  | unary (place : Place) (op : UnaryOp) (operand : Expr)
  | call (place : Place) (callee : String) (args : List Expr)
  | index (place : Place) (target key : Expr)
  | field (place : Place) (target : Expr) (label : String)
  | methodCall (place : Place) (receiver : Expr) (method : String) (args : List Expr)
  | create (place : Place) (className : String) (args : List Expr)
  /-- A call of the method that the parent class has. -/
  | superCall (place : Place) (method : String) (args : List Expr)

namespace Expr

def place : Expr → Place
  | number p _ | text p _ | bool p _ | name p _ | self p | array p _ | dict p _ | matrix p _ _ _
  | binary p _ _ _ | unary p _ _ | call p _ _ | index p _ _ | field p _ _ | methodCall p _ _ _
  | create p _ _ | superCall p _ _ => p

/-- The same expression at another place. -/
def movedTo (p : Place) : Expr → Expr
  | number _ n => number p n
  | text _ s => text p s
  | bool _ b => bool p b
  | name _ x => name p x
  | self _ => self p
  | array _ items => array p items
  | dict _ entries => dict p entries
  | matrix _ rows cols cells => matrix p rows cols cells
  | binary _ left op right => binary p left op right
  | unary _ op operand => unary p op operand
  | call _ callee args => call p callee args
  | index _ target key => index p target key
  | field _ target label => field p target label
  | methodCall _ receiver method args => methodCall p receiver method args
  | create _ className args => create p className args
  | superCall _ method args => superCall p method args

end Expr

mutual

inductive Stmt where
  | expr (place : Place) (e : Expr)
  /-- A binding, which has no value of its own. -/
  | bind (place : Place) (name : String) (value : Expr)
  | assign (place : Place) (name : String) (value : Expr)
  | assignField (place : Place) (target : Expr) (field : String) (value : Expr)
  | define (place : Place) (function : FunctionDecl)
  | defineClass (place : Place) (decl : ClassDecl)
  | choose (place : Place) (condition : Expr) (yes : List Stmt) (no : Option (List Stmt))
  | forEach (place : Place) (item : String) (source : Expr) (body : List Stmt) (parallel : Bool)
  | loop (place : Place) (condition : Expr) (body : List Stmt)
  | giveBack (place : Place) (value : Option Expr)
  | attempt (place : Place) (body : List Stmt) (handler : Option Handler)
      (finish : Option (List Stmt))
  | raise (place : Place) (value : Expr)
  | check (place : Place) (condition : Expr) (message : Option Expr)
  | importModule (place : Place) (module : String) (rename : Option String)
  | importNames (place : Place) (module : String) (names : List String)
  | share (place : Place) (inner : Stmt)

structure FunctionDecl where
  name : String
  params : List String
  body : List Stmt
  line : Nat

/-- A class as written; the parent's members are added when it is evaluated. -/
structure ClassDecl where
  name : String
  parent : Option String
  fields : List String
  methods : List FunctionDecl

/-- Takes exceptions of one kind, or of any, under a name if it has one. -/
structure Handler where
  kind : Option String
  binder : Option String
  body : List Stmt

end

def Stmt.place : Stmt → Place
  | .expr p _ | .bind p _ _ | .assign p _ _ | .assignField p _ _ _ | .define p _
  | .defineClass p _ | .choose p _ _ _ | .forEach p _ _ _ _ | .loop p _ _ | .giveBack p _
  | .attempt p _ _ _ | .raise p _ | .check p _ _ | .importModule p _ _ | .importNames p _ _
  | .share p _ => p

structure Program where
  stmts : List Stmt

end ScriptLang
