import ScriptLang.Document
import ScriptLang.Number.Text
import ScriptLang.Program

/-!
# Programs as documents

The tree of a program, for tools that read it. Each node is an object with its
content, its span and its line; how numbers are written is left open.
-/

namespace ScriptLang

namespace Document

def nat (n : Nat) : Document := number (toString n)

def option (d : Option Document) : Document := d.getD null

def texts (ss : List String) : Document := list (ss.map text)

def optionalText (s : Option String) : Document := option (s.map text)

/-- A node of a kind with one content. -/
def tagged (tag : String) (content : Document) : Document := object [(tag, content)]

def ofSpan (s : Span) : Document := object [("start", nat s.start), ("end", nat s.stop)]

def node (p : Place) (content : Document) : Document :=
  object [("node", content), ("span", ofSpan p.span), ("line", nat p.line)]

end Document

open Document

/-- The kind that tree dumps show. -/
def BinaryOp.kind : BinaryOp → String
  | add => "Add"
  | sub => "Sub"
  | mul => "Mul"
  | div => "Div"
  | mod => "Mod"
  | floorDiv => "FloorDiv"
  | matMul => "MatMul"
  | eq => "Eq"
  | ne => "Ne"
  | lt => "Lt"
  | gt => "Gt"
  | le => "Le"
  | ge => "Ge"

def UnaryOp.kind : UnaryOp → String
  | neg => "Neg"
  | not => "Not"

namespace Expr

mutual

def outline (number : Float → Document) : Expr → Document
  | .number p n => node p (tagged "Number" (number n))
  | .text p s => node p (tagged "Str" (Document.text s))
  | .bool p b => node p (tagged "Bool" (Document.bool b))
  | .name p x => node p (tagged "Ident" (Document.text x))
  | .self p => node p (Document.text "This")
  | .array p items => node p (tagged "Array" (list (outlines number items)))
  | .dict p entries => node p (tagged "Dict" (list (outlineEntries number entries)))
  | .matrix p rows cols cells =>
    node p (tagged "Matrix" (object
      [("rows", nat rows), ("cols", nat cols), ("cells", list (outlines number cells))]))
  | .binary p left op right =>
    node p (tagged "Binary" (object
      [("left", outline number left), ("op", Document.text op.kind), ("right", outline number right)]))
  | .unary p op operand =>
    node p (tagged "Unary" (object [("op", Document.text op.kind), ("expr", outline number operand)]))
  | .call p callee args =>
    node p (tagged "Call" (object
      [("func", Document.text callee), ("args", list (outlines number args))]))
  | .index p target key =>
    node p (tagged "Index" (object
      [("target", outline number target), ("index", outline number key)]))
  | .field p target label =>
    node p (tagged "Field" (object
      [("target", outline number target), ("name", Document.text label)]))
  | .methodCall p receiver method args =>
    node p (tagged "MethodCall" (object
      [("receiver", outline number receiver), ("method", Document.text method),
        ("args", list (outlines number args))]))
  | .create p className args =>
    node p (tagged "New" (object
      [("class", Document.text className), ("args", list (outlines number args))]))
  | .superCall p method args =>
    node p (tagged "SuperCall" (object
      [("method", Document.text method), ("args", list (outlines number args))]))

def outlines (number : Float → Document) : List Expr → List Document
  | [] => []
  | e :: es => outline number e :: outlines number es

def outlineEntries (number : Float → Document) : List (String × Expr) → List Document
  | [] => []
  | (key, e) :: entries =>
    list [Document.text key, outline number e] :: outlineEntries number entries

end

end Expr

mutual

def Stmt.outline (number : Float → Document) : Stmt → Document
  | .expr p e => node p (tagged "Expr" (e.outline number))
  | .bind p name value =>
    node p (tagged "Let" (object [("name", text name), ("value", value.outline number)]))
  | .assign p name value =>
    node p (tagged "Assign" (object [("name", text name), ("value", value.outline number)]))
  | .assignField p target field value =>
    node p (tagged "FieldAssign" (object
      [("target", target.outline number), ("field", text field), ("value", value.outline number)]))
  | .define p f => node p (tagged "FnDef" (FunctionDecl.outline number f))
  | .defineClass p c => node p (tagged "ClassDef" (ClassDecl.outline number c))
  | .choose p condition yes no =>
    node p (tagged "If" (object
      [("cond", condition.outline number), ("then_branch", list (outlineBlock number yes)),
        ("else_branch", outlineOption number no)]))
  | .forEach p item source body parallel =>
    node p (tagged "For" (object
      [("var", text item), ("iterable", source.outline number),
        ("body", list (outlineBlock number body)), ("parallel", bool parallel)]))
  | .loop p condition body =>
    node p (tagged "While" (object
      [("cond", condition.outline number), ("body", list (outlineBlock number body))]))
  | .giveBack p value => node p (tagged "Return" (option (value.map (·.outline number))))
  | .attempt p body handler finish =>
    node p (tagged "Try" (object
      [("body", list (outlineBlock number body)), ("catch", outlineHandler number handler),
        ("finally", outlineOption number finish)]))
  | .raise p value => node p (tagged "Throw" (value.outline number))
  | .check p condition message =>
    node p (tagged "Assert" (object
      [("cond", condition.outline number), ("message", option (message.map (·.outline number)))]))
  | .importModule p module rename =>
    node p (tagged "Import" (object [("module", text module), ("alias", optionalText rename)]))
  | .importNames p module names =>
    node p (tagged "FromImport" (object [("module", text module), ("names", texts names)]))
  | .share p inner => node p (tagged "Export" (inner.outline number))

def outlineBlock (number : Float → Document) : List Stmt → List Document
  | [] => []
  | s :: ss => s.outline number :: outlineBlock number ss

def outlineOption (number : Float → Document) : Option (List Stmt) → Document
  | none => null
  | some ss => list (outlineBlock number ss)

def outlineHandler (number : Float → Document) : Option Handler → Document
  | none => null
  | some h => Handler.outline number h

def Handler.outline (number : Float → Document) : Handler → Document
  | ⟨kind, binder, body⟩ =>
    object [("kind", optionalText kind), ("var", optionalText binder),
      ("body", list (outlineBlock number body))]

def FunctionDecl.outline (number : Float → Document) : FunctionDecl → Document
  | ⟨name, params, body, line⟩ =>
    object [("name", text name), ("params", texts params),
      ("body", list (outlineBlock number body)), ("line", nat line)]

def ClassDecl.outline (number : Float → Document) : ClassDecl → Document
  | ⟨name, parent, fields, methods⟩ =>
    object [("name", text name), ("parent", optionalText parent), ("fields", texts fields),
      ("methods", list (outlineMethods number methods))]

def outlineMethods (number : Float → Document) : List FunctionDecl → List Document
  | [] => []
  | m :: ms => FunctionDecl.outline number m :: outlineMethods number ms

end

namespace Program

def outline (number : Float → Document) (p : Program) : Document :=
  object [("stmts", list (outlineBlock number p.stmts))]

/-- Numbers in tree dumps; one without digits has no text of its own. -/
def dumpNumber (n : Float) : Document :=
  match Number.inTreeDump.write? n with
  | some digits => .number digits
  | none => .null

/-- The text of the tree. -/
def dump (p : Program) : String :=
  (p.outline dumpNumber).write

end Program

end ScriptLang
