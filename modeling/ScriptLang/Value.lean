import ScriptLang.Bindings
import ScriptLang.Matrix
import ScriptLang.Program

/-!
# Values

Numbers, texts, arrays, dicts and matrices are compared by what they hold.
Functions, classes, instances, exceptions and modules have an identity of their
own and are compared by it. What changes about them, the fields of an instance
and the trace of an exception, is kept in the store under that identity.
-/

namespace ScriptLang

/-- The place of a scope in the store. -/
structure ScopeId where
  index : Nat
deriving DecidableEq, Repr

/-- A function with the scope it was defined in. -/
structure Closure where
  id : Nat
  decl : FunctionDecl
  scope : ScopeId

/-- A class with the members of its parents added to its own. -/
structure Class where
  id : Nat
  name : String
  parent : Option String
  fields : List String
  methods : List FunctionDecl

def Class.method? (c : Class) (name : String) : Option FunctionDecl :=
  c.methods.find? (·.name == name)

/-! A class holds the members of its parents: their fields come first, and a method
takes the place of the one of its name that is there already. -/

namespace Class

/-- Puts a method in the place of the one of its name, or at the end. -/
def override (methods : List FunctionDecl) (m : FunctionDecl) : List FunctionDecl :=
  match methods with
  | [] => [m]
  | first :: rest =>
    if first.name = m.name then m :: rest else first :: override rest m

def inheritFields (parent : Option Class) (own : List String) : List String :=
  (parent.map Class.fields).getD [] ++ own

def inheritMethods (parent : Option Class) (own : List FunctionDecl) : List FunctionDecl :=
  own.foldl override ((parent.map Class.methods).getD [])

/-- The class of a declaration whose parent, if it was found, is given. -/
def ofDecl (id : Nat) (parent : Option Class) (d : ClassDecl) : Class :=
  { id, name := d.name, parent := d.parent,
    fields := inheritFields parent d.fields,
    methods := inheritMethods parent d.methods }

end Class

/-- An instance; its fields are in the store. -/
structure Instance where
  id : Nat
  className : String
  parent : Option String

/-- An exception; its trace is in the store. -/
structure Exception where
  id : Nat
  kind : String
  message : String

/-- A loaded module; its identity is the scope that holds its top level. -/
structure Module where
  name : String
  exports : ScopeId

inductive Value where
  | null
  | number (n : Float)
  | text (s : String)
  | bool (b : Bool)
  | array (items : Array Value)
  | dict (entries : List (String × Value))
  | matrix (m : Matrix)
  | function (f : Closure)
  | classObj (c : Class)
  | object (o : Instance)
  | exception (x : Exception)
  | module (m : Module)

instance : Inhabited Value := ⟨.null⟩

/-- One active call: the function, and the file and line of the call. -/
structure Frame where
  function : String
  file : String
  line : Nat
deriving DecidableEq, Repr

def Frame.render (f : Frame) : String :=
  "  File \"" ++ f.file ++ "\", line " ++ toString f.line ++ ", in " ++ f.function ++ "\n"

/-- The text of an exception, after its trace if that is not empty. -/
def Exception.render (x : Exception) (trace : List Frame) : String :=
  let frames :=
    if trace.isEmpty then ""
    else "\nTraceback (most recent call last):\n" ++ String.join (trace.map Frame.render)
  frames ++ x.kind ++ ": " ++ x.message

namespace Value

/-- The result of a comparison. -/
def ofBool (b : Bool) : Value := .number (if b then 1.0 else 0.0)

def ofNat (n : Nat) : Value := .number (Float.ofNat n)

def isTruthy : Value → Bool
  | number n => n != 0.0
  | bool b => b
  | _ => false

def isNull : Value → Bool
  | null => true
  | _ => false

def number? : Value → Option Float
  | number n => some n
  | _ => none

def text? : Value → Option String
  | text s => some s
  | _ => none

def typeName : Value → String
  | null => "null"
  | number _ => "number"
  | text _ => "string"
  | bool _ => "bool"
  | array _ => "array"
  | dict _ => "dict"
  | matrix _ => "matrix"
  | function _ => "function"
  | classObj _ => "class"
  | object _ => "instance"
  | exception _ => "exception"
  | module _ => "module"

mutual

/-- The text of a value, given the traces of exceptions. -/
def render (trace : Exception → List Frame) : Value → String
  | null => "null"
  | number n => Number.render n
  | text s => s
  | bool b => if b then "true" else "false"
  | array ⟨items⟩ => "[" ++ String.intercalate ", " (renderAll trace items) ++ "]"
  | dict entries =>
    "\x7b" ++ String.intercalate ", " (renderEntries trace entries) ++ "\x7d"
  | matrix m => m.render
  | function _ => "<function>"
  | classObj c => "<class " ++ c.name ++ ">"
  | object o => "<" ++ o.className ++ " instance>"
  | exception x => x.render (trace x)
  | module m => "<module '" ++ m.name ++ "'>"

def renderAll (trace : Exception → List Frame) : List Value → List String
  | [] => []
  | v :: vs => render trace v :: renderAll trace vs

def renderEntries (trace : Exception → List Frame) : List (String × Value) → List String
  | [] => []
  | (k, v) :: entries => (k ++ ": " ++ render trace v) :: renderEntries trace entries

end

mutual

/-- Equality: by content for plain values, by identity for the others. -/
def same : Value → Value → Bool
  | null, null => true
  | number a, number b => a == b
  | text a, text b => a == b
  | bool a, bool b => a == b
  | array ⟨as⟩, array ⟨bs⟩ => sameAll as bs
  | dict as, dict bs => sameEntries as bs
  | matrix a, matrix b => a.same b
  | function a, function b => a.id == b.id
  | classObj a, classObj b => a.id == b.id
  | object a, object b => a.id == b.id
  | exception a, exception b => a.id == b.id
  | module a, module b => a.exports == b.exports
  | _, _ => false

def sameAll : List Value → List Value → Bool
  | [], [] => true
  | a :: as, b :: bs => same a b && sameAll as bs
  | _, _ => false

def sameEntries : List (String × Value) → List (String × Value) → Bool
  | [], [] => true
  | (k, a) :: as, (l, b) :: bs => k == l && same a b && sameEntries as bs
  | _, _ => false

end

end Value

end ScriptLang
