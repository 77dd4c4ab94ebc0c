import ScriptLang.Value

/-!
# The store

The store holds what a program can change: the bindings of scopes, the fields of
instances and the traces of exceptions. It only grows, and identities are
places in it, so none is ever given out twice.

A scope sees the names of the scopes around it but sets names only in itself.
-/

namespace ScriptLang

structure Scope where
  /-- The scope around this one, made before it. -/
  parent : Option ScopeId := none
  bindings : Bindings Value := []

/-- The fields of an instance: names and, in the same order, values. A name that occurs
twice means its first place. -/
structure Fields where
  names : List String := []
  values : List Value := []

namespace Fields

/-- Fields that are null. -/
def ofNames (names : List String) : Fields :=
  { names, values := List.replicate names.length .null }

def get? (f : Fields) (name : String) : Option Value :=
  match f.names.idxOf? name with
  | some i => f.values[i]?
  | none => none

/-- Sets a field; `none` if there is no such field. -/
def set? (f : Fields) (name : String) (v : Value) : Option Fields :=
  match f.names.idxOf? name with
  | some i => some { f with values := f.values.set i v }
  | none => none

end Fields

structure Store where
  scopes : Array Scope := #[]
  /-- The fields of each instance. -/
  objects : Array Fields := #[]
  /-- The trace of each exception, newest call first. -/
  traces : Array (List Frame) := #[]
  /-- How many functions and classes have been made. -/
  made : Nat := 0

namespace Store

/-! ## Scopes -/

def newScope (s : Store) (parent : Option ScopeId) : ScopeId × Store :=
  (⟨s.scopes.size⟩, { s with scopes := s.scopes.push { parent } })

/-- The bindings of one scope. -/
def bindings (s : Store) (i : ScopeId) : Bindings Value :=
  match s.scopes[i.index]? with
  | some scope => scope.bindings
  | none => []

def parent? (s : Store) (i : ScopeId) : Option ScopeId :=
  s.scopes[i.index]?.bind Scope.parent

/-- The value of a name in one scope. -/
def local? (s : Store) (i : ScopeId) (name : String) : Option Value :=
  (s.bindings i).get? name

/-- The value of a name in a scope or the nearest one around it, at most so many
scopes away. -/
def lookupWithin (s : Store) (name : String) : Nat → ScopeId → Option Value
  | 0, _ => none
  | n + 1, i =>
    match s.local? i name with
    | some v => some v
    | none =>
      match s.parent? i with
      | some p => lookupWithin s name n p
      | none => none

/-- The value of a name in a scope or the nearest one around it. There are at most
as many scopes around a scope as were made before it. -/
def lookup? (s : Store) (i : ScopeId) (name : String) : Option Value :=
  s.lookupWithin name (i.index + 1) i

/-- Whether a scope has the name or one around it, at most so many scopes away. -/
def containsWithin (s : Store) (name : String) : Nat → ScopeId → Bool
  | 0, _ => false
  | n + 1, i =>
    (s.local? i name).isSome ||
      match s.parent? i with
      | some p => containsWithin s name n p
      | none => false

/-- Whether a scope or one around it has the name. -/
def contains (s : Store) (i : ScopeId) (name : String) : Bool :=
  s.containsWithin name (i.index + 1) i

/-- Binds a name in one scope; the scopes around it stay as they are. -/
def set (s : Store) (i : ScopeId) (name : String) (v : Value) : Store :=
  { s with
    scopes := s.scopes.modify i.index fun scope =>
      { scope with bindings := scope.bindings.set name v } }

/-! ## Instances -/

/-- A new instance whose fields are null. -/
def newObject (s : Store) (className : String) (parent : Option String) (fields : List String) :
    Instance × Store :=
  ({ id := s.objects.size, className, parent },
    { s with objects := s.objects.push (.ofNames fields) })

def fields (s : Store) (o : Instance) : Fields :=
  s.objects.getD o.id {}

def field? (s : Store) (o : Instance) (name : String) : Option Value :=
  (s.fields o).get? name

/-- Sets a field; `none` if the instance has no such field. -/
def setField? (s : Store) (o : Instance) (name : String) (v : Value) : Option Store :=
  match (s.fields o).set? name v with
  | some fields => some { s with objects := s.objects.setIfInBounds o.id fields }
  | none => none

/-! ## Exceptions -/

/-- A new exception without a trace. -/
def newException (s : Store) (kind message : String) : Exception × Store :=
  ({ id := s.traces.size, kind, message }, { s with traces := s.traces.push [] })

def trace (s : Store) (x : Exception) : List Frame :=
  s.traces.getD x.id []

def setTrace (s : Store) (x : Exception) (frames : List Frame) : Store :=
  { s with traces := s.traces.setIfInBounds x.id frames }

/-- The text of a value. -/
def render (s : Store) (v : Value) : String :=
  v.render s.trace

/-! ## Functions and classes -/

/-- An identity for a new function or class. -/
def fresh (s : Store) : Nat × Store :=
  (s.made, { s with made := s.made + 1 })

end Store

end ScriptLang
