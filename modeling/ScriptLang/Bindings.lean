/-!
# Maps in order of first insertion

A list of pairs with a key each. Setting a key that is present replaces its
value where it stands; a new key goes to the end.
-/

namespace ScriptLang

abbrev Bindings (α : Type) := List (String × α)

namespace Bindings

variable {α : Type}

def get? (b : Bindings α) (name : String) : Option α :=
  b.lookup name

def contains (b : Bindings α) (name : String) : Bool :=
  (b.get? name).isSome

def set (b : Bindings α) (name : String) (value : α) : Bindings α :=
  match b with
  | [] => [(name, value)]
  | (k, v) :: rest =>
    if k = name then (k, value) :: rest else (k, v) :: set rest name value

/-- Sets the pairs one after another. -/
def ofPairs (pairs : List (String × α)) : Bindings α :=
  pairs.foldl (fun b (k, v) => b.set k v) []

def names (b : Bindings α) : List String := b.map Prod.fst

def values (b : Bindings α) : List α := b.map Prod.snd

end Bindings

end ScriptLang
