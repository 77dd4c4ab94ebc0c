import ScriptLang.Module.Loader

/-!
# The modules a program may ask for

All names that a program imports, wherever the statement stands, and the paths
that these may lead to. A run reads no other files, so they can be fetched before
it starts.
-/

namespace ScriptLang

mutual

def Stmt.imports : Stmt → List String
  | .importModule _ name _ => [name]
  | .importNames _ name _ => [name]
  | .define _ ⟨_, _, body, _⟩ => blockImports body
  | .defineClass _ ⟨_, _, _, methods⟩ => methodImports methods
  | .choose _ _ yes no => blockImports yes ++ optionalImports no
  | .forEach _ _ _ body _ => blockImports body
  | .loop _ _ body => blockImports body
  | .attempt _ body handler finish =>
    blockImports body ++ handlerImports handler ++ optionalImports finish
  | .share _ inner => inner.imports
  | _ => []

def blockImports : List Stmt → List String
  | [] => []
  | s :: rest => s.imports ++ blockImports rest

def optionalImports : Option (List Stmt) → List String
  | none => []
  | some stmts => blockImports stmts

def handlerImports : Option Handler → List String
  | none => []
  | some ⟨_, _, body⟩ => blockImports body

def methodImports : List FunctionDecl → List String
  | [] => []
  | ⟨_, _, body, _⟩ :: rest => blockImports body ++ methodImports rest

end

/-- The names that a program imports. -/
def Program.imports (p : Program) : List String := blockImports p.stmts

namespace Loader

/-- The paths that the imports of some files may lead to. A function can be called
while any of the files is running, so each name is taken from all their
directories. -/
def reachable (l : Loader) (sources : List (String × Program)) : List String :=
  let bases := none :: sources.map fun (path, _) => Path.parent? path
  let names := sources.flatMap fun (_, p) => p.imports
  (names.flatMap fun name => bases.flatMap (l.candidates name)).eraseDups

end Loader

end ScriptLang
