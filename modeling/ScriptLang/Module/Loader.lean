import ScriptLang.File.Tree
import ScriptLang.Program.Parser
import ScriptLang.Value

/-!
# Finding and loading modules

A module is known by the name it was imported under. The loader finds and reads
its file and keeps the modules that are done. It also remembers those whose top
level is still running: to import one of them again is refused.
-/

namespace ScriptLang

inductive LoadError where
  | notFound (name : String) (tried : List String)
  | unreadable (name : String) (failure : ReadFailure)
  | malformed (name : String) (error : SourceError)
  | circular (name : String)

def LoadError.message : LoadError → String
  | notFound name _ => "cannot import module '" ++ name ++ "'"
  | unreadable name failure => "cannot import module '" ++ name ++ "': " ++ failure.message
  | malformed name error => "in module '" ++ name ++ "': " ++ error.message
  | circular name => "circular import of module '" ++ name ++ "'"

/-- A module that has been read but not yet run. -/
structure ModuleSource where
  name : String
  path : String
  program : Program

structure Loader where
  libraryDir : String
  modules : Bindings Module := []
  /-- Modules whose top level is running, outermost first. -/
  loading : List String := []

namespace Loader

/-- Whether a module's name is a path to its file. -/
def isPath (name : String) : Bool :=
  name.startsWith "." || name.startsWith "/"

/-- The name that an import binds. -/
def bindingName (name : String) : String :=
  if isPath name then (Path.fileName? name).getD name else name

def fileOf (name : String) : String :=
  name ++ ".fine"

/-- The files that a name may mean, in order. A path is taken from the directory
of the importing file; a plain name also from the library and from the working
directory. -/
def candidates (l : Loader) (name : String) (base : Option String) : List String :=
  let file := fileOf name
  if isPath name then
    match base with
    | some dir => [if name.startsWith "." then Path.join dir file else file]
    | none => [file]
  else
    [Path.join l.libraryDir file] ++ (base.map fun dir => Path.join dir file).toList ++ [file]

/-- The path of the file that a name means. -/
def resolve (l : Loader) (files : Files) (name : String) (base : Option String) :
    Except LoadError String :=
  let tried := l.candidates name base
  match tried.find? files.isFile with
  | some path => .ok path
  | none => .error (.notFound name tried)

/-- Reads a module and notes that its top level is about to run. -/
def enter (l : Loader) (files : Files) (name : String) (base : Option String) :
    Except LoadError (ModuleSource × Loader) :=
  if l.loading.contains name then .error (.circular name)
  else
    match l.resolve files name base with
    | .error e => .error e
    | .ok path =>
      match files path with
      | .error e => .error (.unreadable name e)
      | .ok text =>
        match Program.ofText text with
        | .error e => .error (.malformed name e)
        | .ok program => .ok (⟨name, path, program⟩, { l with loading := l.loading ++ [name] })

/-- Notes that a module's top level runs no more. -/
def leave (l : Loader) (name : String) : Loader :=
  { l with loading := l.loading.filter (· != name) }

/-- Keeps a module whose top level has run. -/
def finish (l : Loader) (name : String) (exports : ScopeId) : Module × Loader :=
  let m : Module := { name, exports }
  (m, { l.leave name with modules := l.modules.set name m })

end Loader

end ScriptLang
