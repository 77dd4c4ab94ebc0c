import ScriptLang.File.Path

/-!
# Files

All that the other modules know of files is what reading a path gives. A file
tree is one such source of files: those below a working directory, where a
directory is there as soon as a file lies in it. Nothing is known of what lies
outside but that it is no file of the tree.
-/

namespace ScriptLang

/-- Why a file could not be read as a text. -/
inductive ReadFailure where
  | missing
  | isDirectory
  | notDirectory
  | notText
deriving DecidableEq, Repr

def ReadFailure.message : ReadFailure → String
  | missing => "No such file or directory (os error 2)"
  | isDirectory => "Is a directory (os error 21)"
  | notDirectory => "Not a directory (os error 20)"
  | notText => "stream did not contain valid UTF-8"

/-- What reading each path as a text gives. -/
abbrev Files := String → Except ReadFailure String

/-- Whether a path leads to a file, be it a text or not. -/
def Files.isFile (files : Files) (path : String) : Bool :=
  match files path with
  | .ok _ => true
  | .error e => e == .notText

/-- Files with the parts of their paths from the working directory. -/
structure FileTree where
  files : List (List String × ByteArray) := []

namespace FileTree

/-- Where a path leads. -/
inductive Place where
  | file (content : ByteArray)
  /-- A directory, the parts of its path in reverse order. -/
  | dir (parts : List String)
  /-- The directory above the working directory, or one above that. -/
  | above

def file? (t : FileTree) (parts : List String) : Option ByteArray :=
  t.files.lookup parts

def hasDir (t : FileTree) (parts : List String) : Bool :=
  t.files.any fun (p, _) => parts.isPrefixOf p && parts != p

/-- Follows one part of a path. -/
def follow (t : FileTree) (place : Place) (part : String) : Except ReadFailure Place :=
  match place with
  | .file _ => .error .notDirectory
  | .above => if Path.isIdle part || part == ".." then .ok .above else .error .missing
  | .dir parts =>
    if Path.isIdle part then .ok (.dir parts)
    else if part == ".." then
      match parts with
      | [] => .ok .above
      | _ :: parts => .ok (.dir parts)
    else
      let parts := part :: parts
      match t.file? parts.reverse with
      | some content => .ok (.file content)
      | none => if t.hasDir parts.reverse then .ok (.dir parts) else .error .missing

def find (t : FileTree) (path : String) : Except ReadFailure Place :=
  if path.isEmpty then .error .missing
  else
    (Path.parts path).foldlM t.follow (if Path.isAbsolute path then .above else .dir [])

/-- The text of a file. -/
def read (t : FileTree) : Files := fun path =>
  match t.find path with
  | .ok (.file content) =>
    match String.fromUTF8? content with
    | some s => .ok s
    | none => .error .notText
  | .ok _ => .error .isDirectory
  | .error e => .error e

/-- The parts of a path with those left out that lead nowhere. -/
def plainParts (path : String) : List String :=
  (Path.parts path).foldl
    (fun parts part =>
      if Path.isIdle part then parts
      else if part == ".." then parts.dropLast
      else parts ++ [part]) []

/-- Adds a file or replaces its content. -/
def write (t : FileTree) (path : String) (content : ByteArray) : FileTree :=
  let parts := plainParts path
  ⟨(parts, content) :: t.files.filter fun (p, _) => p != parts⟩

end FileTree

end ScriptLang
