/-!
# Paths

A path is a text whose parts are divided by slashes. Nothing is normalised: two
spellings of one place stay two paths.
-/

namespace ScriptLang

namespace Path

/-- The parts between slashes. A first part that is empty stands for the root. -/
def parts (path : String) : List String :=
  (path.toList.splitOn '/').map String.ofList

def isAbsolute (path : String) : Bool :=
  path.startsWith "/"

/-- A path taken from a directory. An absolute path stays as it is. -/
def join (dir path : String) : String :=
  if dir.isEmpty || isAbsolute path then path
  else if dir.endsWith "/" then dir ++ path
  else dir ++ "/" ++ path

/-- A part that leads nowhere. -/
def isIdle (part : String) : Bool :=
  part.isEmpty || part == "."

/-- The parts without those at the end that lead nowhere. -/
def dropIdle (parts : List String) : List String :=
  (parts.reverse.dropWhile isIdle).reverse

/-- The last part that leads somewhere, unless it leads upwards. -/
def fileName? (path : String) : Option String :=
  match (dropIdle (parts path)).getLast? with
  | some ".." => none
  | last => last

/-- The path without its last part; `none` for the root and the empty path. -/
def parent? (path : String) : Option String :=
  match parts path with
  | [] => none
  | first :: rest =>
    match dropIdle rest with
    | [] => if first.isEmpty then none else some ""
    | part :: rest =>
      match dropIdle (part :: rest).dropLast with
      | [] => some (if first.isEmpty then "/" else first)
      | parts => some (String.intercalate "/" (first :: parts))

end Path

end ScriptLang
