import ScriptLang.Toml.Reader

/-!
# TOML documents

Values may be nested to a fixed depth. A document is read line by line; entries
go to the table whose header came last.
-/

namespace ScriptLang

namespace Toml

namespace Reader

def scalar : Reader Value :=
  Value.text <$> text
    <|> (moment *> pure .other)
    <|> (float *> pure .other)
    <|> (specialFloat *> pure .other)
    <|> Value.integer <$> integer
    <|> (word "true" *> pure .other)
    <|> (word "false" *> pure .other)

/-- Items between brackets, over as many lines as it takes. -/
def array (item : Reader Value) : Reader Value := do
  char '['
  discard (maybe do
    discard (commaSeparated do
      gap
      let v ← item
      gap
      return v)
    maybe (char ','))
  gap
  char ']'
  return .other

def entry (item : Reader Value) : Reader ((List String × String) × Value) := do
  let k ← key
  char '='
  blanks
  return (k, ← item)

/-- Entries between braces on one line, with no key twice. -/
def inlineTable (item : Reader Value) : Reader Value := do
  char '\x7b'
  let entries ← maybe (commaSeparated do
    let e ← entry item
    blanks
    return e)
  blanks
  char '\x7d'
  let add (t : Entries) : (List String × String) × Value → Option Entries
    | ((path, k), v) => t.insert? path k v
  match (entries.getD []).foldlM add [] with
  | some _ => return .other
  | none => failure

/-- A value with at most so many arrays and inline tables around its parts. -/
def value : Nat → Reader Value
  | 0 => scalar
  | room + 1 => scalar <|> array (value room) <|> inlineTable (value room)

/-- What a line says. -/
inductive Line where
  | nothing
  | openTable (path : List String) (key : String)
  | appendTable (path : List String) (key : String)
  | entry (path : List String) (key : String) (v : Value)

def line : Reader Line :=
  (do
    comment
    lineEnd
    return .nothing)
  <|> (do
    newline
    return .nothing)
  <|> (do
    word "[["
    let (path, k) ← key
    word "]]"
    trailing
    return .appendTable path k)
  <|> (do
    char '['
    let (path, k) ← key
    char ']'
    trailing
    return .openTable path k)
  <|> (do
    let ((path, k), v) ← entry (value (nestingLimit - 1))
    trailing
    return .entry path k v)

def document : Reader (List Line) := do
  discard (maybe (char '\ufeff'))
  blanks
  let lines ← many do
    let l ← line
    blanks
    return l
  atEnd
  return lines

end Reader

/-- The table that entries go to, and all that was read. -/
structure Builder where
  path : List String := []
  root : Entries := []

def Builder.add (b : Builder) : Reader.Line → Option Builder
  | .nothing => some b
  | .openTable path key => do
    return { path := path ++ [key], root := ← b.root.openTable? path key }
  | .appendTable path key => do
    return { path := path ++ [key], root := ← b.root.appendTable? path key }
  | .entry path key v => do
    let root ← Entries.within false (fun _ t => t.insert? path key v) b.path .header b.root
    return { b with root }

/-- The entries of a document; `none` if it is malformed. -/
def ofText? (s : String) : Option Entries := do
  let (lines, _) ← Reader.document.run s.toList
  let b ← lines.foldlM Builder.add {}
  return b.root

end Toml

end ScriptLang
