/-!
# Structured documents

Trees of objects and lists, written with two blanks of indentation per level.
Object keys keep their order. Numbers are given as the text to write.
-/

namespace ScriptLang

inductive Document where
  | null
  | bool (b : Bool)
  | number (text : String)
  | text (s : String)
  | list (items : List Document)
  | object (fields : List (String × Document))

namespace Document

/-- The form of one character in a text. Control characters are escaped, all others
stand as they are. -/
def escapedChar (c : Char) : List Char :=
  if c = '"' then ['\\', '"']
  else if c = '\\' then ['\\', '\\']
  else if c = '\n' then ['\\', 'n']
  else if c = '\r' then ['\\', 'r']
  else if c = '\t' then ['\\', 't']
  else if c.toNat = 8 then ['\\', 'b']
  else if c.toNat = 12 then ['\\', 'f']
  else if c.toNat < 32 then
    let hex := Nat.toDigits 16 c.toNat
    ['\\', 'u'] ++ List.replicate (4 - hex.length) '0' ++ hex
  else [c]

def writeText (s : String) : String :=
  String.ofList ('"' :: s.toList.flatMap escapedChar ++ ['"'])

def indentation (depth : Nat) : String :=
  String.ofList (List.replicate (2 * depth) ' ')

/-- Items on lines of their own between brackets; no items make a pair of brackets. -/
def enclose (opening closing : String) (depth : Nat) (items : List String) : String :=
  if items.isEmpty then opening ++ closing
  else
    let inner := "\n" ++ indentation (depth + 1)
    opening ++ inner ++ String.intercalate ("," ++ inner) items ++ "\n" ++ indentation depth
      ++ closing

mutual

/-- The text of a document whose lines are indented by `depth` levels. -/
def writeAt (depth : Nat) : Document → String
  | null => "null"
  | bool b => if b then "true" else "false"
  | number t => t
  | text s => writeText s
  | list items => enclose "[" "]" depth (writeItems (depth + 1) items)
  | object fields => enclose "\x7b" "\x7d" depth (writeFields (depth + 1) fields)

def writeItems (depth : Nat) : List Document → List String
  | [] => []
  | d :: ds => writeAt depth d :: writeItems depth ds

def writeFields (depth : Nat) : List (String × Document) → List String
  | [] => []
  | (key, d) :: fields => (writeText key ++ ": " ++ writeAt depth d) :: writeFields depth fields

end

def write (d : Document) : String := writeAt 0 d

end Document

end ScriptLang
