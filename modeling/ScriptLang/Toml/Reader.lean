import ScriptLang.Toml.Table

/-!
# Lexical rules of TOML

Readers take characters from the front of a text. One that fails takes none.
-/

namespace ScriptLang

namespace Toml

abbrev Reader := StateT (List Char) Option

namespace Reader

variable {α : Type}

def satisfy (p : Char → Bool) : Reader Char := fun
  | c :: cs => if p c then some (c, cs) else none
  | [] => none

def char (c : Char) : Reader Unit := do
  discard (satisfy (· == c))

/-- All characters up to the first without a property. -/
def span (p : Char → Bool) : Reader (List Char) := fun cs => some (cs.span p)

def span1 (p : Char → Bool) : Reader (List Char) := do
  let c ← satisfy p
  return c :: (← span p)

def word (s : String) : Reader Unit :=
  s.toList.forM char

def atEnd : Reader Unit := do
  if (← get).isEmpty then return else failure

def maybe (r : Reader α) : Reader (Option α) :=
  (some <$> r) <|> return none

/-- As many in a row as there are, up to a bound. -/
def upTo (r : Reader α) : Nat → Reader (List α)
  | 0 => return []
  | n + 1 => do
    match ← maybe r with
    | none => return []
    | some a => return a :: (← upTo r n)

/-- As many in a row as there are. Each takes at least one character. -/
def many (r : Reader α) : Reader (List α) := do
  upTo r (← get).length

/-- One or more with a comma between them. -/
def commaSeparated (r : Reader α) : Reader (List α) := do
  let a ← r
  return a :: (← many do
    char ','
    r)

/-! ## Blanks and comments -/

def isBlank (c : Char) : Bool := c == ' ' || c == '\t'

/-- A character that may stand in a comment: a tab or no control character. -/
def isPlain (c : Char) : Bool :=
  c == '\t' || ('\x20' ≤ c && c ≠ '\x7f')

def blanks : Reader Unit := discard (span isBlank)

def newline : Reader Unit := word "\n" <|> word "\r\n"

def comment : Reader Unit := do
  char '#'
  discard (span isPlain)

/-- The end of a line or of the text. -/
def lineEnd : Reader Unit := newline <|> atEnd

/-- What may stand behind an entry or a header. -/
def trailing : Reader Unit := do
  blanks
  discard (maybe comment)
  lineEnd

/-- What may stand between the items of an array. -/
def gap : Reader Unit :=
  discard (many (discard (satisfy isBlank) <|> newline <|> comment))

/-! ## Texts -/

/-- The number that hexadecimal digits write. -/
def hexValue (digits : List Char) : Nat :=
  digits.foldl
    (fun n c => n * 16 + (if c.isDigit then c.toNat - 48 else c.toLower.toNat - 87)) 0

def isHexDigit (c : Char) : Bool :=
  c.isDigit || ('a' ≤ c && c ≤ 'f') || ('A' ≤ c && c ≤ 'F')

def exactly (r : Reader α) : Nat → Reader (List α)
  | 0 => return []
  | n + 1 => do
    let a ← r
    return a :: (← exactly r n)

/-- A character by its number. -/
def codePoint (digits : Nat) : Reader Char := do
  let n := hexValue (← exactly (satisfy isHexDigit) digits)
  if n.isValidChar then return Char.ofNat n else failure

def escape : Reader Char := do
  char '\\'
  match ← satisfy fun _ => true with
  | 'b' => return '\x08'
  | 't' => return '\t'
  | 'n' => return '\n'
  | 'f' => return '\x0c'
  | 'r' => return '\r'
  | '"' => return '"'
  | '\\' => return '\\'
  | 'u' => codePoint 4
  | 'U' => codePoint 8
  | _ => failure

/-- A backslash at the end of a line, with all blanks and line breaks behind it. -/
def lineContinuation : Reader Unit := do
  char '\\'
  blanks
  newline
  discard (many (discard (satisfy isBlank) <|> newline))

def quoted : Reader String := do
  char '"'
  let cs ← many (satisfy (fun c => isPlain c && c != '"' && c != '\\') <|> escape)
  char '"'
  return String.ofList cs

def literal : Reader String := do
  char '\''
  let cs ← span fun c => isPlain c && c != '\''
  char '\''
  return String.ofList cs

/-- One or two quotes inside a text of several lines. -/
def innerQuotes (quote : Char) : Reader (List Char) := do
  let qs ← span1 (· == quote)
  if qs.length < 3 then return qs else failure

/-- Three quotes that end a text of several lines. Up to two more before them belong
to the text. -/
def closingQuotes (quote : Char) : Reader (List Char) := do
  let qs ← span1 (· == quote)
  if 3 ≤ qs.length ∧ qs.length ≤ 5 then return qs.drop 3 else failure

/-- A text of several lines. A line break right behind the opening is left out. -/
def multiline (quote : Char) (piece : Reader (List Char)) : Reader String := do
  discard (exactly (char quote) 3)
  discard (maybe newline)
  let pieces ← many (piece <|> innerQuotes quote)
  let rest ← closingQuotes quote
  return String.ofList (pieces.flatten ++ rest)

/-- A line break in a text of several lines is one character however it is written. -/
def lineBreak : Reader (List Char) := do
  newline
  return ['\n']

def multilineQuoted : Reader String :=
  multiline '"'
    ((span1 fun c => isPlain c && c != '"' && c != '\\')
      <|> (do
        lineContinuation
        return [])
      <|> (do
        return [← escape])
      <|> lineBreak)

def multilineLiteral : Reader String :=
  multiline '\'' ((span1 fun c => isPlain c && c != '\'') <|> lineBreak)

def text : Reader String :=
  multilineQuoted <|> quoted <|> multilineLiteral <|> literal

/-! ## Keys -/

def isBare (c : Char) : Bool :=
  c.isAlphanum || c == '_' || c == '-'

def simpleKey : Reader String := do
  blanks
  let key ← quoted <|> literal <|> (String.ofList <$> span1 isBare)
  blanks
  return key

/-- How deep keys and values may be nested. -/
def nestingLimit : Nat := 80

/-- A dotted key: the path to its table and its last part. -/
def key : Reader (List String × String) := do
  let first ← simpleKey
  let rest ← many do
    char '.'
    simpleKey
  let parts := first :: rest
  if parts.length < nestingLimit then return (parts.dropLast, parts.getLastD first)
  else failure

/-! ## Numbers -/

/-- Digits with single underscores between them, which are left out. -/
def digits (p : Char → Bool) : Reader (List Char) := do
  let c ← satisfy p
  let rest ← many do
    discard (maybe (char '_'))
    satisfy p
  return c :: rest

def sign : Reader Bool := do
  return (← maybe (satisfy fun c => c == '+' || c == '-')) == some '-'

/-- A decimal number without needless zeros in front: whether it is negative, and its
digits. -/
def decimal : Reader (Bool × List Char) := do
  let negative ← sign
  match ← digits Char.isDigit with
  | '0' :: _ :: _ => failure
  | ds => return (negative, ds)

def valueOf (base : Nat) (digits : List Char) : Nat :=
  digits.foldl (fun n c => n * base + hexValue [c]) 0

def isOctalDigit (c : Char) : Bool := '0' ≤ c && c ≤ '7'

def isBinaryDigit (c : Char) : Bool := c == '0' || c == '1'

/-- An integer of 64 bits. -/
def integer : Reader Int := do
  let based (mark : String) (base : Nat) (p : Char → Bool) : Reader Int := do
    word mark
    return valueOf base (← digits p)
  let plain : Reader Int := do
    let (negative, ds) ← decimal
    let n : Int := valueOf 10 ds
    return if negative then -n else n
  let n ← based "0x" 16 isHexDigit <|> based "0o" 8 isOctalDigit
    <|> based "0b" 2 isBinaryDigit <|> plain
  if -9223372036854775808 ≤ n ∧ n ≤ 9223372036854775807 then return n else failure

/-- Whether `m * 10 ^ e` is too large for a double. -/
def overflows (m : Nat) (e : Int) : Bool :=
  let size := (Nat.toDigits 10 m).length + e
  let bound := Nat.pow 2 1024 - Nat.pow 2 970
  if m = 0 ∨ size < 300 then false
  else if 310 < size then true
  else if 0 ≤ e then bound ≤ m * Nat.pow 10 e.toNat
  else bound * Nat.pow 10 (-e).toNat ≤ m

/-- A float. A positive one must not be too large for a double. -/
def float : Reader Unit := do
  let (negative, whole) ← decimal
  let fraction ← maybe do
    char '.'
    digits Char.isDigit
  let exponent ← maybe do
    discard (satisfy fun c => c == 'e' || c == 'E')
    let down ← sign
    let n : Int := valueOf 10 (← digits Char.isDigit)
    return if down then -n else n
  if fraction.isNone && exponent.isNone then failure
  let places := fraction.getD []
  let tooLarge :=
    overflows (valueOf 10 (whole ++ places)) (exponent.getD 0 - (places.length : Nat))
  if tooLarge && !negative then failure

def specialFloat : Reader Unit := do
  discard sign
  word "inf" <|> word "nan"

/-! ## Times -/

/-- A number of so many digits between two bounds. -/
def field (width lo hi : Nat) : Reader Nat := do
  let n := valueOf 10 (← exactly (satisfy Char.isDigit) width)
  if lo ≤ n ∧ n ≤ hi then return n else failure

def daysIn (year month : Nat) : Nat :=
  if month = 2 then
    if year % 4 = 0 ∧ (year % 100 ≠ 0 ∨ year % 400 = 0) then 29 else 28
  else if month ∈ [4, 6, 9, 11] then 30
  else 31

def date : Reader Unit := do
  let year ← field 4 0 9999
  char '-'
  let month ← field 2 1 12
  char '-'
  discard (field 2 1 (daysIn year month))

/-- A time of day; the last minute may have a leap second. -/
def time : Reader Unit := do
  discard (field 2 0 23)
  char ':'
  discard (field 2 0 59)
  char ':'
  discard (field 2 0 60)
  discard (maybe do
    char '.'
    span1 Char.isDigit)

def offset : Reader Unit :=
  char 'Z' <|> char 'z' <|> do
    discard (satisfy fun c => c == '+' || c == '-')
    discard (field 2 0 23)
    char ':'
    discard (field 2 0 59)

/-- A date, a time, or both with or without an offset. -/
def moment : Reader Unit :=
  (do
    date
    discard (maybe do
      discard (satisfy fun c => c == 'T' || c == 't' || c == ' ')
      time
      discard (maybe offset)))
  <|> time

end Reader

end Toml

end ScriptLang
