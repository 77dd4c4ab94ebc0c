import ScriptLang.Token

/-!
# Splitting a text into tokens

At each place the longest lexeme is taken; a name that spells a keyword is that
keyword. Blanks and comments stand between lexemes. Every lexeme begins with
the character at hand, so the rest is shorter and the loop ends.
-/

namespace ScriptLang.Token

/-- The characters that separate tokens. -/
def isSpace (c : Char) : Bool :=
  c = ' ' || c = '\t' || c = '\n' || c = '\r'

def isNameStart (c : Char) : Bool := c.isAlpha || c = '_'

def isNamePart (c : Char) : Bool := c.isAlphanum || c = '_'

/-- What follows the first digit in the longest number: digits, and a point only
together with a digit behind it. -/
def numberTail (cs : List Char) : List Char :=
  let whole := cs.takeWhile Char.isDigit
  match cs.dropWhile Char.isDigit with
  | '.' :: rest =>
    let fraction := rest.takeWhile Char.isDigit
    if fraction.isEmpty then whole else whole ++ '.' :: fraction
  | _ => whole

/-- The natural number that a run of digits writes. -/
def digitsValue (cs : List Char) : Nat :=
  cs.foldl (fun n c => 10 * n + (c.toNat - '0'.toNat)) 0

/-- The double nearest to the number that a lexeme writes. -/
def numberValue (cs : List Char) : Float :=
  let whole := cs.takeWhile Char.isDigit
  let fraction := (cs.dropWhile Char.isDigit).drop 1
  Float.ofScientific (digitsValue (whole ++ fraction)) true fraction.length

/-- Reads a text behind its opening quote, up to and with the closing one. A
backslash takes the next character with it, which may not be a line break. Gives
what was read and whether the closing quote was found. -/
def textTail (quote : Char) : List Char → List Char × Bool
  | [] => ([], false)
  | [c] => if c = quote then ([c], true) else if c = '\\' then ([], false) else ([c], false)
  | c :: d :: cs =>
    if c = quote then ([c], true)
    else if c = '\\' then
      if d = '\n' then ([], false)
      else
        let (read, closed) := textTail quote cs
        (c :: d :: read, closed)
    else
      let (read, closed) := textTail quote (d :: cs)
      (c :: read, closed)

/-- Resolves the escapes of a text; an unknown one stays with its backslash. -/
def unescape : List Char → List Char
  | [] => []
  | [c] => [c]
  | c :: d :: cs =>
    if c = '\\' then
      match d with
      | 'n' => '\n' :: unescape cs
      | 't' => '\t' :: unescape cs
      | 'r' => '\r' :: unescape cs
      | '\\' => '\\' :: unescape cs
      | '"' => '"' :: unescape cs
      | '\'' => '\'' :: unescape cs
      | '0' => Char.ofNat 0 :: unescape cs
      | _ => '\\' :: d :: unescape cs
    else c :: unescape (d :: cs)

/-- The symbol of two characters. -/
def pairSymbol? (c d : Char) : Option Symbol :=
  Symbol.all.find? fun s => s.text.toList == [c, d]

/-- The symbol of one character. -/
def charSymbol? (c : Char) : Option Symbol :=
  Symbol.all.find? fun s => s.text.toList == [c]

/-- The longest symbol that begins with `c`, with the characters behind `c`. -/
def symbolAt? (c : Char) (rest : List Char) : Option (Symbol × List Char) :=
  let single := (charSymbol? c).map (·, [])
  match rest with
  | [] => single
  | d :: _ =>
    match pairSymbol? c d with
    | some s => some (s, [d])
    | none => single

/-- A token and the characters it takes behind the first, or the cause of a failure
with the characters that the error covers behind the first. -/
def tokenAt (c : Char) (rest : List Char) : Except (LexCause × List Char) (Token × List Char) :=
  if c.isDigit then
    let tail := numberTail rest
    .ok (.number (numberValue (c :: tail)), tail)
  else if isNameStart c then
    let tail := rest.takeWhile isNamePart
    let word := String.ofList (c :: tail)
    match Keyword.ofText? word with
    | some k => .ok (.keyword k, tail)
    | none => .ok (.name word, tail)
  else if c = '"' || c = '\'' then
    match textTail c rest with
    | (read, true) => .ok (.text (String.ofList (unescape read.dropLast)), read)
    | (read, false) => .error (.unterminatedText, read)
  else
    match symbolAt? c rest with
    | some (s, tail) => .ok (.symbol s, tail)
    | none => .error (.unexpected c, [])

/-- The tokens of a text that begins at `offset`, with their spans. -/
def scanFrom (offset : Nat) (cs : List Char) : Except LexError (List (Token × Span)) :=
  match cs with
  | [] => .ok []
  | c :: rest =>
    if isSpace c then scanFrom (offset + c.utf8Size) rest
    else if c = '#' then
      scanFrom (offset + c.utf8Size + byteLength (rest.takeWhile (· ≠ '\n')))
        (rest.dropWhile (· ≠ '\n'))
    else
      match tokenAt c rest with
      | .error (cause, read) =>
        .error ⟨cause, ⟨offset, offset + c.utf8Size + byteLength read⟩⟩
      | .ok (token, tail) =>
        let stop := offset + c.utf8Size + byteLength tail
        match scanFrom stop (rest.drop tail.length) with
        | .error e => .error e
        | .ok tokens => .ok ((token, ⟨offset, stop⟩) :: tokens)
termination_by cs.length
decreasing_by
  · simp only [List.length_cons]; omega
  · have := (List.dropWhile_suffix (fun x => decide (x ≠ '\n')) (l := rest)).length_le
    simp only [List.length_cons]; omega
  · simp only [List.length_cons, List.length_drop]; omega

/-- The tokens of a text. -/
def scan (source : String) : Except LexError (List (Token × Span)) :=
  scanFrom 0 source.toList

end ScriptLang.Token
