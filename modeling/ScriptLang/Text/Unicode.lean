import ScriptLang.Text.CaseTable

/-!
# White space and case

The white space of Unicode, and texts without it at their ends.

Upper and lower case are full mappings: one character may become several. A capital
sigma at the end of a word becomes the final form, which depends on the letters
around it.
-/

namespace ScriptLang.Text

/-! ## White space -/

/-- The characters with the property White_Space. -/
def isBlank (c : Char) : Bool :=
  let n := c.toNat
  (9 ≤ n && n ≤ 13) || n == 0x20 || n == 0x85 || n == 0xa0 || n == 0x1680
    || (0x2000 ≤ n && n ≤ 0x200a) || n == 0x2028 || n == 0x2029 || n == 0x202f
    || n == 0x205f || n == 0x3000

def trimEndChars (cs : List Char) : List Char :=
  (cs.reverse.dropWhile isBlank).reverse

/-- Drops blank characters at the end. -/
def trimEnd (s : String) : String :=
  String.ofList (trimEndChars s.toList)

/-- Drops blank characters at both ends. -/
def trim (s : String) : String :=
  String.ofList (trimEndChars (s.toList.dropWhile isBlank))

/-! ## Case -/

def inRanges (ranges : List (Nat × Nat)) (c : Char) : Bool :=
  ranges.any fun (lo, hi) => lo ≤ c.toNat && c.toNat ≤ hi

def isCased (c : Char) : Bool := inRanges casedRanges c

def isCaseIgnorable (c : Char) : Bool := inRanges caseIgnorableRanges c

/-- The characters that a character becomes under a table of runs and expansions. -/
def mapCase (runs : List CaseRun) (expansions : List (Nat × List Nat)) (c : Char) : List Char :=
  match runs.find? (·.covers c.toNat) with
  | some run => [Char.ofNat (run.image c.toNat)]
  | none =>
    match expansions.lookup c.toNat with
    | some image => image.map Char.ofNat
    | none => [c]

def upperChar (c : Char) : List Char := mapCase upperRuns upperExpansions c

def lowerChar (c : Char) : List Char := mapCase lowerRuns lowerExpansions c

/-- Whether the first character that case rules do not look through is a letter
with case. -/
def meetsCased (cs : List Char) : Bool :=
  match cs.dropWhile isCaseIgnorable with
  | [] => false
  | c :: _ => isCased c

/-- Lower case of `rest`, with the characters before it given in reverse. -/
def lowerFrom (before : List Char) : List Char → List Char
  | [] => []
  | c :: rest =>
    let image :=
      if c = 'Σ' then
        if meetsCased before && !meetsCased rest then ['ς'] else ['σ']
      else lowerChar c
    image ++ lowerFrom (c :: before) rest

def upper (s : String) : String :=
  String.ofList (s.toList.flatMap upperChar)

def lower (s : String) : String :=
  String.ofList (lowerFrom [] s.toList)

end ScriptLang.Text
