/-!
# Output

What a program has printed. An output may be bounded: once it holds that many
line breaks it takes nothing more.
-/

namespace ScriptLang

structure Output where
  text : String := ""
  /-- The number of line breaks at which the output is full. -/
  limit : Option Nat := none

namespace Output

def lineBreaks (o : Output) : Nat :=
  o.text.toList.count '\n'

def isFull (o : Output) : Bool :=
  match o.limit with
  | none => false
  | some n => n ≤ o.lineBreaks

/-- Why a full output takes nothing. -/
def refusal : String := "sink full"

/-- Adds a text; `none` if the output is full. Nothing can always be added. -/
def write? (o : Output) (s : String) : Option Output :=
  if s.isEmpty then some o
  else if o.isFull then none
  else some { o with text := o.text ++ s }

/-- Adds a text and then a line break, and says whether both were taken. -/
def writeLine (o : Output) (s : String) : Bool × Output :=
  match o.write? s with
  | none => (false, o)
  | some o =>
    match o.write? "\n" with
    | none => (false, o)
    | some o => (true, o)

end Output

end ScriptLang
