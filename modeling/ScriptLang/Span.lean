/-!
# Places in a source text

Offsets count bytes of the UTF-8 form. A line number counts the line breaks
before an offset, so it is defined for every offset, past the end as well.
-/

namespace ScriptLang

/-- The bytes from `start` up to but excluding `stop`. -/
structure Span where
  start : Nat
  stop : Nat
deriving DecidableEq, Repr, Inhabited

namespace Span

/-- The least span that covers both. -/
def merge (a b : Span) : Span :=
  ⟨min a.start b.start, max a.stop b.stop⟩

def render (s : Span) : String :=
  toString s.start ++ ".." ++ toString s.stop

end Span

/-- Where a node of a program stands: its bytes and the line it is reported on. -/
structure Place where
  span : Span
  line : Nat
deriving DecidableEq, Repr, Inhabited

/-- The number of bytes that a run of characters takes. -/
def byteLength (cs : List Char) : Nat :=
  cs.foldr (fun c n => c.utf8Size + n) 0

/-- The offsets at which the lines of a text begin, in ascending order. -/
structure Lines where
  starts : Array Nat
deriving Repr

namespace Lines

/-- The offsets just behind each line break, for a text that begins at `offset`. -/
def breaksFrom (offset : Nat) : List Char → List Nat
  | [] => []
  | c :: cs =>
    let next := offset + c.utf8Size
    if c = '\n' then next :: breaksFrom next cs else breaksFrom next cs

def ofText (source : String) : Lines :=
  ⟨(0 :: breaksFrom 0 source.toList).toArray⟩

/-- The least index in `[lo, hi)` whose line begins behind `offset`, or `hi`. Needs
as many rounds as the interval has bits. -/
def firstBehind (starts : Array Nat) (offset : Nat) : Nat → Nat → Nat → Nat
  | 0, lo, _ => lo
  | rounds + 1, lo, hi =>
    if lo < hi then
      let mid := (lo + hi) / 2
      if starts.getD mid 0 ≤ offset then firstBehind starts offset rounds (mid + 1) hi
      else firstBehind starts offset rounds lo mid
    else lo

/-- The line, counted from one, that holds the byte at `offset`. -/
def line (ls : Lines) (offset : Nat) : Nat :=
  firstBehind ls.starts offset ls.starts.size 0 ls.starts.size

end Lines

end ScriptLang
