import ScriptLang.Number.Decimal

/-!
# How numbers are written

Programs print numbers with six significant digits; listings, messages and
dumps write the fewest digits that read back. The formats differ only in where
positional notation ends and in a few signs, which `NumberFormat` records.
-/

namespace ScriptLang

/-- The digits as text, in order. -/
def Decimal.digitText (d : Decimal) : List Char :=
  let shown := Nat.toDigits 10 d.digits
  List.replicate (d.count - shown.length) '0' ++ shown

namespace Number

/-- Drops the zeros at the end. -/
def trimZeros (cs : List Char) : List Char :=
  (cs.reverse.dropWhile (· = '0')).reverse

/-- A whole part and a fraction; the point only stands before a fraction. -/
def withFraction (whole fraction : List Char) : List Char :=
  if fraction.isEmpty then whole else whole ++ '.' :: fraction

/-- The digits of a decimal without an exponent: whole part and fraction. -/
def positional (d : Decimal) : List Char × List Char :=
  let ds := d.digitText
  if d.exponent < 0 then
    (['0'], List.replicate ((-d.exponent).toNat - 1) '0' ++ ds)
  else
    let whole := d.exponent.toNat + 1
    (ds.take whole ++ List.replicate (whole - ds.length) '0', ds.drop whole)

/-- The leading digit and the others, for notation with an exponent. -/
def normalised (d : Decimal) : List Char × List Char :=
  let ds := d.digitText
  (ds.take 1, ds.drop 1)

/-- The digits of an integer after a sign. -/
def signed (negative : Bool) (cs : List Char) : String :=
  String.ofList (if negative then '-' :: cs else cs)

/-- Six significant digits, zeros at the end dropped. The exponent is written when
it is below -4 or at least 6, with its sign and two digits or more. -/
def general (x : Float) : String :=
  match magnitude x with
  | .nan => "nan"
  | .infinite negative => if negative then "-inf" else "inf"
  | .finite d =>
    if d.mantissa = 0 then signed d.negative ['0']
    else
      let (num, den) := d.fraction
      let rounded := roundSignificant 6 num den
      if rounded.exponent < -4 ∨ 6 ≤ rounded.exponent then
        let (lead, rest) := normalised rounded
        let size := Nat.toDigits 10 rounded.exponent.natAbs
        let padded := if size.length < 2 then '0' :: size else size
        let mark := if rounded.exponent < 0 then ['e', '-'] else ['e', '+']
        signed d.negative (withFraction lead (trimZeros rest) ++ mark ++ padded)
      else
        let (whole, fraction) := positional rounded
        signed d.negative (withFraction whole (trimZeros fraction))

def leastShortInt : Int := -2147483648
def greatestShortInt : Int := 2147483647

/-- The text that programs print: whole numbers of 32 bits in full, all others with
six significant digits. -/
def render (x : Float) : String :=
  match magnitude x with
  | .finite d =>
    if d.isWhole && leastShortInt ≤ d.truncate && d.truncate ≤ greatestShortInt then
      toString d.truncate
    else general x
  | _ => general x

/-- How a number is written with the fewest digits that read back. -/
structure NumberFormat where
  /-- Exponents from here on are written positionally. -/
  least : Option Int
  /-- Exponents from here on are written with an exponent. -/
  bound : Option Int
  /-- Whether a whole number ends in `.0`. -/
  point : Bool
  /-- Whether an exponent that is not negative has a plus sign. -/
  plus : Bool
  tie : TieRule

/-- Messages never use an exponent. -/
def inMessage : NumberFormat := ⟨none, none, false, false, .away⟩

/-- Token dumps use an exponent below `1e-4` and from `1e16` on. -/
def inTokenDump : NumberFormat := ⟨some (-4), some 16, true, false, .away⟩

/-- Tree dumps use an exponent below `1e-5` and from `1e+16` on. -/
def inTreeDump : NumberFormat := ⟨some (-5), some 16, true, true, .toEven⟩

/-- The text of a finite number in a format; `none` for the others. -/
def NumberFormat.write? (f : NumberFormat) (x : Float) : Option String :=
  match magnitude x with
  | .nan => none
  | .infinite _ => none
  | .finite d =>
    if d.mantissa = 0 then
      some (signed d.negative (if f.point then ['0', '.', '0'] else ['0']))
    else
      let shortest := d.shortest f.tie
      let e := shortest.exponent
      if f.least.any (e < ·) || f.bound.any (· ≤ e) then
        let (lead, rest) := normalised shortest
        let mark := if f.plus && 0 ≤ e then ['e', '+'] else ['e']
        some (signed d.negative (withFraction lead (trimZeros rest) ++ mark ++ (toString e).toList))
      else
        let (whole, fraction) := positional shortest
        let fraction := trimZeros fraction
        let fraction := if fraction.isEmpty && f.point then ['0'] else fraction
        some (signed d.negative (withFraction whole fraction))

/-- The text of any number in a format. -/
def NumberFormat.write (f : NumberFormat) (x : Float) : String :=
  match f.write? x with
  | some text => text
  | none =>
    match magnitude x with
    | .infinite negative => if negative then "-inf" else "inf"
    | _ => "NaN"

end Number

end ScriptLang
