import ScriptLang.Number.Dyadic

/-!
# Decimal digits of a double

A positive double is an exact fraction. Two ways to give it digits are needed:
rounded to a fixed number of significant digits, and the fewest digits that
still read back as the same double. Both work on natural numbers only.
-/

namespace ScriptLang

/-- The number `digits · 10 ^ (exponent - count + 1)`, where `digits` has `count`
decimal digits. The exponent is that of the leading digit. -/
structure Decimal where
  digits : Nat
  count : Nat
  exponent : Int
deriving DecidableEq, Repr

/-- Where a number goes that lies halfway between two neighbours. -/
inductive TieRule where
  | toEven
  | away
deriving DecidableEq, Repr

namespace Number

/-- How many decimal digits `n` has; zero has none. -/
def digitCount (n : Nat) : Nat :=
  if n = 0 then 0 else (Nat.toDigits 10 n).length

/-- The exponent of the leading decimal digit of `num / den`, both positive. -/
def leadingExponent (num den : Nat) : Int :=
  if den ≤ num then (digitCount (num / den) : Int) - 1
  else -(digitCount ((den + num - 1) / num - 1) : Int)

/-- The quotient rounded to the nearest integer. -/
def roundDiv (tie : TieRule) (num den : Nat) : Nat :=
  let quotient := num / den
  let twice := 2 * (num % den)
  if twice < den then quotient
  else if den < twice then quotient + 1
  else match tie with
    | .toEven => if quotient % 2 = 0 then quotient else quotient + 1
    | .away => quotient + 1

/-- Numerator and denominator of `num / den / 10 ^ e`. -/
def scaled (num den : Nat) (e : Int) : Nat × Nat :=
  if 0 ≤ e then (num, den * Nat.pow 10 e.toNat) else (num * Nat.pow 10 (-e).toNat, den)

/-- `num / den` rounded to `count` significant digits, half to even. When rounding
carries into a new digit the exponent grows by one. -/
def roundSignificant (count : Nat) (num den : Nat) : Decimal :=
  let e := leadingExponent num den
  let (n, d) := scaled num den (e - count + 1)
  let digits := roundDiv .toEven n d
  if digits = Nat.pow 10 count then ⟨Nat.pow 10 (count - 1), count, e + 1⟩
  else ⟨digits, count, e⟩

end Number

namespace Dyadic

/-- Numerator and denominator of the absolute value. -/
def fraction (d : Dyadic) : Nat × Nat :=
  if 0 ≤ d.exponent then (d.mantissa * Nat.pow 2 d.exponent.toNat, 1)
  else (d.mantissa, Nat.pow 2 (-d.exponent).toNat)

/-- The reals that round to `d` lie between these two halves-to-the-neighbours,
given as multiples of `2 ^ (exponent - 2)`. The lower neighbour is nearer when the
mantissa is a power of two. -/
def neighbourhood (d : Dyadic) : Nat × Nat :=
  let below :=
    if d.mantissa = Number.hiddenBit ∧ Number.leastExponent < d.exponent then 1 else 2
  (4 * d.mantissa - below, 4 * d.mantissa + 2)

/-- Whether the decimal `n · 10 ^ e` reads back as `d`. The ends of the
neighbourhood belong to an even mantissa. -/
def readsBack (d : Dyadic) (n : Nat) (e : Int) : Bool :=
  let (low, high) := d.neighbourhood
  let k := d.exponent - 2
  -- compare n · 10 ^ e with low · 2 ^ k and high · 2 ^ k over a common scale
  let value := n * Nat.pow 10 e.toNat * Nat.pow 2 (-k).toNat
  let unit := Nat.pow 10 (-e).toNat * Nat.pow 2 k.toNat
  if d.mantissa % 2 = 0 then low * unit ≤ value && value ≤ high * unit
  else low * unit < value && value < high * unit

/-- The neighbour of `d` on the grid of `count` digits that reads back; of two the
nearer, of two equally near the one `tie` picks. -/
def onGrid (tie : TieRule) (d : Dyadic) (count : Nat) (e : Int) : Option Decimal :=
  let (num, den) := d.fraction
  let step := e - count + 1
  let (n, m) := Number.scaled num den step
  let low := n / m
  let nearest := Number.roundDiv tie n m
  let other := if nearest = low then low + 1 else low
  let found (k : Nat) : Decimal :=
    if k = Nat.pow 10 count then ⟨Nat.pow 10 (count - 1), count, e + 1⟩ else ⟨k, count, e⟩
  if d.readsBack nearest step then some (found nearest)
  else if d.readsBack other step then some (found other)
  else none

/-- The fewest digits that read back as `d`, which is not zero. Seventeen always do. -/
def shortest (tie : TieRule) (d : Dyadic) : Decimal :=
  let (num, den) := d.fraction
  let e := Number.leadingExponent num den
  match (List.range 17).findSome? fun k => d.onGrid tie (k + 1) e with
  | some decimal => decimal
  | none => Number.roundSignificant 17 num den

end Dyadic

end ScriptLang
