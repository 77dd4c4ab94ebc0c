/-!
# Doubles as exact binary fractions

A finite double is `± mantissa · 2 ^ exponent` with natural mantissa. Rounding
to integers and the remainder are computed on that form, so they are exact and
say what they do in integer arithmetic.
-/

namespace ScriptLang

/-- The number `± mantissa · 2 ^ exponent`. -/
structure Dyadic where
  negative : Bool
  mantissa : Nat
  exponent : Int
deriving DecidableEq, Repr

/-- What the bits of a double stand for. -/
inductive Magnitude where
  | finite (d : Dyadic)
  | infinite (negative : Bool)
  | nan
deriving DecidableEq, Repr

namespace Number

def mantissaBits : Nat := 52
def leastExponent : Int := -1074

/-- The leading bit of a mantissa, which the bits of a double leave out. -/
def hiddenBit : Nat := Nat.pow 2 mantissaBits

def exponentMask : Nat := 2047

/-- The exact meaning of a double. -/
def magnitude (x : Float) : Magnitude :=
  let bits := x.toBits.toNat
  let negative := bits / Nat.pow 2 63 == 1
  let biased := bits / hiddenBit % Nat.pow 2 11
  let fraction := bits % hiddenBit
  if biased = exponentMask then
    if fraction = 0 then .infinite negative else .nan
  else if biased = 0 then .finite ⟨negative, fraction, leastExponent⟩
  else .finite ⟨negative, hiddenBit + fraction, leastExponent + biased - 1⟩

end Number

namespace Dyadic

/-- The integer part of the absolute value. -/
def wholePart (d : Dyadic) : Nat :=
  if 0 ≤ d.exponent then d.mantissa * Nat.pow 2 d.exponent.toNat
  else d.mantissa / Nat.pow 2 (-d.exponent).toNat

def isWhole (d : Dyadic) : Bool :=
  0 ≤ d.exponent || d.mantissa % Nat.pow 2 (-d.exponent).toNat == 0

/-- The integer next to `d` toward zero. -/
def truncate (d : Dyadic) : Int :=
  if d.negative then -(d.wholePart : Int) else d.wholePart

/-- The double with this value, for a mantissa below `2 ^ 53` and an exponent no
less than the least one. -/
def toFloat (d : Dyadic) : Float :=
  let sign := if d.negative then Nat.pow 2 63 else 0
  if d.mantissa = 0 then Float.ofBits (UInt64.ofNat sign)
  else
    let room := Number.mantissaBits - d.mantissa.log2
    let spare := (d.exponent - Number.leastExponent).toNat
    let shift := min room spare
    let mantissa := d.mantissa * Nat.pow 2 shift
    let biased := if room ≤ spare then spare - room + 1 else 0
    let fraction := mantissa % Number.hiddenBit
    Float.ofBits (UInt64.ofNat (sign + biased * Number.hiddenBit + fraction))

end Dyadic

namespace Number

/-- Drops the fraction; the sign of a zero result is that of `x`. -/
def truncated (x : Float) : Float :=
  match magnitude x with
  | .finite d => if d.isWhole then x else Dyadic.toFloat ⟨d.negative, d.wholePart, 0⟩
  | _ => x

/-- The greatest whole double that is not above `x`. -/
def floored (x : Float) : Float :=
  match magnitude x with
  | .finite d =>
    if d.isWhole then x
    else if d.negative then Dyadic.toFloat ⟨true, d.wholePart + 1, 0⟩
    else Dyadic.toFloat ⟨false, d.wholePart, 0⟩
  | _ => x

/-- The remainder of a division that rounds toward zero: it has the sign of `x`
and is smaller than `y` in absolute value. -/
def remainder (x y : Float) : Float :=
  match magnitude x, magnitude y with
  | .finite a, .finite b =>
    if b.mantissa = 0 then 0.0 / 0.0
    else
      let e := min a.exponent b.exponent
      let m := a.mantissa * Nat.pow 2 (a.exponent - e).toNat
      let n := b.mantissa * Nat.pow 2 (b.exponent - e).toNat
      Dyadic.toFloat ⟨a.negative, m % n, e⟩
  | .finite _, .infinite _ => x
  | _, _ => 0.0 / 0.0

/-- The integer part, moved into `[lo, hi]` if it lies outside; zero for a NaN. -/
def clampedInt (lo hi : Int) (x : Float) : Int :=
  match magnitude x with
  | .finite d => max lo (min hi d.truncate)
  | .infinite negative => if negative then lo else hi
  | .nan => 0

/-- The integer part as an index, within 64 bits with a sign. -/
def toIndex (x : Float) : Int :=
  clampedInt (-9223372036854775808) 9223372036854775807 x

/-- The integer part as a count, within 64 bits without a sign. -/
def toCount (x : Float) : Nat :=
  (clampedInt 0 18446744073709551615 x).toNat

/-- The product of two counts, if 64 bits hold it. -/
def times? (a b : Nat) : Option Nat :=
  if a * b < UInt64.size then some (a * b) else none

/-- The sum from left to right. It starts at negative zero, which no addend turns
into another value. -/
def sum (xs : List Float) : Float :=
  xs.foldl (· + ·) (-0.0)

end Number

end ScriptLang
