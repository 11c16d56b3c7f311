import TextParsing.Numeral.Literal

/-!
# Double precision

Decimal numbers rounded to the nearest double, a tie to the one whose last bit is
zero, in exact integer arithmetic.

Without its sign, a finite double is an integer below `Binary64.infinity`, the
lower 63 bits of its IEEE 754 form, and these integers are in the order of the
numbers they stand for. That is what makes rounding a single formula
(`Binary64.roundMagnitude`): if `e` is the exponent of the last place, at least
`-1074`, and `k` is the number of units in the last place, rounded to an integer,
then `(e + 1074) * 2 ^ 52 + k` is the result. It is so for subnormal numbers,
for which `e` is `-1074`; it is so for normal ones, where the leading bit of `k`
counts one into the exponent field; and it stays so when rounding carries into
the next power of two.

* `Decimal.round` is the nearest double, or none if the number is too large;
* `toDouble` reads a whole float literal.
-/

namespace TextParsing

/-- The lower 63 bits of an infinite double: all ones in the exponent field, which
    starts at bit 52. Finite doubles have less. -/
def Binary64.infinity : Nat := 0x7ff0000000000000

/-- A finite double: its sign, and the lower 63 bits. -/
structure Binary64 where
  negative : Bool
  magnitude : Nat
  /-- The exponent field is not all ones: neither infinite nor no number. -/
  finite : magnitude < Binary64.infinity
  deriving DecidableEq

namespace Binary64

/-- The 64 bits, as a number. -/
def bits (x : Binary64) : Nat := if x.negative then 0x8000000000000000 + x.magnitude else x.magnitude

/-- The integer nearest to `num / den`; of two, the even one. -/
def roundQuotient (num den : Nat) : Nat :=
  let quotient := num / den
  let twice := 2 * (num % den)
  if twice < den then quotient
  else if den < twice then quotient + 1
  else if quotient % 2 = 0 then quotient else quotient + 1

/-- The greatest power of two that is at most `num / den`, both being positive. -/
def floorLog2 (num den : Nat) : Int :=
  let guess : Int := (num.log2 : Int) - den.log2
  if den * Nat.pow 2 guess.toNat ≤ num * Nat.pow 2 (-guess).toNat then guess else guess - 1

/-- The exponent of the last place of the doubles next to `num / den`: 53 bits of
    precision, as far as the smallest exponent allows. -/
def lastPlace (num den : Nat) : Int := max (floorLog2 num den - 52) (-1074)

/-- The lower 63 bits of the double nearest to `num / den`. A result of `infinity` or
    more says that the number is too large for a double. -/
def roundMagnitude (num den : Nat) : Nat :=
  if num = 0 then 0
  else
    let e := lastPlace num den
    (e + 1074).toNat * Nat.pow 2 52 +
      roundQuotient (num * Nat.pow 2 (-e).toNat) (den * Nat.pow 2 e.toNat)

/-- The double with these parts, if it is finite. -/
def ofMagnitude? (negative : Bool) (magnitude : Nat) : Option Binary64 :=
  if h : magnitude < infinity then some ⟨negative, magnitude, h⟩ else none

end Binary64

/-- The lower 63 bits of the nearest double. Numbers of `10 ^ 309` or more are too
    large, and numbers below `10 ^ (-324)` are nearest to zero, so that the powers
    of ten that are computed stay small whatever the exponent is. -/
def Decimal.roundMagnitude (x : Decimal) : Nat :=
  if x.significand = 0 ∨ x.order < -323 then 0
  else if 309 < x.order then Binary64.infinity
  else
    Binary64.roundMagnitude (x.significand * Nat.pow 10 x.exponent.toNat)
      (Nat.pow 10 (-x.exponent).toNat)

/-- The nearest double, if the number is not too large. The sign is kept, also if
    the number is zero or so small that it becomes zero. -/
def Decimal.round (x : Decimal) : Option Binary64 :=
  Binary64.ofMagnitude? x.negative x.roundMagnitude

/-- The double nearest to the number that the text denotes, if the whole text is a
    float literal and the number is not too large. -/
def toDouble (t : Text) : Checked (Option Binary64) := do
  match ← Literal.find t with
  | none => return none
  | some o => return if o.stop = t.byteLength then (Literal.decimal t.bytes o).round else none

end TextParsing
