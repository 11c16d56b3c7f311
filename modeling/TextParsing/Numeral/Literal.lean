import TextParsing.Numeral.Decimal
import TextParsing.Numeral.Integer

/-!
# Float literals

A float literal is an optional sign, one or more digits, optionally a point and
one or more digits, and optionally an exponent: `e` or `E`, an optional sign, and
one or more digits. There is no literal without digits before the point, and a
point or an exponent mark without digits after it is no part of the literal: it
is left to whoever reads on.

`Literal.find` looks for the longest literal at the start of a text. It works on
the bytes of the text and keeps every offset on its way (`Literal.Offsets`), in
which an absent part has the offset of the part before it. `Literal.decimal` then
reads the number off: an integer significand and a power of ten.
-/

namespace TextParsing

namespace Literal

open Numeral (isDigitByte)

/-- The byte offsets at which the parts of a literal end. -/
structure Offsets where
  /-- After the sign. -/
  sign : Nat
  /-- After the digits before the point. -/
  integer : Nat
  /-- After the point and its digits. -/
  fraction : Nat
  /-- After the exponent mark. -/
  marker : Nat
  /-- After the sign of the exponent. -/
  exponentSign : Nat
  /-- After the whole literal. -/
  stop : Nat
  deriving DecidableEq

/-- A plus or minus sign in ASCII. -/
def isSignByte (b : UInt8) : Bool := b == 43 || b == 45

/-- An exponent mark in ASCII, in either case. -/
def isMarkerByte (b : UInt8) : Bool := b == 101 || b == 69

/-- The number of digits at the start of the bytes. -/
def countDigits (bs : List UInt8) : Nat := (bs.takeWhile isDigitByte).length

/-- The bytes from the offset `n` on. -/
def tail (bs : List UInt8) (n : Nat) : Checked (List UInt8) :=
  if n ≤ bs.length then .ok (bs.drop n) else .error (.slice n bs.length)

/-- The offset after a byte of the class, if one stands at the offset `n`; else
    `n`. -/
def skipByte (bs : List UInt8) (test : UInt8 → Bool) (n : Nat) : Nat :=
  if bs[n]?.any test then n + 1 else n

/-- The offset after a point and its digits at `n`; else `n`. -/
def fractionEnd (bs : List UInt8) (n : Nat) : Checked Nat :=
  if bs[n]? = some 46 then do
    let digits := countDigits (← tail bs (n + 1))
    return if 0 < digits then n + 1 + digits else n
  else .ok n

/-- Completes the offsets of a literal whose fraction ends at `fraction`: an
    exponent counts only if it has digits. -/
def withExponent (bs : List UInt8) (sign integer fraction : Nat) : Checked Offsets :=
  if bs[fraction]?.any isMarkerByte then do
    let marker := fraction + 1
    let exponentSign := skipByte bs isSignByte marker
    let digits := countDigits (← tail bs exponentSign)
    let stop := if 0 < digits then exponentSign + digits else fraction
    return ⟨sign, integer, fraction, marker, exponentSign, stop⟩
  else .ok ⟨sign, integer, fraction, fraction, fraction, fraction⟩

/-- The longest float literal at the start of the bytes. -/
def findIn (bs : List UInt8) : Checked (Option Offsets) := do
  let sign := skipByte bs isSignByte 0
  let digits := countDigits (← tail bs sign)
  if digits = 0 then return none
  else
    let integer := sign + digits
    let fraction ← fractionEnd bs integer
    return some (← withExponent bs sign integer fraction)

/-- The longest float literal at the start of the text. -/
def find (t : Text) : Checked (Option Offsets) := findIn t.bytes

/-- The byte length of the longest float literal at the start of the text. -/
def length? (t : Text) : Checked (Option Nat) := do
  return (← find t).map Offsets.stop

/-! ### The number -/

/-- The values of the digits among the bytes between two offsets. -/
def digitsBetween (bs : List UInt8) (start stop : Nat) : List Nat :=
  ((bs.take stop).drop start).filterMap Numeral.digit?

/-- The number that a literal denotes. The digits of the fraction are appended to
    the significand, and each of them lowers the power of ten by one. -/
def decimal (bs : List UInt8) (o : Offsets) : Decimal :=
  let fraction := digitsBetween bs (o.integer + 1) o.fraction
  let exponent : Int := Decimal.ofDigits (digitsBetween bs o.exponentSign o.stop)
  { negative := bs[0]? = some 45
    digits := digitsBetween bs o.sign o.integer ++ fraction
    exponent := (if bs[o.marker]? = some 45 then -exponent else exponent) - fraction.length }

end Literal

end TextParsing
