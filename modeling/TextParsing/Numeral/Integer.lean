import TextParsing.Numeral.Kind
import TextParsing.Text

/-!
# Integers from decimal text

Reading a number of a bounded kind digit by digit, without ever leaving the
range of the kind. Before a digit is appended, two tests make sure that there is
room: one before the multiplication by ten, one before the addition of the
digit. Non-negative numbers climb towards the maximum; negative ones descend
towards the minimum, so that the minimum itself, which has no positive
counterpart, can be read.

The digits are looked for among the bytes of the text. This is enough: in UTF-8
no byte of a longer unit is in the ASCII range.

* `toUnsigned` accepts one or more digits;
* `toSigned` accepts one optional sign before them.

Neither gives a number that is out of range.
-/

namespace TextParsing

namespace Numeral

/-- The byte is the ASCII form of a decimal digit. -/
def isDigitByte (b : UInt8) : Bool := 48 ≤ b && b ≤ 57

/-- The value of a digit in ASCII. -/
def digit? (b : UInt8) : Option Nat := if isDigitByte b then some (b.toNat - 48) else none

/-- Appends the digits `bs` to the non-negative number `value`. The `bound` is the
    greatest number that can be multiplied by ten. -/
def climb (k : IntKind) (bound value : Int) : List UInt8 → Checked (Option Int)
  | [] => .ok (some value)
  | b :: bs =>
    match digit? b with
    | none => .ok none
    | some d =>
      if bound < value then .ok none
      else do
        let scaled ← k.fit (value * k.ofDigit 10)
        let room ← k.fit (k.max - k.ofDigit d)
        if room < scaled then .ok none
        else do
          let value ← k.fit (scaled + k.ofDigit d)
          climb k bound value bs

/-- Appends the digits `bs` to the number `value`, which is zero or negative. The
    `bound` is the least number that can be multiplied by ten. -/
def descend (k : IntKind) (bound value : Int) : List UInt8 → Checked (Option Int)
  | [] => .ok (some value)
  | b :: bs =>
    match digit? b with
    | none => .ok none
    | some d =>
      if value < bound then .ok none
      else do
        let scaled ← k.fit (value * k.ofDigit 10)
        let room ← k.fit (k.min + k.ofDigit d)
        if scaled < room then .ok none
        else do
          let value ← k.fit (scaled - k.ofDigit d)
          descend k bound value bs

/-- The number that one or more digits denote. -/
def readUp (k : IntKind) (t : Text) : Checked (Option Int) :=
  if t.isEmpty then .ok none
  else do
    let bound ← k.fit (k.max.tdiv (k.ofDigit 10))
    climb k bound (k.ofDigit 0) t.bytes

/-- The negative of the number that one or more digits denote. -/
def readDown (k : IntKind) (t : Text) : Checked (Option Int) :=
  if t.isEmpty then .ok none
  else do
    let bound ← k.fit (k.min.tdiv (k.ofDigit 10))
    descend k bound (k.ofDigit 0) t.bytes

end Numeral

/-- The number that the text denotes, if it is one or more decimal digits and the
    number is in range. -/
def toUnsigned (w : Width) (t : Text) : Checked (Option Int) := Numeral.readUp (.unsigned w) t

/-- The number that the text denotes, if it is one or more decimal digits, after
    at most one sign, and the number is in range. -/
def toSigned (w : Width) (t : Text) : Checked (Option Int) :=
  match t.bytes.head? with
  | some 45 => do Numeral.readDown (.signed w) (← t.sliceFrom 1)
  | some 43 => do Numeral.readUp (.signed w) (← t.sliceFrom 1)
  | _ => Numeral.readUp (.signed w) t

end TextParsing
