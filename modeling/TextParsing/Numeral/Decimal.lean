/-!
# Decimal numbers

A decimal number in scientific form: an integer significand, given by its digits,
times a power of ten. There is no bound on either. The *order* of a number tells
its magnitude up to a factor of ten without computing any power.
-/

namespace TextParsing

/-- A number in decimal scientific form: the sign, the digits of the significand
    from the most significant one, and the power of ten that it is multiplied
    by. -/
structure Decimal where
  negative : Bool
  digits : List Nat
  exponent : Int

namespace Decimal

/-- The number that a list of digits denotes in base ten. -/
def ofDigits (ds : List Nat) : Nat := ds.foldl (fun n d => n * 10 + d) 0

/-- The significand. -/
def significand (x : Decimal) : Nat := ofDigits x.digits

/-- The number of digits before the point when the number is written out; its
    magnitude, unless it is zero, lies from `10 ^ (order - 1)` up to, and below,
    `10 ^ order`. -/
def order (x : Decimal) : Int := (x.digits.dropWhile (· == 0)).length + x.exponent

end Decimal

end TextParsing
