/-!
# Classes of units

The classes that the primitives and their callers share. They are classes of
ASCII: no unit above the first 128 is in any of them. `isSpace` leaves out the
vertical tab, which is why it is spelled out here.
-/

namespace TextParsing.Text

/-- The decimal digits, `0` to `9`. -/
def isDigit (u : Char) : Bool := '0' ≤ u && u ≤ '9'

/-- Space and tab. -/
def isHorizontalSpace (u : Char) : Bool := u == ' ' || u == '\t'

/-- Space, tab, line feed, form feed and carriage return. -/
def isSpace (u : Char) : Bool :=
  u == ' ' || u == '\t' || u == '\n' || u == '\x0c' || u == '\x0d'

end TextParsing.Text
