import TextParsing.Text

/-!
# Cursors

A cursor is a place in a text: the whole text and the byte offset of the next
unread unit. Moving a cursor gives a new one, so that a saved cursor can always
be resumed; this is what makes backtracking free. Two cursors are equal when
they have the same text and the same position.

The position of a cursor that is worth having is a boundary of its text
(`Cursor.Valid`). This is not part of the type: every operation that cuts the
text at the position, or moves the position, is checked, and gives a fault where
a cursor is not valid.

* `Cursor.rest`, `Cursor.value`, `Cursor.unitsLeft` and `Cursor.atEnd` look at what
  is unread;
* `Cursor.next`, `Cursor.advance` and `Cursor.advanceWhile` move past one unit, a
  number of units, and the units of a class;
* `Cursor.forward` moves by a byte length that was measured on the rest;
* `Cursor.sliceTo` is the text between two cursors.
-/

namespace TextParsing

/-- A place in a text. -/
structure Cursor where
  /-- The whole text, read and unread. -/
  source : Text
  /-- The byte offset of the next unread unit. -/
  position : Nat
  deriving DecidableEq

namespace Cursor

/-- The cursor at the start of a text. -/
def start (t : Text) : Cursor := ⟨t, 0⟩

/-- The position lies between two units of the text, or at one of its ends. -/
def Valid (c : Cursor) : Prop := c.source.IsBoundary c.position

instance (c : Cursor) : Decidable c.Valid :=
  inferInstanceAs (Decidable (c.source.IsBoundary c.position))

/-! ### What is unread -/

/-- The unread part of the text. -/
def rest (c : Cursor) : Checked Text := c.source.sliceFrom c.position

/-- The next unread unit; there is none at the end. -/
def value (c : Cursor) : Checked (Option Char) := do
  return (← c.rest).head?

/-- The number of unread units. -/
def unitsLeft (c : Cursor) : Checked Nat := do
  return (← c.rest).length

/-- Everything is read. -/
def atEnd (c : Cursor) : Bool := c.source.byteLength ≤ c.position

/-! ### Moving -/

/-- Moves by a number of bytes, which must end on a boundary. -/
def forward (c : Cursor) (n : Nat) : Checked Cursor :=
  if c.source.IsBoundary (c.position + n) then .ok ⟨c.source, c.position + n⟩
  else .error (.boundary (c.position + n))

/-- Moves past the next unit; a cursor at the end stays there. -/
def next (c : Cursor) : Checked Cursor := do
  match ← c.value with
  | some u => c.forward u.utf8Size
  | none => return c

/-- Moves past exactly `n` units; there is no such move if fewer are left. -/
def advance (c : Cursor) (n : Nat) : Checked (Option Cursor) :=
  if n = 0 then .ok (some c)
  else do
    match (← c.rest).offsetAfter? n with
    | some length => return some (← c.forward length)
    | none => return none

/-- Moves past the longest run of units that pass `test`. -/
def advanceWhile (c : Cursor) (test : Char → Bool) : Checked Cursor := do
  c.forward ((← c.rest).spanLength test)

/-! ### Between two cursors -/

/-- The text from this cursor to a later one on the same text. -/
def sliceTo (c later : Cursor) : Checked Text := c.source.slice c.position later.position

end Cursor

end TextParsing
