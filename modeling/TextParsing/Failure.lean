import TextParsing.Cursor

/-!
# Failures

A parse that does not match fails with a label, the name of the primitive that
gave up. The label is the whole diagnostic: labels do not accumulate, and of
several alternatives only the last one's label survives. While a parser runs, a
failure also carries the cursor that the attempt had reached, which may lie
beyond the place where it started.
-/

namespace TextParsing

/-- The diagnostic of a failed parse. -/
structure ParseError where
  /-- The label of the primitive that failed. -/
  label : String
  deriving DecidableEq

namespace ParseError

/-- The diagnostic of a primitive that was built with arguments that it cannot
    honour. -/
def misuse (label : String) : ParseError := ⟨"wrong usage of \"" ++ label ++ "\" parser"⟩

/-- The message for the reader of a diagnostic: the label. -/
def message (e : ParseError) : String := e.label

end ParseError

/-- A failed attempt: the diagnostic, and the cursor that the attempt reached. -/
structure Failure where
  error : ParseError
  cursor : Cursor
  deriving DecidableEq

namespace Failure

/-- The failure with this label at this cursor. -/
def of (label : String) (c : Cursor) : Failure := ⟨⟨label⟩, c⟩

/-- The label of the diagnostic. -/
def label (f : Failure) : String := f.error.label

/-- The message of the diagnostic; the cursor is not part of it. -/
def message (f : Failure) : String := f.error.message

end Failure

/-- The outcome of running a parser at a cursor. -/
inductive Outcome (α : Type) where
  /-- The parser matched: its value, and the cursor after what it consumed. -/
  | success (value : α) (cursor : Cursor)
  /-- The parser did not match. -/
  | failure (failure : Failure)

namespace Outcome

variable {α : Type}

/-- The failure with this label at this cursor, as an outcome. -/
def refuse (label : String) (c : Cursor) : Outcome α := .failure (.of label c)

/-- The cursor that an outcome carries, of either kind. -/
def cursor : Outcome α → Cursor
  | success _ c => c
  | failure f => f.cursor

end Outcome

end TextParsing
