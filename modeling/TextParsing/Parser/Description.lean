import TextParsing.Parser
import TextParsing.Text.Quoted

/-!
# Descriptions

The text that describes a parser, a failure or a cursor to a reader. A parser is
described by its tree: the name of each node, and the parts of it that can be
shown. A function cannot be shown, and a placeholder stands for it.
-/

namespace TextParsing

namespace Description

/-- A name with named parts, between braces. -/
def record (name : String) (parts : List (String × String)) : String :=
  name ++ " \x7b " ++ ", ".intercalate (parts.map fun p => p.1 ++ ": " ++ p.2) ++ " \x7d"

/-- What stands for a function. -/
def function : String := (Text.quoted "<function>".toList)

/-- A string between quotes. -/
def quoted (s : String) : String := Text.quoted s.toList

/-- What stands for a type of values of which there is none to show: the type of a
    function that would give one. -/
def phantom (result : String) : String := "PhantomData<fn()" ++ result ++ ">"

end Description

open Description

/-- The machine type of a kind of integers, as descriptions show it. -/
def IntKind.machineType : IntKind → String
  | .unsigned .native => "usize"
  | .unsigned w => "u" ++ toString w.bits
  | .signed .native => "isize"
  | .signed w => "i" ++ toString w.bits

/-- Describes a cursor: the whole text and the position. -/
def Cursor.describe (c : Cursor) : String :=
  record "TextCursor" [("text", c.source.quoted), ("position", toString c.position)]

/-- Describes a diagnostic. -/
def ParseError.describe (e : ParseError) : String := record "ParseError" [("label", quoted e.label)]

/-- Describes a failure. -/
def Failure.describe (f : Failure) : String :=
  record "Failure" [("error", f.error.describe), ("cursor", f.cursor.describe)]

/-- Describes a scanner. -/
def Description.scanner (written : String) : String :=
  record "RunScanner" [("initial", written), ("step", function)]

/-- Describes a primitive parser. -/
def Primitive.describe : {α : Type} → Primitive α → String
  | _, .satisfy _ label => record "Satisfy" [("label", quoted label)]
  | _, .satisfyWith _ _ label => record "SatisfyWith" [("label", quoted label)]
  | _, .skip _ label => record "Skip" [("label", quoted label)]
  | _, .anyChar => "AnyChar"
  | _, .take count label => record "Take" [("count", toString count), ("label", quoted label)]
  | _, .takeWith count _ _ label =>
    record "TakeWith" [("count", toString count), ("label", quoted label)]
  | _, .literal text => record "StringParser" [("literal", text.quoted)]
  | _, .takeWhile _ => "TakeWhile"
  | _, .takeWhile1 _ => "TakeWhile1"
  | _, .takeText => "TakeText"
  | _, .runScanner _ _ written => scanner written
  | _, .scan _ _ written => "Scan(" ++ scanner written ++ ")"
  | _, .unsigned w =>
    record "UnsignedParser" [("_phantom", phantom (" -> " ++ (IntKind.unsigned w).machineType))]
  | _, .signed w =>
    record "SignedParser" [("_phantom", phantom (" -> " ++ (IntKind.signed w).machineType))]
  | _, .double => "DoubleParser"
  | _, .succeed _ written => record "Succeed" [("value", written)]
  | _, .fail label => record "Fail" [("message", quoted label), ("_phantom", phantom "")]

/-- Describes a parser. The parsers that a `bind` chooses are not known before it
    runs, and a `tell` does not show. -/
def Parser.describe {S : Signature} : {α : Type} → Parser S α → String
  | _, .primitive p => p.describe
  | _, .bind p _ => record "Bind" [("parser", p.describe), ("continuation", function)]
  | _, .map p _ => record "Map" [("parser", p.describe), ("mapper", function)]
  | _, .apply pf pa => record "Apply" [("function", pf.describe), ("argument", pa.describe)]
  | _, .orElse p q => record "Or" [("parser1", p.describe), ("parser2", q.describe)]
  | _, .andThen p q => record "Then" [("parser1", p.describe), ("parser2", q.describe)]
  | _, .thenSkip p q => record "ThenSkip" [("parser1", p.describe), ("parser2", q.describe)]
  | _, .many p => record "Many" [("parser", p.describe)]
  | _, .many1 p => record "AtLeastOne" [("parser", p.describe)]
  | _, .inspect p _ _ => record "Inspect" [("parser", p.describe), ("callback", function)]
  | _, .tell _ _ p => p.describe
  | _, .custom description _ => description

end TextParsing
