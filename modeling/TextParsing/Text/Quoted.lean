import TextParsing.Text
import TextParsing.Text.Plain

/-!
# Quoted texts

A text inside double quotes, for showing it to a reader. The double quote and the
backslash get a backslash before them; tab, line feed, carriage return and the
null unit have escapes of their own; any other unit that is not plain is written
as its code point in hexadecimal. The single quote needs no escape.
-/

namespace TextParsing.Text

/-- The code point of a unit as an escape: lower-case hexadecimal, without leading
    zeros, between braces. -/
def escapedCodePoint (u : Char) : List Char :=
  "\\u\x7b".toList ++ Nat.toDigits 16 u.toNat ++ ['\x7d']

/-- A unit as it stands inside quotes. -/
def quotedUnit (u : Char) : List Char :=
  if u = '"' then ['\\', '"']
  else if u = '\\' then ['\\', '\\']
  else if u = '\n' then ['\\', 'n']
  else if u = '\t' then ['\\', 't']
  else if u = '\x0d' then ['\\', 'r']
  else if u = '\x00' then ['\\', '0']
  else if isPlain u then [u]
  else escapedCodePoint u

/-- The text between double quotes. -/
def quoted (t : Text) : String :=
  String.ofList ('"' :: t.flatMap quotedUnit ++ ['"'])

end TextParsing.Text
