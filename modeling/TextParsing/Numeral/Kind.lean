import TextParsing.Fault

/-!
# Kinds of integers

The integer parsers come in ten kinds: unsigned and signed, each in four fixed
widths and in the native width of the machine, which is 64 bits. A kind has a
range, and a label that its parser fails with when a number is out of that
range.

The integers themselves are exact. What an operation on integers of a kind
computes has to lie in the range of the kind again: `IntKind.fit` checks this,
and gives a fault otherwise.
-/

namespace TextParsing

/-- The width of a kind of integers. -/
inductive Width where
  | w8
  | w16
  | w32
  | w64
  /-- The width of a machine word. -/
  | native
  deriving DecidableEq

/-- The number of bits. -/
def Width.bits : Width → Nat
  | w8 => 8
  | w16 => 16
  | w32 => 32
  | w64 => 64
  | native => 64

/-- The number of integers of the width. -/
def Width.size (w : Width) : Nat := Nat.pow 2 w.bits

/-- A kind of integers. -/
inductive IntKind where
  | unsigned (width : Width)
  | signed (width : Width)
  deriving DecidableEq

namespace IntKind

/-- The least integer of the kind. -/
def min : IntKind → Int
  | unsigned _ => 0
  | signed w => -(w.size / 2 : Nat)

/-- The greatest integer of the kind. -/
def max : IntKind → Int
  | unsigned w => w.size - 1
  | signed w => (w.size / 2 : Nat) - 1

/-- The integer lies in the range of the kind. -/
def Holds (k : IntKind) (v : Int) : Prop := k.min ≤ v ∧ v ≤ k.max

instance (k : IntKind) (v : Int) : Decidable (k.Holds v) :=
  inferInstanceAs (Decidable (_ ∧ _))

/-- The result of an operation on integers of the kind, which must be one again. -/
def fit (k : IntKind) (v : Int) : Checked Int :=
  if k.Holds v then .ok v else .error (.overflow v)

/-- The decimal digits, and ten, as integers of the kind: every kind holds them. -/
def ofDigit (_ : IntKind) (d : Nat) : Int := d

/-- The label that the parser of the kind fails with when a number is out of
    range. -/
def label : IntKind → String
  | unsigned .w8 => "uint8"
  | unsigned .w16 => "uint16"
  | unsigned .w32 => "uint32"
  | unsigned .w64 => "uint64"
  | unsigned .native => "uint"
  | signed .w8 => "int8"
  | signed .w16 => "int16"
  | signed .w32 => "int32"
  | signed .w64 => "int64"
  | signed .native => "int"

end IntKind

end TextParsing
