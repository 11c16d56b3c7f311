import TextParsing.Failure
import TextParsing.Text.Class
import TextParsing.Numeral.Binary64

/-!
# Primitive parsers

The parsers that everything else is put together from, and what each of them does
at a cursor.

* *One unit*: `satisfy`, `satisfyWith`, `skip` and `anyChar` look at exactly one
  unit, and a failure of theirs stays where it started.
* *A run of units*: `take` and `takeWith` take a number of units, `literal` an
  exact text, `takeWhile` and `takeWhile1` the units of a class, `takeText` all
  that is left. A number of zero units is taken for a mistake and reported as
  such, whatever the input.
* *Scanners*: `runScanner` and `scan` fold a step function over the units, from an
  initial state, for as long as the step gives a new state. They never fail.
* *Numbers*: `unsigned`, `signed` and `double` take the longest numeral. A numeral
  whose number is out of range fails after its last digit.
* `succeed` and `fail` look at nothing.

A primitive is data: `Primitive.run` is its meaning.
-/

namespace TextParsing

/-- A primitive parser with values of type `α`. Where a primitive holds a value
    that is shown in its description, it holds the text to show beside it. -/
inductive Primitive : Type → Type 1 where
  /-- One unit that passes the test. -/
  | satisfy (test : Char → Bool) (label : String) : Primitive Char
  /-- One unit whose transform passes the test; the value is the transform. -/
  | satisfyWith {α : Type} (transform : Char → α) (test : α → Bool) (label : String) : Primitive α
  /-- One unit that passes the test, left out of the value. -/
  | skip (test : Char → Bool) (label : String) : Primitive Unit
  /-- Any unit. -/
  | anyChar : Primitive Char
  /-- Exactly `count` units. -/
  | take (count : Nat) (label : String) : Primitive Text
  /-- Exactly `count` units whose transform passes the test; the value is the
      transform. -/
  | takeWith {α : Type} (count : Nat) (transform : Text → α) (test : α → Bool) (label : String) :
      Primitive α
  /-- This very text. -/
  | literal (text : Text) : Primitive Text
  /-- The longest run of units that pass the test. -/
  | takeWhile (test : Char → Bool) : Primitive Text
  /-- The longest run of units that pass the test, not an empty one. -/
  | takeWhile1 (test : Char → Bool) : Primitive Text
  /-- All that is left. -/
  | takeText : Primitive Text
  /-- The units for which the step gives a new state, and the last state. -/
  | runScanner {σ : Type} (initial : σ) (step : σ → Char → Option σ) (written : String) :
      Primitive (Text × σ)
  /-- The units for which the step gives a new state. -/
  | scan {σ : Type} (initial : σ) (step : σ → Char → Option σ) (written : String) : Primitive Text
  /-- Digits that denote an unsigned integer of this width. -/
  | unsigned (width : Width) : Primitive Int
  /-- An optional sign and digits that denote a signed integer of this width. -/
  | signed (width : Width) : Primitive Int
  /-- The longest float literal. -/
  | double : Primitive Binary64
  /-- Nothing, successfully. -/
  | succeed {α : Type} (value : α) (written : String) : Primitive α
  /-- A failure, always. -/
  | fail {α : Type} (label : String) : Primitive α

namespace Primitive

variable {α σ : Type}

/-! ### A run of units -/

/-- Success with the text between the two cursors. -/
def between (c d : Cursor) : Checked (Outcome Text) := do
  return .success (← c.sliceTo d) d

/-- The longest run of units that pass the test, which may be empty. -/
def runTakeWhile (test : Char → Bool) (c : Cursor) : Checked (Outcome Text) := do
  between c (← c.advanceWhile test)

/-- The longest run of units that pass the test, or a failure if the cursor does
    not move. -/
def runTakeWhile1 (test : Char → Bool) (c : Cursor) : Checked (Outcome Text) := do
  let d ← c.advanceWhile test
  if d = c then return .refuse "tailWhile1" c else between c d

/-! ### Scanners -/

/-- Folds the step over the units of the text, up to the first unit for which it
    gives no state: the byte length of the units before it, and the last state. -/
def scanFrom (step : σ → Char → Option σ) (s : σ) : Text → Nat × σ
  | [] => (0, s)
  | u :: t =>
    match step s u with
    | none => (0, s)
    | some s' => let r := scanFrom step s' t; (u.utf8Size + r.1, r.2)

/-- The scanned text and the last state, with the cursor after the text. -/
def runScan (initial : σ) (step : σ → Char → Option σ) (c : Cursor) :
    Checked (Text × σ × Cursor) := do
  let (length, final) := scanFrom step initial (← c.rest)
  let d ← c.forward length
  return (← c.sliceTo d, final, d)

/-! ### Numbers -/

/-- A number if there is one, and otherwise a failure, both at the same cursor. -/
def inRange (label : String) (d : Cursor) : Option α → Outcome α
  | some v => .success v d
  | none => .refuse label d

/-- The cursor after a sign, if the next unit is one. -/
def afterSign (c : Cursor) : Checked Cursor := do
  match ← c.value with
  | some '+' => c.next
  | some '-' => c.next
  | _ => return c

/-- Digits, and the number that they denote. -/
def runUnsigned (w : Width) (c : Cursor) : Checked (Outcome Int) := do
  match ← runTakeWhile1 Text.isDigit c with
  | .failure f => return .failure f
  | .success digits d => return inRange (IntKind.unsigned w).label d (← toUnsigned w digits)

/-- An optional sign and digits, and the number that they denote together. -/
def runSigned (w : Width) (c : Cursor) : Checked (Outcome Int) := do
  match ← runTakeWhile1 Text.isDigit (← afterSign c) with
  | .failure f => return .failure f
  | .success _ d => return inRange (IntKind.signed w).label d (← toSigned w (← c.sliceTo d))

/-- The longest float literal, and the double nearest to its number. -/
def runDouble (c : Cursor) : Checked (Outcome Binary64) := do
  match ← Literal.length? (← c.rest) with
  | none => return .refuse "double" c
  | some length =>
    let d ← c.forward length
    return inRange "double" d (← toDouble (← c.sliceTo d))

/-! ### All of them -/

/-- What a primitive does at a cursor. -/
def run : {α : Type} → Primitive α → Cursor → Checked (Outcome α)
  | _, satisfy test label, c => do
    match ← c.value with
    | some u => if test u then return .success u (← c.next) else return .refuse label c
    | none => return .refuse label c
  | _, satisfyWith transform test label, c => do
    match ← c.value with
    | some u =>
      if test (transform u) then return .success (transform u) (← c.next)
      else return .refuse label c
    | none => return .refuse label c
  | _, skip test label, c => do
    match ← c.value with
    | some u => if test u then return .success () (← c.next) else return .refuse label c
    | none => return .refuse label c
  | _, anyChar, c => do
    match ← c.value with
    | some u => return .success u (← c.next)
    | none => return .refuse "anyChar" c
  | _, take count label, c =>
    if count = 0 then return .failure ⟨.misuse label, c⟩
    else do
      match ← c.advance count with
      | some d => between c d
      | none => return .refuse label c
  | _, takeWith count transform test label, c =>
    if count = 0 then return .failure ⟨.misuse label, c⟩
    else do
      match ← c.advance count with
      | some d =>
        let v := transform (← c.sliceTo d)
        if test v then return .success v d else return .refuse label c
      | none => return .refuse label c
  | _, literal text, c => do
    match Text.matchPrefix? text (← c.rest) with
    | some length => between c (← c.forward length)
    | none => return .refuse "string" c
  | _, takeWhile test, c => runTakeWhile test c
  | _, takeWhile1 test, c => runTakeWhile1 test c
  | _, takeText, c => do
    let t ← c.rest
    return .success t (← c.forward t.byteLength)
  | _, runScanner initial step _, c => do
    let (t, s, d) ← runScan initial step c
    return .success (t, s) d
  | _, scan initial step _, c => do
    let (t, _, d) ← runScan initial step c
    return .success t d
  | _, unsigned w, c => runUnsigned w c
  | _, signed w, c => runSigned w c
  | _, double, c => runDouble c
  | _, succeed value _, c => return .success value c
  | _, fail label, c => return .refuse label c

end Primitive

end TextParsing
