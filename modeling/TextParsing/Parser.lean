import TextParsing.Primitive
import TextParsing.Run

/-!
# Parsers

A parser is a reusable description of how to get from one cursor to another. It
holds no state: running the same parser again, at any cursor, is a run of its own.

Parsers are data, a tree of combinators over primitives, and `Parser.run` is their
meaning.

* *Sequencing*: `bind` chooses the second parser by the value of the first;
  `andThen`, `thenSkip` and `apply` run two given parsers, and keep the second
  value, the first value, and the first value applied to the second.
* *Choice*: `orElse` runs its second parser, from where the first one started, if
  the first one fails. The failure of a choice is that of its second parser.
* *Repetition*: `many` and `many1` repeat a parser until it fails or stands still.
* *Observation*: `inspect` notes the value of its parser each time the parser
  succeeds, and `tell` notes something before its parser runs. Neither changes
  what is parsed.
* *The caller's own steps*: `custom`, and its special case `ofStep`.

Parsers can be recursive. They refer to each other by the names of *rules*, given
by a `Signature`, and a step of the caller's can run the rule of a name (`rule`).
What a rule does is part of the `Context` of a run, as is the number of times that
a loop may go round; `TextParsing.Parser.Grammar` supplies both.
-/

namespace TextParsing

/-- What a family of parsers refers to: the rules, by their number, with the type
    of the values of each; and the tags and observations of notes. -/
structure Signature where
  /-- The number of rules. -/
  rules : Nat
  /-- The type of the values of a rule. -/
  Result : Fin rules → Type
  /-- Who made a note. -/
  Tag : Type
  /-- What a note is about. -/
  Seen : Type

/-- What an observer inside a parser writes down. -/
structure Note (S : Signature) where
  tag : S.Tag
  seen : S.Seen

/-- What a run is given besides the parser and the cursor. -/
structure Context (S : Signature) where
  /-- Runs a rule. -/
  call : (r : Fin S.rules) → Cursor → Run (Note S) (S.Result r)
  /-- How many times a repetition may run its parser. -/
  limit : Nat

/-- A step of the caller's own. -/
abbrev Step (S : Signature) (α : Type) := Context S → Cursor → Run (Note S) α

/-- A parser with values of type `α`. -/
inductive Parser (S : Signature) : Type → Type 1 where
  /-- A primitive parser. -/
  | primitive {α : Type} (p : Primitive α) : Parser S α
  /-- The parser `p`, then the parser that `k` chooses by the value of `p`. -/
  | bind {α β : Type} (p : Parser S α) (k : α → Parser S β) : Parser S β
  /-- The parser `p`, with `f` applied to its value. -/
  | map {α β : Type} (p : Parser S α) (f : α → β) : Parser S β
  /-- A parser of a function, then a parser of its argument. -/
  | apply {α β : Type} (function : Parser S (α → β)) (argument : Parser S α) : Parser S β
  /-- The parser `q` from the same cursor, if `p` fails. -/
  | orElse {α : Type} (p q : Parser S α) : Parser S α
  /-- The parser `p`, then `q`, with the value of `q`. -/
  | andThen {α β : Type} (p : Parser S α) (q : Parser S β) : Parser S β
  /-- The parser `p`, then `q`, with the value of `p`. -/
  | thenSkip {α β : Type} (p : Parser S α) (q : Parser S β) : Parser S α
  /-- The parser `p`, any number of times. -/
  | many {α : Type} (p : Parser S α) : Parser S (List α)
  /-- The parser `p`, at least once. -/
  | many1 {α : Type} (p : Parser S α) : Parser S (List α)
  /-- The parser `p`, noting its value each time it succeeds. -/
  | inspect {α : Type} (p : Parser S α) (tag : S.Tag) (view : α → S.Seen) : Parser S α
  /-- The parser `p`, after a note. -/
  | tell {α : Type} (tag : S.Tag) (seen : S.Seen) (p : Parser S α) : Parser S α
  /-- A parser given by its step, and by its description. -/
  | custom {α : Type} (description : String) (step : Step S α) : Parser S α

namespace Parser

variable {S : Signature} {α β : Type}

/-- What a parser does at a cursor. -/
def run (ctx : Context S) : {α : Type} → Parser S α → Cursor → Run (Note S) α
  | _, primitive p, c => .ofChecked (p.run c)
  | _, bind p k, c => (run ctx p c).andThen fun v d => run ctx (k v) d
  | _, map p f, c => (run ctx p c).map f
  | _, apply pf pa, c =>
    (run ctx pf c).andThen fun f d => (run ctx pa d).andThen fun a e => .success (f a) e
  | _, orElse p q, c => (run ctx p c).orElse fun _ => run ctx q c
  | _, andThen p q, c => (run ctx p c).andThen fun _ d => run ctx q d
  | _, thenSkip p q, c =>
    (run ctx p c).andThen fun v d => (run ctx q d).andThen fun _ e => .success v e
  | _, many p, c => Run.repeatFrom (run ctx p) ctx.limit c
  | _, many1 p, c => Run.repeatFrom1 (run ctx p) ctx.limit c
  | _, inspect p tag view, c =>
    (run ctx p c).andThen fun v d => (Run.success v d).after [⟨tag, view v⟩]
  | _, tell tag seen p, c => (run ctx p c).after [⟨tag, seen⟩]
  | _, custom _ step, c => step ctx c

/-! ### One unit -/

/-- One unit that passes the test. -/
def satisfy (test : Char → Bool) (label : String) : Parser S Char :=
  primitive (.satisfy test label)

/-- One unit whose transform passes the test; the value is the transform. -/
def satisfyWith (transform : Char → α) (test : α → Bool) (label : String) : Parser S α :=
  primitive (.satisfyWith transform test label)

/-- One unit that passes the test, left out of the value. -/
def skip (test : Char → Bool) (label : String) : Parser S Unit := primitive (.skip test label)

/-- Any unit. -/
def anyChar : Parser S Char := primitive .anyChar

/-- This very unit. -/
def char (u : Char) : Parser S Char := satisfy (· == u) "char"

/-- This very unit, left out of the value. -/
def skipChar (u : Char) : Parser S Unit := skip (· == u) "skipChar"

/-! ### A run of units -/

/-- Exactly `count` units. -/
def take (count : Nat) (label : String) : Parser S Text := primitive (.take count label)

/-- Exactly `count` units whose transform passes the test; the value is the
    transform. -/
def takeWith (count : Nat) (transform : Text → α) (test : α → Bool) (label : String) :
    Parser S α :=
  primitive (.takeWith count transform test label)

/-- Exactly `count` units that together pass the test. -/
def takeIf (count : Nat) (test : Text → Bool) (label : String) : Parser S Text :=
  takeWith count id test label

/-- This very text. -/
def literal (text : Text) : Parser S Text := primitive (.literal text)

/-- The longest run of units that pass the test. -/
def takeWhile (test : Char → Bool) : Parser S Text := primitive (.takeWhile test)

/-- The longest run of units that pass the test, not an empty one. -/
def takeWhile1 (test : Char → Bool) : Parser S Text := primitive (.takeWhile1 test)

/-- All units before the first one that passes the test. -/
def takeTill (test : Char → Bool) : Parser S Text := takeWhile fun u => !test u

/-- All units before the first `stop`. -/
def takeTillChar (stop : Char) : Parser S Text := takeWhile (· != stop)

/-- All that is left. -/
def takeText : Parser S Text := primitive .takeText

/-! ### Scanners, numbers, and parsers that look at nothing -/

/-- The units for which the step gives a new state, and the last state. The text
    `written` shows the initial state in descriptions. -/
def runScanner {σ : Type} (initial : σ) (step : σ → Char → Option σ) (written : String) :
    Parser S (Text × σ) :=
  primitive (.runScanner initial step written)

/-- The units for which the step gives a new state. -/
def scan {σ : Type} (initial : σ) (step : σ → Char → Option σ) (written : String) :
    Parser S Text :=
  primitive (.scan initial step written)

/-- Digits that denote an unsigned integer of this width. -/
def unsigned (w : Width) : Parser S Int := primitive (.unsigned w)

/-- An optional sign and digits that denote a signed integer of this width. -/
def signed (w : Width) : Parser S Int := primitive (.signed w)

/-- The parser of the integers of a kind. -/
def integer : IntKind → Parser S Int
  | .unsigned w => unsigned w
  | .signed w => signed w

/-- The longest float literal. -/
def double : Parser S Binary64 := primitive .double

/-- Nothing, successfully. The text `written` shows the value in descriptions. -/
def succeed (v : α) (written : String) : Parser S α := primitive (.succeed v written)

/-- A failure, always. -/
def fail (label : String) : Parser S α := primitive (.fail label)

/-! ### The caller's own steps -/

/-- The parser with this step. -/
def ofStep (step : Step S α) : Parser S α := custom "FromFn \x7b step: \"<function>\" \x7d" step

/-- The parser that runs a rule. -/
def rule (r : Fin S.rules) : Parser S (S.Result r) := ofStep fun ctx => ctx.call r

end Parser

end TextParsing
