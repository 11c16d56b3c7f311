import TextParsing.Parser

/-!
# Grammars

A grammar gives a parser for each rule of a signature; the parsers may run each
other's rules. Running a parser over a grammar has to say how deep rules may nest
and how long a repetition may go on. Both are counted in *places*, the cursors on
the source of the run: there is one more of them than the source has units.

* A repetition that ends never comes to the same cursor twice, as it would go on
  from there as it did before. So it runs its parser at most once for each place.
* Rules that end never nest in themselves at the same cursor, for the same reason.
  So they nest at most as deep as there are pairs of a rule and a place.

A run over one source that stays `unfinished` under these bounds is therefore one
that would never end.
-/

namespace TextParsing

/-- What parsing a whole text comes to: a value or a diagnostic, unless the run was
    aborted, and the notes that were made, in order. -/
structure Parsed (ν α : Type) where
  result : Except Abort (Except ParseError α)
  notes : List ν

/-- A parser for each rule. -/
structure Grammar (S : Signature) where
  rule : (r : Fin S.rules) → Parser S (S.Result r)

namespace Grammar

variable {S : Signature} {α : Type}

/-- Runs a rule, in which rules may nest to the given depth and repetitions may run
    their parsers `limit` times. -/
def call (g : Grammar S) (limit : Nat) :
    (depth : Nat) → (r : Fin S.rules) → Cursor → Run (Note S) (S.Result r)
  | 0, _, _ => .unfinished
  | depth + 1, r, c => (g.rule r).run ⟨g.call limit depth, limit⟩ c

/-- The context for runs over a source with this number of places. -/
def context (g : Grammar S) (places : Nat) : Context S := ⟨g.call places (S.rules * places), places⟩

/-- Runs a parser at a cursor. -/
def run (g : Grammar S) (p : Parser S α) (c : Cursor) : Run (Note S) α :=
  p.run (g.context (c.source.length + 1)) c

/-- Runs a parser on a whole text, and gives its value or its diagnostic. The cursor
    is dropped: what the parser leaves unread is no failure. -/
def parse (g : Grammar S) (p : Parser S α) (t : Text) : Parsed (Note S) α :=
  let r := g.run p (.start t)
  { result := r.result.map fun
      | .success v _ => .ok v
      | .failure f => .error f.error
    notes := r.notes }

end Grammar

end TextParsing
