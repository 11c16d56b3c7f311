import TextParsing.Parser.Grammar

/-!
# Laws of parsers

A *law* is a property of what a parser does, at all cursors. A parser is put
together from primitives, of which everything is known, and from steps of the
caller's own, of which nothing is. So a law holds of all parsers only as far as it
holds of the caller's steps: those that occur in the parser, also in the parsers that
its continuations choose (`Parser.EveryStep`).

Some of these steps run rules, and a rule may come back to itself. That such steps
keep a law need not be assumed. It is enough if each step keeps the law as far as
the rules do that it can run (`Grammar.Admits`): then so do all rules, by induction
on how deep they nest (`Law.Compositional.call`), and with them all parsers
(`Law.Compositional.run_bounded`). This holds of the step of `Parser.rule` for every
law (`Grammar.admits_call`).
-/

namespace TextParsing

variable {S : Signature}

/-- A property of what a parser does, at all cursors. -/
abbrev Law (S : Signature) := (α : Type) → (Cursor → Run (Note S) α) → Prop

namespace Parser

/-- Every step of the caller's own that can be run in the course of the parser
    satisfies `P`. -/
def EveryStep (P : (α : Type) → Step S α → Prop) : {α : Type} → Parser S α → Prop
  | _, primitive _ => True
  | _, bind p k => EveryStep P p ∧ ∀ v, EveryStep P (k v)
  | _, map p _ => EveryStep P p
  | _, apply pf pa => EveryStep P pf ∧ EveryStep P pa
  | _, orElse p q => EveryStep P p ∧ EveryStep P q
  | _, andThen p q => EveryStep P p ∧ EveryStep P q
  | _, thenSkip p q => EveryStep P p ∧ EveryStep P q
  | _, many p => EveryStep P p
  | _, many1 p => EveryStep P p
  | _, inspect p _ _ => EveryStep P p
  | _, tell _ _ p => EveryStep P p
  | α, custom _ step => P α step

theorem EveryStep.mono {P Q : (α : Type) → Step S α → Prop} (hPQ : ∀ α step, P α step → Q α step)
    {α : Type} {p : Parser S α} (h : p.EveryStep P) : p.EveryStep Q := by
  induction p with
  | primitive p => exact h
  | bind p k ihp ihk => exact ⟨ihp h.1, fun v => ihk v (h.2 v)⟩
  | map p f ih => exact ih h
  | apply pf pa ihf iha => exact ⟨ihf h.1, iha h.2⟩
  | orElse p q ihp ihq => exact ⟨ihp h.1, ihq h.2⟩
  | andThen p q ihp ihq => exact ⟨ihp h.1, ihq h.2⟩
  | thenSkip p q ihp ihq => exact ⟨ihp h.1, ihq h.2⟩
  | many p ih => exact ih h
  | many1 p ih => exact ih h
  | inspect p tag view ih => exact ih h
  | tell tag seen p ih => exact ih h
  | custom description step => exact hPQ _ step h

end Parser

/-! ### Rules -/

namespace Grammar

/-- The context in which rules may nest to the given depth, and repetitions may run
    their parsers `limit` times. The contexts of `Grammar.run` are among these. -/
def bounded (g : Grammar S) (limit depth : Nat) : Context S := ⟨g.call limit depth, limit⟩

/-- The step keeps the law over the grammar, as far as the rules do. -/
def Admits (g : Grammar S) (L : Law S) (α : Type) (step : Step S α) : Prop :=
  ∀ limit depth, (∀ r, L (S.Result r) (g.call limit depth r)) → L α (step (g.bounded limit depth))

/-- All steps in the rules of the grammar keep the law, as far as the rules do. -/
def Keeps (g : Grammar S) (L : Law S) : Prop := ∀ r, (g.rule r).EveryStep (g.Admits L)

theorem admits_call (g : Grammar S) (L : Law S) (r : Fin S.rules) :
    g.Admits L (S.Result r) fun ctx => ctx.call r :=
  fun _ _ hcall => hcall r

end Grammar

/-! ### Laws that go through all parsers -/

/-- The law holds of a run that does not end, and of a parser if it holds of the
    steps that occur in the parser. -/
structure Law.Compositional (L : Law S) : Prop where
  unfinished (α : Type) : L α fun _ => .unfinished
  run (ctx : Context S) {α : Type} {p : Parser S α} :
    p.EveryStep (fun α step => L α (step ctx)) → L α (p.run ctx)

namespace Law.Compositional

variable {L : Law S} {g : Grammar S}

theorem call (hL : L.Compositional) (hg : g.Keeps L) (limit depth : Nat) :
    ∀ r, L (S.Result r) (g.call limit depth r) := by
  induction depth with
  | zero => exact fun r => hL.unfinished (S.Result r)
  | succ depth ih =>
    -- The rules that a rule runs nest less deep than the rule itself.
    exact fun r => hL.run (g.bounded limit depth) ((hg r).mono fun _ _ h => h limit depth ih)

theorem run_bounded (hL : L.Compositional) (hg : g.Keeps L) {α : Type} {p : Parser S α}
    (hp : p.EveryStep (g.Admits L)) (limit depth : Nat) : L α (p.run (g.bounded limit depth)) :=
  hL.run _ (hp.mono fun _ _ h => h limit depth (hL.call hg limit depth))

end Law.Compositional

/-! ### Bracketed numbers, as an example -/

/-- One rule, with values that are texts, and notes of texts. -/
def Signature.brackets : Signature := ⟨1, fun _ => Text, String, Text⟩

/-- Digits, in any number of brackets; what stands in brackets is noted. -/
def Grammar.brackets : Grammar .brackets where
  rule _ := .orElse
    (.thenSkip (.andThen (.char '(') (.inspect (.rule (S := .brackets) (0 : Fin 1)) "inner" id))
      (.char ')'))
    (.takeWhile1 Text.isDigit)

/-- The parser of digits in brackets. -/
def Parser.bracketed : Parser .brackets Text := .rule (S := .brackets) (0 : Fin 1)

/-- The only step in the grammar runs a rule, so the grammar keeps every law. -/
theorem Grammar.brackets_keeps (L : Law .brackets) : brackets.Keeps L :=
  fun _ => ⟨⟨⟨trivial, brackets.admits_call L (0 : Fin 1)⟩, trivial⟩, trivial⟩

theorem Parser.bracketed_everyStep (L : Law .brackets) :
    bracketed.EveryStep (Grammar.brackets.Admits L) :=
  Grammar.brackets.admits_call L (0 : Fin 1)

end TextParsing
