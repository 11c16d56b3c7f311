import TextParsing.Proofs.Notes
import TextParsing.Proofs.Parser.Law
import TextParsing.Proofs.Run

/-!
# Choices in any bracketing

Alternatives are put together two at a time, so that a choice of several is a tree
(`Choice`). Its shape does not matter, only the order of the alternatives in it. They are
run one after another, each from the cursor of the choice, until one of them does not fail;
if all fail, the failure is that of the last one. This is so at all depths, although the
failure of an inner choice may have a cursor of its own, far beyond the start.

Main statement: `Choice.run_alternatives`. It says which alternatives are run, what the run
comes to, and which notes it makes.
-/

namespace TextParsing

variable {S : Signature} {α : Type}

/-! ### Two alternatives -/

namespace Run

universe w

variable {ν : Type} {γ : Type w} {r : Run ν α}

theorem onFailure_of_failure {f : Failure} (h : r.result = .ok (.failure f))
    (e : Failure → List γ) : r.onFailure e = e f := by
  rw [onFailure, h]

theorem onFailure_of_not_fails (h : ¬ r.Fails) (e : Failure → List γ) : r.onFailure e = [] := by
  rcases r with ⟨a | (⟨v, d⟩ | f), ns⟩
  · rfl
  · rfl
  · exact absurd ⟨f, rfl⟩ h

end Run

namespace Parser

variable {ctx : Context S} {p : Parser S α} {c : Cursor} (q : Parser S α)

/-- After a failure, the second parser is run at `c` again. -/
theorem run_orElse_of_fails (h : (p.run ctx c).Fails) :
    (orElse p q).run ctx c = (q.run ctx c).after (p.run ctx c).notes := by
  obtain ⟨f, hf⟩ := h
  exact Run.elim_of_failure _ _ hf

theorem run_orElse_of_not_fails (h : ¬ (p.run ctx c).Fails) :
    (orElse p q).run ctx c = p.run ctx c :=
  Run.orElse_of_not_fails _ h

theorem visits_orElse_of_fails (h : (p.run ctx c).Fails) : (orElse p q).visits ctx c =
    p.visits ctx c ++ q.visits ctx c ++ [⟨α, orElse p q, c⟩] := by
  obtain ⟨f, hf⟩ := h
  rw [visits, Run.onFailure_of_failure hf]

theorem visits_orElse_of_not_fails (h : ¬ (p.run ctx c).Fails) :
    (orElse p q).visits ctx c = p.visits ctx c ++ [⟨α, orElse p q, c⟩] := by
  rw [visits, Run.onFailure_of_not_fails h, List.append_nil]

end Parser

/-! ### Several alternatives -/

/-- Alternatives in order, put together two at a time. -/
inductive Choice (S : Signature) (α : Type) : Type 1 where
  /-- There is one alternative. -/
  | only (p : Parser S α)
  /-- The alternatives of one choice, then those of another. -/
  | either (first second : Choice S α)

namespace Choice

/-- The choice as a parser. -/
def parser : Choice S α → Parser S α
  | only p => p
  | either first second => .orElse first.parser second.parser

/-- The alternatives, in order. -/
def alternatives : Choice S α → List (Parser S α)
  | only p => [p]
  | either first second => first.alternatives ++ second.alternatives

/-- The choices between two that occur in the choice, inner ones first. -/
def branchings : Choice S α → List (Choice S α)
  | only _ => []
  | either first second => first.branchings ++ second.branchings ++ [either first second]

/-- What is passed on the way through a choice at `c`: an alternative, with all that it
    visits, or the end of a branching. -/
def passed (ctx : Context S) (c : Cursor) : Parser S α ⊕ Choice S α → List (Visit S)
  | .inl p => p.visits ctx c
  | .inr t => [⟨α, t.parser, c⟩]

/-- At `c`, the choice tries the alternatives `ps` in vain, and ends with `q`. -/
structure EndsWith (ctx : Context S) (c : Cursor) (t : Choice S α) (ps : List (Parser S α))
    (q : Parser S α) : Prop where
  fails : ∀ p ∈ ps, (p.run ctx c).Fails
  /-- The run is that of `q`, after the notes of the others. -/
  run : t.parser.run ctx c = (q.run ctx c).after (ps.flatMap fun p => (p.run ctx c).notes)
  /-- Apart from branchings, the run visits what these alternatives visit at `c`, in this
      order and each of them once. -/
  visits : ∃ trail : List (Parser S α ⊕ Choice S α),
    t.parser.visits ctx c = trail.flatMap (passed ctx c) ∧
    trail.filterMap Sum.getLeft? = ps ++ [q] ∧
    (trail.filterMap Sum.getRight?).Sublist t.branchings

namespace EndsWith

variable {ctx : Context S} {c : Cursor} {t t' : Choice S α} {ps qs : List (Parser S α)}
  {p q : Parser S α}

theorem only (ctx : Context S) (c : Cursor) (p : Parser S α) :
    EndsWith ctx c (.only p) [] p where
  fails := List.forall_mem_nil _
  run := rfl
  visits := ⟨[.inl p], (List.flatMap_singleton ..).symm, rfl, .slnil⟩

theorem fails_iff (h : EndsWith ctx c t ps p) :
    (t.parser.run ctx c).Fails ↔ (p.run ctx c).Fails := by
  rw [h.run]
  exact Iff.rfl

/-- If the first choice ends with an alternative that fails, the second one goes on, from `c`
    again. -/
theorem second (h : EndsWith ctx c t ps p) (hp : (p.run ctx c).Fails)
    (h' : EndsWith ctx c t' qs q) : EndsWith ctx c (either t t') (ps ++ p :: qs) q where
  fails := by
    rw [List.forall_mem_append, List.forall_mem_cons]
    exact ⟨h.fails, hp, h'.fails⟩
  run := by
    rw [parser, Parser.run_orElse_of_fails _ (h.fails_iff.2 hp), h.run, h'.run, Run.after_after,
      List.flatMap_append, List.flatMap_cons, ← List.append_assoc]
    rfl
  visits := by
    obtain ⟨trail, htrail, htried, hbranchings⟩ := h.visits
    obtain ⟨trail', htrail', htried', hbranchings'⟩ := h'.visits
    refine ⟨trail ++ trail' ++ [.inr (either t t')], ?_, ?_, ?_⟩
    · rw [parser, Parser.visits_orElse_of_fails _ (h.fails_iff.2 hp), htrail, htrail',
        List.flatMap_append, List.flatMap_append, List.flatMap_singleton]
      rfl
    · rw [List.filterMap_append, List.filterMap_append, htried, htried']
      simp
    · rw [List.filterMap_append, List.filterMap_append]
      exact (hbranchings.append hbranchings').append (.refl [either t t'])

/-- If the first choice ends with an alternative that does not fail, the second one is left
    out. -/
theorem first (h : EndsWith ctx c t ps p) (hp : ¬ (p.run ctx c).Fails) (t' : Choice S α) :
    EndsWith ctx c (either t t') ps p where
  fails := h.fails
  run := by
    rw [parser, Parser.run_orElse_of_not_fails _ (mt h.fails_iff.1 hp), h.run]
  visits := by
    obtain ⟨trail, htrail, htried, hbranchings⟩ := h.visits
    refine ⟨trail ++ [.inr (either t t')], ?_, ?_, ?_⟩
    · rw [parser, Parser.visits_orElse_of_not_fails _ (mt h.fails_iff.1 hp), htrail,
        List.flatMap_append, List.flatMap_singleton]
      rfl
    · rw [List.filterMap_append, htried]
      simp
    · rw [List.filterMap_append]
      exact (hbranchings.trans (List.sublist_append_left ..)).append (.refl [either t t'])

end EndsWith

/-- In any bracketing, the alternatives are tried in order, each at `c` and at most once, up
    to the first one that does not fail, or to the last one. The run is that of this
    alternative, whatever the ones before it have read, after their notes. -/
theorem run_alternatives (t : Choice S α) (ctx : Context S) (c : Cursor) :
    ∃ ps q rs, t.alternatives = ps ++ q :: rs ∧ EndsWith ctx c t ps q ∧
      ((q.run ctx c).Fails → rs = []) := by
  induction t with
  | only p => exact ⟨[], p, [], rfl, .only ctx c p, fun _ => rfl⟩
  | either first second ih ih' =>
    obtain ⟨ps, p, rs, halternatives, hends, hlast⟩ := ih
    by_cases hp : (p.run ctx c).Fails
    · obtain rfl := hlast hp
      obtain ⟨qs, q, rs, halternatives', hends', hlast'⟩ := ih'
      refine ⟨ps ++ p :: qs, q, rs, ?_, hends.second hp hends', hlast'⟩
      rw [alternatives, halternatives, halternatives', List.append_assoc, List.append_assoc]
      rfl
    · refine ⟨ps, p, rs ++ second.alternatives, ?_, hends.first hp second, fun h => absurd h hp⟩
      rw [alternatives, halternatives, List.append_assoc]
      rfl

/-- Both alternatives of the inner choice read the number before they fail. -/
example :
    let before (x : Char) : Parser .brackets Int := .thenSkip (.unsigned .w8) (.char x)
    let t : Choice .brackets Int :=
      .either (.either (.only (before ',')) (.only (before '.'))) (.only (.unsigned .w8))
    (Grammar.brackets.run t.parser (.start ['7', ';'])).result =
      .ok (.success 7 ⟨['7', ';'], 1⟩) := rfl

end Choice

end TextParsing
