import TextParsing.Proofs.Notes
import TextParsing.Proofs.Parser.Law

/-!
# What is visited, and where

A run visits parsers at cursors (`Parser.visits`). Two things are known of every visit.

* The visited parser is a part of the parser that is run: it occurs in it, or in a parser
  that one of its continuations chooses. So what holds of all parts of a parser
  (`Parser.EveryPart`) holds of what it visits. What is known of all steps in a parser is
  known of all steps in each of its parts (`Parser.EveryStep.everyPart`).
* The cursor of the visit was reached by successes only. A failure leads nowhere: a choice
  goes on from its own cursor, and a repetition ends at the cursor before the failure. So
  what the successes of all parts lead on holds of all cursors that are visited.

Main statement: `Parser.of_mem_visits`, which says both.
-/

namespace TextParsing

/-! ### Going on -/

namespace Run

universe w

variable {ν α : Type} {γ : Type w}

theorem forall_mem_onSuccess {r : Run ν α} {k : α → Cursor → List γ} {P : γ → Prop} :
    (∀ x ∈ r.onSuccess k, P x) ↔
      ∀ v d, r.result = .ok (.success v d) → ∀ x ∈ k v d, P x := by
  rcases r with ⟨a | (⟨v, d⟩ | f), ns⟩ <;> simp [onSuccess]

theorem forall_mem_onFailure {r : Run ν α} {e : Failure → List γ} {P : γ → Prop} :
    (∀ x ∈ r.onFailure e, P x) ↔ ∀ f, r.result = .ok (.failure f) → ∀ x ∈ e f, P x := by
  rcases r with ⟨a | (⟨v, d⟩ | f), ns⟩ <;> simp [onFailure]

/-- The attempts of a repetition are at cursors that the successes of its step lead to. -/
theorem of_mem_attempts {step : Cursor → Run ν α} {I : Cursor → Prop}
    (hstep : ∀ c, I c → ∀ v d, (step c).result = .ok (.success v d) → I d) (limit : Nat)
    {c : Cursor} (hc : I c) : ∀ d ∈ attempts step limit c, I d := by
  induction limit generalizing c with
  | zero => exact List.forall_mem_nil I
  | succ limit ih =>
    rw [attempts, List.forall_mem_cons, forall_mem_onSuccess]
    refine ⟨hc, fun v d hv => ?_⟩
    split
    · exact List.forall_mem_nil I
    · exact ih (hstep c hc v d hv)

end Run

variable {S : Signature} {α β : Type}

namespace Parser

/-! ### Parts -/

/-- The parser satisfies `P`, and so do all parsers that occur in it, also in those that
    its continuations may choose. -/
def EveryPart (P : (α : Type) → Parser S α → Prop) : {α : Type} → Parser S α → Prop
  | _, primitive p => P _ (primitive p)
  | _, bind p k => P _ (bind p k) ∧ EveryPart P p ∧ ∀ v, EveryPart P (k v)
  | _, map p f => P _ (map p f) ∧ EveryPart P p
  | _, apply pf pa => P _ (apply pf pa) ∧ EveryPart P pf ∧ EveryPart P pa
  | _, orElse p q => P _ (orElse p q) ∧ EveryPart P p ∧ EveryPart P q
  | _, andThen p q => P _ (andThen p q) ∧ EveryPart P p ∧ EveryPart P q
  | _, thenSkip p q => P _ (thenSkip p q) ∧ EveryPart P p ∧ EveryPart P q
  | _, many p => P _ (many p) ∧ EveryPart P p
  | _, many1 p => P _ (many1 p) ∧ EveryPart P p
  | _, inspect p tag view => P _ (inspect p tag view) ∧ EveryPart P p
  | _, tell tag seen p => P _ (tell tag seen p) ∧ EveryPart P p
  | _, custom description step => P _ (custom description step)

variable {P : (α : Type) → Parser S α → Prop}

theorem EveryPart.self {p : Parser S α} (h : p.EveryPart P) : P α p := by
  cases p with
  | primitive p => exact h
  | custom description step => exact h
  | _ => exact h.1

theorem EveryStep.everyPart {Q : (α : Type) → Step S α → Prop} {p : Parser S α}
    (h : p.EveryStep Q) : p.EveryPart fun _ q => q.EveryStep Q := by
  induction p with
  | primitive p => exact h
  | bind p k ihp ihk => exact ⟨h, ihp h.1, fun v => ihk v (h.2 v)⟩
  | map p f ih => exact ⟨h, ih h⟩
  | apply pf pa ihf iha => exact ⟨h, ihf h.1, iha h.2⟩
  | orElse p q ihp ihq => exact ⟨h, ihp h.1, ihq h.2⟩
  | andThen p q ihp ihq => exact ⟨h, ihp h.1, ihq h.2⟩
  | thenSkip p q ihp ihq => exact ⟨h, ihp h.1, ihq h.2⟩
  | many p ih => exact ⟨h, ih h⟩
  | many1 p ih => exact ⟨h, ih h⟩
  | inspect p tag view ih => exact ⟨h, ih h⟩
  | tell tag seen p ih => exact ⟨h, ih h⟩
  | custom description step => exact h

/-! ### Visits -/

/-- What is run is visited. -/
theorem mem_visits_self (ctx : Context S) (p : Parser S α) (c : Cursor) :
    ⟨α, p, c⟩ ∈ p.visits ctx c := by
  cases p <;> simp [visits]

/-- A visited parser is one of the parts, and is visited at a cursor that the successes of
    the parts lead to. -/
theorem of_mem_visits {ctx : Context S} {I : Cursor → Prop}
    (hP : ∀ (α : Type) (q : Parser S α), P α q →
      ∀ c, I c → ∀ v d, (q.run ctx c).result = .ok (.success v d) → I d)
    {p : Parser S α} (hp : p.EveryPart P) {c : Cursor} (hc : I c) :
    ∀ v ∈ p.visits ctx c, P v.Value v.parser ∧ I v.cursor := by
  -- What is visited are the first part, what it goes on with, and the parser itself.
  induction p generalizing c with
  | primitive p => exact List.forall_mem_singleton.2 ⟨hp, hc⟩
  | bind p k ihp ihk =>
    rw [visits, List.forall_mem_append, List.forall_mem_append, List.forall_mem_singleton,
      Run.forall_mem_onSuccess]
    refine ⟨⟨ihp hp.2.1 hc, fun v d hv => ?_⟩, hp.1, hc⟩
    exact ihk v (hp.2.2 v) (hP _ p hp.2.1.self c hc v d hv)
  | map p f ih =>
    rw [visits, List.forall_mem_append, List.forall_mem_singleton]
    exact ⟨ih hp.2 hc, hp.1, hc⟩
  | apply pf pa ihf iha =>
    rw [visits, List.forall_mem_append, List.forall_mem_append, List.forall_mem_singleton,
      Run.forall_mem_onSuccess]
    refine ⟨⟨ihf hp.2.1 hc, fun f d hf => ?_⟩, hp.1, hc⟩
    exact iha hp.2.2 (hP _ pf hp.2.1.self c hc f d hf)
  | orElse p q ihp ihq =>
    -- The second parser is visited at `c` again.
    rw [visits, List.forall_mem_append, List.forall_mem_append, List.forall_mem_singleton,
      Run.forall_mem_onFailure]
    exact ⟨⟨ihp hp.2.1 hc, fun _ _ => ihq hp.2.2 hc⟩, hp.1, hc⟩
  | andThen p q ihp ihq =>
    rw [visits, List.forall_mem_append, List.forall_mem_append, List.forall_mem_singleton,
      Run.forall_mem_onSuccess]
    refine ⟨⟨ihp hp.2.1 hc, fun v d hv => ?_⟩, hp.1, hc⟩
    exact ihq hp.2.2 (hP _ p hp.2.1.self c hc v d hv)
  | thenSkip p q ihp ihq =>
    rw [visits, List.forall_mem_append, List.forall_mem_append, List.forall_mem_singleton,
      Run.forall_mem_onSuccess]
    refine ⟨⟨ihp hp.2.1 hc, fun v d hv => ?_⟩, hp.1, hc⟩
    exact ihq hp.2.2 (hP _ p hp.2.1.self c hc v d hv)
  | many p ih =>
    rw [visits, List.forall_mem_append, List.forall_mem_singleton, List.forall_mem_flatMap]
    refine ⟨fun d hd => ?_, hp.1, hc⟩
    exact ih hp.2 (Run.of_mem_attempts (hP _ p hp.2.self) ctx.limit hc d hd)
  | many1 p ih =>
    rw [visits, List.forall_mem_append, List.forall_mem_singleton, List.forall_mem_flatMap]
    refine ⟨fun d hd => ?_, hp.1, hc⟩
    exact ih hp.2 (Run.of_mem_attempts (hP _ p hp.2.self) ctx.limit hc d hd)
  | inspect p tag view ih =>
    rw [visits, List.forall_mem_append, List.forall_mem_singleton]
    exact ⟨ih hp.2 hc, hp.1, hc⟩
  | tell tag seen p ih =>
    rw [visits, List.forall_mem_cons]
    exact ⟨⟨hp.1, hc⟩, ih hp.2 hc⟩
  | custom description step => exact List.forall_mem_singleton.2 ⟨hp, hc⟩

theorem EveryPart.of_mem_visits {p : Parser S α} (hp : p.EveryPart P) {ctx : Context S}
    {c : Cursor} : ∀ v ∈ p.visits ctx c, P v.Value v.parser := by
  intro v hv
  exact (Parser.of_mem_visits (I := fun _ => True) (fun _ _ _ _ _ _ _ _ => trivial) hp trivial
    v hv).1

end Parser

end TextParsing
