import TextParsing.Proofs.Parser.Law
import TextParsing.Proofs.Primitive
import TextParsing.Proofs.Run

/-!
# Parsers only move forward

Where a run ends, in success or in failure, it ends on the text it was started on,
between two units of it, and not before the place where it started.

The argument is about paths. A primitive reads a text, and the parts of a longer run
start where earlier parts ended, so the cursor of an outcome is related to the start
of the run by every relation between cursors that holds whenever a text is read, and
is transitive (`Cursor.IsPath`). Each such relation gives a law of parsers
(`Law.along`), and all these laws go through all parsers (`Law.along_compositional`).

Main statement: `Grammar.outcome_precedes`, for all parsers over all grammars,
however deep the rules nest and however long the repetitions go on.
-/

namespace TextParsing

variable {S : Signature}

/-! ### Paths -/

/-- A relation that holds between the cursors before and after a text is read, and
    from there on; and that leads to valid cursors only. -/
structure Cursor.IsPath (R : Cursor → Cursor → Prop) : Prop where
  reads {c d : Cursor} {w : Text} : c.Reads w d → R c d
  trans {c d e : Cursor} : R c d → R d e → R c e
  valid {c d : Cursor} : R c d → d.Valid

namespace Cursor

theorem IsPath.refl {R : Cursor → Cursor → Prop} (hR : IsPath R) {c : Cursor} (hc : c.Valid) :
    R c c :=
  hR.reads (.nil hc)

theorem isPath_precedes : IsPath Precedes := ⟨Reads.precedes, Precedes.trans, Precedes.valid⟩

theorem isPath_valid : IsPath fun _ d => d.Valid := ⟨Reads.valid, fun _ h => h, fun h => h⟩

end Cursor

/-- A primitive reads a text, also if it fails. -/
theorem Primitive.ensures_path {R : Cursor → Cursor → Prop} (hR : Cursor.IsPath R) {ν α : Type}
    (p : Primitive α) {c : Cursor} (hc : c.Valid) :
    (Run.ofChecked (p.run c) : Run ν α).Ensures fun o => R c o.cursor := by
  obtain ⟨u, r, rfl⟩ := Cursor.valid_iff.1 hc
  obtain ⟨verdict, w, v, rfl, hrun⟩ := p.run_settled r
  -- What is read is a start of the unread text, whatever the verdict is.
  rw [hrun]
  have hread := hR.reads (Cursor.Reads.past u w v)
  cases verdict <;> exact .outcome hread

namespace Law

/-- Whatever a parser comes to at a valid cursor, the relation leads from there to the
    cursor of the outcome. -/
def along (R : Cursor → Cursor → Prop) : Law S := fun _ f =>
  ∀ c : Cursor, c.Valid → (f c).Ensures fun o => R c o.cursor

variable {R : Cursor → Cursor → Prop}

section Repetition

variable (hR : Cursor.IsPath R) {α : Type} {step : Cursor → Run (Note S) α} (h : along R α step)

include hR h

/-- One more step, in front of a repetition that follows the relation. -/
theorem along_cons (c : Cursor) (hc : c.Valid) (v : α) (d : Cursor)
    (hv : (step c).result = .ok (.success v d)) :
    d.Valid ∧ ∀ (_ : List α) (e : Cursor), R d e → R c e := by
  have hcd : R c d := h c hc _ hv
  exact ⟨hR.valid hcd, fun _ _ hde => hR.trans hcd hde⟩

theorem along_repeatFrom (limit : Nat) : along R (List α) (Run.repeatFrom step limit) := by
  intro c hc
  exact .repeatFrom (fun _ => hR.refl) (along_cons hR h) limit hc fun _ _ he => he

theorem along_repeatFrom1 (limit : Nat) : along R (List α) (Run.repeatFrom1 step limit) := by
  intro c hc
  exact .repeatFrom1 (fun _ => hR.refl) (along_cons hR h) limit hc (fun _ _ he => he)
    fun _ hf => h c hc _ hf

end Repetition

theorem along_compositional (hR : Cursor.IsPath R) : (along R : Law S).Compositional where
  unfinished _ _ _ := .unfinished _
  run ctx α p hp := by
    induction p with
    | primitive p => exact fun c hc => p.ensures_path hR hc
    | bind p k ihp ihk =>
      intro c hc
      refine (ihp hp.1 c hc).andThen (fun v d h => ?_) fun _ h => h
      exact (ihk v (hp.2 v) d (hR.valid h)).mono fun _ => hR.trans h
    | map p f ih =>
      intro c hc
      exact (ih hp c hc).map (fun _ _ h => h) fun _ h => h
    | apply pf pa ihf iha =>
      intro c hc
      refine (ihf hp.1 c hc).andThen (fun f d h => ?_) fun _ h => h
      exact (iha hp.2 d (hR.valid h)).andThen (fun _ _ h' => .success (hR.trans h h'))
        fun _ => hR.trans h
    | orElse p q ihp ihq =>
      -- The second parser starts from `c` again, wherever the first one got.
      intro c hc
      exact (ihp hp.1 c hc).orElse (fun _ _ h => h) fun _ _ => ihq hp.2 c hc
    | andThen p q ihp ihq =>
      intro c hc
      refine (ihp hp.1 c hc).andThen (fun v d h => ?_) fun _ h => h
      exact (ihq hp.2 d (hR.valid h)).mono fun _ => hR.trans h
    | thenSkip p q ihp ihq =>
      intro c hc
      refine (ihp hp.1 c hc).andThen (fun v d h => ?_) fun _ h => h
      exact (ihq hp.2 d (hR.valid h)).andThen (fun _ _ h' => .success (hR.trans h h'))
        fun _ => hR.trans h
    | many p ih => exact along_repeatFrom hR (ih hp) ctx.limit
    | many1 p ih => exact along_repeatFrom1 hR (ih hp) ctx.limit
    | inspect p tag view ih =>
      intro c hc
      exact (ih hp c hc).andThen (fun v d h => .after _ (.success h)) fun _ h => h
    | tell tag seen p ih => exact fun c hc => .after _ (ih hp c hc)
    | custom description step => exact hp

end Law

/-! ### Outcomes lie ahead -/

/-- A run that comes to an outcome, in success or in failure, ends on the text it was
    started on, at a boundary that is not past the end, and not before its start. Of
    the caller's steps it is asked that they do so too, as far as the rules do that
    they run. -/
theorem Grammar.outcome_precedes (g : Grammar S) (hg : g.Keeps (Law.along Cursor.Precedes))
    {α : Type} (p : Parser S α) (hp : p.EveryStep (g.Admits (Law.along Cursor.Precedes)))
    (limit depth : Nat) (c : Cursor) (hc : c.Valid) (o : Outcome α)
    (ho : (p.run (g.bounded limit depth) c).result = .ok o) :
    o.cursor.source = c.source ∧ o.cursor.source.IsBoundary o.cursor.position ∧
      o.cursor.position ≤ c.source.byteLength ∧ c.position ≤ o.cursor.position := by
  have hlaw := Law.along_compositional (S := S) Cursor.isPath_precedes
  have h := hlaw.run_bounded hg hp limit depth c hc o ho
  have hle := h.valid.le
  rw [h.source] at hle
  exact ⟨h.source, h.valid, hle, h.le⟩

/-- Two brackets deep, in the middle of a text whose first unit takes two bytes. -/
theorem Grammar.outcome_precedes_brackets :
    let c : Cursor := ⟨['é', '(', '(', '1', '2', ')', ')', 'é'], 2⟩
    let d : Cursor := ⟨['é', '(', '(', '1', '2', ')', ')', 'é'], 8⟩
    (brackets.run Parser.bracketed.many c).result = .ok (.success [['1', '2']] d) ∧
      d.source = c.source ∧ d.source.IsBoundary d.position ∧
      d.position ≤ c.source.byteLength ∧ c.position ≤ d.position :=
  ⟨rfl, brackets.outcome_precedes (brackets_keeps _) Parser.bracketed.many
    (Parser.bracketed_everyStep _) 9 9 ⟨_, 2⟩ (by decide) (.success [['1', '2']] ⟨_, 8⟩) rfl⟩

end TextParsing
