import TextParsing.Proofs.Forward
import TextParsing.Proofs.Visits

/-!
# Where failures come from

A failure is made by a leaf of a parser: by a primitive, or by a step of the caller's own.
Everything else hands failures on. A sequence fails like the first of its parts that
fails, a choice like its second parser, a repetition only if it has to succeed once, and
then like its first attempt. On the way neither the label nor the cursor of a failure is
changed, and none is made up.

So a failed run has visited a leaf that fails in the same way if it is run by itself, at
the cursor of the visit (`Parser.ensures_blamed`). As the visits of a run lie ahead of its
start, so does the place where the leaf was run. And if there is no leaf in a parser that
can fail, the parser does not fail.

Main statement: `Grammar.exists_leaf_of_failure`.
-/

namespace TextParsing

variable {S : Signature} {α β : Type}

/-! ### Leaves -/

namespace Primitive

/-- The primitive does not take whatever text there is: it may fail. -/
def CanFail : {α : Type} → Primitive α → Bool
  | _, satisfy _ _ => true
  | _, satisfyWith _ _ _ => true
  | _, skip _ _ => true
  | _, anyChar => true
  | _, take _ _ => true
  | _, takeWith _ _ _ _ => true
  | _, literal _ => true
  | _, takeWhile _ => false
  | _, takeWhile1 _ => true
  | _, takeText => false
  | _, runScanner _ _ _ => false
  | _, scan _ _ _ => false
  | _, unsigned _ => true
  | _, signed _ => true
  | _, double => true
  | _, succeed _ _ => false
  | _, fail _ => true

theorem canFail_of_run {p : Primitive α} {c : Cursor} {f : Failure}
    (h : p.run c = .ok (.failure f)) : p.CanFail = true := by
  cases p with
  | takeWhile test =>
    obtain ⟨d, -, h⟩ := Checked.bind_eq_ok h
    obtain ⟨t, -, h⟩ := Checked.bind_eq_ok h
    exact nomatch Except.ok.inj h
  | takeText =>
    obtain ⟨t, -, h⟩ := Checked.bind_eq_ok h
    obtain ⟨d, -, h⟩ := Checked.bind_eq_ok h
    exact nomatch Except.ok.inj h
  | runScanner initial step written =>
    obtain ⟨⟨t, s, d⟩, -, h⟩ := Checked.bind_eq_ok h
    exact nomatch Except.ok.inj h
  | scan initial step written =>
    obtain ⟨⟨t, s, d⟩, -, h⟩ := Checked.bind_eq_ok h
    exact nomatch Except.ok.inj h
  | succeed value written => exact nomatch Except.ok.inj h
  | _ => rfl

end Primitive

/-- The parser makes failures of its own: it is a primitive that can fail, or a step of
    the caller's. -/
def Parser.CanFailItself : Parser S α → Prop
  | .primitive p => p.CanFail = true
  | .custom _ _ => True
  | _ => False

/-- A failure is that of one of the visits: of a leaf that fails so at the cursor of the
    visit. -/
def Outcome.BlamedOn (ctx : Context S) (vs : List (Visit S)) : Outcome α → Prop
  | success _ _ => True
  | failure f => ∃ v ∈ vs,
      v.parser.CanFailItself ∧ (v.parser.run ctx v.cursor).result = .ok (.failure f)

theorem Outcome.BlamedOn.mono {ctx : Context S} {vs ws : List (Visit S)} (h : vs ⊆ ws)
    {o : Outcome α} (ho : o.BlamedOn ctx vs) : o.BlamedOn ctx ws := by
  cases o with
  | success v d => trivial
  | failure f =>
    obtain ⟨v, hv, hleaf⟩ := ho
    exact ⟨v, h hv, hleaf⟩

/-! ### Handing failures on -/

namespace Run

open Outcome (BlamedOn)

variable {ctx : Context S} {r : Run (Note S) α} {vs : List (Visit S)} (self : Visit S)

theorem Ensures.blamed_concat (h : r.Ensures (BlamedOn ctx vs)) :
    r.Ensures (BlamedOn ctx (vs ++ [self])) :=
  h.mono fun _ ho => ho.mono (List.subset_append_left vs [self])

theorem Ensures.blamed_map (h : r.Ensures (BlamedOn ctx vs)) (f : α → β) :
    (r.map f).Ensures (BlamedOn ctx vs) :=
  h.map (fun _ _ _ => trivial) fun _ hf => hf

/-- A sequence fails like its first part, or like what it goes on with. -/
theorem Ensures.blamed_andThen {k : α → Cursor → Run (Note S) β}
    {ws : α → Cursor → List (Visit S)} (h : r.Ensures (BlamedOn ctx vs))
    (hk : ∀ v d, (k v d).Ensures (BlamedOn ctx (ws v d))) :
    (r.andThen k).Ensures (BlamedOn ctx (vs ++ r.onSuccess ws ++ [self])) := by
  refine .blamed_concat self (r.ensures_result.andThen (fun v d hv => ?_) fun f hf => ?_)
  · refine (hk v d).mono fun o ho => ho.mono ?_
    rw [onSuccess, hv]
    exact List.subset_append_right vs (ws v d)
  · exact (h _ hf).mono (o := .failure f) (List.subset_append_left vs _)

/-- A choice fails like its second part. -/
theorem Ensures.blamed_orElse {e : Failure → Run (Note S) α} {ws : Failure → List (Visit S)}
    (he : ∀ f, (e f).Ensures (BlamedOn ctx (ws f))) :
    (r.orElse e).Ensures (BlamedOn ctx (vs ++ r.onFailure ws ++ [self])) := by
  refine .blamed_concat self (r.ensures_result.orElse (fun _ _ _ => trivial) fun f hf => ?_)
  refine (he f).mono fun o ho => ho.mono ?_
  rw [onFailure, hf]
  exact List.subset_append_right vs (ws f)

/-- A repetition that has to succeed once fails like its first attempt. -/
theorem ensures_blamed_repeatFrom1 {step : Cursor → Run (Note S) α}
    {visits : Cursor → List (Visit S)}
    (h : ∀ c, (step c).Ensures (BlamedOn ctx (visits c))) (limit : Nat) (c : Cursor) :
    (repeatFrom1 step limit c).Ensures
      (BlamedOn ctx ((attempts step limit c).flatMap visits ++ [self])) := by
  cases limit with
  | zero => exact .unfinished _
  | succ limit =>
    have hfirst : visits c ⊆ (attempts step (limit + 1) c).flatMap visits := by
      rw [attempts, List.flatMap_cons]
      exact List.subset_append_left _ _
    refine .blamed_concat self (.repeatFrom1 (I := fun _ => True) (R := fun _ _ _ => True)
      (fun _ _ => trivial) (fun _ _ _ _ _ => ⟨trivial, fun _ _ _ => trivial⟩) (limit + 1) trivial
      (fun _ _ _ => trivial) fun f hf => ?_)
    exact (h c _ hf).mono (o := .failure f) hfirst

end Run

namespace Parser

/-- If a run fails, one of its visits is of a leaf that fails in the same way. -/
theorem ensures_blamed (ctx : Context S) (p : Parser S α) (c : Cursor) :
    (p.run ctx c).Ensures (Outcome.BlamedOn ctx (p.visits ctx c)) := by
  induction p generalizing c with
  | primitive p =>
    intro o ho
    cases o with
    | success v d => trivial
    | failure f =>
      have hrun : p.run c = .ok (.failure f) := Run.result_ofChecked_eq_ok_iff.1 ho
      exact ⟨_, List.mem_singleton_self _, Primitive.canFail_of_run hrun, ho⟩
  | bind p k ihp ihk => exact (ihp c).blamed_andThen _ ihk
  | map p f ih => exact .blamed_concat _ ((ih c).blamed_map f)
  | apply pf pa ihf iha => exact (ihf c).blamed_andThen _ fun f d => (iha d).blamed_map f
  | orElse p q ihp ihq => exact .blamed_orElse _ fun _ => ihq c
  | andThen p q ihp ihq => exact (ihp c).blamed_andThen _ fun _ => ihq
  | thenSkip p q ihp ihq =>
    exact (ihp c).blamed_andThen _ fun v d => (ihq d).blamed_map fun _ => v
  | many p ih =>
    exact .repeatFrom (I := fun _ => True) (R := fun _ _ _ => True) (fun _ _ => trivial)
      (fun _ _ _ _ _ => ⟨trivial, fun _ _ _ => trivial⟩) ctx.limit trivial fun _ _ _ => trivial
  | many1 p ih => exact Run.ensures_blamed_repeatFrom1 _ ih ctx.limit c
  | inspect p tag view ih =>
    refine .blamed_concat _ ((ih c).andThen (fun _ _ _ => ?_) fun _ hf => hf)
    exact .after _ (.success trivial)
  | tell tag seen p ih =>
    exact .after _ ((ih c).mono fun o ho => ho.mono (List.subset_cons_self _ _))
  | custom description step =>
    intro o ho
    cases o with
    | success v d => trivial
    | failure f => exact ⟨_, List.mem_singleton_self _, trivial, ho⟩

end Parser

/-! ### Over a grammar -/

/-- If a run fails, it has visited a leaf that fails in the same way, with the same label and
    at the same cursor, when it is run by itself at the cursor of the visit, which is not
    before the start of the run. Of the caller's steps it is asked that they do not go back
    either, as far as the rules do not that they run.

    And a parser without leaves that can fail does not fail. -/
theorem Grammar.exists_leaf_of_failure (g : Grammar S) (hg : g.Keeps (Law.along Cursor.Precedes))
    (p : Parser S α) (hp : p.EveryStep (g.Admits (Law.along Cursor.Precedes)))
    (limit depth : Nat) (c : Cursor) (hc : c.Valid) :
    let ctx := g.bounded limit depth
    (∀ f, (p.run ctx c).result = .ok (.failure f) →
      ∃ leaf ∈ p.visits ctx c, leaf.parser.CanFailItself ∧ c.Precedes leaf.cursor ∧
        (leaf.parser.run ctx leaf.cursor).result = .ok (.failure f)) ∧
    (p.EveryPart (fun _ q => ¬q.CanFailItself) →
      ∀ f, (p.run ctx c).result ≠ .ok (.failure f)) := by
  intro ctx
  have hblame f (hf : (p.run ctx c).result = .ok (.failure f)) := p.ensures_blamed ctx c _ hf
  refine ⟨fun f hf => ?_, fun hnone f hf => ?_⟩
  · obtain ⟨leaf, hmem, hleaf, hfails⟩ := hblame f hf
    have hlaw := Law.along_compositional (S := S) Cursor.isPath_precedes
    have hahead : c.Precedes leaf.cursor := by
      refine (Parser.of_mem_visits (I := c.Precedes) ?_ hp.everyPart (.refl hc) leaf hmem).2
      intro β q hq d hd v e he
      exact hd.trans (hlaw.run_bounded hg hq limit depth d hd.valid _ he)
    exact ⟨leaf, hmem, hleaf, hahead, hfails⟩
  · obtain ⟨leaf, hmem, hleaf, -⟩ := hblame f hf
    exact hnone.of_mem_visits leaf hmem hleaf

/-- The closing mark is a parser that was chosen for the opening one, and it is this parser
    that fails, six bytes on. Of the second parser no leaf can fail. -/
theorem Grammar.exists_leaf_of_failure_brackets :
    let p : Parser .brackets Text :=
      .andThen (.many (.char 'é')) (.bind .anyChar fun x => .thenSkip .bracketed (.char x))
    let q : Parser .brackets (List Text) := .many (.takeWhile Text.isDigit)
    let c : Cursor := .start ['é', '|', '(', '1', ')', '!']
    let ctx := brackets.bounded 7 7
    let f : Failure := .of "char" ⟨c.source, 6⟩
    (p.run ctx c).result = .ok (.failure f) ∧
      (∃ leaf ∈ p.visits ctx c, leaf.parser.CanFailItself ∧ c.Precedes leaf.cursor ∧
        (leaf.parser.run ctx leaf.cursor).result = .ok (.failure f)) ∧
      ∀ f, (q.run ctx c).result ≠ .ok (.failure f) := by
  intro p q c ctx f
  have hf : (p.run ctx c).result = .ok (.failure f) := rfl
  have hp : p.EveryStep (brackets.Admits (Law.along Cursor.Precedes)) :=
    ⟨trivial, trivial, fun _ => ⟨Parser.bracketed_everyStep _, trivial⟩⟩
  have hq : q.EveryPart fun _ r => ¬r.CanFailItself := ⟨id, Bool.false_ne_true⟩
  have hc : c.Valid := by decide
  exact ⟨hf, (brackets.exists_leaf_of_failure (brackets_keeps _) p hp 7 7 c hc).1 f hf,
    (brackets.exists_leaf_of_failure (brackets_keeps _) q trivial 7 7 c hc).2 hq⟩

end TextParsing
