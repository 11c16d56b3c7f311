import TextParsing.Proofs.Forward
import TextParsing.Proofs.Visits

/-!
# There are no faults

Parsers cut texts at byte offsets, and send cursors to byte offsets. These operations have
no answer for an offset inside a unit or past the end, nor for two offsets that are out of
order: they come to a fault, and with them the whole run, as nothing goes on after a fault.
The offsets are computed in many ways, from units and from bytes. None of them is ever
wrong: a run that starts at a valid cursor does not come to a fault.

What carries this through a run is that all cursors on the way are valid, so a run is *safe*
if it comes to no fault, and if the cursor of its outcome is valid (`Run.Safe`, `Law.safe`).
It is not needed that cursors move forward, or stay on one text. Steps of the caller's own
may go back, or go on in another text, as long as they stop between two units of it.

Main statement: `Grammar.run_bounded_faultless`.
-/

namespace TextParsing

variable {S : Signature} {ν α β : Type}

/-! ### Safe runs -/

namespace Run

/-- The run does not come to a fault; and if it comes to an outcome, `Q` holds of it. -/
structure Safe (r : Run ν α) (Q : Outcome α → Prop) : Prop where
  faultless : ∀ e, r.result ≠ .error (.fault e)
  ensures : r.Ensures Q

namespace Safe

variable {P Q : Outcome α → Prop} {r : Run ν α}

theorem outcome {o : Outcome α} (h : Q o) : (ofChecked (.ok o) : Run ν α).Safe Q :=
  ⟨fun _ he => (nomatch he), .outcome h⟩

theorem success {v : α} {c : Cursor} (h : Q (.success v c)) : (Run.success v c : Run ν α).Safe Q :=
  outcome h

theorem failure {f : Failure} (h : Q (.failure f)) : (Run.failure f : Run ν α).Safe Q :=
  outcome h

theorem unfinished (Q : Outcome α → Prop) : (Run.unfinished : Run ν α).Safe Q :=
  ⟨fun _ he => (nomatch he), .unfinished Q⟩

theorem after (ns : List ν) (h : r.Safe Q) : (r.after ns).Safe Q := ⟨h.faultless, h.ensures⟩

/-- How a run goes on matters only if it comes to an outcome; and a fault would stay. -/
theorem elim {R : Outcome β → Prop} {k : α → Cursor → Run ν β} {e : Failure → Run ν β}
    (h : r.Safe P) (hk : ∀ v c, P (.success v c) → (k v c).Safe R)
    (he : ∀ f, P (.failure f) → (e f).Safe R) : (r.elim k e).Safe R := by
  obtain ⟨hfault, hensures⟩ := h
  rcases r with ⟨a | (⟨v, c⟩ | f), ns⟩
  · refine ⟨fun fault ha => hfault fault ?_, fun _ ho => nomatch ho⟩
    rw [Except.error.inj ha]
  · exact (hk v c (hensures _ rfl)).after ns
  · exact (he f (hensures _ rfl)).after ns

theorem andThen {R : Outcome β → Prop} {k : α → Cursor → Run ν β} (h : r.Safe P)
    (hk : ∀ v c, P (.success v c) → (k v c).Safe R)
    (hf : ∀ f, P (.failure f) → R (.failure f)) : (r.andThen k).Safe R :=
  h.elim hk fun f hP => .failure (hf f hP)

theorem map {R : Outcome β → Prop} {f : α → β} (h : r.Safe P)
    (hs : ∀ v c, P (.success v c) → R (.success (f v) c))
    (hf : ∀ f, P (.failure f) → R (.failure f)) : (r.map f).Safe R :=
  h.andThen (fun v c hP => .success (hs v c hP)) hf

/-! ### Repetition -/

section Repetition

variable {I : Cursor → Prop} {step : Cursor → Run ν α}
  (h : ∀ c, I c → (step c).Safe fun o => I o.cursor)

/-- How a repetition goes on after a success of its step. -/
theorem goOn {limit : Nat} {c d : Cursor} (v : α) (hd : I d)
    (hrest : (Run.repeatFrom step limit d).Safe fun o => I o.cursor) :
    (if d = c then Run.success [v] d
      else (Run.repeatFrom step limit d).map (v :: ·)).Safe fun o => I o.cursor := by
  split
  · exact .success hd
  · exact hrest.map (fun _ _ he => he) fun _ hf => hf

include h

theorem repeatFrom (limit : Nat) {c : Cursor} (hc : I c) :
    (Run.repeatFrom step limit c).Safe fun o => I o.cursor := by
  induction limit generalizing c with
  | zero => exact .unfinished _
  | succ limit ih =>
    rw [Run.repeatFrom]
    exact (h c hc).elim (fun v d hd => .goOn v hd (ih hd)) fun _ _ => .success hc

theorem repeatFrom1 (limit : Nat) {c : Cursor} (hc : I c) :
    (Run.repeatFrom1 step limit c).Safe fun o => I o.cursor := by
  cases limit with
  | zero => exact .unfinished _
  | succ limit =>
    rw [Run.repeatFrom1]
    exact (h c hc).andThen (fun v d hd => .goOn v hd (repeatFrom h limit hd)) fun _ hf => hf

end Repetition

end Safe

end Run

/-! ### The law -/

/-- At a valid cursor a primitive has an answer: each of its offsets is a boundary. -/
theorem Primitive.safe_run (p : Primitive α) {c : Cursor} (hc : c.Valid) :
    (Run.ofChecked (p.run c) : Run ν α).Safe fun o => o.cursor.Valid := by
  refine ⟨fun e he => ?_, p.ensures_path Cursor.isPath_valid hc⟩
  obtain ⟨u, r, rfl⟩ := Cursor.valid_iff.1 hc
  obtain ⟨verdict, w, v, -, hrun⟩ := p.run_settled r
  rw [hrun] at he
  exact nomatch he

namespace Law

/-- At a valid cursor a parser does not come to a fault, and the cursor of its outcome is
    valid, in the text that it has. -/
def safe : Law S := fun _ f => ∀ c : Cursor, c.Valid → (f c).Safe fun o => o.cursor.Valid

theorem safe_compositional : (safe : Law S).Compositional where
  unfinished _ _ _ := .unfinished _
  run ctx α p hp := by
    induction p with
    | primitive p => exact fun c hc => p.safe_run hc
    | bind p k ihp ihk =>
      intro c hc
      exact (ihp hp.1 c hc).andThen (fun v d hd => ihk v (hp.2 v) d hd) fun _ hf => hf
    | map p f ih =>
      intro c hc
      exact (ih hp c hc).map (fun _ _ hd => hd) fun _ hf => hf
    | apply pf pa ihf iha =>
      intro c hc
      refine (ihf hp.1 c hc).andThen (fun f d hd => ?_) fun _ hf => hf
      exact (iha hp.2 d hd).map (fun _ _ he => he) fun _ hf => hf
    | orElse p q ihp ihq =>
      intro c hc
      exact (ihp hp.1 c hc).elim (fun _ _ hd => .success hd) fun _ _ => ihq hp.2 c hc
    | andThen p q ihp ihq =>
      intro c hc
      exact (ihp hp.1 c hc).andThen (fun _ d hd => ihq hp.2 d hd) fun _ hf => hf
    | thenSkip p q ihp ihq =>
      intro c hc
      refine (ihp hp.1 c hc).andThen (fun v d hd => ?_) fun _ hf => hf
      exact (ihq hp.2 d hd).map (fun _ _ he => he) fun _ hf => hf
    | many p ih => exact fun c hc => .repeatFrom (ih hp) ctx.limit hc
    | many1 p ih => exact fun c hc => .repeatFrom1 (ih hp) ctx.limit hc
    | inspect p tag view ih =>
      intro c hc
      exact (ih hp c hc).andThen (fun v d hd => .after _ (.success hd)) fun _ hf => hf
    | tell tag seen p ih => exact fun c hc => .after _ (ih hp c hc)
    | custom description step => exact hp

end Law

/-! ### Over a grammar -/

/-- A run from a valid cursor does not come to a fault, however deep the rules nest and
    however long the repetitions go on; and neither does any parser that it visits, all of
    them at valid cursors. Of the caller's steps it is asked that they come to no fault and
    stop at valid cursors, of whatever text, as far as the rules do that they run. -/
theorem Grammar.run_bounded_faultless (g : Grammar S) (hg : g.Keeps Law.safe) (p : Parser S α)
    (hp : p.EveryStep (g.Admits Law.safe)) (limit depth : Nat) (c : Cursor) (hc : c.Valid) :
    let ctx := g.bounded limit depth
    (∀ e, (p.run ctx c).result ≠ .error (.fault e)) ∧
    ∀ v ∈ p.visits ctx c,
      v.cursor.Valid ∧ ∀ e, (v.parser.run ctx v.cursor).result ≠ .error (.fault e) := by
  intro ctx
  have hsafe {β : Type} {q : Parser S β} (hq : q.EveryStep (g.Admits Law.safe)) :
      Law.safe β (q.run ctx) :=
    Law.safe_compositional.run_bounded hg hq limit depth
  refine ⟨(hsafe hp c hc).faultless, fun v hv => ?_⟩
  obtain ⟨hparser, hcursor⟩ := Parser.of_mem_visits (I := Cursor.Valid)
    (fun _ _ hq d hd w e he => (hsafe hq d hd).ensures _ he) hp.everyPart hc v hv
  exact ⟨hcursor, (hsafe hparser v.cursor hcursor).faultless⟩

/-- A step that goes on in another text, at a cursor that lies before the one it is given;
    the number there is read, and its sign is cut off. The parser of the number is visited in
    the other text, and comes to no fault there. -/
theorem Grammar.run_bounded_faultless_elsewhere :
    let elsewhere : Parser .brackets Unit := .ofStep fun _ _ => .success () (.start ['-', '1', 'é'])
    let p : Parser .brackets Int :=
      .andThen (.literal ['é', 'é']) (.andThen elsewhere (.signed .w8))
    let c : Cursor := .start ['é', 'é', '2']
    let ctx := brackets.bounded 4 4
    (p.run ctx c).result = .ok (.success (-1) ⟨['-', '1', 'é'], 2⟩) ∧
      (∀ e, (p.run ctx c).result ≠ .error (.fault e)) ∧
      ⟨Int, .signed .w8, .start ['-', '1', 'é']⟩ ∈ p.visits ctx c ∧
      ∀ v ∈ p.visits ctx c,
        v.cursor.Valid ∧ ∀ e, (v.parser.run ctx v.cursor).result ≠ .error (.fault e) := by
  intro elsewhere p c ctx
  have helsewhere : brackets.Admits Law.safe Unit fun _ _ => .success () (.start ['-', '1', 'é']) :=
    fun _ _ _ _ _ => .success (Cursor.valid_past [] _)
  have hp : p.EveryStep (brackets.Admits Law.safe) := ⟨trivial, helsewhere, trivial⟩
  have hc : c.Valid := by decide
  have hsigned : ⟨Int, .signed .w8, .start ['-', '1', 'é']⟩ ∈ p.visits ctx c := by
    -- Each sequence goes on with its second parser.
    refine List.mem_append_left _ (List.mem_append_right _ ?_)
    refine List.mem_append_left _ (List.mem_append_right _ ?_)
    exact Parser.mem_visits_self ctx _ _
  obtain ⟨hfaultless, hvisits⟩ := brackets.run_bounded_faultless (brackets_keeps _) p hp 4 4 c hc
  exact ⟨rfl, hfaultless, hsigned, hvisits⟩

end TextParsing
