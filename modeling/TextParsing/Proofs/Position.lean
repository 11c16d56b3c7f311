import TextParsing.Proofs.Forward

/-!
# What is read does not matter

What a parser does at a cursor depends on the unread text alone. Putting a text `u`
before the text of a cursor moves the cursor (`Cursor.behind`), and a run from there
is the same run with all its cursors moved in the same way (`Run.behind`): the value,
the diagnostic and the notes are the same.

For a primitive this is `Primitive.run_settled`. A combinator only hands cursors on,
and compares them in one place, where a repetition asks whether its step stood still;
moving two cursors by the same text keeps them apart, or together
(`Cursor.behind_inj`).

Main statement: `Grammar.run_alike_start`, which compares a run in the middle of a text
with the run on the rest of the text alone.
-/

namespace TextParsing

variable {S : Signature} {ν α β : Type}

/-! ### Putting a text before a cursor -/

namespace Cursor

/-- The same place, with `u` put before the text. -/
def behind (u : Text) (c : Cursor) : Cursor := ⟨u ++ c.source, u.byteLength + c.position⟩

variable {u : Text} {c d : Cursor}

@[simp] theorem behind_past (u v r : Text) : (past v r).behind u = past (u ++ v) r := by
  simp [behind, past]

@[simp] theorem behind_start (u r : Text) : (start r).behind u = past u r := by
  rw [start_eq, behind_past, List.append_nil]

theorem behind_behind (u v : Text) (c : Cursor) : (c.behind v).behind u = c.behind (u ++ v) := by
  simp [behind, Nat.add_assoc]

theorem behind_inj : c.behind u = d.behind u ↔ c = d := by
  constructor
  · intro h
    obtain ⟨hs, hp⟩ := Cursor.mk.inj h
    exact congr (congrArg mk (List.append_cancel_left hs)) (Nat.add_left_cancel hp)
  · rintro rfl
    rfl

theorem Valid.behind (h : c.Valid) (u : Text) : (c.behind u).Valid := by
  obtain ⟨v, r, rfl⟩ := valid_iff.1 h
  rw [behind_past]
  exact valid_past _ _

end Cursor

/-- The outcome with `u` put before the text of its cursor. -/
def Outcome.behind (u : Text) : Outcome α → Outcome α
  | success v d => .success v (d.behind u)
  | failure f => .failure ⟨f.error, f.cursor.behind u⟩

theorem Outcome.behind_behind (u v : Text) (o : Outcome α) :
    (o.behind v).behind u = o.behind (u ++ v) := by
  cases o with
  | success w d => rw [behind, behind, behind, Cursor.behind_behind]
  | failure f => rw [behind, behind, behind, Cursor.behind_behind]

theorem Outcome.cursor_behind (u : Text) (o : Outcome α) :
    (o.behind u).cursor = o.cursor.behind u := by
  cases o <;> rfl

namespace Run

/-- The run with `u` put before the texts of its cursors. -/
def behind (u : Text) (r : Run ν α) : Run ν α := ⟨r.result.map (·.behind u), r.notes⟩

theorem behind_behind (u v : Text) (r : Run ν α) :
    (r.behind v).behind u = r.behind (u ++ v) := by
  rcases r with ⟨a | o, ns⟩
  · rfl
  · rw [behind, behind, behind]
    exact congrArg (fun o => (⟨.ok o, ns⟩ : Run ν α)) (o.behind_behind u v)

theorem Ensures.behind {r : Run ν α} {Q : Outcome α → Prop} {u : Text}
    (h : r.Ensures fun o => Q (o.behind u)) : (r.behind u).Ensures Q := by
  rcases r with ⟨a | o, ns⟩
  · exact fun _ ho => nomatch ho
  · intro o' ho'
    obtain rfl := Except.ok.inj ho'
    exact h o rfl

/-- A run that is moved goes on as before, if what it goes on with is moved too. -/
theorem behind_elim {r : Run ν α} {P : Outcome α → Prop} (h : r.Ensures P) {u : Text}
    {k k' : α → Cursor → Run ν β} {e e' : Failure → Run ν β}
    (hk : ∀ v d, P (.success v d) → k' v (d.behind u) = (k v d).behind u)
    (he : ∀ f, P (.failure f) → e' ⟨f.error, f.cursor.behind u⟩ = (e f).behind u) :
    (r.behind u).elim k' e' = (r.elim k e).behind u := by
  rcases r with ⟨a | (⟨v, d⟩ | f), ns⟩
  · rfl
  · exact congrArg (after ns) (hk v d (h _ rfl))
  · exact congrArg (after ns) (he f (h _ rfl))

theorem behind_andThen {r : Run ν α} {P : Outcome α → Prop} (h : r.Ensures P) {u : Text}
    {k k' : α → Cursor → Run ν β}
    (hk : ∀ v d, P (.success v d) → k' v (d.behind u) = (k v d).behind u) :
    (r.behind u).andThen k' = (r.andThen k).behind u :=
  behind_elim h hk fun _ _ => rfl

theorem behind_map (r : Run ν α) (u : Text) (f : α → β) :
    (r.behind u).map f = (r.map f).behind u :=
  behind_andThen (P := fun _ => True) (fun _ _ => trivial) fun _ _ _ => rfl

/-! ### Repetition -/

section Repetition

variable {step : Cursor → Run ν α} {u : Text}
  (hvalid : ∀ c : Cursor, c.Valid → (step c).Ensures fun o => o.cursor.Valid)
  (hstep : ∀ c : Cursor, c.Valid → step (c.behind u) = (step c).behind u)

/-- How a repetition goes on after one step, if the rest of it can be moved. The moved
    step stands still just if the step does. -/
theorem behind_goOn {limit : Nat} {c d : Cursor} (v : α)
    (ih : repeatFrom step limit (d.behind u) = (repeatFrom step limit d).behind u) :
    (if d.behind u = c.behind u then success [v] (d.behind u)
      else (repeatFrom step limit (d.behind u)).map (v :: ·)) =
    (if d = c then success [v] d else (repeatFrom step limit d).map (v :: ·)).behind u := by
  by_cases hdc : d = c
  · rw [if_pos hdc, if_pos (Cursor.behind_inj.2 hdc)]
    rfl
  · rw [if_neg hdc, if_neg (mt Cursor.behind_inj.1 hdc), ih, behind_map]

include hvalid hstep

theorem repeatFrom_behind (limit : Nat) {c : Cursor} (hc : c.Valid) :
    repeatFrom step limit (c.behind u) = (repeatFrom step limit c).behind u := by
  induction limit generalizing c with
  | zero => rfl
  | succ limit ih =>
    rw [repeatFrom, repeatFrom, hstep c hc]
    refine behind_elim (hvalid c hc) (fun v d hd => ?_) fun _ _ => rfl
    exact behind_goOn v (ih hd)

theorem repeatFrom1_behind (limit : Nat) {c : Cursor} (hc : c.Valid) :
    repeatFrom1 step limit (c.behind u) = (repeatFrom1 step limit c).behind u := by
  cases limit with
  | zero => rfl
  | succ limit =>
    rw [repeatFrom1, repeatFrom1, hstep c hc]
    refine behind_andThen (hvalid c hc) fun v d hd => ?_
    exact behind_goOn v (repeatFrom_behind hvalid hstep limit hd)

end Repetition

end Run

theorem Primitive.run_behind (p : Primitive α) {c : Cursor} (hc : c.Valid) (u : Text) :
    (Run.ofChecked (p.run (c.behind u)) : Run ν α) = (Run.ofChecked (p.run c)).behind u := by
  obtain ⟨v, r, rfl⟩ := Cursor.valid_iff.1 hc
  obtain ⟨verdict, w, t, rfl, hrun⟩ := p.run_settled r
  rw [Cursor.behind_past, hrun, hrun, List.append_assoc, ← Cursor.behind_past]
  cases verdict <;> rfl

/-! ### The law -/

namespace Law

/-- Wherever what is unread begins, a parser does the same as at the start of a text,
    but for what is put before the cursors; these are places in their texts. -/
def positionFree : Law S := fun _ f => ∀ r : Text,
  ((f (.start r)).Ensures fun o => o.cursor.Valid) ∧ ∀ u, f (.past u r) = (f (.start r)).behind u

variable {f : Cursor → Run (Note S) α}

theorem positionFree.ensures_valid (h : positionFree α f) :
    along (fun _ d => d.Valid) α f := by
  intro c hc
  obtain ⟨u, r, rfl⟩ := Cursor.valid_iff.1 hc
  rw [(h r).2 u]
  refine .behind ((h r).1.mono fun o ho => ?_)
  rw [Outcome.cursor_behind]
  exact ho.behind u

theorem positionFree.behind (h : positionFree α f) {c : Cursor} (hc : c.Valid) (u : Text) :
    f (c.behind u) = (f c).behind u := by
  obtain ⟨v, r, rfl⟩ := Cursor.valid_iff.1 hc
  rw [Cursor.behind_past, (h r).2, (h r).2, Run.behind_behind]

theorem positionFree_of_behind (hvalid : along (fun _ d => d.Valid) α f)
    (h : ∀ c : Cursor, c.Valid → ∀ u, f (c.behind u) = (f c).behind u) : positionFree α f := by
  intro r
  refine ⟨hvalid (.start r) (Cursor.valid_past [] r), fun u => ?_⟩
  rw [← Cursor.behind_start]
  exact h (.start r) (Cursor.valid_past [] r) u

theorem positionFree_compositional : (positionFree : Law S).Compositional where
  unfinished _ _ := ⟨.unfinished _, fun _ => rfl⟩
  run ctx α p hp := by
    -- Whatever is run next in the course of `p` starts from a valid cursor.
    have hvalid {β : Type} {q : Parser S β}
        (hq : q.EveryStep fun α step => positionFree α (step ctx)) :
        along (fun _ d => d.Valid) β (q.run ctx) :=
      (along_compositional Cursor.isPath_valid).run ctx (hq.mono fun _ _ h => h.ensures_valid)
    refine positionFree_of_behind (hvalid hp) ?_
    induction p with
    | primitive p => exact fun c hc u => p.run_behind hc u
    | bind p k ihp ihk =>
      intro c hc u
      rw [Parser.run, Parser.run, ihp hp.1 c hc u]
      exact Run.behind_andThen (hvalid hp.1 c hc) fun v d hd => ihk v (hp.2 v) d hd u
    | map p f ih =>
      intro c hc u
      rw [Parser.run, Parser.run, ih hp c hc u, Run.behind_map]
    | apply pf pa ihf iha =>
      intro c hc u
      rw [Parser.run, Parser.run, ihf hp.1 c hc u]
      refine Run.behind_andThen (hvalid hp.1 c hc) fun f d hd => ?_
      rw [iha hp.2 d hd u]
      -- To go on with a success at once is to apply a function.
      exact Run.behind_map _ u f
    | orElse p q ihp ihq =>
      -- The second parser starts from `c`, which is moved like the cursor of the failure.
      intro c hc u
      rw [Parser.run, Parser.run, ihp hp.1 c hc u]
      exact Run.behind_elim (hvalid hp.1 c hc) (fun _ _ _ => rfl) fun _ _ => ihq hp.2 c hc u
    | andThen p q ihp ihq =>
      intro c hc u
      rw [Parser.run, Parser.run, ihp hp.1 c hc u]
      exact Run.behind_andThen (hvalid hp.1 c hc) fun v d hd => ihq hp.2 d hd u
    | thenSkip p q ihp ihq =>
      intro c hc u
      rw [Parser.run, Parser.run, ihp hp.1 c hc u]
      refine Run.behind_andThen (hvalid hp.1 c hc) fun v d hd => ?_
      rw [ihq hp.2 d hd u]
      exact Run.behind_map _ u fun _ => v
    | many p ih =>
      intro c hc u
      exact Run.repeatFrom_behind (hvalid (q := p) hp) (fun c hc => ih hp c hc u) ctx.limit hc
    | many1 p ih =>
      intro c hc u
      exact Run.repeatFrom1_behind (hvalid (q := p) hp) (fun c hc => ih hp c hc u) ctx.limit hc
    | inspect p tag view ih =>
      intro c hc u
      rw [Parser.run, Parser.run, ih hp c hc u]
      exact Run.behind_andThen (hvalid (q := p) hp c hc) fun _ _ _ => rfl
    | tell tag seen p ih =>
      intro c hc u
      rw [Parser.run, Parser.run, ih hp c hc u]
      rfl
    | custom description step => exact fun c hc u => positionFree.behind hp hc u

end Law

/-! ### Runs that differ in their places only -/

/-- The cursor `d` lies `n` bytes further on than `e`, with the same text unread. -/
def Cursor.Beyond (n : Nat) (d e : Cursor) : Prop :=
  d.position = n + e.position ∧ ∃ t, d.rest = .ok t ∧ e.rest = .ok t

/-- Outcomes of the same kind, with the same value or the same diagnostic, the first of
    them `n` bytes further on. -/
inductive Outcome.Alike (n : Nat) : Outcome α → Outcome α → Prop where
  | success (v : α) {d e : Cursor} (h : d.Beyond n e) : Alike n (.success v d) (.success v e)
  | failure (error : ParseError) {d e : Cursor} (h : d.Beyond n e) :
    Alike n (.failure ⟨error, d⟩) (.failure ⟨error, e⟩)

/-- Runs with the same notes and with outcomes alike, unless both are aborted for the
    same reason. -/
inductive Run.Alike (n : Nat) : Run ν α → Run ν α → Prop where
  | outcome (ns : List ν) {o o' : Outcome α} (h : o.Alike n o') : Alike n ⟨.ok o, ns⟩ ⟨.ok o', ns⟩
  | abort (ns : List ν) (a : Abort) : Alike n ⟨.error a, ns⟩ ⟨.error a, ns⟩

theorem Cursor.Valid.beyond {c : Cursor} (h : c.Valid) (u : Text) :
    (c.behind u).Beyond u.byteLength c := by
  obtain ⟨v, r, rfl⟩ := valid_iff.1 h
  exact ⟨rfl, r, by rw [behind_past, rest_past], rest_past v r⟩

theorem Run.Ensures.alike_behind {r : Run ν α} (h : r.Ensures fun o => o.cursor.Valid) (u : Text) :
    (r.behind u).Alike u.byteLength r := by
  rcases r with ⟨a | o, ns⟩
  · exact .abort ns a
  · have ho := (h o rfl).beyond u
    cases o with
    | success v d => exact .outcome ns (.success v ho)
    | failure f => exact .outcome ns (.failure f.error ho)

/-- A run at a cursor and the run on the unread text alone have the same notes, and
    come to the same: the same value or the same diagnostic, with the same text unread,
    and with positions that differ by that of the cursor. Of the caller's steps it is
    asked that they do not depend on the position either, as far as the rules do not
    that they run. -/
theorem Grammar.run_alike_start (g : Grammar S) (hg : g.Keeps Law.positionFree)
    (p : Parser S α) (hp : p.EveryStep (g.Admits Law.positionFree)) (limit depth : Nat)
    (c : Cursor) (r : Text) (hr : c.rest = .ok r) :
    (p.run (g.bounded limit depth) c).Alike c.position
      (p.run (g.bounded limit depth) (.start r)) := by
  obtain ⟨u, rfl⟩ := Cursor.rest_eq_ok_iff.1 hr
  have h := Law.positionFree_compositional.run_bounded hg hp limit depth r
  rw [h.2 u]
  exact h.1.alike_behind u

/-- With three bytes read, of two units, the brackets are the same as at the start. -/
theorem Grammar.run_alike_start_brackets :
    let c : Cursor := ⟨['é', '(', '(', '1', ')', ')', 'é'], 3⟩
    let r : Text := ['(', '1', ')', ')', 'é']
    let run := Parser.bracketed.many.run (brackets.bounded 8 8)
    c.rest = .ok r ∧ (run c).Alike 3 (run (.start r)) ∧
      (run c).result = .ok (.success [['1']] ⟨c.source, 6⟩) :=
  ⟨rfl, brackets.run_alike_start (brackets_keeps _) Parser.bracketed.many
    (Parser.bracketed_everyStep _) 8 8 ⟨_, 3⟩ _ rfl, rfl⟩

end TextParsing
