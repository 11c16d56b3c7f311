import TextParsing.Proofs.Parser.Law
import TextParsing.Proofs.Run

/-!
# What repetitions come to

A repetition runs its step from cursor to cursor, and the successes of the step make up a
chain. The chain goes on for as long as the step moves. It ends where the step fails, and
what the failed attempt has read is given up; or where the step stands still, and then the
value of this attempt is the last one (`Run.Chain`).

* A repetition comes to the values of its chain, at the cursor where the chain ends, and to
  nothing else (`Run.repeatFrom_eq_ok_iff`). The limit has to allow for all attempts.
* The cursors of a chain can be numbered, so that each value belongs to a link between two of
  them (`Run.Course`).
* A repetition that has to succeed once makes its first attempt by itself, and looks by
  itself whether it stood still. Still it is the other repetition, unless the first attempt
  fails (`Run.repeatFrom1_of_not_fails`, `Run.repeatFrom1_orElse`).
* Where a chain ends, the next one ends at once (`Chain.again`). So the chain of a repeated
  repetition has one link, and a second one that stands still (`Chain.repeated`).

Main statements: `Parser.many_course`, and `Parser.many_many` for a repetition of a
repetition.
-/

namespace TextParsing

namespace Run

variable {ν α : Type} {step : Cursor → Run ν α} {n limit : Nat} {c d : Cursor} {vs : List α}

/-! ### Chains -/

/-- A chain of `n` attempts from `c` on, with the values `vs`, that ends at `d`. -/
inductive Chain (step : Cursor → Run ν α) : Nat → Cursor → List α → Cursor → Prop
  /-- The attempt fails, wherever it gets before that. -/
  | failed {c : Cursor} (h : (step c).Fails) : Chain step 1 c [] c
  /-- The attempt stands still. -/
  | stalled {c : Cursor} {v : α} (h : (step c).result = .ok (.success v c)) :
      Chain step 1 c [v] c
  /-- The attempt moves, and the chain goes on from there. -/
  | moved {n : Nat} {c d e : Cursor} {v : α} {vs : List α}
      (h : (step c).result = .ok (.success v d)) (hne : d ≠ c) (hrest : Chain step n d vs e) :
      Chain step (n + 1) c (v :: vs) e

namespace Chain

theorem pos (h : Chain step n c vs d) : 1 ≤ n := by
  cases h with
  | failed h => exact Nat.le_refl 1
  | stalled h => exact Nat.le_refl 1
  | moved h hne hrest => exact Nat.le_add_left 1 _

/-- A chain that leads somewhere else has at least two attempts. -/
theorem two_le (h : Chain step n c vs d) (hne : d ≠ c) : 2 ≤ n := by
  cases h with
  | failed h => exact absurd rfl hne
  | stalled h => exact absurd rfl hne
  | moved h hne' hrest => exact Nat.succ_le_succ hrest.pos

/-- Where a chain ends, the step fails or stands still. -/
theorem again (h : Chain step n c vs d) : ∃ ws, ws.length ≤ 1 ∧ Chain step 1 d ws d := by
  induction h with
  | failed h => exact ⟨[], Nat.zero_le 1, .failed h⟩
  | @stalled _ v h => exact ⟨[v], Nat.le_refl 1, .stalled h⟩
  | moved h hne hrest ih => exact ih

end Chain

/-! ### Repetitions follow chains -/

theorem ensures_chain (step : Cursor → Run ν α) (limit : Nat) (c : Cursor) :
    (repeatFrom step limit c).Ensures fun
      | .success vs d => ∃ n ≤ limit, Chain step n c vs d
      | .failure _ => False := by
  induction limit generalizing c with
  | zero => exact .unfinished _
  | succ limit ih =>
    have hone : 1 ≤ limit + 1 := Nat.le_add_left 1 limit
    rw [repeatFrom]
    refine (step c).ensures_result.elim (fun v d hv => ?_)
      fun f hf => .success ⟨1, hone, .failed ⟨f, hf⟩⟩
    split
    · next hd =>
      subst hd
      exact .success ⟨1, hone, .stalled hv⟩
    · next hne =>
      refine (ih d).map (fun vs e hrest => ?_) fun _ h => h
      obtain ⟨n, hn, hrest⟩ := hrest
      exact ⟨n + 1, Nat.succ_le_succ hn, .moved hv hne hrest⟩

theorem not_fails_repeatFrom (step : Cursor → Run ν α) (limit : Nat) (c : Cursor) :
    ¬ (repeatFrom step limit c).Fails :=
  fun ⟨_, hf⟩ => ensures_chain step limit c _ hf

/-- A chain is followed to its end, whatever more the limit allows for. -/
theorem Chain.result_repeatFrom (h : Chain step n c vs d) (more : Nat) :
    (repeatFrom step (n + more) c).result = .ok (.success vs d) := by
  induction h with
  | failed h =>
    obtain ⟨f, hf⟩ := h
    rw [Nat.add_comm, repeatFrom, elim_of_failure _ _ hf]
    rfl
  | stalled h =>
    rw [Nat.add_comm, repeatFrom, elim_of_success _ _ h, if_pos rfl]
    rfl
  | moved h hne hrest ih =>
    rw [Nat.add_right_comm, repeatFrom, elim_of_success _ _ h, if_neg hne, map, andThen,
      elim_of_success _ _ ih]
    rfl

theorem repeatFrom_eq_ok_iff {o : Outcome (List α)} :
    (repeatFrom step limit c).result = .ok o ↔
      ∃ n vs d, n ≤ limit ∧ o = .success vs d ∧ Chain step n c vs d := by
  constructor
  · intro ho
    have hchain := ensures_chain step limit c o ho
    cases o with
    | success vs d =>
      obtain ⟨n, hn, hchain⟩ := hchain
      exact ⟨n, vs, d, hn, rfl, hchain⟩
    | failure f => exact hchain.elim
  · rintro ⟨n, vs, d, hn, rfl, hchain⟩
    obtain ⟨more, rfl⟩ := Nat.exists_eq_add_of_le hn
    exact hchain.result_repeatFrom more

/-! ### Courses -/

/-- The cursors `cs 0`, `cs 1`, … and the values `vs` are those of a repetition: each value is
    that of the step from one cursor to the next, all steps but the last have moved, and after
    them the step fails, unless the last one stood still. -/
structure Course (step : Cursor → Run ν α) (cs : Nat → Cursor) (vs : List α) : Prop where
  link (i : Nat) (hi : i < vs.length) : (step (cs i)).result = .ok (.success vs[i] (cs (i + 1)))
  moves (i : Nat) (hi : i + 1 < vs.length) : cs (i + 1) ≠ cs i
  ends : (step (cs vs.length)).Fails ∨ 0 < vs.length ∧ cs vs.length = cs (vs.length - 1)

namespace Course

variable {cs : Nat → Cursor} {v : α}

/-- The sequence `cs`, after `c`. -/
def prepend (c : Cursor) (cs : Nat → Cursor) : Nat → Cursor
  | 0 => c
  | i + 1 => cs i

theorem cons (h : Course step cs vs) (hv : (step c).result = .ok (.success v (cs 0)))
    (hne : cs 0 ≠ c) : Course step (prepend c cs) (v :: vs) where
  link i hi := by
    cases i with
    | zero => exact hv
    | succ i => exact h.link i (Nat.lt_of_succ_lt_succ hi)
  moves i hi := by
    cases i with
    | zero => exact hne
    | succ i => exact h.moves i (Nat.lt_of_succ_lt_succ hi)
  ends := by
    rcases h.ends with hfails | ⟨hpos, hlast⟩
    · exact .inl hfails
    · refine .inr ⟨Nat.succ_pos _, hlast.trans ?_⟩
      rw [List.length_cons, Nat.add_sub_cancel, ← Nat.sub_add_cancel hpos]
      rfl

/-- What follows after a step that has moved. -/
theorem tail (h : Course step cs (v :: vs)) (hne : cs 1 ≠ cs 0) :
    Course step (fun i => cs (i + 1)) vs where
  link i hi := h.link (i + 1) (Nat.succ_lt_succ hi)
  moves i hi := h.moves (i + 1) (Nat.succ_lt_succ hi)
  ends := by
    rcases h.ends with hfails | ⟨-, hlast⟩
    · exact .inl hfails
    · -- The step that stood still is not the first one.
      cases vs with
      | nil => exact absurd hlast hne
      | cons w ws => exact .inr ⟨Nat.succ_pos _, hlast⟩

theorem exists_chain (h : Course step cs vs) :
    ∃ n ≤ vs.length + 1, Chain step n (cs 0) vs (cs vs.length) := by
  induction vs generalizing cs with
  | nil =>
    rcases h.ends with hfails | ⟨hpos, -⟩
    · exact ⟨1, Nat.le_refl 1, .failed hfails⟩
    · exact absurd hpos (Nat.lt_irrefl 0)
  | cons v ws ih =>
    have hv := h.link 0 (Nat.succ_pos _)
    by_cases hne : cs 1 = cs 0
    · -- Only the last step stands still.
      cases ws with
      | nil =>
        have hstill : (step (cs 1)).result = .ok (.success v (cs 1)) := by
          rw [hne, hv, hne]
          rfl
        exact ⟨1, Nat.le_add_left 1 _, hne ▸ .stalled hstill⟩
      | cons w ws => exact absurd hne (h.moves 0 (Nat.succ_lt_succ (Nat.succ_pos _)))
    · obtain ⟨n, hn, hrest⟩ := ih (h.tail hne)
      exact ⟨n + 1, Nat.succ_le_succ hn, .moved hv hne hrest⟩

end Course

theorem Chain.exists_course (h : Chain step n c vs d) :
    ∃ cs, cs 0 = c ∧ cs vs.length = d ∧ Course step cs vs := by
  induction h with
  | @failed c h =>
    have hcourse : Course step (fun _ => c) [] :=
      { link := fun i hi => absurd hi (Nat.not_lt_zero i)
        moves := fun i hi => absurd hi (Nat.not_lt_zero (i + 1))
        ends := .inl h }
    exact ⟨fun _ => c, rfl, rfl, hcourse⟩
  | @stalled c v h =>
    have hcourse : Course step (fun _ => c) [v] :=
      { link := fun i hi => by
          obtain rfl : i = 0 := Nat.lt_one_iff.1 hi
          exact h
        moves := fun i hi => absurd (Nat.lt_of_succ_lt_succ hi) (Nat.not_lt_zero i)
        ends := .inr ⟨Nat.one_pos, rfl⟩ }
    exact ⟨fun _ => c, rfl, rfl, hcourse⟩
  | @moved n c d e v vs h hne hrest ih =>
    obtain ⟨cs, rfl, hend, hcourse⟩ := ih
    exact ⟨Course.prepend c cs, rfl, hend, hcourse.cons h hne⟩

/-! ### The first attempt by itself -/

theorem repeatFrom1_of_failure {f : Failure} (h : (step c).result = .ok (.failure f)) :
    repeatFrom1 step (limit + 1) c = (failure f).after (step c).notes :=
  elim_of_failure _ _ h

/-- If the first attempt does not fail, both repetitions go on in the same way. -/
theorem repeatFrom1_of_not_fails (h : ¬ (step c).Fails) (limit : Nat) :
    repeatFrom1 step limit c = repeatFrom step limit c := by
  cases limit with
  | zero => rfl
  | succ limit => exact elim_congr_of_not_fails _ _ _ h

theorem repeatFrom1_orElse (step : Cursor → Run ν α) (limit : Nat) (c : Cursor) :
    ((repeatFrom1 step limit c).orElse fun _ => success [] c) = repeatFrom step limit c := by
  cases limit with
  | zero => rfl
  | succ limit =>
    by_cases h : (step c).Fails
    · obtain ⟨f, hf⟩ := h
      rw [repeatFrom1_of_failure hf, orElse, elim_after, elim_failure, repeatFrom,
        elim_of_failure _ _ hf]
    · rw [repeatFrom1_of_not_fails h, orElse_of_not_fails _ (not_fails_repeatFrom step _ c)]

/-! ### Repetitions of repetitions -/

/-- The chain of a repeated repetition: the chain that is repeated, and, if it leads
    somewhere else, one more that stands still there. -/
theorem Chain.repeated (h : Chain step n c vs d) (hn : n ≤ limit) {ws : List α}
    (hagain : Chain step 1 d ws d) :
    ∃ m ≤ n, Chain (repeatFrom step limit) m c (if d = c then [vs] else [vs, ws]) d := by
  have hfirst := repeatFrom_eq_ok_iff.2 ⟨n, vs, d, hn, rfl, h⟩
  have hsecond := repeatFrom_eq_ok_iff.2 ⟨1, ws, d, Nat.le_trans h.pos hn, rfl, hagain⟩
  by_cases hd : d = c
  · subst hd
    rw [if_pos rfl]
    exact ⟨1, h.pos, .stalled hfirst⟩
  · rw [if_neg hd]
    exact ⟨2, h.two_le hd, .moved hfirst hd (.stalled hsecond)⟩

end Run

/-! ### Parsers -/

namespace Parser

variable {S : Signature} {α : Type}

/-- A repetition that ends comes to the values of a course from `c` on, at the last cursor of
    the course; and it comes to this if there is such a course, and the limit allows for one
    attempt more than the course has values.

    If it has to succeed once, it fails like its parser if the parser fails at `c`, and is
    the same run otherwise. So it is all the same whether it need not succeed, or has to but
    may be replaced by no values at all. -/
theorem many_course (ctx : Context S) (p : Parser S α) (c : Cursor) :
    (∀ o, ((many p).run ctx c).result = .ok o → ∃ vs cs, o = .success vs (cs vs.length) ∧
      cs 0 = c ∧ Run.Course (p.run ctx) cs vs) ∧
    (∀ vs cs, cs 0 = c → Run.Course (p.run ctx) cs vs → vs.length < ctx.limit →
      ((many p).run ctx c).result = .ok (.success vs (cs vs.length))) ∧
    (∀ f, 0 < ctx.limit → (p.run ctx c).result = .ok (.failure f) →
      (many1 p).run ctx c = ⟨.ok (.failure f), (p.run ctx c).notes⟩) ∧
    (¬ (p.run ctx c).Fails → (many1 p).run ctx c = (many p).run ctx c) ∧
    ∀ written, (orElse (many1 p) (succeed [] written)).run ctx c = (many p).run ctx c := by
  refine ⟨fun o ho => ?_, ?_, fun f hlimit hf => ?_,
    fun h => Run.repeatFrom1_of_not_fails h ctx.limit,
    fun _ => Run.repeatFrom1_orElse (p.run ctx) ctx.limit c⟩
  · obtain ⟨n, vs, d, -, rfl, hchain⟩ := Run.repeatFrom_eq_ok_iff.1 ho
    obtain ⟨cs, hstart, rfl, hcourse⟩ := hchain.exists_course
    exact ⟨vs, cs, rfl, hstart, hcourse⟩
  · rintro vs cs rfl hcourse hlimit
    obtain ⟨n, hn, hchain⟩ := hcourse.exists_chain
    exact Run.repeatFrom_eq_ok_iff.2 ⟨n, vs, _, Nat.le_trans hn hlimit, rfl, hchain⟩
  · rw [run, ← Nat.sub_add_cancel hlimit, Run.repeatFrom1_of_failure hf, Run.after,
      Run.failure, List.append_nil]

/-- The last attempt reads a number before it misses the comma, and is given up. -/
theorem many_course_comma :
    let item : Parser .brackets Int := .thenSkip (.unsigned .w8) (.char ',')
    let ctx := Grammar.brackets.bounded 3 0
    let c : Cursor := ⟨['é', '7', ',', '8', ',', '1'], 2⟩
    let d : Cursor := ⟨c.source, 6⟩
    (item.run ctx d).result = .ok (.refuse "char" ⟨c.source, 7⟩) ∧
      (item.many.run ctx c).result = .ok (.success [7, 8] d) ∧
      ∃ vs cs, .success [7, 8] d = Outcome.success vs (cs vs.length) ∧ cs 0 = c ∧
        Run.Course (item.run ctx) cs vs := by
  intro item ctx c d
  exact ⟨rfl, rfl, (many_course ctx item c).1 (.success [7, 8] d) rfl⟩

/-- If a repetition ends at `d`, it ends there again, with at most one value. So if it is
    itself repeated, it is repeated once more at most: its values come first, and, if it has
    moved at all, those of the second time, which is at `d` and stays there. This second
    repetition succeeds at once, so that it is all the same whether it has to. -/
theorem many_many (ctx : Context S) (p : Parser S α) (c d : Cursor) (vs : List α)
    (h : ((many p).run ctx c).result = .ok (.success vs d)) :
    ∃ ws, ws.length ≤ 1 ∧ ((many p).run ctx d).result = .ok (.success ws d) ∧
      ((many (many p)).run ctx c).result =
        .ok (.success (if d = c then [vs] else [vs, ws]) d) ∧
      (many1 (many p)).run ctx c = (many (many p)).run ctx c := by
  obtain ⟨n, vs, d, hn, ho, hchain⟩ := Run.repeatFrom_eq_ok_iff.1 h
  obtain ⟨rfl, rfl⟩ := Outcome.success.inj ho
  obtain ⟨ws, hws, hagain⟩ := hchain.again
  obtain ⟨m, hm, hrepeated⟩ := hchain.repeated hn hagain
  have hone : 1 ≤ ctx.limit := Nat.le_trans hchain.pos hn
  refine ⟨ws, hws, Run.repeatFrom_eq_ok_iff.2 ⟨1, ws, _, hone, rfl, hagain⟩, ?_, ?_⟩
  · exact Run.repeatFrom_eq_ok_iff.2 ⟨m, _, _, Nat.le_trans hm hn, rfl, hrepeated⟩
  · exact Run.repeatFrom1_of_not_fails (Run.not_fails_repeatFrom (p.run ctx) ctx.limit c) _

/-- The parser matches the empty text, at the end of what it reads. -/
theorem many_many_blanks :
    let blanks : Parser .brackets Text := .takeWhile (· == ' ')
    let ctx := Grammar.brackets.bounded 3 0
    let c : Cursor := .start [' ', ' ', 'x']
    let d : Cursor := ⟨c.source, 2⟩
    (blanks.many.run ctx c).result = .ok (.success [[' ', ' '], []] d) ∧
      ((blanks.many.many).run ctx c).result =
        .ok (.success [[[' ', ' '], []], [[]]] d) ∧
      ∃ ws, ws.length ≤ 1 ∧ (blanks.many.run ctx d).result = .ok (.success ws d) ∧
        (blanks.many.many1).run ctx c = (blanks.many.many).run ctx c := by
  intro blanks ctx c d
  obtain ⟨ws, hws, hagain, -, hsome⟩ := many_many ctx blanks c d [[' ', ' '], []] rfl
  exact ⟨rfl, rfl, ws, hws, hagain, hsome⟩

end Parser

end TextParsing
