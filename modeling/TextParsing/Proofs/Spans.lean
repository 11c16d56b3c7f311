import TextParsing.Proofs.Notes
import TextParsing.Proofs.Repetition
import TextParsing.Proofs.Scanners

/-!
# Spans

The units of a class at the start of a text are its *span* (`IsSpan`): they are all in the
class, and the unit after them is not. There is one span in every text, and it is the longest
start with units of the class alone.

There are several ways to take a span. One searches for the first unit outside the class, and
measures what lies before it; a scanner goes through the units one by one, as a fold without a
state to speak of (`IsSpan.isScan`); a repetition moves a cursor past one unit of the class
after the other, until the parser of such a unit fails (`Parser.chain_satisfy`). They all stop
at the same place, with the same units. Where the span is empty, those that ask for at least one
unit fail: one of them as its cursor has not moved, and the other as its first attempt fails.

Main statement: `Grammar.run_span`.
-/

namespace TextParsing

variable {test : Char → Bool} {a b : Text}

/-! ### The span of a text -/

/-- The units `a` pass the test, and what follows them, `b`, does not start with one that does. -/
structure IsSpan (test : Char → Bool) (a b : Text) : Prop where
  passes : ∀ x ∈ a, test x = true
  stops : ∀ x, b.head? = some x → test x = false

theorem isSpan_takeWhile (test : Char → Bool) (r : Text) :
    IsSpan test (r.takeWhile test) (r.dropWhile test) where
  passes := List.all_eq_true.1 List.all_takeWhile
  stops x hx := by
    have := List.head?_dropWhile_not test r
    rw [hx] at this
    simpa using this

namespace IsSpan

theorem tail {x : Char} (h : IsSpan test (x :: a) b) : IsSpan test a b :=
  ⟨fun y hy => h.passes y (List.mem_cons_of_mem x hy), h.stops⟩

/-- After the span, there is nothing left of it. -/
theorem again (h : IsSpan test a b) : IsSpan test [] b := ⟨List.forall_mem_nil _, h.stops⟩

theorem takeWhile_eq (h : IsSpan test a b) : (a ++ b).takeWhile test = a := by
  refine Text.takeWhile_append_left h.passes ?_
  cases b with
  | nil => rfl
  | cons x b => exact h.stops x rfl

theorem dropWhile_eq (h : IsSpan test a b) : (a ++ b).dropWhile test = b := by
  have := List.takeWhile_append_dropWhile (p := test) (l := a ++ b)
  rw [h.takeWhile_eq] at this
  exact List.append_cancel_left this

theorem unique {a' b' : Text} (h : IsSpan test a b) (h' : IsSpan test a' b')
    (ht : a ++ b = a' ++ b') : a' = a ∧ b' = b := by
  obtain rfl : a' = a := by rw [← h.takeWhile_eq, ht, h'.takeWhile_eq]
  exact ⟨rfl, (List.append_cancel_left ht).symm⟩

/-- No longer start of the text has units of the class alone. -/
theorem longest (h : IsSpan test a b) {w : Text} (hw : w <+: a ++ b)
    (hpasses : ∀ x ∈ w, test x = true) : w <+: a := by
  obtain ⟨v, hv⟩ := hw
  have := h.takeWhile_eq
  rw [← hv, List.takeWhile_append_of_pos hpasses] at this
  exact ⟨_, this⟩

/-- The span is what a scanner takes whose only state is that all units have passed. -/
theorem isScan (h : IsSpan test a b) :
    Text.IsScan (fun _ x => if test x then some () else none) () a b () := by
  induction a with
  | nil =>
    refine Text.isScan_nil_iff.2 ⟨rfl, fun x hx => ?_⟩
    rw [h.stops x hx]
    rfl
  | cons x a ih =>
    have hx : test x = true := h.passes x List.mem_cons_self
    exact Text.isScan_cons_iff.2 ⟨(), if_pos hx, ih h.tail⟩

end IsSpan

/-! ### Taking the span -/

/-- A repetition without notes comes to the values of its chain, and to nothing else. -/
theorem Run.Chain.repeatFrom_eq {ν α : Type} {step : Cursor → Run ν α} {n limit : Nat}
    {c d : Cursor} {vs : List α} (h : Run.Chain step n c vs d) (hn : n ≤ limit)
    (hnotes : ∀ e, (step e).notes = []) : Run.repeatFrom step limit c = .success vs d := by
  have hresult := Run.repeatFrom_eq_ok_iff.2 ⟨n, vs, d, hn, rfl, h⟩
  have hsilent : (Run.repeatFrom step limit c).notes = [] := by
    rw [Run.notes_repeatFrom, List.flatMap_eq_nil_iff]
    exact fun e _ => hnotes e
  calc Run.repeatFrom step limit c
    _ = ⟨(Run.repeatFrom step limit c).result, (Run.repeatFrom step limit c).notes⟩ := rfl
    _ = .success vs d := by rw [hresult, hsilent]; rfl

namespace Parser

variable {S : Signature} (ctx : Context S) (label : String) (u : Text)

theorem run_satisfy_cons {x : Char} (hx : test x = true) (r : Text) :
    (satisfy test label).run ctx (.past u (x :: r)) = .success x (.past (u ++ [x]) r) := by
  rw [satisfy, run, Primitive.run_satisfy, Primitive.oneUnit, if_pos hx]
  rfl

theorem run_satisfy_of_stops (hb : ∀ x, b.head? = some x → test x = false) :
    (satisfy test label).run ctx (.past u b) = .failure (.of label (.past u b)) := by
  rw [satisfy, run, Primitive.run_satisfy]
  cases b with
  | nil => rfl
  | cons x b =>
    rw [Primitive.oneUnit, hb x rfl]
    rfl

/-- The chain moves past the units of the span one by one, and ends with an attempt that fails. -/
theorem chain_satisfy (h : IsSpan test a b) : Run.Chain ((satisfy test label).run ctx)
    (a.length + 1) (.past u (a ++ b)) a (.past (u ++ a) b) := by
  induction a generalizing u with
  | nil =>
    rw [List.append_nil]
    exact .failed ⟨_, congrArg Run.result (run_satisfy_of_stops ctx label u h.stops)⟩
  | cons x a ih =>
    have hfirst := run_satisfy_cons ctx label u (h.passes x List.mem_cons_self) (a ++ b)
    have hrest := ih (u ++ [x]) h.tail
    rw [List.append_assoc] at hrest
    refine .moved (congrArg Run.result hfirst) (fun hstill => ?_) hrest
    exact List.cons_ne_nil x [] (List.append_right_eq_self.1 (Cursor.past_inj.1 hstill).1)

variable {ctx}

theorem run_many_satisfy (h : IsSpan test a b) (hlimit : a.length < ctx.limit) :
    (many (satisfy test label)).run ctx (.past u (a ++ b)) = .success a (.past (u ++ a) b) :=
  (chain_satisfy ctx label u h).repeatFrom_eq hlimit fun _ => Run.notes_ofChecked _

/-- With an empty span, the first attempt fails; otherwise it does not, and both repetitions are
    the same. -/
theorem run_many1_satisfy (h : IsSpan test a b) (hlimit : a.length < ctx.limit) :
    (many1 (satisfy test label)).run ctx (.past u (a ++ b)) =
      if a = [] then .failure (.of label (.past u b)) else .success a (.past (u ++ a) b) := by
  cases a with
  | nil =>
    have hfails := run_satisfy_of_stops ctx label u h.stops
    rw [if_pos rfl, run, ← Nat.sub_add_cancel hlimit]
    exact (Run.repeatFrom1_of_failure (congrArg Run.result hfails)).trans (by rw [hfails]; rfl)
  | cons x a =>
    have hfirst := run_satisfy_cons ctx label u (h.passes x List.mem_cons_self) (a ++ b)
    have hsucceeds : ¬ ((satisfy test label).run ctx (.past u (x :: a ++ b))).Fails := by
      rw [List.cons_append, hfirst]
      rintro ⟨f, hf⟩
      cases hf
    rw [if_neg (List.cons_ne_nil x a), run, Run.repeatFrom1_of_not_fails hsucceeds]
    exact run_many_satisfy label u h hlimit

variable (ctx)

theorem run_takeWhile (h : IsSpan test a b) :
    (takeWhile test).run ctx (.past u (a ++ b)) = .success a (.past (u ++ a) b) := by
  rw [takeWhile, run, Primitive.run_takeWhile, h.takeWhile_eq, h.dropWhile_eq]
  rfl

theorem run_takeWhile1 (h : IsSpan test a b) :
    (takeWhile1 test).run ctx (.past u (a ++ b)) =
      if a = [] then .failure (.of "tailWhile1" (.past u (a ++ b)))
      else .success a (.past (u ++ a) b) := by
  rw [takeWhile1, run, Primitive.run, Primitive.runTakeWhile1_past, h.takeWhile_eq,
    h.dropWhile_eq]
  split <;> rfl

end Parser

/-- At every valid cursor there is one span of a class, the longest start of the unread text with
    units of the class alone, and it can be taken in all these ways: as a text, by a scanner,
    and by a repetition of the parser of one unit, the values of which are then the units of
    the span. All of them end after the span. If at least one unit is asked for and the span
    is empty, they fail, and stay at the cursor. Taking the units up to the first one of a
    class is taking those outside the class. After the span, nothing is left of it. -/
theorem Grammar.run_span {S : Signature} (g : Grammar S) (test : Char → Bool)
    (label written : String) (c : Cursor) (hc : c.Valid) :
    (∃ a b d, c.rest = .ok (a ++ b) ∧ c.Reads a d ∧ d.rest = .ok b ∧ IsSpan test a b ∧
      (∀ w, w <+: a ++ b → (∀ x ∈ w, test x = true) → w <+: a) ∧
      g.run (.takeWhile test) c = .success a d ∧
      g.run (.scan () (fun _ x => if test x then some () else none) written) c = .success a d ∧
      g.run (.many (.satisfy test label)) c = .success a d ∧
      (a ≠ [] → g.run (.takeWhile1 test) c = .success a d ∧
        g.run (.many1 (.satisfy test label)) c = .success a d) ∧
      (a = [] → g.run (.takeWhile1 test) c = .failure (.of "tailWhile1" c) ∧
        g.run (.many1 (.satisfy test label)) c = .failure (.of label c)) ∧
      g.run (.takeWhile test) d = .success [] d) ∧
    (Parser.takeTill test : Parser S Text) = .takeWhile fun x => !test x := by
  refine ⟨?_, rfl⟩
  obtain ⟨u, r, rfl⟩ := Cursor.valid_iff.1 hc
  obtain ⟨a, b, rfl, h⟩ : ∃ a b, r = a ++ b ∧ IsSpan test a b :=
    ⟨_, _, List.takeWhile_append_dropWhile.symm, isSpan_takeWhile test r⟩
  -- The limit of a run allows for one attempt at each place of the source.
  have hlimit : a.length < (g.context ((u ++ (a ++ b)).length + 1)).limit := by
    change a.length < (u ++ (a ++ b)).length + 1
    simp only [List.length_append]
    omega
  have hscan := Cursor.scans_iff.2 ⟨u, b, rfl, rfl, h.isScan⟩
  have hone := Parser.run_takeWhile1 (g.context ((u ++ (a ++ b)).length + 1)) u h
  have hmany1 := Parser.run_many1_satisfy label u h hlimit
  refine ⟨a, b, .past (u ++ a) b, Cursor.rest_past _ _, .past u a b, Cursor.rest_past _ _, h,
    fun w => h.longest, Parser.run_takeWhile _ u h, Parser.run_scan _ written hscan,
    Parser.run_many_satisfy label u h hlimit, fun ha => ?_, fun ha => ?_, ?_⟩
  · rw [if_neg ha] at hone hmany1
    exact ⟨hone, hmany1⟩
  · rw [if_pos ha] at hone hmany1
    subst ha
    exact ⟨hone, hmany1⟩
  · have hagain := Parser.run_takeWhile (g.context ((u ++ a ++ b).length + 1)) (u ++ a) h.again
    rw [List.append_nil] at hagain
    exact hagain

/-- Units of two bytes, after which there are none of the class. -/
theorem Grammar.run_span_accents :
    let test : Char → Bool := (· == 'é')
    let c : Cursor := .past ['x'] ['é', 'é', 'y']
    let d : Cursor := .past ['x', 'é', 'é'] ['y']
    c.Valid ∧ d.Valid ∧ IsSpan test ['é', 'é'] ['y'] ∧
      brackets.run (.takeWhile test) c = .success ['é', 'é'] d ∧
      brackets.run (.scan () (fun _ x => if test x then some () else none) "()") c =
        .success ['é', 'é'] d ∧
      brackets.run (.many1 (.satisfy test "accent")) c = .success ['é', 'é'] d ∧
      brackets.run (.takeWhile1 test) d = .failure (.of "tailWhile1" d) ∧
      brackets.run (.many1 (.satisfy test "accent")) d = .failure (.of "accent" d) := by
  intro test c d
  have hc : c.Valid := Cursor.valid_past _ _
  have hd : d.Valid := Cursor.valid_past _ _
  have hspan : IsSpan test ['é', 'é'] ['y'] := by
    refine ⟨List.all_eq_true.1 rfl, fun x hx => ?_⟩
    obtain rfl := Option.some.inj hx
    rfl
  have hreads : c.Reads ['é', 'é'] d := .past ['x'] ['é', 'é'] ['y']
  obtain ⟨⟨a, b, e, hrest, hreads', -, hspan', -, htext, hscan, -, hsome, -⟩, -⟩ :=
    brackets.run_span test "accent" "()" c hc
  obtain ⟨rfl, rfl⟩ := hspan.unique hspan' (Except.ok.inj hrest)
  obtain rfl := hreads.unique hreads'
  obtain ⟨⟨a, b, e, hrest, -, -, hspan', -, -, -, -, -, hnone, -⟩, -⟩ :=
    brackets.run_span test "accent" "()" d hd
  obtain ⟨rfl, -⟩ := hspan.again.unique hspan' (Except.ok.inj hrest)
  exact ⟨hc, hd, hspan, htext, hscan, (hsome (List.cons_ne_nil _ _)).2, hnone rfl⟩

end TextParsing
