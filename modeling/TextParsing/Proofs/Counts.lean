import TextParsing.Proofs.Prefixes

/-!
# Numbers of units

A move past a number of units measures the unread text once, and adds up the bytes of the units
as it goes; a number of moves past one unit each looks at the text afresh every time. Both come
to the cursor after as many units as there are moves, if the text has that many. This is the
only thing to know about either of them (`Cursor.advance_eq_some_iff`,
`Cursor.Reads.nextTimes_eq`), and as reading two texts one after the other is reading both of
them as one, moves can be put together and taken apart (`Cursor.advance_add`).

The parsers of a number of units are told apart in the same way. One takes all of them at once,
and the other one after the other (`Parser.anyChars`), by way of the parser of any unit. They
succeed with the same texts at the same cursors. When there are too few units they differ: the
first fails where it stands, the second where the text ends.

Main statement: `Parser.take_exact`.
-/

namespace TextParsing

open Text

/-! ### Moving -/

namespace Cursor

/-- Moves past the next unit, a number of times. -/
def nextTimes : Nat → Cursor → Checked Cursor
  | 0, c => .ok c
  | n + 1, c => do nextTimes n (← c.next)

variable {c d : Cursor} {x : Char} {w : Text} {n m left : Nat}

theorem reads_cons_iff : c.Reads (x :: w) d ↔ ∃ e, c.Reads [x] e ∧ e.Reads w d := by
  rw [← List.singleton_append, reads_append_iff]

theorem Reads.next_eq (h : c.Reads [x] d) : c.next = .ok d := by
  obtain ⟨u, r, rfl, rfl⟩ := h
  exact next_past_cons u x r

/-- One move for each unit of what is read. -/
theorem Reads.nextTimes_eq (h : c.Reads w d) : nextTimes w.length c = .ok d := by
  induction w generalizing c with
  | nil =>
    obtain rfl := (Reads.nil h.valid_left).unique h
    rfl
  | cons x w ih =>
    obtain ⟨e, hx, hw⟩ := reads_cons_iff.1 h
    rw [List.length_cons, nextTimes, hx.next_eq, Checked.ok_bind, ih hw]

theorem Reads.position_eq (h : c.Reads w d) : d.position = c.position + w.byteLength := by
  obtain ⟨u, r, rfl, rfl⟩ := h
  exact byteLength_append u w

/-- The move past a number of units reads a text of that many. -/
theorem advance_eq_some_iff (hc : c.Valid) :
    c.advance n = .ok (some d) ↔ ∃ w, w.length = n ∧ c.Reads w d := by
  obtain ⟨u, r, rfl⟩ := valid_iff.1 hc
  rw [advance_past, Except.ok.injEq, Option.ite_none_right_eq_some, Option.some.injEq]
  constructor
  · rintro ⟨hn, rfl⟩
    have hreads := Reads.past u (r.take n) (r.drop n)
    rw [List.take_append_drop] at hreads
    exact ⟨r.take n, List.length_take_of_le hn, hreads⟩
  · rintro ⟨w, rfl, u', r', hpast, rfl⟩
    obtain ⟨rfl, rfl⟩ := past_inj.1 hpast
    exact ⟨by simp, by simp⟩

theorem exists_advance_eq_some_iff (hleft : c.unitsLeft = .ok left) :
    (∃ d, c.advance n = .ok (some d)) ↔ n ≤ left := by
  obtain ⟨u, r, rfl, rfl⟩ := exists_past_of_unitsLeft hleft
  by_cases hn : n ≤ r.length <;> simp [advance_past, hn]

theorem advance_eq_none_iff (hleft : c.unitsLeft = .ok left) :
    c.advance n = .ok none ↔ left < n := by
  obtain ⟨u, r, rfl, rfl⟩ := exists_past_of_unitsLeft hleft
  by_cases hn : n ≤ r.length <;> simp [advance_past, hn]
  omega

/-- A move past two numbers of units is a move past the first of them, and then past the
    second. -/
theorem advance_add (hc : c.Valid) (n m : Nat) :
    c.advance (n + m) = c.advance n >>= fun o => o.elim (.ok none) (·.advance m) := by
  obtain ⟨u, r, rfl⟩ := valid_iff.1 hc
  rw [advance_past, advance_past, Checked.ok_bind]
  by_cases hn : n ≤ r.length
  · rw [if_pos hn, Option.elim_some, advance_past, List.length_drop, List.append_assoc,
      ← List.take_add, List.drop_drop]
    congr 2
    rw [eq_iff_iff]
    omega
  · have hsum : ¬n + m ≤ r.length := by omega
    rw [if_neg hn, if_neg hsum, Option.elim_none]

end Cursor

/-! ### Taking -/

namespace Parser

variable {S : Signature} {α : Type}

/-- A number of units, by as many parsers of any unit, one after the other. -/
def anyChars : Nat → Parser S Text
  | 0 => succeed [] "[]"
  | n + 1 => bind anyChar fun x => map (anyChars n) (x :: ·)

variable (ctx : Context S) {c d : Cursor} {v : Text} {n : Nat} (label : String)

theorem run_anyChar_eq_success_iff {x : Char} (hc : c.Valid) :
    anyChar.run ctx c = .success x d ↔ c.Reads [x] d := by
  obtain ⟨u, r, rfl⟩ := Cursor.valid_iff.1 hc
  rw [anyChar, run, Primitive.run_anyChar]
  cases r with
  | nil =>
    refine ⟨fun h => absurd h.symm Run.success_ne_failure, ?_⟩
    rintro ⟨u', r', hpast, -⟩
    cases (Cursor.past_inj.1 hpast).2
  | cons y r =>
    refine Run.success_inj.trans ⟨?_, ?_⟩
    · rintro ⟨rfl, rfl⟩
      exact .past u [y] r
    · rintro ⟨u', r', hpast, rfl⟩
      obtain ⟨rfl, hr⟩ := Cursor.past_inj.1 hpast
      obtain ⟨rfl, rfl⟩ := List.cons.inj hr
      exact ⟨rfl, rfl⟩

theorem run_anyChars_eq_success_iff (hc : c.Valid) :
    (anyChars n).run ctx c = .success v d ↔ v.length = n ∧ c.Reads v d := by
  induction n generalizing c v with
  | zero =>
    refine Run.success_inj.trans ⟨?_, ?_⟩
    · rintro ⟨rfl, rfl⟩
      exact ⟨rfl, .nil hc⟩
    · rintro ⟨hlength, hreads⟩
      obtain rfl := List.length_eq_zero_iff.1 hlength
      exact ⟨rfl, hreads.unique (.nil hc)⟩
  | succ n ih =>
    rw [anyChars, run, Run.andThen_eq_success_iff]
    constructor
    · rintro ⟨x, e, hx, hrest⟩
      have he := (run_anyChar_eq_success_iff ctx hc).1 hx
      obtain ⟨w, d', hw, hcons⟩ := (Run.andThen_eq_success_iff _).1 hrest
      obtain ⟨rfl, rfl⟩ := Run.success_inj.1 hcons
      obtain ⟨rfl, hd⟩ := (ih he.valid).1 hw
      exact ⟨rfl, he.trans hd⟩
    · rintro ⟨hlength, hreads⟩
      obtain ⟨x, w, rfl⟩ := List.exists_cons_of_length_eq_add_one hlength
      obtain ⟨e, hx, hw⟩ := Cursor.reads_cons_iff.1 hreads
      refine ⟨x, e, (run_anyChar_eq_success_iff ctx hc).2 hx, ?_⟩
      exact (Run.andThen_eq_success_iff _).2
        ⟨w, d, (ih hx.valid).2 ⟨Nat.succ.inj hlength, hw⟩, rfl⟩

/-- Either there are as many units, and they are taken, or there are too few. -/
theorem run_take_cases (hn : 0 < n) (hc : c.Valid) :
    (∃ w e, w.length = n ∧ c.Reads w e ∧ (take n label).run ctx c = .success w e) ∨
    (∀ w e, c.Reads w e → w.length ≠ n) ∧ (take n label).run ctx c = .failure (.of label c) := by
  obtain ⟨u, r, rfl⟩ := Cursor.valid_iff.1 hc
  rw [take, run, Primitive.run_take, if_neg (Nat.ne_of_gt hn)]
  by_cases hr : n ≤ r.length
  · have hreads := Cursor.Reads.past u (r.take n) (r.drop n)
    rw [List.take_append_drop] at hreads
    exact .inl ⟨_, _, List.length_take_of_le hr, hreads, by rw [if_pos hr]; rfl⟩
  · refine .inr ⟨?_, by rw [if_neg hr]; rfl⟩
    rintro w e ⟨u', r', hpast, -⟩ rfl
    obtain ⟨rfl, rfl⟩ := Cursor.past_inj.1 hpast
    exact hr (by simp)

theorem run_take_eq_success_iff (hn : 0 < n) (hc : c.Valid) :
    (take n label).run ctx c = .success v d ↔ v.length = n ∧ c.Reads v d := by
  rcases run_take_cases ctx label hn hc with ⟨w, e, rfl, hw, hrun⟩ | ⟨hshort, hrun⟩
  · rw [hrun, Run.success_inj]
    constructor
    · rintro ⟨rfl, rfl⟩
      exact ⟨rfl, hw⟩
    · rintro ⟨hlength, hv⟩
      -- Of two texts that can be read at one cursor, the number of units tells which.
      obtain ⟨r, -, hr⟩ := hw.rest
      obtain ⟨r', -, hr'⟩ := hv.rest
      have happend := Except.ok.inj (hr.symm.trans hr')
      obtain ⟨rfl, -⟩ := List.append_inj happend hlength.symm
      exact ⟨rfl, hv.unique hw⟩
  · rw [hrun]
    exact ⟨fun h => absurd h.symm Run.success_ne_failure, fun ⟨hlength, hv⟩ =>
      absurd hlength (hshort v d hv)⟩

/-- The units are taken as without a transform, and then looked at. -/
theorem run_takeWith_eq (hn : 0 < n) (transform : Text → α) (test : α → Bool) (c : Cursor) :
    (takeWith n transform test label).run ctx c =
      ((take n label).run ctx c).andThen fun s d =>
        if test (transform s) then .success (transform s) d else .failure (.of label c) := by
  rw [takeWith, take, run, run, Primitive.run, Primitive.run, if_neg (Nat.ne_of_gt hn),
    if_neg (Nat.ne_of_gt hn)]
  rcases c.advance n with e | (_ | d)
  · rfl
  · rfl
  · simp only [Checked.ok_bind, Primitive.between]
    rcases c.sliceTo d with e | s
    · rfl
    · by_cases hs : test (transform s) = true
      · simp only [Checked.ok_bind, if_pos hs]
        exact (if_pos hs).symm
      · simp only [Checked.ok_bind, if_neg hs]
        exact (if_neg hs).symm

theorem run_takeWith_eq_success_iff (hn : 0 < n) {transform : Text → α} {test : α → Bool} {x : α} :
    (takeWith n transform test label).run ctx c = .success x d ↔
      ∃ s, (take n label).run ctx c = .success s d ∧ test (transform s) = true ∧
        x = transform s := by
  rw [run_takeWith_eq ctx label hn, Run.andThen_eq_success_iff]
  constructor
  · rintro ⟨s, e, hs, hlook⟩
    split at hlook
    · next htest =>
      obtain ⟨rfl, rfl⟩ := Run.success_inj.1 hlook
      exact ⟨s, hs, htest, rfl⟩
    · exact absurd hlook.symm Run.success_ne_failure
  · rintro ⟨s, hs, htest, rfl⟩
    exact ⟨s, d, hs, if_pos htest⟩

/-- Moving and taking by numbers of units are exact. There is a move past `n` units exactly if as
    many are left; it leads where `n` moves past one unit do, further on by the bytes of these
    units, and a move past `n + m` units is one past `n` and then one past `m`. Units are taken at
    once exactly where they can be taken one by one, with the same text up to the same cursor, and
    with a transform where moreover the transform passes the test; otherwise the failure has the
    label, and stays where the parser started. No units at all are taken for a misuse, at every
    cursor. -/
theorem take_exact (hc : c.Valid) (n : Nat) :
    (∃ left, c.unitsLeft = .ok left ∧ ((∃ d, c.advance n = .ok (some d)) ↔ n ≤ left) ∧
      (c.advance n = .ok none ↔ left < n)) ∧
    (∀ d, c.advance n = .ok (some d) → Cursor.nextTimes n c = .ok d ∧
      ∃ w : Text, w.length = n ∧ c.Reads w d ∧ d.position = c.position + w.byteLength) ∧
    (∀ m, c.advance (n + m) = c.advance n >>= fun o => o.elim (.ok none) (·.advance m)) ∧
    (0 < n →
      (∀ v d, (take n label).run ctx c = .success v d ↔
        (anyChars n).run ctx c = .success v d) ∧
      ((∀ v d, (anyChars n).run ctx c ≠ .success v d) →
        (take n label).run ctx c = .failure (.of label c)) ∧
      ∀ (transform : Text → α) (test : α → Bool),
        (∀ x d, (takeWith n transform test label).run ctx c = .success x d ↔
          ∃ s, (take n label).run ctx c = .success s d ∧ test (transform s) = true ∧
            x = transform s) ∧
        ((∀ s d, (take n label).run ctx c = .success s d → test (transform s) = false) →
          (takeWith n transform test label).run ctx c = .failure (.of label c))) ∧
    ∀ (e : Cursor) (transform : Text → α) (test : α → Bool),
      (take 0 label).run ctx e =
        .failure (.of ("wrong usage of \"" ++ label ++ "\" parser") e) ∧
      (takeWith 0 transform test label).run ctx e =
        .failure (.of ("wrong usage of \"" ++ label ++ "\" parser") e) := by
  refine ⟨?_, fun d hd => ?_, Cursor.advance_add hc n, fun hn => ⟨fun v d => ?_, fun hno => ?_,
    fun transform test => ⟨fun x d => run_takeWith_eq_success_iff ctx label hn, fun hno => ?_⟩⟩,
    fun e transform test => ⟨rfl, rfl⟩⟩
  · obtain ⟨u, r, rfl⟩ := Cursor.valid_iff.1 hc
    have hleft := Cursor.unitsLeft_past u r
    exact ⟨_, hleft, Cursor.exists_advance_eq_some_iff hleft, Cursor.advance_eq_none_iff hleft⟩
  · obtain ⟨w, rfl, hw⟩ := (Cursor.advance_eq_some_iff hc).1 hd
    exact ⟨hw.nextTimes_eq, w, rfl, hw, hw.position_eq⟩
  · rw [run_take_eq_success_iff ctx label hn hc, run_anyChars_eq_success_iff ctx hc]
  · rcases run_take_cases ctx label hn hc with ⟨w, e, hlength, hw, -⟩ | ⟨-, hrun⟩
    · exact absurd ((run_anyChars_eq_success_iff ctx hc).2 ⟨hlength, hw⟩) (hno w e)
    · exact hrun
  · rw [run_takeWith_eq ctx label hn]
    rcases run_take_cases ctx label hn hc with ⟨w, e, -, -, hrun⟩ | ⟨-, hrun⟩
    · have htest : ¬test (transform w) = true := Bool.eq_false_iff.1 (hno w e hrun)
      rw [hrun]
      exact if_neg htest
    · rw [hrun]
      rfl

/-- Three units of one, three and four bytes, up to the end of the text. -/
theorem take_exact_wide :
    let ctx : Context ⟨0, nofun, Unit, Unit⟩ := ⟨nofun, 0⟩
    let c : Cursor := .past ['é'] ['x', '€', '𝄞']
    let d : Cursor := .past ['é', 'x', '€', '𝄞'] []
    c.Valid ∧ Cursor.nextTimes 3 c = .ok d ∧ d.position = c.position + 8 ∧
      c.advance (3 + 1) = .ok none ∧
      (take 3 "three").run ctx c = .success ['x', '€', '𝄞'] d ∧
      (takeWith 3 List.length (· == 2) "three").run ctx c = .failure (.of "three" c) := by
  intro ctx c d
  have hc : c.Valid := Cursor.valid_past _ _
  have hreads : c.Reads ['x', '€', '𝄞'] d := .past ['é'] ['x', '€', '𝄞'] []
  have hd : c.advance 3 = .ok (some d) := (Cursor.advance_eq_some_iff hc).2 ⟨_, rfl, hreads⟩
  obtain ⟨-, hmove, hadd, htake, -⟩ := take_exact (α := Nat) ctx "three" hc 3
  obtain ⟨hsame, -, hwith⟩ := htake (by decide)
  have hrun : (take 3 "three").run ctx c = .success ['x', '€', '𝄞'] d :=
    (hsame _ d).2 ((run_anyChars_eq_success_iff ctx hc).2 ⟨rfl, hreads⟩)
  refine ⟨hc, (hmove d hd).1, by decide, ?_, hrun, (hwith List.length (· == 2)).2 fun s e hs => ?_⟩
  · rw [hadd 1, hd]
    rfl
  · obtain ⟨rfl, rfl⟩ := Run.success_inj.1 (hrun.symm.trans hs)
    rfl

end Parser

end TextParsing
