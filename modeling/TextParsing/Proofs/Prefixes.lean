import TextParsing.Parser
import TextParsing.Proofs.Primitive
import TextParsing.Proofs.Run

/-!
# Literals at the start of a text

The parser of a literal compares it with the unread text unit by unit, and counts the bytes of
the units that it has come past. The comparison comes to an end in three ways: the literal is
used up, or two units differ, or the text ends before the literal does. Only the first one is a
match, and then the units that were counted are those of the literal. So the count is its
UTF-8 length (`Text.matchPrefix?_eq_some_iff`), and the parser succeeds exactly where the
literal is read (`Parser.run_literal_eq_success_iff`). As reading two texts one after the other
is reading both of them as one (`Cursor.reads_append_iff`), a literal may be cut into pieces
anywhere.

Main statement: `Parser.literal_exact`.
-/

namespace TextParsing

open Text

variable {w v : Text}

/-! ### The comparison -/

theorem Text.matchPrefix?_eq_some_iff {s : Text} {n : Nat} :
    matchPrefix? w s = some n ↔ (∃ t, s = w ++ t) ∧ n = w.bytes.length := by
  rw [matchPrefix?_eq, length_bytes, Option.ite_none_right_eq_some, Option.some.injEq]
  exact and_congr (exists_congr fun _ => eq_comm) eq_comm

theorem Text.matchPrefix?_eq_none_iff {s : Text} :
    matchPrefix? w s = none ↔ ¬∃ t, s = w ++ t := by
  rw [matchPrefix?_eq]
  constructor
  · rintro h ⟨t, rfl⟩
    rw [if_pos (List.prefix_append w t)] at h
    cases h
  · intro h
    refine if_neg ?_
    rintro ⟨t, rfl⟩
    exact h ⟨t, rfl⟩

/-! ### Reading in pieces -/

namespace Cursor

variable {c d : Cursor}

theorem reads_append_iff : c.Reads (w ++ v) d ↔ ∃ e, c.Reads w e ∧ e.Reads v d := by
  constructor
  · rintro ⟨u, r, rfl, rfl⟩
    refine ⟨past (u ++ w) (v ++ r), ?_, ?_⟩
    · rw [List.append_assoc]
      exact .past u w (v ++ r)
    · rw [← List.append_assoc]
      exact .past (u ++ w) v r
  · rintro ⟨e, hw, hv⟩
    exact hw.trans hv

/-- A text can be read where the unread text starts with it. -/
theorem exists_reads_iff {t : Text} :
    (∃ d, c.Reads w d ∧ d.rest = .ok t) ↔ c.rest = .ok (w ++ t) := by
  constructor
  · rintro ⟨d, hreads, hd⟩
    obtain ⟨r, hr, hc⟩ := hreads.rest
    obtain rfl : r = t := Except.ok.inj (hr.symm.trans hd)
    exact hc
  · intro hc
    obtain ⟨u, rfl⟩ := rest_eq_ok_iff.1 hc
    exact ⟨past (u ++ w) t, .past u w t, rest_past _ _⟩

end Cursor

/-! ### The parser -/

namespace Parser

variable {S : Signature} (ctx : Context S) {c d : Cursor}

theorem run_literal_of_reads (h : c.Reads w d) : (literal w).run ctx c = .success w d := by
  obtain ⟨u, r, rfl, rfl⟩ := h
  rw [literal, run, Primitive.run_literal, if_pos (List.prefix_append w r), List.drop_left]
  rfl

theorem run_literal_of_not_reads (hc : c.Valid) (h : ∀ d, ¬c.Reads w d) :
    (literal w).run ctx c = .failure (.of "string" c) := by
  obtain ⟨u, r, rfl⟩ := Cursor.valid_iff.1 hc
  have hw : ¬w <+: r := by
    rintro ⟨t, rfl⟩
    exact h _ (.past u w t)
  rw [literal, run, Primitive.run_literal, if_neg hw]
  rfl

theorem run_literal_eq_success_iff (hc : c.Valid) :
    (literal w).run ctx c = .success v d ↔ v = w ∧ c.Reads w d := by
  by_cases h : ∃ e, c.Reads w e
  · obtain ⟨e, he⟩ := h
    rw [run_literal_of_reads ctx he, Run.success_inj]
    constructor
    · rintro ⟨rfl, rfl⟩
      exact ⟨rfl, he⟩
    · rintro ⟨rfl, hd⟩
      exact ⟨rfl, hd.unique he⟩
  · rw [run_literal_of_not_reads ctx hc (not_exists.1 h)]
    exact ⟨fun hf => absurd hf.symm Run.success_ne_failure, fun ⟨_, hd⟩ => absurd ⟨d, hd⟩ h⟩

theorem run_andThen_literal_eq_success_iff {w' : Text} (hc : c.Valid) :
    (andThen (literal w) (literal w')).run ctx c = .success v d ↔
      v = w' ∧ ∃ e, c.Reads w e ∧ e.Reads w' d := by
  rw [run, Run.andThen_eq_success_iff]
  constructor
  · rintro ⟨x, e, hfirst, hsecond⟩
    obtain ⟨-, he⟩ := (run_literal_eq_success_iff ctx hc).1 hfirst
    obtain ⟨hv, hd⟩ := (run_literal_eq_success_iff ctx he.valid).1 hsecond
    exact ⟨hv, e, he, hd⟩
  · rintro ⟨rfl, e, he, hd⟩
    exact ⟨w, e, run_literal_of_reads ctx he, run_literal_of_reads ctx hd⟩

/-- The parser of a literal is exact. The comparison gives the UTF-8 length of the literal if the
    text starts with it, and nothing otherwise; so the parser succeeds with the literal, and
    leaves what follows it in the text, or fails where it stands. A literal in two pieces
    succeeds where their concatenation does, and ends where it does. -/
theorem literal_exact (hc : c.Valid) (w : Text) :
    (∀ s n, matchPrefix? w s = some n ↔ (∃ t, s = w ++ t) ∧ n = w.bytes.length) ∧
    (∀ s, matchPrefix? w s = none ↔ ¬∃ t, s = w ++ t) ∧
    (∀ t, c.rest = .ok (w ++ t) →
      ∃ d, c.Reads w d ∧ d.rest = .ok t ∧ (literal w).run ctx c = .success w d) ∧
    ((¬∃ t, c.rest = .ok (w ++ t)) → (literal w).run ctx c = .failure (.of "string" c)) ∧
    ∀ w₁ w₂ d, (∃ v, (literal (w₁ ++ w₂)).run ctx c = .success v d) ↔
      ∃ v, (andThen (literal w₁) (literal w₂)).run ctx c = .success v d := by
  refine ⟨fun s n => matchPrefix?_eq_some_iff, fun s => matchPrefix?_eq_none_iff, fun t ht => ?_,
    fun hno => ?_, fun w₁ w₂ d => ?_⟩
  · obtain ⟨d, hreads, hd⟩ := Cursor.exists_reads_iff.2 ht
    exact ⟨d, hreads, hd, run_literal_of_reads ctx hreads⟩
  · refine run_literal_of_not_reads ctx hc fun d hreads => hno ?_
    obtain ⟨t, -, ht⟩ := hreads.rest
    exact ⟨t, ht⟩
  · simp only [run_literal_eq_success_iff ctx hc, run_andThen_literal_eq_success_iff ctx hc,
      Cursor.reads_append_iff, exists_eq_left]

/-- The text ends before the literal does, and before the second piece of it. -/
theorem literal_exact_short :
    let ctx : Context ⟨0, nofun, Unit, Unit⟩ := ⟨nofun, 0⟩
    let c : Cursor := .past ['x'] ['α', 'β', 'γ']
    let d : Cursor := .past ['x', 'α', 'β'] ['γ']
    c.Valid ∧ matchPrefix? ['α', 'β'] ['α', 'β', 'γ'] = some 4 ∧
      (literal ['α', 'β']).run ctx c = .success ['α', 'β'] d ∧
      (literal ['α', 'β', 'γ', 'δ']).run ctx c = .failure (.of "string" c) ∧
      ∃ v, (andThen (literal ['α']) (literal ['β'])).run ctx c = .success v d := by
  intro ctx c d
  have hc : c.Valid := Cursor.valid_past _ _
  have hd : c.Reads ['α', 'β'] d := .past ['x'] ['α', 'β'] ['γ']
  obtain ⟨hmatch, -, hruns, -, hpieces⟩ := literal_exact ctx hc ['α', 'β']
  obtain ⟨-, -, -, hfails, -⟩ := literal_exact ctx hc ['α', 'β', 'γ', 'δ']
  obtain ⟨e, he, -, hrun⟩ := hruns ['γ'] (Cursor.rest_past _ _)
  obtain rfl := hd.unique he
  refine ⟨hc, (hmatch _ 4).2 ⟨⟨['γ'], rfl⟩, by decide⟩, hrun, hfails ?_,
    (hpieces ['α'] ['β'] d).1 ⟨_, hrun⟩⟩
  rintro ⟨t, ht⟩
  cases (Cursor.rest_past _ _).symm.trans ht

end Parser

end TextParsing
