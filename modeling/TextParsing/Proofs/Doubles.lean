import TextParsing.Parser
import TextParsing.Proofs.Numeral.Double
import TextParsing.Proofs.Primitive
import TextParsing.Proofs.Run

/-!
# The parser of doubles

The parser of doubles looks for a literal in the unread text, cuts it out, and reads it
again, on its own, as a double. The two steps agree. What is found is the longest literal
that the unread text starts with (`Literal.IsLongest`), which is a literal whatever
followed it; so when the second step gives nothing, the number was too large.

Where the parser can end is said once (`run_double_cases`): at the cursor at which it
started, if there is no literal there, and else after the longest literal.

Main statement: `Parser.double_exact`.
-/

namespace TextParsing

open Text

/-! ### The longest literal of a text -/

namespace Literal

variable {w v : Text}

/-- The longest literal that a text starts with. -/
structure IsLongest (r w : Text) : Prop where
  start : w <+: r
  mem : w.bytes ∈ words
  longest : ∀ w' : Text, w' <+: r → w'.bytes ∈ words → w' <+: w

/-- What the search finds is the longest literal. -/
theorem isLongest_of_length?_eq (h : length? (w ++ v) = .ok (some w.byteLength)) :
    IsLongest (w ++ v) w := by
  rw [length?_eq, Except.ok.injEq, Option.map_eq_some_iff] at h
  obtain ⟨bs, hbs, hlength⟩ := h
  have hlongest := longest_words (bytes (w ++ v))
  rw [hbs] at hlongest
  obtain ⟨hmem, hstart, hmax⟩ := hlongest
  -- Of the bytes that the text starts with, the length tells which.
  obtain rfl : bs = w.bytes := by
    rw [bytes_append] at hstart
    exact (List.prefix_of_prefix_length_le hstart (List.prefix_append _ _)
      (by rw [hlength, length_bytes])).eq_of_length (by rw [hlength, length_bytes])
  refine ⟨List.prefix_append w v, hmem, fun w' hw' hmem' => ?_⟩
  have hle := hmax _ hmem' (bytes_isPrefix hw')
  rw [length_bytes, length_bytes] at hle
  exact isPrefix_of_byteLength_le hw' (List.prefix_append w v) hle

theorem length?_eq_none_iff (r : Text) :
    length? r = .ok none ↔ ∀ w : Text, w <+: r → w.bytes ∉ words := by
  constructor
  · intro h w hw hmem
    rw [length?_eq, Except.ok.injEq, Option.map_eq_none_iff] at h
    have hlongest := longest_words r.bytes
    rw [h] at hlongest
    exact hlongest _ hmem (bytes_isPrefix hw)
  · intro h
    rcases exists_length?_eq r with hnone | ⟨w, v, rfl, hsome⟩
    · exact hnone
    · have hlongest := isLongest_of_length?_eq hsome
      exact absurd hlongest.mem (h w hlongest.start)

theorem ne_nil_of_mem_words (h : w.bytes ∈ words) : w ≠ [] := by
  rintro rfl
  exact nomatch (length?_eq_byteLength_iff []).2 h

end Literal

/-! ### The parser -/

namespace Parser

open Literal

variable {S : Signature} (ctx : Context S) {c : Cursor}

/-- Either there is no literal, or the parser ends after the longest one, with what it is read
    as. -/
theorem run_double_cases (u r : Text) :
    ((∀ w : Text, w <+: r → w.bytes ∉ words) ∧
      double.run ctx (.past u r) = .failure (.of "double" (.past u r))) ∨
    ∃ w v x, r = w ++ v ∧ IsLongest r w ∧ toDouble w = .ok x ∧
      double.run ctx (.past u r) =
        x.elim (.failure (.of "double" (.past (u ++ w) v))) (.success · (.past (u ++ w) v)) := by
  have hrun : double.run ctx (.past u r) = .ofChecked (Primitive.runDouble (.past u r)) := rfl
  rw [hrun, Primitive.runDouble, Cursor.rest_past, Checked.ok_bind]
  rcases exists_length?_eq r with hnone | ⟨w, v, rfl, hsome⟩
  · rw [hnone]
    exact .inl ⟨(length?_eq_none_iff r).1 hnone, rfl⟩
  · -- The literal is cut out of the text and read again, on its own.
    obtain ⟨x, hx⟩ := exists_toDouble_eq w
    refine .inr ⟨w, v, x, rfl, isLongest_of_length?_eq hsome, hx, ?_⟩
    simp only [hsome, Checked.ok_bind, Cursor.forward_past, Cursor.sliceTo_past, hx]
    cases x <;> rfl

/-- The parser stands still exactly if there is no literal. -/
theorem run_double_eq_still_iff (u r : Text) :
    double.run ctx (.past u r) = .failure (.of "double" (.past u r)) ↔
      ∀ w : Text, w <+: r → w.bytes ∉ words := by
  rcases run_double_cases ctx u r with ⟨hno, hrun⟩ | ⟨w, v, x, rfl, hlongest, -, hrun⟩
  · exact ⟨fun _ => hno, fun _ => hrun⟩
  · refine ⟨fun hstill => ?_, fun hno => absurd hlongest.mem (hno w hlongest.start)⟩
    rw [hrun] at hstill
    cases x with
    | some x => exact absurd hstill Run.success_ne_failure
    | none =>
      -- A literal is not empty, so that the cursor has moved.
      have hcursor := congrArg Failure.cursor (Run.failure_inj.1 hstill)
      have hread := List.append_right_eq_self.1 (Cursor.past_inj.1 hcursor).1
      exact absurd hread (ne_nil_of_mem_words hlongest.mem)

/-- The parser takes a whole text exactly if the text is read as a double. -/
theorem run_double_start_iff (t : Text) (x : Binary64) :
    (∃ d, double.run ctx (.start t) = .success x d ∧ d.atEnd = true) ↔
      toDouble t = .ok (some x) := by
  rw [Cursor.start_eq]
  rcases run_double_cases ctx [] t with ⟨hno, hrun⟩ | ⟨w, v, y, rfl, hlongest, hy, hrun⟩
  · rw [hrun, toDouble_of_not_mem_words (hno t List.prefix_rfl)]
    exact ⟨fun ⟨_, hd, _⟩ => absurd hd.symm Run.success_ne_failure, (nomatch ·)⟩
  · rw [hrun]
    constructor
    · rintro ⟨d, hd, hend⟩
      cases y with
      | none => exact absurd hd.symm Run.success_ne_failure
      | some y =>
        obtain ⟨rfl, rfl⟩ := Run.success_inj.1 hd
        obtain rfl := (Cursor.atEnd_past _ _).1 hend
        rw [List.append_nil, hy]
    · intro hx
      -- The whole text is a literal, and so the longest one.
      have hmem : bytes (w ++ v) ∈ words := by
        by_contra hno
        rw [toDouble_of_not_mem_words hno] at hx
        exact nomatch hx
      have hle := (hlongest.longest _ List.prefix_rfl hmem).length_le
      obtain rfl : v = [] := List.length_eq_zero_iff.1 (by rw [List.length_append] at hle; omega)
      rw [List.append_nil, hy] at hx
      obtain rfl := Except.ok.inj hx
      exact ⟨_, rfl, (Cursor.atEnd_past _ _).2 rfl⟩

/-- The parser of doubles is exact. It takes the longest literal that the unread text starts with,
    and fails where it stands if there is none. Otherwise it ends after the literal, with the double
    that the literal is read as; or with a failure, if its number is too large for a double, and
    only then. So a whole text is taken exactly if it can be read. -/
theorem double_exact (hc : c.Valid) :
    (∃ r, c.rest = .ok r ∧
      (double.run ctx c = .failure (.of "double" c) ↔ ∀ w : Text, w <+: r → w.bytes ∉ words) ∧
      ((∃ w : Text, w <+: r ∧ w.bytes ∈ words) → ∃ w d q x,
        IsLongest r w ∧ c.Reads w d ∧ Literal.Denotes w q ∧ toDouble w = .ok x ∧
        double.run ctx c = x.elim (.failure (.of "double" d)) (.success · d) ∧
        (double.run ctx c = .failure (.of "double" d) ↔ 2 ^ 1024 - 2 ^ 970 ≤ |q|))) ∧
    ∀ t x, (∃ d, double.run ctx (.start t) = .success x d ∧ d.atEnd = true) ↔
      toDouble t = .ok (some x) := by
  refine ⟨?_, run_double_start_iff ctx⟩
  obtain ⟨u, r, rfl⟩ := Cursor.valid_iff.1 hc
  refine ⟨r, Cursor.rest_past u r, run_double_eq_still_iff ctx u r, fun ⟨w₀, hstart, hmem⟩ => ?_⟩
  rcases run_double_cases ctx u r with ⟨hno, -⟩ | ⟨w, v, x, rfl, hlongest, hx, hrun⟩
  · exact absurd hmem (hno w₀ hstart)
  · obtain ⟨q, hq⟩ := (mem_words_iff w).1 hlongest.mem
    refine ⟨w, _, q, x, hlongest, .past u w v, hq, hx, hrun, ?_⟩
    have hlarge : toDouble w = .ok none ↔ 2 ^ 1024 - 2 ^ 970 ≤ |q| := hq.toDouble_eq_none_iff
    rw [hrun, ← hlarge, hx]
    cases x <;> simp

/-- A number that is too large fails after its literal, before the point that follows it. -/
theorem double_exact_overflow :
    let ctx : Context ⟨0, nofun, Unit, Unit⟩ := ⟨nofun, 0⟩
    let r : Text := ['1', 'e', '4', '0', '0', '.']
    let c : Cursor := .past ['é'] r
    c.Valid ∧ ∃ w d q, IsLongest r w ∧ c.Reads w d ∧ Literal.Denotes w q ∧
      double.run ctx c = .failure (.of "double" d) ∧ 2 ^ 1024 - 2 ^ 970 ≤ |q| := by
  intro ctx r c
  have hc : c.Valid := Cursor.valid_past _ _
  obtain ⟨⟨r', hr, -, hliteral⟩, -⟩ := double_exact ctx hc
  obtain rfl : r = r' := Except.ok.inj ((Cursor.rest_past _ _).symm.trans hr)
  have hone : Text.bytes ['1'] ∈ words := (length?_eq_byteLength_iff ['1']).1 rfl
  obtain ⟨w, d, q, x, hlongest, hreads, hq, -, hrun, hlarge⟩ :=
    hliteral ⟨['1'], by decide, hone⟩
  have hfails : (double.run ctx c).Fails := by decide +kernel
  cases x with
  | some x =>
    rw [hrun] at hfails
    obtain ⟨f, hf⟩ := hfails
    cases hf
  | none => exact ⟨hc, w, d, q, hlongest, hreads, hq, hrun, hlarge.1 hrun⟩

end Parser

end TextParsing
