import TextParsing.Proofs.Cursor
import TextParsing.Proofs.Numeral.Denotation
import TextParsing.Proofs.Numeral.Literal

/-!
# Primitives on the unread text

What each primitive does at a valid cursor, in terms of the text that is read and
of the text that is not. The offsets that a primitive computes on its way are gone
from these descriptions, and so are the faults: at a valid cursor there are none.

All primitives have one thing in common (`Primitive.run_settled`): the verdict, and how
far the primitive reads, depend on the unread text alone, and what is read is a
start of it.
-/

namespace TextParsing

/-- The outcome with this verdict at this cursor. -/
def Outcome.ofVerdict {α : Type} (c : Cursor) : Except ParseError α → Outcome α
  | .ok v => .success v c
  | .error e => .failure ⟨e, c⟩

namespace Primitive

open Cursor

/-- With `r` unread, `f` looks at nothing else: it reads a start of `r`, and comes to a
    verdict. -/
def Settled {α : Type} (f : Cursor → Checked (Outcome α)) (r : Text) : Prop :=
  ∃ (verdict : Except ParseError α) (w v : Text), r = w ++ v ∧
    ∀ u, f (past u r) = .ok (.ofVerdict (past (u ++ w) v) verdict)

variable {α σ : Type} (u r : Text)

/-- A verdict that is given without moving. -/
theorem Settled.still {f : Cursor → Checked (Outcome α)} {r : Text}
    (verdict : Except ParseError α) (h : ∀ u, f (past u r) = .ok (.ofVerdict (past u r) verdict)) :
    Settled f r :=
  ⟨verdict, [], r, rfl, fun u => by rw [h, List.append_nil]⟩

/-! ### One unit -/

/-- What the parsers of one unit come to, with `u` read. -/
def oneUnit (transform : Char → α) (test : Char → Bool) (label : String) (u : Text) :
    Text → Outcome α
  | [] => .refuse label (past u [])
  | x :: v =>
    if test x then .success (transform x) (past (u ++ [x]) v) else .refuse label (past u (x :: v))

theorem run_satisfy (test : Char → Bool) (label : String) :
    (satisfy test label).run (past u r) = .ok (oneUnit id test label u r) := by
  cases r with
  | nil => simp [run, oneUnit]
  | cons x v => by_cases hx : test x <;> simp [run, oneUnit, hx]

theorem run_satisfyWith (transform : Char → α) (test : α → Bool) (label : String) :
    (satisfyWith transform test label).run (past u r) =
      .ok (oneUnit transform (fun x => test (transform x)) label u r) := by
  cases r with
  | nil => simp [run, oneUnit]
  | cons x v => by_cases hx : test (transform x) <;> simp [run, oneUnit, hx]

theorem run_skip (test : Char → Bool) (label : String) :
    (skip test label).run (past u r) = .ok (oneUnit (fun _ => ()) test label u r) := by
  cases r with
  | nil => simp [run, oneUnit]
  | cons x v => by_cases hx : test x <;> simp [run, oneUnit, hx]

theorem run_anyChar :
    anyChar.run (past u r) = .ok (oneUnit id (fun _ => true) "anyChar" u r) := by
  cases r <;> simp [run, oneUnit]

theorem Settled.oneUnit {f : Cursor → Checked (Outcome α)} {r : Text} {transform : Char → α}
    {test : Char → Bool} {label : String}
    (h : ∀ u, f (past u r) = .ok (oneUnit transform test label u r)) : Settled f r := by
  cases r with
  | nil => exact .still (.error ⟨label⟩) h
  | cons x v =>
    by_cases hx : test x
    · exact ⟨.ok (transform x), [x], v, rfl, fun u => by rw [h, Primitive.oneUnit, if_pos hx]; rfl⟩
    · exact .still (.error ⟨label⟩) fun u => by rw [h, Primitive.oneUnit, if_neg hx]; rfl

/-! ### A run of units -/

theorem between_past {w v : Text} (h : r = w ++ v) :
    between (past u r) (past (u ++ w) v) = .ok (.success w (past (u ++ w) v)) := by
  subst h
  rw [between, sliceTo_past]
  rfl

theorem run_take (count : Nat) (label : String) :
    (take count label).run (past u r) = .ok (
      if count = 0 then .failure ⟨.misuse label, past u r⟩
      else if count ≤ r.length then
        .success (r.take count) (past (u ++ r.take count) (r.drop count))
      else .refuse label (past u r)) := by
  by_cases hc : count = 0
  · simp [run, hc]
  · by_cases hr : count ≤ r.length
    · simp [run, hc, hr, advance_past, between_past u r (List.take_append_drop count r).symm]
    · simp [run, hc, hr, advance_past]

theorem run_takeWith (count : Nat) (transform : Text → α) (test : α → Bool) (label : String) :
    (takeWith count transform test label).run (past u r) = .ok (
      if count = 0 then .failure ⟨.misuse label, past u r⟩
      else if count ≤ r.length ∧ test (transform (r.take count)) then
        .success (transform (r.take count)) (past (u ++ r.take count) (r.drop count))
      else .refuse label (past u r)) := by
  by_cases hc : count = 0
  · simp [run, hc]
  · by_cases hr : count ≤ r.length
    · have hslice := sliceTo_past u (r.take count) (r.drop count)
      rw [List.take_append_drop] at hslice
      by_cases ht : test (transform (r.take count)) <;>
        simp [run, hc, hr, ht, advance_past, hslice]
    · simp [run, hc, hr, advance_past]

theorem run_literal (text : Text) :
    (literal text).run (past u r) = .ok (
      if text <+: r then .success text (past (u ++ text) (r.drop text.length))
      else .refuse "string" (past u r)) := by
  by_cases ht : text <+: r
  · obtain ⟨v, rfl⟩ := ht
    simp [run, Text.matchPrefix?_eq, forward_past, between_past]
  · simp [run, Text.matchPrefix?_eq, ht]

theorem run_takeWhile (test : Char → Bool) :
    (takeWhile test).run (past u r) =
      .ok (.success (r.takeWhile test) (past (u ++ r.takeWhile test) (r.dropWhile test))) := by
  simp [run, runTakeWhile, advanceWhile_past, between_past u r List.takeWhile_append_dropWhile.symm]

/-- The cursor stands still exactly if no unit passes the test at once. -/
theorem runTakeWhile1_past (test : Char → Bool) :
    runTakeWhile1 test (past u r) = .ok (
      if r.takeWhile test = [] then .refuse "tailWhile1" (past u r)
      else .success (r.takeWhile test) (past (u ++ r.takeWhile test) (r.dropWhile test))) := by
  have hstill : past (u ++ r.takeWhile test) (r.dropWhile test) = past u r ↔
      r.takeWhile test = [] := by
    rw [past_inj]
    constructor
    · intro h
      exact List.append_cancel_left (h.1.trans (List.append_nil u).symm)
    · intro h
      have := List.takeWhile_append_dropWhile (p := test) (l := r)
      rw [h, List.nil_append] at this
      exact ⟨by rw [h, List.append_nil], this⟩
  rw [runTakeWhile1, advanceWhile_past, Checked.ok_bind]
  by_cases h : r.takeWhile test = []
  · rw [if_pos (hstill.2 h), if_pos h]
    rfl
  · rw [if_neg (mt hstill.1 h), if_neg h, between_past u r List.takeWhile_append_dropWhile.symm]

theorem run_takeText :
    takeText.run (past u r) = .ok (.success r (past (u ++ r) [])) := by
  have := forward_past u r []
  rw [List.append_nil] at this
  simp [run, this]

/-! ### Scanners -/

theorem runScan_past {initial final : σ} {step : σ → Char → Option σ} {w v : Text}
    (h : Text.IsScan step initial w v final) :
    runScan initial step (past u (w ++ v)) = .ok (w, final, past (u ++ w) v) := by
  simp [runScan, h.scanFrom_eq, forward_past, sliceTo_past]

theorem exists_runScan_eq (initial : σ) (step : σ → Char → Option σ) :
    ∃ (w v : Text) (final : σ), r = w ++ v ∧
      ∀ u, runScan initial step (past u r) = .ok (w, final, past (u ++ w) v) := by
  obtain ⟨w, v, final, rfl, hscan⟩ := Text.exists_isScan step initial r
  exact ⟨w, v, final, rfl, fun u => runScan_past u hscan⟩

/-! ### Numbers -/

theorem exists_afterSign_eq :
    ∃ s v : Text, r = s ++ v ∧ ∀ u, afterSign (past u r) = .ok (past (u ++ s) v) := by
  by_cases h : r.head? = some '+' ∨ r.head? = some '-'
  · -- A sign is the first unit, and the cursor moves past it.
    obtain ⟨x, v, rfl⟩ : ∃ x v, r = x :: v := by
      cases r with
      | nil => simp at h
      | cons x v => exact ⟨x, v, rfl⟩
    refine ⟨[x], v, rfl, fun u => ?_⟩
    simp only [List.head?_cons, Option.some.injEq] at h
    rcases h with rfl | rfl <;> simp [afterSign]
  · refine ⟨[], r, rfl, fun u => ?_⟩
    rw [afterSign, value_past, Checked.ok_bind, List.append_nil]
    split
    · next hplus => exact absurd (.inl hplus) h
    · next hminus => exact absurd (.inr hminus) h
    · rfl

/-- A number that is out of range fails where it would have succeeded. -/
theorem inRange_eq (label : String) (d : Cursor) (v : Option α) :
    inRange label d v = .ofVerdict d (v.elim (.error ⟨label⟩) .ok) := by
  cases v <;> rfl

theorem runUnsigned_settled (w : Width) : Settled (runUnsigned w) r := by
  by_cases hd : r.takeWhile Text.isDigit = []
  · refine .still (.error ⟨"tailWhile1"⟩) fun u => ?_
    rw [runUnsigned, runTakeWhile1_past, if_pos hd]
    rfl
  · obtain ⟨n, hn⟩ : ∃ n, toUnsigned w (r.takeWhile Text.isDigit) = .ok n := ⟨_, toUnsigned_eq w _⟩
    refine ⟨n.elim (.error ⟨(IntKind.unsigned w).label⟩) .ok, r.takeWhile Text.isDigit,
      r.dropWhile Text.isDigit, List.takeWhile_append_dropWhile.symm, fun u => ?_⟩
    rw [runUnsigned, runTakeWhile1_past, if_neg hd, Checked.ok_bind]
    simp only [hn, Checked.ok_bind, inRange_eq]
    rfl

theorem runSigned_settled (w : Width) : Settled (runSigned w) r := by
  obtain ⟨sign, t, rfl, hsign⟩ := exists_afterSign_eq r
  by_cases hd : t.takeWhile Text.isDigit = []
  · refine ⟨.error ⟨"tailWhile1"⟩, sign, t, rfl, fun u => ?_⟩
    rw [runSigned, hsign, Checked.ok_bind, runTakeWhile1_past, if_pos hd]
    rfl
  · -- The sign and the digits are read again, as one text.
    obtain ⟨n, hn⟩ := exists_toSigned_eq w (sign ++ t.takeWhile Text.isDigit)
    have hsplit : sign ++ t = (sign ++ t.takeWhile Text.isDigit) ++ t.dropWhile Text.isDigit := by
      rw [List.append_assoc, List.takeWhile_append_dropWhile]
    refine ⟨n.elim (.error ⟨(IntKind.signed w).label⟩) .ok, _, _, hsplit, fun u => ?_⟩
    have hslice := sliceTo_past u (sign ++ t.takeWhile Text.isDigit) (t.dropWhile Text.isDigit)
    rw [← hsplit] at hslice
    rw [runSigned, hsign, Checked.ok_bind, runTakeWhile1_past, if_neg hd, Checked.ok_bind,
      List.append_assoc]
    simp only [hslice, Checked.ok_bind, hn, inRange_eq]
    rfl

theorem runDouble_settled : Settled runDouble r := by
  rcases Literal.exists_length?_eq r with hnone | ⟨w, v, rfl, hsome⟩
  · refine .still (.error ⟨"double"⟩) fun u => ?_
    rw [runDouble, rest_past, Checked.ok_bind, hnone]
    rfl
  · -- The literal is cut out of the text and read again, on its own.
    obtain ⟨x, hx⟩ := exists_toDouble_eq w
    refine ⟨x.elim (.error ⟨"double"⟩) .ok, w, v, rfl, fun u => ?_⟩
    rw [runDouble, rest_past, Checked.ok_bind, hsome]
    simp only [Checked.ok_bind, forward_past, sliceTo_past, hx, inRange_eq]
    rfl

/-! ### All of them -/

theorem run_settled (p : Primitive α) (r : Text) : Settled p.run r := by
  cases p with
  | satisfy test label => exact .oneUnit fun u => run_satisfy u r test label
  | satisfyWith transform test label =>
    exact .oneUnit fun u => run_satisfyWith u r transform test label
  | skip test label => exact .oneUnit fun u => run_skip u r test label
  | anyChar => exact .oneUnit fun u => run_anyChar u r
  | take count label =>
    by_cases hc : count = 0
    · exact .still (.error (.misuse label)) fun u => by rw [run_take, if_pos hc]; rfl
    · by_cases hr : count ≤ r.length
      · exact ⟨.ok (r.take count), r.take count, r.drop count, (List.take_append_drop count r).symm,
          fun u => by rw [run_take, if_neg hc, if_pos hr]; rfl⟩
      · exact .still (.error ⟨label⟩) fun u => by rw [run_take, if_neg hc, if_neg hr]; rfl
  | takeWith count transform test label =>
    by_cases hc : count = 0
    · exact .still (.error (.misuse label)) fun u => by rw [run_takeWith, if_pos hc]; rfl
    · by_cases hr : count ≤ r.length ∧ test (transform (r.take count))
      · exact ⟨.ok (transform (r.take count)), r.take count, r.drop count,
          (List.take_append_drop count r).symm,
          fun u => by rw [run_takeWith, if_neg hc, if_pos hr]; rfl⟩
      · exact .still (.error ⟨label⟩) fun u => by rw [run_takeWith, if_neg hc, if_neg hr]; rfl
  | literal text =>
    by_cases ht : text <+: r
    · exact ⟨.ok text, text, r.drop text.length, (List.prefix_iff_eq_append.1 ht).symm,
        fun u => by rw [run_literal, if_pos ht]; rfl⟩
    · exact .still (.error ⟨"string"⟩) fun u => by rw [run_literal, if_neg ht]; rfl
  | takeWhile test =>
    exact ⟨.ok (r.takeWhile test), r.takeWhile test, r.dropWhile test,
      List.takeWhile_append_dropWhile.symm, fun u => run_takeWhile u r test⟩
  | takeWhile1 test =>
    by_cases ht : r.takeWhile test = []
    · exact .still (.error ⟨"tailWhile1"⟩) fun u => by
        rw [run, runTakeWhile1_past, if_pos ht]; rfl
    · exact ⟨.ok (r.takeWhile test), r.takeWhile test, r.dropWhile test,
        List.takeWhile_append_dropWhile.symm,
        fun u => by rw [run, runTakeWhile1_past, if_neg ht]; rfl⟩
  | takeText => exact ⟨.ok r, r, [], (List.append_nil r).symm, fun u => run_takeText u r⟩
  | runScanner initial step written =>
    obtain ⟨w, v, final, hr, hscan⟩ := exists_runScan_eq r initial step
    exact ⟨.ok (w, final), w, v, hr, fun u => by rw [run, hscan]; rfl⟩
  | scan initial step written =>
    obtain ⟨w, v, final, hr, hscan⟩ := exists_runScan_eq r initial step
    exact ⟨.ok w, w, v, hr, fun u => by rw [run, hscan]; rfl⟩
  | unsigned w => exact runUnsigned_settled r w
  | signed w => exact runSigned_settled r w
  | double => exact runDouble_settled r
  | succeed value written => exact .still (.ok value) fun u => rfl
  | fail label => exact .still (.error ⟨label⟩) fun u => rfl

end Primitive

end TextParsing
