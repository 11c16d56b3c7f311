import TextParsing.Parser
import TextParsing.Proofs.Primitive
import TextParsing.Proofs.Run

/-!
# Parsers of integers

The parser of a kind of integers from end to end: what it takes from the text at a cursor,
what it comes to, and at which cursor. It takes a sign, if the kind has signs
(`Cursor.ReadsSign`), and then as many digits as there are (`Cursor.ReadsDigits`). Every
valid cursor has such a sign and such digits, and they determine the outcome: without
digits there is nothing to read, and otherwise the sign and the digits are read again,
together, as one numeral (`run_integer_eq`). This numeral is always well formed, so the
only thing that can be wrong with it is that its integer is out of range
(`run_integer_of_denotes`).

* `Parser.integer_exact`: the outcome at every valid cursor, for every kind;
* `Parser.integer_render`: an integer that is written in decimal (`Numeral.render`) is read
  back. The digits end where the written integer does, unless a digit follows it; and
  zeros in front of them do not count.
-/

namespace TextParsing

open Text

/-! ### Signs and digits at a cursor -/

namespace Cursor

/-- From `c`, the sign of an integer of the kind is read up to `e`. It may be absent, and before
    an unsigned integer there is none. -/
inductive ReadsSign (c : Cursor) : IntKind → Text → Cursor → Prop where
  | never (w : Width) : c.ReadsSign (.unsigned w) [] c
  | plus (w : Width) {e : Cursor} : c.Reads ['+'] e → c.ReadsSign (.signed w) ['+'] e
  | minus (w : Width) {e : Cursor} : c.Reads ['-'] e → c.ReadsSign (.signed w) ['-'] e
  | absent (w : Width) : c.value ≠ .ok (some '+') → c.value ≠ .ok (some '-') →
      c.ReadsSign (.signed w) [] c

/-- From `c`, the digits `ds` are read up to `d`, and no digit follows. -/
structure ReadsDigits (c : Cursor) (ds : Text) (d : Cursor) : Prop where
  reads : c.Reads ds d
  digits : ∀ u ∈ ds, isDigit u = true
  stops : ∀ u, d.value = .ok (some u) → isDigit u = false

variable {c d e : Cursor} {k : IntKind} {sign ds r : Text}

theorem exists_readsSign (hc : c.Valid) (k : IntKind) :
    ∃ sign e, c.ReadsSign k sign e ∧ e.Valid := by
  cases k with
  | unsigned w => exact ⟨[], c, .never w, hc⟩
  | signed w =>
    obtain ⟨u, r, rfl⟩ := valid_iff.1 hc
    by_cases hplus : r.head? = some '+'
    · obtain ⟨v, rfl⟩ := List.head?_eq_some_iff.1 hplus
      exact ⟨_, _, .plus w (.past u ['+'] v), valid_past _ _⟩
    · by_cases hminus : r.head? = some '-'
      · obtain ⟨v, rfl⟩ := List.head?_eq_some_iff.1 hminus
        exact ⟨_, _, .minus w (.past u ['-'] v), valid_past _ _⟩
      · refine ⟨[], _, .absent w ?_ ?_, hc⟩ <;> rwa [value_past, ne_eq, Except.ok.injEq]

theorem ReadsDigits.past (u : Text) (hds : ∀ x ∈ ds, isDigit x = true)
    (hr : r.head?.any isDigit = false) :
    (past u (ds ++ r)).ReadsDigits ds (past (u ++ ds) r) := by
  refine ⟨.past u ds r, hds, fun x hx => ?_⟩
  rw [value_past, Except.ok.injEq] at hx
  rwa [hx, Option.any_some] at hr

theorem exists_readsDigits (hc : c.Valid) : ∃ ds d, c.ReadsDigits ds d := by
  obtain ⟨u, r, rfl⟩ := valid_iff.1 hc
  have hstops : (r.dropWhile isDigit).head?.any isDigit = false := by
    have := List.head?_dropWhile_not isDigit r
    cases hhead : (r.dropWhile isDigit).head? with
    | none => rfl
    | some x => simpa [hhead] using this
  have hread := ReadsDigits.past u (List.all_eq_true.1 (List.all_takeWhile (l := r))) hstops
  rw [List.takeWhile_append_dropWhile] at hread
  exact ⟨_, _, hread⟩

theorem ReadsSign.reads (h : c.ReadsSign k sign e) (he : e.Valid) : c.Reads sign e := by
  cases h with
  | never w => exact .nil he
  | plus w h => exact h
  | minus w h => exact h
  | absent w _ _ => exact .nil he

end Cursor

namespace Numeral

variable {c e : Cursor} {k : IntKind} {sign ds : Text} {v : Int}

/-- A sign and digits are a numeral. -/
theorem exists_denotes (h : c.ReadsSign k sign e) (hds : IsDigits ds) :
    ∃ v, Denotes (sign ++ ds) v := by
  cases h with
  | never w => exact ⟨_, .unsigned hds⟩
  | plus w _ => exact ⟨_, .plus hds⟩
  | minus w _ => exact ⟨_, .minus hds⟩
  | absent w _ _ => exact ⟨_, .unsigned hds⟩

theorem ne_nil_of_denotes (h : c.ReadsSign k sign e) (hv : Denotes (sign ++ ds) v) : ds ≠ [] := by
  rintro rfl
  rw [List.append_nil] at hv
  cases h <;> cases hv <;> next hds => exact absurd hds (by decide)

/-- The integer of the kind that a text is read as. -/
def read : IntKind → Text → Checked (Option Int)
  | .unsigned w => toUnsigned w
  | .signed w => toSigned w

/-- A sign and digits are read as the integer that they denote, if it is in range. -/
theorem read_of_denotes (h : c.ReadsSign k sign e) (hds : IsDigits ds)
    (hv : Denotes (sign ++ ds) v) :
    read k (sign ++ ds) = .ok (if k.Holds v then some v else none) := by
  cases k with
  | unsigned w =>
    cases h with
    | never =>
      obtain rfl := hds.eq_of_denotes hv
      simp only [read, toUnsigned, readUp_eq_ite, List.nil_append, hds, true_and,
        IntKind.holds_natCast_iff]
  | signed w => exact toSigned_of_denotes w hv

end Numeral

open Numeral

/-! ### Integers -/

theorem IntKind.label_ne (k : IntKind) : k.label ≠ "tailWhile1" := by
  rcases k with w | w <;> cases w <;> decide

namespace Primitive

variable {c d e : Cursor} {sign ds : Text}

theorem runTakeWhile1_of_readsDigits (h : c.ReadsDigits ds d) :
    runTakeWhile1 isDigit c = .ok (if ds = [] then .refuse "tailWhile1" c else .success ds d) := by
  obtain ⟨⟨u, r, rfl, rfl⟩, hds, hstops⟩ := h
  have htake : (ds ++ r).takeWhile isDigit = ds := by
    refine takeWhile_append_left hds ?_
    cases r with
    | nil => rfl
    | cons x r => exact hstops x (Cursor.value_past _ _)
  have hdrop : (ds ++ r).dropWhile isDigit = r := by
    have := List.takeWhile_append_dropWhile (p := isDigit) (l := ds ++ r)
    rw [htake] at this
    exact List.append_cancel_left this
  rw [runTakeWhile1_past, htake, hdrop]

theorem afterSign_of_readsSign {w : Width} (h : c.ReadsSign (.signed w) sign e) (he : e.Valid) :
    afterSign c = .ok e := by
  cases h with
  | plus _ h =>
    obtain ⟨u, r, rfl, rfl⟩ := h
    simp [afterSign]
  | minus _ h =>
    obtain ⟨u, r, rfl, rfl⟩ := h
    simp [afterSign]
  | absent _ hplus hminus =>
    obtain ⟨u, r, rfl⟩ := Cursor.valid_iff.1 he
    rw [Cursor.value_past, ne_eq, Except.ok.injEq] at hplus hminus
    rw [afterSign, Cursor.value_past, Checked.ok_bind]
    split
    · next h => exact absurd h hplus
    · next h => exact absurd h hminus
    · rfl

end Primitive

namespace Parser

variable {S : Signature} (ctx : Context S) {k : IntKind} {c d e : Cursor} {sign ds : Text} {v : Int}

/-- The parser takes the sign and the digits, and reads them together as an integer. -/
theorem run_integer_eq (hs : c.ReadsSign k sign e) (hd : e.ReadsDigits ds d) :
    (integer k).run ctx c =
      if ds = [] then .failure (.of "tailWhile1" e)
      else .ofChecked ((Numeral.read k (sign ++ ds)).map (Primitive.inRange k.label d)) := by
  have hscan := Primitive.runTakeWhile1_of_readsDigits hd
  cases k with
  | unsigned w =>
    cases hs with
    | never =>
      change Run.ofChecked (Primitive.runUnsigned w c) = _
      rw [Primitive.runUnsigned, hscan]
      split <;> rfl
  | signed w =>
    -- The text that is read again starts at the sign, which the scan for digits has left behind.
    have he := hd.reads.valid_left
    have hslice := ((hs.reads he).trans hd.reads).sliceTo
    change Run.ofChecked (Primitive.runSigned w c) = _
    rw [Primitive.runSigned, Primitive.afterSign_of_readsSign hs he, Checked.ok_bind, hscan]
    split
    · rfl
    · simp only [Checked.ok_bind, hslice]
      rfl

/-- With digits, the parser comes to the integer that the sign and the digits denote, if it is
    in range, and else to a failure at the same cursor. -/
theorem run_integer_of_denotes (hs : c.ReadsSign k sign e) (hd : e.ReadsDigits ds d)
    (hv : Denotes (sign ++ ds) v) :
    (integer k).run ctx c =
      if k.Holds v then .success v d else .failure (.of k.label d) := by
  have hne := ne_nil_of_denotes hs hv
  rw [run_integer_eq ctx hs hd, if_neg hne, read_of_denotes hs ⟨hne, hd.digits⟩ hv]
  split <;> rfl

/-- The label of the kind stands for an integer out of range, and for nothing else. -/
theorem run_integer_eq_label_iff (hs : c.ReadsSign k sign e) (hd : e.ReadsDigits ds d) :
    (∃ d', (integer k).run ctx c = .failure (.of k.label d')) ↔
      ∃ v, Denotes (sign ++ ds) v ∧ ¬k.Holds v := by
  constructor
  · rintro ⟨d', hrun⟩
    by_cases hne : ds = []
    · rw [run_integer_eq ctx hs hd, if_pos hne, Run.failure_inj] at hrun
      exact absurd (congrArg Failure.label hrun).symm k.label_ne
    · obtain ⟨v, hv⟩ := exists_denotes hs ⟨hne, hd.digits⟩
      refine ⟨v, hv, fun hrange => ?_⟩
      rw [run_integer_of_denotes ctx hs hd hv, if_pos hrange] at hrun
      exact Run.success_ne_failure hrun
  · rintro ⟨v, hv, hrange⟩
    exact ⟨d, by rw [run_integer_of_denotes ctx hs hd hv, if_neg hrange]⟩

/-- The parser of the integers of a kind is exact. It takes the sign, if the kind has signs, and
    all digits that follow: if there are none it fails after the sign, and otherwise it ends after
    the digits, with the integer that the sign and the digits denote, or with the label of the
    kind. The label stands for an integer out of range, and for nothing else. -/
theorem integer_exact (k : IntKind) (hc : c.Valid) :
    (∃ sign e ds d, c.ReadsSign k sign e ∧ e.ReadsDigits ds d) ∧
    ∀ sign e ds d, c.ReadsSign k sign e → e.ReadsDigits ds d →
      c.sliceTo d = .ok (sign ++ ds) ∧
      (ds = [] → (integer k).run ctx c = .failure (.of "tailWhile1" e)) ∧
      (ds ≠ [] → ∃ v, Denotes (sign ++ ds) v ∧
        (k.min ≤ v ∧ v ≤ k.max → (integer k).run ctx c = .success v d) ∧
        (¬(k.min ≤ v ∧ v ≤ k.max) → (integer k).run ctx c = .failure (.of k.label d))) ∧
      ((∃ d', (integer k).run ctx c = .failure (.of k.label d')) ↔
        ∃ v, Denotes (sign ++ ds) v ∧ ¬(k.min ≤ v ∧ v ≤ k.max)) := by
  refine ⟨?_, fun sign e ds d hs hd => ⟨?_, ?_, ?_, run_integer_eq_label_iff ctx hs hd⟩⟩
  · obtain ⟨sign, e, hs, he⟩ := Cursor.exists_readsSign hc k
    obtain ⟨ds, d, hd⟩ := Cursor.exists_readsDigits he
    exact ⟨sign, e, ds, d, hs, hd⟩
  · exact ((hs.reads hd.reads.valid_left).trans hd.reads).sliceTo
  · intro hnil
    rw [run_integer_eq ctx hs hd, if_pos hnil]
  · intro hne
    obtain ⟨v, hv⟩ := exists_denotes hs ⟨hne, hd.digits⟩
    refine ⟨v, hv, fun hrange => ?_, fun hrange => ?_⟩
    · rw [run_integer_of_denotes ctx hs hd hv]
      exact if_pos hrange
    · rw [run_integer_of_denotes ctx hs hd hv]
      exact if_neg hrange

/-- The integer below the least one of eight bits fails after its last digit. -/
theorem integer_exact_below :
    let ctx : Context ⟨0, nofun, Unit, Unit⟩ := ⟨nofun, 0⟩
    let c : Cursor := .past ['é'] ['-', '0', '1', '2', '9', 'x']
    let d : Cursor := .past ['é', '-', '0', '1', '2', '9'] ['x']
    c.Valid ∧ c.sliceTo d = .ok ['-', '0', '1', '2', '9'] ∧
      (integer (.signed .w8)).run ctx c = .failure (.of "int8" d) := by
  intro ctx c d
  have hc : c.Valid := Cursor.valid_past _ _
  have hs : c.ReadsSign (.signed .w8) ['-'] (.past ['é', '-'] ['0', '1', '2', '9', 'x']) :=
    .minus .w8 (.past ['é'] ['-'] _)
  have hdigits : IsDigits ['0', '1', '2', '9'] := by decide
  have hd : Cursor.ReadsDigits (.past ['é', '-'] ['0', '1', '2', '9', 'x'])
      ['0', '1', '2', '9'] d :=
    @Cursor.ReadsDigits.past _ ['x'] ['é', '-'] hdigits.2 (by decide)
  obtain ⟨hslice, -, hrun, -⟩ := (integer_exact ctx (.signed .w8) hc).2 _ _ _ d hs hd
  obtain ⟨v, hv, -, hout⟩ := hrun (by decide)
  refine ⟨hc, hslice, hout ?_⟩
  cases hv with
  | unsigned h => exact absurd h (by decide)
  | minus _ => decide

end Parser

/-! ### Written integers -/

namespace Numeral

/-- The decimal digits of a number after a number of zeros. -/
def padded (zeros n : Nat) : Text := List.replicate zeros '0' ++ n.repr.toList

/-- The sign of a written integer. One that is not negative has a sign if `plus` asks for it. -/
def signOf (plus : Bool) (v : Int) : Text := if v < 0 then ['-'] else if plus then ['+'] else []

/-- An integer in decimal, with a number of zeros after the sign. -/
def render (plus : Bool) (zeros : Nat) (v : Int) : Text := signOf plus v ++ padded zeros v.natAbs

/-- Without zeros and without a plus, this is how integers are usually written. -/
theorem render_canonical (v : Int) : render false 0 v = (toString v).toList := by
  cases v with
  | ofNat n => rfl
  | negSucc n =>
    have hneg : Int.negSucc n < 0 := Int.negSucc_lt_zero n
    rw [render, signOf, if_pos hneg]
    exact (String.toList_append (s := "-") (t := (n + 1).repr)).symm

theorem isDigits_padded (zeros n : Nat) : IsDigits (padded zeros n) := by
  constructor
  · simp [padded, Nat.toList_repr, Nat.toDigits_ne_nil]
  · intro u hu
    rcases List.mem_append.1 hu with hzero | hdigit
    · rw [List.eq_of_mem_replicate hzero]
      rfl
    · rw [Nat.toList_repr] at hdigit
      exact Nat.isDigit_of_mem_toDigits (by decide) (by decide) hdigit

theorem natural_padded (zeros n : Nat) : natural (padded zeros n) = n := by
  rw [natural, padded, Nat.ofDigitChars_append, Nat.ofDigitChars_replicate_zero, Nat.mul_zero,
    Nat.toList_repr, Nat.ofDigitChars_ten_toDigits]

/-- What is written denotes the integer. -/
theorem denotes_render (plus : Bool) (zeros : Nat) (v : Int) : Denotes (render plus zeros v) v := by
  have hdigits := isDigits_padded zeros v.natAbs
  have hn := natural_padded zeros v.natAbs
  rw [render, signOf]
  split
  · have hminus := Denotes.minus hdigits
    rwa [show -(natural (padded zeros v.natAbs) : Int) = v by omega] at hminus
  · have hv : (natural (padded zeros v.natAbs) : Int) = v := by omega
    split
    · have hplus := Denotes.plus hdigits
      rwa [hv] at hplus
    · have hbare := Denotes.unsigned hdigits
      rwa [hv] at hbare

/-- A parser of the kind finds the sign of a written integer, if the kind has this sign. -/
theorem readsSign_render {k : IntKind} {plus : Bool} {v : Int} (zeros : Nat) (u r : Text)
    (hsign : ∀ w, k = .unsigned w → plus = false ∧ 0 ≤ v) :
    (Cursor.past u (render plus zeros v ++ r)).ReadsSign k (signOf plus v)
      (.past (u ++ signOf plus v) (padded zeros v.natAbs ++ r)) := by
  rw [render, List.append_assoc]
  cases k with
  | unsigned w =>
    obtain ⟨rfl, hv⟩ := hsign w rfl
    have hnone : signOf false v = [] := by simp [signOf, hv]
    rw [hnone, List.append_nil]
    exact .never w
  | signed w =>
    rw [signOf]
    split
    · exact .minus w (.past u ['-'] _)
    · split
      · exact .plus w (.past u ['+'] _)
      · -- The first unit is a digit, and so no sign.
        have hdigits := isDigits_padded zeros v.natAbs
        have hhead : (padded zeros v.natAbs ++ r).head? = (padded zeros v.natAbs).head? := by
          obtain ⟨x, ds, hds⟩ := List.exists_cons_of_ne_nil hdigits.1
          rw [hds]
          rfl
        rw [List.append_nil]
        refine .absent w ?_ ?_
        · rw [List.nil_append, Cursor.value_past, hhead, ne_eq, Except.ok.injEq]
          exact hdigits.head?_ne (by decide)
        · rw [List.nil_append, Cursor.value_past, hhead, ne_eq, Except.ok.injEq]
          exact hdigits.head?_ne (by decide)

end Numeral

namespace Parser

variable {S : Signature} (ctx : Context S) {c : Cursor}

/-- Reading undoes writing. An integer that is written in decimal, as usual or with any number of
    zeros after the sign, is read back up to whatever follows it, if this does not start with a
    digit. An integer out of range fails at the same cursor, with the label of the kind. -/
theorem integer_render (k : IntKind) (v : Int) (plus : Bool) (zeros : Nat) (suffix : Text)
    (hsign : ∀ w, k = .unsigned w → plus = false ∧ 0 ≤ v)
    (hsuffix : suffix.head?.any isDigit = false)
    (hc : c.rest = .ok (render plus zeros v ++ suffix)) :
    render false 0 v = (toString v).toList ∧
    ∃ d, c.Reads (render plus zeros v) d ∧ d.rest = .ok suffix ∧
      (k.min ≤ v ∧ v ≤ k.max → (integer k).run ctx c = .success v d) ∧
      (v < k.min ∨ k.max < v → (integer k).run ctx c = .failure (.of k.label d)) := by
  obtain ⟨u, rfl⟩ := Cursor.rest_eq_ok_iff.1 hc
  have hs := readsSign_render zeros u suffix hsign
  have hd := Cursor.ReadsDigits.past (u ++ signOf plus v) (isDigits_padded zeros v.natAbs).2 hsuffix
  have hrun := run_integer_of_denotes ctx hs hd (denotes_render plus zeros v)
  refine ⟨render_canonical v, _, (hs.reads hd.reads.valid_left).trans hd.reads,
    Cursor.rest_past _ _, fun hrange => ?_, fun hrange => ?_⟩
  · rw [hrun]
    exact if_pos hrange
  · have hout : ¬k.Holds v := fun ⟨hmin, hmax⟩ => by omega
    rw [hrun, if_neg hout]

/-- The least integer of eight bits, after zeros, is read back, and the one above the greatest is
    out of range. -/
theorem integer_render_w8 :
    let ctx : Context ⟨0, nofun, Unit, Unit⟩ := ⟨nofun, 0⟩
    (∃ d, d.rest = .ok ['é'] ∧ (integer (.signed .w8)).run ctx
      (.start ['-', '0', '0', '1', '2', '8', 'é']) = .success (-128) d) ∧
    ∃ d, d.rest = .ok ['é'] ∧ (integer (.signed .w8)).run ctx
      (.start ['+', '1', '2', '8', 'é']) = .failure (.of "int8" d) := by
  intro ctx
  have hleast : render false 2 (-128) = ['-', '0', '0', '1', '2', '8'] := by
    rw [render, padded, Nat.toList_repr]
    decide
  have habove : render true 0 128 = ['+', '1', '2', '8'] := by
    rw [render, padded, Nat.toList_repr]
    decide
  constructor
  · obtain ⟨-, d, -, hrest, hrun, -⟩ := integer_render ctx (.signed .w8) (-128) false 2 ['é']
      (fun _ h => nomatch h) (by decide) (by rw [hleast]; exact Cursor.rest_past [] _)
    exact ⟨d, hrest, hrun (by decide)⟩
  · obtain ⟨-, d, -, hrest, -, hrun⟩ := integer_render ctx (.signed .w8) 128 true 0 ['é']
      (fun _ h => nomatch h) (by decide) (by rw [habove]; exact Cursor.rest_past [] _)
    exact ⟨d, hrest, hrun (by decide)⟩

end Parser

end TextParsing
