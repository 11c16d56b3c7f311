import TextParsing.Proofs.Doubles
import TextParsing.Proofs.Integers

/-!
# Integers and doubles at one cursor

A parser that takes an integer where it can, and else a double, relies on two searches that
know nothing of each other. The one for a signed integer goes from unit to unit along the
cursor; the one for a float literal counts bytes of the unread text. Both take a sign and
then all digits, and there they find the same.

So the parts of a literal are described on the units of a text: which sign the bytes start
with (`Cursor.ReadsSign.leading_bytes`), which digits (`takeWhile_bytes`), and whether a
fraction or an exponent follows them (`extension_bytes_ne_nil_iff`). With the sign and the
digits that an integer is read from, this gives the length of the literal
(`length?_of_readsDigits`): there is a literal exactly if there are digits, and it is longer
than the integer exactly if it goes on with a fraction or an exponent.

Main statement: `Parser.signed_within_literal`.
-/

namespace TextParsing

open Text

/-! ### The parts of a literal, in units -/

namespace Literal

open Numeral (isDigitByte)

variable {t ds : Text}

/-- The text starts with a point and a digit. -/
def StartsFraction (t : Text) : Prop := ∃ x r, isDigit x = true ∧ t = '.' :: x :: r

/-- The text starts with an exponent mark, a sign or none, and a digit. -/
def StartsExponent (t : Text) : Prop :=
  ∃ mark s σ x r, mark ∈ ['e', 'E'] ∧ Sign s σ ∧ isDigit x = true ∧ t = mark :: (s ++ x :: r)

/-- The fraction and the exponent that the bytes start with, each of them if there is one. -/
def extension (bs : List UInt8) : List UInt8 :=
  fractionPart bs ++ exponentPart (bs.drop (fractionPart bs).length)

theorem head?_bytes_any_isDigitByte (t : Text) :
    t.bytes.head?.any isDigitByte = t.head?.any isDigit := by
  cases t with
  | nil => rfl
  | cons x t =>
    rw [Text.bytes, List.flatMap_cons]
    rcases Numeral.encode_isDigit_cases x with ⟨hx, henc, hb⟩ | ⟨hx, b, bs, henc, hb⟩
    · rw [henc, List.head?_cons, Option.any_some, hx]
      exact hb
    · rw [henc, List.head?_cons, Option.any_some, hx]
      exact hb

/-- The digits of a text are those of its bytes. -/
theorem takeWhile_bytes (hds : ∀ x ∈ ds, isDigit x = true) (ht : t.head?.any isDigit = false) :
    (Text.bytes (ds ++ t)).takeWhile isDigitByte = ds.bytes := by
  rw [← head?_bytes_any_isDigitByte] at ht
  rw [bytes_append]
  exact takeWhile_append_left ((Numeral.forall_mem_bytes_isDigitByte_iff ds).2 hds) ht

theorem takeWhile_bytes_ne_nil_iff (t : Text) :
    t.bytes.takeWhile isDigitByte ≠ [] ↔ ∃ x r, isDigit x = true ∧ t = x :: r := by
  have hhead : t.bytes.takeWhile isDigitByte ≠ [] ↔ t.bytes.head?.any isDigitByte = true := by
    cases t.bytes with
    | nil => simp
    | cons b bs => by_cases hb : isDigitByte b = true <;> simp [hb]
  rw [hhead, head?_bytes_any_isDigitByte, Option.any_eq_true]
  constructor
  · rintro ⟨x, hx, hdigit⟩
    obtain ⟨r, rfl⟩ := List.head?_eq_some_iff.1 hx
    exact ⟨x, r, hdigit, rfl⟩
  · rintro ⟨x, r, hdigit, rfl⟩
    exact ⟨x, rfl, hdigit⟩

theorem leading_bytes_eq_nil (hplus : t.head? ≠ some '+') (hminus : t.head? ≠ some '-') :
    leading isSignByte t.bytes = [] := by
  cases hbytes : t.bytes with
  | nil => rfl
  | cons b bs =>
    refine if_neg fun hb => ?_
    obtain ⟨x, r, hx, rfl, -⟩ := Mark.exists_cons_of_bytes (m := .sign) hbytes hb
    rcases List.mem_pair.1 hx with rfl | rfl
    · exact hplus rfl
    · exact hminus rfl

/-- A text is a sign or none, as its bytes tell, and a rest. -/
theorem exists_sign_append (t : Text) :
    ∃ s σ r, Sign s σ ∧ t = s ++ r ∧ leading isSignByte t.bytes = s.bytes := by
  by_cases hplus : t.head? = some '+'
  · obtain ⟨r, rfl⟩ := List.head?_eq_some_iff.1 hplus
    exact ⟨['+'], 1, r, .plus, rfl, rfl⟩
  · by_cases hminus : t.head? = some '-'
    · obtain ⟨r, rfl⟩ := List.head?_eq_some_iff.1 hminus
      exact ⟨['-'], -1, r, .minus, rfl, rfl⟩
    · exact ⟨[], 1, t, .absent, rfl, leading_bytes_eq_nil hplus hminus⟩

theorem fractionPart_bytes_ne_nil_iff (t : Text) :
    fractionPart t.bytes ≠ [] ↔ StartsFraction t := by
  constructor
  · intro h
    cases hbytes : t.bytes with
    | nil => exact absurd (by rw [hbytes]; rfl) h
    | cons b bs =>
      rw [hbytes, fractionPart, ne_eq, ite_eq_right_iff, Classical.not_imp] at h
      obtain ⟨⟨hpoint, hdigits⟩, -⟩ := h
      obtain ⟨y, r, hy, rfl, rfl⟩ := Mark.exists_cons_of_bytes (m := .point) hbytes hpoint
      obtain rfl := List.mem_singleton.1 hy
      obtain ⟨x, r, hx, rfl⟩ := (takeWhile_bytes_ne_nil_iff r).1 hdigits
      exact ⟨x, r, hx, rfl⟩
  · rintro ⟨x, r, hx, rfl⟩
    have hdigits := (takeWhile_bytes_ne_nil_iff (x :: r)).2 ⟨x, r, hx, rfl⟩
    have hpart : fractionPart (Text.bytes ('.' :: x :: r)) =
        46 :: (Text.bytes (x :: r)).takeWhile isDigitByte := if_pos ⟨rfl, hdigits⟩
    rw [hpart]
    exact List.cons_ne_nil _ _

theorem exponentPart_bytes_ne_nil_iff (t : Text) :
    exponentPart t.bytes ≠ [] ↔ StartsExponent t := by
  constructor
  · intro h
    cases hbytes : t.bytes with
    | nil => exact absurd (by rw [hbytes]; rfl) h
    | cons b bs =>
      rw [hbytes, exponentPart, ne_eq, ite_eq_right_iff, Classical.not_imp] at h
      obtain ⟨⟨hmark, hdigits⟩, -⟩ := h
      obtain ⟨mark, r, hmem, rfl, rfl⟩ := Mark.exists_cons_of_bytes (m := .exponent) hbytes hmark
      obtain ⟨s, σ, r, hs, rfl, hlead⟩ := exists_sign_append r
      rw [hlead, length_bytes, drop_bytes] at hdigits
      obtain ⟨x, r, hx, rfl⟩ := (takeWhile_bytes_ne_nil_iff r).1 hdigits
      exact ⟨mark, s, σ, x, r, hmem, hs, hx, rfl⟩
  · rintro ⟨mark, s, σ, x, r, hmem, hs, hx, rfl⟩
    obtain ⟨b, hbytes, (hb : isMarkerByte b = true)⟩ :=
      Mark.exists_bytes_cons_eq (m := .exponent) hmem (s ++ x :: r)
    have hdigit : Numeral.IsDigits [x] := ⟨List.cons_ne_nil x [], List.forall_mem_singleton.2 hx⟩
    have hlead : leading isSignByte (Text.bytes (s ++ x :: r)) = s.bytes := by
      have := (hs.leading_bytes hdigit (Text.bytes r)).1
      rwa [← bytes_append, ← bytes_append] at this
    have hdigits := (takeWhile_bytes_ne_nil_iff (x :: r)).2 ⟨x, r, hx, rfl⟩
    rw [hbytes, exponentPart, hlead, length_bytes, drop_bytes, if_pos ⟨hb, hdigits⟩]
    exact List.cons_ne_nil _ _

/-- A literal goes on after its digits exactly if a fraction or an exponent starts there. -/
theorem extension_bytes_ne_nil_iff (t : Text) :
    extension t.bytes ≠ [] ↔ StartsFraction t ∨ StartsExponent t := by
  rw [← fractionPart_bytes_ne_nil_iff, ← exponentPart_bytes_ne_nil_iff, extension, ne_eq,
    List.append_eq_nil_iff, not_and_or]
  refine or_congr_right' fun hnone => ?_
  rw [not_not.1 hnone, List.length_nil, List.drop_zero]

end Literal

open Literal

/-! ### The literal at a cursor -/

namespace Cursor

variable {c d e : Cursor} {w : Width} {s ds t : Text}

theorem Reads.forward (h : c.Reads t d) : c.forward t.byteLength = .ok d := by
  obtain ⟨u, r, rfl, rfl⟩ := h
  exact forward_past u t r

theorem Reads.ne_iff (h : c.Reads t d) : c ≠ d ↔ t ≠ [] := by
  obtain ⟨u, r, rfl, rfl⟩ := h
  rw [ne_eq, past_inj, List.self_eq_append_right, List.append_left_eq_self, and_self]

theorem exists_reads_of_rest {r : Text} (h : c.rest = .ok (t ++ r)) : ∃ d, c.Reads t d := by
  obtain ⟨u, rfl⟩ := rest_eq_ok_iff.1 h
  exact ⟨_, .past u t r⟩

theorem ReadsSign.leading_bytes {r : Text} (h : c.ReadsSign (.signed w) s e)
    (hc : c.rest = .ok r) : leading isSignByte r.bytes = s.bytes := by
  obtain ⟨u, rfl⟩ := rest_eq_ok_iff.1 hc
  cases h with
  | plus _ h =>
    obtain ⟨u', r', hpast, -⟩ := h
    obtain ⟨-, rfl⟩ := past_inj.1 hpast
    rfl
  | minus _ h =>
    obtain ⟨u', r', hpast, -⟩ := h
    obtain ⟨-, rfl⟩ := past_inj.1 hpast
    rfl
  | absent _ hplus hminus =>
    rw [value_past, ne_eq, Except.ok.injEq] at hplus hminus
    exact leading_bytes_eq_nil hplus hminus

theorem ReadsDigits.head?_rest (h : c.ReadsDigits ds d) (hd : d.rest = .ok t) :
    t.head?.any isDigit = false := by
  obtain ⟨u, rfl⟩ := rest_eq_ok_iff.1 hd
  cases t with
  | nil => rfl
  | cons x t => exact h.stops x (value_past _ _)

end Cursor

namespace Literal

variable {c d e : Cursor} {w : Width} {s ds t : Text}

/-- The literal at a cursor has the sign and the digits that an integer is read from, and is none
    without digits. -/
theorem length?_of_readsDigits (hs : c.ReadsSign (.signed w) s e) (hd : e.ReadsDigits ds d)
    (ht : d.rest = .ok t) : length? (s ++ ds ++ t) =
      .ok (if ds = [] then none else some ((s ++ ds).byteLength + (extension t.bytes).length)) := by
  have hc : c.rest = .ok (s ++ ds ++ t) := by
    obtain ⟨t', ht', hc⟩ := ((hs.reads hd.reads.valid_left).trans hd.reads).rest
    obtain rfl := Except.ok.inj (ht.symm.trans ht')
    exact hc
  have hlead := hs.leading_bytes hc
  have htake := takeWhile_bytes hd.digits (hd.head?_rest ht)
  have hdrop : (Text.bytes (ds ++ t)).dropWhile Numeral.isDigitByte = t.bytes := by
    have := List.takeWhile_append_dropWhile (p := Numeral.isDigitByte) (l := Text.bytes (ds ++ t))
    rw [htake] at this
    exact List.append_cancel_left (this.trans (bytes_append ds t))
  have hnil : ds.bytes = [] ↔ ds = [] := bytes_inj (t := [])
  rw [length?_eq, longest?, hlead, length_bytes, List.append_assoc, drop_bytes, htake, hdrop]
  simp only [hnil]
  split
  · rfl
  · simp only [Option.map_some, List.length_append, length_bytes, byteLength_append, extension,
      Nat.add_assoc]

/-- The literal goes on after the digits by a start of what follows them, which is empty unless
    this is a fraction or an exponent. -/
theorem exists_extension_of_length? {n : Nat} (hs : c.ReadsSign (.signed w) s e)
    (hd : e.ReadsDigits ds d) (ht : d.rest = .ok t) (hn : length? (s ++ ds ++ t) = .ok (some n)) :
    ds ≠ [] ∧ ∃ z v, t = z ++ v ∧ n = byteLength (s ++ ds ++ z) ∧
      (z ≠ [] ↔ StartsFraction t ∨ StartsExponent t) := by
  have hlength := length?_of_readsDigits hs hd ht
  rw [hn, Except.ok.injEq] at hlength
  split at hlength
  · cases hlength
  · next hne =>
    obtain rfl := Option.some.inj hlength
    rcases exists_length?_eq (s ++ ds ++ t) with hnone | ⟨a, v, hsplit, hsome⟩
    · cases hn.symm.trans hnone
    · have ha := Option.some.inj (Except.ok.inj (hn.symm.trans hsome))
      -- The sign and the digits are a start of the text that is not longer than the literal.
      obtain ⟨z, rfl⟩ : s ++ ds <+: a := by
        have hle : (s ++ ds).byteLength ≤ a.byteLength := by omega
        exact isPrefix_of_byteLength_le (List.prefix_append _ t)
          (hsplit ▸ List.prefix_append a v) hle
      rw [List.append_assoc (s ++ ds)] at hsplit
      have hz : (extension t.bytes).length = byteLength z := by
        rw [byteLength_append (s ++ ds) z] at ha
        exact Nat.add_left_cancel ha
      refine ⟨hne, z, v, List.append_cancel_left hsplit, ha, ?_⟩
      rw [← extension_bytes_ne_nil_iff, ← List.length_pos_iff (l := extension _), hz, ne_eq,
        ← byteLength_eq_zero_iff, Nat.pos_iff_ne_zero]

end Literal

/-! ### The two searches -/

namespace Parser

variable {S : Signature} (ctx : Context S) {k : IntKind} {c d e : Cursor} {s ds : Text}

/-- With digits, the parser ends after them, in range or out of range. -/
theorem run_integer_ends (hs : c.ReadsSign k s e) (hd : e.ReadsDigits ds d) (hne : ds ≠ []) :
    (∃ v, (integer k).run ctx c = .success v d) ∨
      (integer k).run ctx c = .failure (.of k.label d) := by
  obtain ⟨v, hv⟩ := Numeral.exists_denotes hs ⟨hne, hd.digits⟩
  rw [run_integer_of_denotes ctx hs hd hv]
  split
  · exact .inl ⟨v, rfl⟩
  · exact .inr rfl

/-- The scan for digits fails exactly if there are none. -/
theorem run_integer_eq_tailWhile1_iff (hs : c.ReadsSign k s e) (hd : e.ReadsDigits ds d) :
    (∃ e', (integer k).run ctx c = .failure (.of "tailWhile1" e')) ↔ ds = [] := by
  constructor
  · rintro ⟨e', hrun⟩
    by_contra hne
    rcases run_integer_ends ctx hs hd hne with ⟨v, hv⟩ | hlabel
    · exact Run.success_ne_failure (hv.symm.trans hrun)
    · rw [hlabel, Run.failure_inj] at hrun
      exact k.label_ne (congrArg Failure.label hrun)
  · intro hnil
    exact ⟨e, by rw [run_integer_eq ctx hs hd, if_pos hnil]⟩

/-- Integers and float literals agree on where a number starts. A parser of signed integers finds
    digits exactly if there is a literal at the cursor. Then it ends, in range or out of range,
    before the end of the literal or there; and before it exactly if a point and a digit follow
    the integer, or an exponent mark, a sign or none, and a digit. -/
theorem signed_within_literal (w : Width) (hc : c.Valid) :
    ∃ r, c.rest = .ok r ∧
      ((∃ e, (signed w).run ctx c = .failure (.of "tailWhile1" e)) ↔ length? r = .ok none) ∧
      ((¬∃ e, (signed w).run ctx c = .failure (.of "tailWhile1" e)) ↔
        ∃ n, length? r = .ok (some n)) ∧
      ∀ n, length? r = .ok (some n) → ∃ d e t,
        ((∃ v, (signed w).run ctx c = .success v d) ∨
          (signed w).run ctx c = .failure (.of (IntKind.signed w).label d)) ∧
        c.forward n = .ok e ∧ d.Precedes e ∧ d.rest = .ok t ∧
        (d ≠ e ↔ StartsFraction t ∨ StartsExponent t) := by
  obtain ⟨s, e, hs, he⟩ := Cursor.exists_readsSign hc (.signed w)
  obtain ⟨ds, d, hd⟩ := Cursor.exists_readsDigits he
  have hread := (hs.reads he).trans hd.reads
  obtain ⟨t, ht, hr⟩ := hread.rest
  have hscan := run_integer_eq_tailWhile1_iff ctx hs hd
  have hlength := length?_of_readsDigits hs hd ht
  refine ⟨s ++ ds ++ t, hr, hscan.trans ?_, (not_congr hscan).trans ?_, fun n hn => ?_⟩
  · rw [hlength, Except.ok.injEq, ite_eq_left_iff, imp_iff_not (Option.some_ne_none _), not_not]
  · rw [hlength]
    constructor
    · exact fun hne => ⟨_, by rw [if_neg hne]⟩
    · rintro ⟨n, hn⟩ hnil
      rw [if_pos hnil] at hn
      cases hn
  · obtain ⟨hne, z, v, rfl, rfl, hz⟩ := exists_extension_of_length? hs hd ht hn
    obtain ⟨e', hz'⟩ := Cursor.exists_reads_of_rest ht
    exact ⟨d, e', z ++ v, run_integer_ends ctx hs hd hne, (hread.trans hz').forward, hz'.precedes,
      ht, hz'.ne_iff.trans hz⟩

/-- An integer out of range fails before the point, and the literal goes on after it. -/
theorem signed_within_literal_fraction :
    let ctx : Context ⟨0, nofun, Unit, Unit⟩ := ⟨nofun, 0⟩
    let c : Cursor := .past ['é'] ['-', '1', '2', '9', '.', '5']
    let d : Cursor := .past ['é', '-', '1', '2', '9'] ['.', '5']
    c.Valid ∧ (signed .w8).run ctx c = .failure (.of "int8" d) ∧
      ∃ e, c.forward 6 = .ok e ∧ d.Precedes e ∧ d ≠ e := by
  intro ctx c d
  have hc : c.Valid := Cursor.valid_past _ _
  have hrun : (signed .w8).run ctx c = .failure (.of "int8" d) := rfl
  obtain ⟨r, hr, -, -, hliteral⟩ := signed_within_literal ctx .w8 hc
  obtain rfl := Except.ok.inj ((Cursor.rest_past _ _).symm.trans hr)
  obtain ⟨d', e, t, hends, hforward, hprecedes, ht, hne⟩ := hliteral 6 rfl
  obtain rfl : d = d' := by
    rcases hends with ⟨v, hv⟩ | hlabel
    · exact absurd (hv.symm.trans hrun) Run.success_ne_failure
    · exact congrArg Failure.cursor (Run.failure_inj.1 (hrun.symm.trans hlabel))
  obtain rfl := Except.ok.inj ((Cursor.rest_past _ _).symm.trans ht)
  exact ⟨hc, hrun, e, hforward, hprecedes, hne.2 (.inl ⟨'5', [], rfl, rfl⟩)⟩

end Parser

end TextParsing
