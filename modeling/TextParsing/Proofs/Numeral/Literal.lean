import TextParsing.Proofs.Text.Bytes

/-!
# The offsets of a float literal

A float literal is looked for among the bytes of a text, and the offsets that are
kept on the way are used to cut the text. All of them are boundaries of the text
(`Offsets.OnBoundaries`), whatever units the text holds: each is reached from the
one before it over ASCII bytes, which are digits or one of three marks (`Mark`). It
follows that no offset lies past the end, and so the search comes to an answer
(`exists_find_eq`).
-/

namespace TextParsing

namespace Literal

open Text
open Numeral (isDigitByte)

variable {t : Text} {n : Nat}

/-! ### Classes of ASCII bytes -/

theorem lt_of_isDigitByte {b : UInt8} (h : isDigitByte b = true) : b < 128 := by
  simp only [isDigitByte, Bool.and_eq_true, decide_eq_true_eq] at h
  exact UInt8.lt_of_le_of_lt h.2 (by decide)

/-- A point in ASCII. -/
def isPointByte (b : UInt8) : Bool := b == 46

/-- What a literal may hold beside its digits, one unit each. -/
inductive Mark where
  | sign
  | point
  | exponent

namespace Mark

variable {m : Mark} {x : Char} {b : UInt8}

/-- The mark as a byte. -/
def isByte : Mark → UInt8 → Bool
  | sign => isSignByte
  | point => isPointByte
  | exponent => isMarkerByte

/-- The mark as a unit: any of these. -/
def units : Mark → List Char
  | sign => ['+', '-']
  | point => ['.']
  | exponent => ['e', 'E']

theorem isByte_iff_mem : m.isByte b = true ↔ b ∈ m.units.map Char.toUInt8 := by
  cases m <;> simp [isByte, units, isSignByte, isPointByte, isMarkerByte, Char.toUInt8]

theorem isByte_iff : m.isByte b = true ↔ ∃ x ∈ m.units, x.toUInt8 = b := by
  rw [isByte_iff_mem, List.mem_map]

theorem lt_of_mem_units (h : x ∈ m.units) : x.toNat < 128 := by
  have hall : m.units.all (·.toNat < 128) = true := by cases m <;> rfl
  exact of_decide_eq_true (List.all_eq_true.1 hall x h)

theorem lt_of_isByte (h : m.isByte b = true) : b < 128 := by
  obtain ⟨x, hx, rfl⟩ := isByte_iff.1 h
  rw [UInt8.lt_iff_toNat_lt, toNat_toUInt8 (lt_of_mem_units hx)]
  exact lt_of_mem_units hx

/-- A text that starts with the unit of a mark has the byte of the mark in front. -/
theorem exists_bytes_cons_eq (h : x ∈ m.units) (t : Text) :
    ∃ b, Text.bytes (x :: t) = b :: t.bytes ∧ m.isByte b = true :=
  ⟨x.toUInt8, bytes_cons_of_lt (lt_of_mem_units h) t, isByte_iff.2 ⟨x, h, rfl⟩⟩

/-- Where bytes start with the byte of a mark, the text starts with its unit. -/
theorem exists_cons_of_bytes {bs : List UInt8} (h : t.bytes = b :: bs) (hb : m.isByte b = true) :
    ∃ (x : Char) (r : Text), x ∈ m.units ∧ t = x :: r ∧ r.bytes = bs := by
  obtain ⟨x, hx, rfl⟩ := isByte_iff.1 hb
  have hlt := lt_of_mem_units hx
  have hhead : t.head? = some x := head?_of_head?_bytes hlt (by rw [h, List.head?_cons])
  obtain ⟨r, rfl⟩ := List.head?_eq_some_iff.1 hhead
  rw [bytes_cons_of_lt hlt] at h
  exact ⟨x, r, hx, rfl, (List.cons.inj h).2⟩

end Mark

/-! ### One part at a time -/

theorem tail_eq (h : IsBoundary t n) : tail t.bytes n = .ok (t.bytes.drop n) :=
  if_pos (by rw [length_bytes]; exact h.le)

theorem isBoundary_succ (m : Mark) (h : IsBoundary t n)
    (hmark : t.bytes[n]?.any m.isByte = true) : IsBoundary t (n + 1) := by
  obtain ⟨b, hb, hbyte⟩ := (Option.any_eq_true _ _).1 hmark
  exact h.succ hb (Mark.lt_of_isByte hbyte)

theorem isBoundary_skipByte (m : Mark) (h : IsBoundary t n) :
    IsBoundary t (skipByte t.bytes m.isByte n) := by
  rw [skipByte]
  split
  · next hmark => exact isBoundary_succ m h hmark
  · exact h

theorem isBoundary_countDigits (h : IsBoundary t n) :
    IsBoundary t (n + countDigits (t.bytes.drop n)) := by
  refine h.add fun i hi => ?_
  have hdigit := List.all_eq_true.1 (List.all_takeWhile (p := isDigitByte)) _ (List.getElem_mem hi)
  refine ⟨_, ?_, lt_of_isDigitByte hdigit⟩
  rw [(List.takeWhile_prefix isDigitByte).getElem hi, ← List.getElem?_drop]
  exact List.getElem?_eq_getElem _

/-- A point or an exponent mark without digits after it is no part of the literal, which ends
    where it stood before. -/
theorem isBoundary_afterDigits {m : Nat} (h : IsBoundary t n) (hm : IsBoundary t m) :
    IsBoundary t (if 0 < countDigits (t.bytes.drop m) then m + countDigits (t.bytes.drop m)
      else n) := by
  split
  · exact isBoundary_countDigits hm
  · exact h

theorem exists_fractionEnd_eq (h : IsBoundary t n) :
    ∃ m, fractionEnd t.bytes n = .ok m ∧ IsBoundary t m := by
  rw [fractionEnd]
  split
  · next hpoint =>
    have hdigits := h.succ hpoint (by decide)
    rw [tail_eq hdigits]
    exact ⟨_, rfl, isBoundary_afterDigits h hdigits⟩
  · exact ⟨n, rfl, h⟩

/-! ### The whole literal -/

/-- The offsets of a literal are boundaries of the text. -/
structure Offsets.OnBoundaries (t : Text) (o : Offsets) : Prop where
  sign : IsBoundary t o.sign
  integer : IsBoundary t o.integer
  fraction : IsBoundary t o.fraction
  marker : IsBoundary t o.marker
  exponentSign : IsBoundary t o.exponentSign
  stop : IsBoundary t o.stop

theorem exists_withExponent_eq {sign integer fraction : Nat} (hs : IsBoundary t sign)
    (hi : IsBoundary t integer) (hf : IsBoundary t fraction) :
    ∃ o, withExponent t.bytes sign integer fraction = .ok o ∧ o.OnBoundaries t := by
  rw [withExponent]
  split
  · next hmark =>
    have hmarker := isBoundary_succ .exponent hf hmark
    have hsign : IsBoundary t (skipByte t.bytes isSignByte (fraction + 1)) :=
      isBoundary_skipByte .sign hmarker
    simp only [tail_eq hsign, Checked.ok_bind]
    exact ⟨_, rfl, hs, hi, hf, hmarker, hsign, isBoundary_afterDigits hf hsign⟩
  · exact ⟨_, rfl, hs, hi, hf, hf, hf, hf⟩

/-- The search for a literal comes to an answer, and all its offsets are boundaries. -/
theorem exists_find_eq (t : Text) :
    ∃ r, find t = .ok r ∧ ∀ o, r = some o → o.OnBoundaries t := by
  have hsign : IsBoundary t (skipByte t.bytes isSignByte 0) :=
    isBoundary_skipByte .sign (.zero t)
  have hinteger := isBoundary_countDigits hsign
  obtain ⟨fraction, hfrac, hfraction⟩ := exists_fractionEnd_eq hinteger
  obtain ⟨o, ho, hbounds⟩ := exists_withExponent_eq hsign hinteger hfraction
  simp only [find, findIn, tail_eq hsign, Checked.ok_bind]
  split
  · exact ⟨none, rfl, fun _ h => nomatch h⟩
  · rw [hfrac, Checked.ok_bind, ho]
    exact ⟨some o, rfl, fun _ h => Option.some.inj h ▸ hbounds⟩

/-- The literal is a start of the text. -/
theorem exists_length?_eq (t : Text) : length? t = .ok none ∨
    ∃ w v : Text, t = w ++ v ∧ length? t = .ok (some w.byteLength) := by
  obtain ⟨r, hr, hbounds⟩ := exists_find_eq t
  rw [length?, hr, Checked.ok_bind]
  cases r with
  | none => exact .inl rfl
  | some o =>
    obtain ⟨w, v, hwv, hw⟩ := (hbounds o rfl).stop
    exact .inr ⟨w, v, hwv, by rw [hw]; rfl⟩

end Literal

theorem exists_toDouble_eq (t : Text) : ∃ x, toDouble t = .ok x := by
  obtain ⟨r, hr, -⟩ := Literal.exists_find_eq t
  rw [toDouble, hr, Checked.ok_bind]
  cases r <;> exact ⟨_, rfl⟩

end TextParsing
