import TextParsing.Proofs.Numeral.Integer
import TextParsing.Proofs.Text.Bytes

/-!
# What a numeral denotes

A numeral is one or more decimal digits, and it denotes a natural number: the value
of the digits in base ten, whatever the number of leading zeros (`Numeral.natural`).
With one sign before the digits it denotes an integer (`Numeral.Denotes`). None of
this knows about bytes, or about ranges.

Reading is exact: a text is read as the number it denotes if it denotes one and that
number is in range, and else it is not read at all. Two steps lead there. The bytes of
a text are all digits exactly if its units are, since a unit outside ASCII starts with
a byte outside ASCII (`mapM_digit?_bytes`); and what is accumulated over the digits is
the number that they denote (`append_digits`).

* `toUnsigned_exact` and `toSigned_exact`, for all widths and all texts.
-/

namespace TextParsing

namespace Text

theorem isDigit_iff {u : Char} : isDigit u = true ↔ 48 ≤ u.toNat ∧ u.toNat ≤ 57 := by
  simp [isDigit, Char.le_def, UInt32.le_iff_toNat_le]

end Text

namespace Numeral

open Text

/-- One or more decimal digits. -/
def IsDigits (t : Text) : Prop := t ≠ [] ∧ ∀ u ∈ t, isDigit u = true

theorem isDigits_iff {t : Text} : IsDigits t ↔ t.isEmpty = false ∧ t.all isDigit = true := by
  simp [IsDigits]

instance (t : Text) : Decidable (IsDigits t) := decidable_of_iff _ isDigits_iff.symm

/-- The number that digits denote in base ten. -/
def natural (t : Text) : Nat := Nat.ofDigitChars 10 t 0

/-- The text is a numeral, with one sign or without, that denotes the integer. -/
inductive Denotes : Text → Int → Prop where
  | unsigned {ds : Text} : IsDigits ds → Denotes ds (natural ds)
  | plus {ds : Text} : IsDigits ds → Denotes ('+' :: ds) (natural ds)
  | minus {ds : Text} : IsDigits ds → Denotes ('-' :: ds) (-(natural ds : Int))

/-! ### Digits as bytes -/

theorem isDigitByte_iff {b : UInt8} : isDigitByte b = true ↔ 48 ≤ b.toNat ∧ b.toNat ≤ 57 := by
  simp [isDigitByte, UInt8.le_iff_toNat_le]

theorem isDigitByte_toUInt8 {u : Char} (h : u.toNat < 128) :
    isDigitByte u.toUInt8 = isDigit u := by
  rw [Bool.eq_iff_iff, isDigitByte_iff, isDigit_iff, toNat_toUInt8 h]

theorem not_isDigitByte {b : UInt8} (h : 128 ≤ b) : isDigitByte b = false := by
  have hle : 128 ≤ b.toNat := UInt8.le_iff_toNat_le.1 h
  rw [Bool.eq_false_iff, ne_eq, isDigitByte_iff]
  omega

/-- A digit is one byte, and any other unit starts with a byte that is no digit. -/
theorem encode_isDigit_cases (u : Char) :
    (isDigit u = true ∧ String.utf8EncodeChar u = [u.toUInt8] ∧ isDigitByte u.toUInt8 = true) ∨
      (isDigit u = false ∧ ∃ b bs, String.utf8EncodeChar u = b :: bs ∧ isDigitByte b = false) := by
  rcases utf8EncodeChar_cases u with ⟨hu, henc⟩ | ⟨hu, b, bs, henc, hb⟩
  · have hdigit := isDigitByte_toUInt8 hu
    cases h : isDigit u with
    | true => exact .inl ⟨rfl, henc, hdigit.trans h⟩
    | false => exact .inr ⟨rfl, u.toUInt8, [], henc, hdigit.trans h⟩
  · refine .inr ⟨?_, b, bs, henc, not_isDigitByte hb⟩
    rw [Bool.eq_false_iff, ne_eq, isDigit_iff]
    omega

/-- The bytes of a text are all digits exactly if its units are. -/
theorem forall_mem_bytes_isDigitByte_iff (t : Text) :
    (∀ b ∈ t.bytes, isDigitByte b = true) ↔ ∀ u ∈ t, isDigit u = true := by
  rw [bytes, List.forall_mem_flatMap]
  refine forall₂_congr fun u _ => ?_
  rcases encode_isDigit_cases u with ⟨hu, henc, hb⟩ | ⟨hu, b, bs, henc, hb⟩
  · rw [henc, List.forall_mem_singleton, hu, hb]
  · rw [henc, List.forall_mem_cons, hu, hb]
    simp

theorem digit?_toUInt8 {u : Char} (h : isDigit u = true) :
    digit? u.toUInt8 = some (u.toNat - 48) := by
  obtain ⟨hle, hge⟩ := isDigit_iff.1 h
  rw [digit?, if_pos (by rw [isDigitByte_toUInt8 (by omega), h]), toNat_toUInt8 (by omega)]

/-- The values of the digits among the bytes, if all units are digits. -/
theorem mapM_digit?_bytes (t : Text) : t.bytes.mapM digit? =
    if t.all isDigit then some (t.map fun u => u.toNat - 48) else none := by
  induction t with
  | nil => rfl
  | cons u t ih =>
    rw [bytes, List.flatMap_cons, ← bytes]
    rcases encode_isDigit_cases u with ⟨hu, henc, -⟩ | ⟨hu, b, bs, henc, hb⟩
    · rw [henc, List.singleton_append, List.mapM_cons, digit?_toUInt8 hu, ih]
      cases ht : t.all isDigit <;> simp [hu, ht]
    · rw [henc, List.cons_append, List.mapM_cons, digit?, hb]
      simp [hu]

/-! ### Digits as a number -/

theorem append_digits (n : Nat) (t : Text) :
    append n (t.map fun u => u.toNat - 48) = Nat.ofDigitChars 10 t n := by
  induction t generalizing n with
  | nil => rfl
  | cons u t ih =>
    rw [List.map_cons, append_cons, Nat.ofDigitChars_cons, ← ih]
    congr 1
    have hzero : '0'.toNat = 48 := rfl
    omega

theorem appendUpTo_bytes (limit : Int) (t : Text) :
    appendUpTo limit 0 t.bytes =
      if t.all isDigit ∧ natural t ≤ limit then some (natural t : Int) else none := by
  rw [appendUpTo, mapM_digit?_bytes]
  cases ht : t.all isDigit with
  | false => simp
  | true =>
    rw [if_pos rfl, Option.map_some, show (0 : Int) = (0 : Nat) from rfl, append_digits, ← natural]
    simp [Option.filter]

/-- Going up, a text is read if it consists of digits, and the number is not too large. -/
theorem readUp_eq_ite (k : IntKind) (t : Text) :
    readUp k t =
      .ok (if IsDigits t ∧ natural t ≤ k.max then some (natural t : Int) else none) := by
  rw [readUp_eq, appendUpTo_bytes]
  simp only [isDigits_iff]
  cases t.isEmpty <;> simp

/-- Going down, a text is read if it consists of digits, and the number is not too small. -/
theorem readDown_eq_ite (w : Width) (t : Text) :
    readDown (.signed w) t = .ok (if IsDigits t ∧ (IntKind.signed w).min ≤ -natural t
      then some (-(natural t : Int)) else none) := by
  have hneg :
      (natural t : Int) ≤ -(IntKind.signed w).min ↔ (IntKind.signed w).min ≤ -natural t := by
    omega
  rw [readDown_eq, appendUpTo_bytes]
  simp only [isDigits_iff, hneg]
  cases t.isEmpty with
  | true => simp
  | false =>
    by_cases h : t.all isDigit = true ∧ (IntKind.signed w).min ≤ -natural t <;> simp [h]

/-! ### Signs -/

theorem IsDigits.head?_ne {t : Text} (h : IsDigits t) {u : Char} (hu : isDigit u = false) :
    t.head? ≠ some u := by
  intro hhead
  have := h.2 u (List.mem_of_mem_head? hhead)
  rw [hu] at this
  exact nomatch this

/-- Without a sign, digits denote the number of the digits. -/
theorem IsDigits.eq_of_denotes {ds : Text} {v : Int} (hds : IsDigits ds) (h : Denotes ds v) :
    v = natural ds := by
  cases h with
  | unsigned _ => rfl
  | plus _ => exact absurd rfl (hds.head?_ne (u := '+') (by decide))
  | minus _ => exact absurd rfl (hds.head?_ne (u := '-') (by decide))

end Numeral

open Numeral

theorem toSigned_minus (w : Width) (ds : Text) :
    toSigned w ('-' :: ds) = readDown (.signed w) ds := by
  have hcut : Text.sliceFrom ('-' :: ds) 1 = .ok ds := Text.sliceFrom_append ['-'] ds
  rw [toSigned, show (Text.bytes ('-' :: ds)).head? = some 45 from rfl]
  simp only [hcut, Checked.ok_bind]

theorem toSigned_plus (w : Width) (ds : Text) :
    toSigned w ('+' :: ds) = readUp (.signed w) ds := by
  have hcut : Text.sliceFrom ('+' :: ds) 1 = .ok ds := Text.sliceFrom_append ['+'] ds
  rw [toSigned, show (Text.bytes ('+' :: ds)).head? = some 43 from rfl]
  simp only [hcut, Checked.ok_bind]

theorem toSigned_of_head?_ne (w : Width) {t : Text} (hplus : t.head? ≠ some '+')
    (hminus : t.head? ≠ some '-') : toSigned w t = readUp (.signed w) t := by
  rw [toSigned]
  split
  · next hb => exact absurd (Text.head?_of_head?_bytes (u := '-') (by decide) hb) hminus
  · next hb => exact absurd (Text.head?_of_head?_bytes (u := '+') (by decide) hb) hplus
  · rfl

/-! ### Whole texts -/

namespace IntKind

theorem holds_natCast_iff (k : IntKind) (n : Nat) : k.Holds n ↔ (n : Int) ≤ k.max := by
  have := k.min_le
  rw [Holds]
  omega

theorem holds_neg_natCast_iff (k : IntKind) (n : Nat) : k.Holds (-(n : Int)) ↔ k.min ≤ -n := by
  have := k.le_max
  rw [Holds]
  omega

end IntKind

/-- A numeral is read as the integer it denotes, if that is in range. -/
theorem toSigned_of_denotes (w : Width) {t : Text} {v : Int} (h : Denotes t v) :
    toSigned w t = .ok (if (IntKind.signed w).Holds v then some v else none) := by
  cases h with
  | unsigned h =>
    rw [toSigned_of_head?_ne w (h.head?_ne (by decide)) (h.head?_ne (by decide)), readUp_eq_ite]
    simp only [h, true_and, IntKind.holds_natCast_iff]
  | plus h =>
    rw [toSigned_plus, readUp_eq_ite]
    simp only [h, true_and, IntKind.holds_natCast_iff]
  | minus h =>
    rw [toSigned_minus, readDown_eq_ite]
    simp only [h, true_and, IntKind.holds_neg_natCast_iff]

theorem toSigned_of_forall_not_denotes (w : Width) {t : Text} (h : ∀ v, ¬Denotes t v) :
    toSigned w t = .ok none := by
  by_cases hminus : t.head? = some '-'
  · obtain ⟨ds, rfl⟩ := List.head?_eq_some_iff.1 hminus
    have hds : ¬IsDigits ds := fun hds => h _ (.minus hds)
    rw [toSigned_minus, readDown_eq_ite, if_neg fun hand => hds hand.1]
  · by_cases hplus : t.head? = some '+'
    · obtain ⟨ds, rfl⟩ := List.head?_eq_some_iff.1 hplus
      have hds : ¬IsDigits ds := fun hds => h _ (.plus hds)
      rw [toSigned_plus, readUp_eq_ite, if_neg fun hand => hds hand.1]
    · have ht : ¬IsDigits t := fun ht => h _ (.unsigned ht)
      rw [toSigned_of_head?_ne w hplus hminus, readUp_eq_ite, if_neg fun hand => ht hand.1]

/-- Reading a signed integer comes to an answer, whatever the text is. -/
theorem exists_toSigned_eq (w : Width) (t : Text) : ∃ v, toSigned w t = .ok v := by
  by_cases h : ∃ v, Denotes t v
  · obtain ⟨v, hv⟩ := h
    exact ⟨_, toSigned_of_denotes w hv⟩
  · exact ⟨none, toSigned_of_forall_not_denotes w (not_exists.1 h)⟩

/-- Reading an unsigned integer is exact: it gives the number that the digits denote, if the
    text is all digits and the number is in range, and else nothing. -/
theorem toUnsigned_exact (w : Width) (t : Text) :
    (∀ v, toUnsigned w t = .ok (some v) ↔
      t ≠ [] ∧ (∀ b ∈ t.bytes, isDigitByte b = true) ∧
        (natural t : Int) ≤ (IntKind.unsigned w).max ∧ v = natural t) ∧
    (toUnsigned w t = .ok none ↔
      ¬(t ≠ [] ∧ (∀ b ∈ t.bytes, isDigitByte b = true) ∧
        (natural t : Int) ≤ (IntKind.unsigned w).max)) := by
  rw [forall_mem_bytes_isDigitByte_iff, toUnsigned, readUp_eq_ite]
  by_cases h : IsDigits t ∧ (natural t : Int) ≤ (IntKind.unsigned w).max
  · rw [if_pos h]
    obtain ⟨⟨hne, hdigits⟩, hmax⟩ := h
    refine ⟨fun v => ⟨fun hv => ?_, fun hv => ?_⟩, (nomatch ·), fun hnot => ?_⟩
    · exact ⟨hne, hdigits, hmax, (Option.some.inj (Except.ok.inj hv)).symm⟩
    · rw [hv.2.2.2]
    · exact absurd ⟨hne, hdigits, hmax⟩ hnot
  · rw [if_neg h]
    refine ⟨fun v => ⟨(nomatch ·), fun hv => ?_⟩, fun _ hand => ?_, fun _ => rfl⟩
    · exact absurd ⟨⟨hv.1, hv.2.1⟩, hv.2.2.1⟩ h
    · exact h ⟨⟨hand.1, hand.2.1⟩, hand.2.2⟩

theorem toSigned_eq_some_iff {w : Width} {t : Text} {v : Int} :
    toSigned w t = .ok (some v) ↔ Denotes t v ∧ (IntKind.signed w).Holds v := by
  constructor
  · intro h
    by_cases hex : ∃ v', Denotes t v'
    · obtain ⟨v', hv'⟩ := hex
      rw [toSigned_of_denotes w hv'] at h
      split at h
      · next hrange =>
        obtain rfl := Option.some.inj (Except.ok.inj h)
        exact ⟨hv', hrange⟩
      · exact nomatch h
    · rw [toSigned_of_forall_not_denotes w (not_exists.1 hex)] at h
      exact nomatch h
  · rintro ⟨hv, hrange⟩
    rw [toSigned_of_denotes w hv, if_pos hrange]

theorem toSigned_eq_none_iff {w : Width} {t : Text} :
    toSigned w t = .ok none ↔ ∀ v, Denotes t v → ¬(IntKind.signed w).Holds v := by
  constructor
  · intro h v hv hrange
    rw [toSigned_of_denotes w hv, if_pos hrange] at h
    exact nomatch h
  · intro h
    by_cases hex : ∃ v, Denotes t v
    · obtain ⟨v, hv⟩ := hex
      rw [toSigned_of_denotes w hv, if_neg (h v hv)]
    · exact toSigned_of_forall_not_denotes w (not_exists.1 hex)

/-- Reading a signed integer is exact: it gives the integer that the text denotes, if it denotes
    one and this is in range, and else nothing. So the least integer is read, and the next one
    below it is not, nor the next one above the greatest. -/
theorem toSigned_exact (w : Width) (t : Text) :
    let k : IntKind := .signed w
    (∀ v, toSigned w t = .ok (some v) ↔ Denotes t v ∧ k.min ≤ v ∧ v ≤ k.max) ∧
    (toSigned w t = .ok none ↔ ¬∃ v, Denotes t v ∧ k.min ≤ v ∧ v ≤ k.max) ∧
    (Denotes t k.min → toSigned w t = .ok (some k.min)) ∧
    (Denotes t (k.min - 1) → toSigned w t = .ok none) ∧
    (Denotes t (k.max + 1) → toSigned w t = .ok none) := by
  intro k
  have hmin := k.min_le
  have hmax := k.le_max
  have hleast : k.Holds k.min := ⟨Int.le_refl _, by omega⟩
  have hbelow : ¬k.Holds (k.min - 1) := fun h => absurd h.1 (by omega)
  have habove : ¬k.Holds (k.max + 1) := fun h => absurd h.2 (by omega)
  refine ⟨fun v => toSigned_eq_some_iff, ?_, fun h => ?_, fun h => ?_, fun h => ?_⟩
  · rw [toSigned_eq_none_iff, not_exists]
    exact forall_congr' fun v => not_and.symm
  · rw [toSigned_of_denotes w h, if_pos hleast]
  · rw [toSigned_of_denotes w h, if_neg hbelow]
  · rw [toSigned_of_denotes w h, if_neg habove]

/-- With eight bits, the least integer, after zeros, and its neighbours out of range. -/
theorem toSigned_exact_w8 :
    toSigned .w8 ['-', '0', '0', '1', '2', '8'] = .ok (some (-128)) ∧
      toSigned .w8 ['-', '1', '2', '9'] = .ok none ∧
      toSigned .w8 ['+', '1', '2', '8'] = .ok none := by
  refine ⟨(toSigned_exact .w8 _).2.2.1 ?_, (toSigned_exact .w8 _).2.2.2.1 ?_,
    (toSigned_exact .w8 _).2.2.2.2 ?_⟩
  · exact @Denotes.minus ['0', '0', '1', '2', '8'] (by decide)
  · exact @Denotes.minus ['1', '2', '9'] (by decide)
  · exact @Denotes.plus ['1', '2', '8'] (by decide)

end TextParsing
