import Mathlib.Tactic.FieldSimp
import TextParsing.Proofs.Numeral.Decimal
import TextParsing.Proofs.Numeral.Denotation
import TextParsing.Proofs.Numeral.Longest

/-!
# What a literal denotes

A float literal denotes a rational number, part by part (`Literal.Denotes`): the sign is a
factor, the digits before the point are a natural number, the fraction is added to it, and the
exponent is a power of ten. None of this knows about bytes or offsets.

The search for a literal does: it gives the offsets of the parts, and `Literal.decimal` reads
the number off the bytes between them. Where a text denotes a number, each part is found where
it stands, and ends where the next one starts (`exists_findIn_eq`); so it is this number that is
read off (`exists_find_of_denotes`). It follows that a text denotes at most one number
(`Denotes.unique`), and the texts that denote one are the words of the grammar
(`mem_words_iff`).
-/

namespace TextParsing

namespace Literal

open Numeral (IsDigits natural isDigitByte digit?)

/-! ### The number of a literal -/

/-- A sign or none, and the factor that it stands for. -/
inductive Sign : Text → ℤ → Prop where
  | absent : Sign [] 1
  | plus : Sign ['+'] 1
  | minus : Sign ['-'] (-1)

/-- A point and digits or nothing, and the number that is added. -/
inductive Fraction : Text → ℚ → Prop where
  | absent : Fraction [] 0
  | point {ds : Text} : IsDigits ds → Fraction ('.' :: ds) (natural ds / 10 ^ ds.length)

/-- An exponent mark and an integer or nothing, and the power of ten. -/
inductive Exponent : Text → ℤ → Prop where
  | absent : Exponent [] 0
  | marked {mark : Char} {t : Text} {v : ℤ} :
      mark ∈ ['e', 'E'] → Numeral.Denotes t v → Exponent (mark :: t) v

/-- The text is a float literal that denotes the number. -/
inductive Denotes : Text → ℚ → Prop where
  | parts {s ds f e : Text} {σ v : ℤ} {φ : ℚ} : Sign s σ → IsDigits ds → Fraction f φ →
      Exponent e v → Denotes (s ++ (ds ++ (f ++ e))) (σ * (natural ds + φ) * 10 ^ v)

/-! ### Digits -/

variable {s ds f e r t : Text} {σ v : ℤ} {φ q : ℚ}

theorem filterMap_digit?_bytes (h : ∀ x ∈ ds, Text.isDigit x = true) :
    ds.bytes.filterMap digit? = ds.map fun x => x.toNat - 48 := by
  induction ds with
  | nil => rfl
  | cons x ds ih =>
    rw [List.forall_mem_cons] at h
    rw [Text.bytes, List.flatMap_cons, ← Text.bytes]
    rcases Numeral.encode_isDigit_cases x with ⟨hx, henc, -⟩ | ⟨hx, -⟩
    · rw [henc, List.singleton_append, List.filterMap_cons_some (Numeral.digit?_toUInt8 hx),
        ih h.2, List.map_cons]
    · rw [h.1] at hx
      cases hx

theorem ofDigits_filterMap (h : ∀ x ∈ ds, Text.isDigit x = true) :
    Decimal.ofDigits (ds.bytes.filterMap digit?) = natural ds := by
  rw [filterMap_digit?_bytes h, Decimal.ofDigits, List.foldl_map, natural,
    Nat.ofDigitChars_eq_foldl]
  congr 1
  funext n x
  rw [mul_comm]
  rfl

theorem digitsBetween_append (u w r : List UInt8) :
    digitsBetween (u ++ (w ++ r)) u.length (u ++ w).length = w.filterMap digit? := by
  rw [digitsBetween, ← List.append_assoc, List.take_left, List.drop_left]

theorem le_of_mem_digitsBetween {bs : List UInt8} {start stop d : ℕ}
    (h : d ∈ digitsBetween bs start stop) : d ≤ 9 := by
  obtain ⟨b, -, hb⟩ := List.mem_filterMap.1 h
  exact Numeral.digit?_le hb

/-! ### The parts, as bytes -/

theorem exists_bytes_cons (h : IsDigits ds) :
    ∃ b bs, ds.bytes = b :: bs ∧ isDigitByte b = true := by
  obtain ⟨hne, hdigits⟩ := h
  have hbytes := (Numeral.forall_mem_bytes_isDigitByte_iff ds).2 hdigits
  have hnil : ds.bytes ≠ [] := fun hnil => hne (Text.bytes_inj.1 hnil)
  obtain ⟨b, bs, hb⟩ := List.exists_cons_of_ne_nil hnil
  exact ⟨b, bs, hb, hbytes b (by rw [hb]; exact List.mem_cons_self)⟩

/-- A sign before digits is found, and the first byte tells which it is. -/
theorem Sign.leading_bytes (hs : Sign s σ) (hds : IsDigits ds) (r : List UInt8) :
    leading isSignByte (s.bytes ++ (ds.bytes ++ r)) = s.bytes ∧
      σ = if (s.bytes ++ (ds.bytes ++ r)).head? = some 45 then -1 else 1 := by
  cases hs with
  | absent =>
    obtain ⟨b, bs, hb, hdigit⟩ := exists_bytes_cons hds
    have hsign : isSignByte b = false := by
      rw [Bool.eq_false_iff]
      intro hsign
      rw [Mark.not_isDigitByte .sign hsign] at hdigit
      exact nomatch hdigit
    have hminus : b ≠ 45 := by
      rintro rfl
      exact nomatch hsign
    rw [hb]
    simp [Text.bytes, leading, hsign, hminus]
  | plus => exact ⟨rfl, rfl⟩
  | minus => exact ⟨rfl, rfl⟩

/-- The exponent that is read off a literal. -/
def exponentOf (bs : List UInt8) (o : Offsets) : ℤ :=
  let n : ℤ := Decimal.ofDigits (digitsBetween bs o.exponentSign o.stop)
  if bs[o.marker]? = some 45 then -n else n

/-- An integer, with one sign or without, as a sign and digits. -/
theorem exists_sign_of_denotes (h : Numeral.Denotes t v) :
    ∃ s ds σ, t = s ++ ds ∧ Sign s σ ∧ IsDigits ds ∧ v = σ * natural ds := by
  cases h with
  | @unsigned ds hds => exact ⟨[], t, 1, rfl, .absent, hds, (one_mul _).symm⟩
  | @plus ds hds => exact ⟨['+'], ds, 1, rfl, .plus, hds, (one_mul _).symm⟩
  | @minus ds hds => exact ⟨['-'], ds, -1, rfl, .minus, hds, (neg_one_mul _).symm⟩

/-- At the end of the bytes there is no exponent. -/
theorem withExponent_end (u : List UInt8) (sign integer : ℕ) :
    withExponent u sign integer u.length =
      .ok ⟨sign, integer, u.length, u.length, u.length, u.length⟩ := by
  rw [withExponent, List.getElem?_eq_none le_rfl]
  rfl

/-- An exponent mark, a sign or none, and digits that make up the rest of the bytes. -/
theorem withExponent_marked (u : List UInt8) (sign integer : ℕ) {b : UInt8} {s ds : List UInt8}
    (hb : isMarkerByte b = true) (hs : leading isSignByte (s ++ ds) = s) (hne : ds ≠ [])
    (hds : ∀ b ∈ ds, isDigitByte b = true) :
    withExponent (u ++ b :: (s ++ ds)) sign integer u.length =
      .ok ⟨sign, integer, u.length, (u ++ [b]).length, (u ++ b :: s).length,
        (u ++ b :: (s ++ ds)).length⟩ := by
  have hmark : u ++ b :: (s ++ ds) = (u ++ [b]) ++ (s ++ ds) := by simp
  have hsign : skipByte (u ++ b :: (s ++ ds)) isSignByte (u.length + 1) =
      (u ++ b :: s).length := by
    have := skipByte_append (u ++ [b]) isSignByte (s ++ ds)
    rw [hs, ← hmark] at this
    simpa using this
  have htail : tail (u ++ b :: (s ++ ds)) (u ++ b :: s).length = .ok ds := by
    have := tail_append (u ++ b :: s) ds
    rwa [List.append_assoc] at this
  have hcount : countDigits ds = ds.length := by
    have hrun := Text.takeWhile_append_left (r := []) hds rfl
    rw [List.append_nil] at hrun
    rw [countDigits, hrun]
  have hpos := List.length_pos_iff.2 hne
  rw [withExponent, getElem?_append_length]
  simp only [List.head?_cons, Option.any_some, hb, ↓reduceIte, hsign, htail, Checked.ok_bind,
    hcount, hpos, Checked.pure_eq]
  simp
  omega

/-- An exponent that makes up the rest of the bytes is found, and read off. -/
theorem Exponent.exists_withExponent (he : Exponent e v) (u : List UInt8) (sign integer : ℕ) :
    ∃ o, withExponent (u ++ e.bytes) sign integer u.length = .ok o ∧ o.sign = sign ∧
      o.integer = integer ∧ o.fraction = u.length ∧ o.stop = (u ++ e.bytes).length ∧
      exponentOf (u ++ e.bytes) o = v := by
  cases he with
  | absent =>
    have hnil : digitsBetween u u.length u.length = [] := by simp [digitsBetween]
    rw [show Text.bytes [] = [] from rfl, List.append_nil]
    refine ⟨_, withExponent_end u sign integer, rfl, rfl, rfl, rfl, ?_⟩
    simp [exponentOf, hnil, Decimal.ofDigits]
  | marked hmark ht =>
    obtain ⟨s, ds, σ, rfl, hs, hds, rfl⟩ := exists_sign_of_denotes ht
    obtain ⟨b, hbytes, hb⟩ := Mark.exists_bytes_cons_eq (m := .exponent) hmark (s ++ ds)
    obtain ⟨c, cs, hcs, -⟩ := exists_bytes_cons hds
    obtain ⟨hlead, hfactor⟩ := hs.leading_bytes hds []
    rw [List.append_nil] at hlead hfactor
    rw [hbytes, Text.bytes_append]
    have hne : ds.bytes ≠ [] := by rw [hcs]; exact List.cons_ne_nil c cs
    refine ⟨_, withExponent_marked u sign integer hb hlead hne
      ((Numeral.forall_mem_bytes_isDigitByte_iff ds).2 hds.2), rfl, rfl, rfl, rfl, ?_⟩
    have hdigits := digitsBetween_append (u ++ b :: s.bytes) ds.bytes []
    have hhead := getElem?_append_length (u ++ [b]) (s.bytes ++ ds.bytes)
    simp only [List.append_nil, List.append_assoc, List.cons_append, List.nil_append]
      at hdigits hhead
    simp only [exponentOf, hdigits, hhead, ofDigits_filterMap hds.2, hfactor]
    split <;> simp

theorem Exponent.head?_bytes (he : Exponent e v) :
    e.bytes.head?.any isDigitByte = false ∧ e.bytes.head?.any isPointByte = false := by
  cases he with
  | absent => exact ⟨rfl, rfl⟩
  | marked hmark ht =>
    obtain ⟨b, hbytes, hb⟩ := Mark.exists_bytes_cons_eq (m := .exponent) hmark _
    rw [hbytes]
    exact ⟨Mark.not_isDigitByte .exponent hb, not_isPointByte_of_isMarkerByte hb⟩

theorem Fraction.head?_bytes (hf : Fraction f φ) {r : List UInt8}
    (hr : r.head?.any isDigitByte = false) : (f.bytes ++ r).head?.any isDigitByte = false := by
  cases hf with
  | absent => exact hr
  | point hds => rfl

/-- A fraction is found, if neither a point nor a digit follows. -/
theorem Fraction.fractionPart_append (hf : Fraction f φ) {r : List UInt8}
    (hdigit : r.head?.any isDigitByte = false) (hpoint : r.head?.any isPointByte = false) :
    fractionPart (f.bytes ++ r) = f.bytes := by
  cases hf with
  | absent =>
    cases r with
    | nil => rfl
    | cons b r => exact if_neg fun h => Bool.eq_false_iff.1 hpoint h.1
  | @point ds hds =>
    obtain ⟨b, bs, hbs, -⟩ := exists_bytes_cons hds
    have hrun := Text.takeWhile_append_left
      ((Numeral.forall_mem_bytes_isDigitByte_iff ds).2 hds.2) hdigit
    have hne : ds.bytes ≠ [] := by rw [hbs]; exact List.cons_ne_nil b bs
    rw [show Text.bytes ('.' :: ds) = 46 :: ds.bytes from rfl, List.cons_append, fractionPart, hrun]
    exact if_pos ⟨rfl, hne⟩

/-- The fraction that is read off a literal. -/
def fractionOf (bs : List UInt8) (o : Offsets) : ℚ :=
  let ds := digitsBetween bs (o.integer + 1) o.fraction
  Decimal.ofDigits ds / 10 ^ ds.length

theorem Fraction.fractionOf_eq (hf : Fraction f φ) {u r : List UInt8} {o : Offsets}
    (hinteger : o.integer = u.length) (hfraction : o.fraction = (u ++ f.bytes).length) :
    fractionOf (u ++ (f.bytes ++ r)) o = φ := by
  rw [fractionOf, hinteger, hfraction]
  cases hf with
  | absent =>
    have hnil : digitsBetween (u ++ r) (u.length + 1) u.length = [] := by
      rw [digitsBetween, List.take_left, List.drop_eq_nil_of_le (Nat.le_succ _), List.filterMap_nil]
    rw [show Text.bytes [] = [] from rfl, List.append_nil, List.nil_append, hnil]
    simp [Decimal.ofDigits]
  | @point ds hds =>
    have hdigits := digitsBetween_append (u ++ [46]) ds.bytes r
    rw [List.append_assoc, List.append_assoc, List.length_append] at hdigits
    have hread : digitsBetween (u ++ (46 :: ds.bytes ++ r)) (u.length + 1)
        (u ++ 46 :: ds.bytes).length = ds.bytes.filterMap digit? := hdigits
    rw [show Text.bytes ('.' :: ds) = 46 :: ds.bytes from rfl, hread, ofDigits_filterMap hds.2,
      filterMap_digit?_bytes hds.2, List.length_map]

/-! ### The whole literal -/

/-- The offsets of a literal that is the whole text are the ends of its parts. -/
theorem exists_findIn_eq (hs : Sign s σ) (hds : IsDigits ds) (hf : Fraction f φ)
    (he : Exponent e v) :
    let bs := s.bytes ++ (ds.bytes ++ (f.bytes ++ e.bytes))
    ∃ o, findIn bs = .ok (some o) ∧ o.sign = s.bytes.length ∧
      o.integer = (s.bytes ++ ds.bytes).length ∧
      o.fraction = (s.bytes ++ ds.bytes ++ f.bytes).length ∧ o.stop = bs.length ∧
      exponentOf bs o = v := by
  intro bs
  obtain ⟨b, cs, hcs, -⟩ := exists_bytes_cons hds
  have hne : ds.bytes.length ≠ 0 := by rw [hcs]; exact Nat.succ_ne_zero _
  obtain ⟨hdigit, hpoint⟩ := he.head?_bytes
  have hsign : skipByte bs isSignByte 0 = s.bytes.length := by
    have := skipByte_append [] isSignByte bs
    rwa [(hs.leading_bytes hds _).1] at this
  have hrun := Text.takeWhile_append_left
    ((Numeral.forall_mem_bytes_isDigitByte_iff ds).2 hds.2) (hf.head?_bytes hdigit)
  have hfraction := fractionEnd_append (s.bytes ++ ds.bytes) (f.bytes ++ e.bytes)
  rw [hf.fractionPart_append hdigit hpoint, List.append_assoc] at hfraction
  obtain ⟨o, ho, hosign, hointeger, hofraction, hostop, hoexponent⟩ :=
    he.exists_withExponent (s.bytes ++ ds.bytes ++ f.bytes) s.bytes.length
      (s.bytes ++ ds.bytes).length
  simp only [List.append_assoc, List.length_append] at ho hostop hoexponent hfraction
  refine ⟨o, ?_, hosign, hointeger, hofraction, ?_, hoexponent⟩
  · simp only [findIn, hsign, tail_append, Checked.ok_bind, countDigits, hrun, hne, bs, ↓reduceIte,
      hfraction, ho, Checked.pure_eq]
  · simpa [bs] using hostop

/-- The digits of the fraction are appended to those before the point, and the power of ten makes
    up for it. -/
theorem absolute_decimal (bs : List UInt8) (o : Offsets) :
    (decimal bs o).absolute = (Decimal.ofDigits (digitsBetween bs o.sign o.integer) +
      fractionOf bs o) * 10 ^ exponentOf bs o := by
  obtain ⟨fs, hfs⟩ : ∃ fs, fs = digitsBetween bs (o.integer + 1) o.fraction := ⟨_, rfl⟩
  have hexponent : (decimal bs o).exponent = exponentOf bs o - fs.length := hfs ▸ rfl
  have hdigits : (decimal bs o).digits = digitsBetween bs o.sign o.integer ++ fs := hfs ▸ rfl
  rw [Decimal.absolute, Decimal.significand, hexponent, hdigits, Decimal.ofDigits_append,
    zpow_sub₀ (by norm_num), zpow_natCast, fractionOf, ← hfs]
  push_cast
  field_simp

theorem getElem?_bytes_minus (t : Text) : t.bytes[0]? = some 45 ↔ t.head? = some '-' := by
  constructor
  · intro h
    rw [← List.head?_eq_getElem?] at h
    exact Text.head?_of_head?_bytes (u := '-') (by decide) h
  · intro h
    obtain ⟨r, rfl⟩ := List.head?_eq_some_iff.1 h
    rfl

/-- The number of a literal that is the whole text is read off. -/
theorem exists_find_of_denotes (h : Denotes t q) :
    ∃ o, find t = .ok (some o) ∧ o.stop = t.byteLength ∧ (decimal t.bytes o).Represents q ∧
      ((decimal t.bytes o).negative = true ↔ t.head? = some '-') := by
  obtain @⟨s, ds, f, e, σ, v, φ, hs, hds, hf, he⟩ := h
  obtain ⟨o, hfind, hsign, hinteger, hfraction, hstop, hexponent⟩ := exists_findIn_eq hs hds hf he
  have hbytes : Text.bytes (s ++ (ds ++ (f ++ e))) =
      s.bytes ++ (ds.bytes ++ (f.bytes ++ e.bytes)) := by
    simp only [Text.bytes_append]
  have hdigits := digitsBetween_append s.bytes ds.bytes (f.bytes ++ e.bytes)
  have hfrac := hf.fractionOf_eq (r := e.bytes) hinteger hfraction
  have habs := absolute_decimal (s.bytes ++ (ds.bytes ++ (f.bytes ++ e.bytes))) o
  rw [← hsign, ← hinteger] at hdigits
  rw [List.append_assoc] at hfrac
  rw [hdigits, ofDigits_filterMap hds.2, hfrac, hexponent] at habs
  rw [find, ← Text.length_bytes, ← getElem?_bytes_minus, hbytes]
  refine ⟨o, hfind, hstop, ⟨fun d hd => ?_, ?_⟩, decide_eq_true_iff⟩
  · exact (List.mem_append.1 hd).elim le_of_mem_digitsBetween le_of_mem_digitsBetween
  · have hfactor := (hs.leading_bytes hds (f.bytes ++ e.bytes)).2
    rw [List.head?_eq_getElem?] at hfactor
    rw [habs, hfactor]
    simp only [decimal, decide_eq_true_eq]
    split <;> push_cast <;> ring

/-! ### Words -/

variable {w : List UInt8}

theorem exists_sign_of_mem (h : w ∈ 1 + sign) : ∃ s σ, Sign s σ ∧ s.bytes = w := by
  rcases (Language.mem_add _ _ _).1 h with h | ⟨x, hx, rfl⟩
  · exact ⟨[], 1, .absent, ((Language.mem_one w).1 h).symm⟩
  · rw [List.mem_pair] at hx
    rcases hx with rfl | rfl
    · exact ⟨['+'], 1, .plus, rfl⟩
    · exact ⟨['-'], -1, .minus, rfl⟩

theorem exists_isDigits_of_mem (h : w ∈ digits) : ∃ ds, IsDigits ds ∧ ds.bytes = w := by
  obtain ⟨hne, hdigits⟩ := mem_digits_iff.1 h
  have hall : ∃ ds : Text, (∀ x ∈ ds, Text.isDigit x = true) ∧ ds.bytes = w := by
    clear h hne
    induction w with
    | nil => exact ⟨[], by simp, rfl⟩
    | cons b w ih =>
      rw [List.forall_mem_cons] at hdigits
      obtain ⟨ds, hds, rfl⟩ := ih hdigits.2
      have hb : [b] ∈ digit := digit_eq ▸ ⟨b, hdigits.1, rfl⟩
      obtain ⟨x, hx, hbytes⟩ := hb
      refine ⟨x :: ds, List.forall_mem_cons.2 ⟨?_, hds⟩, ?_⟩
      · exact List.all_eq_true.1 (by decide) x hx
      · rw [← List.singleton_append, Text.bytes_append, ← hbytes, List.singleton_append]
  obtain ⟨ds, hds, rfl⟩ := hall
  exact ⟨ds, ⟨fun hnil => hne (hnil ▸ rfl), hds⟩, rfl⟩

theorem exists_fraction_of_mem (h : w ∈ 1 + fraction) : ∃ f φ, Fraction f φ ∧ f.bytes = w := by
  rcases (Language.mem_add _ _ _).1 h with h | h
  · exact ⟨[], 0, .absent, ((Language.mem_one w).1 h).symm⟩
  · obtain ⟨_, ⟨x, hx, rfl⟩, d, hd, rfl⟩ := Language.mem_mul.1 h
    obtain ⟨ds, hds, rfl⟩ := exists_isDigits_of_mem hd
    obtain rfl := List.mem_singleton.1 hx
    exact ⟨'.' :: ds, _, .point hds, rfl⟩

/-- A sign or none before digits is an integer. -/
theorem Sign.exists_denotes (hs : Sign s σ) (hds : IsDigits ds) :
    ∃ v, Numeral.Denotes (s ++ ds) v := by
  cases hs with
  | absent => exact ⟨_, .unsigned hds⟩
  | plus => exact ⟨_, .plus hds⟩
  | minus => exact ⟨_, .minus hds⟩

theorem exists_exponent_of_mem (h : w ∈ 1 + exponent) : ∃ e v, Exponent e v ∧ e.bytes = w := by
  rcases (Language.mem_add _ _ _).1 h with h | h
  · exact ⟨[], 0, .absent, ((Language.mem_one w).1 h).symm⟩
  · rw [exponent, mul_assoc] at h
    obtain ⟨_, ⟨x, hx, rfl⟩, _, hrest, rfl⟩ := Language.mem_mul.1 h
    obtain ⟨_, hsign, _, hdigits, rfl⟩ := Language.mem_mul.1 hrest
    obtain ⟨s, σ, hs, rfl⟩ := exists_sign_of_mem hsign
    obtain ⟨ds, hds, rfl⟩ := exists_isDigits_of_mem hdigits
    obtain ⟨v, hv⟩ := hs.exists_denotes hds
    refine ⟨x :: (s ++ ds), v, .marked hx hv, ?_⟩
    rw [← List.singleton_append, Text.bytes_append, Text.bytes_append]

/-- The literals are the texts that denote a number. -/
theorem mem_words_iff (t : Text) : t.bytes ∈ words ↔ ∃ q, Denotes t q := by
  constructor
  · intro h
    rw [words, mul_assoc, mul_assoc] at h
    obtain ⟨_, hsign, _, hrest, hbytes⟩ := Language.mem_mul.1 h
    obtain ⟨_, hdigits, _, hoptional, rfl⟩ := Language.mem_mul.1 hrest
    obtain ⟨_, hfraction, _, hexponent, rfl⟩ := Language.mem_mul.1 hoptional
    obtain ⟨s, σ, hs, rfl⟩ := exists_sign_of_mem hsign
    obtain ⟨ds, hds, rfl⟩ := exists_isDigits_of_mem hdigits
    obtain ⟨f, φ, hf, rfl⟩ := exists_fraction_of_mem hfraction
    obtain ⟨e, v, he, rfl⟩ := exists_exponent_of_mem hexponent
    simp only [← Text.bytes_append, Text.bytes_inj] at hbytes
    exact hbytes ▸ ⟨_, .parts hs hds hf he⟩
  · rintro ⟨q, hq⟩
    obtain ⟨o, hfind, hstop, -⟩ := exists_find_of_denotes hq
    rw [← length?_eq_byteLength_iff, length?, hfind, Checked.ok_bind, Checked.pure_eq,
      Option.map_some, hstop]

/-- A literal denotes one number. -/
theorem Denotes.unique {q' : ℚ} (h : Denotes t q) (h' : Denotes t q') : q = q' := by
  obtain ⟨o, hfind, -, hread, -⟩ := exists_find_of_denotes h
  obtain ⟨o', hfind', -, hread', -⟩ := exists_find_of_denotes h'
  obtain rfl : o = o' := Option.some.inj (Except.ok.inj (hfind.symm.trans hfind'))
  rw [hread.eq, hread'.eq]

end Literal

end TextParsing
