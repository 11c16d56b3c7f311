import TextParsing.Proofs.Numeral.Reading

/-!
# Reading doubles is exact

A text is read as a double if the search for a literal ends at its end. The literals are the
texts that denote a number, and the decimal number that is read off is the one denoted
(`TextParsing.Proofs.Numeral.Reading`); it is rounded to the nearest double, unless it is too
large (`TextParsing.Proofs.Numeral.Decimal`). What is left to say here is the sign, which is
taken from the text and not from the number: zero has both signs, and so has a number that is
rounded to zero.

Main statement: `toDouble_exact`.
-/

namespace TextParsing

open Binary64 Literal
open Numeral (IsDigits natural)

variable {t : Text} {q : ℚ}

/-- A literal is read as the nearest double, unless its number is too large. -/
theorem exists_toDouble_eq_round (h : Literal.Denotes t q) :
    ∃ x : Decimal, toDouble t = .ok x.round ∧ x.Represents q ∧
      (x.negative = true ↔ t.head? = some '-') := by
  obtain ⟨o, hfind, hstop, hread, hsign⟩ := exists_find_of_denotes h
  refine ⟨decimal t.bytes o, ?_, hread, hsign⟩
  rw [toDouble, hfind, Checked.ok_bind]
  simp only [hstop, ↓reduceIte, Checked.pure_eq]

theorem toDouble_of_not_mem_words (h : t.bytes ∉ words) : toDouble t = .ok none := by
  obtain ⟨r, hr, -⟩ := exists_find_eq t
  have hlength := mt (length?_eq_byteLength_iff t).1 h
  rw [length?, hr, Checked.ok_bind] at hlength
  rw [toDouble, hr, Checked.ok_bind]
  cases r with
  | none => rfl
  | some o =>
    have hstop : o.stop ≠ t.byteLength := fun hstop => hlength (by rw [Option.map_some, hstop]; rfl)
    simp only [hstop, ↓reduceIte, Checked.pure_eq]

theorem toDouble_eq_some_iff {x : Binary64} :
    toDouble t = .ok (some x) ↔ ∃ q, Literal.Denotes t q ∧ |q| < overflow ∧ x.word.IsNearest q ∧
      (x.word.msb = true ↔ t.head? = some '-') := by
  constructor
  · intro h
    by_cases hword : t.bytes ∈ words
    · obtain ⟨q, hq⟩ := (mem_words_iff t).1 hword
      obtain ⟨y, hy, hread, hsign⟩ := exists_toDouble_eq_round hq
      obtain ⟨hlt, hnegative, hnearest⟩ :=
        hread.round_eq_some_iff.1 (Except.ok.inj (hy.symm.trans h))
      exact ⟨q, hq, hlt, hnearest, by rw [msb_word, hnegative, hsign]⟩
    · rw [toDouble_of_not_mem_words hword] at h
      exact nomatch h
  · rintro ⟨q, hq, hlt, hnearest, hmsb⟩
    obtain ⟨y, hy, hread, hsign⟩ := exists_toDouble_eq_round hq
    rw [msb_word, ← hsign] at hmsb
    rw [hy, hread.round_eq_some_iff.2 ⟨hlt, Bool.eq_iff_iff.2 hmsb, hnearest⟩]

theorem Literal.Denotes.toDouble_eq_none_iff (h : Literal.Denotes t q) :
    toDouble t = .ok none ↔ overflow ≤ |q| := by
  obtain ⟨y, hy, hread, -⟩ := exists_toDouble_eq_round h
  rw [hy, Except.ok.injEq, hread.round_eq_none_iff]

theorem toDouble_eq_none_iff :
    toDouble t = .ok none ↔ ∀ q, Literal.Denotes t q → overflow ≤ |q| := by
  constructor
  · exact fun h q hq => hq.toDouble_eq_none_iff.1 h
  · intro h
    by_cases hword : t.bytes ∈ words
    · obtain ⟨q, hq⟩ := (mem_words_iff t).1 hword
      exact hq.toDouble_eq_none_iff.2 (h q hq)
    · exact toDouble_of_not_mem_words hword

/-- A number that is nearest to zero keeps its sign. -/
theorem exists_toDouble_eq_zero (h : Literal.Denotes t q) (hq : |q| ≤ 2 ^ (-1075 : ℤ)) :
    ∃ x, toDouble t = .ok (some x) ∧
      x.bits = if t.head? = some '-' then 0x8000000000000000 else 0 := by
  obtain ⟨y, hy, hread, hsign⟩ := exists_toDouble_eq_round h
  have hnearest := nearestIn_zero (abs_nonneg q) hq
  have hpos : 0 < infinity := by decide
  refine ⟨⟨y.negative, 0, hpos⟩, ?_, ?_⟩
  · rw [hy, hread.round_eq_some_iff_nearestIn.2]
    exact ⟨hnearest.lt_infinity_iff.1 hpos, rfl, hnearest.mono (Set.subset_univ _) hpos⟩
  · simp only [bits, hsign, add_zero]

/-- Reading a double is exact: it gives the double nearest to the number that the text denotes, if
    the text is a float literal and its number is not too large, and else nothing. Of two nearest
    ones it is the one whose last bit is zero; and the sign is that of the text, also if the double
    is zero. -/
theorem toDouble_exact (t : Text) :
    (t.bytes ∈ words ↔ ∃! q, Literal.Denotes t q) ∧
    (∀ x, toDouble t = .ok (some x) ↔ t.bytes ∈ words ∧ ∃ q, Literal.Denotes t q ∧
      |q| < 2 ^ 1024 - 2 ^ 970 ∧ x.word.IsNearest q ∧
      (x.word.msb = true ↔ t.head? = some '-')) ∧
    (toDouble t = .ok none ↔
      ¬(t.bytes ∈ words ∧ ∃ q, Literal.Denotes t q ∧ |q| < 2 ^ 1024 - 2 ^ 970)) ∧
    (∀ q, Literal.Denotes t q → |q| ≤ 2 ^ (-1075 : ℤ) → ∃ x, toDouble t = .ok (some x) ∧
      x.bits = if t.head? = some '-' then 0x8000000000000000 else 0) := by
  refine ⟨?_, fun x => ?_, ?_, fun q => exists_toDouble_eq_zero⟩
  · rw [mem_words_iff]
    exact ⟨fun ⟨q, hq⟩ => ⟨q, hq, fun q' hq' => hq'.unique hq⟩, ExistsUnique.exists⟩
  · rw [toDouble_eq_some_iff, mem_words_iff]
    exact ⟨fun ⟨q, hq, h⟩ => ⟨⟨q, hq⟩, q, hq, h⟩, And.right⟩
  · rw [toDouble_eq_none_iff, mem_words_iff]
    constructor
    · rintro h ⟨-, q, hq, hlt⟩
      exact absurd hlt (h q hq).not_gt
    · intro h q hq
      exact not_lt.1 fun hlt => h ⟨⟨q, hq⟩, q, hq, hlt⟩

/-- A negative number that is too small becomes a negative zero. -/
theorem toDouble_exact_underflow :
    ∃ x, toDouble ['-', '1', 'e', '-', '4', '0', '0'] = .ok (some x) ∧
      x.bits = 0x8000000000000000 := by
  have hone : IsDigits ['1'] := by decide
  have hpower : Numeral.Denotes ['-', '4', '0', '0'] (-400) :=
    @Numeral.Denotes.minus ['4', '0', '0'] (by decide)
  have hdenotes : Literal.Denotes ['-', '1', 'e', '-', '4', '0', '0'] _ :=
    .parts .minus hone .absent (.marked List.mem_cons_self hpower)
  refine (toDouble_exact _).2.2.2 _ hdenotes ?_
  have hnumber : natural ['1'] = 1 := rfl
  have hpos : (0 : ℚ) < 10 ^ (-400 : ℤ) := by positivity
  calc |((-1 : ℤ) : ℚ) * (natural ['1'] + 0) * 10 ^ (-400 : ℤ)| = 10 ^ (-400 : ℤ) := by
        rw [hnumber, abs_mul, abs_of_pos hpos]
        norm_num
    _ ≤ 10 ^ (-324 : ℤ) := zpow_le_zpow_right₀ (by norm_num) (by norm_num)
    _ ≤ 2 ^ (-1075 : ℤ) := Decimal.ten_pow_le

end TextParsing
