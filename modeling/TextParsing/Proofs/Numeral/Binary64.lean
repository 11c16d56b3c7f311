import Mathlib.Algebra.Order.Field.Power
import Mathlib.Algebra.Order.Field.Rat
import Mathlib.Data.BitVec
import Mathlib.Order.UpperLower.Basic
import Mathlib.Tactic.Linarith
import Mathlib.Tactic.NormNum
import Mathlib.Tactic.Positivity
import Mathlib.Tactic.Ring
import TextParsing.Numeral.Binary64

/-!
# Doubles as numbers

A double is a word of 64 bits, and IEEE 754 says which number it stands for: a sign bit,
eleven bits of exponent and 52 bits of fraction (`Binary64.Word.value`). The nearest double
to a number is said in these terms alone (`Word.IsNearest`): no finite word stands for a
number that is nearer, and if another number is as near then the last bit is zero.

Without the sign, a word is an integer, its magnitude, and the numbers are in the order of
these integers (`number_strictMono`). So the numbers next to a given one are those of two
consecutive magnitudes, whatever their exponents are, and one of the two is even. It is
enough then to look for the nearest magnitude (`NearestIn`, `isNearest_word_iff`), and there
is only one (`NearestIn.unique`).
-/

namespace TextParsing

namespace Binary64

/-! ### Words -/

/-- The number of a double without its sign, by the exponent field and the fraction field.
    The exponent zero is that of the subnormal numbers; the others have a leading bit that is
    not written. -/
def numberOf (exponent fraction : ℕ) : ℚ :=
  if exponent = 0 then fraction * 2 ^ (-1074 : ℤ)
  else (2 ^ 52 + fraction) * 2 ^ ((exponent : ℤ) - 1075)

/-- The least number that is too large for a double: halfway between the greatest finite one,
    `2 ^ 1024 - 2 ^ 971`, and the next power of two. -/
def overflow : ℚ := 2 ^ 1024 - 2 ^ 970

/-- The 64 bits of a double. The first one is the sign. -/
abbrev Word := BitVec 64

namespace Word

/-- The exponent field: eleven bits after the sign. -/
def exponent (w : Word) : ℕ := (w.extractLsb' 52 11).toNat

/-- The fraction field: the last 52 bits. -/
def fraction (w : Word) : ℕ := (w.extractLsb' 0 52).toNat

/-- The word stands for a number: the exponent field is not all ones. -/
def IsFinite (w : Word) : Prop := w.exponent ≠ 2047

/-- The number that a word stands for. -/
def value (w : Word) : ℚ :=
  if w.msb then -numberOf w.exponent w.fraction else numberOf w.exponent w.fraction

example : value 0xbff8000000000000#64 = -3 / 2 := by decide +kernel

/-- The word is the double nearest to `q`. If another number is as near, its last bit is
    zero. -/
structure IsNearest (q : ℚ) (w : Word) : Prop where
  finite : w.IsFinite
  le : ∀ v : Word, v.IsFinite → |w.value - q| ≤ |v.value - q|
  even : ∀ v : Word, v.IsFinite → v.value ≠ w.value → |v.value - q| = |w.value - q| →
    w.fraction % 2 = 0

end Word

/-- The 64 bits of a double, as a word. -/
def word (x : Binary64) : Word := BitVec.ofNat 64 x.bits

/-! ### Magnitudes -/

/-- The number of a double without its sign, by the lower 63 bits. Beyond the finite doubles,
    the exponents go on. -/
def number (m : ℕ) : ℚ := numberOf (m / 2 ^ 52) (m % 2 ^ 52)

/-- A number with 53 bits, or with fewer if the exponent is the smallest one, in units of its
    last place. The greatest number of units, which has 54 bits, belongs to the next
    exponent. -/
theorem number_eq {s k : ℕ} (hk : s = 0 ∨ 2 ^ 52 ≤ k) (hk' : k ≤ 2 ^ 53) :
    number (s * 2 ^ 52 + k) = k * 2 ^ ((s : ℤ) - 1074) := by
  rw [number, numberOf]
  rcases lt_or_ge k (2 ^ 52) with hlow | hlow
  · obtain rfl : s = 0 := by omega
    rw [if_pos (by omega), show (0 * 2 ^ 52 + k) % 2 ^ 52 = k by omega]
    norm_num
  · rcases hk'.lt_or_eq with hlt | rfl
    · rw [if_neg (by omega), show (s * 2 ^ 52 + k) / 2 ^ 52 = s + 1 by omega,
        show (s * 2 ^ 52 + k) % 2 ^ 52 = k - 2 ^ 52 by omega, Nat.cast_sub hlow]
      push_cast
      ring_nf
    · rw [if_neg (by omega), show (s * 2 ^ 52 + 2 ^ 53) / 2 ^ 52 = s + 2 by omega,
        show (s * 2 ^ 52 + 2 ^ 53) % 2 ^ 52 = 0 by omega,
        show ((s + 2 : ℕ) : ℤ) - 1075 = ((s : ℤ) - 1074) + 1 by push_cast; ring,
        zpow_add_one₀ two_ne_zero]
      push_cast
      ring

/-- Every magnitude counts units of some last place. -/
theorem exists_units (m : ℕ) :
    ∃ s k, m = s * 2 ^ 52 + k ∧ (s = 0 ∨ 2 ^ 52 ≤ k) ∧ k < 2 ^ 53 := by
  rcases lt_or_ge m (2 ^ 52) with h | h
  · exact ⟨0, m, by omega, .inl rfl, by omega⟩
  · exact ⟨m / 2 ^ 52 - 1, m % 2 ^ 52 + 2 ^ 52, by omega, .inr (by omega), by omega⟩

theorem number_strictMono : StrictMono number := by
  refine strictMono_nat_of_lt_succ fun m => ?_
  obtain ⟨s, k, rfl, hk, hlt⟩ := exists_units m
  rw [add_assoc, number_eq hk hlt.le, number_eq (by omega) (by omega)]
  have : (0 : ℚ) < 2 ^ ((s : ℤ) - 1074) := by positivity
  push_cast
  linarith

theorem number_zero : number 0 = 0 := by
  simp [number, numberOf]

theorem number_nonneg (m : ℕ) : 0 ≤ number m :=
  number_zero ▸ number_strictMono.monotone (Nat.zero_le m)

/-- Of the magnitudes in `s`, `m` is the one whose number is nearest to `q`, and even if
    another one is as near. -/
structure NearestIn (s : Set ℕ) (q : ℚ) (m : ℕ) : Prop where
  mem : m ∈ s
  le : ∀ n ∈ s, |number m - q| ≤ |number n - q|
  even : ∀ n ∈ s, n ≠ m → |number n - q| = |number m - q| → m % 2 = 0

namespace NearestIn

variable {s t : Set ℕ} {q : ℚ} {m n : ℕ}

theorem mono (h : NearestIn t q m) (hst : s ⊆ t) (hm : m ∈ s) : NearestIn s q m :=
  ⟨hm, fun n hn => h.le n (hst hn), fun n hn => h.even n (hst hn)⟩

/-- Two magnitudes that are as near as each other are both even, so that there is another one
    between them, which is nearer. -/
protected theorem not_lt (hs : IsLowerSet s) (h : NearestIn s q m) (h' : NearestIn s q n) :
    ¬m < n := by
  intro hlt
  have heq : |number n - q| = |number m - q| := le_antisymm (h'.le m h.mem) (h.le n h'.mem)
  have hm := h.even n h'.mem hlt.ne' heq
  have hn := h'.even m h.mem hlt.ne heq.symm
  have hbelow : number m < number (m + 1) := number_strictMono (Nat.lt_succ_self m)
  have habove : number (m + 1) < number n := number_strictMono (by omega)
  have hle := h.le (m + 1) (hs (by omega : m + 1 ≤ n) h'.mem)
  -- The number lies in the middle.
  rcases abs_eq_abs.1 heq with hmid | hmid
  · linarith
  · rw [abs_of_nonpos (by linarith : number m - q ≤ 0)] at hle
    exact absurd hle (not_le.2 (abs_lt.2 ⟨by linarith, by linarith⟩))

theorem unique (hs : IsLowerSet s) (h : NearestIn s q m) (h' : NearestIn s q n) : m = n :=
  le_antisymm (Nat.le_of_not_lt (h'.not_lt hs h)) (Nat.le_of_not_lt (h.not_lt hs h'))

/-- Between two consecutive magnitudes, the lower one is nearest if it is not farther than the
    upper one. -/
theorem lower (hlow : number m ≤ q) (h : q - number m ≤ number (m + 1) - q)
    (heven : q - number m = number (m + 1) - q → m % 2 = 0) : NearestIn Set.univ q m := by
  have hdist : |number m - q| = q - number m := by rw [abs_sub_comm, abs_of_nonneg (by linarith)]
  have hbelow : ∀ n < m, q - number m < |number n - q| := fun n hn => by
    have := number_strictMono hn
    rw [abs_sub_comm, abs_of_nonneg (by linarith)]
    linarith
  have habove : ∀ n, m < n → number (m + 1) - q ≤ |number n - q| := fun n hn => by
    have := number_strictMono.monotone (Nat.succ_le_of_lt hn)
    exact le_trans (by linarith) (le_abs_self _)
  refine ⟨trivial, fun n _ => ?_, fun n _ hne heq => ?_⟩
  · rw [hdist]
    rcases lt_trichotomy n m with hn | rfl | hn
    · exact (hbelow n hn).le
    · exact hdist.ge
    · exact h.trans (habove n hn)
  · rw [hdist] at heq
    rcases lt_or_gt_of_ne hne with hn | hn
    · exact absurd heq (hbelow n hn).ne'
    · exact heven (le_antisymm h (heq ▸ habove n hn))

/-- Between two consecutive magnitudes, the upper one is nearest if it is not farther than the
    lower one. -/
theorem upper (hup : q ≤ number (m + 1)) (h : number (m + 1) - q ≤ q - number m)
    (heven : q - number m = number (m + 1) - q → (m + 1) % 2 = 0) :
    NearestIn Set.univ q (m + 1) := by
  have hdist : |number (m + 1) - q| = number (m + 1) - q := abs_of_nonneg (by linarith)
  have hbelow : ∀ n ≤ m, q - number m ≤ |number n - q| := fun n hn => by
    have := number_strictMono.monotone hn
    rw [abs_sub_comm]
    exact le_trans (by linarith) (le_abs_self _)
  have habove : ∀ n, m + 1 < n → number (m + 1) - q < |number n - q| := fun n hn => by
    have := number_strictMono hn
    exact lt_of_lt_of_le (by linarith) (le_abs_self _)
  refine ⟨trivial, fun n _ => ?_, fun n _ hne heq => ?_⟩
  · rw [hdist]
    rcases lt_trichotomy n (m + 1) with hn | rfl | hn
    · exact h.trans (hbelow n (Nat.le_of_lt_succ hn))
    · exact hdist.ge
    · exact (habove n hn).le
  · rw [hdist] at heq
    rcases lt_or_gt_of_ne hne with hn | hn
    · exact heven (le_antisymm (heq ▸ hbelow n (Nat.le_of_lt_succ hn)) h)
    · exact absurd heq (habove n hn).ne'

end NearestIn

/-! ### From words to magnitudes -/

namespace Word

/-- The word without its sign, as an integer. -/
def magnitude (w : Word) : ℕ := w.toNat % 2 ^ 63

theorem exponent_eq (w : Word) : w.exponent = w.magnitude / 2 ^ 52 := by
  rw [exponent, magnitude, BitVec.extractLsb'_toNat, Nat.shiftRight_eq_div_pow]
  omega

theorem fraction_eq (w : Word) : w.fraction = w.magnitude % 2 ^ 52 := by
  rw [fraction, magnitude, BitVec.extractLsb'_toNat, Nat.shiftRight_zero]
  omega

theorem value_eq (w : Word) :
    w.value = if w.msb then -number w.magnitude else number w.magnitude := by
  rw [value, exponent_eq, fraction_eq]
  rfl

theorem abs_value (w : Word) : |w.value| = number w.magnitude := by
  rw [value_eq]
  split
  · rw [abs_neg, abs_of_nonneg (number_nonneg _)]
  · exact abs_of_nonneg (number_nonneg _)

theorem isFinite_iff (w : Word) : w.IsFinite ↔ w.magnitude < infinity := by
  have hlt : w.magnitude < 2 ^ 63 := Nat.mod_lt _ (by norm_num)
  rw [IsFinite, exponent_eq, infinity]
  omega

end Word

theorem bits_lt (x : Binary64) : x.bits < 2 ^ 64 := by
  have := x.finite
  rw [infinity] at this
  rw [bits]
  split <;> omega

theorem magnitude_word (x : Binary64) : x.word.magnitude = x.magnitude := by
  have := x.finite
  rw [infinity] at this
  rw [Word.magnitude, word, BitVec.toNat_ofNat, Nat.mod_eq_of_lt x.bits_lt, bits]
  split <;> omega

theorem msb_word (x : Binary64) : x.word.msb = x.negative := by
  have := x.finite
  rw [infinity] at this
  rw [BitVec.msb_eq_decide, word, BitVec.toNat_ofNat, Nat.mod_eq_of_lt x.bits_lt, bits]
  cases x.negative
  · simp
    omega
  · simp

/-- On the side of zero where `q` lies, the distance of a number is that of its magnitude. -/
theorem abs_value_word_sub (x : Binary64) {q : ℚ} (hq : if x.negative then q ≤ 0 else 0 ≤ q) :
    |x.word.value - q| = |number x.magnitude - abs q| := by
  rw [Word.value_eq, msb_word, magnitude_word]
  cases h : x.negative
  · rw [h] at hq
    rw [abs_of_nonneg (a := q) hq]
    rfl
  · rw [h] at hq
    rw [abs_of_nonpos (a := q) hq, ← abs_neg]
    congr 1
    simp only [↓reduceIte]
    ring

/-- The same magnitude on the other side of zero is not as near, unless both are zero. -/
theorem magnitude_ne_of_value_ne {x : Binary64} {q : ℚ} {v : Word}
    (h : NearestIn (Set.Iio infinity) |q| x.magnitude) (hne : v.value ≠ x.word.value)
    (heq : |v.value - q| = |x.word.value - q|) : v.magnitude ≠ x.magnitude := by
  intro hmag
  have hzero : x.word.value ≠ 0 := by
    intro hx
    have hv : |v.value| = 0 := by
      rw [Word.abs_value, hmag, ← magnitude_word, ← Word.abs_value, hx, abs_zero]
    exact hne (by rw [hx, abs_eq_zero.1 hv])
  have habs : |v.value| = |x.word.value| := by
    rw [Word.abs_value, Word.abs_value, magnitude_word, hmag]
  have hneg : v.value = -x.word.value := (abs_eq_abs.1 habs).resolve_left hne
  rw [hneg] at heq
  rcases abs_eq_abs.1 heq with hx | hq
  · exact hzero (by linarith)
  · -- The number `q` is zero, and then zero is nearest.
    have hle := h.le 0 (Nat.zero_lt_of_lt x.finite)
    obtain rfl : q = 0 := by linarith
    rw [number_zero, abs_zero, sub_zero, sub_zero, abs_zero, ← magnitude_word,
      ← Word.abs_value] at hle
    exact hzero (abs_eq_zero.1 (le_antisymm ((le_abs_self _).trans hle) (abs_nonneg _)))

/-- A double on the same side of zero as `q` is the nearest one exactly if its magnitude is. -/
theorem isNearest_word_iff (x : Binary64) {q : ℚ} (hq : if x.negative then q ≤ 0 else 0 ≤ q) :
    x.word.IsNearest q ↔ NearestIn (Set.Iio infinity) |q| x.magnitude := by
  have hdist := x.abs_value_word_sub hq
  have hfraction : x.word.fraction % 2 = x.magnitude % 2 := by
    rw [Word.fraction_eq, magnitude_word]
    omega
  constructor
  · intro h
    have beside : ∀ n (hn : n < infinity), ∃ v : Word, v.IsFinite ∧
        |v.value - q| = |number n - abs q| ∧ |v.value| = number n := by
      intro n hn
      refine ⟨word ⟨x.negative, n, hn⟩, ?_, abs_value_word_sub _ hq, ?_⟩
      · rw [Word.isFinite_iff, magnitude_word]
        exact hn
      · rw [Word.abs_value, magnitude_word]
    refine ⟨x.finite, fun n hn => ?_, fun n hn hne heq => ?_⟩
    · obtain ⟨v, hv, hvq, -⟩ := beside n hn
      rw [← hdist, ← hvq]
      exact h.le v hv
    · obtain ⟨v, hv, hvq, hvn⟩ := beside n hn
      rw [← hfraction]
      refine h.even v hv (fun hvx => hne ?_) (by rw [hvq, hdist, heq])
      rw [hvx, Word.abs_value, magnitude_word] at hvn
      exact (number_strictMono.injective hvn).symm
  · intro h
    have hle : ∀ v : Word, |number v.magnitude - abs q| ≤ |v.value - q| := fun v => by
      rw [← Word.abs_value]
      exact abs_abs_sub_abs_le _ _
    refine ⟨?_, fun v hv => ?_, fun v hv hne heq => ?_⟩
    · rw [Word.isFinite_iff, magnitude_word]
      exact x.finite
    · rw [hdist]
      exact (h.le v.magnitude ((Word.isFinite_iff v).1 hv)).trans (hle v)
    · have hv := (Word.isFinite_iff v).1 hv
      rw [hfraction]
      refine h.even v.magnitude hv (magnitude_ne_of_value_ne h hne heq) (le_antisymm ?_ (h.le _ hv))
      rw [← hdist, ← heq]
      exact hle v

end Binary64

end TextParsing
