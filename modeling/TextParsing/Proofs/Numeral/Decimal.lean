import TextParsing.Proofs.Numeral.Rounding

/-!
# Rounding decimal numbers

The powers of ten that a decimal number is made of may be huge, and most of them are never
computed: the order of the number tells beforehand that it is too large for a double, or that
it becomes zero. This needs the order to bound the number (`Decimal.absolute_bounds`), and a
digit to be at most nine.

Main statements: `Decimal.Represents.round_eq_some_iff` and
`Decimal.Represents.round_eq_none_iff`.
-/

namespace TextParsing

namespace Decimal

open Binary64

/-! ### Digits -/

variable {ds : List ℕ}

/-- Digits are appended to a number by the power of ten that their number says. -/
theorem foldl_digits (ds : List ℕ) (n : ℕ) :
    ds.foldl (fun n d => n * 10 + d) n = n * 10 ^ ds.length + ofDigits ds := by
  rw [ofDigits]
  induction ds generalizing n with
  | nil => simp
  | cons d ds ih =>
    rw [List.foldl_cons, List.foldl_cons, ih (n * 10 + d), ih (0 * 10 + d), List.length_cons,
      pow_succ]
    ring

theorem ofDigits_cons (d : ℕ) (ds : List ℕ) :
    ofDigits (d :: ds) = d * 10 ^ ds.length + ofDigits ds := by
  rw [ofDigits, List.foldl_cons, zero_mul, zero_add, foldl_digits]

theorem ofDigits_append (ds es : List ℕ) :
    ofDigits (ds ++ es) = ofDigits ds * 10 ^ es.length + ofDigits es := by
  rw [ofDigits, List.foldl_append, foldl_digits, ← ofDigits]

theorem ofDigits_lt (hds : ∀ d ∈ ds, d ≤ 9) : ofDigits ds < 10 ^ ds.length := by
  induction ds with
  | nil => exact Nat.one_pos
  | cons d ds ih =>
    rw [List.forall_mem_cons] at hds
    have hd : d * 10 ^ ds.length ≤ 9 * 10 ^ ds.length := Nat.mul_le_mul_right _ hds.1
    have := ih hds.2
    rw [ofDigits_cons, List.length_cons, pow_succ]
    omega

/-- Leading zeros do not count. -/
theorem ofDigits_dropWhile (ds : List ℕ) : ofDigits (ds.dropWhile (· == 0)) = ofDigits ds := by
  induction ds with
  | nil => rfl
  | cons d ds ih =>
    by_cases hd : d = 0
    · rw [hd, List.dropWhile_cons_of_pos rfl, ih, ofDigits_cons, zero_mul, zero_add]
    · rw [List.dropWhile_cons_of_neg (by simpa using hd)]

theorem ofDigits_bounds (hds : ∀ d ∈ ds, d ≤ 9) (hne : ofDigits ds ≠ 0) :
    10 ^ ((ds.dropWhile (· == 0)).length - 1) ≤ ofDigits ds ∧
      ofDigits ds < 10 ^ (ds.dropWhile (· == 0)).length ∧
      0 < (ds.dropWhile (· == 0)).length := by
  have hdigits : ∀ d ∈ ds.dropWhile (· == 0), d ≤ 9 := fun d hd =>
    hds d (List.dropWhile_subset _ hd)
  have hhead := List.head?_dropWhile_not (· == 0) ds
  rw [← ofDigits_dropWhile] at hne ⊢
  generalize ds.dropWhile (· == 0) = es at *
  cases es with
  | nil => exact absurd rfl hne
  | cons e es =>
    -- The first digit is not zero.
    have he : e ≠ 0 := by simpa using hhead
    have hlt := ofDigits_lt hdigits
    rw [ofDigits_cons] at hlt ⊢
    refine ⟨?_, hlt, Nat.succ_pos _⟩
    exact Nat.le_add_right_of_le (Nat.le_mul_of_pos_left _ (Nat.pos_of_ne_zero he))

/-! ### The order of a number -/

variable {x : Decimal}

/-- The number, without its sign. -/
def absolute (x : Decimal) : ℚ := x.significand * 10 ^ x.exponent

theorem absolute_nonneg (x : Decimal) : 0 ≤ x.absolute := by
  rw [absolute]
  positivity

theorem absolute_bounds (hx : ∀ d ∈ x.digits, d ≤ 9) (hne : x.significand ≠ 0) :
    (10 : ℚ) ^ (x.order - 1) ≤ x.absolute ∧ x.absolute < 10 ^ x.order := by
  obtain ⟨hlow, hup, hpos⟩ := ofDigits_bounds hx hne
  have hp : (0 : ℚ) < 10 ^ x.exponent := by positivity
  rw [absolute, significand, order]
  generalize (x.digits.dropWhile (· == 0)).length = n at *
  constructor
  · rw [show (n : ℤ) + x.exponent - 1 = ((n - 1 : ℕ) : ℤ) + x.exponent by omega,
      zpow_add₀ (by norm_num), zpow_natCast]
    exact mul_le_mul_of_nonneg_right (by exact_mod_cast hlow) hp.le
  · rw [zpow_add₀ (by norm_num), zpow_natCast]
    exact mul_lt_mul_of_pos_right (by exact_mod_cast hup) hp

/-- A number of `10 ^ 309` or more is too large for a double. -/
theorem overflow_le_ten_pow : overflow ≤ 10 ^ (309 : ℤ) := by
  have hpow : (2 : ℕ) ^ 1024 ≤ 10 ^ 309 := by decide +kernel
  calc overflow ≤ 2 ^ 1024 := sub_le_self _ (by positivity)
    _ ≤ 10 ^ 309 := by exact_mod_cast hpow
    _ = 10 ^ (309 : ℤ) := (zpow_natCast 10 309).symm

/-- A number below `10 ^ (-324)` is less than half of the smallest positive double. -/
theorem ten_pow_le : (10 : ℚ) ^ (-324 : ℤ) ≤ 2 ^ (-1075 : ℤ) := by
  have hpow : (2 : ℕ) ^ 1075 ≤ 10 ^ 324 := by decide +kernel
  have hcast : (2 : ℚ) ^ 1075 ≤ 10 ^ 324 := by exact_mod_cast hpow
  rw [zpow_neg, zpow_neg]
  exact inv_anti₀ (by positivity) hcast

/-! ### Rounding -/

theorem scaled_absolute (x : Decimal) :
    ((x.significand * Nat.pow 10 x.exponent.toNat : ℕ) : ℚ) / (Nat.pow 10 (-x.exponent).toNat : ℕ) =
      x.absolute := by
  simp only [Nat.pow_eq]
  push_cast
  rw [absolute, mul_div_assoc, pow_toNat_div (by norm_num)]

/-- A number of too high an order is too large, and the others are rounded to the nearest
    magnitude. -/
theorem roundMagnitude_cases (hx : ∀ d ∈ x.digits, d ≤ 9) :
    NearestIn Set.univ x.absolute x.roundMagnitude ∨
      (overflow ≤ x.absolute ∧ x.roundMagnitude = infinity) := by
  rw [roundMagnitude]
  split
  · next h =>
    refine .inl (nearestIn_zero x.absolute_nonneg ?_)
    by_cases hne : x.significand = 0
    · rw [absolute, hne, Nat.cast_zero, zero_mul]
      positivity
    · calc x.absolute ≤ 10 ^ x.order := (absolute_bounds hx hne).2.le
        _ ≤ 10 ^ (-324 : ℤ) := zpow_le_zpow_right₀ (by norm_num) (by omega)
        _ ≤ 2 ^ (-1075 : ℤ) := ten_pow_le
  · next h =>
    rw [not_or] at h
    split
    · refine .inr ⟨?_, rfl⟩
      calc overflow ≤ 10 ^ (309 : ℤ) := overflow_le_ten_pow
        _ ≤ 10 ^ (x.order - 1) := zpow_le_zpow_right₀ (by norm_num) (by omega)
        _ ≤ x.absolute := (absolute_bounds hx h.1).1
    · rw [← scaled_absolute]
      exact .inl (Binary64.nearestIn_roundMagnitude _ (Nat.pow_pos (by norm_num)))

theorem roundMagnitude_lt_infinity_iff (hx : ∀ d ∈ x.digits, d ≤ 9) :
    x.roundMagnitude < infinity ↔ x.absolute < overflow := by
  rcases roundMagnitude_cases hx with h | ⟨hle, heq⟩
  · exact h.lt_infinity_iff
  · rw [heq]
    exact iff_of_false (lt_irrefl _) hle.not_gt

/-- The decimal number is `q`, and its digits are decimal ones. Zero may have either sign. -/
structure Represents (x : Decimal) (q : ℚ) : Prop where
  digits : ∀ d ∈ x.digits, d ≤ 9
  eq : q = if x.negative then -x.absolute else x.absolute

namespace Represents

variable {q : ℚ}

theorem abs_eq (h : x.Represents q) : |q| = x.absolute := by
  rw [h.eq]
  split
  · rw [abs_neg, abs_of_nonneg x.absolute_nonneg]
  · exact abs_of_nonneg x.absolute_nonneg

theorem side (h : x.Represents q) : if x.negative then q ≤ 0 else 0 ≤ q := by
  have hnonneg := x.absolute_nonneg
  rw [h.eq]
  split
  · exact neg_nonpos.2 hnonneg
  · exact hnonneg

/-- A number that is too large is not rounded. -/
theorem round_eq_none_iff (h : x.Represents q) : x.round = none ↔ overflow ≤ |q| := by
  rw [h.abs_eq, ← not_lt, ← roundMagnitude_lt_infinity_iff h.digits, round, ofMagnitude?]
  split
  · next hlt => exact iff_of_false (Option.some_ne_none _) (not_not_intro hlt)
  · next hlt => exact iff_of_true rfl hlt

/-- Rounding gives the double of the nearest magnitude, if the number is not too large. -/
theorem round_eq_some_iff_nearestIn (h : x.Represents q) {y : Binary64} :
    x.round = some y ↔
      |q| < overflow ∧ y.negative = x.negative ∧ NearestIn (Set.Iio infinity) |q| y.magnitude := by
  have hfinite := roundMagnitude_lt_infinity_iff h.digits
  have hnearest : x.roundMagnitude < infinity →
      NearestIn (Set.Iio infinity) x.absolute x.roundMagnitude := fun hlt =>
    (roundMagnitude_cases h.digits).elim (fun hall => hall.mono (Set.subset_univ _) hlt)
      fun hbig => absurd hlt hbig.2.not_lt
  rw [h.abs_eq, round, ofMagnitude?]
  constructor
  · intro hy
    split at hy
    · next hlt =>
      obtain rfl := Option.some.inj hy
      exact ⟨hfinite.1 hlt, rfl, hnearest hlt⟩
    · exact nomatch hy
  · rintro ⟨hlt, hsign, hy⟩
    have hlt := hfinite.2 hlt
    have hsame := hy.unique (isLowerSet_Iio infinity) (hnearest hlt)
    obtain ⟨negative, magnitude, finite⟩ := y
    rw [dif_pos hlt, Option.some.injEq, Binary64.mk.injEq]
    exact ⟨hsign.symm, hsame.symm⟩

/-- Rounding gives the nearest double, with the sign of the number, if the number is not too
    large. -/
theorem round_eq_some_iff (h : x.Represents q) {y : Binary64} :
    x.round = some y ↔ |q| < overflow ∧ y.negative = x.negative ∧ y.word.IsNearest q := by
  rw [h.round_eq_some_iff_nearestIn]
  refine and_congr_right fun _ => and_congr_right fun hsign => ?_
  exact (y.isNearest_word_iff (by rw [hsign]; exact h.side)).symm

end Represents

end Decimal

end TextParsing
