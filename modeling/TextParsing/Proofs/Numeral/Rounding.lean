import TextParsing.Proofs.Numeral.Binary64

/-!
# Rounding

A quotient of integers is rounded in three steps. Its order tells the last place that a double
of this size has (`floorLog2_spec`, `units_bounds`). In units of this place it is rounded to an
integer, to the nearest one, and of two nearest ones to the even one (`roundQuotient_cases`).
The units are then added to the magnitude from which this place is the last one; where rounding
carries into the next power of two, the sum is a magnitude with the next exponent, and that is
the right one (`number_eq`).

* `nearestIn_roundMagnitude`: this gives the nearest magnitude, if the exponents are taken to go
  on beyond the finite doubles;
* `NearestIn.lt_infinity_iff`: which numbers are too large for a finite double.
-/

namespace TextParsing

namespace Binary64

/-! ### Powers with integer exponents -/

/-- A power with an integer exponent, by powers with natural ones. -/
theorem pow_toNat_div {a : ℚ} (ha : a ≠ 0) (e : ℤ) : a ^ e.toNat / a ^ (-e).toNat = a ^ e := by
  rw [← zpow_natCast, ← zpow_natCast, ← zpow_sub₀ ha, Int.toNat_sub_toNat_neg]

variable {num den : ℕ}

/-- The quotient of a number by a power of two, as a quotient of integers. -/
theorem scaled_div (num den : ℕ) (e : ℤ) :
    ((num * Nat.pow 2 (-e).toNat : ℕ) : ℚ) / (den * Nat.pow 2 e.toNat : ℕ) =
      num / den / 2 ^ e := by
  have hpow := pow_toNat_div (two_ne_zero (α := ℚ)) (-e)
  rw [neg_neg, zpow_neg] at hpow
  simp only [Nat.pow_eq]
  push_cast
  rw [mul_div_mul_comm, hpow, div_eq_mul_inv (_ / _)]

/-! ### The last place -/

theorem zpow_le_div_iff (hden : 0 < den) (e : ℤ) :
    (2 : ℚ) ^ e ≤ num / den ↔ den * Nat.pow 2 e.toNat ≤ num * Nat.pow 2 (-e).toNat := by
  have hd : (0 : ℚ) < den := by exact_mod_cast hden
  rw [← pow_toNat_div two_ne_zero, div_le_div_iff₀ (by positivity) hd, mul_comm]
  simp only [Nat.pow_eq]
  exact_mod_cast Iff.rfl

theorem floorLog2_spec (hnum : 0 < num) (hden : 0 < den) :
    (2 : ℚ) ^ floorLog2 num den ≤ num / den ∧ (num / den : ℚ) < 2 ^ (floorLog2 num den + 1) := by
  have hd : (0 : ℚ) < den := by exact_mod_cast hden
  have hnlow : (2 : ℚ) ^ (num.log2 : ℤ) ≤ num := by
    rw [zpow_natCast]
    exact_mod_cast Nat.log2_self_le hnum.ne'
  have hnup : (num : ℚ) < 2 ^ ((num.log2 : ℤ) + 1) := by
    exact_mod_cast Nat.lt_log2_self
  have hdlow : (2 : ℚ) ^ (den.log2 : ℤ) ≤ den := by
    rw [zpow_natCast]
    exact_mod_cast Nat.log2_self_le hden.ne'
  have hdup : (den : ℚ) < 2 ^ ((den.log2 : ℤ) + 1) := by
    exact_mod_cast Nat.lt_log2_self
  -- The guess is right, or too large by one.
  have hlow : (2 : ℚ) ^ ((num.log2 : ℤ) - den.log2 - 1) ≤ num / den := by
    rw [le_div_iff₀ hd]
    calc (2 : ℚ) ^ ((num.log2 : ℤ) - den.log2 - 1) * den
        ≤ 2 ^ ((num.log2 : ℤ) - den.log2 - 1) * 2 ^ ((den.log2 : ℤ) + 1) := by gcongr
      _ = 2 ^ (num.log2 : ℤ) := by rw [← zpow_add₀ two_ne_zero]; congr 1; ring
      _ ≤ num := hnlow
  have hup : (num / den : ℚ) < 2 ^ ((num.log2 : ℤ) - den.log2 + 1) := by
    rw [div_lt_iff₀ hd]
    calc (num : ℚ) < 2 ^ ((num.log2 : ℤ) + 1) := hnup
      _ = 2 ^ ((num.log2 : ℤ) - den.log2 + 1) * 2 ^ (den.log2 : ℤ) := by
        rw [← zpow_add₀ two_ne_zero]; congr 1; ring
      _ ≤ 2 ^ ((num.log2 : ℤ) - den.log2 + 1) * den := by gcongr
  rw [floorLog2]
  split
  · next h => exact ⟨(zpow_le_div_iff hden _).2 h, hup⟩
  · next h =>
    rw [← zpow_le_div_iff hden, not_le] at h
    exact ⟨hlow, by rwa [sub_add_cancel]⟩

/-- In units of the last place, a number has at most 53 bits, and no fewer if the last place is
    not the smallest one. -/
theorem units_bounds (hnum : 0 < num) (hden : 0 < den) :
    (num / den / 2 ^ lastPlace num den : ℚ) < 2 ^ 53 ∧
      (lastPlace num den = -1074 ∨ (2 : ℚ) ^ 52 ≤ num / den / 2 ^ lastPlace num den) := by
  obtain ⟨hlow, hup⟩ := floorLog2_spec hnum hden
  have hpos : (0 : ℚ) < 2 ^ lastPlace num den := by positivity
  have hle : floorLog2 num den + 1 ≤ 53 + lastPlace num den := by rw [lastPlace]; omega
  constructor
  · rw [div_lt_iff₀ hpos]
    calc (num / den : ℚ) < 2 ^ (floorLog2 num den + 1) := hup
      _ ≤ 2 ^ (53 + lastPlace num den) := zpow_le_zpow_right₀ one_le_two hle
      _ = 2 ^ 53 * 2 ^ lastPlace num den := zpow_add₀ two_ne_zero 53 _
  · rcases max_choice (floorLog2 num den - 52) (-1074) with h | h
    · refine .inr ((le_div_iff₀ hpos).2 ?_)
      calc (2 : ℚ) ^ 52 * 2 ^ lastPlace num den = 2 ^ (52 + lastPlace num den) :=
            (zpow_add₀ two_ne_zero 52 _).symm
        _ = 2 ^ floorLog2 num den := by rw [lastPlace, h]; congr 1; ring
        _ ≤ num / den := hlow
    · exact .inl h

/-! ### The rounded quotient -/

/-- What a quotient exceeds the integer below it by. -/
theorem div_sub_div (num : ℕ) (hden : 0 < den) :
    (num / den : ℚ) - (num / den : ℕ) = (num % den : ℕ) / den := by
  have hd : (den : ℚ) ≠ 0 := by exact_mod_cast hden.ne'
  have hsplit : (num : ℚ) = den * (num / den : ℕ) + (num % den : ℕ) := by
    exact_mod_cast (Nat.div_add_mod num den).symm
  rw [eq_div_iff hd, sub_mul, div_mul_cancel₀ _ hd]
  linarith

/-- The rounded quotient is the integer `k` below the quotient or the one above it: the nearer
    one, and the even one if both are as near. -/
theorem roundQuotient_cases {k : ℕ} (hden : 0 < den) (hk : k = num / den) :
    (roundQuotient num den = k ∧ (num / den - k : ℚ) ≤ 1 / 2 ∧
        ((num / den - k : ℚ) = 1 / 2 → k % 2 = 0)) ∨
      (roundQuotient num den = k + 1 ∧ 1 / 2 ≤ (num / den - k : ℚ) ∧
        ((num / den - k : ℚ) = 1 / 2 → (k + 1) % 2 = 0)) := by
  have hd : (0 : ℚ) < den := by exact_mod_cast hden
  have hfrac := div_sub_div num hden
  rw [← hk] at hfrac
  rw [hfrac, roundQuotient, ← hk]
  generalize num % den = r
  have hlow : 2 * r < den → (r / den : ℚ) < 1 / 2 := fun h => by
    have : (2 * r : ℚ) < den := by exact_mod_cast h
    rw [div_lt_iff₀ hd]
    linarith
  have hhigh : den < 2 * r → 1 / 2 < (r / den : ℚ) := fun h => by
    have : (den : ℚ) < 2 * r := by exact_mod_cast h
    rw [lt_div_iff₀ hd]
    linarith
  have hmid : 2 * r = den → (r / den : ℚ) = 1 / 2 := fun h => by
    have : (2 * r : ℚ) = den := by exact_mod_cast h
    rw [div_eq_iff hd.ne']
    linarith
  split
  · next h => exact .inl ⟨rfl, (hlow h).le, fun heq => absurd heq (hlow h).ne⟩
  · next hge =>
    split
    · next h => exact .inr ⟨rfl, (hhigh h).le, fun heq => absurd heq (hhigh h).ne'⟩
    · next hle =>
      have heq := hmid (by omega)
      split
      · next heven => exact .inl ⟨rfl, heq.le, fun _ => heven⟩
      · next hodd => exact .inr ⟨rfl, heq.ge, fun _ => by omega⟩

/-! ### The rounded magnitude -/

theorem number_one : number 1 = 2 ^ (-1074 : ℤ) := by
  have := number_eq (s := 0) (k := 1) (.inl rfl) (by norm_num)
  simpa using this

/-- Numbers up to half of the smallest positive one are nearest to zero. -/
theorem nearestIn_zero {q : ℚ} (hq : 0 ≤ q) (hle : q ≤ 2 ^ (-1075 : ℤ)) :
    NearestIn Set.univ q 0 := by
  have hhalf : number (0 + 1) = 2 ^ (-1075 : ℤ) * 2 := by
    rw [number_one, ← zpow_add_one₀ two_ne_zero]
    norm_num
  refine .lower (by rwa [number_zero]) ?_ fun _ => rfl
  rw [number_zero, hhalf]
  linarith

/-- The nearest magnitude to a number of units of a last place: the number of units is rounded to
    an integer. -/
theorem nearestIn_units {s : ℕ} (hden : 0 < den) (hup : (num / den : ℚ) < 2 ^ 53)
    (hlow : s = 0 ∨ 2 ^ 52 ≤ (num / den : ℚ)) :
    NearestIn Set.univ (num / den * 2 ^ ((s : ℤ) - 1074))
      (s * 2 ^ 52 + roundQuotient num den) := by
  have hd : (0 : ℚ) < den := by exact_mod_cast hden
  have hp : (0 : ℚ) < 2 ^ ((s : ℤ) - 1074) := by positivity
  obtain ⟨k, hk⟩ : ∃ k, k = num / den := ⟨_, rfl⟩
  have hfrac : 0 ≤ (num / den - k : ℚ) ∧ (num / den - k : ℚ) ≤ 1 := by
    rw [hk, div_sub_div num hden, div_le_one hd]
    exact ⟨by positivity, by exact_mod_cast (Nat.mod_lt num hden).le⟩
  have hcases := roundQuotient_cases hden hk
  have hkup : k < 2 ^ 53 := by
    have : (k : ℚ) < 2 ^ 53 := by linarith
    exact_mod_cast this
  have hklow : s = 0 ∨ 2 ^ 52 ≤ k := hlow.imp_right fun h => by
    rw [le_div_iff₀ hd] at h
    rw [hk, Nat.le_div_iff_mul_le hden]
    exact_mod_cast h
  have hbelow : number (s * 2 ^ 52 + k) = k * 2 ^ ((s : ℤ) - 1074) := number_eq hklow hkup.le
  have habove : number (s * 2 ^ 52 + k + 1) = (k + 1) * 2 ^ ((s : ℤ) - 1074) := by
    rw [add_assoc, number_eq (by omega) (by omega), Nat.cast_add, Nat.cast_one]
  generalize (2 : ℚ) ^ ((s : ℤ) - 1074) = p at *
  generalize (num / den : ℚ) = x at *
  -- The two distances, in units.
  have hdown : x * p - number (s * 2 ^ 52 + k) = (x - k) * p := by rw [hbelow]; ring
  have hrise : number (s * 2 ^ 52 + k + 1) - x * p = (1 - (x - k)) * p := by rw [habove]; ring
  have htie : (x - k) * p = (1 - (x - k)) * p → x - k = 1 / 2 := fun h => by
    linarith [mul_right_cancel₀ hp.ne' h]
  rcases hcases with ⟨hround, hle, heven⟩ | ⟨hround, hle, heven⟩
  · rw [hround]
    refine .lower ?_ ?_ ?_
    · rw [hbelow]
      exact mul_le_mul_of_nonneg_right (by linarith) hp.le
    · rw [hdown, hrise]
      exact mul_le_mul_of_nonneg_right (by linarith) hp.le
    · rw [hdown, hrise]
      intro h
      have := heven (htie h)
      omega
  · rw [hround, ← add_assoc]
    refine .upper ?_ ?_ ?_
    · rw [habove]
      exact mul_le_mul_of_nonneg_right (by linarith) hp.le
    · rw [hdown, hrise]
      exact mul_le_mul_of_nonneg_right (by linarith) hp.le
    · rw [hdown, hrise]
      intro h
      have := heven (htie h)
      omega

/-- Rounding gives the nearest magnitude, in the scale that goes on beyond the finite
    doubles. -/
theorem nearestIn_roundMagnitude (num : ℕ) (hden : 0 < den) :
    NearestIn Set.univ (num / den) (roundMagnitude num den) := by
  rcases Nat.eq_zero_or_pos num with rfl | hnum
  · rw [Nat.cast_zero, zero_div]
    exact nearestIn_zero le_rfl (by positivity)
  · obtain ⟨hup, hlow⟩ := units_bounds hnum hden
    have hplace : -1074 ≤ lastPlace num den := le_max_right _ _
    rw [roundMagnitude, if_neg hnum.ne']
    dsimp only
    generalize lastPlace num den = e at *
    obtain ⟨s, rfl⟩ : ∃ s : ℕ, e = (s : ℤ) - 1074 := ⟨(e + 1074).toNat, by omega⟩
    have hpos : (2 : ℚ) ^ ((s : ℤ) - 1074) ≠ 0 := by positivity
    have hscaled : 0 < den * Nat.pow 2 ((s : ℤ) - 1074).toNat :=
      Nat.mul_pos hden (Nat.pow_pos two_pos)
    rw [← scaled_div] at hup hlow
    have hunits := nearestIn_units hscaled hup (hlow.imp_left fun h => (by omega : s = 0))
    rw [scaled_div, div_mul_cancel₀ _ hpos] at hunits
    rw [show ((s : ℤ) - 1074 + 1074).toNat = s by omega, Nat.pow_eq]
    exact hunits

/-! ### Numbers that are too large -/

theorem number_infinity : number infinity = 2 ^ 1024 := by
  have h := number_eq (s := 2046) (k := 2 ^ 52) (.inr le_rfl) (by norm_num)
  rw [show ((2046 : ℕ) : ℤ) - 1074 = ((972 : ℕ) : ℤ) by norm_num, zpow_natCast, Nat.cast_pow,
    Nat.cast_ofNat, ← pow_add] at h
  exact h

/-- The greatest finite double. -/
theorem number_infinity_sub_one : number (infinity - 1) = 2 ^ 1024 - 2 ^ 971 := by
  have h := number_eq (s := 2045) (k := 2 ^ 53 - 1) (.inr (by norm_num)) (by norm_num)
  rw [show ((2045 : ℕ) : ℤ) - 1074 = ((971 : ℕ) : ℤ) by norm_num, zpow_natCast,
    Nat.cast_sub (by norm_num), Nat.cast_pow, Nat.cast_ofNat, Nat.cast_one, sub_mul, one_mul,
    ← pow_add] at h
  exact h

/-- A number is rounded to a finite double exactly if it is less than halfway from the greatest
    one to the next power of two. The greatest one is odd, so that halfway is too far. -/
theorem NearestIn.lt_infinity_iff {q : ℚ} {m : ℕ} (h : NearestIn Set.univ q m) :
    m < infinity ↔ q < overflow := by
  have htop := number_infinity
  have hlast := number_infinity_sub_one
  have hp : (0 : ℚ) < 2 ^ 970 := by positivity
  rw [pow_succ (2 : ℚ) 970] at hlast
  rw [overflow]
  generalize (2 : ℚ) ^ 970 = p at *
  generalize (2 : ℚ) ^ 1024 = top at *
  constructor
  · intro hm
    by_contra hq
    have hnum : number m ≤ number (infinity - 1) := number_strictMono.monotone (by omega)
    have hle := h.le infinity trivial
    have hdist : |number m - q| = q - number m := by
      rw [abs_sub_comm, abs_of_nonneg (by linarith)]
    rw [hdist, htop] at hle
    have hup : q ≤ top := by
      by_contra hlt
      rw [abs_of_neg (by linarith)] at hle
      linarith
    rw [abs_of_nonneg (by linarith)] at hle
    have hsame : m = infinity - 1 := number_strictMono.injective (by linarith)
    have heven := h.even infinity trivial hm.ne' (by
      rw [hdist, htop, abs_of_nonneg (by linarith)]
      linarith)
    rw [hsame] at heven
    exact absurd heven (by decide)
  · intro hq
    by_contra hm
    have hnum : number infinity ≤ number m := number_strictMono.monotone (not_lt.1 hm)
    have hle := h.le (infinity - 1) trivial
    rw [abs_of_nonneg (by linarith : 0 ≤ number m - q)] at hle
    have : |number (infinity - 1) - q| < number m - q := abs_lt.2 ⟨by linarith, by linarith⟩
    linarith

end Binary64

end TextParsing
