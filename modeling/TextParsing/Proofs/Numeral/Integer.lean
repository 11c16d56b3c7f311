import TextParsing.Numeral.Integer

/-!
# Reading integers is exact

The two tests before a digit is appended are made with integers of the kind alone,
and they decide exactly whether there is room for the digit. So reading never
leaves the range of the kind, that is, it never comes to a fault; and it gives the
number of the digits if that number is in range, and nothing otherwise.

* `climb_eq` and `descend_eq`: what is read, in exact arithmetic. A number that is
  once too large stays so when more digits are appended (`le_append`), so it does no
  harm to give up early;
* `readUp_eq` and `readDown_eq`: the same for whole texts, and there is never a fault.
-/

namespace TextParsing

namespace IntKind

theorem le_max (k : IntKind) : 127 ≤ k.max := by
  rcases k with w | w <;> cases w <;> decide

theorem min_le (k : IntKind) : k.min ≤ 0 := by
  rcases k with w | w <;> cases w <;> decide

theorem min_signed_le (w : Width) : (signed w).min ≤ -128 := by
  cases w <;> decide

theorem fit_eq {k : IntKind} {v : Int} (h : k.min ≤ v) (h' : v ≤ k.max) : k.fit v = .ok v :=
  if_pos ⟨h, h'⟩

theorem ofDigit_ten (k : IntKind) : k.ofDigit 10 = 10 := rfl

theorem max_tdiv_ten (k : IntKind) : k.max.tdiv 10 = k.max / 10 :=
  Int.tdiv_eq_ediv_of_nonneg (Int.le_trans (by decide) k.le_max)

theorem min_tdiv_ten (k : IntKind) : k.min.tdiv 10 = -(-k.min / 10) := by
  have := k.min_le
  rw [← Int.tdiv_eq_ediv_of_nonneg (by omega), Int.neg_tdiv, Int.neg_neg]

end IntKind

namespace Numeral

/-- The number `n` with the digits `ds` appended. -/
def append (n : Int) (ds : List Nat) : Int := ds.foldl (fun (n : Int) (d : Nat) => n * 10 + d) n

@[simp] theorem append_nil (n : Int) : append n [] = n := rfl

@[simp] theorem append_cons (n : Int) (d : Nat) (ds : List Nat) :
    append n (d :: ds) = append (n * 10 + d) ds := rfl

theorem le_append {n : Int} (hn : 0 ≤ n) (ds : List Nat) : n ≤ append n ds := by
  induction ds generalizing n with
  | nil => exact Int.le_refl n
  | cons d ds ih =>
    rw [append_cons]
    exact Int.le_trans (by omega) (ih (by omega))

theorem digit?_le {b : UInt8} {d : Nat} (h : digit? b = some d) : d ≤ 9 := by
  rw [digit?] at h
  split at h
  · next hb =>
    obtain rfl := Option.some.inj h
    simp only [isDigitByte, Bool.and_eq_true, decide_eq_true_eq, UInt8.le_iff_toNat_le,
      UInt8.reduceToNat] at hb
    omega
  · cases h

/-- The number `n` with the digits `bs` appended, if it is at most `limit`. -/
def appendUpTo (limit n : Int) (bs : List UInt8) : Option Int :=
  ((bs.mapM digit?).map (append n)).filter (· ≤ limit)

theorem appendUpTo_nil {limit n : Int} (hn : n ≤ limit) : appendUpTo limit n [] = some n := by
  simp [appendUpTo, hn]

theorem appendUpTo_cons_of_none {b : UInt8} (hb : digit? b = none) (limit n : Int)
    (bs : List UInt8) : appendUpTo limit n (b :: bs) = none := by
  simp [appendUpTo, hb]

theorem appendUpTo_cons_of_some {b : UInt8} {d : Nat} (hb : digit? b = some d) (limit n : Int)
    (bs : List UInt8) : appendUpTo limit n (b :: bs) = appendUpTo limit (n * 10 + d) bs := by
  cases h : bs.mapM digit? <;> simp [appendUpTo, hb, h]

/-- A number that is too large stays so when digits are appended. -/
theorem appendUpTo_eq_none {limit n : Int} (hn : 0 ≤ n) (h : limit < n) (bs : List UInt8) :
    appendUpTo limit n bs = none := by
  rw [appendUpTo, Option.filter_eq_none_iff]
  intro v hv
  obtain ⟨ds, -, rfl⟩ := Option.map_eq_some_iff.1 hv
  have := le_append hn ds
  simp only [decide_eq_true_eq]
  omega

/-! ### Going up and going down -/

theorem climb_eq (k : IntKind) {value : Int} (h : 0 ≤ value) (h' : value ≤ k.max)
    (bs : List UInt8) :
    climb k (k.max.tdiv 10) value bs = .ok (appendUpTo k.max value bs) := by
  have hmax := k.le_max
  have hmin := k.min_le
  rw [k.max_tdiv_ten]
  induction bs generalizing value with
  | nil => rw [climb, appendUpTo_nil h']
  | cons b bs ih =>
    rw [climb]
    cases hb : digit? b with
    | none => rw [appendUpTo_cons_of_none hb]
    | some d =>
      have hd := digit?_le hb
      rw [appendUpTo_cons_of_some hb]
      simp only [IntKind.ofDigit]
      split
      · -- There is no room for the multiplication.
        rw [appendUpTo_eq_none (by omega) (by omega)]
      · -- Ten times the number and the test itself are in range.
        rw [IntKind.fit_eq (by omega) (by omega), Checked.ok_bind,
          IntKind.fit_eq (by omega) (by omega), Checked.ok_bind]
        split
        · -- There is no room for the digit.
          rw [appendUpTo_eq_none (by omega) (by omega)]
        · rw [IntKind.fit_eq (by omega) (by omega), Checked.ok_bind]
          exact ih (by omega) (by omega)

/-- Going down is going up with the signs turned round. -/
theorem descend_eq (w : Width) {value : Int} (h : value ≤ 0) (h' : (IntKind.signed w).min ≤ value)
    (bs : List UInt8) :
    descend (.signed w) ((IntKind.signed w).min.tdiv 10) value bs =
      .ok ((appendUpTo (-(IntKind.signed w).min) (-value) bs).map (- ·)) := by
  have hmin := IntKind.min_signed_le w
  have hmax := (IntKind.signed w).le_max
  generalize IntKind.signed w = k at *
  rw [k.min_tdiv_ten]
  induction bs generalizing value with
  | nil => rw [descend, appendUpTo_nil (by omega), Option.map_some, Int.neg_neg]
  | cons b bs ih =>
    rw [descend]
    cases hb : digit? b with
    | none => rw [appendUpTo_cons_of_none hb, Option.map_none]
    | some d =>
      have hd := digit?_le hb
      rw [appendUpTo_cons_of_some hb]
      simp only [IntKind.ofDigit]
      split
      · rw [appendUpTo_eq_none (by omega) (by omega), Option.map_none]
      · rw [IntKind.fit_eq (by omega) (by omega), Checked.ok_bind,
          IntKind.fit_eq (by omega) (by omega), Checked.ok_bind]
        split
        · rw [appendUpTo_eq_none (by omega) (by omega), Option.map_none]
        · rw [IntKind.fit_eq (by omega) (by omega), Checked.ok_bind, ih (by omega) (by omega)]
          congr 3
          omega

theorem readUp_eq (k : IntKind) (t : Text) :
    readUp k t = .ok (if t.isEmpty then none else appendUpTo k.max 0 t.bytes) := by
  have hmax := k.le_max
  have hmin := k.min_le
  have hbound := k.max_tdiv_ten
  rw [readUp]
  split
  · rfl
  · rw [k.ofDigit_ten, IntKind.fit_eq (by omega) (by omega), Checked.ok_bind]
    exact climb_eq k (Int.le_refl 0) (by omega) t.bytes

theorem readDown_eq (w : Width) (t : Text) :
    readDown (.signed w) t = .ok (if t.isEmpty then none
      else (appendUpTo (-(IntKind.signed w).min) 0 t.bytes).map (- ·)) := by
  have hmin := IntKind.min_signed_le w
  have hmax := (IntKind.signed w).le_max
  have hbound := (IntKind.signed w).min_tdiv_ten
  rw [readDown]
  split
  · rfl
  · rw [IntKind.ofDigit_ten, IntKind.fit_eq (by omega) (by omega), Checked.ok_bind]
    exact descend_eq w (Int.le_refl 0) (by omega) t.bytes

end Numeral

/-! ### Whole texts -/

theorem toUnsigned_eq (w : Width) (t : Text) :
    toUnsigned w t =
      .ok (if t.isEmpty then none else Numeral.appendUpTo (IntKind.unsigned w).max 0 t.bytes) :=
  Numeral.readUp_eq (.unsigned w) t

end TextParsing
