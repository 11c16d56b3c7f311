import Mathlib.Computability.Language
import TextParsing.Proofs.Numeral.Literal

/-!
# Literals as words

The float literals are the words of a regular language over bytes (`Literal.words`): a
sign or none, digits, a fraction or none, and an exponent or none.

`Literal.longest?` goes through bytes once, from part to part. It takes as many digits as
there are, and gives up a fraction or an exponent as a whole if digits are missing. What
it cuts off is the longest word that the bytes start with, and if it finds nothing then
there is no word (`longest_words`). This is shown part by part, from the last one to the
first one. The language of what follows a part may be any language `M`, as long as its
words do not start with a byte that the part could have gone on with (`Avoids`): a
shorter choice for the part leaves such a byte in front of the words of `M`, and so
nothing but the empty word.
-/

namespace TextParsing

namespace Literal

open Computability
open Numeral (isDigitByte)

variable {test : UInt8 → Bool} {L M : Language UInt8} {bs w x : List UInt8} {b : UInt8}
  {o : Option (List UInt8)}

/-! ### The grammar -/

/-- The words of one unit, which is one of these. -/
def oneOf (us : Text) : Language UInt8 := {w | ∃ u ∈ us, w = Text.bytes [u]}

/-- A sign. -/
def sign : Language UInt8 := oneOf ['+', '-']

/-- A decimal digit. -/
def digit : Language UInt8 := oneOf ['0', '1', '2', '3', '4', '5', '6', '7', '8', '9']

/-- One or more digits. -/
def digits : Language UInt8 := digit * digit∗

/-- A point and digits. -/
def fraction : Language UInt8 := oneOf ['.'] * digits

/-- An exponent mark, a sign or none, and digits. -/
def exponent : Language UInt8 := oneOf ['e', 'E'] * (1 + sign) * digits

/-- The float literals: `[+-]? digit+ ('.' digit+)? ([eE] [+-]? digit+)?`. -/
def words : Language UInt8 := (1 + sign) * digits * (1 + fraction) * (1 + exponent)

/-! ### Classes of bytes -/

/-- The words of one byte of the class. -/
def byte (test : UInt8 → Bool) : Language UInt8 := {w | ∃ b, test b = true ∧ w = [b]}

/-- Units that are one byte each, as bytes. -/
theorem oneOf_eq_byte (us : Text) (bs : List UInt8)
    (hbytes : us.map (fun u => Text.bytes [u]) = bs.map ([·]))
    (htest : ∀ b, test b = true ↔ b ∈ bs) : oneOf us = byte test := by
  ext w
  calc w ∈ oneOf us ↔ w ∈ us.map fun u => Text.bytes [u] := by
        rw [List.mem_map]
        exact exists_congr fun u => and_congr_right fun _ => eq_comm
    _ ↔ w ∈ byte test := by
        rw [hbytes, List.mem_map]
        exact exists_congr fun b => and_congr (htest b).symm eq_comm

theorem oneOf_units (m : Mark) : oneOf m.units = byte m.isByte := by
  refine oneOf_eq_byte _ (m.units.map Char.toUInt8) ?_ fun b => Mark.isByte_iff_mem
  cases m <;> rfl

theorem sign_eq : sign = byte isSignByte := oneOf_units .sign

theorem digit_eq : digit = byte isDigitByte := by
  refine oneOf_eq_byte _ [48, 49, 50, 51, 52, 53, 54, 55, 56, 57] rfl fun b => ?_
  simp only [isDigitByte, Bool.and_eq_true, decide_eq_true_eq, UInt8.le_iff_toNat_le,
    List.mem_cons, ← UInt8.toNat_inj, List.not_mem_nil, or_false, UInt8.reduceToNat]
  omega

theorem fraction_eq : fraction = byte isPointByte * digits := by
  have hpoint : oneOf ['.'] = byte isPointByte := oneOf_units .point
  rw [fraction, hpoint]

theorem exponent_eq : exponent = byte isMarkerByte * ((1 + byte isSignByte) * digits) := by
  have hmarker : oneOf ['e', 'E'] = byte isMarkerByte := oneOf_units .exponent
  rw [exponent, hmarker, sign_eq, mul_assoc]

theorem mem_byte_mul_iff : w ∈ byte test * M ↔ ∃ b x, test b = true ∧ x ∈ M ∧ w = b :: x := by
  rw [Language.mem_mul]
  constructor
  · rintro ⟨_, ⟨b, hb, rfl⟩, x, hx, rfl⟩
    exact ⟨b, x, hb, hx, rfl⟩
  · rintro ⟨b, x, hb, hx, rfl⟩
    exact ⟨[b], ⟨b, hb, rfl⟩, x, hx, rfl⟩

theorem mem_byte_kstar_iff : w ∈ (byte test)∗ ↔ ∀ b ∈ w, test b = true := by
  constructor
  · intro hw b hb
    obtain ⟨ws, rfl, hws⟩ := Language.mem_kstar.1 hw
    obtain ⟨_, hmem, hb⟩ := List.mem_flatten.1 hb
    obtain ⟨b', hb', rfl⟩ := hws _ hmem
    rwa [List.mem_singleton.1 hb]
  · intro hw
    refine Language.mem_kstar.2 ⟨w.map fun b => [b], ?_, ?_⟩
    · rw [← List.flatMap_def, List.flatMap_singleton']
    · rw [List.forall_mem_map]
      exact fun b hb => ⟨b, hw b hb, rfl⟩

theorem mem_digits_iff : w ∈ digits ↔ w ≠ [] ∧ ∀ b ∈ w, isDigitByte b = true := by
  rw [digits, digit_eq, mem_byte_mul_iff]
  constructor
  · rintro ⟨b, x, hb, hx, rfl⟩
    exact ⟨List.cons_ne_nil b x, List.forall_mem_cons.2 ⟨hb, mem_byte_kstar_iff.1 hx⟩⟩
  · rintro ⟨hne, hw⟩
    obtain ⟨b, x, rfl⟩ := List.exists_cons_of_ne_nil hne
    rw [List.forall_mem_cons] at hw
    exact ⟨b, x, hw.1, mem_byte_kstar_iff.2 hw.2, rfl⟩

/-! ### Longest words -/

/-- The longest word of the language that the bytes start with, if they start with one. -/
def Longest (L : Language UInt8) (bs : List UInt8) : Option (List UInt8) → Prop
  | some w => w ∈ L ∧ w <+: bs ∧ ∀ x ∈ L, x <+: bs → x.length ≤ w.length
  | none => ∀ x ∈ L, ¬x <+: bs

/-- No word of the language starts with a byte of the class. -/
def Avoids (test : UInt8 → Bool) (M : Language UInt8) : Prop := ∀ b x, b :: x ∈ M → test b = false

theorem Avoids.eq_nil (hM : Avoids test M) (hb : test b = true) (hx : x ∈ M)
    (hpre : x <+: b :: bs) : x = [] := by
  cases x with
  | nil => rfl
  | cons a x =>
    obtain ⟨rfl, -⟩ := List.cons_prefix_cons.1 hpre
    exact absurd hb (Bool.eq_false_iff.1 (hM a x hx))

theorem longest_one : Longest 1 bs (some []) := by
  refine ⟨Language.nil_mem_one, List.nil_prefix, fun x hx _ => ?_⟩
  rw [(Language.mem_one x).1 hx]

theorem Longest.add_of_none (hL : Longest L bs o) (hM : Longest M bs none) :
    Longest (L + M) bs o := by
  cases o with
  | none => exact fun x hx => (Language.mem_add L M x).1 hx |>.elim (hL x) (hM x)
  | some w =>
    refine ⟨(Language.mem_add L M w).2 (.inl hL.1), hL.2.1, fun x hx hpre => ?_⟩
    rcases (Language.mem_add L M x).1 hx with hx | hx
    · exact hL.2.2 x hx hpre
    · exact absurd hpre (hM x hx)

theorem Longest.add_of_nil (hM : Longest M bs (some w)) (hL : ∀ x ∈ L, x <+: bs → x = []) :
    Longest (L + M) bs (some w) := by
  refine ⟨(Language.mem_add L M w).2 (.inr hM.1), hM.2.1, fun x hx hpre => ?_⟩
  rcases (Language.mem_add L M x).1 hx with hx | hx
  · rw [hL x hx hpre]
    exact Nat.zero_le _
  · exact hM.2.2 x hx hpre

/-- The length of the longest word, said with lengths only. -/
theorem Longest.length_eq_some_iff (h : Longest L bs o) {n : Nat} :
    o.map List.length = some n ↔
      n ≤ bs.length ∧ bs.take n ∈ L ∧ ∀ m, n < m → m ≤ bs.length → bs.take m ∉ L := by
  have bound : ∀ w, Longest L bs (some w) → ∀ m, m ≤ bs.length → bs.take m ∈ L → m ≤ w.length := by
    intro w hw m hm hmem
    have := hw.2.2 _ hmem (List.take_prefix m bs)
    rwa [List.length_take_of_le hm] at this
  constructor
  · intro hn
    obtain ⟨w, rfl, rfl⟩ := Option.map_eq_some_iff.1 hn
    have htake := List.prefix_iff_eq_take.1 h.2.1
    refine ⟨h.2.1.length_le, htake ▸ h.1, fun m hlt hm hmem => ?_⟩
    exact absurd (bound w h m hm hmem) (Nat.not_le_of_lt hlt)
  · rintro ⟨hn, hmem, hlonger⟩
    cases o with
    | none => exact absurd (List.take_prefix n bs) (h _ hmem)
    | some w =>
      have htake := List.prefix_iff_eq_take.1 h.2.1
      have hle : w.length ≤ n := Nat.le_of_not_lt fun hlt =>
        hlonger w.length hlt h.2.1.length_le (htake ▸ h.1)
      rw [Option.map_some, Nat.le_antisymm hle (bound w h n hn hmem)]

theorem Longest.eq_none_iff (h : Longest L bs o) :
    o = none ↔ ∀ n ≤ bs.length, bs.take n ∉ L := by
  constructor
  · rintro rfl n - hmem
    exact h _ hmem (List.take_prefix n bs)
  · intro hno
    cases o with
    | none => rfl
    | some w => exact absurd (List.prefix_iff_eq_take.1 h.2.1 ▸ h.1) (hno _ h.2.1.length_le)

/-! ### One byte -/

theorem Longest.byte_mul (hb : test b = true) (hM : Longest M bs o) :
    Longest (byte test * M) (b :: bs) (o.map (b :: ·)) := by
  have split : ∀ x ∈ byte test * M, x <+: b :: bs → ∃ y ∈ M, y <+: bs ∧ x = b :: y := by
    intro x hx hpre
    obtain ⟨a, y, -, hy, rfl⟩ := mem_byte_mul_iff.1 hx
    obtain ⟨rfl, hy'⟩ := List.cons_prefix_cons.1 hpre
    exact ⟨y, hy, hy', rfl⟩
  cases o with
  | none =>
    intro x hx hpre
    obtain ⟨y, hy, hy', -⟩ := split x hx hpre
    exact hM y hy hy'
  | some w =>
    refine ⟨mem_byte_mul_iff.2 ⟨b, w, hb, hM.1, rfl⟩, List.cons_prefix_cons.2 ⟨rfl, hM.2.1⟩, ?_⟩
    intro x hx hpre
    obtain ⟨y, hy, hy', rfl⟩ := split x hx hpre
    exact Nat.succ_le_succ (hM.2.2 y hy hy')

theorem longest_byte_mul_none (h : bs.head?.any test = false) :
    Longest (byte test * M) bs none := by
  intro x hx hpre
  obtain ⟨a, y, ha, -, rfl⟩ := mem_byte_mul_iff.1 hx
  obtain ⟨z, rfl⟩ := hpre
  exact absurd ha (Bool.eq_false_iff.1 h)

/-- The byte that the bytes start with, if it is in the class. -/
def leading (test : UInt8 → Bool) : List UInt8 → List UInt8
  | [] => []
  | b :: _ => if test b then [b] else []

theorem leading_append_drop (test : UInt8 → Bool) (bs : List UInt8) :
    leading test bs ++ bs.drop (leading test bs).length = bs := by
  cases bs with
  | nil => rfl
  | cons b bs => by_cases hb : test b = true <;> simp [leading, hb]

theorem leading_eq_nil (h : bs.head?.any test = false) : leading test bs = [] := by
  cases bs with
  | nil => rfl
  | cons b bs => exact if_neg (Bool.eq_false_iff.1 h)

/-- A byte of the class or none, before words that do not start with one. -/
theorem Longest.leading_mul (hM : Avoids test M)
    (h : Longest M (bs.drop (leading test bs).length) o) :
    Longest ((1 + byte test) * M) bs (o.map (leading test bs ++ ·)) := by
  rw [add_mul, one_mul]
  by_cases hhead : bs.head?.any test = true
  · obtain ⟨b, hb, htest⟩ := (Option.any_eq_true _ _).1 hhead
    obtain ⟨bs, rfl⟩ := List.head?_eq_some_iff.1 hb
    have hlead : leading test (b :: bs) = [b] := if_pos htest
    rw [hlead] at h ⊢
    have hbyte := h.byte_mul htest
    cases o with
    | none =>
      refine Longest.add_of_none (fun x hx hpre => ?_) hbyte
      obtain rfl := hM.eq_nil htest hx hpre
      exact h [] hx List.nil_prefix
    | some w => exact hbyte.add_of_nil fun x hx hpre => hM.eq_nil htest hx hpre
  · rw [leading_eq_nil (Bool.eq_false_iff.2 hhead)] at h ⊢
    have hself : o.map ([] ++ ·) = o := Option.map_id' ..
    rw [hself]
    exact h.add_of_none (longest_byte_mul_none (Bool.eq_false_iff.2 hhead))

/-! ### Digits -/

theorem forall_mem_takeWhile (test : UInt8 → Bool) (bs : List UInt8) :
    ∀ b ∈ bs.takeWhile test, test b = true :=
  List.all_eq_true.1 List.all_takeWhile

theorem drop_length_takeWhile (test : UInt8 → Bool) (bs : List UInt8) :
    bs.drop (bs.takeWhile test).length = bs.dropWhile test := by
  have := @List.drop_left _ (bs.takeWhile test) (bs.dropWhile test)
  rwa [List.takeWhile_append_dropWhile] at this

theorem exists_takeWhile_eq (hw : ∀ b ∈ w, test b = true) (hpre : w <+: bs) :
    ∃ v, bs.takeWhile test = w ++ v := by
  obtain ⟨v, rfl⟩ := hpre
  exact ⟨v.takeWhile test, List.takeWhile_append_of_pos hw⟩

/-- All digits, before words that do not start with one. Fewer digits leave nothing but the
    empty word for what follows. -/
theorem Longest.digits_mul (hM : Avoids isDigitByte M) (hne : bs.takeWhile isDigitByte ≠ [])
    (h : Longest M (bs.dropWhile isDigitByte) (some w)) :
    Longest (digits * M) bs (some (bs.takeWhile isDigitByte ++ w)) := by
  have hdigits := mem_digits_iff.2 ⟨hne, forall_mem_takeWhile isDigitByte bs⟩
  have hcut : bs.takeWhile isDigitByte ++ bs.dropWhile isDigitByte = bs :=
    List.takeWhile_append_dropWhile
  refine ⟨Language.append_mem_mul hdigits h.1, ?_, fun x hx hpre => ?_⟩
  · nth_rewrite 2 [← hcut]
    exact (List.prefix_append_right_inj _).2 h.2.1
  · obtain ⟨d, hd, m, hm, rfl⟩ := Language.mem_mul.1 hx
    obtain ⟨v, hv⟩ := exists_takeWhile_eq (mem_digits_iff.1 hd).2
      ((List.prefix_append d m).trans hpre)
    rw [← hcut, hv, List.append_assoc, List.prefix_append_right_inj] at hpre
    rw [hv]
    cases v with
    | nil =>
      rw [List.append_nil, List.length_append, List.length_append]
      exact Nat.add_le_add_left (h.2.2 m hm hpre) _
    | cons b v =>
      -- A digit is left over, and stands in front of what follows.
      have hb : isDigitByte b = true :=
        forall_mem_takeWhile isDigitByte bs b (by rw [hv]; simp)
      rw [hM.eq_nil hb hm hpre]
      simp

theorem longest_digits_mul_none (h : bs.takeWhile isDigitByte = []) :
    Longest (digits * M) bs none := by
  intro x hx hpre
  obtain ⟨d, hd, m, -, rfl⟩ := Language.mem_mul.1 hx
  obtain ⟨hne, hdigits⟩ := mem_digits_iff.1 hd
  obtain ⟨v, hv⟩ := exists_takeWhile_eq hdigits ((List.prefix_append d m).trans hpre)
  exact hne (List.append_eq_nil_iff.1 (hv.symm.trans h)).1

/-! ### What the parts start with -/

theorem Mark.not_isDigitByte (m : Mark) (h : m.isByte b = true) : isDigitByte b = false := by
  have hall : (m.units.map Char.toUInt8).all (!isDigitByte ·) = true := by cases m <;> rfl
  simpa using List.all_eq_true.1 hall b (isByte_iff_mem.1 h)

theorem not_isPointByte_of_isMarkerByte (h : isMarkerByte b = true) : isPointByte b = false := by
  simp only [isMarkerByte, Bool.or_eq_true, beq_iff_eq] at h
  rcases h with rfl | rfl <;> rfl

theorem avoids_one : Avoids test 1 := fun _ _ h => nomatch h

theorem Avoids.add (hL : Avoids test L) (hM : Avoids test M) : Avoids test (L + M) := by
  intro b x hx
  rcases (Language.mem_add L M _).1 hx with hx | hx
  · exact hL b x hx
  · exact hM b x hx

theorem avoids_byte_mul {start : UInt8 → Bool} (h : ∀ b, start b = true → test b = false) :
    Avoids test (byte start * M) := by
  intro b x hx
  obtain ⟨a, y, ha, -, heq⟩ := mem_byte_mul_iff.1 hx
  obtain ⟨rfl, -⟩ := List.cons.inj heq
  exact h b ha

/-- Digits do not start with a sign. -/
theorem avoids_isSignByte_digits_mul (M : Language UInt8) : Avoids isSignByte (digits * M) := by
  rw [digits, digit_eq, mul_assoc]
  refine avoids_byte_mul fun b hb => Bool.eq_false_iff.2 fun hsign => ?_
  exact absurd hb (Bool.eq_false_iff.1 (Mark.not_isDigitByte .sign hsign))

theorem avoids_one_add_exponent (h : ∀ b, isMarkerByte b = true → test b = false) :
    Avoids test (1 + exponent) := by
  rw [exponent_eq]
  exact avoids_one.add (avoids_byte_mul h)

/-! ### Optional parts -/

/-- A point and digits that the bytes start with, or nothing. -/
def fractionPart : List UInt8 → List UInt8
  | [] => []
  | b :: bs =>
    let ds := bs.takeWhile isDigitByte
    if isPointByte b = true ∧ ds ≠ [] then b :: ds else []

theorem fractionPart_append_drop (r : List UInt8) :
    fractionPart r ++ r.drop (fractionPart r).length = r := by
  cases r with
  | nil => rfl
  | cons b r =>
    rw [fractionPart]
    split
    · rw [List.length_cons, List.drop_succ_cons, drop_length_takeWhile, List.cons_append,
        List.takeWhile_append_dropWhile]
    · rfl

/-- A fraction if there is one, before words that start neither with a point nor with a
    digit. -/
theorem Longest.fraction_mul (hpoint : Avoids isPointByte M) (hdigit : Avoids isDigitByte M)
    (h : Longest M (bs.drop (fractionPart bs).length) (some w)) :
    Longest ((1 + fraction) * M) bs (some (fractionPart bs ++ w)) := by
  rw [add_mul, one_mul, fraction_eq, mul_assoc]
  cases bs with
  | nil => exact h.add_of_none (longest_byte_mul_none rfl)
  | cons b bs =>
    by_cases hb : isPointByte b = true
    · by_cases hds : bs.takeWhile isDigitByte = []
      · -- A point without digits is no part of the word.
        have hnone : fractionPart (b :: bs) = [] := if_neg fun hand => hand.2 hds
        rw [hnone] at h ⊢
        exact h.add_of_none ((longest_digits_mul_none hds).byte_mul hb)
      · have hsome : fractionPart (b :: bs) = b :: bs.takeWhile isDigitByte := if_pos ⟨hb, hds⟩
        rw [hsome, List.length_cons, List.drop_succ_cons, drop_length_takeWhile] at h
        rw [hsome]
        exact ((h.digits_mul hdigit hds).byte_mul hb).add_of_nil
          fun x hx hpre => hpoint.eq_nil hb hx hpre
    · have hnone : fractionPart (b :: bs) = [] := if_neg fun hand => hb hand.1
      rw [hnone] at h ⊢
      exact h.add_of_none (longest_byte_mul_none (Bool.eq_false_iff.2 hb))

/-- An exponent that the bytes start with, or nothing. -/
def exponentPart : List UInt8 → List UInt8
  | [] => []
  | b :: bs =>
    let sign := leading isSignByte bs
    let ds := (bs.drop sign.length).takeWhile isDigitByte
    if isMarkerByte b = true ∧ ds ≠ [] then b :: (sign ++ ds) else []

theorem longest_exponentPart (bs : List UInt8) :
    Longest (1 + exponent) bs (some (exponentPart bs)) := by
  rw [exponent_eq, ← mul_one digits]
  cases bs with
  | nil => exact longest_one.add_of_none (longest_byte_mul_none rfl)
  | cons b bs =>
    have hsign := avoids_isSignByte_digits_mul 1
    by_cases hb : isMarkerByte b = true
    · by_cases hds : (bs.drop (leading isSignByte bs).length).takeWhile isDigitByte = []
      · have hnone : exponentPart (b :: bs) = [] := if_neg fun hand => hand.2 hds
        rw [hnone]
        exact longest_one.add_of_none
          (((longest_digits_mul_none hds).leading_mul hsign).byte_mul hb)
      · have hsome : exponentPart (b :: bs) = b :: (leading isSignByte bs ++
            (bs.drop (leading isSignByte bs).length).takeWhile isDigitByte) := if_pos ⟨hb, hds⟩
        have hdigits := Longest.digits_mul avoids_one hds longest_one
        rw [List.append_nil] at hdigits
        rw [hsome]
        exact ((hdigits.leading_mul hsign).byte_mul hb).add_of_nil fun x hx _ =>
          (Language.mem_one x).1 hx
    · have hnone : exponentPart (b :: bs) = [] := if_neg fun hand => hb hand.1
      rw [hnone]
      exact longest_one.add_of_none (longest_byte_mul_none (Bool.eq_false_iff.2 hb))

/-! ### The whole word -/

/-- The sign, the digits, the fraction and the exponent that the bytes start with, one after the
    other; nothing if there are no digits before the point. -/
def longest? (bs : List UInt8) : Option (List UInt8) :=
  let sign := leading isSignByte bs
  let rest := bs.drop sign.length
  let integer := rest.takeWhile isDigitByte
  let fraction := fractionPart (rest.dropWhile isDigitByte)
  let exponent := exponentPart ((rest.dropWhile isDigitByte).drop fraction.length)
  if integer = [] then none else some (sign ++ (integer ++ (fraction ++ exponent)))

/-- A fraction and an exponent, each of them if there is one. -/
theorem longest_fractionPart_exponentPart (bs : List UInt8) :
    Longest ((1 + fraction) * (1 + exponent)) bs
      (some (fractionPart bs ++ exponentPart (bs.drop (fractionPart bs).length))) :=
  (longest_exponentPart _).fraction_mul
    (avoids_one_add_exponent fun _ => not_isPointByte_of_isMarkerByte)
    (avoids_one_add_exponent fun _ => Mark.not_isDigitByte .exponent)

/-- Neither a fraction nor an exponent starts with a digit. -/
theorem avoids_isDigitByte_optional : Avoids isDigitByte ((1 + fraction) * (1 + exponent)) := by
  rw [add_mul, one_mul, fraction_eq, mul_assoc]
  exact (avoids_one_add_exponent fun _ => Mark.not_isDigitByte .exponent).add
    (avoids_byte_mul fun _ => Mark.not_isDigitByte .point)

theorem longest_words (bs : List UInt8) : Longest words bs (longest? bs) := by
  rw [words, sign_eq, mul_assoc, mul_assoc, longest?]
  split
  · next h => exact (longest_digits_mul_none h).leading_mul (avoids_isSignByte_digits_mul _)
  · next h =>
    have hrest := longest_fractionPart_exponentPart
      ((bs.drop (leading isSignByte bs).length).dropWhile isDigitByte)
    exact (hrest.digits_mul avoids_isDigitByte_optional h).leading_mul
      (avoids_isSignByte_digits_mul _)

end Literal

end TextParsing
