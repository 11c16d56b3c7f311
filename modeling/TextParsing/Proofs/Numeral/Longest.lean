import TextParsing.Proofs.Numeral.Words

/-!
# The longest literal

The search for a literal goes through the bytes of a text by offsets. Each function of the
search is described on bytes `u ++ r` with `u` behind it: it goes on by the length of the
part that `r` starts with. So the search ends after the bytes that `Literal.longest?` cuts
off (`length?_eq`), which are the longest word of the grammar.

Main statement: `Literal.search_exact`.
-/

namespace TextParsing

namespace Literal

open Numeral (isDigitByte)

/-! ### One part at a time -/

variable (u : List UInt8)

theorem tail_append (r : List UInt8) : tail (u ++ r) u.length = .ok r := by
  rw [tail, if_pos (by simp), List.drop_left]

theorem getElem?_append_length (r : List UInt8) : (u ++ r)[u.length]? = r.head? := by
  rw [List.getElem?_append_right (Nat.le_refl _), Nat.sub_self, List.head?_eq_getElem?]

theorem skipByte_append (test : UInt8 → Bool) (r : List UInt8) :
    skipByte (u ++ r) test u.length = (u ++ leading test r).length := by
  rw [skipByte, getElem?_append_length]
  cases r with
  | nil => simp [leading]
  | cons b r => by_cases hb : test b = true <;> simp [leading, hb]

theorem tail_append_cons (b : UInt8) (r : List UInt8) :
    tail (u ++ b :: r) (u.length + 1) = .ok r := by
  have := tail_append (u ++ [b]) r
  rwa [List.append_assoc, List.length_append] at this

theorem fractionEnd_append (r : List UInt8) :
    fractionEnd (u ++ r) u.length = .ok (u ++ fractionPart r).length := by
  rw [fractionEnd, getElem?_append_length]
  cases r with
  | nil => simp [fractionPart]
  | cons b r =>
    by_cases hb : b = 46
    · rw [if_pos (by rw [hb]; rfl), tail_append_cons, Checked.ok_bind, countDigits]
      by_cases hds : r.takeWhile isDigitByte = []
      · simp [fractionPart, hds]
      · have hpos := List.length_pos_iff.2 hds
        simp [fractionPart, isPointByte, hb, hds, hpos]
        omega
    · simp [fractionPart, isPointByte, hb]

theorem exists_withExponent_append (sign integer : Nat) (r : List UInt8) :
    ∃ o, withExponent (u ++ r) sign integer u.length = .ok o ∧
      o.stop = (u ++ exponentPart r).length := by
  rw [withExponent, getElem?_append_length]
  cases r with
  | nil => exact ⟨_, rfl, by simp [exponentPart]⟩
  | cons b r =>
    by_cases hb : isMarkerByte b = true
    · have hmark : u ++ b :: r = (u ++ [b]) ++ r := by simp
      have hsign : skipByte (u ++ b :: r) isSignByte (u.length + 1) =
          ((u ++ [b]) ++ leading isSignByte r).length := by
        rw [hmark, ← skipByte_append, List.length_append, List.length_singleton]
      have htail : tail (u ++ b :: r) ((u ++ [b]) ++ leading isSignByte r).length =
          .ok (r.drop (leading isSignByte r).length) := by
        have := tail_append ((u ++ [b]) ++ leading isSignByte r)
          (r.drop (leading isSignByte r).length)
        rwa [List.append_assoc (u ++ [b]), leading_append_drop, ← hmark] at this
      simp only [List.head?_cons, Option.any_some, hb, ↓reduceIte, hsign, htail, Checked.ok_bind]
      refine ⟨_, rfl, ?_⟩
      -- Without digits, the mark and the sign are not counted.
      by_cases hds : (r.drop (leading isSignByte r).length).takeWhile isDigitByte = []
      · simp [exponentPart, countDigits, hds]
      · have hpos := List.length_pos_iff.2 hds
        simp [exponentPart, countDigits, hb, hds, hpos]
        omega
    · refine ⟨_, if_neg hb, ?_⟩
      simp [exponentPart, hb]

/-! ### The whole literal -/

/-- From the digits before the point on, the search finds the fraction and the exponent. -/
theorem exists_fractionEnd_withExponent (sign : Nat) (r : List UInt8) :
    ∃ n o, fractionEnd (u ++ r) u.length = .ok n ∧ withExponent (u ++ r) sign u.length n = .ok o ∧
      o.stop = (u ++ (fractionPart r ++ exponentPart (r.drop (fractionPart r).length))).length := by
  obtain ⟨o, ho, hstop⟩ := exists_withExponent_append (u ++ fractionPart r) sign u.length
    (r.drop (fractionPart r).length)
  rw [List.append_assoc, fractionPart_append_drop] at ho
  exact ⟨_, o, fractionEnd_append u r, ho, by rw [hstop, List.append_assoc]⟩

/-- The search finds the end of the word, or that there is none. -/
theorem length?_eq (t : Text) : length? t = .ok ((longest? t.bytes).map List.length) := by
  rw [length?, find, findIn, longest?]
  generalize t.bytes = bs
  have hsign : skipByte bs isSignByte 0 = (leading isSignByte bs).length :=
    skipByte_append [] isSignByte bs
  have hbs := leading_append_drop isSignByte bs
  generalize leading isSignByte bs = sign at hsign hbs ⊢
  generalize bs.drop sign.length = rest at hbs ⊢
  subst hbs
  simp only [hsign, tail_append, Checked.ok_bind, countDigits, List.length_eq_zero_iff]
  split
  · rfl
  · have hrest : sign ++ rest =
        (sign ++ rest.takeWhile isDigitByte) ++ rest.dropWhile isDigitByte := by
      rw [List.append_assoc, List.takeWhile_append_dropWhile]
    obtain ⟨n, o, hn, ho, hstop⟩ := exists_fractionEnd_withExponent
      (sign ++ rest.takeWhile isDigitByte) sign.length (rest.dropWhile isDigitByte)
    rw [← hrest, List.length_append] at hn ho
    simp only [hn, Checked.ok_bind, ho, Checked.pure_eq, Option.map_some, hstop, List.append_assoc]

/-- The whole text is found exactly if it is a word. -/
theorem length?_eq_byteLength_iff (t : Text) :
    length? t = .ok (some t.byteLength) ↔ t.bytes ∈ words := by
  have hwhole : t.bytes.take t.byteLength = t.bytes := by
    rw [← Text.length_bytes, List.take_length]
  rw [length?_eq, Except.ok.injEq, (longest_words t.bytes).length_eq_some_iff, Text.length_bytes,
    hwhole]
  constructor
  · exact fun h => h.2.1
  · exact fun h => ⟨Nat.le_refl _, h, fun m hlt hle => absurd hle (Nat.not_le_of_lt hlt)⟩

/-- The search is exact: it finds the length of the longest literal that the text starts with, or
    that there is none. So the whole text is found exactly if it is a literal, and what is found
    is found again when it stands alone. -/
theorem search_exact (t : Text) :
    (∀ n, length? t = .ok (some n) ↔ n ≤ t.byteLength ∧ t.bytes.take n ∈ words ∧
      ∀ m, n < m → m ≤ t.byteLength → t.bytes.take m ∉ words) ∧
    (length? t = .ok none ↔ ∀ n ≤ t.byteLength, t.bytes.take n ∉ words) ∧
    (length? t = .ok (some t.byteLength) ↔ t.bytes ∈ words) ∧
    (∀ n, length? t = .ok (some n) →
      ∃ w, t.takeBytes? n = some w ∧ length? w = .ok (some n) ∧ w.byteLength = n) := by
  have hlongest := longest_words t.bytes
  refine ⟨fun n => ?_, ?_, length?_eq_byteLength_iff t, fun n hn => ?_⟩
  · rw [length?_eq, Except.ok.injEq, hlongest.length_eq_some_iff, Text.length_bytes]
  · rw [length?_eq, Except.ok.injEq, Option.map_eq_none_iff, hlongest.eq_none_iff,
      Text.length_bytes]
  · rcases exists_length?_eq t with hnone | ⟨w, v, rfl, hsome⟩
    · rw [hnone] at hn
      exact nomatch hn
    · obtain rfl := Option.some.inj (Except.ok.inj (hsome.symm.trans hn))
      refine ⟨w, Text.takeBytes?_append w v, (length?_eq_byteLength_iff w).2 ?_, rfl⟩
      rw [length?_eq, Except.ok.injEq, hlongest.length_eq_some_iff] at hn
      have hmem := hn.2.1
      rwa [Text.bytes_append, ← Text.length_bytes, List.take_left] at hmem

/-- The mark and the sign of an exponent without digits are left. -/
theorem search_exact_dangling :
    let t : Text := "-1.50e+é".toList
    length? t = .ok (some 5) ∧
      ∃ w, t.takeBytes? 5 = some w ∧ length? w = .ok (some 5) ∧ w.byteLength = 5 :=
  ⟨rfl, (search_exact _).2.2.2 5 rfl⟩

end Literal

end TextParsing
