import TextParsing.Proofs.Text.Split

/-!
# Bytes and boundaries

The numerals are read from the bytes of a text, and what they find are offsets. An
offset that is reached from a boundary over ASCII bytes is a boundary again: the
first byte of a unit that takes more than one is never in the ASCII range, so an
ASCII byte at a boundary is a whole unit (`IsBoundary.succ`).
-/

namespace TextParsing.Text

/-! ### Boundaries -/

theorem IsBoundary.zero (t : Text) : IsBoundary t 0 := ⟨[], t, rfl, rfl⟩

theorem IsBoundary.le {t : Text} {n : Nat} (h : IsBoundary t n) : n ≤ byteLength t := by
  obtain ⟨u, v, rfl, rfl⟩ := h
  simp

/-! ### The bytes of a text -/

theorem bytes_append (s t : Text) : bytes (s ++ t) = bytes s ++ bytes t :=
  List.flatMap_append

theorem bytes_isPrefix {s t : Text} (h : s <+: t) : bytes s <+: bytes t := by
  obtain ⟨v, rfl⟩ := h
  rw [bytes_append]
  exact List.prefix_append _ _

theorem length_bytes (t : Text) : (bytes t).length = byteLength t := by
  induction t with
  | nil => rfl
  | cons u t ih => simpa [bytes] using ih

theorem drop_bytes (u v : Text) : (bytes (u ++ v)).drop (byteLength u) = bytes v := by
  rw [bytes_append, ← length_bytes, List.drop_left]

theorem getElem?_bytes (u v : Text) : (bytes (u ++ v))[byteLength u]? = (bytes v).head? := by
  rw [List.head?_eq_getElem?, ← drop_bytes u v, List.getElem?_drop, Nat.add_zero]

/-- The bytes tell the text. -/
theorem bytes_inj {s t : Text} : bytes s = bytes t ↔ s = t := by
  constructor
  · intro h
    have henc : (String.ofList s).toByteArray = (String.ofList t).toByteArray := by
      rw [String.toByteArray_ofList, String.toByteArray_ofList, List.utf8Encode, List.utf8Encode]
      exact congrArg List.toByteArray h
    exact String.ofList_inj.1 (String.toByteArray_inj.1 henc)
  · rintro rfl
    rfl

/-! ### ASCII bytes -/

/-- A unit whose first byte is in the ASCII range takes no other. -/
theorem utf8Size_eq_one {u : Char} {b : UInt8} (h : (String.utf8EncodeChar u).head? = some b)
    (hb : b < 128) : u.utf8Size = 1 := by
  have lead : ∀ x m : UInt8, 128 ≤ m → ¬(x ||| m) < 128 := fun x m hm => by
    have : m.toNat ≤ (x ||| m).toNat := by rw [UInt8.toNat_or]; exact Nat.right_le_or
    rw [UInt8.lt_iff_toNat_lt]
    rw [UInt8.le_iff_toNat_le] at hm
    omega
  rcases Char.utf8Size_eq u with h1 | h2 | h3 | h4
  · exact h1
  · rw [String.utf8EncodeChar_eq_cons_cons h2] at h
    obtain rfl := Option.some.inj h
    exact absurd hb (lead _ _ (by decide))
  · rw [String.utf8EncodeChar_eq_cons_cons_cons h3] at h
    obtain rfl := Option.some.inj h
    exact absurd hb (lead _ _ (by decide))
  · rw [String.utf8EncodeChar_eq_cons_cons_cons_cons h4] at h
    obtain rfl := Option.some.inj h
    exact absurd hb (lead _ _ (by decide))

/-- A unit in the ASCII range is one byte, and any other unit starts with a byte that is not in
    this range. -/
theorem utf8EncodeChar_cases (u : Char) :
    (u.toNat < 128 ∧ String.utf8EncodeChar u = [u.toUInt8]) ∨
      (128 ≤ u.toNat ∧ ∃ b bs, String.utf8EncodeChar u = b :: bs ∧ 128 ≤ b) := by
  have hsize : u.utf8Size = 1 ↔ u.toNat < 128 := by
    rw [Char.utf8Size_eq_one_iff, UInt32.le_iff_toNat_le, Char.toNat_val]
    exact Nat.lt_succ_iff.symm
  by_cases h : u.toNat < 128
  · exact .inl ⟨h, String.utf8EncodeChar_eq_singleton (hsize.2 h)⟩
  · obtain ⟨b, bs, hb⟩ := List.exists_cons_of_ne_nil (String.utf8EncodeChar_ne_nil (c := u))
    refine .inr ⟨Nat.le_of_not_lt h, b, bs, hb, UInt8.not_lt.1 fun hlt => h (hsize.1 ?_)⟩
    exact utf8Size_eq_one (by rw [hb]; rfl) hlt

theorem bytes_cons_of_lt {u : Char} (h : u.toNat < 128) (t : Text) :
    bytes (u :: t) = u.toUInt8 :: bytes t := by
  rcases utf8EncodeChar_cases u with ⟨-, henc⟩ | ⟨hle, -⟩
  · rw [bytes, List.flatMap_cons, henc]
    rfl
  · exact absurd h (Nat.not_lt_of_le hle)

theorem toNat_toUInt8 {u : Char} (h : u.toNat < 128) : u.toUInt8.toNat = u.toNat := by
  rw [Char.toUInt8, UInt32.toNat_toUInt8, Char.toNat_val]
  omega

/-- A text starts with the byte of an ASCII unit only if it starts with the unit. -/
theorem head?_of_head?_bytes {t : Text} {u : Char} (hu : u.toNat < 128)
    (h : (bytes t).head? = some u.toUInt8) : t.head? = some u := by
  cases t with
  | nil => exact nomatch h
  | cons x t =>
    rw [bytes, List.flatMap_cons] at h
    rcases utf8EncodeChar_cases x with ⟨hx, henc⟩ | ⟨-, b, bs, henc, hb⟩
    · rw [henc] at h
      have hsame : x.toUInt8.toNat = u.toUInt8.toNat := congrArg UInt8.toNat (Option.some.inj h)
      rw [toNat_toUInt8 hx, toNat_toUInt8 hu] at hsame
      rw [List.head?_cons, Char.toNat_inj.1 hsame]
    · rw [henc] at h
      obtain rfl := Option.some.inj h
      have hle : 128 ≤ u.toUInt8.toNat := UInt8.le_iff_toNat_le.1 hb
      rw [toNat_toUInt8 hu] at hle
      omega

/-- After an ASCII byte at a boundary, there is a boundary. -/
theorem IsBoundary.succ {t : Text} {n : Nat} {b : UInt8} (h : IsBoundary t n)
    (hb : (bytes t)[n]? = some b) (hlt : b < 128) : IsBoundary t (n + 1) := by
  obtain ⟨u, v, rfl, rfl⟩ := h
  rw [getElem?_bytes] at hb
  cases v with
  | nil => simp [bytes] at hb
  | cons c v =>
    have hc : (String.utf8EncodeChar c).head? = some b := by
      obtain ⟨a, as, ha⟩ := List.exists_cons_of_ne_nil (String.utf8EncodeChar_ne_nil (c := c))
      rw [bytes, List.flatMap_cons, ha] at hb
      rw [ha]
      exact hb
    exact ⟨u ++ [c], v, by simp, by simp [utf8Size_eq_one hc hlt]⟩

/-- After ASCII bytes from a boundary on, there is a boundary. -/
theorem IsBoundary.add {t : Text} {n m : Nat} (h : IsBoundary t n)
    (hb : ∀ i < m, ∃ b, (bytes t)[n + i]? = some b ∧ b < 128) : IsBoundary t (n + m) := by
  induction m with
  | zero => exact h
  | succ m ih =>
    obtain ⟨b, hm, hlt⟩ := hb m (Nat.lt_succ_self m)
    exact (ih fun i hi => hb i (Nat.lt_succ_of_lt hi)).succ hm hlt

end TextParsing.Text
