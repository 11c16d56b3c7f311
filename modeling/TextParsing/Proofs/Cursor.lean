import TextParsing.Proofs.Text.Split

/-!
# Cursors as splits

A valid cursor splits its text into what is read and what is not: it is
`Cursor.past u r`, with `u` read and `r` unread, for exactly one pair of texts
(`valid_iff`, `past_inj`). In these terms the operations on cursors need no
offsets. None of them comes to a fault, and what each one answers depends on the
unread text alone.

* `Cursor.Reads c w d`: from `c`, reading the text `w` leads to `d`;
* `Cursor.Precedes c d`: the cursor `d` is one that can follow `c` in a run, on the
  same text, at a boundary, and not before `c`.
-/

namespace TextParsing.Cursor

open Text

/-- The cursor with `u` read and `r` unread. -/
def past (u r : Text) : Cursor := ⟨u ++ r, u.byteLength⟩

theorem start_eq (r : Text) : start r = past [] r := rfl

theorem valid_past (u r : Text) : (past u r).Valid := ⟨u, r, rfl, rfl⟩

theorem valid_iff {c : Cursor} : c.Valid ↔ ∃ u r, c = past u r := by
  constructor
  · rintro ⟨u, r, hs, hp⟩
    exact ⟨u, r, by rw [past, ← hs, hp]⟩
  · rintro ⟨u, r, rfl⟩
    exact valid_past u r

theorem past_inj {u r u' r' : Text} : past u r = past u' r' ↔ u = u' ∧ r = r' := by
  constructor
  · intro h
    exact eq_of_byteLength_eq (congrArg source h) (congrArg position h)
  · rintro ⟨rfl, rfl⟩
    rfl

/-! ### What is unread -/

@[simp] theorem rest_past (u r : Text) : (past u r).rest = .ok r :=
  sliceFrom_append u r

/-- A cursor whose unread text is `r` is one with `r` unread. -/
theorem rest_eq_ok_iff {c : Cursor} {r : Text} : c.rest = .ok r ↔ ∃ u, c = past u r := by
  constructor
  · intro h
    rw [rest, sliceFrom] at h
    rcases hd : dropBytes? c.source c.position with _ | t
    · rw [hd] at h
      cases h
    · rw [hd] at h
      obtain rfl := Except.ok.inj h
      obtain ⟨u, hs, hp⟩ := dropBytes?_eq_some_iff.1 hd
      exact ⟨u, by rw [past, ← hs, hp]⟩
  · rintro ⟨u, rfl⟩
    exact rest_past u r

@[simp] theorem value_past (u r : Text) : (past u r).value = .ok r.head? := by
  rw [value, rest_past]
  rfl

@[simp] theorem unitsLeft_past (u r : Text) : (past u r).unitsLeft = .ok r.length := by
  rw [unitsLeft, rest_past]
  rfl

@[simp] theorem atEnd_past (u r : Text) : (past u r).atEnd = true ↔ r = [] := by
  simp only [atEnd, past, decide_eq_true_eq, byteLength_append, ← byteLength_eq_zero_iff]
  omega

/-- A cursor with `n` unread units is one with a text of `n` units unread. -/
theorem exists_past_of_unitsLeft {c : Cursor} {n : Nat} (h : c.unitsLeft = .ok n) :
    ∃ u r, c = past u r ∧ r.length = n := by
  obtain ⟨r, hr, hn⟩ := Checked.bind_eq_ok h
  obtain ⟨u, rfl⟩ := rest_eq_ok_iff.1 hr
  exact ⟨u, r, rfl, Except.ok.inj hn⟩

theorem valid_of_unitsLeft {c : Cursor} {n : Nat} (h : c.unitsLeft = .ok n) : c.Valid := by
  obtain ⟨u, r, rfl, -⟩ := exists_past_of_unitsLeft h
  exact valid_past u r

/-! ### Moving -/

theorem forward_past (u w r : Text) :
    (past u (w ++ r)).forward w.byteLength = .ok (past (u ++ w) r) := by
  have hb : IsBoundary (u ++ (w ++ r)) (u.byteLength + w.byteLength) :=
    ⟨u ++ w, r, by simp, by simp⟩
  rw [forward, past, if_pos hb, past, List.append_assoc, byteLength_append]

@[simp] theorem next_past_nil (u : Text) : (past u []).next = .ok (past u []) := by
  rw [next, value_past]
  rfl

@[simp] theorem next_past_cons (u : Text) (x : Char) (r : Text) :
    (past u (x :: r)).next = .ok (past (u ++ [x]) r) := by
  rw [next, value_past]
  exact forward_past u [x] r

theorem advance_past (u r : Text) (n : Nat) : (past u r).advance n =
    .ok (if n ≤ r.length then some (past (u ++ r.take n) (r.drop n)) else none) := by
  rw [advance]
  split
  · next hn => simp [hn]
  · rw [rest_past, Checked.ok_bind, offsetAfter?_eq]
    by_cases hlen : n ≤ r.length
    · have := forward_past u (r.take n) (r.drop n)
      rw [List.take_append_drop] at this
      simp [hlen, this]
    · simp [hlen]

theorem advanceWhile_past (u r : Text) (test : Char → Bool) : (past u r).advanceWhile test =
    .ok (past (u ++ r.takeWhile test) (r.dropWhile test)) := by
  have := forward_past u (r.takeWhile test) (r.dropWhile test)
  rw [List.takeWhile_append_dropWhile] at this
  rw [advanceWhile, rest_past, Checked.ok_bind, spanLength_eq, this]

/-! ### Between two cursors -/

theorem sliceTo_past (u w r : Text) :
    (past u (w ++ r)).sliceTo (past (u ++ w) r) = .ok w := by
  rw [sliceTo, past, past, slice, slice?_append]
  rfl

/-- From `c`, reading the text `w` leads to `d`. -/
def Reads (c : Cursor) (w : Text) (d : Cursor) : Prop :=
  ∃ u r, c = past u (w ++ r) ∧ d = past (u ++ w) r

namespace Reads

variable {c d e : Cursor} {w x : Text}

theorem past (u w r : Text) : (past u (w ++ r)).Reads w (past (u ++ w) r) := ⟨u, r, rfl, rfl⟩

theorem nil (h : c.Valid) : c.Reads [] c := by
  obtain ⟨u, r, rfl⟩ := valid_iff.1 h
  exact ⟨u, r, rfl, by rw [List.append_nil]⟩

theorem valid (h : c.Reads w d) : d.Valid := by
  obtain ⟨u, r, -, rfl⟩ := h
  exact valid_past _ _

theorem valid_left (h : c.Reads w d) : c.Valid := by
  obtain ⟨u, r, rfl, -⟩ := h
  exact valid_past _ _

theorem trans (h : c.Reads w d) (h' : d.Reads x e) : c.Reads (w ++ x) e := by
  obtain ⟨u, r, rfl, rfl⟩ := h
  obtain ⟨u', r', hd, rfl⟩ := h'
  obtain ⟨rfl, rfl⟩ := past_inj.1 hd
  exact ⟨u, r', by rw [List.append_assoc], by rw [List.append_assoc]⟩

/-- What is read tells where it leads to. -/
theorem unique (h : c.Reads w d) (h' : c.Reads w e) : e = d := by
  obtain ⟨u, r, rfl, rfl⟩ := h
  obtain ⟨u', r', hc, rfl⟩ := h'
  obtain ⟨rfl, hr⟩ := past_inj.1 hc
  rw [List.append_cancel_left hr]

theorem sliceTo (h : c.Reads w d) : c.sliceTo d = .ok w := by
  obtain ⟨u, r, rfl, rfl⟩ := h
  exact sliceTo_past u w r

theorem rest (h : c.Reads w d) : ∃ r, d.rest = .ok r ∧ c.rest = .ok (w ++ r) := by
  obtain ⟨u, r, rfl, rfl⟩ := h
  exact ⟨r, rest_past _ _, rest_past _ _⟩

end Reads

/-- The cursor `d` can follow `c` in a run: it has the same text, its position is a
    boundary, and it does not lie before `c`. -/
structure Precedes (c d : Cursor) : Prop where
  source : d.source = c.source
  valid : d.Valid
  le : c.position ≤ d.position

namespace Precedes

variable {c d e : Cursor}

theorem refl (h : c.Valid) : c.Precedes c := ⟨rfl, h, Nat.le_refl _⟩

theorem trans (h : c.Precedes d) (h' : d.Precedes e) : c.Precedes e :=
  ⟨h'.source.trans h.source, h'.valid, Nat.le_trans h.le h'.le⟩

end Precedes

theorem Reads.precedes {c d : Cursor} {w : Text} (h : c.Reads w d) : c.Precedes d := by
  obtain ⟨u, r, rfl, rfl⟩ := h
  exact ⟨by simp [Cursor.past], valid_past _ _, by simp [Cursor.past]⟩

/-- To a cursor that can follow, a text is read. -/
theorem Precedes.exists_reads {c d : Cursor} (h : c.Precedes d) (hc : c.Valid) :
    ∃ w, c.Reads w d := by
  obtain ⟨u, r, rfl⟩ := valid_iff.1 hc
  obtain ⟨u', r', rfl⟩ := valid_iff.1 h.valid
  have hsource : u' ++ r' = u ++ r := h.source
  have hle : u.byteLength ≤ u'.byteLength := h.le
  rcases List.append_eq_append_iff.1 hsource with ⟨w, rfl, rfl⟩ | ⟨w, rfl, rfl⟩
  · -- The second cursor is not before the first one, so that nothing lies between them.
    rw [byteLength_append] at hle
    obtain rfl : w = [] := byteLength_eq_zero_iff.1 (by omega)
    exact ⟨[], u', r, by simp, by simp⟩
  · exact ⟨w, u, r', rfl, rfl⟩

/-- Fewer units are left at a cursor that follows another one. -/
theorem Precedes.unitsLeft {c d : Cursor} {n : Nat} (h : c.Precedes d) (hn : c.unitsLeft = .ok n) :
    ∃ m, d.unitsLeft = .ok m ∧ m ≤ n ∧ (d ≠ c → m < n) := by
  obtain ⟨u, r, rfl, rfl⟩ := exists_past_of_unitsLeft hn
  obtain ⟨w, u', r', hc, rfl⟩ := h.exists_reads (valid_past u r)
  obtain ⟨rfl, rfl⟩ := past_inj.1 hc
  refine ⟨r'.length, unitsLeft_past _ _, by simp, fun hne => ?_⟩
  have hw : w ≠ [] := by
    rintro rfl
    exact hne (by simp)
  have := List.length_pos_iff.2 hw
  rw [List.length_append]
  omega

end TextParsing.Cursor
