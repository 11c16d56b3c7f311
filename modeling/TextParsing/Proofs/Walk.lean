import TextParsing.Proofs.Cursor

/-!
# Walks

A *walk* is what a caller does with cursors. Starting at the start of a text, it
moves forward by one unit, by a number of units or by the units of a class; it
saves copies of the cursor at hand and goes back to them; and it starts again, on
the same text or on what is left of it as a text of its own.

The cursors that a walk has at hand are all valid, as each move keeps the cursor
and the saved copies valid (`Walk.exists_step_eq`), and no move comes to a fault
(`Walk.exists_trail_eq`). Everything else follows from validity:

* `Cursor.Valid.coherent`: what a cursor tells about itself, in bytes, in units and
  as a text, fits together;
* `Cursor.Valid.consecutive`: of two cursors on one text, the positions decide
  whether there is a text between them, and these texts can be put one after the
  other.

Main statement: `Walk.trail_coherent`, about the cursors of all walks. Cursors on
one text need not come from one walk.
-/

namespace TextParsing

/-! ### What cursors tell -/

namespace Cursor

/-- What a cursor tells about itself fits together. -/
structure Coherent (c : Cursor) : Prop where
  /-- The text is what is read, whose length in bytes is the position, and the rest. -/
  split : ∃ u r, c.rest = .ok r ∧ c.source = u ++ r ∧ u.byteLength = c.position
  value_eq_none_iff : c.value = .ok none ↔ c.atEnd = true
  atEnd_iff : c.atEnd = true ↔ c.unitsLeft = .ok 0
  unitsLeft_eq_zero_iff : c.unitsLeft = .ok 0 ↔ c.rest = .ok []
  /-- Moving on takes one unit off the rest, and nothing else. -/
  next_of_cons : ∀ x r, c.rest = .ok (x :: r) →
    ∃ d, c.next = .ok d ∧ d.source = c.source ∧ d.rest = .ok r
  next_of_atEnd : c.atEnd = true → c.next = .ok c

/-- There is a text from `a` to `b` exactly if `b` does not lie before `a`. It is followed by the
    text from `b` to `d`, if `d` does not lie before `b`, and by what is left at `b`. -/
structure Consecutive (a b d : Cursor) : Prop where
  sliceTo_iff : (∃ w, a.sliceTo b = .ok w) ↔ a.position ≤ b.position
  join : a.position ≤ b.position → b.position ≤ d.position → ∃ w x,
    a.sliceTo b = .ok w ∧ b.sliceTo d = .ok x ∧ a.sliceTo d = .ok (w ++ x)
  join_rest : a.position ≤ b.position → ∃ w r,
    a.sliceTo b = .ok w ∧ b.rest = .ok r ∧ a.rest = .ok (w ++ r)
  length_sliceTo : a.position ≤ b.position → ∃ w n m,
    a.sliceTo b = .ok w ∧ a.unitsLeft = .ok n ∧ b.unitsLeft = .ok m ∧ m ≤ n ∧ w.length = n - m

theorem Valid.coherent {c : Cursor} (h : c.Valid) : c.Coherent := by
  obtain ⟨u, r, rfl⟩ := valid_iff.1 h
  refine ⟨⟨u, r, rest_past u r, rfl, rfl⟩, ?_, ?_, ?_, ?_, ?_⟩
  · simp
  · simp
  · simp
  · intro x v hr
    rw [rest_past] at hr
    obtain rfl := Except.ok.inj hr
    exact ⟨past (u ++ [x]) v, next_past_cons u x v, by simp [past], rest_past _ _⟩
  · intro hend
    obtain rfl := (atEnd_past u r).1 hend
    exact next_past_nil u

/-- Cursors on one text are ordered by their positions. -/
theorem Valid.exists_reads {a b : Cursor} (ha : a.Valid) (hb : b.Valid) (hs : b.source = a.source)
    (h : a.position ≤ b.position) : ∃ w, a.Reads w b :=
  Precedes.exists_reads ⟨hs, hb, h⟩ ha

theorem position_le_of_sliceTo {a b : Cursor} {w : Text} (h : a.sliceTo b = .ok w) :
    a.position ≤ b.position := by
  rw [sliceTo, Text.slice, Text.slice?] at h
  split at h
  · next hle => exact hle
  · cases h

theorem Valid.consecutive {a b d : Cursor} (ha : a.Valid) (hb : b.Valid) (hd : d.Valid)
    (hba : b.source = a.source) (hdb : d.source = b.source) : Consecutive a b d := by
  refine ⟨⟨?_, ?_⟩, ?_, ?_, ?_⟩
  · rintro ⟨w, hw⟩
    exact position_le_of_sliceTo hw
  · intro hab
    obtain ⟨w, hw⟩ := ha.exists_reads hb hba hab
    exact ⟨w, hw.sliceTo⟩
  · intro hab hbd
    obtain ⟨w, hw⟩ := ha.exists_reads hb hba hab
    obtain ⟨x, hx⟩ := hb.exists_reads hd hdb hbd
    exact ⟨w, x, hw.sliceTo, hx.sliceTo, (hw.trans hx).sliceTo⟩
  · intro hab
    obtain ⟨w, hw⟩ := ha.exists_reads hb hba hab
    obtain ⟨r, hr, hwr⟩ := hw.rest
    exact ⟨w, r, hw.sliceTo, hr, hwr⟩
  · intro hab
    obtain ⟨w, u, r, rfl, rfl⟩ := ha.exists_reads hb hba hab
    exact ⟨w, _, _, sliceTo_past u w r, unitsLeft_past _ _, unitsLeft_past _ _, by simp, by simp⟩

end Cursor

/-! ### Moves -/

/-- What can be done with the cursor at hand. -/
inductive Move where
  /-- Past the next unit. -/
  | next
  /-- Past this number of units, if as many are left. -/
  | advance (count : Nat)
  /-- Past the units of a class. -/
  | advanceWhile (test : Char → Bool)
  /-- Keeps a copy of the cursor. -/
  | save
  /-- Back to a saved copy, counted from the last one, if there are as many. -/
  | reload (index : Nat)
  /-- To the start of the text. -/
  | restart
  /-- To the start of what is left of the text. -/
  | reopen

/-- A place in a walk: the cursor at hand and the saved copies, the last one first. -/
structure Walk where
  cursor : Cursor
  saved : List Cursor

namespace Walk

/-- A walk that has not begun. -/
def start (t : Text) : Walk := ⟨.start t, []⟩

/-- The place after one move. -/
def step (s : Walk) : Move → Checked Walk
  | .next => do return { s with cursor := ← s.cursor.next }
  | .advance count => do return { s with cursor := (← s.cursor.advance count).getD s.cursor }
  | .advanceWhile test => do return { s with cursor := ← s.cursor.advanceWhile test }
  | .save => return { s with saved := s.cursor :: s.saved }
  | .reload index => return { s with cursor := s.saved[index]?.getD s.cursor }
  | .restart => return { s with cursor := .start s.cursor.source }
  | .reopen => do return { s with cursor := .start (← s.cursor.rest) }

/-- The cursors that are at hand before the moves, between them and after them. -/
def trail (s : Walk) : List Move → Checked (List Cursor)
  | [] => return [s.cursor]
  | m :: ms => do return s.cursor :: (← (← s.step m).trail ms)

/-- Some walk has the cursor at hand. -/
def Reaches (c : Cursor) : Prop := ∃ t ms cs, (start t).trail ms = .ok cs ∧ c ∈ cs

/-- The cursor at hand and all saved copies are valid. -/
structure Sound (s : Walk) : Prop where
  cursor : s.cursor.Valid
  saved : ∀ c ∈ s.saved, c.Valid

theorem Sound.start (t : Text) : (start t).Sound :=
  ⟨Cursor.valid_past [] t, fun _ h => nomatch h⟩

/-- One move leads on, and to valid cursors again. -/
theorem exists_step_eq {s : Walk} (h : s.Sound) (m : Move) :
    ∃ s', s.step m = .ok s' ∧ s'.Sound := by
  obtain ⟨u, r, hc⟩ := Cursor.valid_iff.1 h.cursor
  cases m with
  | next =>
    cases r with
    | nil =>
      rw [step, hc, Cursor.next_past_nil]
      exact ⟨_, rfl, Cursor.valid_past _ _, h.saved⟩
    | cons x r =>
      rw [step, hc, Cursor.next_past_cons]
      exact ⟨_, rfl, Cursor.valid_past _ _, h.saved⟩
  | advance count =>
    rw [step, hc, Cursor.advance_past]
    refine ⟨_, rfl, ?_, h.saved⟩
    -- With too few units left, the walk stays where it is.
    split
    · exact Cursor.valid_past _ _
    · exact Cursor.valid_past _ _
  | advanceWhile test =>
    rw [step, hc, Cursor.advanceWhile_past]
    exact ⟨_, rfl, Cursor.valid_past _ _, h.saved⟩
  | save => exact ⟨_, rfl, h.cursor, List.forall_mem_cons.2 ⟨h.cursor, h.saved⟩⟩
  | reload index =>
    refine ⟨_, rfl, ?_, h.saved⟩
    cases hi : s.saved[index]? with
    | none => exact h.cursor
    | some c => exact h.saved c (List.mem_of_getElem? hi)
  | restart => exact ⟨_, rfl, Cursor.valid_past [] _, h.saved⟩
  | reopen =>
    rw [step, hc, Cursor.rest_past]
    exact ⟨_, rfl, Cursor.valid_past [] r, h.saved⟩

/-- A whole walk is without faults, and all its cursors are valid. -/
theorem exists_trail_eq {s : Walk} (h : s.Sound) (ms : List Move) :
    ∃ cs, s.trail ms = .ok cs ∧ ∀ c ∈ cs, c.Valid := by
  induction ms generalizing s with
  | nil => exact ⟨[s.cursor], rfl, List.forall_mem_singleton.2 h.cursor⟩
  | cons m ms ih =>
    obtain ⟨s', hstep, hs'⟩ := exists_step_eq h m
    obtain ⟨cs, htrail, hcs⟩ := ih hs'
    exact ⟨s.cursor :: cs, by rw [trail, hstep, Checked.ok_bind, htrail]; rfl,
      List.forall_mem_cons.2 ⟨h.cursor, hcs⟩⟩

theorem Reaches.valid {c : Cursor} (h : Reaches c) : c.Valid := by
  obtain ⟨t, ms, cs, hcs, hc⟩ := h
  obtain ⟨cs', hcs', hvalid⟩ := exists_trail_eq (.start t) ms
  obtain rfl := Except.ok.inj (hcs.symm.trans hcs')
  exact hvalid c hc

/-- Every walk comes to its end. What each of its cursors tells fits together, and so do the
    texts between it and other cursors on the same text, from this walk or from others. -/
theorem trail_coherent (t : Text) (ms : List Move) :
    ∃ cs, (start t).trail ms = .ok cs ∧ ∀ a ∈ cs, a.Coherent ∧
      ∀ b d, Reaches b → Reaches d → b.source = a.source → d.source = a.source →
        a.Consecutive b d := by
  obtain ⟨cs, hcs, hvalid⟩ := exists_trail_eq (.start t) ms
  refine ⟨cs, hcs, fun a ha => ⟨(hvalid a ha).coherent, fun b d hb hd hba hda => ?_⟩⟩
  exact (hvalid a ha).consecutive hb.valid hd.valid hba (hda.trans hba.symm)

/-- A walk on a text with a unit of two bytes: there and back, and on to what is left. -/
theorem trail_coherent_accent :
    let t : Text := ['a', 'é', 'b']
    let ms : List Move := [.advance 2, .save, .restart, .next, .reload 0, .reopen]
    let cs : List Cursor := [⟨t, 0⟩, ⟨t, 3⟩, ⟨t, 3⟩, ⟨t, 0⟩, ⟨t, 1⟩, ⟨t, 3⟩, ⟨['b'], 0⟩]
    (start t).trail ms = .ok cs ∧ (∀ c ∈ cs, c.Coherent) ∧
      Cursor.Consecutive ⟨t, 0⟩ ⟨t, 1⟩ ⟨t, 3⟩ := by
  intro t ms cs
  have htrail : (start t).trail ms = .ok cs := rfl
  obtain ⟨cs', hcs', hcoherent⟩ := trail_coherent t ms
  obtain rfl := Except.ok.inj (htrail.symm.trans hcs')
  have hreaches : ∀ c ∈ cs, Reaches c := fun c hc => ⟨t, ms, cs, htrail, hc⟩
  refine ⟨htrail, fun c hc => (hcoherent c hc).1, ?_⟩
  exact (hcoherent ⟨t, 0⟩ (by decide)).2 _ _ (hreaches _ (by decide)) (hreaches _ (by decide))
    rfl rfl

end Walk

end TextParsing
