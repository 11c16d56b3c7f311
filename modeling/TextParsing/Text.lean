import TextParsing.Fault

/-!
# Texts

A text is a list of *units*, one Unicode scalar value each: a carriage return
and a line feed are two units, a combining mark is a unit of its own, and
nothing is normalised. A text is *measured* in bytes of its UTF-8 form, in which
a unit takes one to four bytes. Offsets into a text are therefore byte offsets,
and only some of them, the *boundaries*, lie between two units.

* `Text.byteLength` and `Text.bytes` are the UTF-8 length and the UTF-8 form;
* `Text.dropBytes?`, `Text.takeBytes?` and `Text.slice?` cut at byte offsets, and
  have no answer where a unit would be split or the text ends too early;
* `Text.IsBoundary` says, without cutting, where a cut is possible;
* `Text.spanLength`, `Text.offsetAfter?` and `Text.matchPrefix?` measure, in
  bytes, the units of a class, a number of units, and a literal at the start of a
  text.
-/

namespace TextParsing

/-- A text: its units, in order. -/
abbrev Text := List Char

namespace Text

/-- The length of a text in bytes of UTF-8. -/
def byteLength : Text → Nat
  | [] => 0
  | u :: t => u.utf8Size + byteLength t

/-- The UTF-8 form of a text. -/
def bytes (t : Text) : List UInt8 := t.flatMap String.utf8EncodeChar

/-! ### Cutting at byte offsets -/

/-- The text after its first `n` bytes, if these make up whole units. -/
def dropBytes? : Text → Nat → Option Text
  | t, 0 => some t
  | [], _ + 1 => none
  | u :: t, n + 1 => if u.utf8Size ≤ n + 1 then dropBytes? t (n + 1 - u.utf8Size) else none

/-- The first `n` bytes of the text, if they make up whole units. -/
def takeBytes? : Text → Nat → Option Text
  | _, 0 => some []
  | [], _ + 1 => none
  | u :: t, n + 1 =>
    if u.utf8Size ≤ n + 1 then (takeBytes? t (n + 1 - u.utf8Size)).map (u :: ·) else none

/-- The part of the text from byte `start` to byte `stop`, if these are in order
    and both are boundaries. -/
def slice? (t : Text) (start stop : Nat) : Option Text :=
  if start ≤ stop then (t.dropBytes? start).bind fun u => takeBytes? u (stop - start) else none

/-- A byte offset is a boundary of the text if the text can be split there:
    before it lie whole units, of that many bytes. -/
def IsBoundary (t : Text) (n : Nat) : Prop := ∃ u v : Text, t = u ++ v ∧ byteLength u = n

/-- The part of the text from byte `start` on. -/
def sliceFrom (t : Text) (start : Nat) : Checked Text :=
  .ofOption (.slice start (byteLength t)) (t.dropBytes? start)

/-- The part of the text from byte `start` to byte `stop`. -/
def slice (t : Text) (start stop : Nat) : Checked Text :=
  .ofOption (.slice start stop) (t.slice? start stop)

/-! ### Measuring the start of a text -/

/-- The byte length of the longest part at the start of the text whose units all
    pass `test`. -/
def spanLength (test : Char → Bool) : Text → Nat
  | [] => 0
  | u :: t => if test u then u.utf8Size + spanLength test t else 0

/-- The byte offset just after the first `n` units, if there are that many. -/
def offsetAfter? : Text → Nat → Option Nat
  | _, 0 => some 0
  | [], _ + 1 => none
  | u :: t, n + 1 => (offsetAfter? t n).map (u.utf8Size + ·)

/-- The byte offset in the text just after `literal`, if the text starts with
    it. The empty literal matches everywhere; letters match in their own case
    only. -/
def matchPrefix? : (literal : Text) → Text → Option Nat
  | [], _ => some 0
  | _ :: _, [] => none
  | w :: ws, u :: t => if w = u then (matchPrefix? ws t).map (u.utf8Size + ·) else none

/-! ### Boundaries, by splitting and by cutting -/

@[simp] theorem byteLength_nil : byteLength [] = 0 := rfl

@[simp] theorem byteLength_cons (u : Char) (t : Text) :
    byteLength (u :: t) = u.utf8Size + byteLength t := rfl

@[simp] theorem byteLength_append (s t : Text) :
    byteLength (s ++ t) = byteLength s + byteLength t := by
  induction s with
  | nil => simp
  | cons u s ih => simp [ih, Nat.add_assoc]

/-- Only the empty text has no bytes: every unit takes at least one. -/
@[simp] theorem byteLength_eq_zero_iff {t : Text} : byteLength t = 0 ↔ t = [] := by
  cases t with
  | nil => simp
  | cons u t =>
    have := u.utf8Size_pos
    simp only [byteLength_cons, reduceCtorEq, iff_false]
    omega

/-- Cutting off `n` bytes leaves `v` exactly when the text is `v` after a text of
    `n` bytes. -/
theorem dropBytes?_eq_some_iff {t v : Text} {n : Nat} :
    dropBytes? t n = some v ↔ ∃ u : Text, t = u ++ v ∧ byteLength u = n := by
  induction t generalizing n with
  | nil =>
    cases n with
    | zero => exact ⟨fun h => ⟨[], by simpa [dropBytes?] using h⟩, by simp [dropBytes?, eq_comm]⟩
    | succ n =>
      simp only [dropBytes?, reduceCtorEq, false_iff, not_exists, not_and]
      intro u h
      obtain ⟨rfl, -⟩ := List.append_eq_nil_iff.1 h.symm
      simp
  | cons c t ih =>
    cases n with
    | zero => simp [dropBytes?]
    | succ n =>
      -- A text before the rest has to start with `c`, as it is not empty.
      have cut : (∃ u : Text, c :: t = u ++ v ∧ byteLength u = n + 1) ↔
          ∃ u : Text, t = u ++ v ∧ c.utf8Size + byteLength u = n + 1 := by
        constructor
        · rintro ⟨u, hu, hn⟩
          cases u with
          | nil => simp at hn
          | cons d u =>
            obtain ⟨rfl, rfl⟩ := List.cons.inj hu
            exact ⟨u, rfl, by simpa using hn⟩
        · rintro ⟨u, rfl, hn⟩
          exact ⟨c :: u, rfl, by simpa using hn⟩
      rw [cut, dropBytes?]
      split
      · rw [ih]
        exact exists_congr fun u => and_congr_right fun _ => by omega
      · simp only [reduceCtorEq, false_iff, not_exists, not_and]
        intro u _
        omega

/-- A text can be cut exactly at its boundaries. -/
theorem isSome_dropBytes?_iff {t : Text} {n : Nat} :
    (dropBytes? t n).isSome ↔ IsBoundary t n := by
  rw [Option.isSome_iff_exists]
  constructor
  · rintro ⟨v, hv⟩
    obtain ⟨u, h⟩ := dropBytes?_eq_some_iff.1 hv
    exact ⟨u, v, h⟩
  · rintro ⟨u, v, h⟩
    exact ⟨v, dropBytes?_eq_some_iff.2 ⟨u, h⟩⟩

instance (t : Text) (n : Nat) : Decidable (IsBoundary t n) :=
  decidable_of_iff _ isSome_dropBytes?_iff

end Text

end TextParsing
