import TextParsing.Proofs.Numbers
import TextParsing.Proofs.Spans

/-!
# Two views of a text

The search for a float literal looks at the bytes of a text, and the cursor that is sent past the
literal goes from unit to unit. At a boundary of the text the two see the same: a mark or none,
and the same digits. At any other offset there is a byte, but no unit to compare it with.

So a text is looked at through a view, which tells for a byte offset whether a mark stands there
and how far the digits go from there on (`Literal.View`). Through the bytes, this has an answer
inside a unit as well; through the units, only at a boundary. A search is a tree that knows
nothing of the text but what it is told (`Literal.Search`): an offset to ask at, and how to go on
with the answer. Its trace is what is actually done: the offsets at which it asks, in order, and
what it comes to.

* `Literal.countDigits_bytes` and `Literal.head?_bytes_any_isByte`: bytes and units, at the
  start of a text.
* `Literal.View.Tells`: a view that tells the truth at the boundaries of a text. Both views do.
* `Literal.Search.OnBoundaries`: along the way through a text, the search asks at boundaries
  only. Then it makes no difference through which view it looks (`OnBoundaries.trace_eq`).
* `Literal.search`: the search for a literal as a tree. It goes on over ASCII units alone, part
  by part, and so from boundary to boundary (`onBoundaries_search`).

Main statement: `Literal.views_agree`.
-/

namespace TextParsing

namespace Literal

open Text

variable {t : Text} {n : Nat}

/-! ### At the start of a text -/

/-- As many bytes are digits as the digits among the units take. -/
theorem countDigits_bytes (t : Text) : countDigits t.bytes = spanLength isDigit t := by
  have hspan := isSpan_takeWhile isDigit t
  have hborder : (t.dropWhile isDigit).head?.any isDigit = false := by
    rw [Option.any_eq_false]
    exact hspan.stops
  have hdigits := takeWhile_bytes hspan.passes hborder
  rw [List.takeWhile_append_dropWhile] at hdigits
  rw [countDigits, hdigits, length_bytes, spanLength_eq]

/-- A text starts with the byte of a mark exactly if it starts with its unit. -/
theorem head?_bytes_any_isByte (m : Mark) (t : Text) :
    t.bytes.head?.any m.isByte = t.head?.any (· ∈ m.units) := by
  rw [Bool.eq_iff_iff, Option.any_eq_true, Option.any_eq_true]
  constructor
  · rintro ⟨b, hb, hm⟩
    obtain ⟨bs, hbytes⟩ := List.head?_eq_some_iff.1 hb
    obtain ⟨x, r, hx, rfl, -⟩ := Mark.exists_cons_of_bytes hbytes hm
    exact ⟨x, rfl, decide_eq_true hx⟩
  · rintro ⟨x, hx, hm⟩
    obtain ⟨r, rfl⟩ := List.head?_eq_some_iff.1 hx
    obtain ⟨b, hbytes, hb⟩ := Mark.exists_bytes_cons_eq (of_decide_eq_true hm) r
    exact ⟨b, by rw [hbytes, List.head?_cons], hb⟩

/-! ### Views -/

/-- A way to look at a text from a byte offset on. -/
structure View where
  /-- The mark stands at the offset. -/
  shows : Mark → Nat → Checked Bool
  /-- The length of the digits at the offset, in bytes. -/
  digits : Nat → Checked Nat

namespace View

/-- Looking at bytes. -/
def ofBytes (bs : List UInt8) : View where
  shows m n := .ok (bs[n]?.any m.isByte)
  digits n := do return countDigits (← tail bs n)

/-- Looking at units: at an offset inside a unit, there is none. -/
def ofUnits (t : Text) : View where
  shows m n := do return (← t.sliceFrom n).head?.any (· ∈ m.units)
  digits n := do return spanLength isDigit (← t.sliceFrom n)

/-- The view tells what stands at each boundary of the text. -/
structure Tells (v : View) (t : Text) : Prop where
  shows : ∀ m n, IsBoundary t n → v.shows m n = .ok (t.bytes[n]?.any m.isByte)
  digits : ∀ n, IsBoundary t n → v.digits n = .ok (countDigits (t.bytes.drop n))

theorem tells_ofBytes (t : Text) : (ofBytes t.bytes).Tells t where
  shows _ _ _ := rfl
  digits n h := by simp only [ofBytes, tail_eq h, Checked.ok_bind, Checked.pure_eq]

theorem tells_ofUnits (t : Text) : (ofUnits t).Tells t where
  shows m n h := by
    obtain ⟨u, r, rfl, rfl⟩ := h
    simp only [ofUnits, sliceFrom_append, Checked.ok_bind, Checked.pure_eq, getElem?_bytes,
      head?_bytes_any_isByte]
  digits n h := by
    obtain ⟨u, r, rfl, rfl⟩ := h
    simp only [ofUnits, sliceFrom_append, Checked.ok_bind, Checked.pure_eq, drop_bytes,
      countDigits_bytes]

end View

/-! ### Searches -/

/-- A search through a text: it asks what is at an offset, and goes on with the answer. -/
inductive Search (α : Type) where
  /-- The end of the search. -/
  | done (a : α)
  /-- Is there a mark at the offset? -/
  | look (m : Mark) (n : Nat) (next : Bool → Search α)
  /-- How long are the digits from the offset on? -/
  | count (n : Nat) (next : Nat → Search α)

namespace Search

variable {α β : Type}

/-- Goes on from the end. -/
def bind (s : Search α) (f : α → Search β) : Search β :=
  match s with
  | done a => f a
  | look m n next => look m n fun found => (next found).bind f
  | count n next => count n fun k => (next k).bind f

/-- What is done in a search: the offsets at which it asks, in order, and what it comes to, unless
    one of them has no answer. -/
structure Trace (α : Type) where
  offsets : List Nat
  answer : Checked α

/-- Asks at the offset `n`, and goes on if there is an answer. -/
def Trace.ask {γ : Type} (n : Nat) (x : Checked γ) (next : γ → Trace α) : Trace α :=
  match x with
  | .ok c => ⟨n :: (next c).offsets, (next c).answer⟩
  | .error e => ⟨[n], .error e⟩

/-- What is done in a search, if the text is looked at through the view. -/
def trace (v : View) : Search α → Trace α
  | done a => ⟨[], .ok a⟩
  | look m n next => .ask n (v.shows m n) fun found => (next found).trace v
  | count n next => .ask n (v.digits n) fun k => (next k).trace v

theorem Trace.answer_ask {γ : Type} (n : Nat) (x : Checked γ) (next : γ → Trace α) :
    (ask n x next).answer = x >>= fun c => (next c).answer := by
  cases x <;> rfl

theorem answer_bind (v : View) (s : Search α) (f : α → Search β) :
    ((s.bind f).trace v).answer = (s.trace v).answer >>= fun a => ((f a).trace v).answer := by
  induction s with
  | done a => rfl
  | look m n next ih =>
    rw [bind, trace, trace, Trace.answer_ask, Trace.answer_ask, bind_assoc]
    exact bind_congr ih
  | count n next ih =>
    rw [bind, trace, trace, Trace.answer_ask, Trace.answer_ask, bind_assoc]
    exact bind_congr ih

/-- On its way through the text, the search asks at boundaries only, and `Q` holds of what it
    comes to. -/
def OnBoundaries (t : Text) (Q : α → Prop) : Search α → Prop
  | done a => Q a
  | look m n next => IsBoundary t n ∧ (next (t.bytes[n]?.any m.isByte)).OnBoundaries t Q
  | count n next => IsBoundary t n ∧ (next (countDigits (t.bytes.drop n))).OnBoundaries t Q

namespace OnBoundaries

variable {s : Search α} {Q : α → Prop}

theorem bind {R : β → Prop} {f : α → Search β} (h : s.OnBoundaries t Q)
    (hf : ∀ a, Q a → (f a).OnBoundaries t R) : (s.bind f).OnBoundaries t R := by
  induction s with
  | done a => exact hf a h
  | look m n next ih => exact ⟨h.1, ih _ h.2⟩
  | count n next ih => exact ⟨h.1, ih _ h.2⟩

theorem ite {p : Prop} [Decidable p] {s' : Search α} (h : p → s.OnBoundaries t Q)
    (h' : ¬p → s'.OnBoundaries t Q) : (if p then s else s').OnBoundaries t Q := by
  split
  · next hp => exact h hp
  · next hp => exact h' hp

/-- Through every view that tells what stands at the boundaries, the same is done. -/
theorem trace_eq {v w : View} (h : s.OnBoundaries t Q) (hv : v.Tells t) (hw : w.Tells t) :
    s.trace v = s.trace w := by
  induction s with
  | done a => rfl
  | look m n next ih =>
    rw [trace, trace, hv.shows m n h.1, hw.shows m n h.1]
    simp only [Trace.ask, ih _ h.2]
  | count n next ih =>
    rw [trace, trace, hv.digits n h.1, hw.digits n h.1]
    simp only [Trace.ask, ih _ h.2]

theorem forall_mem_offsets {v : View} (h : s.OnBoundaries t Q) (hv : v.Tells t) :
    ∀ n ∈ (s.trace v).offsets, IsBoundary t n := by
  induction s with
  | done a => exact List.forall_mem_nil _
  | look m n next ih =>
    rw [trace, hv.shows m n h.1]
    exact List.forall_mem_cons.2 ⟨h.1, ih _ h.2⟩
  | count n next ih =>
    rw [trace, hv.digits n h.1]
    exact List.forall_mem_cons.2 ⟨h.1, ih _ h.2⟩

end OnBoundaries

end Search

/-! ### The search for a literal -/

open Search

/-- The search of `skipByte`. -/
def skip (m : Mark) (n : Nat) : Search Nat :=
  .look m n fun found => .done (if found then n + 1 else n)

/-- The search of `fractionEnd`. -/
def fractionFrom (n : Nat) : Search Nat :=
  .look .point n fun found =>
    if found then .count (n + 1) fun digits =>
      .done (if 0 < digits then n + 1 + digits else n)
    else .done n

/-- The search of `withExponent`. -/
def exponentFrom (sign integer fraction : Nat) : Search Offsets :=
  .look .exponent fraction fun found =>
    if found then
      let marker := fraction + 1
      (skip .sign marker).bind fun exponentSign => .count exponentSign fun digits =>
        let stop := if 0 < digits then exponentSign + digits else fraction
        .done ⟨sign, integer, fraction, marker, exponentSign, stop⟩
    else .done ⟨sign, integer, fraction, fraction, fraction, fraction⟩

/-- The search of `findIn`. -/
def search : Search (Option Offsets) :=
  (skip .sign 0).bind fun sign => .count sign fun digits =>
    -- Without digits there is no literal, but a sign has been passed.
    if digits = 0 then .done none
    else
      let integer := sign + digits
      (fractionFrom integer).bind fun fraction =>
        (exponentFrom sign integer fraction).bind fun o => .done (some o)

section Answer

variable (bs : List UInt8)

theorem answer_skip (m : Mark) (n : Nat) :
    ((skip m n).trace (.ofBytes bs)).answer = .ok (skipByte bs m.isByte n) := rfl

theorem fractionEnd_eq_answer (n : Nat) :
    fractionEnd bs n = ((fractionFrom n).trace (.ofBytes bs)).answer := by
  have hpoint : bs[n]? = some 46 ↔ bs[n]?.any isPointByte = true := by
    rw [Option.any_eq_true]
    simp [isPointByte]
  simp only [fractionEnd, hpoint, fractionFrom, trace, Trace.answer_ask, View.ofBytes, Mark.isByte,
    Checked.ok_bind]
  split
  · simp only [trace, Trace.answer_ask, bind_assoc]
    rfl
  · rfl

theorem withExponent_eq_answer (sign integer fraction : Nat) :
    withExponent bs sign integer fraction =
      ((exponentFrom sign integer fraction).trace (.ofBytes bs)).answer := by
  simp only [withExponent, exponentFrom, trace, Trace.answer_ask, View.ofBytes, Mark.isByte,
    Checked.ok_bind]
  split
  · rw [answer_bind]
    simp only [trace, Trace.answer_ask, bind_assoc]
    rfl
  · rfl

theorem findIn_eq_answer : findIn bs = (search.trace (.ofBytes bs)).answer := by
  rw [findIn, search, answer_bind, answer_skip, Checked.ok_bind, trace, Trace.answer_ask]
  simp only [View.ofBytes, bind_assoc, pure_bind, Mark.isByte]
  refine bind_congr fun rest => ?_
  split
  · rfl
  · rw [answer_bind]
    simp only [fractionEnd_eq_answer]
    refine bind_congr fun fraction => ?_
    rw [answer_bind, withExponent_eq_answer]
    rfl

end Answer

theorem onBoundaries_skip (m : Mark) (h : IsBoundary t n) :
    (skip m n).OnBoundaries t (IsBoundary t) :=
  ⟨h, isBoundary_skipByte m h⟩

theorem onBoundaries_fractionFrom (h : IsBoundary t n) :
    (fractionFrom n).OnBoundaries t (IsBoundary t) := by
  refine ⟨h, .ite (fun hpoint => ?_) fun _ => h⟩
  have hdigits := isBoundary_succ .point h hpoint
  exact ⟨hdigits, isBoundary_afterDigits h hdigits⟩

theorem onBoundaries_exponentFrom (sign integer : Nat) (h : IsBoundary t n) :
    (exponentFrom sign integer n).OnBoundaries t fun _ => True := by
  refine ⟨h, .ite (fun hmarker => ?_) fun _ => trivial⟩
  have hsign := isBoundary_succ .exponent h hmarker
  exact (onBoundaries_skip .sign hsign).bind fun exponentSign hdigits => ⟨hdigits, trivial⟩

theorem onBoundaries_search (t : Text) : search.OnBoundaries t fun _ => True := by
  refine (onBoundaries_skip .sign (.zero t)).bind fun sign hsign => ⟨hsign, ?_⟩
  refine .ite (fun _ => trivial) fun _ => ?_
  have hinteger := isBoundary_countDigits hsign
  refine (onBoundaries_fractionFrom hinteger).bind fun fraction hfraction => ?_
  exact (onBoundaries_exponentFrom _ _ hfraction).bind fun _ _ => trivial

/-- Bytes and units agree on digits and literals. From every boundary of a text on, the digits
    among the bytes are as long as those among the units. The search for a literal asks the bytes
    at boundaries only, whether it finds a literal or not, and all offsets of what it finds are
    boundaries; so it would do the same, and come to the same, if it asked the units. -/
theorem views_agree (t : Text) :
    (∀ n, IsBoundary t n → ∃ r, t.sliceFrom n = .ok r ∧ tail t.bytes n = .ok r.bytes ∧
      countDigits r.bytes = spanLength isDigit r) ∧
    find t = (search.trace (.ofBytes t.bytes)).answer ∧
    (∀ n ∈ (search.trace (.ofBytes t.bytes)).offsets, IsBoundary t n) ∧
    search.trace (.ofUnits t) = search.trace (.ofBytes t.bytes) ∧
    ∃ r, find t = .ok r ∧ ∀ o, r = some o → o.OnBoundaries t := by
  have hsearch := onBoundaries_search t
  have hbytes := View.tells_ofBytes t
  refine ⟨fun n hn => ?_, findIn_eq_answer t.bytes, hsearch.forall_mem_offsets hbytes,
    hsearch.trace_eq (View.tells_ofUnits t) hbytes, exists_find_eq t⟩
  have htail := tail_eq hn
  obtain ⟨u, r, rfl, rfl⟩ := hn
  rw [drop_bytes] at htail
  exact ⟨r, sliceFrom_append u r, htail, countDigits_bytes r⟩

/-- An exponent without digits. The search stops before the accent, of two bytes, and does not
    ask inside it; after the accent, a digit of another script is none. -/
theorem views_agree_accent :
    let t : Text := ['1', '.', '5', 'e', '-', 'é', '7', '٣']
    let r : Text := ['7', '٣']
    IsBoundary t 7 ∧ ¬IsBoundary t 6 ∧ t.sliceFrom 7 = .ok r ∧
      countDigits r.bytes = spanLength isDigit r ∧
      (search.trace (.ofUnits t)).offsets = [0, 0, 1, 2, 3, 4, 5] ∧
      ∀ n ∈ (search.trace (.ofUnits t)).offsets, IsBoundary t n := by
  intro t r
  have hboundary : IsBoundary t 7 := by decide
  have hslice : t.sliceFrom 7 = .ok r := rfl
  obtain ⟨hdigits, -, hoffsets, htrace, -⟩ := views_agree t
  obtain ⟨r', hr, -, hcount⟩ := hdigits 7 hboundary
  obtain rfl := Except.ok.inj (hslice.symm.trans hr)
  rw [← htrace] at hoffsets
  exact ⟨hboundary, by decide, hslice, hcount, by decide, hoffsets⟩

end Literal

end TextParsing
