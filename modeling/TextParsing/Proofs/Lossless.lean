import TextParsing.Proofs.Primitive
import TextParsing.Proofs.Run
import TextParsing.Parser

/-!
# Nothing is lost

Some parsers keep every unit that they read: the parsers of single units and of texts,
put together by choice, by repetition, and by pairing. In the value of such a parser
the units stand in the order in which they were read, each of them once.

* `Shape` lists the kinds of values that these parsers have, and `Shape.content` is what
  is written in a value, from left to right;
* `Parser.Lossless` says which parsers these are. The second parser of a pair may be
  chosen by the value of the first.

Main statement: `Parser.Lossless.content_eq_read`. What is written in the value is the
text between the two cursors of the run, and what was unread before the run is that
text, followed by what is unread after it. Nothing of an alternative that was given up
stays in the value, nor of the last attempt of a repetition; and the value of a step
that stands still, which a repetition keeps, has nothing written in it.
-/

namespace TextParsing

variable {S : Signature} {ν α β : Type}

/-! ### What is written in a value -/

/-- The kinds of values that are made of units. -/
inductive Shape where
  | unit
  | char
  | text
  | list (s : Shape)
  | pair (s t : Shape)

namespace Shape

/-- The values of a shape. -/
@[reducible] def Value : Shape → Type
  | unit => Unit
  | char => Char
  | text => Text
  | list s => List s.Value
  | pair s t => s.Value × t.Value

/-- All units and texts in a value, in order. -/
def content : (s : Shape) → s.Value → Text
  | unit, _ => []
  | char, x => [x]
  | text, t => t
  | list s, vs => vs.flatMap s.content
  | pair s t, v => s.content v.1 ++ t.content v.2

end Shape

/-- What is written in the value of a success is what was read since `c`. -/
def Outcome.Spells (content : α → Text) (c : Cursor) : Outcome α → Prop
  | success v d => c.Reads (content v) d
  | failure _ => True

/-! ### Parsers that keep what they read -/

/-- The primitive has what it reads as its value. -/
inductive Primitive.Lossless : (s : Shape) → Primitive s.Value → Prop where
  | satisfy (test : Char → Bool) (label : String) : Lossless .char (.satisfy test label)
  | anyChar : Lossless .char .anyChar
  | take (count : Nat) (label : String) : Lossless .text (.take count label)
  | takeIf (count : Nat) (test : Text → Bool) (label : String) :
    Lossless .text (.takeWith count id test label)
  | literal (text : Text) : Lossless .text (.literal text)
  | takeWhile (test : Char → Bool) : Lossless .text (.takeWhile test)
  | takeWhile1 (test : Char → Bool) : Lossless .text (.takeWhile1 test)
  | takeText : Lossless .text .takeText
  | scan {σ : Type} (initial : σ) (step : σ → Char → Option σ) (written : String) :
    Lossless .text (.scan initial step written)
  | fail (s : Shape) (label : String) : Lossless s (.fail label)
  | succeed (s : Shape) (v : s.Value) (written : String) (h : s.content v = []) :
    Lossless s (.succeed v written)

/-- The parser keeps every unit that it reads in its value, in order. The parsers `char`,
    `takeTill` and `takeTillChar` are among these, as parsers of their primitives. -/
inductive Parser.Lossless : (s : Shape) → Parser S s.Value → Prop where
  | primitive {s : Shape} {p : Primitive s.Value} (h : p.Lossless s) : Lossless s (.primitive p)
  | orElse {s : Shape} {p q : Parser S s.Value} (hp : Lossless s p) (hq : Lossless s q) :
    Lossless s (.orElse p q)
  | many {s : Shape} {p : Parser S s.Value} (h : Lossless s p) : Lossless (.list s) (.many p)
  | many1 {s : Shape} {p : Parser S s.Value} (h : Lossless s p) : Lossless (.list s) (.many1 p)
  | inspect {s : Shape} {p : Parser S s.Value} (h : Lossless s p) (tag : S.Tag)
    (view : s.Value → S.Seen) : Lossless s (.inspect p tag view)
  | pair {s t : Shape} {p : Parser S s.Value} {q : Parser S t.Value} (hp : Lossless s p)
    (hq : Lossless t q) : Lossless (.pair s t) (.apply (.map p fun x y => (x, y)) q)
  | bind {s t : Shape} {p : Parser S s.Value} {k : s.Value → Parser S t.Value}
    (hp : Lossless s p) (hk : ∀ v, Lossless t (k v)) :
    Lossless (.pair s t) (.bind p fun v => .map (k v) fun w => (v, w))

/-! ### The primitives -/

namespace Primitive

open Cursor

theorem spells_oneUnit (test : Char → Bool) (label : String) (u r : Text) :
    (oneUnit id test label u r).Spells (Shape.content .char) (past u r) := by
  cases r with
  | nil => trivial
  | cons x v =>
    rw [oneUnit]
    split
    · exact .past u [x] v
    · trivial

/-- All that a text parser does is to cut off a start of what is unread. -/
theorem spells_text {u r w v : Text} (h : r = w ++ v) :
    (Outcome.success w (past (u ++ w) v)).Spells (Shape.content .text) (past u r) := by
  subst h
  exact .past u w v

theorem Lossless.spells {s : Shape} {p : Primitive s.Value} (h : p.Lossless s) {c : Cursor}
    (hc : c.Valid) :
    (Run.ofChecked (p.run c) : Run ν s.Value).Ensures (Outcome.Spells s.content c) := by
  obtain ⟨u, r, rfl⟩ := valid_iff.1 hc
  cases h with
  | satisfy test label =>
    rw [run_satisfy]
    exact .outcome (spells_oneUnit test label u r)
  | anyChar =>
    rw [run_anyChar]
    exact .outcome (spells_oneUnit _ _ u r)
  | take count label =>
    rw [run_take]
    refine .outcome ?_
    split
    · trivial
    · split
      · exact spells_text (List.take_append_drop count r).symm
      · trivial
  | takeIf count test label =>
    rw [run_takeWith]
    refine .outcome ?_
    split
    · trivial
    · split
      · exact spells_text (List.take_append_drop count r).symm
      · trivial
  | literal text =>
    rw [run_literal]
    refine .outcome ?_
    split
    · next ht => exact spells_text (List.prefix_iff_eq_append.1 ht).symm
    · trivial
  | takeWhile test =>
    rw [run_takeWhile]
    exact .outcome (spells_text List.takeWhile_append_dropWhile.symm)
  | takeWhile1 test =>
    rw [run, runTakeWhile1_past]
    refine .outcome ?_
    split
    · trivial
    · exact spells_text List.takeWhile_append_dropWhile.symm
  | takeText =>
    rw [run_takeText]
    exact .outcome (spells_text (List.append_nil r).symm)
  | scan initial step written =>
    obtain ⟨w, v, final, hr, hscan⟩ := exists_runScan_eq r initial step
    rw [run, hscan]
    exact .outcome (spells_text hr)
  | fail s label => exact .outcome trivial
  | succeed s v written hv =>
    -- Nothing is read, and nothing is written in the value.
    refine .outcome ?_
    rw [Outcome.Spells, hv]
    exact .nil (valid_past u r)

end Primitive

/-! ### The combinators -/

namespace Run.Ensures

open Outcome (Spells)

variable {content : α → Text} {content' : β → Text} {c : Cursor}

/-- Two values next to each other, the second one read where the first one ended. -/
theorem spells_pair {r : Run ν α} {k : α → Cursor → Run ν β} (hr : r.Ensures (Spells content c))
    (hk : ∀ v d, d.Valid → (k v d).Ensures (Spells content' d)) :
    (r.andThen fun v d => (k v d).map fun w => (v, w)).Ensures
      (Spells (fun v => content v.1 ++ content' v.2) c) := by
  refine hr.andThen (fun v d h => ?_) fun _ _ => trivial
  exact (hk v d (Cursor.Reads.valid h)).map (fun w e h' => Cursor.Reads.trans h h')
    fun _ _ => trivial

variable {step : Cursor → Run ν α}
  (h : ∀ c : Cursor, c.Valid → (step c).Ensures (Spells content c))

include h

/-- One more value, in front of those of a repetition. -/
theorem spells_cons (c : Cursor) (hc : c.Valid) (v : α) (d : Cursor)
    (hv : (step c).result = .ok (.success v d)) :
    d.Valid ∧ ∀ (vs : List α) (e : Cursor),
      d.Reads (vs.flatMap content) e → c.Reads ((v :: vs).flatMap content) e := by
  have hread : c.Reads (content v) d := h c hc _ hv
  exact ⟨hread.valid, fun _ _ he => hread.trans he⟩

theorem spells_repeatFrom (limit : Nat) (hc : c.Valid) :
    (Run.repeatFrom step limit c).Ensures (Spells (fun vs => vs.flatMap content) c) :=
  .repeatFrom (fun _ hc => .nil hc) (spells_cons h) limit hc fun _ _ he => he

theorem spells_repeatFrom1 (limit : Nat) (hc : c.Valid) :
    (Run.repeatFrom1 step limit c).Ensures (Spells (fun vs => vs.flatMap content) c) :=
  .repeatFrom1 (fun _ hc => .nil hc) (spells_cons h) limit hc (fun _ _ he => he)
    fun _ _ => trivial

end Run.Ensures

namespace Parser.Lossless

theorem spells (ctx : Context S) {s : Shape} {p : Parser S s.Value} (h : p.Lossless s) :
    ∀ c : Cursor, c.Valid → (p.run ctx c).Ensures (Outcome.Spells s.content c) := by
  induction h with
  | primitive h => exact fun c hc => h.spells hc
  | orElse _ _ ihp ihq =>
    -- What the first parser read is read again, from `c`.
    exact fun c hc => (ihp c hc).orElse (fun _ _ h => h) fun _ _ => ihq c hc
  | many _ ih => exact fun c hc => .spells_repeatFrom ih ctx.limit hc
  | many1 _ ih => exact fun c hc => .spells_repeatFrom1 ih ctx.limit hc
  | inspect _ tag view ih =>
    intro c hc
    exact (ih c hc).andThen (fun v d h => .after _ (.success h)) fun _ _ => trivial
  | pair _ _ ihp ihq =>
    intro c hc
    -- Applying the function that waits for the second value makes a pair of the two.
    rw [run, run, Run.map_andThen]
    exact (ihp c hc).spells_pair fun _ d hd => ihq d hd
  | bind _ _ ihp ihk =>
    intro c hc
    exact (ihp c hc).spells_pair fun v d hd => ihk v d hd

/-- If a run succeeds, what is written in the value is the text between its two cursors,
    and the unread text before it is the same text, followed by what is unread after
    it. -/
theorem content_eq_read {s : Shape} {p : Parser S s.Value} (h : p.Lossless s) (ctx : Context S)
    (c : Cursor) (hc : c.Valid) (v : s.Value) (d : Cursor)
    (hrun : (p.run ctx c).result = .ok (.success v d)) :
    c.sliceTo d = .ok (s.content v) ∧
      ∃ t, d.rest = .ok t ∧ c.rest = .ok (s.content v ++ t) := by
  have hread : c.Reads (s.content v) d := h.spells ctx c hc _ hrun
  exact ⟨hread.sliceTo, hread.rest⟩

/-- Units with their repetitions, or with a mark; the alternative with a mark is given up
    at the first unit, and taken at the second. -/
theorem content_eq_read_marked :
    let p : Parser ⟨0, fun _ => Unit, Unit, Unit⟩ (Shape.list (.pair .char .text)).Value := .many
      (.orElse (.apply (.map .anyChar fun x y => (x, y)) (.literal ['!']))
        (.bind (.satisfy (· != '-') "unit") fun x => .map (.takeWhile (· == x)) fun w => (x, w)))
    let ctx : Context ⟨0, fun _ => Unit, Unit, Unit⟩ := ⟨fun r => r.elim0, 5⟩
    let c : Cursor := ⟨['x', 'a', 'a', 'é', '!', '-'], 1⟩
    let d : Cursor := ⟨c.source, 6⟩
    (p.run ctx c).result = .ok (.success [('a', ['a']), ('é', ['!'])] d) ∧
      c.sliceTo d = .ok ['a', 'a', 'é', '!'] ∧
      ∃ t, d.rest = .ok t ∧ c.rest = .ok (['a', 'a', 'é', '!'] ++ t) := by
  intro p ctx c d
  have hp : p.Lossless (.list (.pair .char .text)) := .many
    (.orElse (.pair (.primitive .anyChar) (.primitive (.literal _)))
      (.bind (.primitive (.satisfy _ _)) fun _ => .primitive (.takeWhile _)))
  have hrun : (p.run ctx c).result = .ok (.success [('a', ['a']), ('é', ['!'])] d) := rfl
  have hc : c.Valid := by decide
  exact ⟨hrun, hp.content_eq_read ctx c hc _ d hrun⟩

end Parser.Lossless

end TextParsing
