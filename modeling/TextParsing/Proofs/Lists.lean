import TextParsing.Proofs.Integers
import TextParsing.Proofs.Position
import TextParsing.Proofs.Spans

/-!
# Lists of integers

A list is written item by item. If a parser reads each item back from where it is written,
whatever follows it, and fails on what follows the last one, then the repetition of the parser
reads the list back (`Run.chain_flatMap`). The last attempt of the repetition is the one that
fails. It may have read a good deal by then, such as a number without the unit that should end
it, or a number out of range; all of this is given up, and the repetition ends before it.

Here the items are unsigned integers, with any number of zeros, each of them ended by the same
unit (`Numeral.Entry`). The unit is no digit, and so the digits of an item end where they should.
What is asked of the text after the list is that the parser of an item fails on it when it stands
alone; by position independence it then fails on it after the list.

Main statement: `Grammar.run_listed`.
-/

namespace TextParsing

open Numeral

/-! ### Repetitions of what is written -/

namespace Run

variable {ν α ι : Type} {step : Cursor → Run ν α} {c d : Cursor} {n : Nat} {vs : List α}

/-- A repetition reads item after item, and ends where the step fails. -/
theorem chain_flatMap {write : ι → Text} {value : ι → α} {xs : List ι} {tail : Text}
    (hne : ∀ x ∈ xs, write x ≠ [])
    (hread : ∀ x ∈ xs, ∀ u r, (step (.past u (write x ++ r))).result =
      .ok (.success (value x) (.past (u ++ write x) r)))
    (htail : ∀ u, (step (.past u tail)).Fails) (u : Text) :
    Chain step (xs.length + 1) (.past u (xs.flatMap write ++ tail)) (xs.map value)
      (.past (u ++ xs.flatMap write) tail) := by
  induction xs generalizing u with
  | nil =>
    rw [List.flatMap_nil, List.append_nil]
    exact .failed (htail u)
  | cons x xs ih =>
    rw [List.forall_mem_cons] at hne hread
    have hrest := ih hne.2 hread.2 (u ++ write x)
    rw [List.append_assoc] at hrest
    rw [List.flatMap_cons, List.append_assoc]
    refine .moved (hread.1 u _) (fun hstill => ?_) hrest
    exact hne.1 (List.append_right_eq_self.1 (Cursor.past_inj.1 hstill).1)

/-- A chain has no values exactly if its first attempt fails. -/
theorem Chain.eq_nil_iff (h : Chain step n c vs d) : vs = [] ↔ (step c).Fails := by
  cases h with
  | failed h => exact ⟨fun _ => h, fun _ => rfl⟩
  | stalled h =>
    refine ⟨fun hnil => absurd hnil (List.cons_ne_nil _ _), ?_⟩
    rintro ⟨f, hf⟩
    cases h.symm.trans hf
  | moved h hne hrest =>
    refine ⟨fun hnil => absurd hnil (List.cons_ne_nil _ _), ?_⟩
    rintro ⟨f, hf⟩
    cases h.symm.trans hf

theorem Fails.behind {r : Run ν α} (h : r.Fails) (u : Text) : (r.behind u).Fails := by
  obtain ⟨f, hf⟩ := h
  exact ⟨⟨f.error, f.cursor.behind u⟩, by rw [Run.behind, hf]; rfl⟩

end Run

/-! ### Integers in a list -/

namespace Numeral

/-- An unsigned integer as it is written, with a number of zeros before it. -/
structure Entry where
  zeros : Nat
  number : Nat

/-- The digits of the integer, and the unit that ends it. -/
def Entry.text (stop : Char) (e : Entry) : Text := padded e.zeros e.number ++ [stop]

/-- A list of integers, each of them ended by the same unit. -/
def listed (stop : Char) (es : List Entry) : Text := es.flatMap (Entry.text stop)

theorem Entry.text_ne_nil (stop : Char) (e : Entry) : e.text stop ≠ [] :=
  List.append_ne_nil_of_right_ne_nil _ (List.cons_ne_nil stop [])

/-- A list has at least one unit for each integer. -/
theorem length_le_length_listed (stop : Char) (es : List Entry) :
    es.length ≤ (listed stop es).length := by
  induction es with
  | nil => exact Nat.le_refl 0
  | cons e es ih =>
    have := List.length_pos_iff.2 (e.text_ne_nil stop)
    rw [listed, List.flatMap_cons, List.length_append, List.length_cons, ← listed]
    omega

end Numeral

namespace Parser

variable {S : Signature} (ctx : Context S) {w : Width} {stop : Char}

/-- An unsigned integer, and the unit that ends it. -/
def entry (w : Width) (stop : Char) : Parser S Int := thenSkip (unsigned w) (char stop)

theorem run_char_cons (stop : Char) (u r : Text) :
    (char stop).run ctx (.past u (stop :: r)) = .success stop (.past (u ++ [stop]) r) := by
  rw [char]
  exact run_satisfy_cons ctx "char" u (by simp) r

/-- The digits end where the unit that ends the integer stands, as it is no digit. -/
theorem run_entry (hstop : Text.isDigit stop = false) {e : Entry}
    (he : (IntKind.unsigned w).Holds e.number) (u r : Text) :
    (entry w stop).run ctx (.past u (e.text stop ++ r)) =
      .success (e.number : Int) (.past (u ++ e.text stop) r) := by
  have hdigits := isDigits_padded e.zeros e.number
  have hread := Cursor.ReadsDigits.past (r := stop :: r) u hdigits.2 hstop
  have hdenotes := Denotes.unsigned hdigits
  rw [natural_padded] at hdenotes
  have hnumber := run_integer_of_denotes ctx (.never w) hread hdenotes
  rw [if_pos he] at hnumber
  have hend := run_char_cons ctx stop (u ++ padded e.zeros e.number) r
  rw [Entry.text, List.append_assoc, List.singleton_append, ← List.append_assoc]
  exact (Run.andThen_eq_success_iff _).2
    ⟨_, _, hnumber, (Run.andThen_eq_success_iff _).2 ⟨_, _, hend, rfl⟩⟩

theorem notes_run_entry (c : Cursor) : ((entry w stop).run ctx c).notes = [] := by
  have hend (v : Int) (d : Cursor) :
      (((char stop).run ctx d).andThen fun _ e => .success v e).notes = [] :=
    (Run.notes_map _ fun _ => v).trans (Run.notes_ofChecked _)
  rw [entry, run, Run.notes_andThen]
  simp only [hend, Run.onSuccess_nil, List.append_nil]
  exact Run.notes_ofChecked _

/-- Where the parser fails on a text that stands alone, it fails on it after any other. -/
theorem fails_entry {tail : Text} (h : ((entry w stop).run ctx (.start tail)).Fails) (u : Text) :
    ((entry w stop).run ctx (.past u tail)).Fails := by
  have hfree : Law.positionFree Int ((entry w stop).run ctx) :=
    Law.positionFree_compositional.run ctx ⟨trivial, trivial⟩
  rw [(hfree tail).2 u]
  exact h.behind u

end Parser

/-- A list of unsigned integers that is written in decimal, with any number of zeros before each
    integer and with a unit after each that is no digit, is read back by the repetition of the
    parser of an integer and this unit, up to whatever follows the list, if the parser fails on
    it. The same holds if at least one integer is asked for, unless there is none; and then it
    fails. -/
theorem Grammar.run_listed {S : Signature} (g : Grammar S) (w : Width) (stop : Char)
    (hstop : Text.isDigit stop = false) (es : List Entry)
    (hes : ∀ e ∈ es, (e.number : Int) ≤ (IntKind.unsigned w).max) (tail : Text)
    (htail : (g.run (.thenSkip (.unsigned w) (.char stop)) (.start tail)).Fails) (c : Cursor)
    (hc : c.rest = .ok (listed stop es ++ tail)) :
    ∃ d, c.Reads (listed stop es) d ∧ d.rest = .ok tail ∧
      g.run (.many (.thenSkip (.unsigned w) (.char stop))) c =
        .success (es.map fun e => (e.number : Int)) d ∧
      (es ≠ [] → g.run (.many1 (.thenSkip (.unsigned w) (.char stop))) c =
        .success (es.map fun e => (e.number : Int)) d) ∧
      (es = [] → (g.run (.many1 (.thenSkip (.unsigned w) (.char stop))) c).Fails) := by
  obtain ⟨u, rfl⟩ := Cursor.rest_eq_ok_iff.1 hc
  let ctx := g.context ((u ++ (listed stop es ++ tail)).length + 1)
  -- An item has neither rules nor repetitions, so that it is the same run in every context.
  have hfails : ((Parser.entry w stop).run ctx (.start tail)).Fails := htail
  have hchain : Run.Chain ((Parser.entry w stop).run ctx) (es.length + 1)
      (.past u (listed stop es ++ tail)) (es.map fun e => (e.number : Int))
      (.past (u ++ listed stop es) tail) := by
    refine Run.chain_flatMap (fun e _ => e.text_ne_nil stop) (fun e he u r => ?_)
      (Parser.fails_entry ctx hfails) u
    have hholds : (IntKind.unsigned w).Holds e.number := ⟨Int.natCast_nonneg _, hes e he⟩
    rw [Parser.run_entry ctx hstop hholds]
    rfl
  have hlimit : es.length + 1 ≤ ctx.limit := by
    have := length_le_length_listed stop es
    change es.length + 1 ≤ (u ++ (listed stop es ++ tail)).length + 1
    simp only [List.length_append]
    omega
  have hmany := hchain.repeatFrom_eq hlimit (Parser.notes_run_entry ctx)
  refine ⟨_, .past u _ tail, Cursor.rest_past _ _, hmany, fun hne => ?_, fun hnil => ?_⟩
  · have hfirst : ¬((Parser.entry w stop).run ctx (.past u (listed stop es ++ tail))).Fails :=
      fun hfails => hne (List.map_eq_nil_iff.1 (hchain.eq_nil_iff.2 hfails))
    exact (Run.repeatFrom1_of_not_fails hfirst _).trans hmany
  · obtain ⟨f, hf⟩ := hchain.eq_nil_iff.1 (List.map_eq_nil_iff.2 hnil)
    exact ⟨f, congrArg Run.result (Run.repeatFrom1_of_failure hf)⟩

/-- After two integers of eight bits, one that is out of range. -/
theorem Grammar.run_listed_above :
    let item : Parser .brackets Int := .thenSkip (.unsigned .w8) (.char 'é')
    let es : List Entry := [⟨2, 7⟩, ⟨0, 255⟩]
    let tail : Text := ['2', '5', '6', 'é']
    let c : Cursor := .past ['x'] (listed 'é' es ++ tail)
    (brackets.run item (.start tail)).Fails ∧ c.rest = .ok (listed 'é' es ++ tail) ∧
      ∃ d, d.rest = .ok tail ∧ brackets.run item.many c = .success [7, 255] d ∧
        brackets.run item.many1 c = .success [7, 255] d := by
  intro item es tail c
  have htail : (brackets.run item (.start tail)).Fails := by decide
  have hes : ∀ e ∈ es, (e.number : Int) ≤ (IntKind.unsigned .w8).max := by
    simp only [es, List.forall_mem_cons]
    exact ⟨by decide, by decide, List.forall_mem_nil _⟩
  obtain ⟨d, -, hd, hmany, hmany1, -⟩ := brackets.run_listed .w8 'é' (by decide) es hes tail htail c
    (Cursor.rest_past _ _)
  exact ⟨htail, Cursor.rest_past _ _, d, hd, hmany, hmany1 (List.cons_ne_nil _ _)⟩

end TextParsing
