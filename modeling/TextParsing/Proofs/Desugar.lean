import Mathlib.Data.List.TakeWhile
import TextParsing.Proofs.Primitive
import TextParsing.Proofs.Visits

/-!
# A smaller language

Many parsers are abbreviations. Each of them can be written with fewer primitives, and with
`bind` in the place of the other ways to put parsers in sequence. `Parser.desugar` writes
out all of them at once, everywhere in a parser and in the parsers that its continuations
choose:

* `map`, `andThen`, `thenSkip` and `apply` become `bind`, with a `succeed` at the end where
  the value is not that of the last parser;
* the parsers of one unit become `satisfyWith`, and `take` becomes `takeWith`;
* `takeText`, `takeWhile1` and `unsigned` become `takeWhile`, and a test of what was taken;
  `scan` becomes `runScanner` without the last state.

What an abbreviation stands for may itself use one, so that a second pass is needed to get
rid of all of them; then only a few parsers are left (`Parser.IsCore`). The parsers `char`,
`takeIf`, `takeTill` and `takeTillChar` are defined by others to begin with.

Main statement: `Grammar.run_bounded_desugar`. A parser and what it abbreviates do the same
at every cursor: the same value or the same label, at the same cursor, with the same notes.
The functions behind the two are not the same. In particular, a test that comes after what
was taken fails at the cursor where it is made, which has to be the one that the
abbreviation fails at.
-/

namespace TextParsing

variable {S : Signature} {α : Type}

/-! ### Writing out -/

/-- What a primitive stands for. The values that are put in have no text to show. -/
def Primitive.desugar : {α : Type} → Primitive α → Parser S α
  | _, satisfy test label => .satisfyWith id test label
  | _, skip test label => .bind (.satisfy test label) fun _ => .succeed () ""
  | _, anyChar => .satisfy (fun _ => true) "anyChar"
  | _, take count label => .takeWith count id (fun _ => true) label
  | _, takeWhile1 test => .bind (.takeWhile test) fun t =>
      if t.isEmpty then .fail "tailWhile1" else .succeed t ""
  | _, takeText => .takeWhile fun _ => true
  | _, scan initial step written => .map (.runScanner initial step written) Prod.fst
  | _, unsigned w => .bind (.takeWhile1 Text.isDigit) fun digits =>
      match toUnsigned w digits with
      | .ok (some n) => .succeed n ""
      | _ => .fail (IntKind.unsigned w).label
  | _, p => .primitive p

/-- What a parser stands for. -/
def Parser.desugar : {α : Type} → Parser S α → Parser S α
  | _, primitive p => p.desugar
  | _, bind p k => bind p.desugar fun v => (k v).desugar
  | _, map p f => bind p.desugar fun v => succeed (f v) ""
  | _, apply pf pa => bind pf.desugar fun f => bind pa.desugar fun a => succeed (f a) ""
  | _, orElse p q => orElse p.desugar q.desugar
  | _, andThen p q => bind p.desugar fun _ => q.desugar
  | _, thenSkip p q => bind p.desugar fun v => bind q.desugar fun _ => succeed v ""
  | _, many p => many p.desugar
  | _, many1 p => many1 p.desugar
  | _, inspect p tag view => inspect p.desugar tag view
  | _, tell tag seen p => tell tag seen p.desugar
  | _, custom description step => custom description step

/-- The grammar with all its rules written out. -/
def Grammar.desugar (g : Grammar S) : Grammar S where
  rule r := (g.rule r).desugar

/-! ### The primitives -/

namespace Primitive

variable (ctx : Context S) (c : Cursor)

theorem run_desugar_skip (test : Char → Bool) (label : String) :
    ((skip test label).desugar : Parser S Unit).run ctx c =
      .ofChecked ((skip test label).run c) := by
  rw [desugar, Parser.run, Parser.satisfy, Parser.run, run, run]
  rcases c.value with e | (_ | u)
  · rfl
  · rfl
  · by_cases hu : test u
    · simp only [Checked.ok_bind, if_pos hu]
      rcases c.next with e | d <;> rfl
    · simp only [Checked.ok_bind, if_neg hu]
      rfl

/-- If nothing is taken, the cursor has not moved, and the test after it fails where the
    whole does. -/
theorem run_desugar_takeWhile1 (test : Char → Bool) :
    ((takeWhile1 test).desugar : Parser S Text).run ctx c =
      .ofChecked ((takeWhile1 test).run c) := by
  rw [desugar, Parser.run, Parser.takeWhile, Parser.run, run, run]
  rcases hr : c.rest with e | r
  · rw [runTakeWhile, runTakeWhile1, Cursor.advanceWhile, hr]
    rfl
  · obtain ⟨u, rfl⟩ := Cursor.rest_eq_ok_iff.1 hr
    rw [← run, run_takeWhile, runTakeWhile1_past]
    -- The test comes after the success of what was taken.
    change Parser.run ctx (if (r.takeWhile test).isEmpty then .fail "tailWhile1"
      else .succeed (r.takeWhile test) "") _ = _
    by_cases ht : r.takeWhile test = []
    · have hsplit := List.takeWhile_append_dropWhile (p := test) (l := r)
      rw [ht, List.nil_append] at hsplit
      rw [if_pos ht, ht, hsplit, List.append_nil]
      rfl
    · rw [if_neg ht, if_neg (mt List.isEmpty_iff.1 ht)]
      rfl

theorem run_desugar_takeText :
    (takeText.desugar : Parser S Text).run ctx c = .ofChecked (takeText.run c) := by
  rw [desugar, Parser.takeWhile, Parser.run]
  rcases hr : c.rest with e | r
  · rw [run, run, runTakeWhile, Cursor.advanceWhile, hr]
    rfl
  · obtain ⟨u, rfl⟩ := Cursor.rest_eq_ok_iff.1 hr
    have hall : ∀ x ∈ r, (fun _ : Char => true) x = true := fun _ _ => rfl
    have htake := List.takeWhile_eq_self_iff.2 hall
    have hdrop := List.dropWhile_eq_nil_iff.2 hall
    rw [run_takeWhile, run_takeText, htake, hdrop]

theorem run_desugar_scan {σ : Type} (initial : σ) (step : σ → Char → Option σ)
    (written : String) :
    ((scan initial step written).desugar : Parser S Text).run ctx c =
      .ofChecked ((scan initial step written).run c) := by
  rw [desugar, Parser.run, Parser.runScanner, Parser.run, run, run]
  rcases runScan initial step c with e | ⟨t, s, d⟩ <;> rfl

/-- A number that is out of range fails after its digits, where the test is made. -/
theorem run_desugar_unsigned (w : Width) :
    ((unsigned w).desugar : Parser S Int).run ctx c = .ofChecked ((unsigned w).run c) := by
  rw [desugar, Parser.run, Parser.takeWhile1, Parser.run, run, run, runUnsigned]
  rcases runTakeWhile1 Text.isDigit c with e | (⟨digits, d⟩ | f)
  · rfl
  · obtain ⟨n, hn⟩ : ∃ n, toUnsigned w digits = .ok n := ⟨_, toUnsigned_eq w digits⟩
    change Parser.run ctx (match toUnsigned w digits with
      | .ok (some n) => .succeed n ""
      | _ => .fail (IntKind.unsigned w).label) d = _
    simp only [hn, Checked.ok_bind]
    cases n <;> rfl
  · rfl

theorem run_desugar (p : Primitive α) :
    (p.desugar : Parser S α).run ctx c = .ofChecked (p.run c) := by
  cases p with
  | skip test label => exact run_desugar_skip ctx c test label
  | takeWhile1 test => exact run_desugar_takeWhile1 ctx c test
  | takeText => exact run_desugar_takeText ctx c
  | scan initial step written => exact run_desugar_scan ctx c initial step written
  | unsigned w => exact run_desugar_unsigned ctx c w
  | _ => rfl

end Primitive

/-! ### All parsers -/

theorem Parser.run_desugar (ctx : Context S) (p : Parser S α) (c : Cursor) :
    p.desugar.run ctx c = p.run ctx c := by
  induction p generalizing c with
  | primitive p => exact p.run_desugar ctx c
  | bind p k ihp ihk =>
    rw [desugar, run, run, ihp]
    exact congrArg _ (funext fun v => funext fun d => ihk v d)
  | map p f ih =>
    -- To go on with a success at once is to apply a function.
    rw [desugar, run, run, ih]
    rfl
  | apply pf pa ihf iha =>
    rw [desugar, run, run, ihf]
    refine congrArg _ (funext fun f => funext fun d => ?_)
    rw [run, iha]
    rfl
  | orElse p q ihp ihq => rw [desugar, run, run, ihp, ihq]
  | andThen p q ihp ihq =>
    rw [desugar, run, run, ihp]
    exact congrArg _ (funext fun _ => funext fun d => ihq d)
  | thenSkip p q ihp ihq =>
    rw [desugar, run, run, ihp]
    refine congrArg _ (funext fun v => funext fun d => ?_)
    rw [run, ihq]
    rfl
  | many p ih => rw [desugar, run, run, funext ih]
  | many1 p ih => rw [desugar, run, run, funext ih]
  | inspect p tag view ih => rw [desugar, run, run, ih]
  | tell tag seen p ih => rw [desugar, run, run, ih]
  | custom description step => rfl

/-! ### What is left -/

/-- The primitives that the others are written with. -/
def Primitive.IsCore : {α : Type} → Primitive α → Prop
  | _, satisfyWith _ _ _ => True
  | _, takeWith _ _ _ _ => True
  | _, literal _ => True
  | _, takeWhile _ => True
  | _, runScanner _ _ _ => True
  | _, signed _ => True
  | _, double => True
  | _, succeed _ _ => True
  | _, fail _ => True
  | _, _ => False

/-- The parsers that the others are written with. -/
def Parser.IsCore : Parser S α → Prop
  | primitive p => p.IsCore
  | map _ _ => False
  | apply _ _ => False
  | andThen _ _ => False
  | thenSkip _ _ => False
  | _ => True

theorem Primitive.everyPart_isCore_desugar (p : Primitive α) :
    (p.desugar.desugar : Parser S α).EveryPart fun _ q => q.IsCore := by
  cases p with
  | skip test label => exact ⟨trivial, trivial, fun _ => trivial⟩
  | takeWhile1 test =>
    refine ⟨trivial, trivial, fun t => ?_⟩
    cases t <;> trivial
  | scan initial step written => exact ⟨trivial, trivial, fun _ => trivial⟩
  | unsigned w =>
    refine ⟨trivial, ⟨trivial, trivial, fun t => ?_⟩, fun digits => ?_⟩
    · cases t <;> trivial
    · dsimp only
      split <;> trivial
  | _ => trivial

theorem Parser.everyPart_isCore_desugar (p : Parser S α) :
    p.desugar.desugar.EveryPart fun _ q => q.IsCore := by
  induction p with
  | primitive p => exact p.everyPart_isCore_desugar
  | bind p k ihp ihk => exact ⟨trivial, ihp, ihk⟩
  | map p f ih => exact ⟨trivial, ih, fun _ => trivial⟩
  | apply pf pa ihf iha => exact ⟨trivial, ihf, fun _ => ⟨trivial, iha, fun _ => trivial⟩⟩
  | orElse p q ihp ihq => exact ⟨trivial, ihp, ihq⟩
  | andThen p q ihp ihq => exact ⟨trivial, ihp, fun _ => ihq⟩
  | thenSkip p q ihp ihq => exact ⟨trivial, ihp, fun _ => ⟨trivial, ihq, fun _ => trivial⟩⟩
  | many p ih => exact ⟨trivial, ih⟩
  | many1 p ih => exact ⟨trivial, ih⟩
  | inspect p tag view ih => exact ⟨trivial, ih⟩
  | tell tag seen p ih => exact ⟨trivial, ih⟩
  | custom description step => trivial

/-! ### Over a grammar -/

namespace Grammar

theorem call_desugar (g : Grammar S) (limit depth : Nat) :
    g.desugar.call limit depth = g.call limit depth := by
  induction depth with
  | zero => rfl
  | succ depth ih =>
    funext r c
    rw [call, call, ih]
    exact (g.rule r).run_desugar _ c

/-- Writing out a parser, and the rules, changes nothing: at every cursor, the run of what
    the parser stands for is that of the parser, with the same outcome and the same notes.
    After a second pass, no part of the parser is an abbreviation. -/
theorem run_bounded_desugar (g : Grammar S) (p : Parser S α) (limit depth : Nat) (c : Cursor) :
    p.desugar.run (g.desugar.bounded limit depth) c = p.run (g.bounded limit depth) c ∧
      p.desugar.desugar.EveryPart fun _ q => q.IsCore := by
  refine ⟨?_, p.everyPart_isCore_desugar⟩
  rw [bounded, g.call_desugar]
  exact p.run_desugar _ c

end Grammar

end TextParsing
