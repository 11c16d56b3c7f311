import Mathlib.Data.List.Forall2
import TextParsing.Parser
import TextParsing.Proofs.Primitive
import TextParsing.Proofs.Run

/-!
# Scanners

A scanner folds its step over the unread units, from its initial state on, for as long as
the step gives a new state. It takes the units that the fold has gone through, neither more
nor fewer: the step has given a state for each of them, and for the unit after them it gives
none (`Text.IsScan`, and at a cursor `Cursor.Scans`). At every valid cursor there is exactly
one text like this, with one last state and one place where it ends (`Cursor.exists_scans`,
`Cursor.Scans.unique`).

The initial state belongs to the scanner, and not to a run of it. So each run starts from
there, wherever the same scanner has been run before, and whatever state it came to.

Main statement: `Parser.scanner_exact`.
-/

namespace TextParsing

open Text

variable {σ : Type} {step : σ → Char → Option σ} {initial final final' : σ} {a a' : Text}

/-! ### What a scanner takes at a cursor -/

namespace Cursor

variable {c d d' : Cursor}

/-- From `c`, a scanner takes `a` up to `d`, and comes to the state `final`. -/
def Scans (c : Cursor) (step : σ → Char → Option σ) (initial : σ) (a : Text) (final : σ)
    (d : Cursor) : Prop :=
  ∃ b, c.rest = .ok (a ++ b) ∧ c.Reads a d ∧ d.rest = .ok b ∧ IsScan step initial a b final

theorem scans_iff : c.Scans step initial a final d ↔
    ∃ u b, c = past u (a ++ b) ∧ d = past (u ++ a) b ∧ IsScan step initial a b final := by
  constructor
  · rintro ⟨b, -, ⟨u, b', rfl, rfl⟩, hd, hscan⟩
    obtain rfl : b' = b := Except.ok.inj ((rest_past _ _).symm.trans hd)
    exact ⟨u, b', rfl, rfl, hscan⟩
  · rintro ⟨u, b, rfl, rfl, hscan⟩
    exact ⟨b, rest_past _ _, .past u a b, rest_past _ _, hscan⟩

theorem exists_scans (step : σ → Char → Option σ) (initial : σ) (hc : c.Valid) :
    ∃ a final d, c.Scans step initial a final d := by
  obtain ⟨u, r, rfl⟩ := valid_iff.1 hc
  obtain ⟨a, b, final, rfl, hscan⟩ := exists_isScan step initial r
  exact ⟨a, final, past (u ++ a) b, scans_iff.2 ⟨u, b, rfl, rfl, hscan⟩⟩

theorem Scans.unique (h : c.Scans step initial a final d)
    (h' : c.Scans step initial a' final' d') : a' = a ∧ final' = final ∧ d' = d := by
  obtain ⟨b, hc, hreads, -, hscan⟩ := h
  obtain ⟨b', hc', hreads', -, hscan'⟩ := h'
  obtain ⟨rfl, -, rfl⟩ := hscan.unique hscan' (Except.ok.inj (hc.symm.trans hc'))
  exact ⟨rfl, rfl, hreads.unique hreads'⟩

end Cursor

/-! ### The parsers -/

namespace Parser

variable {S : Signature} (ctx : Context S) {c d : Cursor} (written : String)

theorem run_runScanner (h : c.Scans step initial a final d) :
    (runScanner initial step written).run ctx c = .success (a, final) d := by
  obtain ⟨u, b, rfl, rfl, hscan⟩ := Cursor.scans_iff.1 h
  rw [runScanner, run, Primitive.run, Primitive.runScan_past u hscan]
  rfl

theorem run_scan (h : c.Scans step initial a final d) :
    (scan initial step written).run ctx c = .success a d := by
  obtain ⟨u, b, rfl, rfl, hscan⟩ := Cursor.scans_iff.1 h
  rw [scan, run, Primitive.run, Primitive.runScan_past u hscan]
  rfl

/-- A scanner succeeds at every valid cursor. It takes the start of the unread text that its step
    goes through from the initial state, up to the first unit without a next state, and gives
    the last state beside it; no other start and no other state are like this. If only the
    text is asked for, it is the same text, up to the same cursor. And one scanner that is run
    at cursor after cursor starts from its initial state at each of them. -/
theorem scanner_exact (initial : σ) (step : σ → Char → Option σ) :
    (∀ c : Cursor, c.Valid → ∃ a final d, c.Scans step initial a final d ∧
      (runScanner initial step written).run ctx c = .success (a, final) d ∧
      (scan initial step written).run ctx c = .success a d ∧
      ∀ a' final' d', c.Scans step initial a' final' d' → a' = a ∧ final' = final ∧ d' = d) ∧
    ∀ cs : List Cursor, (∀ c ∈ cs, c.Valid) →
      List.Forall₂ (fun c r => ∃ a final d,
          c.Scans step initial a final d ∧ r = Run.success (a, final) d)
        cs (cs.map ((runScanner initial step written).run ctx)) := by
  refine ⟨fun c hc => ?_, fun cs hcs => ?_⟩
  · obtain ⟨a, final, d, hscan⟩ := Cursor.exists_scans step initial hc
    exact ⟨a, final, d, hscan, run_runScanner ctx written hscan, run_scan ctx written hscan,
      fun _ _ _ => hscan.unique⟩
  · rw [List.forall₂_map_right_iff, List.forall₂_same]
    intro c hc
    obtain ⟨a, final, d, hscan⟩ := Cursor.exists_scans step initial (hcs c hc)
    exact ⟨a, final, d, hscan, run_runScanner ctx written hscan⟩

/-- The body of a quoted text, in which a backslash escapes the unit after it. -/
theorem scanner_exact_quoted :
    let ctx : Context ⟨0, nofun, Unit, Unit⟩ := ⟨nofun, 0⟩
    let body : Bool → Char → Option Bool := fun escaped x =>
      if escaped then some false else if x = '"' then none else some (x == '\\')
    let c : Cursor := .past ['é'] ['\\', '"', 'ü', '"', '"']
    let d : Cursor := .past ['é', '\\', '"', 'ü'] ['"', '"']
    c.Valid ∧ c.Scans body false ['\\', '"', 'ü'] false d ∧
      (runScanner false body "false").run ctx c = .success (['\\', '"', 'ü'], false) d ∧
      (scan false body "false").run ctx c = .success ['\\', '"', 'ü'] d ∧
      List.Forall₂ (fun c r => ∃ a final d,
          c.Scans body false a final d ∧ r = Run.success (a, final) d)
        [c, d, c] ([c, d, c].map ((runScanner false body "false").run ctx)) := by
  intro ctx body c d
  have hc : c.Valid := Cursor.valid_past _ _
  have hd : d.Valid := Cursor.valid_past _ _
  have hall : ∀ e ∈ [c, d, c], e.Valid := by
    simp only [List.forall_mem_cons]
    exact ⟨hc, hd, hc, List.forall_mem_nil _⟩
  have hscan : c.Scans body false ['\\', '"', 'ü'] false d := by
    refine Cursor.scans_iff.2 ⟨['é'], ['"', '"'], rfl, rfl, rfl, fun x hx => ?_⟩
    obtain rfl := Option.some.inj hx
    rfl
  obtain ⟨hone, hmany⟩ := scanner_exact ctx "false" false body
  obtain ⟨a, final, e, -, hrun, htext, hunique⟩ := hone c hc
  obtain ⟨rfl, rfl, rfl⟩ := hunique _ _ _ hscan
  exact ⟨hc, hscan, hrun, htext, hmany [c, d, c] hall⟩

end Parser

end TextParsing
