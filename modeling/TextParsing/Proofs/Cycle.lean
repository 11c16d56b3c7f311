import Mathlib.Data.List.Infix
import Mathlib.Data.Set.Card
import Mathlib.Logic.Relation
import TextParsing.Proofs.Faultless
import TextParsing.Proofs.Repetition

/-!
# Repetitions that never end

A repetition ends where its step stands still, so that it need not move forward forever. But
a step of the caller's own may also go back in the text, and a step that goes back has not
stood still. If the repetition comes to a cursor where it was before, it goes on from there
as it did then, and so it never ends.

This is the only way not to end. There is one place more in a text than it has units, so a
repetition that stays on its text either comes back to one of them, or ends with no more
attempts than there are places (`StaysOn.exists_repeatFrom_eq`), which `Grammar.run` allows
for. If it comes back, it is unfinished for every limit (`StaysOn.repeatFrom_unfinished`).

Main statement: `Parser.many_ends_unless_comesBack`, for all parsers that come to an outcome
everywhere on the text and stay on it. A parser that goes back and is repeated forever is
`Parser.around`.
-/

namespace TextParsing

open Relation (ReflTransGen TransGen)

/-! ### Places -/

namespace Cursor

/-- The places in a text: the cursors between two of its units, and at its ends. -/
def places (t : Text) : Finset Cursor := (t.inits.map fun u => ⟨t, Text.byteLength u⟩).toFinset

theorem mem_places_iff {t : Text} {c : Cursor} : c ∈ places t ↔ c.source = t ∧ c.Valid := by
  rw [places, List.mem_toFinset, List.mem_map]
  constructor
  · rintro ⟨u, hu, rfl⟩
    obtain ⟨v, rfl⟩ := (List.mem_inits u t).1 hu
    exact ⟨rfl, valid_past u v⟩
  · rintro ⟨rfl, hc⟩
    obtain ⟨u, v, rfl⟩ := valid_iff.1 hc
    exact ⟨u, (List.mem_inits u _).2 (List.prefix_append u v), rfl⟩

theorem card_places_le (t : Text) : (places t).card ≤ t.length + 1 := by
  refine (List.toFinset_card_le _).trans ?_
  rw [List.length_map, List.length_inits]

end Cursor

namespace Run

variable {ν α : Type} {step : Cursor → Run ν α} {c d e : Cursor} {n : Nat} {vs : List α}

/-! ### Coming back -/

/-- From `c`, a repetition of the step goes on at `d`. -/
def Leads (step : Cursor → Run ν α) (c d : Cursor) : Prop :=
  d ≠ c ∧ ∃ v, (step c).result = .ok (.success v d)

/-- The cursors that a repetition of the step comes to, from `c` on. -/
def reached (step : Cursor → Run ν α) (c : Cursor) : Set Cursor :=
  {d | ReflTransGen (Leads step) c d}

/-- From `c` on, a repetition of the step comes to a cursor that it later comes to again. -/
def ComesBack (step : Cursor → Run ν α) (c : Cursor) : Prop :=
  ∃ d ∈ reached step c, TransGen (Leads step) d d

theorem ComesBack.head (hcd : Leads step c d) (h : ComesBack step d) : ComesBack step c := by
  obtain ⟨e, hde, hee⟩ := h
  exact ⟨e, hde.head hcd, hee⟩

/-- A success leads on, unless the step stood still; and a failure does not. -/
theorem Chain.tail (h : Chain step n c vs e) (hcd : Leads step c d) :
    ∃ m ws, n = m + 1 ∧ Chain step m d ws e := by
  obtain ⟨hne, v, hv⟩ := hcd
  cases h with
  | failed h =>
    obtain ⟨f, hf⟩ := h
    rw [hv] at hf
    cases hf
  | stalled h =>
    rw [hv] at h
    cases h
    exact absurd rfl hne
  | moved h hne' hrest =>
    rw [hv] at h
    cases h
    exact ⟨_, _, rfl, hrest⟩

/-- Each step that leads on leaves a shorter chain. -/
theorem Chain.of_transGen (h : Chain step n c vs e) (hcd : TransGen (Leads step) c d) :
    ∃ m < n, ∃ ws, Chain step m d ws e := by
  induction hcd with
  | single hcd =>
    obtain ⟨m, ws, rfl, hrest⟩ := h.tail hcd
    exact ⟨m, Nat.lt_succ_self m, ws, hrest⟩
  | tail _ hde ih =>
    obtain ⟨m, hm, ws, hrest⟩ := ih
    obtain ⟨k, xs, rfl, hlater⟩ := hrest.tail hde
    exact ⟨k, Nat.lt_of_succ_lt hm, xs, hlater⟩

theorem Chain.not_transGen (h : Chain step n c vs e) : ¬ TransGen (Leads step) c c := by
  induction n using Nat.strongRecOn generalizing vs with
  | ind n ih =>
    intro hcc
    obtain ⟨m, hm, ws, hrest⟩ := h.of_transGen hcc
    exact ih m hm hrest hcc

theorem Chain.not_comesBack (h : Chain step n c vs e) : ¬ ComesBack step c := by
  rintro ⟨d, hcd, hdd⟩
  rcases Relation.reflTransGen_iff_eq_or_transGen.1 hcd with rfl | hcd
  · exact h.not_transGen hdd
  · obtain ⟨m, -, ws, hrest⟩ := h.of_transGen hcd
    exact hrest.not_transGen hdd

/-! ### Steps that stay on a text -/

/-- Everywhere on the text the step comes to an outcome, and if it succeeds, it does so
    somewhere on the text, be it further on or further back. -/
def StaysOn (step : Cursor → Run ν α) (t : Text) : Prop :=
  ∀ c ∈ Cursor.places t, ∃ o, (step c).result = .ok o ∧
    ∀ v d, o = .success v d → d ∈ Cursor.places t

variable {t : Text} (hstep : StaysOn step t)

include hstep

theorem StaysOn.mem_places (hc : c ∈ Cursor.places t) (hcd : Leads step c d) :
    d ∈ Cursor.places t := by
  obtain ⟨-, v, hv⟩ := hcd
  obtain ⟨o, ho, hplace⟩ := hstep c hc
  rw [hv] at ho
  exact hplace v d (Except.ok.inj ho).symm

theorem StaysOn.reached_subset (hc : c ∈ Cursor.places t) :
    reached step c ⊆ (Cursor.places t : Set Cursor) := by
  intro d (hcd : ReflTransGen (Leads step) c d)
  induction hcd with
  | refl => exact hc
  | tail _ hde ih => exact hstep.mem_places ih hde

theorem StaysOn.finite_reached (hc : c ∈ Cursor.places t) : (reached step c).Finite :=
  (Cursor.places t).finite_toSet.subset (hstep.reached_subset hc)

/-- If a repetition does not come back, its chain has at most one attempt for each cursor that
    it comes to. -/
theorem StaysOn.exists_chain (hc : c ∈ Cursor.places t) (hback : ¬ ComesBack step c) :
    ∃ n ≤ (reached step c).ncard, ∃ vs e, Chain step n c vs e := by
  -- With each step that leads on there are fewer cursors to come to: the last one is lost.
  induction hk : (reached step c).ncard using Nat.strongRecOn generalizing c with
  | ind k ih =>
    subst hk
    have hfinite := hstep.finite_reached hc
    have hpos : 1 ≤ (reached step c).ncard := (Set.ncard_pos hfinite).2 ⟨c, ReflTransGen.refl⟩
    obtain ⟨o, ho, hplace⟩ := hstep c hc
    cases o with
    | failure f => exact ⟨1, hpos, [], c, .failed ⟨f, ho⟩⟩
    | success v d =>
      by_cases hd : d = c
      · subst hd
        exact ⟨1, hpos, [v], d, .stalled ho⟩
      · have hcd : Leads step c d := ⟨hd, v, ho⟩
        have hlost : reached step d ⊂ reached step c := by
          refine ⟨fun e hde => ReflTransGen.head hcd hde, fun hsub => hback ?_⟩
          exact ⟨c, ReflTransGen.refl, TransGen.head' hcd (hsub ReflTransGen.refl)⟩
        have hlt := Set.ncard_lt_ncard hlost hfinite
        obtain ⟨n, hn, vs, e, hrest⟩ :=
          ih _ hlt (hplace v d rfl) (mt (ComesBack.head hcd) hback) rfl
        exact ⟨n + 1, Nat.lt_of_le_of_lt hn hlt, v :: vs, e, .moved ho hd hrest⟩

/-- If a repetition does not come back, it ends with no more attempts than there are places. -/
theorem StaysOn.exists_repeatFrom_eq (hc : c ∈ Cursor.places t) (hback : ¬ ComesBack step c)
    {limit : Nat} (hlimit : t.length < limit) : ∃ o, (repeatFrom step limit c).result = .ok o := by
  obtain ⟨n, hn, vs, e, hchain⟩ := hstep.exists_chain hc hback
  have hreached := Set.ncard_le_ncard (hstep.reached_subset hc)
  rw [Set.ncard_coe_finset] at hreached
  have hplaces : n ≤ t.length + 1 := hn.trans (hreached.trans (Cursor.card_places_le t))
  exact ⟨_, repeatFrom_eq_ok_iff.2 ⟨n, vs, e, hplaces.trans hlimit, rfl, hchain⟩⟩

/-- On a text, a repetition does not come to a fault. -/
theorem StaysOn.safe_repeatFrom (hc : c ∈ Cursor.places t) (limit : Nat) :
    (repeatFrom step limit c).Safe fun _ => True := by
  induction limit generalizing c with
  | zero => exact .unfinished _
  | succ limit ih =>
    obtain ⟨o, ho, hplace⟩ := hstep c hc
    rw [repeatFrom]
    cases o with
    | failure f =>
      rw [elim_of_failure _ _ ho]
      exact .after _ (.success trivial)
    | success v d =>
      rw [elim_of_success _ _ ho]
      refine .after _ ?_
      split
      · exact .success trivial
      · exact (ih (hplace v d rfl)).map (fun _ _ _ => trivial) fun _ _ => trivial

/-- If a repetition comes back, it is unfinished, whatever the limit is. -/
theorem StaysOn.repeatFrom_unfinished (hc : c ∈ Cursor.places t) (hback : ComesBack step c)
    (limit : Nat) : (repeatFrom step limit c).result = .error .unfinished := by
  have hfault := (hstep.safe_repeatFrom hc limit).faultless
  rcases hresult : (repeatFrom step limit c).result with (e | _) | o
  · exact absurd hresult (hfault e)
  · rfl
  · obtain ⟨n, vs, d, -, -, hchain⟩ := repeatFrom_eq_ok_iff.1 hresult
    exact absurd hback hchain.not_comesBack

omit hstep in
theorem ComesBack.not_fails (h : ComesBack step c) : ¬ (step c).Fails :=
  fun hf => (Chain.failed hf).not_comesBack h

end Run

/-! ### Parsers -/

namespace Parser

variable {S : Signature} {α : Type}

theorem unfinished_of_comesBack {ctx : Context S} {p : Parser S α} {t : Text}
    (hp : Run.StaysOn (p.run ctx) t) {c : Cursor} (hc : c ∈ Cursor.places t)
    (hback : Run.ComesBack (p.run ctx) c) :
    ((many p).run ctx c).result = .error .unfinished ∧
      ((many1 p).run ctx c).result = .error .unfinished := by
  have hmany := hp.repeatFrom_unfinished hc hback ctx.limit
  rw [run, run, Run.repeatFrom1_of_not_fails hback.not_fails]
  exact ⟨hmany, hmany⟩

/-- Let the parser come to an outcome everywhere on a text, and stay on it. Its repetition
    ends, with no more attempts than there are places in the text, unless it comes back to a
    place where it was before; and in that case it does not end for any limit. It is the same
    if the repetition has to succeed once. -/
theorem many_ends_unless_comesBack (ctx : Context S) (p : Parser S α) (t : Text)
    (hp : Run.StaysOn (p.run ctx) t) (c : Cursor) (hc : c ∈ Cursor.places t) :
    (¬ Run.ComesBack (p.run ctx) c → t.length < ctx.limit →
      (∃ o, ((many p).run ctx c).result = .ok o) ∧
      ∃ o, ((many1 p).run ctx c).result = .ok o) ∧
    (Run.ComesBack (p.run ctx) c →
      ((many p).run ctx c).result = .error .unfinished ∧
      ((many1 p).run ctx c).result = .error .unfinished) := by
  refine ⟨fun hback hlimit => ?_, unfinished_of_comesBack hp hc⟩
  have hmany := hp.exists_repeatFrom_eq hc hback hlimit
  refine ⟨hmany, ?_⟩
  rw [run]
  by_cases hfails : (p.run ctx c).Fails
  · obtain ⟨f, hf⟩ := hfails
    refine ⟨.failure f, ?_⟩
    rw [← Nat.sub_add_cancel (Nat.zero_lt_of_lt hlimit), Run.repeatFrom1_of_failure hf]
    rfl
  · rw [Run.repeatFrom1_of_not_fails hfails]
    exact hmany

/-- A step that goes back need not come back: here the second attempt stands still, at the
    start of the text. -/
theorem many_ends_unless_comesBack_rewind :
    let rewind : Parser .brackets Unit := .ofStep fun _ c => .success () (.start c.source)
    let ctx := Grammar.brackets.context 2
    let c : Cursor := ⟨['a'], 1⟩
    ((many rewind).run ctx c).result = .ok (.success [(), ()] (.start ['a'])) ∧
      Run.StaysOn (rewind.run ctx) ['a'] ∧ c ∈ Cursor.places ['a'] ∧
      ¬ Run.ComesBack (rewind.run ctx) c ∧ ['a'].length < ctx.limit ∧
      (∃ o, ((many rewind).run ctx c).result = .ok o) ∧
      ∃ o, ((many1 rewind).run ctx c).result = .ok o := by
  intro rewind ctx c
  have hp : Run.StaysOn (rewind.run ctx) ['a'] := by
    intro d hd
    obtain ⟨hsource, -⟩ := Cursor.mem_places_iff.1 hd
    refine ⟨.success () (.start d.source), rfl, fun v e he => ?_⟩
    obtain ⟨-, rfl⟩ := Outcome.success.inj he
    exact Cursor.mem_places_iff.2 ⟨hsource, Text.IsBoundary.zero _⟩
  have hc : c ∈ Cursor.places ['a'] := Cursor.mem_places_iff.2 ⟨rfl, by decide⟩
  have hchain : Run.Chain (rewind.run ctx) 2 c [(), ()] (.start ['a']) :=
    .moved rfl (by decide) (.stalled rfl)
  have hback := hchain.not_comesBack
  have hends := many_ends_unless_comesBack ctx rewind ['a'] hp c hc
  exact ⟨rfl, hp, hc, hback, by decide, hends.1 hback (by decide)⟩

/-! ### A parser that goes around -/

/-- One unit; but at the end, back to the start of the text. -/
def around : Parser .brackets Unit := .orElse
  (.ofStep fun _ c => if c.atEnd then .success () (.start c.source) else .failure (.of "end" c))
  (.skip (fun _ => true) "unit")

theorem staysOn_around (ctx : Context .brackets) (t : Text) :
    Run.StaysOn (around.run ctx) t := by
  intro c hc
  obtain ⟨rfl, hvalid⟩ := Cursor.mem_places_iff.1 hc
  obtain ⟨u, r, rfl⟩ := Cursor.valid_iff.1 hvalid
  rw [around, run, ofStep, run]
  cases r with
  | nil =>
    rw [if_pos ((Cursor.atEnd_past u []).2 rfl)]
    refine ⟨.success () (.start (u ++ [])), rfl, fun v d hd => ?_⟩
    obtain ⟨-, rfl⟩ := Outcome.success.inj hd
    exact Cursor.mem_places_iff.2 ⟨rfl, Text.IsBoundary.zero _⟩
  | cons x w =>
    have hend : ¬ (Cursor.past u (x :: w)).atEnd = true :=
      mt (Cursor.atEnd_past u (x :: w)).1 (List.cons_ne_nil x w)
    rw [if_neg hend, Run.orElse, Run.elim_failure, skip, run, Primitive.run_skip]
    refine ⟨.success () (.past (u ++ [x]) w), rfl, fun v d hd => ?_⟩
    obtain ⟨-, rfl⟩ := Outcome.success.inj hd
    exact Cursor.mem_places_iff.2 ⟨by simp [Cursor.past], Cursor.valid_past _ _⟩

theorem comesBack_around (ctx : Context .brackets) :
    Run.ComesBack (around.run ctx) (.start ['a']) := by
  have hforth : Run.Leads (around.run ctx) (.start ['a']) ⟨['a'], 1⟩ := ⟨by decide, (), rfl⟩
  have hback : Run.Leads (around.run ctx) ⟨['a'], 1⟩ (.start ['a']) := ⟨by decide, (), rfl⟩
  exact ⟨.start ['a'], ReflTransGen.refl, .tail (.single hforth) hback⟩

/-- All runs of the parser on the text end, but no repetition of it does, whatever the
    limit. -/
theorem many_around_unfinished :
    (∀ ctx, Run.StaysOn (around.run ctx) ['a']) ∧
      ∀ ctx, ((many around).run ctx (.start ['a'])).result = .error .unfinished ∧
        ((many1 around).run ctx (.start ['a'])).result = .error .unfinished := by
  refine ⟨fun ctx => staysOn_around ctx ['a'], fun ctx => ?_⟩
  have hc : Cursor.start ['a'] ∈ Cursor.places ['a'] := Cursor.mem_places_iff.2 ⟨rfl, by decide⟩
  exact unfinished_of_comesBack (staysOn_around ctx ['a']) hc (comesBack_around ctx)

end Parser

end TextParsing
