import TextParsing.Proofs.Choice

/-!
# Left factoring

Alternatives that begin with one and the same parser can be factored: the parser is run
once, in front, and the choice is made after it. The two forms go different ways. The choice
comes back to its own start after each alternative in vain, and runs the common parser again;
the factored form comes back to the end of the common parser only. They come to the same
all the same, as the second run of a parser at a cursor is like the first.

What tells them apart are the notes. The choice makes those of the common parser again with
each alternative, so that the notes of the factored form are found among its own
(`Run.Echoes`).

For two alternatives this is a law of runs (`Run.echoes_andThen_orElse`), and for more of them
it follows by induction (`Choice.echoes_inOrder`), for every way to go on after the common
parser. Main statement: `Choice.echoes_factored`, which is about alternatives chosen by the value of
the common parser, and about alternatives that do without it.
-/

namespace TextParsing

variable {S : Signature} {ν α β : Type}

/-! ### Runs that do more than once what others do -/

namespace Run

/-- The run `r` comes to what `s` comes to, and makes the notes of `s` in their order, with
    others between them. -/
structure Echoes (r s : Run ν α) : Prop where
  result : r.result = s.result
  notes : s.notes.Sublist r.notes

namespace Echoes

variable {r r' s s' : Run ν α}

theorem refl (r : Run ν α) : r.Echoes r := ⟨rfl, .refl _⟩

theorem trans (h : r.Echoes s) (h' : s.Echoes s') : r.Echoes s' :=
  ⟨h.result.trans h'.result, h'.notes.trans h.notes⟩

/-- Notes in front of the one are among those in front of the other. -/
theorem after {ms ns : List ν} (h : r.Echoes s) (hns : ns.Sublist ms) :
    (r.after ms).Echoes (s.after ns) :=
  ⟨h.result, hns.append h.notes⟩

theorem after_left (h : r.Echoes s) (ms : List ν) : (r.after ms).Echoes s :=
  h.after (List.nil_sublist ms)

theorem fails_iff (h : r.Echoes s) : r.Fails ↔ s.Fails := by
  rw [Fails, Fails, h.result]

theorem orElse (h : r.Echoes s) (h' : r'.Echoes s') :
    (r.orElse fun _ => r').Echoes (s.orElse fun _ => s') := by
  by_cases hs : s.Fails
  · obtain ⟨f, hf⟩ := hs
    rw [Run.orElse, Run.orElse, elim_of_failure _ _ (h.result.trans hf), elim_of_failure _ _ hf]
    exact h'.after h.notes
  · rw [orElse_of_not_fails _ (mt h.fails_iff.1 hs), orElse_of_not_fails _ hs]
    exact h

end Echoes

/-- Two ways to go on after a run: it is all the same whether the second one starts over or
    goes on from where the run has ended. -/
theorem echoes_andThen_orElse (r : Run ν α) (k k' : α → Cursor → Run ν β) :
    ((r.andThen k).orElse fun _ => r.andThen k').Echoes
      (r.andThen fun v d => (k v d).orElse fun _ => k' v d) := by
  rcases hr : r.result with a | (⟨v, d⟩ | f)
  · -- Without an outcome, there is nothing to go on from.
    have habort (l : α → Cursor → Run ν β) : r.andThen l = ⟨.error a, r.notes⟩ := by
      rw [andThen, elim, hr]
    rw [habort, habort, habort]
    exact .refl _
  · have hsuccess (l : α → Cursor → Run ν β) : r.andThen l = (l v d).after r.notes :=
      elim_of_success l failure hr
    rw [hsuccess, hsuccess, hsuccess, orElse, elim_after]
    -- The run is made again before the second way, and its notes with it.
    exact (Echoes.orElse (.refl _) (.after_left (.refl _) r.notes)).after (.refl _)
  · have hfailure (l : α → Cursor → Run ν β) : r.andThen l = (failure f).after r.notes :=
      elim_of_failure l failure hr
    rw [hfailure, hfailure, hfailure, orElse, elim_after, elim_failure]
    exact .after_left (.refl _) _

end Run

/-! ### Alternatives with a common start -/

namespace Choice

/-- The choice in which each alternative stands against all that follow it. -/
def inOrder : Parser S α → List (Parser S α) → Choice S α
  | p, [] => only p
  | p, q :: qs => either (only p) (inOrder q qs)

theorem run_inOrder_cons (ctx : Context S) (p q : Parser S α) (qs : List (Parser S α))
    (c : Cursor) : (inOrder p (q :: qs)).parser.run ctx c =
      (p.run ctx c).orElse fun _ => (inOrder q qs).parser.run ctx c :=
  rfl

/-- Let the alternatives `alternative i` all run `p` first, and then go on with `rest v i`, where
    `v` is the value of `p`. -/
theorem echoes_inOrder {ι : Type 1} {ctx : Context S} {p : Parser S α} {c : Cursor}
    {alternative : ι → Parser S β} (rest : α → ι → Parser S β)
    (h : ∀ i, (alternative i).run ctx c =
      (p.run ctx c).andThen fun v d => (rest v i).run ctx d) (i : ι) (is : List ι) :
    ((inOrder (alternative i) (is.map alternative)).parser.run ctx c).Echoes
      ((p.run ctx c).andThen fun v d =>
        (inOrder (rest v i) (is.map (rest v))).parser.run ctx d) := by
  induction is generalizing i with
  | nil =>
    have hone : (inOrder (alternative i) []).parser.run ctx c =
        (p.run ctx c).andThen fun v d => (inOrder (rest v i) []).parser.run ctx d := h i
    exact hone ▸ .refl _
  | cons j js ih =>
    -- The alternatives after the first one are factored already, and still start from `c`.
    have hfollow := Run.Echoes.orElse (.refl ((alternative i).run ctx c)) (ih j)
    simp only [List.map_cons, run_inOrder_cons]
    rw [h i] at hfollow ⊢
    exact hfollow.trans (Run.echoes_andThen_orElse _ _ _)

/-- Alternatives that begin with the same parser may be factored, whether they are chosen by its
    value or not. The factored form comes to the same, in success and in failure, and its
    notes are among those of the choice. -/
theorem echoes_factored (ctx : Context S) (p : Parser S α) (c : Cursor) :
    (∀ (k : α → Parser S β) (ks : List (α → Parser S β)),
      ((inOrder (.bind p k) (ks.map (.bind p))).parser.run ctx c).Echoes
        ((Parser.bind p fun v => (inOrder (k v) (ks.map fun k => k v)).parser).run ctx c)) ∧
    ∀ (q : Parser S β) (qs : List (Parser S β)),
      ((inOrder (.andThen p q) (qs.map (.andThen p))).parser.run ctx c).Echoes
        ((Parser.andThen p (inOrder q qs).parser).run ctx c) := by
  refine ⟨fun k ks => ?_, fun q qs => ?_⟩
  · have hbind (k : α → Parser S β) : (Parser.bind p k).run ctx c =
        (p.run ctx c).andThen fun v d => (k v).run ctx d := rfl
    exact echoes_inOrder (fun v k => k v) hbind k ks
  · have hthen (q : Parser S β) : (Parser.andThen p q).run ctx c =
        (p.run ctx c).andThen fun _ d => q.run ctx d := rfl
    have hechoes := echoes_inOrder (fun _ q => q) hthen q qs
    rwa [List.map_id'] at hechoes

/-- Both alternatives read the number. The choice notes it twice, and the factored form once. -/
example :
    let number : Parser .brackets Text := .inspect (.takeWhile1 Text.isDigit) "number" id
    let comma : Parser .brackets Char := .char ','
    let point : Parser .brackets Char := .char '.'
    let c : Cursor := .start ['7', '.']
    let choice := inOrder (.andThen number comma) [.andThen number point]
    let twice := Grammar.brackets.run choice.parser c
    let once := Grammar.brackets.run (.andThen number (inOrder comma [point]).parser) c
    twice.result = .ok (.success '.' ⟨['7', '.'], 2⟩) ∧ once.result = twice.result ∧
      twice.notes = [⟨"number", ['7']⟩, ⟨"number", ['7']⟩] ∧ once.notes = [⟨"number", ['7']⟩] :=
  ⟨rfl, rfl, rfl, rfl⟩

end Choice

end TextParsing
