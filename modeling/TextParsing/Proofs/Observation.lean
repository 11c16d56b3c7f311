import TextParsing.Proofs.Notes
import TextParsing.Proofs.Parser.Law

/-!
# Observers do not interfere

Taking observers out of a parser changes nothing but the notes. If all observers are
taken out whose tag is in a set `T` (`Parser.silence`), each run comes to the same
outcome, and its notes are those of the old run without the ones tagged in `T`
(`Run.without`), in the same order.

Steps of the caller's own may contain observers too, or run rules that do. How these are
silenced is up to the caller, who gives the silenced step for each step; it has to do
what the step does, without the notes tagged in `T`, as far as the rules that it runs
have been silenced (`Silenced`). A step that only runs a rule is its own silenced step.

Main statement: `Grammar.run_bounded_silence`. It also says where the notes of the old run come
from: each `inspect` makes one note whenever its parser succeeds, and a continuation
that notes its argument does so once for each success of the parser before it.
-/

namespace TextParsing

variable {S : Signature} {α β : Type}

/-! ### Runs without some notes -/

namespace Run

/-- The run without the notes that are tagged in `T`. -/
def without (T : S.Tag → Bool) (r : Run (Note S) α) : Run (Note S) α :=
  ⟨r.result, r.notes.filter fun n => !T n.tag⟩

variable {T : S.Tag → Bool}

@[simp] theorem result_without (r : Run (Note S) α) : (r.without T).result = r.result := rfl

@[simp] theorem notes_without (r : Run (Note S) α) :
    (r.without T).notes = r.notes.filter fun n => !T n.tag := rfl

theorem without_after (ns : List (Note S)) (r : Run (Note S) α) :
    (r.after ns).without T = (r.without T).after (ns.filter fun n => !T n.tag) := by
  rw [without, after, List.filter_append]
  rfl

/-- A note in front stays just if its tag is not in `T`. -/
theorem without_after_note (tag : S.Tag) (seen : S.Seen) (r : Run (Note S) α) :
    (r.after [⟨tag, seen⟩]).without T =
      if T tag then r.without T else (r.without T).after [⟨tag, seen⟩] := by
  rw [without_after]
  by_cases h : T tag <;> simp [h]

theorem without_ofChecked (x : Checked (Outcome α)) :
    (ofChecked x : Run (Note S) α).without T = ofChecked x := by
  cases x <;> rfl

/-- A run without notes goes on as the run does, if it goes on without notes. -/
theorem without_elim (r : Run (Note S) α) {k k' : α → Cursor → Run (Note S) β}
    {e e' : Failure → Run (Note S) β} (hk : ∀ v d, k' v d = (k v d).without T)
    (he : ∀ f, e' f = (e f).without T) : (r.without T).elim k' e' = (r.elim k e).without T := by
  rcases r with ⟨a | (⟨v, d⟩ | f), ns⟩
  · rfl
  · exact (congrArg (after _) (hk v d)).trans (without_after ns (k v d)).symm
  · exact (congrArg (after _) (he f)).trans (without_after ns (e f)).symm

theorem without_andThen (r : Run (Note S) α) {k k' : α → Cursor → Run (Note S) β}
    (hk : ∀ v d, k' v d = (k v d).without T) :
    (r.without T).andThen k' = (r.andThen k).without T :=
  without_elim r hk fun _ => rfl

theorem without_map (r : Run (Note S) α) (f : α → β) :
    (r.without T).map f = (r.map f).without T :=
  without_andThen r fun _ _ => rfl

theorem without_orElse (r : Run (Note S) α) {e e' : Failure → Run (Note S) α}
    (he : ∀ f, e' f = (e f).without T) : (r.without T).orElse e' = (r.orElse e).without T :=
  without_elim r (fun _ _ => rfl) he

theorem without_repeatFrom (step : Cursor → Run (Note S) α) (limit : Nat) (c : Cursor) :
    repeatFrom (fun c => (step c).without T) limit c = (repeatFrom step limit c).without T := by
  induction limit generalizing c with
  | zero => rfl
  | succ limit ih =>
    rw [repeatFrom, repeatFrom]
    refine without_elim (step c) (fun v d => ?_) fun _ => rfl
    split
    · rfl
    · rw [ih, without_map]

theorem without_repeatFrom1 (step : Cursor → Run (Note S) α) (limit : Nat) (c : Cursor) :
    repeatFrom1 (fun c => (step c).without T) limit c = (repeatFrom1 step limit c).without T := by
  cases limit with
  | zero => rfl
  | succ limit =>
    rw [repeatFrom1, repeatFrom1]
    refine without_andThen (step c) fun v d => ?_
    split
    · rfl
    · rw [without_repeatFrom, without_map]

end Run

/-! ### Taking observers out -/

/-- In the context `ctx'` rules do what they do in `ctx`, without the notes tagged in
    `T`. -/
structure Context.Silenced (T : S.Tag → Bool) (ctx ctx' : Context S) : Prop where
  limit : ctx'.limit = ctx.limit
  call (r : Fin S.rules) (c : Cursor) : ctx'.call r c = (ctx.call r c).without T

/-- The step `step'` does what `step` does, without the notes tagged in `T`, as far as
    rules do. -/
def Silenced (T : S.Tag → Bool) (step step' : Step S α) : Prop :=
  ∀ ctx ctx', ctx.Silenced T ctx' → ∀ c, step' ctx' c = (step ctx c).without T

theorem silenced_call (T : S.Tag → Bool) (r : Fin S.rules) :
    Silenced T (fun ctx => ctx.call r) fun ctx => ctx.call r :=
  fun _ _ h => h.call r

namespace Parser

/-- The parser without its observers tagged in `T`, and with the steps that are put in
    the place of the caller's. -/
def silence (T : S.Tag → Bool) (steps : (α : Type) → Step S α → Step S α) :
    {α : Type} → Parser S α → Parser S α
  | _, primitive p => primitive p
  | _, bind p k => bind (silence T steps p) fun v => silence T steps (k v)
  | _, map p f => map (silence T steps p) f
  | _, apply pf pa => apply (silence T steps pf) (silence T steps pa)
  | _, orElse p q => orElse (silence T steps p) (silence T steps q)
  | _, andThen p q => andThen (silence T steps p) (silence T steps q)
  | _, thenSkip p q => thenSkip (silence T steps p) (silence T steps q)
  | _, many p => many (silence T steps p)
  | _, many1 p => many1 (silence T steps p)
  | _, inspect p tag view =>
    if T tag then silence T steps p else inspect (silence T steps p) tag view
  | _, tell tag seen p => if T tag then silence T steps p else tell tag seen (silence T steps p)
  | _, custom description step => custom description (steps _ step)

variable {T : S.Tag → Bool} {steps : (α : Type) → Step S α → Step S α} {ctx ctx' : Context S}

theorem run_silence (hctx : ctx.Silenced T ctx') {p : Parser S α}
    (hp : p.EveryStep fun α step => Silenced T step (steps α step)) (c : Cursor) :
    (p.silence T steps).run ctx' c = (p.run ctx c).without T := by
  induction p generalizing c with
  | primitive p => exact (Run.without_ofChecked _).symm
  | bind p k ihp ihk =>
    rw [silence, run, ihp hp.1]
    exact Run.without_andThen _ fun v d => ihk v (hp.2 v) d
  | map p f ih =>
    rw [silence, run, ih hp, Run.without_map]
    rfl
  | apply pf pa ihf iha =>
    rw [silence, run, ihf hp.1]
    refine Run.without_andThen _ fun f d => ?_
    rw [iha hp.2]
    exact Run.without_map _ f
  | orElse p q ihp ihq =>
    rw [silence, run, ihp hp.1]
    exact Run.without_orElse _ fun _ => ihq hp.2 c
  | andThen p q ihp ihq =>
    rw [silence, run, ihp hp.1]
    exact Run.without_andThen _ fun _ d => ihq hp.2 d
  | thenSkip p q ihp ihq =>
    rw [silence, run, ihp hp.1]
    refine Run.without_andThen _ fun v d => ?_
    rw [ihq hp.2]
    exact Run.without_map _ fun _ => v
  | many p ih =>
    -- The limits agree, so neither repetition is cut off before the other.
    rw [silence, run, hctx.limit, funext (ih hp)]
    exact Run.without_repeatFrom _ _ c
  | many1 p ih =>
    rw [silence, run, hctx.limit, funext (ih hp)]
    exact Run.without_repeatFrom1 _ _ c
  | inspect p tag view ih =>
    rw [silence, run]
    by_cases hT : T tag
    · -- The note is not made, and would have been left out.
      rw [if_pos hT, ih hp, ← Run.without_andThen _ fun v d => (if_pos hT).symm.trans
        (Run.without_after_note tag (view v) (.success v d)).symm]
      exact (Run.andThen_success _).symm
    · rw [if_neg hT, run, ih hp]
      exact Run.without_andThen _ fun v d => (if_neg hT).symm.trans
        (Run.without_after_note tag (view v) (.success v d)).symm
  | tell tag seen p ih =>
    rw [silence, run, Run.without_after_note]
    by_cases hT : T tag
    · rw [if_pos hT, if_pos hT, ih hp]
    · rw [if_neg hT, if_neg hT, run, ih hp]
  | custom description step => exact hp ctx ctx' hctx c

end Parser

/-! ### Over a grammar -/

namespace Grammar

/-- The grammar with all its rules silenced. -/
def silence (g : Grammar S) (T : S.Tag → Bool) (steps : (α : Type) → Step S α → Step S α) :
    Grammar S where
  rule r := (g.rule r).silence T steps

theorem silenced_bounded (g : Grammar S) (T : S.Tag → Bool)
    (steps : (α : Type) → Step S α → Step S α)
    (hg : ∀ r, (g.rule r).EveryStep fun α step => Silenced T step (steps α step))
    (limit depth : Nat) :
    (g.bounded limit depth).Silenced T ((g.silence T steps).bounded limit depth) := by
  induction depth with
  | zero => exact ⟨rfl, fun _ _ => rfl⟩
  | succ depth ih =>
    -- The rules that a rule runs nest less deep, where all of them are silenced.
    exact ⟨rfl, fun r c => Parser.run_silence ih (hg r) c⟩

/-- If the observers tagged in `T` are taken out of a parser and of the rules, a run comes
    to what it came to before, and leaves the same notes in the same order, but for those
    that are tagged in `T`.

    In the run before that, the notes are those of its visits. And for a continuation that
    notes its argument: there is one such note after each success of the parser before it,
    made before the continuation's parser is run, and none after a failure. -/
theorem run_bounded_silence (g : Grammar S) (T : S.Tag → Bool)
    (steps : (α : Type) → Step S α → Step S α)
    (hg : ∀ r, (g.rule r).EveryStep fun α step => Silenced T step (steps α step)) (p : Parser S α)
    (hp : p.EveryStep fun α step => Silenced T step (steps α step)) (limit depth : Nat)
    (c : Cursor) :
    let ctx := g.bounded limit depth
    let silent := (p.silence T steps).run ((g.silence T steps).bounded limit depth) c
    silent.result = (p.run ctx c).result ∧
    silent.notes = ((p.run ctx c).notes.filter fun n => !T n.tag) ∧
    (p.run ctx c).notes = (p.visits ctx c).flatMap (Visit.entries ctx) ∧
    ∀ {β γ : Type} (q : Parser S β) (k : β → Parser S γ) (tag : S.Tag) (view : β → S.Seen)
      (d : Cursor), ((Parser.bind q fun v => .tell tag (view v) (k v)).run ctx d).notes =
        (q.run ctx d).notes ++
          (q.run ctx d).onSuccess fun v e => ⟨tag, view v⟩ :: ((k v).run ctx e).notes := by
  intro ctx silent
  have hrun : silent = (p.run ctx c).without T :=
    Parser.run_silence (g.silenced_bounded T steps hg limit depth) hp c
  rw [hrun, Run.result_without, Run.notes_without]
  refine ⟨rfl, rfl, p.notes_run ctx c, ?_⟩
  intro β γ q k tag view d
  rw [Parser.run, Run.notes_andThen]
  rfl

/-- What stands in brackets is noted, although the closing bracket is missing and the
    alternative is given up. -/
theorem run_bounded_silence_brackets :
    let T : Signature.brackets.Tag → Bool := fun _ => true
    let c : Cursor := ⟨['(', '1', 'x'], 0⟩
    let ctx := brackets.bounded 3 3
    let silent := (Parser.bracketed.silence T fun _ step => step).run
      ((brackets.silence T fun _ step => step).bounded 3 3) c
    (Parser.bracketed.run ctx c).notes = [⟨"inner", ['1']⟩] ∧
      silent.result = (Parser.bracketed.run ctx c).result ∧ silent.notes = [] ∧
      (Parser.bracketed.run ctx c).notes =
        (Parser.bracketed.visits ctx c).flatMap (Visit.entries ctx) := by
  intro T c ctx silent
  have hnotes : (Parser.bracketed.run ctx c).notes = [⟨"inner", ['1']⟩] := rfl
  obtain ⟨hresult, hsilent, hvisits, -⟩ := brackets.run_bounded_silence T (fun _ step => step)
    (fun _ => ⟨⟨⟨trivial, silenced_call T (0 : Fin 1)⟩, trivial⟩, trivial⟩) Parser.bracketed
    (silenced_call T (0 : Fin 1)) 3 3 c
  exact ⟨hnotes, hresult, hsilent.trans (congrArg _ hnotes), hvisits⟩

end Grammar

end TextParsing
