import TextParsing.Parser

/-!
# Where notes come from

The notes of a run are made by the observers that are passed in its course. To say
which ones are passed, and how often, a run is taken apart into *visits*: which parser
was run at which cursor, for all parsers that were run on the way, in the order in which
they came to their end (`Parser.visits`).

* A parser that goes on after a success visits nothing more after a failure; a choice
  visits its second parser after a failure only. What was visited before stays visited,
  whether or not it is given up later.
* A repetition visits its parser at the cursors of its attempts (`Run.attempts`), the
  last attempt among them, which fails or stands still.

Main statement: `Parser.notes_run`. The notes of a run are those that its visits
contribute, in order (`Visit.entries`). A visit of `inspect` contributes one note, with
the value of its parser, if the parser succeeds there, and none if not.
-/

namespace TextParsing

/-! ### Going on -/

namespace Run

universe w

variable {ν α β : Type} {γ : Type w}

/-- What `k` lists after a success; otherwise nothing. -/
def onSuccess (r : Run ν α) (k : α → Cursor → List γ) : List γ :=
  match r.result with
  | .ok (.success v d) => k v d
  | _ => []

/-- What `e` lists after a failure; otherwise nothing. -/
def onFailure (r : Run ν α) (e : Failure → List γ) : List γ :=
  match r.result with
  | .ok (.failure f) => e f
  | _ => []

@[simp] theorem onSuccess_nil (r : Run ν α) : (r.onSuccess fun _ _ => ([] : List γ)) = [] := by
  rcases r with ⟨a | (⟨v, d⟩ | f), ns⟩ <;> rfl

@[simp] theorem onFailure_nil (r : Run ν α) : (r.onFailure fun _ => ([] : List γ)) = [] := by
  rcases r with ⟨a | (⟨v, d⟩ | f), ns⟩ <;> rfl

/-! ### Notes -/

theorem notes_elim (r : Run ν α) (k : α → Cursor → Run ν β) (e : Failure → Run ν β) :
    (r.elim k e).notes =
      r.notes ++ (r.onSuccess (fun v d => (k v d).notes) ++ r.onFailure fun f => (e f).notes) := by
  rcases r with ⟨a | (⟨v, d⟩ | f), ns⟩
  · exact (List.append_nil ns).symm
  · exact congrArg (ns ++ ·) (List.append_nil _).symm
  · rfl

theorem notes_andThen (r : Run ν α) (k : α → Cursor → Run ν β) :
    (r.andThen k).notes = r.notes ++ r.onSuccess fun v d => (k v d).notes := by
  rw [andThen, notes_elim]
  simp [failure]

theorem notes_orElse (r : Run ν α) (e : Failure → Run ν α) :
    (r.orElse e).notes = r.notes ++ r.onFailure fun f => (e f).notes := by
  rw [orElse, notes_elim]
  simp [success]

/-- If the notes of a run, and of how it goes on, can be read off lists of something else,
    so can those of the whole. -/
theorem notes_andThen_flatMap {r : Run ν α} {k : α → Cursor → Run ν β} {h : γ → List ν}
    {xs : List γ} {ys : α → Cursor → List γ} (hr : r.notes = xs.flatMap h)
    (hk : ∀ v d, (k v d).notes = (ys v d).flatMap h) :
    (r.andThen k).notes = (xs ++ r.onSuccess ys).flatMap h := by
  rw [notes_andThen, List.flatMap_append, hr]
  congr
  rcases r with ⟨a | (⟨v, d⟩ | f), ns⟩
  · rfl
  · exact hk v d
  · rfl

theorem notes_orElse_flatMap {r : Run ν α} {e : Failure → Run ν α} {h : γ → List ν}
    {xs : List γ} {ys : Failure → List γ} (hr : r.notes = xs.flatMap h)
    (he : ∀ f, (e f).notes = (ys f).flatMap h) :
    (r.orElse e).notes = (xs ++ r.onFailure ys).flatMap h := by
  rw [notes_orElse, List.flatMap_append, hr]
  congr
  rcases r with ⟨a | (⟨v, d⟩ | f), ns⟩
  · rfl
  · rfl
  · exact he f

@[simp] theorem notes_map (r : Run ν α) (f : α → β) : (r.map f).notes = r.notes := by
  rw [map, notes_andThen]
  simp [success]

@[simp] theorem notes_ofChecked (x : Checked (Outcome α)) : (ofChecked x : Run ν α).notes = [] := by
  cases x <;> rfl

/-! ### Repetition -/

/-- The cursors at which a repetition of at most `limit` steps runs its step. -/
def attempts (step : Cursor → Run ν α) : (limit : Nat) → (c : Cursor) → List Cursor
  | 0, _ => []
  | limit + 1, c =>
    c :: (step c).onSuccess fun _ d => if d = c then [] else attempts step limit d

/-- A repetition that has to succeed once makes the same notes as one that has not. -/
theorem notes_repeatFrom1 (step : Cursor → Run ν α) (limit : Nat) (c : Cursor) :
    (repeatFrom1 step limit c).notes = (repeatFrom step limit c).notes := by
  cases limit with
  | zero => rfl
  | succ limit =>
    rw [repeatFrom1, repeatFrom, notes_andThen, notes_elim]
    simp [success]

theorem notes_repeatFrom (step : Cursor → Run ν α) (limit : Nat) (c : Cursor) :
    (repeatFrom step limit c).notes =
      (attempts step limit c).flatMap fun d => (step d).notes := by
  induction limit generalizing c with
  | zero => rfl
  | succ limit ih =>
    rw [← notes_repeatFrom1, repeatFrom1, attempts, ← List.singleton_append]
    -- The first attempt is at `c`; those of the rest follow, unless the step stood still.
    refine notes_andThen_flatMap (List.flatMap_singleton ..).symm fun v d => ?_
    split
    · rfl
    · rw [notes_map, ih]

end Run

/-! ### Visits -/

variable {S : Signature}

/-- A parser that was run, and the cursor at which it was run. -/
structure Visit (S : Signature) where
  Value : Type
  parser : Parser S Value
  cursor : Cursor

namespace Parser

/-- The visits of a run, in the order in which they end; but a `tell` is visited before
    its parser, as its note is made before. -/
def visits (ctx : Context S) : {α : Type} → Parser S α → Cursor → List (Visit S)
  | _, primitive p, c => [⟨_, primitive p, c⟩]
  -- A sequence goes on after a success, from the cursor of the success.
  | _, bind p k, c =>
    visits ctx p c ++ (p.run ctx c).onSuccess (fun v d => visits ctx (k v) d) ++ [⟨_, bind p k, c⟩]
  | _, map p f, c => visits ctx p c ++ [⟨_, map p f, c⟩]
  | _, apply pf pa, c =>
    visits ctx pf c ++ (pf.run ctx c).onSuccess (fun _ d => visits ctx pa d) ++
      [⟨_, apply pf pa, c⟩]
  -- A choice goes on after a failure, from its own cursor.
  | _, orElse p q, c =>
    visits ctx p c ++ (p.run ctx c).onFailure (fun _ => visits ctx q c) ++ [⟨_, orElse p q, c⟩]
  | _, andThen p q, c =>
    visits ctx p c ++ (p.run ctx c).onSuccess (fun _ d => visits ctx q d) ++ [⟨_, andThen p q, c⟩]
  | _, thenSkip p q, c =>
    visits ctx p c ++ (p.run ctx c).onSuccess (fun _ d => visits ctx q d) ++
      [⟨_, thenSkip p q, c⟩]
  -- A repetition that has to succeed once makes the same attempts as one that has not.
  | _, many p, c =>
    (Run.attempts (p.run ctx) ctx.limit c).flatMap (visits ctx p) ++ [⟨_, many p, c⟩]
  | _, many1 p, c =>
    (Run.attempts (p.run ctx) ctx.limit c).flatMap (visits ctx p) ++ [⟨_, many1 p, c⟩]
  | _, inspect p tag view, c => visits ctx p c ++ [⟨_, inspect p tag view, c⟩]
  | _, tell tag seen p, c => ⟨_, tell tag seen p, c⟩ :: visits ctx p c
  | _, custom description step, c => [⟨_, custom description step, c⟩]

end Parser

/-- The notes that a visit makes by itself, apart from the visits of its parts. The parts
    of a step of the caller's own are not known, so its notes are all its own. -/
def Visit.entries (ctx : Context S) : Visit S → List (Note S)
  | ⟨_, .inspect p tag view, c⟩ => (p.run ctx c).onSuccess fun v _ => [⟨tag, view v⟩]
  | ⟨_, .tell tag seen _, _⟩ => [⟨tag, seen⟩]
  | ⟨_, .custom _ step, c⟩ => (step ctx c).notes
  | _ => []

namespace Parser

variable (ctx : Context S)

/-- The visits of a parser, then its own, which contributes nothing. -/
theorem flatMap_entries_concat {α : Type} (vs : List (Visit S)) (p : Parser S α) (c : Cursor)
    (h : Visit.entries ctx ⟨α, p, c⟩ = []) :
    (vs ++ [(⟨α, p, c⟩ : Visit S)]).flatMap (Visit.entries ctx) =
      vs.flatMap (Visit.entries ctx) := by
  rw [List.flatMap_append, List.flatMap_singleton, h, List.append_nil]

/-- The notes of a run are those that its visits contribute, in order. -/
theorem notes_run {α : Type} (p : Parser S α) (c : Cursor) :
    (p.run ctx c).notes = (p.visits ctx c).flatMap (Visit.entries ctx) := by
  induction p generalizing c with
  | primitive p => exact Run.notes_ofChecked _
  | bind p k ihp ihk =>
    rw [run, visits, flatMap_entries_concat ctx _ _ _ rfl]
    exact Run.notes_andThen_flatMap (ihp c) ihk
  | map p f ih => rw [run, Run.notes_map, visits, flatMap_entries_concat ctx _ _ _ rfl, ih]
  | apply pf pa ihf iha =>
    rw [run, visits, flatMap_entries_concat ctx _ _ _ rfl]
    exact Run.notes_andThen_flatMap (ihf c) fun f d => (Run.notes_map _ f).trans (iha d)
  | orElse p q ihp ihq =>
    rw [run, visits, flatMap_entries_concat ctx _ _ _ rfl]
    exact Run.notes_orElse_flatMap (ihp c) fun _ => ihq c
  | andThen p q ihp ihq =>
    rw [run, visits, flatMap_entries_concat ctx _ _ _ rfl]
    exact Run.notes_andThen_flatMap (ihp c) fun _ => ihq
  | thenSkip p q ihp ihq =>
    rw [run, visits, flatMap_entries_concat ctx _ _ _ rfl]
    exact Run.notes_andThen_flatMap (ihp c) fun v d => (Run.notes_map _ fun _ => v).trans (ihq d)
  | many p ih =>
    rw [run, visits, flatMap_entries_concat ctx _ _ _ rfl, Run.notes_repeatFrom, List.flatMap_assoc]
    congr
    funext d
    exact ih d
  | many1 p ih =>
    rw [run, visits, flatMap_entries_concat ctx _ _ _ rfl, Run.notes_repeatFrom1,
      Run.notes_repeatFrom, List.flatMap_assoc]
    congr
    funext d
    exact ih d
  | inspect p tag view ih =>
    -- The note is made after those of the parser, and after a success only.
    rw [run, Run.notes_andThen, visits, List.flatMap_append, List.flatMap_singleton, ih]
    rfl
  | tell tag seen p ih =>
    rw [run, visits, List.flatMap_cons, ← ih]
    rfl
  | custom description step =>
    -- All that the step notes is its own.
    exact (List.append_nil _).symm

end Parser

end TextParsing
