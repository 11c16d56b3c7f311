import TextParsing.Failure

/-!
# Runs

Running a parser at a cursor gives an outcome, and on the way it may leave notes:
observers inside the parser write down what they saw. The notes are kept in the
order in which they were made, also those of branches that were abandoned later.

A run can end without an outcome (`Abort`): by a fault, or because the allowance
of steps that it was given was used up before it ended. Nothing continues after
that.

How a run goes on is said once, in `Run.elim`: with the value and the cursor of a
success, or with the failure, and with the notes of both parts in order.
Sequencing (`Run.andThen`), choice (`Run.orElse`) and repetition
(`Run.repeatFrom`) are written in terms of it.

* `Run.repeatFrom` runs a step again and again, each time from the cursor that the
  last run left, until the step fails or stands still. The value of the run that
  stands still is kept; the failed run is abandoned, and the cursor is the one
  from before it.
-/

namespace TextParsing

/-- Why a run ended without an outcome. -/
inductive Abort where
  /-- An operation had no answer. -/
  | fault (fault : Fault)
  /-- The allowance of steps was used up. -/
  | unfinished
  deriving DecidableEq

/-- What a run produced: an outcome, unless it was aborted, and the notes that were
    made, in order. -/
structure Run (ν α : Type) where
  result : Except Abort (Outcome α)
  notes : List ν

namespace Run

variable {ν α β : Type}

/-- The run that succeeds at once, with this value at this cursor. -/
def success (v : α) (c : Cursor) : Run ν α := ⟨.ok (.success v c), []⟩

/-- The run that fails at once. -/
def failure (f : Failure) : Run ν α := ⟨.ok (.failure f), []⟩

/-- The run that was not given enough steps. -/
def unfinished : Run ν α := ⟨.error .unfinished, []⟩

/-- A checked outcome as a run without notes. -/
def ofChecked : Checked (Outcome α) → Run ν α
  | .ok o => ⟨.ok o, []⟩
  | .error e => ⟨.error (.fault e), []⟩

/-- The run with earlier notes put before its own. -/
def after (earlier : List ν) (r : Run ν α) : Run ν α := ⟨r.result, earlier ++ r.notes⟩

/-- How a run goes on, after a success and after a failure. -/
def elim (r : Run ν α) (onSuccess : α → Cursor → Run ν β) (onFailure : Failure → Run ν β) :
    Run ν β :=
  match r.result with
  | .ok (.success v c) => (onSuccess v c).after r.notes
  | .ok (.failure f) => (onFailure f).after r.notes
  | .error a => ⟨.error a, r.notes⟩

/-- Goes on after a success; a failure stays. -/
def andThen (r : Run ν α) (k : α → Cursor → Run ν β) : Run ν β := r.elim k failure

/-- Goes on after a failure; a success stays. -/
def orElse (r : Run ν α) (k : Failure → Run ν α) : Run ν α := r.elim success k

/-- The run with `f` applied to the value of a success. -/
def map (f : α → β) (r : Run ν α) : Run ν β := r.andThen fun v c => success (f v) c

/-! ### The notes of a run that goes on -/

@[simp] theorem after_nil (r : Run ν α) : r.after [] = r := rfl

@[simp] theorem after_after (ms ns : List ν) (r : Run ν α) :
    (r.after ns).after ms = r.after (ms ++ ns) := by
  simp [after]

@[simp] theorem elim_success (v : α) (c : Cursor) (k : α → Cursor → Run ν β)
    (e : Failure → Run ν β) : (success v c).elim k e = k v c := rfl

@[simp] theorem elim_failure (f : Failure) (k : α → Cursor → Run ν β) (e : Failure → Run ν β) :
    (failure f).elim k e = e f := rfl

@[simp] theorem elim_unfinished (k : α → Cursor → Run ν β) (e : Failure → Run ν β) :
    (unfinished : Run ν α).elim k e = unfinished := rfl

/-- Earlier notes stay in front, however the run goes on. -/
@[simp] theorem elim_after (ns : List ν) (r : Run ν α) (k : α → Cursor → Run ν β)
    (e : Failure → Run ν β) : (r.after ns).elim k e = (r.elim k e).after ns := by
  obtain ⟨a | (⟨v, c⟩ | f), ms⟩ := r <;> simp [elim, after]

/-- Going on twice is going on once, with both ways of going on in turn. -/
theorem elim_elim {γ : Type} (r : Run ν α) (k : α → Cursor → Run ν β) (e : Failure → Run ν β)
    (k' : β → Cursor → Run ν γ) (e' : Failure → Run ν γ) :
    (r.elim k e).elim k' e' = r.elim (fun v c => (k v c).elim k' e') fun f => (e f).elim k' e' := by
  obtain ⟨a | (⟨v, c⟩ | f), ms⟩ := r
  · rfl
  · exact elim_after ms (k v c) k' e'
  · exact elim_after ms (e f) k' e'

theorem andThen_success (r : Run ν α) : r.andThen success = r := by
  obtain ⟨a | (⟨v, c⟩ | f), ms⟩ := r <;> simp [andThen, elim, after, success, failure]

theorem map_andThen {γ : Type} (r : Run ν α) (f : α → β) (k : β → Cursor → Run ν γ) :
    (r.map f).andThen k = r.andThen fun v c => k (f v) c :=
  elim_elim r _ _ k failure

/-! ### Repetition -/

/-- Runs `step` from the cursor `c` on until it fails or stands still, at most
    `limit` times; the values in order. -/
def repeatFrom (step : Cursor → Run ν α) : (limit : Nat) → (c : Cursor) → Run ν (List α)
  | 0, _ => unfinished
  | limit + 1, c => (step c).elim
      (fun v d =>
        if d = c then success [v] d
        else (repeatFrom step limit d).map (v :: ·))
      (fun _ => success [] c)

/-- Runs `step` at least once: if the first run fails, so does the whole. -/
def repeatFrom1 (step : Cursor → Run ν α) : (limit : Nat) → (c : Cursor) → Run ν (List α)
  | 0, _ => unfinished
  | limit + 1, c => (step c).andThen fun v d =>
      if d = c then success [v] d
      else (repeatFrom step limit d).map (v :: ·)

end Run

end TextParsing
