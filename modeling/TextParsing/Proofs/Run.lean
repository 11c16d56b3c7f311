import TextParsing.Run

/-!
# Postconditions of runs

What is known of the outcome of a run, if it comes to one (`Run.Ensures`), and how
this is found out from the parts of the run. As every way of going on is
`Run.elim`, one rule is enough for all of them (`Ensures.elim`).

A repetition has a rule of its own (`Ensures.repeatFrom`). It asks for an invariant
of the cursors at which the step is run, and for a relation between the cursor at
which the repetition starts, the values, and the cursor at which it ends. The
relation has to hold of no values at all, and one more value in front must keep it;
the value of a step that stands still is one more value like any other, after which
there are none.
-/

namespace TextParsing.Run

variable {ν α β : Type}

/-- If the run comes to an outcome, `Q` holds of it. -/
def Ensures (r : Run ν α) (Q : Outcome α → Prop) : Prop := ∀ o, r.result = .ok o → Q o

theorem result_ofChecked_eq_ok_iff {x : Checked (Outcome α)} {o : Outcome α} :
    (ofChecked x : Run ν α).result = .ok o ↔ x = .ok o := by
  cases x <;> simp [ofChecked]

@[simp] theorem success_inj {v v' : α} {c c' : Cursor} :
    (success v c : Run ν α) = success v' c' ↔ v = v' ∧ c = c' := by
  simp [success]

@[simp] theorem failure_inj {f f' : Failure} : (failure f : Run ν α) = failure f' ↔ f = f' := by
  simp [failure]

@[simp] theorem success_ne_failure {v : α} {c : Cursor} {f : Failure} :
    (success v c : Run ν α) ≠ failure f := by
  simp [success, failure]

theorem ensures_result (r : Run ν α) : r.Ensures fun o => r.result = .ok o := fun _ ho => ho

/-! ### Runs that are known to succeed, to fail, or not to fail -/

/-- The run comes to a failure. -/
def Fails (r : Run ν α) : Prop := ∃ f, r.result = .ok (.failure f)

instance (r : Run ν α) : Decidable r.Fails :=
  match r with
  | ⟨.ok (.failure f), _⟩ => isTrue ⟨f, rfl⟩
  | ⟨.ok (.success _ _), _⟩ => isFalse fun ⟨_, hf⟩ => nomatch hf
  | ⟨.error _, _⟩ => isFalse fun ⟨_, hf⟩ => nomatch hf

section Known

variable {r : Run ν α} (k : α → Cursor → Run ν β) (e e' : Failure → Run ν β)

theorem elim_of_success {v : α} {c : Cursor} (h : r.result = .ok (.success v c)) :
    r.elim k e = (k v c).after r.notes := by
  rw [elim, h]

theorem elim_of_failure {f : Failure} (h : r.result = .ok (.failure f)) :
    r.elim k e = (e f).after r.notes := by
  rw [elim, h]

/-- If a run does not fail, it does not matter how it would go on after a failure. -/
theorem elim_congr_of_not_fails (h : ¬ r.Fails) : r.elim k e = r.elim k e' := by
  rcases r with ⟨a | (⟨v, c⟩ | f), ns⟩
  · rfl
  · rfl
  · exact absurd ⟨f, rfl⟩ h

theorem orElse_of_not_fails (k : Failure → Run ν α) (h : ¬ r.Fails) : r.orElse k = r :=
  (elim_congr_of_not_fails success k failure h).trans (andThen_success r)

/-- A sequence without notes succeeds if both of its parts do. -/
theorem andThen_eq_success_iff {w : β} {d : Cursor} :
    r.andThen k = success w d ↔ ∃ v c, r = success v c ∧ k v c = success w d := by
  constructor
  · intro h
    rcases r with ⟨a | (⟨v, c⟩ | f), ns⟩
    · cases h
    · have hnotes : ns ++ (k v c).notes = [] := congrArg Run.notes h
      obtain ⟨rfl, -⟩ := List.append_eq_nil_iff.1 hnotes
      exact ⟨v, c, rfl, h⟩
    · cases h
  · rintro ⟨v, c, rfl, hk⟩
    exact hk

end Known

namespace Ensures

theorem outcome {o : Outcome α} {Q : Outcome α → Prop} (h : Q o) :
    (ofChecked (.ok o) : Run ν α).Ensures Q := by
  intro o' ho
  obtain rfl := Except.ok.inj ho
  exact h

theorem success {v : α} {c : Cursor} {Q : Outcome α → Prop} (h : Q (.success v c)) :
    (Run.success v c : Run ν α).Ensures Q :=
  outcome h

theorem failure {f : Failure} {Q : Outcome α → Prop} (h : Q (.failure f)) :
    (Run.failure f : Run ν α).Ensures Q :=
  outcome h

theorem unfinished (Q : Outcome α → Prop) : (Run.unfinished : Run ν α).Ensures Q :=
  fun _ ho => nomatch ho

theorem after {r : Run ν α} {Q : Outcome α → Prop} (ns : List ν) (h : r.Ensures Q) :
    (r.after ns).Ensures Q := h

theorem mono {r : Run ν α} {P Q : Outcome α → Prop} (h : r.Ensures P) (hPQ : ∀ o, P o → Q o) :
    r.Ensures Q :=
  fun o ho => hPQ o (h o ho)

/-! ### Going on -/

variable {r : Run ν α} {P : Outcome α → Prop} {Q : Outcome β → Prop}

theorem elim {k : α → Cursor → Run ν β} {e : Failure → Run ν β} (h : r.Ensures P)
    (hk : ∀ v c, P (.success v c) → (k v c).Ensures Q)
    (he : ∀ f, P (.failure f) → (e f).Ensures Q) : (r.elim k e).Ensures Q := by
  rcases r with ⟨a | (⟨v, c⟩ | f), ns⟩
  · exact fun _ ho => nomatch ho
  · exact hk v c (h _ rfl)
  · exact he f (h _ rfl)

theorem andThen {k : α → Cursor → Run ν β} (h : r.Ensures P)
    (hk : ∀ v c, P (.success v c) → (k v c).Ensures Q)
    (hf : ∀ f, P (.failure f) → Q (.failure f)) : (r.andThen k).Ensures Q :=
  h.elim hk fun f hP => .failure (hf f hP)

theorem map {f : α → β} (h : r.Ensures P) (hs : ∀ v c, P (.success v c) → Q (.success (f v) c))
    (hf : ∀ f, P (.failure f) → Q (.failure f)) : (r.map f).Ensures Q :=
  h.andThen (fun v c hP => .success (hs v c hP)) hf

theorem orElse {k : Failure → Run ν α} {Q : Outcome α → Prop} (h : r.Ensures P)
    (hs : ∀ v c, P (.success v c) → Q (.success v c))
    (hk : ∀ f, P (.failure f) → (k f).Ensures Q) : (r.orElse k).Ensures Q :=
  h.elim (fun v c hP => .success (hs v c hP)) hk

/-! ### Repetition -/

section Repetition

variable {step : Cursor → Run ν α} {R : Cursor → List α → Cursor → Prop}

/-- How a repetition goes on after a step with the value `v`. If the step stood still, no
    more values follow; otherwise those of the rest do. -/
theorem goOn {limit : Nat} {c d : Cursor} {v : α} {Q : Outcome (List α) → Prop} (hnil : R d [] d)
    (hcons : ∀ vs e, R d vs e → R c (v :: vs) e)
    (hrest : (Run.repeatFrom step limit d).Ensures fun
      | .success vs e => R d vs e
      | .failure _ => False)
    (hQ : ∀ vs e, R c vs e → Q (.success vs e)) :
    (if d = c then Run.success [v] d
      else (Run.repeatFrom step limit d).map (v :: ·)).Ensures Q := by
  split
  · exact .success (hQ [v] d (hcons [] d hnil))
  · exact hrest.map (fun vs e he => hQ (v :: vs) e (hcons vs e he)) fun _ h => h.elim

variable {I : Cursor → Prop} (nil : ∀ c, I c → R c [] c)
  (cons : ∀ c, I c → ∀ v d, (step c).result = .ok (.success v d) →
    I d ∧ ∀ vs e, R d vs e → R c (v :: vs) e)

include nil cons

/-- What a repetition comes to is a success, in the relation `R` to its start. -/
theorem repeatFrom (limit : Nat) {c : Cursor} (hc : I c) {Q : Outcome (List α) → Prop}
    (hQ : ∀ vs d, R c vs d → Q (.success vs d)) : (Run.repeatFrom step limit c).Ensures Q := by
  induction limit generalizing c Q with
  | zero => exact .unfinished Q
  | succ limit ih =>
    rw [Run.repeatFrom]
    refine (step c).ensures_result.elim (fun v d hv => ?_) fun _ _ => .success (hQ [] c (nil c hc))
    obtain ⟨hd, hcons⟩ := cons c hc v d hv
    exact goOn (nil d hd) hcons (ih hd fun _ _ h => h) hQ

/-- If the first run of the step fails, the whole fails like it. -/
theorem repeatFrom1 (limit : Nat) {c : Cursor} (hc : I c) {Q : Outcome (List α) → Prop}
    (hQ : ∀ vs d, R c vs d → Q (.success vs d))
    (hf : ∀ f, (step c).result = .ok (.failure f) → Q (.failure f)) :
    (Run.repeatFrom1 step limit c).Ensures Q := by
  cases limit with
  | zero => exact .unfinished Q
  | succ limit =>
    rw [Run.repeatFrom1]
    refine (step c).ensures_result.andThen (fun v d hv => ?_) hf
    obtain ⟨hd, hcons⟩ := cons c hc v d hv
    exact goOn (nil d hd) hcons (repeatFrom nil cons limit hd fun _ _ h => h) hQ

end Repetition

end Ensures

end TextParsing.Run
