import TextParsing.Primitive

/-!
# Splitting texts

Cutting and measuring, said without byte offsets. A text that is written `u ++ w`
can be cut after `u`, and the byte length of `u` is the only offset that names
this place; so every function that answers with an offset is described by the part
of the text that it measures.

* `dropBytes?_append`, `takeBytes?_append` and `slice?_append`: what is cut at the
  end of `u` is what was written there;
* `eq_of_byteLength_eq`: of two starts of one text, the byte length tells which;
* `spanLength_eq`, `offsetAfter?_eq`, `matchPrefix?_eq` and `IsScan.scanFrom_eq`: the
  measured part is a start of the text.

What a scanner measures depends on its states, and is said as a relation (`IsScan`). Every text
has exactly one such start (`exists_isScan`, `IsScan.unique`); that there is only one follows
from the measure, as of two starts of a text the byte length tells which.
-/

namespace TextParsing.Text

/-! ### Cutting -/

theorem dropBytes?_append (u v : Text) : dropBytes? (u ++ v) u.byteLength = some v :=
  dropBytes?_eq_some_iff.2 ⟨u, rfl, rfl⟩

theorem sliceFrom_append (u v : Text) : sliceFrom (u ++ v) u.byteLength = .ok v := by
  rw [sliceFrom, dropBytes?_append]
  rfl

theorem takeBytes?_append (u v : Text) : takeBytes? (u ++ v) u.byteLength = some u := by
  induction u with
  | nil => simp [takeBytes?]
  | cons c u ih =>
    -- A unit has at least one byte, so that the offset is not zero.
    obtain ⟨n, hn⟩ : ∃ n, c.utf8Size + byteLength u = n + 1 :=
      ⟨c.utf8Size + byteLength u - 1, by have := c.utf8Size_pos; omega⟩
    have hrest : n + 1 - c.utf8Size = byteLength u := by omega
    rw [List.cons_append, byteLength_cons, hn, takeBytes?, if_pos (by omega), hrest, ih]
    rfl

theorem slice?_append (u w v : Text) :
    slice? (u ++ (w ++ v)) u.byteLength (u ++ w).byteLength = some w := by
  rw [slice?, if_pos (by simp), dropBytes?_append, Option.bind_some, byteLength_append,
    Nat.add_sub_cancel_left, takeBytes?_append]

/-- Of two starts of one text, the byte length tells which. -/
theorem eq_of_byteLength_eq {u v u' v' : Text} (h : u ++ v = u' ++ v')
    (hn : byteLength u = byteLength u') : u = u' ∧ v = v' := by
  have hv : some v = some v' := by
    rw [← dropBytes?_append u v, h, hn, dropBytes?_append]
  obtain rfl := Option.some.inj hv
  exact ⟨List.append_cancel_right h, rfl⟩

/-- Of two starts of one text, the one with fewer bytes is a start of the other. -/
theorem isPrefix_of_byteLength_le {u w t : Text} (hu : u <+: t) (hw : w <+: t)
    (h : byteLength u ≤ byteLength w) : u <+: w := by
  rcases List.prefix_or_prefix_of_prefix hu hw with huw | ⟨v, rfl⟩
  · exact huw
  · rw [byteLength_append] at h
    obtain rfl : v = [] := byteLength_eq_zero_iff.1 (by omega)
    exact ⟨[], by rw [List.append_nil, List.append_nil]⟩

/-! ### Measuring -/

/-- A run of a class is not longer than it is, if what follows starts outside the class. -/
theorem takeWhile_append_left {α : Type} {test : α → Bool} {w r : List α}
    (hw : ∀ x ∈ w, test x = true) (hr : r.head?.any test = false) :
    (w ++ r).takeWhile test = w := by
  rw [List.takeWhile_append_of_pos hw]
  cases r with
  | nil => rw [List.takeWhile_nil, List.append_nil]
  | cons x r =>
    have hx : ¬test x = true := Bool.eq_false_iff.1 hr
    rw [List.takeWhile_cons_of_neg hx, List.append_nil]

theorem spanLength_eq (test : Char → Bool) (t : Text) :
    spanLength test t = byteLength (t.takeWhile test) := by
  induction t with
  | nil => rfl
  | cons u t ih => by_cases hu : test u <;> simp [spanLength, hu, ih]

theorem offsetAfter?_eq (t : Text) (n : Nat) :
    offsetAfter? t n = if n ≤ t.length then some (byteLength (t.take n)) else none := by
  induction t generalizing n with
  | nil => cases n <;> simp [offsetAfter?]
  | cons u t ih =>
    cases n with
    | zero => simp [offsetAfter?]
    | succ n =>
      rw [offsetAfter?, ih]
      by_cases hn : n ≤ t.length <;> simp [hn]

theorem matchPrefix?_eq (literal t : Text) :
    matchPrefix? literal t = if literal <+: t then some (byteLength literal) else none := by
  induction literal generalizing t with
  | nil => simp [matchPrefix?]
  | cons w ws ih =>
    cases t with
    | nil => simp [matchPrefix?]
    | cons u t =>
      rw [matchPrefix?]
      by_cases hu : w = u
      · subst hu
        by_cases ht : ws <+: t <;> simp [ih, ht, List.cons_prefix_cons]
      · simp [hu, List.cons_prefix_cons]

/-! ### Scanning -/

section Scanning

variable {σ : Type} {step : σ → Char → Option σ} {initial final final' : σ} {a a' b b' : Text}

/-- From the text `a ++ b`, a scanner takes `a`: the fold is defined at every unit of `a` and
    leads to the state `final`, in which the step gives nothing for the next unit, if there is
    one. -/
structure IsScan (step : σ → Char → Option σ) (initial : σ) (a b : Text) (final : σ) : Prop where
  fold : a.foldlM step initial = some final
  stops : ∀ x, b.head? = some x → step final x = none

theorem isScan_nil_iff : IsScan step initial [] b final ↔
    initial = final ∧ ∀ x, b.head? = some x → step initial x = none := by
  constructor
  · rintro ⟨hfold, hstops⟩
    obtain rfl := Option.some.inj hfold
    exact ⟨rfl, hstops⟩
  · rintro ⟨rfl, hstops⟩
    exact ⟨rfl, hstops⟩

/-- One more unit in front is one more step of the fold. -/
theorem isScan_cons_iff {x : Char} : IsScan step initial (x :: a) b final ↔
    ∃ s, step initial x = some s ∧ IsScan step s a b final := by
  constructor
  · rintro ⟨hfold, hstops⟩
    rw [List.foldlM_cons] at hfold
    obtain ⟨s, hs, hrest⟩ := Option.bind_eq_some_iff.1 hfold
    exact ⟨s, hs, hrest, hstops⟩
  · rintro ⟨s, hs, hfold, hstops⟩
    refine ⟨?_, hstops⟩
    rw [List.foldlM_cons, hs]
    exact hfold

theorem exists_isScan (step : σ → Char → Option σ) (initial : σ) (t : Text) :
    ∃ a b final, t = a ++ b ∧ IsScan step initial a b final := by
  induction t generalizing initial with
  | nil => exact ⟨[], [], initial, rfl, isScan_nil_iff.2 ⟨rfl, nofun⟩⟩
  | cons x t ih =>
    cases hx : step initial x with
    | none =>
      -- The unit without a next state is left, and the state is the one from before it.
      refine ⟨[], x :: t, initial, rfl, isScan_nil_iff.2 ⟨rfl, fun y hy => ?_⟩⟩
      obtain rfl := Option.some.inj hy
      exact hx
    | some s =>
      obtain ⟨a, b, final, rfl, hscan⟩ := ih s
      exact ⟨x :: a, b, final, rfl, isScan_cons_iff.2 ⟨s, hx, hscan⟩⟩

namespace IsScan

/-- The scanner measures the units that the fold goes through. -/
theorem scanFrom_eq (h : IsScan step initial a b final) :
    Primitive.scanFrom step initial (a ++ b) = (byteLength a, final) := by
  induction a generalizing initial with
  | nil =>
    obtain ⟨rfl, hstops⟩ := isScan_nil_iff.1 h
    cases b with
    | nil => rfl
    | cons x b => simp [Primitive.scanFrom, hstops x rfl]
  | cons x a ih =>
    obtain ⟨s, hs, hrest⟩ := isScan_cons_iff.1 h
    simp [Primitive.scanFrom, hs, ih hrest]

theorem unique (h : IsScan step initial a b final) (h' : IsScan step initial a' b' final')
    (ht : a ++ b = a' ++ b') : a' = a ∧ b' = b ∧ final' = final := by
  have hmeasure := h'.scanFrom_eq
  rw [← ht, h.scanFrom_eq, Prod.mk.injEq] at hmeasure
  obtain ⟨hlength, rfl⟩ := hmeasure
  obtain ⟨rfl, rfl⟩ := eq_of_byteLength_eq ht hlength
  exact ⟨rfl, rfl, rfl⟩

end IsScan

end Scanning

end TextParsing.Text
