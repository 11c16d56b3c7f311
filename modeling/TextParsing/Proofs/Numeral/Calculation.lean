import TextParsing.Proofs.Numeral.Integer

/-!
# Calculations that stay in range

Integers of a bounded kind can be calculated with in three ways. Exact results may be any
integers; checked arithmetic has no answer where the exact result is out of range; and wrapping
arithmetic puts the integer in its place that has the same lowest bits. As long as all exact
results are in range, nobody can tell which of the three it is.

A calculation is a tree (`Calculation`): an operation, and how to go on with its result, which
may choose the operations that follow. Its trace is what is actually done, when the results are
settled in one way or another: the operations with their operands, in order, and the answer
(`Calculation.trace`).

Reading an integer is a calculation for each direction (`Numeral.goingUp`, `Numeral.goingDown`).
The two differ in what they do with one digit, and share the loop over the digits.

* `Calculation.StaysIn`: the exact results are in range, and the answer has a property. It is
  found out operation by operation, and for a calculation that goes on from the answer of
  another one (`StaysIn.bind`).
* `Numeral.staysIn_digitUp` and `Numeral.staysIn_digitDown`: one digit. Going up, the number
  stays between zero and the greatest integer of the kind, and going down between the least one
  and zero; these are the invariants of the loop (`Numeral.staysIn_appendDigits`).

Main statement: `Numeral.reading_fits`.
-/

namespace TextParsing

/-! ### Calculations -/

/-- An operation on two integers. A quotient has no fraction. -/
inductive Operation where
  | times (a b : Int)
  | plus (a b : Int)
  | minus (a b : Int)
  | quotient (a b : Int)
  deriving DecidableEq

/-- The exact result. -/
def Operation.exact : Operation → Int
  | times a b => a * b
  | plus a b => a + b
  | minus a b => a - b
  | quotient a b => a.tdiv b

/-- A calculation: operations, each of which may depend on the results of those before it, and
    an answer. -/
inductive Calculation (α : Type) where
  /-- The answer. -/
  | done (a : α)
  /-- An operation, and how to go on with its result. -/
  | perform (op : Operation) (next : Int → Calculation α)

/-- The integer of the kind with the same lowest bits, as many as the kind has. -/
def IntKind.wrap : IntKind → Int → Int
  | unsigned w, v => (BitVec.ofInt w.bits v).toNat
  | signed w, v => (BitVec.ofInt w.bits v).toInt

theorem IntKind.wrap_eq {k : IntKind} {v : Int} (h : k.Holds v) : k.wrap v = v := by
  obtain ⟨hmin, hmax⟩ := h
  rcases k with w | w
  · simp only [min, max, Width.size, Nat.pow_eq] at hmin hmax
    rw [wrap, BitVec.toNat_ofInt]
    cases w <;> simp only [Width.bits] at hmax ⊢ <;> omega
  · simp only [min, max, Width.size, Nat.pow_eq] at hmin hmax
    rw [wrap, BitVec.toInt_ofInt]
    refine Int.bmod_eq_of_le_mul_two ?_ ?_ <;>
      cases w <;> simp only [Width.bits] at hmin hmax ⊢ <;> omega

namespace Calculation

variable {α β : Type}

/-- Goes on from the answer. -/
def bind (c : Calculation α) (f : α → Calculation β) : Calculation β :=
  match c with
  | done a => f a
  | perform op next => perform op fun v => (next v).bind f

/-- What is done in a calculation: the operations, in order, and the answer, unless one of the
    operations has no result. -/
structure Trace (α : Type) where
  operations : List Operation
  answer : Checked α

/-- What is done in a calculation, if `settle` makes the results of the operations out of the
    exact ones. -/
def trace (settle : Int → Checked Int) : Calculation α → Trace α
  | done a => ⟨[], .ok a⟩
  | perform op next =>
    match settle op.exact with
    | .ok v => let rest := (next v).trace settle; ⟨op :: rest.operations, rest.answer⟩
    | .error e => ⟨[op], .error e⟩

theorem answer_perform (settle : Int → Checked Int) (op : Operation)
    (next : Int → Calculation α) :
    ((perform op next).trace settle).answer =
      settle op.exact >>= fun v => ((next v).trace settle).answer := by
  rw [trace]
  cases settle op.exact <;> rfl

theorem answer_bind (settle : Int → Checked Int) (c : Calculation α) (f : α → Calculation β) :
    ((c.bind f).trace settle).answer =
      (c.trace settle).answer >>= fun a => ((f a).trace settle).answer := by
  induction c with
  | done a => rfl
  | perform op next ih =>
    rw [bind, answer_perform, answer_perform, bind_assoc]
    exact bind_congr ih

/-- In exact arithmetic there is always an answer. -/
theorem exists_answer_eq (c : Calculation α) : ∃ a, (c.trace .ok).answer = .ok a := by
  induction c with
  | done a => exact ⟨a, rfl⟩
  | perform op next ih => exact ih op.exact

/-- All exact results are integers of the kind, and `Q` holds of the answer. -/
def StaysIn (k : IntKind) (Q : α → Prop) : Calculation α → Prop
  | done a => Q a
  | perform op next => k.Holds op.exact ∧ (next op.exact).StaysIn k Q

namespace StaysIn

variable {k : IntKind} {c : Calculation α} {Q : α → Prop}

theorem bind {R : β → Prop} {f : α → Calculation β} (h : c.StaysIn k Q)
    (hf : ∀ a, Q a → (f a).StaysIn k R) : (c.bind f).StaysIn k R := by
  induction c with
  | done a => exact hf a h
  | perform op next ih => exact ⟨h.1, ih op.exact h.2⟩

theorem ite {p : Prop} [Decidable p] {c' : Calculation α} (h : p → c.StaysIn k Q)
    (h' : ¬p → c'.StaysIn k Q) : (if p then c else c').StaysIn k Q := by
  split
  · next hp => exact h hp
  · next hp => exact h' hp

theorem holds (h : c.StaysIn k Q) : ∀ op ∈ (c.trace .ok).operations, k.Holds op.exact := by
  induction c with
  | done a => exact List.forall_mem_nil _
  | perform op next ih => exact List.forall_mem_cons.2 ⟨h.1, ih op.exact h.2⟩

/-- However results out of range are settled, the same is done as in exact arithmetic. -/
theorem trace_eq (h : c.StaysIn k Q) {settle : Int → Checked Int}
    (hsettle : ∀ v, k.Holds v → settle v = .ok v) : c.trace settle = c.trace .ok := by
  induction c with
  | done a => rfl
  | perform op next ih =>
    rw [trace, trace, hsettle _ h.1]
    simp only [ih op.exact h.2]

end StaysIn

/-- The exact results are integers of the kind, and it makes no difference to what is done
    whether arithmetic is exact, checked or wrapping. -/
structure FitsIn (c : Calculation α) (k : IntKind) : Prop where
  holds : ∀ op ∈ (c.trace .ok).operations, k.min ≤ op.exact ∧ op.exact ≤ k.max
  checked : c.trace k.fit = c.trace .ok
  wrapping : c.trace (fun v => .ok (k.wrap v)) = c.trace .ok

theorem StaysIn.fitsIn {k : IntKind} {c : Calculation α} {Q : α → Prop} (h : c.StaysIn k Q) :
    c.FitsIn k where
  holds := h.holds
  checked := h.trace_eq fun _ hv => IntKind.fit_eq hv.1 hv.2
  wrapping := h.trace_eq fun _ hv => congrArg Except.ok (IntKind.wrap_eq hv)

end Calculation

/-! ### Reading integers -/

namespace Numeral

open Calculation

variable (k : IntKind)

/-- Appends a digit to a number that is not negative, if there is room for it. -/
def digitUp (bound value : Int) (d : Nat) : Calculation (Option Int) :=
  if bound < value then .done none
  else .perform (.times value (k.ofDigit 10)) fun scaled =>
    .perform (.minus k.max (k.ofDigit d)) fun room =>
      if room < scaled then .done none
      else .perform (.plus scaled (k.ofDigit d)) fun value => .done (some value)

/-- Appends a digit to a number that is zero or negative, if there is room for it. -/
def digitDown (bound value : Int) (d : Nat) : Calculation (Option Int) :=
  if value < bound then .done none
  else .perform (.times value (k.ofDigit 10)) fun scaled =>
    .perform (.plus k.min (k.ofDigit d)) fun room =>
      if scaled < room then .done none
      else .perform (.minus scaled (k.ofDigit d)) fun value => .done (some value)

/-- Appends one digit after the other, as long as there are digits and room for them. -/
def appendDigits (digit : Int → Nat → Calculation (Option Int)) (value : Int) :
    List UInt8 → Calculation (Option Int)
  | [] => .done (some value)
  | b :: bs =>
    match digit? b with
    | none => .done none
    | some d => (digit value d).bind fun o => o.elim (.done none) (appendDigits digit · bs)

/-- The calculation of `readUp`. -/
def goingUp (t : Text) : Calculation (Option Int) :=
  if t.isEmpty then .done none
  else .perform (.quotient k.max (k.ofDigit 10)) fun bound =>
    appendDigits (digitUp k bound) (k.ofDigit 0) t.bytes

/-- The calculation of `readDown`. -/
def goingDown (t : Text) : Calculation (Option Int) :=
  if t.isEmpty then .done none
  else .perform (.quotient k.min (k.ofDigit 10)) fun bound =>
    appendDigits (digitDown k bound) (k.ofDigit 0) t.bytes

/-! ### Reading is this calculation -/

theorem climb_cons {b : UInt8} {d : Nat} (hb : digit? b = some d) (bound value : Int)
    (bs : List UInt8) :
    climb k bound value (b :: bs) =
      ((digitUp k bound value d).trace k.fit).answer >>= fun o =>
        o.elim (.ok none) (climb k bound · bs) := by
  simp only [climb, hb, digitUp]
  split
  · rfl
  · simp only [answer_perform, bind_assoc]
    refine bind_congr fun scaled => bind_congr fun room => ?_
    split
    · rfl
    · rw [answer_perform, bind_assoc]
      rfl

theorem descend_cons {b : UInt8} {d : Nat} (hb : digit? b = some d) (bound value : Int)
    (bs : List UInt8) :
    descend k bound value (b :: bs) =
      ((digitDown k bound value d).trace k.fit).answer >>= fun o =>
        o.elim (.ok none) (descend k bound · bs) := by
  simp only [descend, hb, digitDown]
  split
  · rfl
  · simp only [answer_perform, bind_assoc]
    refine bind_congr fun scaled => bind_congr fun room => ?_
    split
    · rfl
    · rw [answer_perform, bind_assoc]
      rfl

/-- A loop that treats each digit as the calculation does is the calculation. -/
theorem eq_answer_appendDigits {digit : Int → Nat → Calculation (Option Int)}
    {loop : Int → List UInt8 → Checked (Option Int)} {settle : Int → Checked Int}
    (hnil : ∀ value, loop value [] = .ok (some value))
    (hnone : ∀ value b bs, digit? b = none → loop value (b :: bs) = .ok none)
    (hsome : ∀ value b bs d, digit? b = some d → loop value (b :: bs) =
      ((digit value d).trace settle).answer >>= fun o => o.elim (.ok none) (loop · bs))
    (value : Int) (bs : List UInt8) :
    loop value bs = ((appendDigits digit value bs).trace settle).answer := by
  induction bs generalizing value with
  | nil => exact hnil value
  | cons b bs ih =>
    rw [appendDigits]
    cases hb : digit? b with
    | none => exact hnone value b bs hb
    | some d =>
      rw [hsome value b bs d hb, answer_bind]
      refine bind_congr fun o => ?_
      cases o with
      | none => rfl
      | some value => exact ih value

theorem readUp_eq_answer (t : Text) : readUp k t = ((goingUp k t).trace k.fit).answer := by
  rw [readUp, goingUp]
  split
  · rfl
  · rw [answer_perform]
    refine bind_congr fun bound => eq_answer_appendDigits (fun _ => rfl) (fun value b bs hb => ?_)
      (fun value b bs d hb => climb_cons k hb bound value bs) _ _
    rw [climb, hb]

theorem readDown_eq_answer (t : Text) : readDown k t = ((goingDown k t).trace k.fit).answer := by
  rw [readDown, goingDown]
  split
  · rfl
  · rw [answer_perform]
    refine bind_congr fun bound => eq_answer_appendDigits (fun _ => rfl) (fun value b bs hb => ?_)
      (fun value b bs d hb => descend_cons k hb bound value bs) _ _
    rw [descend, hb]

/-! ### Reading stays in range -/

/-- The number, if there is one, lies between these two. -/
def Between (lo hi : Int) (o : Option Int) : Prop := o.elim True fun v => lo ≤ v ∧ v ≤ hi

theorem staysIn_digitUp {value : Int} {d : Nat} (hd : d ≤ 9) (h : 0 ≤ value ∧ value ≤ k.max) :
    (digitUp k (k.max.tdiv 10) value d).StaysIn k (Between 0 k.max) := by
  have hmax := k.le_max
  have hmin := k.min_le
  rw [k.max_tdiv_ten]
  refine .ite (fun _ => trivial) fun hvalue => ?_
  have hscaled : k.Holds (value * 10) := ⟨by omega, by omega⟩
  have hroom : k.Holds (k.max - d) := ⟨by omega, by omega⟩
  refine ⟨hscaled, hroom, .ite (fun _ => trivial) fun hle => ?_⟩
  have hle : ¬k.max - d < value * 10 := hle
  have hsum : 0 ≤ value * 10 + d ∧ value * 10 + d ≤ k.max := ⟨by omega, by omega⟩
  exact ⟨⟨Int.le_trans hmin hsum.1, hsum.2⟩, hsum⟩

/-- The bound is rounded towards zero, so that ten times a number that is not below it is not
    below the minimum. -/
theorem staysIn_digitDown {value : Int} {d : Nat} (hd : d ≤ 9) (h : k.min ≤ value ∧ value ≤ 0) :
    (digitDown k (k.min.tdiv 10) value d).StaysIn k (Between k.min 0) := by
  have hmax := k.le_max
  have hmin := k.min_le
  rw [k.min_tdiv_ten]
  refine .ite (fun _ => trivial) fun hvalue => ?_
  have hscaled : k.Holds (value * 10) := ⟨by omega, by omega⟩
  have hroom : k.Holds (k.min + d) := ⟨by omega, by omega⟩
  refine ⟨hscaled, hroom, .ite (fun _ => trivial) fun hle => ?_⟩
  have hle : ¬value * 10 < k.min + d := hle
  have hdifference : k.min ≤ value * 10 - d ∧ value * 10 - d ≤ 0 := ⟨by omega, by omega⟩
  exact ⟨⟨hdifference.1, Int.le_trans hdifference.2 (by omega)⟩, hdifference⟩

/-- What one digit keeps, all digits keep. -/
theorem staysIn_appendDigits {k : IntKind} {digit : Int → Nat → Calculation (Option Int)}
    {lo hi : Int} (hdigit : ∀ value d, d ≤ 9 → lo ≤ value ∧ value ≤ hi →
      (digit value d).StaysIn k (Between lo hi))
    {value : Int} (hvalue : lo ≤ value ∧ value ≤ hi) (bs : List UInt8) :
    (appendDigits digit value bs).StaysIn k (Between lo hi) := by
  induction bs generalizing value with
  | nil => exact hvalue
  | cons b bs ih =>
    rw [appendDigits]
    cases hb : digit? b with
    | none => trivial
    | some d =>
      refine (hdigit value d (digit?_le hb) hvalue).bind fun o ho => ?_
      cases o with
      | none => trivial
      | some v => exact ih ho

theorem staysIn_goingUp (t : Text) : (goingUp k t).StaysIn k (Between 0 k.max) := by
  have hmax := k.le_max
  have hmin := k.min_le
  have hbound := k.max_tdiv_ten
  have hquotient : k.Holds (k.max.tdiv 10) := ⟨by omega, by omega⟩
  refine .ite (fun _ => trivial) fun _ => ⟨hquotient, ?_⟩
  exact staysIn_appendDigits (fun _ _ => staysIn_digitUp k) ⟨Int.le_refl 0, by omega⟩ t.bytes

theorem staysIn_goingDown (t : Text) : (goingDown k t).StaysIn k (Between k.min 0) := by
  have hmax := k.le_max
  have hmin := k.min_le
  have hbound := k.min_tdiv_ten
  have hquotient : k.Holds (k.min.tdiv 10) := ⟨by omega, by omega⟩
  refine .ite (fun _ => trivial) fun _ => ⟨hquotient, ?_⟩
  exact staysIn_appendDigits (fun _ _ => staysIn_digitDown k) ⟨hmin, Int.le_refl 0⟩ t.bytes

/-- No operation of a reading leaves the range of the kind, in either direction and whatever the
    text: the exact result of every operation that is performed is an integer of the kind. So
    exact, checked and wrapping arithmetic perform the same operations and come to the same
    answer, and reading, which is checked, always comes to one. -/
theorem reading_fits (t : Text) :
    ((goingUp k t).FitsIn k ∧ readUp k t = ((goingUp k t).trace k.fit).answer ∧
      ∃ v, readUp k t = .ok v) ∧
    (goingDown k t).FitsIn k ∧ readDown k t = ((goingDown k t).trace k.fit).answer ∧
      ∃ v, readDown k t = .ok v := by
  have hup := (staysIn_goingUp k t).fitsIn
  have hdown := (staysIn_goingDown k t).fitsIn
  refine ⟨⟨hup, readUp_eq_answer k t, ?_⟩, hdown, readDown_eq_answer k t, ?_⟩
  · rw [readUp_eq_answer, hup.checked]
    exact exists_answer_eq _
  · rw [readDown_eq_answer, hdown.checked]
    exact exists_answer_eq _

/-- The least integer of eight bits, from its digits: the last operation just stays in range. -/
example : ((goingDown (.signed .w8) ['1', '2', '8']).trace .ok).operations =
    [.quotient (-128) 10, .times 0 10, .plus (-128) 1, .minus 0 1, .times (-1) 10, .plus (-128) 2,
      .minus (-10) 2, .times (-12) 10, .plus (-128) 8, .minus (-120) 8] := by
  decide

end Numeral

end TextParsing
