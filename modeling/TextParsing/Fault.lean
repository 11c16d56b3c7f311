/-!
# Faults

Texts are cut at byte offsets, cursors are sent to byte offsets, and integers
of a bounded kind are added and multiplied. Each of these operations has
arguments for which it has no answer: an offset inside a unit or past the end,
a sum out of range. Here they give a `Fault` instead of an answer, and what is
computed from them is `Checked`.

A fault is not the failure of a parse. A parser that does not match fails and
leaves a label; a fault says that a computation went where it has no business
being, and nothing recovers from it.
-/

namespace TextParsing

/-- An operation was asked for something that it has no answer to. -/
inductive Fault where
  /-- The bytes from `start` to `stop` are not a run of whole units of the text. -/
  | slice (start stop : Nat)
  /-- A cursor was sent to a byte offset inside a unit, or past the end. -/
  | boundary (position : Nat)
  /-- An integer operation left the range of its kind, with the exact result
      `value`. -/
  | overflow (value : Int)
  deriving DecidableEq

/-- A computation that may come to a fault. -/
abbrev Checked := Except Fault

/-- The answer of a partial operation, or the fault that stands for its absence. -/
def Checked.ofOption {α : Type} (fault : Fault) : Option α → Checked α
  | some a => .ok a
  | none => .error fault

namespace Checked

variable {α β : Type}

@[simp] theorem pure_eq (a : α) : (pure a : Checked α) = .ok a := rfl

@[simp] theorem ok_bind (a : α) (f : α → Checked β) : (Except.ok a >>= f : Checked β) = f a := rfl

@[simp] theorem error_bind (e : Fault) (f : α → Checked β) :
    (Except.error e >>= f : Checked β) = .error e := rfl

/-- A computation with an answer has one at each step. -/
theorem bind_eq_ok {x : Checked α} {f : α → Checked β} {b : β} (h : x >>= f = .ok b) :
    ∃ a, x = .ok a ∧ f a = .ok b := by
  cases x with
  | error e => exact nomatch h
  | ok a => exact ⟨a, rfl, h⟩

end Checked

end TextParsing
