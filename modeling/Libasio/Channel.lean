import Mathlib.Data.List.Basic

/-!
# Lossless channels

A first-in first-out channel together with its history: what was pushed into
it, what has come out, and what is still inside. The law that nothing is lost,
duplicated or reordered is a field, so a channel that breaks it cannot be
built.
-/

/-- A queue of `α` with everything that ever went through it. -/
structure Channel (α : Type*) where
  accepted : List α
  delivered : List α
  pending : List α
  conserved : delivered ++ pending = accepted

namespace Channel

variable {α : Type*}

def empty : Channel α := ⟨[], [], [], rfl⟩

/-- Append at the back. -/
def push (ch : Channel α) (xs : List α) : Channel α where
  accepted := ch.accepted ++ xs
  delivered := ch.delivered
  pending := ch.pending ++ xs
  conserved := by rw [← List.append_assoc, ch.conserved]

/-- Deliver `n` elements from the front. -/
def pop (ch : Channel α) (n : Nat) : Channel α where
  accepted := ch.accepted
  delivered := ch.delivered ++ ch.pending.take n
  pending := ch.pending.drop n
  conserved := by rw [List.append_assoc, List.take_append_drop, ch.conserved]

@[simp] theorem push_nil (ch : Channel α) : ch.push [] = ch := by
  cases ch
  simp [push]

@[simp] theorem pop_zero (ch : Channel α) : ch.pop 0 = ch := by
  cases ch
  simp [pop]

/-- One operation, or none. -/
inductive Step : Channel α → Channel α → Prop
  | idle (ch : Channel α) : Step ch ch
  | push (ch : Channel α) (xs : List α) : Step ch (ch.push xs)
  | pop (ch : Channel α) (n : Nat) : Step ch (ch.pop n)

end Channel
