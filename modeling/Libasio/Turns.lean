import Mathlib.Algebra.BigOperators.Group.List.Basic
import Mathlib.Data.List.Basic
import Mathlib.Algebra.Order.Ring.Int

/-!
# Operations in turn

A trace in which the start of an operation counts one and its end minus one.
The operations take turns when no two of them are ever outstanding together.

## Main definitions

- `Turns.outstanding` — operations started and not ended
- `Turns.InTurn` — at most one is outstanding at any point of the trace
-/

namespace Turns

variable {α : Type*} {f : α → Int} {t u : List α} {busy busy' : Bool}

/-- Operations started minus operations ended. -/
def outstanding (f : α → Int) (t : List α) : Int := (t.map f).sum

/-- At every point of the trace at most one operation is outstanding, and at its
end one is exactly when `busy`. -/
structure InTurn (f : α → Int) (t : List α) (busy : Bool) : Prop where
  now : outstanding f t = if busy then 1 else 0
  always : ∀ p, p <+: t → outstanding f p = 0 ∨ outstanding f p = 1

theorem outstanding_snoc (f : α → Int) (t : List α) (o : α) :
    outstanding f (t ++ [o]) = outstanding f t + f o := by
  simp [outstanding]

theorem InTurn.nil (f : α → Int) : InTurn f [] false := by
  refine ⟨rfl, fun p hp => ?_⟩
  obtain rfl : p = [] := List.prefix_nil.mp hp
  exact Or.inl rfl

theorem InTurn.snoc {o : α} (h : InTurn f t busy)
    (ho : (if busy then 1 else 0) + f o = if busy' then 1 else 0) :
    InTurn f (t ++ [o]) busy' := by
  have hnow : outstanding f (t ++ [o]) = if busy' then 1 else 0 := by
    rw [outstanding_snoc, h.now, ho]
  refine ⟨hnow, fun p hp => ?_⟩
  rcases List.prefix_concat_iff.mp hp with rfl | hp
  · rw [hnow]
    cases busy' with
    | true => exact Or.inr rfl
    | false => exact Or.inl rfl
  · exact h.always p hp

/-- What is neither a start nor an end does not count. -/
theorem InTurn.append (h : InTurn f t busy) (hu : ∀ o ∈ u, f o = 0) : InTurn f (t ++ u) busy := by
  induction u generalizing t with
  | nil => rwa [List.append_nil]
  | cons o u ih =>
    have ho : f o = 0 := hu o List.mem_cons_self
    have hsnoc : InTurn f (t ++ [o]) busy := h.snoc (by rw [ho, add_zero])
    rw [List.append_cons]
    exact ih hsnoc fun o' ho' => hu o' (List.mem_cons_of_mem o ho')

end Turns
