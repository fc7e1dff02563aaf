import Mathlib.Data.List.Basic

/-!
# Vectors with a largest size

`std::vector` of items: a list that is never longer than `max_size`. A vector that has
to become longer may need memory that is not there.

## Main definitions

- `StdVector` — the vector, with its bound
- `StdVector.resize` — `resize`, which throws and leaves the vector as it was

## Main results

- `StdVector.resize_cases` — the ways in which `resize` ends
-/

@[ext]
structure StdVector (α : Type*) (maxSize : Nat) where
  items : List α
  length_le : items.length ≤ maxSize
  deriving DecidableEq

namespace StdVector

variable {α : Type*} {maxSize : Nat}

def empty : StdVector α maxSize := ⟨[], Nat.zero_le _⟩

/-- The items after a change of the length: cut, or filled up. -/
def resized (l : List α) (n : Nat) (fill : α) : List α :=
  l.take n ++ List.replicate (n - l.length) fill

@[simp] theorem length_resized (l : List α) (n : Nat) (fill : α) :
    (resized l n fill).length = n := by
  simp only [resized, List.length_append, List.length_take, List.length_replicate]
  omega

/-- What `resize` can throw. -/
inductive Failure
  | lengthError | badAlloc
  deriving DecidableEq

/-- `resize(n)`. `alloc` says whether there is memory for a longer vector; one that is
cut needs none. -/
def resize (v : StdVector α maxSize) (n : Nat) (fill : α) (alloc : Bool) :
    Except Failure (StdVector α maxSize) :=
  if h : n ≤ maxSize then
    if v.items.length < n ∧ alloc = false then .error .badAlloc
    else .ok ⟨resized v.items n fill, by rwa [length_resized]⟩
  else .error .lengthError

theorem resize_cases (v : StdVector α maxSize) (n : Nat) (fill : α) (alloc : Bool) :
    (∃ e, v.resize n fill alloc = .error e ∧
      (maxSize < n ∨ v.items.length < n ∧ alloc = false)) ∨
    ∃ v', v.resize n fill alloc = .ok v' ∧ v'.items = resized v.items n fill ∧
      n ≤ maxSize ∧ ¬(v.items.length < n ∧ alloc = false) := by
  unfold resize
  by_cases hmax : n ≤ maxSize
  · rw [dif_pos hmax]
    by_cases hmem : v.items.length < n ∧ alloc = false
    · rw [if_pos hmem]
      exact .inl ⟨_, rfl, .inr hmem⟩
    · rw [if_neg hmem]
      exact .inr ⟨_, rfl, rfl, hmax, hmem⟩
  · rw [dif_neg hmax]
    exact .inl ⟨_, rfl, .inl (Nat.lt_of_not_le hmax)⟩

end StdVector
