import Mathlib.Data.Int.CardIntervalMod
import Mathlib.Data.List.Basic

/-!
# Round robin

Requests that draw consecutive numbers from a counter, each served by the server
whose number is the remainder. Over any window of consecutive requests two servers
are chosen equally often, up to one.

## Main definitions

- `RoundRobin.Drawn` — the requests have drawn consecutive numbers
- `RoundRobin.Chosen` — a request is served by a server

## Main results

- `RoundRobin.Drawn.fair` — no server is chosen twice more than another in a window
-/

namespace RoundRobin

variable {α : Type*} {number : α → Nat} {start n : Nat} {xs : List α}

/-- The requests have drawn consecutive numbers from `start` on. -/
def Drawn (number : α → Nat) (start : Nat) (xs : List α) : Prop :=
  xs.map number = List.range' start xs.length

theorem Drawn.nil : Drawn number start [] := rfl

theorem Drawn.snoc {x : α} (h : Drawn number start xs) (hx : number x = start + xs.length) :
    Drawn number start (xs ++ [x]) := by
  rw [Drawn, List.map_append, h, List.map_singleton, hx, List.length_append,
    List.length_singleton, List.range'_1_concat]

/-- A request that goes on keeps its number. -/
theorem Drawn.set {x y : α} {k : Nat} (h : Drawn number start xs) (hx : xs[k]? = some x)
    (hy : number y = number x) : Drawn number start (xs.set k y) := by
  obtain ⟨hlt, rfl⟩ := List.getElem?_eq_some_iff.mp hx
  have hsame : (xs.map number).set k (number xs[k]) = xs.map number := by
    rw [← List.map_set, List.set_getElem_self]
  rw [Drawn, List.map_set, hy, hsame, List.length_set]
  exact h

/-- A window of the requests has drawn consecutive numbers as well. -/
theorem Drawn.infix {window : List α} (h : Drawn number start xs) (hw : window <:+: xs) :
    ∃ s, Drawn number s window := by
  obtain ⟨before, after, rfl⟩ := hw
  refine ⟨start + before.length, ?_⟩
  simp only [Drawn, List.map_append, List.length_append, ← List.range'_append_1] at h
  obtain ⟨h, -⟩ := List.append_inj h (by simp)
  exact (List.append_inj h (by simp)).2

/-- The request is served by the server `i` of `n`. -/
def Chosen (number : α → Nat) (n i : Nat) (x : α) : Prop := number x % n = i

instance (i : Nat) : DecidablePred (Chosen number n i) :=
  fun _ => inferInstanceAs (Decidable (_ = _))

/-- How often a server is chosen in a window that ends before the number `start + m`. -/
theorem countP_range' (n start i m : Nat) :
    Nat.count (fun k => k % n = i) start + (List.range' start m).countP (fun k => k % n = i) =
      Nat.count (fun k => k % n = i) (start + m) := by
  induction m with
  | zero => simp
  | succ m ih =>
    rw [List.range'_1_concat, List.countP_append, ← Nat.add_assoc, ih, ← Nat.add_assoc,
      Nat.count_succ, List.countP_singleton]
    simp

theorem count_mod (hi : i < n) (b : Nat) :
    Nat.count (fun k => k % n = i) b = b / n + if i < b % n then 1 else 0 := by
  have h := Nat.count_modEq_card b (Nat.zero_lt_of_lt hi) i
  simpa only [Nat.ModEq, Nat.mod_eq_of_lt hi] using h

/-- No server is chosen more often than another one by more than one. -/
theorem Drawn.balanced {i j : Nat} (h : Drawn number start xs) (hi : i < n) (hj : j < n) :
    xs.countP (Chosen number n i) ≤ xs.countP (Chosen number n j) + 1 := by
  have hcount : ∀ k, xs.countP (Chosen number n k) =
      (List.range' start xs.length).countP (fun l => l % n = k) := by
    intro k
    rw [← h, List.countP_map]
    rfl
  have hwi := countP_range' n start i xs.length
  have hwj := countP_range' n start j xs.length
  rw [hcount, hcount]
  rw [count_mod hi, count_mod hi] at hwi
  rw [count_mod hj, count_mod hj] at hwj
  split_ifs at hwi hwj <;> omega

/-- The same over every window of consecutive requests. -/
theorem Drawn.fair {window : List α} {i j : Nat} (h : Drawn number start xs)
    (hw : window <:+: xs) (hi : i < n) (hj : j < n) :
    window.countP (Chosen number n i) ≤ window.countP (Chosen number n j) + 1 := by
  obtain ⟨s, hs⟩ := h.infix hw
  exact hs.balanced hi hj

end RoundRobin
