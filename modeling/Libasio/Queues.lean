import Mathlib.Data.List.Basic

/-!
# Collections of values, collections of queues

A collection of values that are addressed by number. An operation makes a new value,
changes one in place, makes one from another or changes two different values
together. A relation between the values of two collections that is kept by each of
their operations is kept by every operation on the collections.

## Main definitions

- `Slots.Op`, `Slots.step` — the operations on a collection
- `Slots.Related`, `Slots.Follows` — relations between collections and operations
- `Slots.Shows` — what an operation does to the images of the values
- `Fifo.Op`, `Fifo.step` — collections of first-in-first-out queues

## Main results

- `Slots.step_follows` — related collections stay related under operations that follow
  each other
- `Slots.step_shows` — the images of the values after an operation
- `Slots.forall_step_iff` — all values keep a property if those that are written have it
-/

namespace Slots

variable {α β : Type*}

/-- An operation on a collection. -/
inductive Op (α : Type*)
  | create (a : α)
  | update (i : Nat) (f : α → Option α)        -- `none` when it is not allowed
  | derive (i : Nat) (f : α → α × α)           -- the new value, and what is left of value `i`
  | pair (i j : Nat) (f : α → α → α × α)       -- two different values; one alone stays

def step (xs : List α) : Op α → Option (List α)
  | .create a => some (xs ++ [a])
  | .update i f =>
    match xs[i]? with
    | some a => (f a).map fun a' => xs.set i a'
    | none => none
  | .derive i f =>
    match xs[i]? with
    | some a => some (xs.set i (f a).2 ++ [(f a).1])
    | none => none
  | .pair i j f =>
    match xs[i]?, xs[j]? with
    | some a, some b => some (if i = j then xs else (xs.set i (f a b).1).set j (f a b).2)
    | _, _ => none

-- ════════════════════════════════════════════════════════════════════════
-- Related collections
-- ════════════════════════════════════════════════════════════════════════

/-- The collections have the same numbers, with related values. -/
structure Related (R : α → β → Prop) (xs : List α) (ys : List β) : Prop where
  length : xs.length = ys.length
  related : ∀ (i : Nat) a b, xs[i]? = some a → ys[i]? = some b → R a b

variable {R : α → β → Prop} {xs xs' : List α} {ys : List β}

theorem Related.nil : Related R ([] : List α) ([] : List β) := ⟨rfl, by simp⟩

theorem Related.get {i : Nat} {a : α} (h : Related R xs ys) (ha : xs[i]? = some a) :
    ∃ b, ys[i]? = some b ∧ R a b := by
  have hlt : i < ys.length := h.length ▸ (List.getElem?_eq_some_iff.mp ha).1
  have hb : ys[i]? = some ys[i] := List.getElem?_eq_getElem hlt
  exact ⟨ys[i], hb, h.related i a _ ha hb⟩

theorem Related.set {a : α} {b : β} (h : Related R xs ys) (hab : R a b) (i : Nat) :
    Related R (xs.set i a) (ys.set i b) := by
  refine ⟨by simp [h.length], fun j a' b' ha hb => ?_⟩
  by_cases hij : i = j
  · subst hij
    rw [List.getElem?_set_self'] at ha hb
    obtain ⟨-, -, rfl⟩ := Option.map_eq_some_iff.mp ha
    obtain ⟨-, -, rfl⟩ := Option.map_eq_some_iff.mp hb
    exact hab
  · rw [List.getElem?_set_ne hij] at ha hb
    exact h.related j a' b' ha hb

theorem Related.snoc {a : α} {b : β} (h : Related R xs ys) (hab : R a b) :
    Related R (xs ++ [a]) (ys ++ [b]) := by
  refine ⟨by simp [h.length], fun j a' b' ha hb => ?_⟩
  rw [List.getElem?_append] at ha hb
  rw [h.length] at ha
  split at ha
  · next hlt =>
    rw [if_pos hlt] at hb
    exact h.related j a' b' ha hb
  · next hge =>
    rw [if_neg hge] at hb
    obtain ⟨-, rfl⟩ := List.getElem?_eq_some_iff.mp ha
    obtain ⟨-, rfl⟩ := List.getElem?_eq_some_iff.mp hb
    simpa using hab

/-- The second operation does to related values what the first one does. -/
inductive Follows (R : α → β → Prop) : Op α → Op β → Prop
  | create {a : α} {b : β} (h : R a b) : Follows R (.create a) (.create b)
  | update {i : Nat} {f : α → Option α} {g : β → Option β}
      (h : ∀ a b a', R a b → f a = some a' → ∃ b', g b = some b' ∧ R a' b') :
      Follows R (.update i f) (.update i g)
  | derive {i : Nat} {f : α → α × α} {g : β → β × β}
      (h : ∀ a b, R a b → R (f a).1 (g b).1 ∧ R (f a).2 (g b).2) :
      Follows R (.derive i f) (.derive i g)
  | pair {i j : Nat} {f : α → α → α × α} {g : β → β → β × β}
      (h : ∀ a a' b b', R a b → R a' b' → R (f a a').1 (g b b').1 ∧ R (f a a').2 (g b b').2) :
      Follows R (.pair i j f) (.pair i j g)

theorem step_follows {o : Op α} {o' : Op β} (h : Related R xs ys) (ho : Follows R o o')
    (hs : step xs o = some xs') : ∃ ys', step ys o' = some ys' ∧ Related R xs' ys' := by
  cases ho with
  | create hab =>
    cases hs
    exact ⟨_, rfl, h.snoc hab⟩
  | @update i f g hfg =>
    simp only [step] at hs
    split at hs
    · next a ha =>
      obtain ⟨a', hf, rfl⟩ := Option.map_eq_some_iff.mp hs
      obtain ⟨b, hb, hab⟩ := h.get ha
      obtain ⟨b', hg, hab'⟩ := hfg a b a' hab hf
      exact ⟨ys.set i b', by simp only [step, hb, hg, Option.map_some], h.set hab' i⟩
    · cases hs
  | @derive i f g hfg =>
    simp only [step] at hs
    split at hs
    · next a ha =>
      cases hs
      obtain ⟨b, hb, hab⟩ := h.get ha
      obtain ⟨hnew, hleft⟩ := hfg a b hab
      exact ⟨_, by simp only [step, hb], (h.set hleft i).snoc hnew⟩
    · cases hs
  | @pair i j f g hfg =>
    simp only [step] at hs
    split at hs
    · next a a' ha ha' =>
      cases hs
      obtain ⟨b, hb, hab⟩ := h.get ha
      obtain ⟨b', hb', hab'⟩ := h.get ha'
      obtain ⟨hfst, hsnd⟩ := hfg a a' b b' hab hab'
      refine ⟨if i = j then ys else (ys.set i (g b b').1).set j (g b b').2,
        by simp only [step, hb, hb'], ?_⟩
      split
      · exact h
      · exact (h.set hfst i).set hsnd j
    · cases hs

-- ════════════════════════════════════════════════════════════════════════
-- Images
-- ════════════════════════════════════════════════════════════════════════

/-- To the images of the values that are there, the second operation does what the first
one does to the values. -/
inductive Shows (r : α → β) (xs : List α) : Op α → Op β → Prop
  | create {a : α} : Shows r xs (.create a) (.create (r a))
  | update {i : Nat} {f : α → Option α} {g : β → Option β}
      (h : ∀ a ∈ xs[i]?, ∀ a' ∈ f a, g (r a) = some (r a')) :
      Shows r xs (.update i f) (.update i g)
  | derive {i : Nat} {f : α → α × α} {g : β → β × β}
      (h : ∀ a ∈ xs[i]?, g (r a) = (r (f a).1, r (f a).2)) :
      Shows r xs (.derive i f) (.derive i g)
  | pair {i j : Nat} {f : α → α → α × α} {g : β → β → β × β}
      (h : i ≠ j → ∀ a ∈ xs[i]?, ∀ b ∈ xs[j]?, g (r a) (r b) = (r (f a b).1, r (f a b).2)) :
      Shows r xs (.pair i j f) (.pair i j g)

theorem step_shows {r : α → β} {o : Op α} {o' : Op β} (ho : Shows r xs o o')
    (hs : step xs o = some xs') : step (xs.map r) o' = some (xs'.map r) := by
  cases ho with
  | create =>
    cases hs
    simp only [step, List.map_append, List.map_cons, List.map_nil]
  | @update i f g hfg =>
    simp only [step] at hs
    split at hs
    · next a ha =>
      obtain ⟨a', hf, rfl⟩ := Option.map_eq_some_iff.mp hs
      simp only [step, List.getElem?_map, ha, Option.map_some, hfg a ha a' hf, List.map_set]
    · cases hs
  | @derive i f g hfg =>
    simp only [step] at hs
    split at hs
    · next a ha =>
      cases hs
      simp only [step, List.getElem?_map, ha, Option.map_some, hfg a ha, List.map_append,
        List.map_set, List.map_cons, List.map_nil]
    · cases hs
  | @pair i j f g hfg =>
    simp only [step] at hs
    split at hs
    · next a b ha hb =>
      cases hs
      simp only [step, List.getElem?_map, ha, hb, Option.map_some]
      split
      · rfl
      · next hij => simp only [hfg hij a ha b hb, List.map_set]
    · cases hs

-- ════════════════════════════════════════════════════════════════════════
-- A property of all values
-- ════════════════════════════════════════════════════════════════════════

/-- The values that an operation puts into the collection have the property. -/
def Puts (P : α → Prop) (xs : List α) : Op α → Prop
  | .create a => P a
  | .update i f => ∀ a ∈ xs[i]?, ∀ a' ∈ f a, P a'
  | .derive i f => ∀ a ∈ xs[i]?, P (f a).1 ∧ P (f a).2
  | .pair i j f => i ≠ j → ∀ a ∈ xs[i]?, ∀ b ∈ xs[j]?, P (f a b).1 ∧ P (f a b).2

theorem forall_mem_set_iff {P : α → Prop} (h : ∀ a ∈ xs, P a) {i : Nat} (hi : i < xs.length)
    (b : α) : (∀ a ∈ xs.set i b, P a) ↔ P b := by
  constructor
  · exact fun hset => hset b (List.mem_set hi b)
  · intro hb a ha
    obtain hmem | rfl := List.mem_or_eq_of_mem_set ha
    · exact h a hmem
    · exact hb

/-- If all values have a property, then all values after an operation have it exactly when
those have it that the operation has put in. -/
theorem forall_step_iff {P : α → Prop} {o : Op α} (h : ∀ a ∈ xs, P a)
    (hs : step xs o = some xs') : (∀ a ∈ xs', P a) ↔ Puts P xs o := by
  cases o with
  | create a =>
    cases hs
    rw [List.forall_mem_append, List.forall_mem_singleton]
    exact and_iff_right h
  | update i f =>
    simp only [step] at hs
    split at hs
    · next a ha =>
      obtain ⟨a', hf, rfl⟩ := Option.map_eq_some_iff.mp hs
      rw [forall_mem_set_iff h (List.getElem?_eq_some_iff.mp ha).1]
      simp only [Puts, ha, hf, Option.mem_some_iff, forall_eq']
    · cases hs
  | derive i f =>
    simp only [step] at hs
    split at hs
    · next a ha =>
      cases hs
      rw [List.forall_mem_append, forall_mem_set_iff h (List.getElem?_eq_some_iff.mp ha).1,
        List.forall_mem_singleton]
      simp only [Puts, ha, Option.mem_some_iff, forall_eq']
      exact and_comm
    · cases hs
  | pair i j f =>
    simp only [step] at hs
    split at hs
    · next a b ha hb =>
      cases hs
      simp only [Puts, ha, hb, Option.mem_some_iff, forall_eq']
      split
      · next hij => exact iff_of_true h fun hne => absurd hij hne
      · next hij =>
        have hi := (List.getElem?_eq_some_iff.mp ha).1
        have hj : j < (xs.set i (f a b).1).length := by
          rw [List.length_set]
          exact (List.getElem?_eq_some_iff.mp hb).1
        constructor
        · intro hset _
          have hfst : (f a b).1 ∈ (xs.set i (f a b).1).set j (f a b).2 :=
            List.mem_of_getElem? (i := i) (by
              rw [List.getElem?_set_ne (Ne.symm hij), List.getElem?_set_self hi])
          exact ⟨hset _ hfst, hset _ (List.mem_set hj (f a b).2)⟩
        · intro hnew
          obtain ⟨hfst, hsnd⟩ := hnew hij
          exact (forall_mem_set_iff ((forall_mem_set_iff h hi _).mpr hfst) hj _).mpr hsnd
    · cases hs

end Slots

namespace Fifo

/-- An operation on a collection of queues. -/
inductive Op (α : Type*)
  | create
  | copy (i : Nat)
  | move (i : Nat)
  | assign (i j : Nat)
  | moveAssign (i j : Nat)
  | clear (i : Nat)
  | drop (i k : Nat)
  | append (i : Nat) (xs : List α)
  | keep (i : Nat)
  | exchange (i j : Nat)

variable {α : Type*}

def Op.act : Op α → Slots.Op (List α)
  | create => .create []
  | copy i => .derive i fun q => (q, q)
  | move i => .derive i fun q => (q, [])
  | assign i j => .pair i j fun _ q => (q, q)
  | moveAssign i j => .pair i j fun _ q => (q, [])
  | clear i => .update i fun _ => some []
  | drop i k => .update i fun q => if k ≤ q.length then some (q.drop k) else none
  | append i xs => .update i fun q => some (q ++ xs)
  | keep i => .update i some
  | exchange i j => .pair i j fun p q => (q, p)

def step (qs : List (List α)) (op : Op α) : Option (List (List α)) := Slots.step qs op.act

end Fifo
