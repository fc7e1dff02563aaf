import Mathlib.Data.Nat.Basic
import Mathlib.Tactic.Linarith

/-!
# Timers whose handler waits again

A timer of an event loop. A wait ends when the expiry time has come, or is changed; the
loop then runs its handler. Here all waits have the same handler, one that does not look
at how its wait has ended, and it may put the expiry time off by a period and wait again.

## Main definitions

- `SteadyTimer` — the expiry time, and the waits
- `SteadyTimer.prolong` — what the handler does
- `SteadyTimer.Paced` — one wait at most, and no handler has run too early

## Main results

- `SteadyTimer.Paced.beat` — with one wait the handler does not run more than once a period
- `SteadyTimer.ended_pos` — with two of them there is always a handler to run
- `SteadyTimer.reserve_beat` — with one, the runs left without any time passing are bounded
-/

structure SteadyTimer where
  expiry : Nat
  waiting : Nat           -- waits that have not ended
  ended : Nat             -- waits that have, with their handlers still to be run
  deriving DecidableEq

namespace SteadyTimer

/-- `expires_at` ends the waits. -/
def expiresAt (t : SteadyTimer) (time : Nat) : SteadyTimer := ⟨time, 0, t.ended + t.waiting⟩

def asyncWait (t : SteadyTimer) : SteadyTimer := { t with waiting := t.waiting + 1 }

/-- The expiry time has come. -/
def expire (t : SteadyTimer) (now : Nat) : Option SteadyTimer :=
  if t.expiry ≤ now ∧ 0 < t.waiting then some ⟨t.expiry, 0, t.ended + t.waiting⟩ else none

/-- The loop takes a handler. -/
def invoke (t : SteadyTimer) : Option SteadyTimer :=
  if 0 < t.ended then some { t with ended := t.ended - 1 } else none

def prolong (t : SteadyTimer) (period : Nat) : SteadyTimer :=
  (t.expiresAt (t.expiry + period)).asyncWait

def pending (t : SteadyTimer) : Nat := t.waiting + t.ended

variable {t t' : SteadyTimer} {period beats now : Nat}

theorem expire_cases (h : t.expire now = some t') : t.expiry ≤ now ∧ 0 < t.waiting ∧
    t' = ⟨t.expiry, 0, t.ended + t.waiting⟩ := by
  obtain ⟨⟨hdue, hpos⟩, ⟨⟩⟩ := Option.ite_none_right_eq_some.mp h
  exact ⟨hdue, hpos, rfl⟩

theorem invoke_cases (h : t.invoke = some t') :
    0 < t.ended ∧ t' = { t with ended := t.ended - 1 } := by
  obtain ⟨hpos, ⟨⟩⟩ := Option.ite_none_right_eq_some.mp h
  exact ⟨hpos, rfl⟩

@[simp] theorem expiry_prolong (t : SteadyTimer) (period : Nat) :
    (t.prolong period).expiry = t.expiry + period := rfl

@[simp] theorem waiting_prolong (t : SteadyTimer) (period : Nat) :
    (t.prolong period).waiting = 1 := rfl

@[simp] theorem ended_prolong (t : SteadyTimer) (period : Nat) :
    (t.prolong period).ended = t.ended + t.waiting := rfl

theorem pending_expire (h : t.expire now = some t') : t'.pending = t.pending := by
  obtain ⟨-, -, rfl⟩ := expire_cases h
  simp only [pending]
  omega

theorem pending_invoke (h : t.invoke = some t') : t'.pending + 1 = t.pending := by
  obtain ⟨hpos, rfl⟩ := invoke_cases h
  simp only [pending]
  omega

theorem pending_prolong (t : SteadyTimer) (period : Nat) :
    (t.prolong period).pending = t.pending + 1 := by
  simp only [pending, waiting_prolong, ended_prolong]
  omega

-- ════════════════════════════════════════════════════════════════════════
-- One wait
-- ════════════════════════════════════════════════════════════════════════

/-- There is one wait at most, and the handler has run no more than once a period. -/
structure Paced (period beats now : Nat) (t : SteadyTimer) : Prop where
  single : t.pending ≤ 1
  past : period * beats ≤ now
  next : 0 < t.pending → period * (beats + 1) ≤ t.expiry
  due : 0 < t.ended → t.expiry ≤ now

theorem Paced.tick (h : Paced period beats now t) (d : Nat) : Paced period beats (now + d) t :=
  ⟨h.single, Nat.le_add_right_of_le h.past, h.next, fun he => Nat.le_add_right_of_le (h.due he)⟩

theorem Paced.expire (h : Paced period beats now t) (he : t.expire now = some t') :
    Paced period beats now t' := by
  have hpending := pending_expire he
  obtain ⟨hdue, -, rfl⟩ := expire_cases he
  exact ⟨hpending ▸ h.single, h.past, fun hp => h.next (hpending ▸ hp), fun _ => hdue⟩

/-- A handler that does nothing. -/
theorem Paced.invoke (h : Paced period beats now t) (he : t.invoke = some t') :
    Paced period beats now t' := by
  have hpending := pending_invoke he
  have hsingle := h.single
  obtain ⟨hpos, rfl⟩ := invoke_cases he
  exact ⟨by omega, h.past, fun _ => h.next (by omega), fun _ => h.due hpos⟩

/-- A handler that waits again. -/
theorem Paced.beat (h : Paced period beats now t) (he : t.invoke = some t') :
    Paced period (beats + 1) now (t'.prolong period) := by
  have hpending := pending_invoke he
  have hsingle := h.single
  obtain ⟨hpos, rfl⟩ := invoke_cases he
  have hnext := h.next (by omega)
  refine ⟨by rw [pending_prolong]; omega, Nat.le_trans hnext (h.due hpos), fun _ => ?_, ?_⟩
  · rw [expiry_prolong, Nat.mul_add, Nat.mul_one]
    exact Nat.add_le_add_right hnext period
  · intro hended
    simp only [ended_prolong, pending] at hended hsingle
    omega

/-- The first wait of a timer that has none. -/
theorem Paced.start (h : Paced period beats now t) (hnone : t.pending = 0) :
    Paced period beats now ((t.expiresAt (now + period)).asyncWait) := by
  obtain ⟨hwaiting, hended⟩ := Nat.add_eq_zero_iff.mp hnone
  refine ⟨?_, h.past, fun _ => ?_, fun hpos => ?_⟩
  · simp only [pending, expiresAt, asyncWait, hwaiting, hended]
    omega
  · exact Nat.add_le_add_right h.past period
  · simp only [expiresAt, asyncWait, hwaiting, hended] at hpos
    omega

-- ════════════════════════════════════════════════════════════════════════
-- Two waits
-- ════════════════════════════════════════════════════════════════════════

/-- Changing the expiry time ends the waits, so only one of them has not ended. -/
theorem ended_pos (hone : t.waiting ≤ 1) (htwo : 2 ≤ t.pending) : 0 < t.ended := by
  simp only [pending] at htwo
  omega

/-- How often the handler can still run and wait again before time has to pass. -/
def reserve (now : Nat) (t : SteadyTimer) : Nat :=
  (if 0 < t.ended ∧ now < t.expiry then 1 else 0) + (now + 1 - t.expiry)

theorem reserve_expire (h : t.expire now = some t') : t'.reserve now = t.reserve now := by
  obtain ⟨hdue, -, rfl⟩ := expire_cases h
  simp only [reserve, Nat.not_lt.mpr hdue, and_false, if_false]

theorem reserve_beat (hperiod : 0 < period) (hsingle : t.pending ≤ 1) (h : t.invoke = some t') :
    (t'.prolong period).reserve now + 1 ≤ t.reserve now := by
  have hpending := pending_invoke h
  obtain ⟨hpos, rfl⟩ := invoke_cases h
  have hended : ¬0 < (({ t with ended := t.ended - 1 } : SteadyTimer).prolong period).ended := by
    simp only [pending] at hpending hsingle
    simp only [ended_prolong]
    omega
  simp only [reserve, hended, false_and, if_false, hpos, true_and, expiry_prolong]
  split
  · omega
  · omega

end SteadyTimer
