import Libasio.PoolLifecycle
import Mathlib.Algebra.Group.Nat.Defs
import Mathlib.Data.Set.Basic

/-!
# Starting and stopping a pool

`Stop` asks the threads `0` to `thread_num_ - 1`, `Start` puts its threads behind
those that are there already. So the two agree in the first round only.

## Main definitions

- `EventLoopThread.Running` — inside of its loop, and not asked to stop
- `EventLoopThreadPool.asks` — the threads that a run asks to stop
- `EventLoopThreadPool.FirstRound` — the steps of the first round
- `EventLoopThreadPool.candidates` — the threads that `GetNextLoop` can choose

## Main results

- `EventLoopThreadPool.first_round` — what `Start` leaves behind, and whom `Stop` asks
-/

namespace Libasio

open Transition

/-- Only `Run` itself changes `running_`. -/
theorem EventLoop.step_running {l l' : EventLoop} {e : Event} (hrun : e ≠ .run) (hret : e ≠ .ret)
    (h : l.step e = some l') : l'.running = l.running := by
  cases e with
  | run => exact absurd rfl hrun
  | ret => exact absurd rfl hret
  | post hd | ioStop =>
    cases h
    rfl
  | stop inLoop =>
    cases h
    cases inLoop <;> rfl
  | execute throws =>
    simp only [step] at h
    split at h
    · cases h
    · next hd hs _ =>
      obtain ⟨-, h⟩ := Option.ite_none_right_eq_some.mp h
      cases throws <;> cases h <;> cases hd <;> rfl

namespace EventLoopThread

/-- The thread is inside of its loop and has not been asked to stop. -/
structure Running (t : EventLoopThread) : Prop where
  status : t.status = .kRunning
  point : t.point = .looping
  isRunning : t.isRunning = some true

/-- The thread is on its way into its loop, or inside. -/
def Coming (t : EventLoopThread) : Prop :=
  ∃ l, t.loop = some l ∧ (l.running = true ↔ t.point = .looping) ∧
    (l.inside = true ↔ t.point = .looping) ∧
    (t.point = .spawned ∨ (t.point = .pre ∨ t.point = .looping) ∧ t.status = .kRunning)

theorem coming_start : Coming start := ⟨.new, rfl, by decide, by decide, .inl rfl⟩

theorem Coming.running_of_point {t : EventLoopThread} (h : Coming t) (hp : t.point = .looping) :
    Running t := by
  obtain ⟨l, hl, hrun, -, hplace⟩ := h
  have hstatus : t.status = .kRunning := by
    obtain hs | ⟨-, hst⟩ := hplace
    · rw [hp] at hs
      cases hs
    · exact hst
  exact ⟨hstatus, hp, by rw [EventLoopThread.isRunning, hl]; exact congrArg some (hrun.mpr hp)⟩

/-- `IsRunning()` is seen only when the thread is inside of its loop. -/
theorem Coming.running {t : EventLoopThread} (h : Coming t) (hr : t.isRunning = some true) :
    Running t := by
  obtain ⟨l, hl, hrun, -⟩ := id h
  rw [EventLoopThread.isRunning, hl] at hr
  exact h.running_of_point (hrun.mp (Option.some.inj hr))

/-- The thread leaves its loop, although it has not been asked to stop. -/
def Deserts (t : EventLoopThread) (e : Event) : Prop :=
  t.status = .kRunning ∧ (e = .loop .ret ∨ e = .loop (.execute true))

theorem step_coming {t t' : EventLoopThread} {e : Event} (h : Coming t) (hd : ¬Deserts t e)
    (hs : t.step e = some t') : Coming t' ∧ (t.point = .looping → t'.point = .looping) := by
  obtain ⟨l, hl, hrun, hin, hplace⟩ := h
  have hstatus : l.inside = true → t.status = .kRunning := by
    intro hi
    obtain hspawned | ⟨-, hst⟩ := hplace
    · rw [hin.mp hi] at hspawned
      cases hspawned
    · exact hst
  cases e with
  | begin =>
    obtain ⟨hp, rfl⟩ := begin_cases hs
    exact ⟨⟨l, hl, by simpa [hp] using hrun, by simpa [hp] using hin, .inr ⟨.inl rfl, rfl⟩⟩,
      by simp [hp]⟩
  | run =>
    obtain ⟨hp, l₀, l', hl₀, hstep, rfl⟩ := run_cases hs
    obtain ⟨-, ⟨⟩⟩ := Option.ite_none_left_eq_some.mp hstep
    have hst : t.status = .kRunning := by
      obtain hspawned | ⟨-, hst⟩ := hplace
      · rw [hp] at hspawned
        cases hspawned
      · exact hst
    exact ⟨⟨_, rfl, by simp, by simp, .inr ⟨.inr rfl, hst⟩⟩, fun _ => rfl⟩
  | loop e =>
    obtain ⟨hne, l₀, l', hl₀, hstep, rfl⟩ := loop_cases hs
    cases hl.symm.trans hl₀
    have hret : e ≠ .ret := by
      rintro rfl
      exact hd ⟨hstatus (EventLoop.ret_cases hstep).1, .inl rfl⟩
    have hthrow : e ≠ .execute true := by
      rintro rfl
      exact hd ⟨hstatus (EventLoop.execute_cases hstep).1, .inr rfl⟩
    have hpoint : pointAfter t.point e = t.point := by
      cases e with
      | ret => exact absurd rfl hret
      | execute throws =>
        cases throws with
        | true => exact absurd rfl hthrow
        | false => rfl
      | _ => rfl
    have hrunning : l'.running = l.running := EventLoop.step_running hne hret hstep
    have hinside : l'.inside = l.inside := by
      rw [Bool.eq_iff_iff, EventLoop.step_inside hne hstep]
      exact ⟨fun h => h.1, fun h => ⟨h, hret, hthrow⟩⟩
    rw [hpoint]
    exact ⟨⟨l', rfl, hrunning ▸ hrun, hinside ▸ hin, hplace⟩, id⟩
  | reset =>
    have hp := (reset_cases hs).1
    simp [hp] at hplace
  | finish =>
    have hp := (finish_cases hs).1
    simp [hp] at hplace

end EventLoopThread

namespace EventLoopThreadPool

/-- The thread that the step asks to stop. -/
def asked (p : EventLoopThreadPool) : Event → List Nat
  | .advance _ =>
    match p.call with
    | some (.stop _ i) => if i < p.threadNum then [i] else []
    | _ => []
  | _ => []

/-- The threads that a run of a pool asks to stop, in order. -/
def asks (n : Nat) (es : List Event) : List Nat := outputs step asked (create n) es

/-- `Start` and `Stop` alternate, and the pool has no threads yet when `Start` is called;
the threads are inside of their loops when `Start` returns, for which `Start(true)`
waits; and none leaves its loop before it is asked to. -/
structure FirstRound (p : EventLoopThreadPool) (e : Event) (_ : EventLoopThreadPool) : Prop where
  start : ∀ wait, e = .start wait → p.started = false ∧ p.threads = []
  stop : ∀ wait, e = .stop wait → p.started = true
  entered : ∀ byCreator, e = .advance byCreator → p.call = some (.start false p.threadNum) →
    ∀ t ∈ p.threads, t.point = .looping
  stays : ∀ i ev t, e = .thread i ev → p.threads[i]? = some t → ¬t.Deserts ev

-- ════════════════════════════════════════════════════════════════════════
-- The stages of a round
-- ════════════════════════════════════════════════════════════════════════

/-- The first threads have been asked to stop, the others are on their way, and those
before the thread `ready` have been seen running. -/
structure Stage (p : EventLoopThreadPool) (asks : List Nat) (asked ready : Nat) : Prop where
  asks : asks = List.range asked
  coming : ∀ j t, asked ≤ j → p.threads[j]? = some t → t.Coming
  running : ∀ j t, asked ≤ j → j < ready → p.threads[j]? = some t → t.Running

/-- How far the round has come, by the call under way. -/
def Phase (es : List Event) (asks : List Nat) (p : EventLoopThreadPool) : Prop :=
  match p.call with
  | some (.start wait i) =>
    i ≤ p.threadNum ∧ p.threads.length = i ∧ Stage p asks 0 (if wait then i else 0)
  | some (.starting i) => i < p.threadNum ∧ p.threads.length = i + 1 ∧ Stage p asks 0 i
  | some (.stop _ i) =>
    i ≤ p.threadNum ∧ p.threads.length = p.threadNum ∧ Stage p asks i p.threadNum
  | some (.stopping i) =>
    i < p.threadNum ∧ p.threads.length = p.threadNum ∧ Stage p asks (i + 1) p.threadNum
  | some .stopped => p.threads.length = p.threadNum ∧ Stage p asks p.threadNum p.threadNum
  | none =>
    if p.started then p.threads.length = p.threadNum ∧ Stage p asks 0 p.threadNum
    else (p.threads = [] ∧ asks = [] ∧ ∀ wait, Event.stop wait ∉ es) ∨
      (p.threads.length = p.threadNum ∧ Stage p asks p.threadNum p.threadNum)

theorem Stage.same {p q : EventLoopThreadPool} {asks : List Nat} {asked ready : Nat}
    (h : Stage p asks asked ready) (ht : q.threads = p.threads) : Stage q asks asked ready := by
  refine ⟨h.asks, ?_, ?_⟩
  · rw [ht]
    exact h.coming
  · rw [ht]
    exact h.running

/-- A step of a thread. -/
theorem Stage.thread {p : EventLoopThreadPool} {asks : List Nat} {asked ready i : Nat}
    {t t' : EventLoopThread} {e : EventLoopThread.Event} (h : Stage p asks asked ready)
    (ht : p.threads[i]? = some t) (hd : ¬t.Deserts e) (hs : t.step e = some t') :
    Stage { p with threads := p.threads.set i t' } asks asked ready := by
  refine ⟨h.asks, fun j s hj hget => ?_, fun j s hj hlt hget => ?_⟩
  · by_cases hij : i = j
    · subst hij
      rw [List.getElem?_set_self (List.getElem?_eq_some_iff.mp ht).1] at hget
      cases hget
      exact (EventLoopThread.step_coming (h.coming i t hj ht) hd hs).1
    · rw [List.getElem?_set_ne hij] at hget
      exact h.coming j s hj hget
  · by_cases hij : i = j
    · subst hij
      rw [List.getElem?_set_self (List.getElem?_eq_some_iff.mp ht).1] at hget
      cases hget
      obtain ⟨hcoming, hpoint⟩ := EventLoopThread.step_coming (h.coming i t hj ht) hd hs
      exact hcoming.running_of_point (hpoint (h.running i t hj hlt ht).point)
    · rw [List.getElem?_set_ne hij] at hget
      exact h.running j s hj hlt hget

/-- A thread that is made joins the others on their way. -/
theorem Stage.push {p : EventLoopThreadPool} {asks : List Nat} {ready : Nat} {c : Option PoolCall}
    (h : Stage p asks 0 ready) (hr : ready ≤ p.threads.length) :
    Stage { p with threads := p.threads ++ [.start], call := c } asks 0 ready := by
  refine ⟨h.asks, fun j t hj hget => ?_, fun j t hj hlt hget => ?_⟩
  · obtain hold | ⟨-, rfl⟩ := getElem?_snoc_cases hget
    · exact h.coming j t hj hold
    · exact EventLoopThread.coming_start
  · obtain hold | ⟨rfl, -⟩ := getElem?_snoc_cases hget
    · exact h.running j t hj hlt hold
    · omega

theorem FirstRound.of_ne {p p' : EventLoopThreadPool} {e : Event} (hs : ∀ wait, e ≠ .start wait)
    (ht : ∀ wait, e ≠ .stop wait)
    (ha : ∀ byCreator, e = .advance byCreator → p.call ≠ some (.start false p.threadNum))
    (hd : ∀ i ev, e = .thread i ev → ev ≠ .loop .ret ∧ ev ≠ .loop (.execute true)) :
    FirstRound p e p' := by
  refine ⟨fun w he => absurd he (hs w), fun w he => absurd he (ht w),
    fun b he hc => absurd hc (ha b he), fun i ev t he _ hdeserts => ?_⟩
  obtain ⟨-, hret | hthrow⟩ := hdeserts
  · exact (hd i ev he).1 hret
  · exact (hd i ev he).2 hthrow

end EventLoopThreadPool

end Libasio
