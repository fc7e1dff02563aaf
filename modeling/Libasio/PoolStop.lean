import Libasio.LoopStop

/-!
# Stopping a thread pool

`EventLoopThreadPool::Stop` stops its threads one by one and waits for each. What
a thread of the pool does is a run of that thread alone, so the waits end if and
only if somebody stops the `io_service` of the thread that is waited for.

## Main definitions

- `EventLoopThreadPool.Advances` — what the caller of `Start` and `Stop` does next
- `EventLoopThreadPool.Projects` — the run of each thread inside a run of the pool

## Main results

- `EventLoopThreadPool.run_projects` — every run of the pool projects to its threads
- `EventLoopThreadPool.stop_waits` — without a direct call `Stop(true)` never returns
- `stop_ends_run_iff` — when `Stop` ends the loop, the thread and the waits
-/

namespace Libasio

open Transition

namespace EventLoopThreadPool

open EventLoopThread (Fits Ends)

/-- What the caller of `Start` or `Stop` does next. -/
inductive Advances (p : EventLoopThreadPool) (byCreator : Bool) : EventLoopThreadPool → Prop
  | undefined (hi : ∀ i, p.call = some (.stopping i) → p.threads[i]? = none)
      (hs : p.call = some .stopped → p.isStopped = none) :
      Advances p byCreator { p with undefined := true }
  | start {wait : Bool} {i : Nat} (hc : p.call = some (.start wait i)) (hi : i < p.threadNum) :
      Advances p byCreator { p with
        threads := p.threads ++ [.start]
        call := some (if wait then .starting i else .start wait (i + 1)) }
  | started {wait : Bool} {i : Nat} (hc : p.call = some (.start wait i)) (hi : ¬i < p.threadNum) :
      Advances p byCreator { p with started := true, call := none }
  | runs {i : Nat} (hc : p.call = some (.starting i)) :
      Advances p byCreator { p with call := some (.start true (i + 1)) }
  | stop {wait : Bool} {i : Nat} {t t' : EventLoopThread} (hc : p.call = some (.stop wait i))
      (hi : i < p.threadNum) (ht : p.threads[i]? = some t) (hs : t.stop byCreator = some t') :
      Advances p byCreator { p with
        threads := p.threads.set i t'
        call := some (if wait then .stopping i else .stop wait (i + 1)) }
  | awaits {i : Nat} (hc : p.call = some (.stop true i)) (hi : ¬i < p.threadNum)
      (hn : 0 < p.threadNum) : Advances p byCreator { p with call := some .stopped }
  | leaves {wait : Bool} {i : Nat} (hc : p.call = some (.stop wait i)) (hi : ¬i < p.threadNum)
      (hw : ¬(0 < p.threadNum ∧ wait = true)) :
      Advances p byCreator { p with started := false, call := none }
  | exited {i : Nat} {t : EventLoopThread} (hc : p.call = some (.stopping i))
      (ht : p.threads[i]? = some t) (hst : t.status = .kStopped) :
      Advances p byCreator { p with call := some (.stop true (i + 1)) }
  | stopped (hc : p.call = some .stopped) :
      Advances p byCreator { p with started := false, call := none }

theorem advance_cases {p p' : EventLoopThreadPool} {byCreator : Bool}
    (h : p.advance byCreator = some p') : Advances p byCreator p' := by
  unfold advance at h
  split at h
  · cases h
  · next wait i hc =>
    by_cases hi : i < p.threadNum
    · rw [if_pos hi] at h
      cases h
      exact .start hc hi
    · rw [if_neg hi] at h
      cases h
      exact .started hc hi
  · next i hc =>
    split at h
    · cases h
      exact .runs hc
    · cases h
    · cases h
      exact .undefined (by simp [hc]) (by simp [hc])
  · next wait i hc =>
    by_cases hi : i < p.threadNum
    · rw [if_pos hi] at h
      split at h
      · next t' hb =>
        cases h
        obtain ⟨t, ht, hs⟩ := Option.bind_eq_some_iff.mp hb
        exact .stop hc hi ht hs
      · cases h
        exact .undefined (by simp [hc]) (by simp [hc])
    · rw [if_neg hi] at h
      by_cases hw : 0 < p.threadNum ∧ wait = true
      · rw [if_pos hw] at h
        cases h
        obtain ⟨hn, rfl⟩ := hw
        exact .awaits hc hi hn
      · rw [if_neg hw] at h
        cases h
        exact .leaves hc hi hw
  · next i hc =>
    split at h
    · next t ht =>
      obtain ⟨hst, ⟨⟩⟩ := Option.ite_none_right_eq_some.mp h
      exact .exited hc ht (of_decide_eq_true hst)
    · next hnone =>
      cases h
      refine .undefined (fun k hk => ?_) (by simp [hc])
      cases hk.symm.trans hc
      exact hnone
  · next hc =>
    split at h
    · cases h
      exact .stopped hc
    · cases h
    · next hnone =>
      cases h
      exact .undefined (by simp [hc]) fun _ => hnone

/-- A step of the pool is one of its caller, one of a thread, or the entry into a call. -/
theorem step_cases {p p' : EventLoopThreadPool} {e : Event} (h : p.step e = some p') :
    (∃ byCreator, e = .advance byCreator ∧ Advances p byCreator p') ∨
      (∃ i ev t t', e = .thread i ev ∧ p.threads[i]? = some t ∧ t.step ev = some t' ∧
        p' = { p with threads := p.threads.set i t' }) ∨
      ((∀ i ev, e ≠ .thread i ev) ∧ p'.threads = p.threads ∧ p'.threadNum = p.threadNum ∧
        p'.undefined = p.undefined ∧ (p'.call = p.call ∨ p.call = none ∧
          ∃ wait, p'.call = some (.start wait 0) ∨ p'.call = some (.stop wait 0))) := by
  simp only [step] at h
  obtain ⟨-, h⟩ := Option.ite_none_left_eq_some.mp h
  cases e with
  | start wait =>
    obtain ⟨hc, h⟩ := Option.ite_none_left_eq_some.mp h
    refine .inr (.inr ⟨by simp, ?_⟩)
    split at h
    · cases h
      exact ⟨rfl, rfl, rfl, .inl rfl⟩
    · cases h
      exact ⟨rfl, rfl, rfl, .inr ⟨not_not.mp hc, wait, .inl rfl⟩⟩
  | stop wait =>
    obtain ⟨hc, ⟨⟩⟩ := Option.ite_none_left_eq_some.mp h
    exact .inr (.inr ⟨by simp, rfl, rfl, rfl, .inr ⟨not_not.mp hc, wait, .inr rfl⟩⟩)
  | advance byCreator => exact .inl ⟨byCreator, rfl, advance_cases h⟩
  | getNext =>
    cases h
    refine .inr (.inr ⟨by simp, ?_⟩)
    unfold getNext
    split <;> exact ⟨rfl, rfl, rfl, .inl rfl⟩
  | thread i ev =>
    obtain ⟨t', hb, rfl⟩ := Option.map_eq_some_iff.mp h
    obtain ⟨t, ht, hs⟩ := Option.bind_eq_some_iff.mp hb
    exact .inr (.inl ⟨i, ev, t, t', rfl, ht, hs, rfl⟩)

theorem step_defined {p p' : EventLoopThreadPool} {e : Event} (h : p.step e = some p') :
    p.undefined = false := by
  simp only [step] at h
  exact Bool.eq_false_iff.mpr (Option.ite_none_left_eq_some.mp h).1

theorem step_threadNum {p p' : EventLoopThreadPool} {e : Event} (h : p.step e = some p') :
    p'.threadNum = p.threadNum := by
  obtain ⟨byCreator, rfl, ha⟩ | ⟨k, ev, t, t', rfl, -, -, rfl⟩ | ⟨-, -, hnum, -⟩ := step_cases h
  · cases ha <;> rfl
  · rfl
  · exact hnum

/-- What a step of the pool does to the thread `i`. -/
theorem step_slot {p p' : EventLoopThreadPool} {e : Event} (h : p.step e = some p') (i : Nat) :
    ((∀ ev, e ≠ .thread i ev) ∧ p'.threads[i]? = p.threads[i]?) ∨
      (∃ ev t t', e = .thread i ev ∧ p.threads[i]? = some t ∧ t.step ev = some t' ∧
        p'.threads[i]? = some t') ∨
      (∃ byCreator wait t t', e = .advance byCreator ∧ p.call = some (.stop wait i) ∧
        p.threads[i]? = some t ∧ t.stop byCreator = some t' ∧ p'.threads[i]? = some t') ∨
      ((∀ ev, e ≠ .thread i ev) ∧ i = p.threads.length ∧ p'.threads[i]? = some .start) := by
  obtain ⟨byCreator, rfl, ha⟩ | ⟨k, ev, t, t', rfl, ht, hs, rfl⟩ | ⟨he, hts, -⟩ := step_cases h
  · cases ha with
    | start hc hi =>
      by_cases hk : i = p.threads.length
      · refine .inr (.inr (.inr ⟨by simp, hk, ?_⟩))
        rw [hk]
        exact List.getElem?_concat_length
      · refine .inl ⟨by simp, ?_⟩
        simp only [List.getElem?_append, List.getElem?_singleton]
        split
        · rfl
        · next hlt =>
          rw [if_neg (by omega)]
          exact (List.getElem?_eq_none (by omega)).symm
    | @stop wait k t t' hc hi ht hs =>
      by_cases hk : k = i
      · subst hk
        refine .inr (.inr (.inl ⟨byCreator, wait, t, t', rfl, hc, ht, hs, ?_⟩))
        exact List.getElem?_set_self (List.getElem?_eq_some_iff.mp ht).1
      · exact .inl ⟨by simp, List.getElem?_set_ne hk⟩
    | _ => exact .inl ⟨by simp, rfl⟩
  · by_cases hk : k = i
    · subst hk
      refine .inr (.inl ⟨ev, t, t', rfl, ht, hs, ?_⟩)
      exact List.getElem?_set_self (List.getElem?_eq_some_iff.mp ht).1
    · refine .inl ⟨?_, List.getElem?_set_ne hk⟩
      rintro ev' ⟨⟩
      exact hk rfl
  · exact .inl ⟨he i, by rw [hts]⟩

-- ════════════════════════════════════════════════════════════════════════
-- The run of a thread inside a run of the pool
-- ════════════════════════════════════════════════════════════════════════

/-- The event by which user code stops the `io_service` of the thread `i`. -/
abbrev ioStop (i : Nat) : Event := .thread i (.loop .ioStop)

/-- Each thread has made a run of its own, with the direct calls of the pool's run. -/
structure Projects (es : List Event) (p : EventLoopThreadPool) : Prop where
  runs : ∀ i t, p.threads[i]? = some t → ∃ cs, Runs EventLoopThread.use anyStep .start cs t ∧
    (EventLoopThread.ioStop ∈ cs ↔ ioStop i ∈ es)
  range : ∀ i e, Event.thread i e ∈ es → i < p.threads.length

theorem step_length {p p' : EventLoopThreadPool} {e : Event} (h : p.step e = some p') :
    p.threads.length ≤ p'.threads.length := by
  obtain ⟨byCreator, rfl, ha⟩ | ⟨k, ev, t, t', rfl, -, -, rfl⟩ | ⟨-, hts, -⟩ := step_cases h
  · cases ha <;> simp
  · simp
  · exact hts ▸ Nat.le_refl _

theorem step_projects {es : List Event} {p p' : EventLoopThreadPool} {e : Event}
    (hp : Projects es p) (h : p.step e = some p') : Projects (es ++ [e]) p' := by
  refine ⟨fun i t hi => ?_, fun i ev hmem => ?_⟩
  · obtain ⟨hne, hsame⟩ | ⟨ev, s, t', rfl, hs, hstep, ht'⟩ |
      ⟨byCreator, wait, s, t', rfl, -, hs, hstop, ht'⟩ | ⟨hne, hk, hnew⟩ := step_slot h i
    · obtain ⟨cs, hr, hio⟩ := hp.runs i t (hsame ▸ hi)
      have : ioStop i ∈ es ++ [e] ↔ ioStop i ∈ es := by simp [(hne _).symm]
      exact ⟨cs, hr, hio.trans this.symm⟩
    · obtain ⟨cs, hr, hio⟩ := hp.runs i s hs
      cases ht'.symm.trans hi
      have hused : s.use (.step ev) = some t := hstep
      exact ⟨cs ++ [.step ev], hr.snoc hused trivial, by simp [hio]⟩
    · obtain ⟨cs, hr, hio⟩ := hp.runs i s hs
      cases ht'.symm.trans hi
      have hused : s.use (.stop byCreator) = some t := hstop
      exact ⟨cs ++ [.stop byCreator], hr.snoc hused trivial, by simp [hio]⟩
    · cases hnew.symm.trans hi
      refine ⟨[], .nil _, ?_⟩
      have hold : ioStop i ∉ es := by
        intro hmem
        have := hp.range i _ hmem
        omega
      simp [hold, (hne _).symm]
  · obtain hold | rfl := by simpa using hmem
    · exact Nat.lt_of_lt_of_le (hp.range i ev hold) (step_length h)
    · obtain ⟨hne, -⟩ | ⟨-, -, t', -, -, -, ht'⟩ | ⟨-, -, -, -, ⟨⟩, -⟩ | ⟨hne, -⟩ := step_slot h i
      · exact absurd rfl (hne ev)
      · exact (List.getElem?_eq_some_iff.mp ht').1
      · exact absurd rfl (hne ev)

theorem run_projects {n : Nat} {es : List Event} {p : EventLoopThreadPool}
    (hr : Runs step anyStep (create n) es p) : Projects es p := by
  have hkeep : ∀ (es : List Event) (p : EventLoopThreadPool) (e : Event) (p' : EventLoopThreadPool),
      Projects es p → anyStep p e p' → p.step e = some p' → Projects (es ++ [e]) p' :=
    fun _ _ _ _ hp _ h => step_projects hp h
  exact hr.invariant_history hkeep ⟨by simp [create], by simp⟩

/-- Every thread of a pool fits its own run. -/
theorem thread_fits {es : List Event} {p : EventLoopThreadPool} {i : Nat} {t : EventLoopThread}
    (hp : Projects es p) (ht : p.threads[i]? = some t) :
    ∃ cs, Fits cs t ∧ (EventLoopThread.ioStop ∈ cs ↔ ioStop i ∈ es) := by
  obtain ⟨cs, hr, hio⟩ := hp.runs i t ht
  exact ⟨cs, EventLoopThread.run_fits hr, hio⟩

-- ════════════════════════════════════════════════════════════════════════
-- What the calls of `Stop` have waited for
-- ════════════════════════════════════════════════════════════════════════

/-- How many threads have been waited for. -/
def ended (n : Nat) : PoolCall → Nat
  | .stop true i | .stopping i => i
  | .stopped => n
  | _ => 0

/-- The threads that have been waited for are done, and the one that is waited
for is not stopped because it has not begun. -/
structure Waits (p : EventLoopThreadPool) : Prop where
  waiting : ∀ i, p.call = some (.stopping i) →
    ∃ t, p.threads[i]? = some t ∧ (t.status = .kStopped → t.point = .done)
  done : ∀ c, p.call = some c →
    ∀ j < ended p.threadNum c, ∃ t, p.threads[j]? = some t ∧ t.point = .done
  positive : p.call = some .stopped → 0 < p.threadNum
  defined : p.undefined = true → p.call ≠ some .stopped ∧ ∀ i, p.call ≠ some (.stopping i)

/-- The wait for the whole pool has nothing left to wait for. -/
theorem Waits.isStopped {es : List Event} {p : EventLoopThreadPool} (hp : Projects es p)
    (hw : Waits p) (hc : p.call = some .stopped) : p.isStopped = some true := by
  have hscan : ∀ js : List Nat, (∀ j ∈ js, j < p.threadNum) →
      scan (fun t => some t.isStopped) (js.map fun i => p.threads[i]?) = some true := by
    intro js hjs
    induction js with
    | nil => rfl
    | cons j js ih =>
      obtain ⟨t, ht, hd⟩ := hw.done _ hc j (hjs j List.mem_cons_self)
      obtain ⟨cs, hf, -⟩ := thread_fits hp ht
      have hst : t.isStopped = true := decide_eq_true (hf.done hd)
      rw [List.map_cons, ht]
      simp only [scan, hst]
      exact ih fun k hk => hjs k (List.mem_cons_of_mem _ hk)
  have hpos : p.threadNum ≠ 0 := Nat.pos_iff_ne_zero.mp (hw.positive hc)
  rw [EventLoopThreadPool.isStopped, if_neg hpos]
  exact hscan _ fun j hj => List.mem_range.mp hj

theorem use_done {cs : List EventLoopThread.Call} {t t' : EventLoopThread}
    {c : EventLoopThread.Call} (hf : Fits cs t) (hd : t.point = .done) : t.use c ≠ some t' := by
  have hnone : t.loop = none := hf.holds.mpr (.inr hd)
  intro h
  cases c with
  | stop byCreator => simp [EventLoopThread.use, EventLoopThread.stop, hnone] at h
  | step e =>
    cases e with
    | loop e =>
      obtain ⟨-, l, -, hl, -⟩ := EventLoopThread.loop_cases h
      rw [hnone] at hl
      cases hl
    | _ => simp [EventLoopThread.use, EventLoopThread.step, hd] at h

theorem step_done {es : List Event} {p p' : EventLoopThreadPool} {e : Event} {j : Nat}
    (hp : Projects es p) (h : p.step e = some p')
    (hj : ∃ t, p.threads[j]? = some t ∧ t.point = .done) :
    ∃ t, p'.threads[j]? = some t ∧ t.point = .done := by
  obtain ⟨t, ht, hd⟩ := hj
  obtain ⟨cs, hf, -⟩ := thread_fits hp ht
  obtain ⟨-, hsame⟩ | ⟨ev, s, t', -, hs, hstep, -⟩ | ⟨byCreator, wait, s, t', -, -, hs, hstop, -⟩ |
    ⟨-, hk, -⟩ := step_slot h j
  · exact ⟨t, hsame ▸ ht, hd⟩
  · cases ht.symm.trans hs
    exact absurd hstep (@use_done cs t t' (.step ev) hf hd)
  · cases ht.symm.trans hs
    exact absurd hstop (@use_done cs t t' (.stop byCreator) hf hd)
  · have := (List.getElem?_eq_some_iff.mp ht).1
    omega

theorem step_waits {es : List Event} {p p' : EventLoopThreadPool} {e : Event}
    (hp : Projects es p) (hw : Waits p) (h : p.step e = some p') : Waits p' := by
  have hdef : p.undefined = false := step_defined h
  have hkept : ∀ c, p.call = some c →
      ∀ j < ended p.threadNum c, ∃ t, p'.threads[j]? = some t ∧ t.point = .done :=
    fun c hc j hj => step_done hp h (hw.done c hc j hj)
  obtain ⟨byCreator, rfl, ha⟩ | ⟨k, ev, t, t', rfl, ht, hs, rfl⟩ | ⟨-, hts, hnum, hund, hcall⟩ :=
    step_cases h
  · cases ha with
    | undefined hi hs =>
      refine ⟨hw.waiting, hw.done, hw.positive, fun _ => ⟨fun hc => ?_, fun i hc => ?_⟩⟩
      · exact Option.some_ne_none _ ((hw.isStopped hp hc).symm.trans (hs hc))
      · obtain ⟨t, ht, -⟩ := hw.waiting i hc
        exact Option.some_ne_none _ (ht.symm.trans (hi i hc))
    | @start wait i hc hi => cases wait <;> exact ⟨by simp, by simp [ended], by simp, by simp⟩
    | started | leaves | stopped => exact ⟨by simp, by simp, by simp, by simp⟩
    | runs => exact ⟨by simp, by simp [ended], by simp, by simp⟩
    | @stop wait i t t' hc hi ht hs =>
      cases wait with
      | false => exact ⟨by simp, by simp [ended], by simp, by simp⟩
      | true =>
        refine ⟨?_, ?_, by simp, by simp [hdef]⟩
        · rintro k ⟨⟩
          refine ⟨t', List.getElem?_set_self (List.getElem?_eq_some_iff.mp ht).1, fun hst => ?_⟩
          obtain ⟨l, inLoop, -, rfl⟩ := EventLoopThread.stop_cases hs
          cases hst
        · rintro c ⟨⟩
          exact hkept (.stop true i) hc
    | @awaits i hc hi hn =>
      refine ⟨by simp, ?_, fun _ => hn, by simp [hdef]⟩
      rintro c ⟨⟩ j hj
      change j < p.threadNum at hj
      refine hkept _ hc j ?_
      change j < i
      omega
    | @exited i t hc ht hst =>
      refine ⟨by simp, ?_, by simp, by simp⟩
      rintro c ⟨⟩ j hj
      change j < i + 1 at hj
      obtain hlt | rfl := Nat.lt_succ_iff_lt_or_eq.mp hj
      · exact hkept _ hc j hlt
      · obtain ⟨s, hs, hd⟩ := hw.waiting j hc
        cases ht.symm.trans hs
        exact ⟨t, ht, hd hst⟩
  · refine ⟨fun i hi => ?_, hkept, hw.positive, by simp [hdef]⟩
    obtain ⟨s, hsi, hd⟩ := hw.waiting i hi
    obtain ⟨-, hsame⟩ | ⟨ev', s', t'', -, hs', hstep, ht''⟩ | ⟨-, -, -, -, ⟨⟩, -⟩ | ⟨-, hk, -⟩ :=
      step_slot h i
    · exact ⟨s, hsame ▸ hsi, hd⟩
    · cases hs'.symm.trans hsi
      refine ⟨t'', ht'', fun hst => ?_⟩
      obtain hold | hnew := EventLoopThread.step_kStopped hstep hst
      · obtain ⟨cs, hf, -⟩ := thread_fits hp hsi
        exact absurd hstep (@use_done cs s t'' (.step ev') hf (hd hold))
      · exact hnew
    · have := (List.getElem?_eq_some_iff.mp hsi).1
      omega
  · obtain hsame | ⟨-, wait, hnew | hnew⟩ := hcall
    · refine ⟨?_, ?_, ?_, ?_⟩
      · rw [hsame, hts]
        exact hw.waiting
      · rw [hsame, hnum]
        exact hkept
      · rw [hsame, hnum]
        exact hw.positive
      · rw [hsame, hund]
        exact hw.defined
    · exact ⟨by simp [hnew], by simp [hnew, ended], by simp [hnew], by simp [hnew]⟩
    · cases wait <;> exact ⟨by simp [hnew], by simp [hnew, ended], by simp [hnew], by simp [hnew]⟩

theorem run_waits {n : Nat} {es : List Event} {p : EventLoopThreadPool}
    (hr : Runs step anyStep (create n) es p) : Waits p := by
  have hkeep : ∀ (es : List Event) (p : EventLoopThreadPool) (e : Event) (p' : EventLoopThreadPool),
      Projects es p ∧ Waits p → anyStep p e p' → p.step e = some p' →
      Projects (es ++ [e]) p' ∧ Waits p' :=
    fun _ _ _ _ hI _ h => ⟨step_projects hI.1 h, step_waits hI.1 hI.2 h⟩
  exact (hr.invariant_history hkeep
    ⟨⟨by simp [create], by simp⟩, ⟨by simp [create], by simp [create], by simp [create], by simp [create]⟩⟩).2

-- ════════════════════════════════════════════════════════════════════════
-- Whether the waits end
-- ════════════════════════════════════════════════════════════════════════

/-- Without a direct call the wait for a thread goes on. -/
theorem step_stopping {es : List Event} {p p' : EventLoopThreadPool} {e : Event} {i : Nat}
    (hp : Projects es p) (hw : Waits p) (h : p.step e = some p')
    (hc : p.call = some (.stopping i)) (hio : ioStop i ∉ es) : p'.call = some (.stopping i) := by
  obtain ⟨byCreator, rfl, ha⟩ | ⟨k, ev, t, t', rfl, -, -, rfl⟩ | ⟨-, -, -, -, hcall⟩ := step_cases h
  · cases ha with
    | undefined => exact hc
    | @exited k t hk ht hst =>
      cases hk.symm.trans hc
      obtain ⟨s, hs, hd⟩ := hw.waiting i hc
      cases ht.symm.trans hs
      obtain ⟨cs, hf, hproj⟩ := thread_fits hp ht
      have hback : EventLoopThread.ioStop ∈ cs := hf.returned (by rw [hd hst]; rfl)
      exact absurd (hproj.mp hback) hio
    | start hk | started hk | runs hk | stop hk | awaits hk | leaves hk | stopped hk =>
      cases hk.symm.trans hc
  · exact hc
  · obtain hsame | ⟨hnone, -⟩ := hcall
    · exact hsame.trans hc
    · cases hnone.symm.trans hc

/-- A call `Stop(true)` on a pool with threads has not come past its first wait. -/
def Hangs (es : List Event) (p : EventLoopThreadPool) : Prop :=
  Projects es p ∧ Waits p ∧
    (ioStop 0 ∉ es → 0 < p.threadNum ∧
      (p.call = some (.stop true 0) ∨ p.call = some (.stopping 0)))

theorem step_hangs {es : List Event} {p p' : EventLoopThreadPool} {e : Event}
    (hh : Hangs es p) (h : p.step e = some p') : Hangs (es ++ [e]) p' := by
  obtain ⟨hp, hw, hcall⟩ := hh
  refine ⟨step_projects hp h, step_waits hp hw h, fun hio => ?_⟩
  have hold : ioStop 0 ∉ es := fun hmem => hio (List.mem_append_left _ hmem)
  obtain ⟨hpos, hc | hc⟩ := hcall hold
  · refine ⟨step_threadNum h ▸ hpos, ?_⟩
    obtain ⟨byCreator, rfl, ha⟩ | ⟨k, ev, t, t', rfl, -, -, rfl⟩ | ⟨-, -, -, -, hcall'⟩ :=
      step_cases h
    · cases ha with
      | undefined => exact .inl hc
      | stop hk hi =>
        cases hk.symm.trans hc
        exact .inr rfl
      | awaits hk hi | leaves hk hi =>
        cases hk.symm.trans hc
        exact absurd hpos hi
      | start hk | started hk | runs hk | exited hk | stopped hk => cases hk.symm.trans hc
    · exact .inl hc
    · obtain hsame | ⟨hnone, -⟩ := hcall'
      · exact .inl (hsame.trans hc)
      · cases hnone.symm.trans hc
  · exact ⟨step_threadNum h ▸ hpos, .inr (step_stopping hp hw h hc hold)⟩

/-- Without a direct call `Stop(true)` on a pool with threads never returns. -/
theorem stop_waits {es fs : List Event} {p q : EventLoopThreadPool} (hp : Projects es p)
    (hw : Waits p) (hn : 0 < p.threadNum) (hc : p.call = some (.stop true 0))
    (hr : Runs step anyStep p fs q) (hio : ioStop 0 ∉ es ++ fs) : q.call ≠ none := by
  have hkeep : ∀ (fs : List Event) (p : EventLoopThreadPool) (e : Event) (p' : EventLoopThreadPool),
      Hangs (es ++ fs) p → anyStep p e p' → p.step e = some p' → Hangs (es ++ (fs ++ [e])) p' := by
    intro fs p e p' hh _ h
    rw [← List.append_assoc]
    exact step_hangs hh h
  have hstart : Hangs (es ++ []) p := by
    rw [List.append_nil]
    exact ⟨hp, hw, fun _ => ⟨hn, .inl hc⟩⟩
  obtain ⟨-, hq⟩ := (hr.invariant_history hkeep hstart).2.2 hio
  obtain hq | hq := hq <;> simp [hq]

/-- The steps of a wait for the thread `i`: those of the thread and of the caller. -/
def WaitStep (i : Nat) (_ : EventLoopThreadPool) (e : Event) (_ : EventLoopThreadPool) : Prop :=
  (∃ byCreator, e = .advance byCreator) ∨ ∃ ev, ev.isOwn = true ∧ e = .thread i ev

/-- The wait for the thread `i` can end. -/
def WaitEnds (p : EventLoopThreadPool) (i : Nat) : Prop :=
  ∃ fs q, Runs step (WaitStep i) p fs q ∧ q.call ≠ some (.stopping i)

/-- A thread that ends also ends the wait for it. -/
theorem waitEnds_of_ends {p : EventLoopThreadPool} {i : Nat} {t : EventLoopThread}
    (hc : p.call = some (.stopping i)) (ht : p.threads[i]? = some t) (hu : p.undefined = false)
    (he : Ends t) : WaitEnds p i := by
  induction he generalizing p with
  | @stopped t hst =>
    have hadv : p.step (.advance false) = some { p with call := some (.stop true (i + 1)) } := by
      simp [step, hu, advance, hc, ht, EventLoopThread.isStopped, hst]
    exact ⟨_, _, .single hadv (.inl ⟨false, rfl⟩), by simp⟩
  | @step t hnext _ ih =>
    obtain ⟨ev, t', how, hs⟩ := hnext
    have hstep : p.step (.thread i ev) = some { p with threads := p.threads.set i t' } := by
      simp [step, hu, ht, hs]
    have ht' : (p.threads.set i t')[i]? = some t' :=
      List.getElem?_set_self (List.getElem?_eq_some_iff.mp ht).1
    obtain ⟨fs, q, hr, hq⟩ :=
      @ih ev t' how hs { p with threads := p.threads.set i t' } hc ht' hu
    exact ⟨.thread i ev :: fs, q, .cons hstep (.inr ⟨ev, how, rfl⟩) hr, hq⟩

/-- The thread `i` is waited for, and its `io_service` has not been stopped. -/
def Stuck (i : Nat) (es : List Event) (p : EventLoopThreadPool) : Prop :=
  Projects es p ∧ Waits p ∧ p.call = some (.stopping i) ∧ ioStop i ∉ es

theorem waitEnds_iff {es : List Event} {p : EventLoopThreadPool} {i : Nat} {t : EventLoopThread}
    (hp : Projects es p) (hw : Waits p) (hc : p.call = some (.stopping i))
    (ht : p.threads[i]? = some t) (hterm : t.point ≠ .terminated) :
    (Ends t ↔ ioStop i ∈ es) ∧ (WaitEnds p i ↔ ioStop i ∈ es) := by
  obtain ⟨cs, hf, hproj⟩ := thread_fits hp ht
  have hends : Ends t ↔ ioStop i ∈ es := by
    by_cases hst : t.status = .kStopped
    · obtain ⟨s, hs, hd⟩ := hw.waiting i hc
      cases ht.symm.trans hs
      have hback : EventLoopThread.ioStop ∈ cs := hf.returned (by rw [hd hst]; rfl)
      exact iff_of_true (.stopped hst) (hproj.mp hback)
    · exact (EventLoopThread.ends_iff hf hst hterm).trans hproj
  refine ⟨hends, ?_, fun hio => ?_⟩
  · rintro ⟨fs, q, hr, hq⟩
    by_contra hio
    have hkeep : ∀ (fs : List Event) (p : EventLoopThreadPool) (e : Event)
        (p' : EventLoopThreadPool), Stuck i (es ++ fs) p → WaitStep i p e p' →
        p.step e = some p' → Stuck i (es ++ (fs ++ [e])) p' := by
      rintro fs p e p' ⟨hp, hw, hc, hio⟩ hg h
      have hne : e ≠ ioStop i := by
        rintro rfl
        obtain ⟨byCreator, ⟨⟩⟩ | ⟨ev, how, ⟨⟩⟩ := hg
        cases how
      have hio' : ioStop i ∉ (es ++ fs) ++ [e] := by
        rw [List.mem_append, List.mem_singleton]
        exact not_or.mpr ⟨hio, hne.symm⟩
      rw [← List.append_assoc]
      exact ⟨step_projects hp h, step_waits hp hw h, step_stopping hp hw h hc hio, hio'⟩
    have hstart : Stuck i (es ++ []) p := by
      rw [List.append_nil]
      exact ⟨hp, hw, hc, hio⟩
    exact hq (hr.invariant_history hkeep hstart).2.2.1
  · have hu : p.undefined = false := by
      by_contra hu
      exact (hw.defined (by simpa using hu)).2 i hc
    exact waitEnds_of_ends hc ht hu (hends.mpr hio)

/-- Once every thread has been waited for, the last wait is over at once. -/
theorem stopped_returns {es : List Event} {p : EventLoopThreadPool} (hp : Projects es p)
    (hw : Waits p) (hc : p.call = some .stopped) (byCreator : Bool) :
    ∃ q, p.step (.advance byCreator) = some q ∧ q.call = none := by
  have hu : p.undefined = false := by
    by_contra hu
    exact (hw.defined (by simpa using hu)).1 hc
  exact ⟨{ p with started := false, call := none },
    by simp [step, hu, advance, hc, hw.isStopped hp hc], rfl⟩

end EventLoopThreadPool

-- ════════════════════════════════════════════════════════════════════════
-- `Stop`
-- ════════════════════════════════════════════════════════════════════════

/-- The functor bound by `Stop` has been executed, unless the loop is gone. -/
def EventLoopThread.StopExecuted (t : EventLoopThread) : Prop :=
  ∀ l, t.loop = some l → Handler.stopInLoop ∈ l.executed

/-- Once `StopInLoop` has been executed, `Run` can only return, the thread of the
loop can only end, and the waits for it can end, if and only if user code has
stopped the `io_service` directly: in every run of a loop, of a thread, of a pool. -/
theorem stop_ends_run_iff {es : List EventLoop.Event} {l : EventLoop}
    {cs : List EventLoopThread.Call} {t : EventLoopThread} {n : Nat}
    {ps : List EventLoopThreadPool.Event} {p : EventLoopThreadPool}
    (hloop : Runs EventLoop.step anyStep .new es l)
    (hthread : Runs EventLoopThread.use anyStep .start cs t)
    (hpool : Runs EventLoopThreadPool.step anyStep (.create n) ps p) :
    (l.inside = true → Handler.stopInLoop ∈ l.executed →
      (l.StopsNow ↔ EventLoop.Event.ioStop ∈ es)) ∧
    (t.StopExecuted → t.status ≠ .kStopped → t.point ≠ .terminated →
      (t.Ends ↔ EventLoopThread.ioStop ∈ cs)) ∧
    (∀ i t, p.call = some (.stopping i) → p.threads[i]? = some t → t.StopExecuted →
      t.point ≠ .terminated →
      (t.Ends ↔ EventLoopThreadPool.ioStop i ∈ ps) ∧
        (p.WaitEnds i ↔ EventLoopThreadPool.ioStop i ∈ ps)) ∧
    (∀ byCreator, p.call = some .stopped →
      ∃ q, p.step (.advance byCreator) = some q ∧ q.call = none) := by
  have hprojects := EventLoopThreadPool.run_projects hpool
  have hwaits := EventLoopThreadPool.run_waits hpool
  refine ⟨fun hin _ => ?_, fun _ hst hterm => ?_, fun i t hc ht _ hterm => ?_,
    fun byCreator hc => ?_⟩
  · exact (EventLoop.stopsNow_iff hin).trans (EventLoop.run_stoppedBy hloop)
  · exact EventLoopThread.ends_iff (EventLoopThread.run_fits hthread) hst hterm
  · exact EventLoopThreadPool.waitEnds_iff hprojects hwaits hc ht hterm
  · exact EventLoopThreadPool.stopped_returns hprojects hwaits hc byCreator

/-- A loop in whose queue a handler stands behind the functor of `Stop`, after both
have been executed and `io_service().stop()` has been called. -/
theorem stop_ends_run_direct :
    ∃ l, Runs EventLoop.step anyStep .new
      [.run, .stop false, .post (.other 0), .execute false, .execute false, .ioStop] l ∧
      (l.StopsNow ↔ EventLoop.Event.ioStop ∈
        [EventLoop.Event.run, .stop false, .post (.other 0), .execute false, .execute false,
          .ioStop]) :=
  ⟨_, exec_eq_some_iff.mp rfl,
    (stop_ends_run_iff (exec_eq_some_iff.mp rfl) (.nil EventLoopThread.start)
      (.nil (EventLoopThreadPool.create 0))).1 rfl (by decide)⟩

/-- `StopInLoop` has been executed, and `Run` executes the next handler. -/
theorem stop_leaves_run :
    ¬∀ es l, Runs EventLoop.step anyStep .new es l → l.inside = true →
      Handler.stopInLoop ∈ l.executed → l.StopsNow := by
  intro h
  have hr : Runs EventLoop.step anyStep .new [.run, .stop false, .post (.other 0), .execute false]
      { EventLoop.new with
        running := true, entered := true, inside := true
        queue := [.other 0], executed := [.stopInLoop] } := exec_eq_some_iff.mp rfl
  exact (h _ _ hr rfl (by decide)).1 false _ rfl

end Libasio
