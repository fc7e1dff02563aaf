import Libasio.EventLoop

/-!
# Stopping a loop

`EventLoop::Stop` posts `StopInLoop`, which asks the `io_service` whether it has
been stopped and does not stop it. `Run` returns if and only if somebody else
has stopped the `io_service`, and the thread of the loop ends if and only if
`Run` returns.

## Main definitions

- `EventLoop.StopsNow` — `Run` can only return
- `EventLoopThread.Fits` — what the calls so far say about a thread
- `EventLoopThread.Ends` — the thread comes to `kStopped` whatever it does next

## Main results

- `EventLoop.run_stoppedBy` — only a direct call stops the `io_service`
- `EventLoopThread.run_fits` — every run keeps the fit
- `EventLoopThread.ends_iff` — when a thread ends
-/

namespace Libasio

open Transition

namespace EventLoop

/-- `Run` executes no further handler: its next step is to return, with
`running_ = false`. -/
def StopsNow (l : EventLoop) : Prop :=
  (∀ throws l', l.step (.execute throws) ≠ some l') ∧
    ∃ l', l.step .ret = some l' ∧ l'.running = false

theorem call_fields (l : EventLoop) (h : Handler) :
    (l.call h).stopped = l.stopped ∧ (l.call h).inside = l.inside ∧
      (l.call h).queue = l.queue := by
  cases h <;> exact ⟨rfl, rfl, rfl⟩

theorem execute_cases {l l' : EventLoop} {throws : Bool} (h : l.step (.execute throws) = some l') :
    l.inside = true ∧ l.stopped = false ∧ l'.stopped = false ∧ l'.inside = !throws := by
  simp only [step] at h
  split at h
  · cases h
  · next hd hs hq =>
    obtain ⟨⟨hin, hst, -⟩, h⟩ := Option.ite_none_right_eq_some.mp h
    have hst : l.stopped = false := by simpa using hst
    obtain ⟨hs', hin', -⟩ := call_fields { l with queue := hs } hd
    cases throws with
    | true =>
      cases h
      exact ⟨hin, hst, hs'.trans hst, rfl⟩
    | false =>
      cases h
      exact ⟨hin, hst, hs'.trans hst, hin'.trans hin⟩

theorem ret_cases {l l' : EventLoop} (h : l.step .ret = some l') :
    l.inside = true ∧ l.stopped = true ∧ l' = { l with inside := false, running := false } := by
  obtain ⟨⟨hin, hst⟩, ⟨⟩⟩ := Option.ite_none_right_eq_some.mp h
  exact ⟨hin, hst, rfl⟩

/-- What other threads do leaves the thread of `Run` where it is. -/
theorem stop_fields (l : EventLoop) (inLoop : Bool) :
    (l.stop inLoop).stopped = l.stopped ∧ (l.stop inLoop).inside = l.inside := by
  cases inLoop <;> exact ⟨rfl, rfl⟩

/-- Only a direct call stops the `io_service`. -/
theorem step_stopped {l l' : EventLoop} {e : Event} (h : l.step e = some l') :
    l'.stopped = true ↔ l.stopped = true ∨ e = .ioStop := by
  cases e with
  | run =>
    obtain ⟨-, ⟨⟩⟩ := Option.ite_none_left_eq_some.mp h
    simp
  | post hd =>
    cases h
    simp [queueInLoop]
  | stop inLoop =>
    cases h
    simp [(stop_fields l inLoop).1]
  | execute throws =>
    obtain ⟨-, hst, hst', -⟩ := execute_cases h
    simp [hst, hst']
  | ret =>
    obtain ⟨-, hst, rfl⟩ := ret_cases h
    simp [hst]
  | ioStop =>
    cases h
    simp

/-- A handler that throws and the return of `run` are what ends `Run`. -/
theorem step_inside {l l' : EventLoop} {e : Event} (he : e ≠ .run) (h : l.step e = some l') :
    l'.inside = true ↔ l.inside = true ∧ e ≠ .ret ∧ e ≠ .execute true := by
  cases e with
  | run => exact absurd rfl he
  | post hd =>
    cases h
    simp [queueInLoop]
  | stop inLoop =>
    cases h
    simp [(stop_fields l inLoop).2]
  | execute throws =>
    obtain ⟨hin, -, -, hin'⟩ := execute_cases h
    simp [hin, hin']
  | ret =>
    obtain ⟨-, -, rfl⟩ := ret_cases h
    simp
  | ioStop =>
    cases h
    simp

theorem stopsNow_iff {l : EventLoop} (hin : l.inside = true) : l.StopsNow ↔ l.stopped = true := by
  constructor
  · rintro ⟨-, l', hret, -⟩
    exact (ret_cases hret).2.1
  · intro hst
    refine ⟨fun throws l' h => ?_, _, if_pos ⟨hin, hst⟩, rfl⟩
    have hst' := (execute_cases h).2.1
    rw [hst] at hst'
    cases hst'

/-- The `io_service` has been stopped in exactly the runs with a direct call. -/
def StoppedBy (es : List Event) (l : EventLoop) : Prop :=
  l.stopped = true ↔ Event.ioStop ∈ es

theorem run_stoppedBy {l : EventLoop} {es : List Event} (hr : Runs step anyStep new es l) :
    StoppedBy es l := by
  have hkeep : ∀ (es : List Event) (l : EventLoop) (e : Event) (l' : EventLoop),
      StoppedBy es l → anyStep l e l' → l.step e = some l' → StoppedBy (es ++ [e]) l' := by
    intro es l e l' hI _ h
    unfold StoppedBy at hI ⊢
    rw [step_stopped h, hI, List.mem_append, List.mem_singleton, eq_comm]
  exact hr.invariant_history hkeep (by simp [StoppedBy, new])

end EventLoop

namespace EventLoopThread

-- ════════════════════════════════════════════════════════════════════════
-- What a thread can do
-- ════════════════════════════════════════════════════════════════════════

theorem stop_cases {t t' : EventLoopThread} {byCreator : Bool} (h : t.stop byCreator = some t') :
    ∃ l inLoop, t.loop = some l ∧
      t' = { t with status := .kStopping, loop := some (l.stop inLoop) } := by
  obtain ⟨l, hl, rfl⟩ := Option.map_eq_some_iff.mp h
  exact ⟨l, _, hl, rfl⟩

theorem begin_cases {t t' : EventLoopThread} (h : t.step .begin = some t') :
    t.point = .spawned ∧ t' = { t with status := .kRunning, point := .pre } := by
  obtain ⟨hp, ⟨⟩⟩ := Option.ite_none_right_eq_some.mp h
  exact ⟨hp, rfl⟩

theorem run_cases {t t' : EventLoopThread} (h : t.step .run = some t') :
    t.point = .pre ∧ ∃ l l', t.loop = some l ∧ l.step .run = some l' ∧
      t' = { t with loop := some l', point := .looping } := by
  obtain ⟨hp, h⟩ := Option.ite_none_right_eq_some.mp h
  obtain ⟨l', hb, rfl⟩ := Option.map_eq_some_iff.mp h
  obtain ⟨l, hl, hs⟩ := Option.bind_eq_some_iff.mp hb
  exact ⟨hp, l, l', hl, hs, rfl⟩

theorem loop_cases {t t' : EventLoopThread} {e : EventLoop.Event}
    (h : t.step (.loop e) = some t') : e ≠ .run ∧ ∃ l l', t.loop = some l ∧ l.step e = some l' ∧
      t' = { t with loop := some l', point := pointAfter t.point e } := by
  cases e with
  | run => cases h
  | _ =>
    obtain ⟨l', hb, rfl⟩ := Option.map_eq_some_iff.mp h
    obtain ⟨l, hl, hs⟩ := Option.bind_eq_some_iff.mp hb
    exact ⟨by simp, l, l', hl, hs, rfl⟩

theorem reset_cases {t t' : EventLoopThread} (h : t.step .reset = some t') :
    t.point = .post ∧ t' = { t with loop := none, point := .reset } := by
  obtain ⟨hp, ⟨⟩⟩ := Option.ite_none_right_eq_some.mp h
  exact ⟨hp, rfl⟩

theorem finish_cases {t t' : EventLoopThread} (h : t.step .finish = some t') :
    t.point = .reset ∧ t' = { t with status := .kStopped, point := .done } := by
  obtain ⟨hp, ⟨⟩⟩ := Option.ite_none_right_eq_some.mp h
  exact ⟨hp, rfl⟩

-- ════════════════════════════════════════════════════════════════════════
-- Where a thread can be
-- ════════════════════════════════════════════════════════════════════════

/-- `ev_loop_->Run()` has come back. -/
def RunPoint.returned : RunPoint → Bool
  | .post | .reset | .done => true
  | _ => false

/-- The event by which user code stops the `io_service` of the thread. -/
abbrev ioStop : Call := .step (.loop .ioStop)

/-- What the calls so far say about the loop and the point of the thread. -/
structure Fits (es : List Call) (t : EventLoopThread) : Prop where
  inside : ∀ l, t.loop = some l → (l.inside = true ↔ t.point = .looping)
  stopped : ∀ l, t.loop = some l → (l.stopped = true ↔ ioStop ∈ es)
  holds : t.loop = none ↔ t.point = .reset ∨ t.point = .done
  returned : RunPoint.returned t.point = true → ioStop ∈ es
  kStopped : t.status = .kStopped → t.point = .spawned ∨ t.point = .done
  done : t.point = .done → t.status = .kStopped

theorem fits_start : Fits [] start where
  inside := by
    rintro l ⟨⟩
    simp [EventLoop.new, start]
  stopped := by
    rintro l ⟨⟩
    simp [EventLoop.new]
  holds := by simp [start]
  returned := by simp [start, RunPoint.returned]
  kStopped := fun _ => .inl rfl
  done := by simp [start]

theorem pointAfter_cases (p : RunPoint) (e : EventLoop.Event) :
    (e = .ret ∧ pointAfter p e = .post) ∨ (e = .execute true ∧ pointAfter p e = .terminated) ∨
      (e ≠ .ret ∧ e ≠ .execute true ∧ pointAfter p e = p) := by
  cases e with
  | ret => exact .inl ⟨rfl, rfl⟩
  | execute throws => cases throws <;> simp [pointAfter]
  | _ => simp [pointAfter]

/-- A step of the loop keeps the fit of the thread. -/
theorem loop_fits {es : List Call} {t : EventLoopThread} {l l' : EventLoop} {e : EventLoop.Event}
    (hf : Fits es t) (hl : t.loop = some l) (he : e ≠ .run) (hs : l.step e = some l') :
    Fits (es ++ [.step (.loop e)])
      { t with loop := some l', point := pointAfter t.point e } := by
  have hheld : ¬(t.point = .reset ∨ t.point = .done) := by
    rw [← hf.holds, hl]
    simp
  have hst : l'.stopped = true ↔ ioStop ∈ es ++ [.step (.loop e)] := by
    rw [EventLoop.step_stopped hs, hf.stopped l hl]
    simp [eq_comm]
  obtain ⟨rfl, hp⟩ | ⟨rfl, hp⟩ | ⟨hr, hx, hp⟩ := pointAfter_cases t.point e
  · obtain ⟨hin, hstop, rfl⟩ := EventLoop.ret_cases hs
    have hback : ioStop ∈ es ++ [.step (.loop .ret)] := hst.mp hstop
    have hpoint : t.point = .looping := (hf.inside l hl).mp hin
    refine ⟨?_, ?_, ?_, fun _ => hback, ?_, ?_⟩
    · rintro m ⟨⟩
      simp [hp]
    · rintro m ⟨⟩
      exact hst
    · simp [hp]
    · intro h
      have := hf.kStopped h
      simp [hpoint] at this
    · simp [hp]
  · obtain ⟨hin, -, -, hout⟩ := EventLoop.execute_cases hs
    have hpoint : t.point = .looping := (hf.inside l hl).mp hin
    refine ⟨?_, ?_, ?_, ?_, ?_, ?_⟩
    · rintro m ⟨⟩
      simp [hp, hout]
    · rintro m ⟨⟩
      exact hst
    · simp [hp]
    · simp [hp, RunPoint.returned]
    · intro h
      have := hf.kStopped h
      simp [hpoint] at this
    · simp [hp]
  · refine ⟨?_, ?_, ?_, ?_, ?_, ?_⟩
    · rintro m ⟨⟩
      rw [EventLoop.step_inside he hs, hf.inside l hl, hp]
      simp [hr, hx]
    · rintro m ⟨⟩
      exact hst
    · simpa [hp] using hheld
    · intro h
      rw [hp] at h
      exact List.mem_append_left _ (hf.returned h)
    · intro h
      rw [hp]
      exact hf.kStopped h
    · intro h
      rw [hp] at h
      exact hf.done h

theorem mem_snoc_ioStop {es : List Call} {c : Call} (hc : c ≠ ioStop) :
    ioStop ∈ es ++ [c] ↔ ioStop ∈ es := by
  simp [Ne.symm hc]

theorem stop_fits {es : List Call} {t t' : EventLoopThread} {byCreator : Bool} (hf : Fits es t)
    (h : t.stop byCreator = some t') : Fits (es ++ [.stop byCreator]) t' := by
  obtain ⟨l, inLoop, hl, rfl⟩ := stop_cases h
  obtain ⟨hstop, hin⟩ := EventLoop.stop_fields l inLoop
  have hheld : ¬(t.point = .reset ∨ t.point = .done) := by
    rw [← hf.holds, hl]
    simp
  refine ⟨?_, ?_, ?_, ?_, ?_, ?_⟩
  · rintro m ⟨⟩
    rw [hin]
    exact hf.inside l hl
  · rintro m ⟨⟩
    rw [hstop, hf.stopped l hl, mem_snoc_ioStop (by simp)]
  · simpa using hheld
  · exact fun hp => List.mem_append_left _ (hf.returned hp)
  · simp
  · exact fun hp => absurd (.inr hp) hheld

theorem step_fits {es : List Call} {t t' : EventLoopThread} {e : Event} (hf : Fits es t)
    (h : t.step e = some t') : Fits (es ++ [.step e]) t' := by
  cases e with
  | begin =>
    obtain ⟨hp, rfl⟩ := begin_cases h
    refine ⟨?_, ?_, ?_, ?_, ?_, ?_⟩
    · intro l hl
      have := hf.inside l hl
      simpa [hp] using this
    · intro l hl
      rw [hf.stopped l hl, mem_snoc_ioStop (by simp)]
    · have := hf.holds
      simpa [hp] using this
    · simp [RunPoint.returned]
    · simp
    · simp
  | run =>
    obtain ⟨hp, l, l', hl, hs, rfl⟩ := run_cases h
    obtain ⟨hin, ⟨⟩⟩ := Option.ite_none_left_eq_some.mp hs
    refine ⟨?_, ?_, ?_, ?_, ?_, ?_⟩
    · rintro m ⟨⟩
      simp
    · rintro m ⟨⟩
      rw [mem_snoc_ioStop (by simp)]
      exact hf.stopped l hl
    · simp
    · simp [RunPoint.returned]
    · intro hst
      have := hf.kStopped hst
      simp [hp] at this
    · simp
  | loop e =>
    obtain ⟨he, l, l', hl, hs, rfl⟩ := loop_cases h
    exact loop_fits hf hl he hs
  | reset =>
    obtain ⟨hp, rfl⟩ := reset_cases h
    have hback : ioStop ∈ es := hf.returned (by rw [hp]; rfl)
    refine ⟨?_, ?_, ?_, fun _ => List.mem_append_left _ hback, ?_, ?_⟩
    · rintro m ⟨⟩
    · rintro m ⟨⟩
    · simp
    · intro hst
      have := hf.kStopped hst
      simp [hp] at this
    · simp
  | finish =>
    obtain ⟨hp, rfl⟩ := finish_cases h
    have hback : ioStop ∈ es := hf.returned (by rw [hp]; rfl)
    have hnone : t.loop = none := hf.holds.mpr (.inl hp)
    refine ⟨?_, ?_, ?_, fun _ => List.mem_append_left _ hback, fun _ => .inr rfl, fun _ => rfl⟩
    · intro l hl
      rw [hnone] at hl
      cases hl
    · intro l hl
      rw [hnone] at hl
      cases hl
    · simp [hnone]

theorem run_fits {es : List Call} {t : EventLoopThread} (hr : Runs use anyStep start es t) :
    Fits es t := by
  have hkeep : ∀ (es : List Call) (t : EventLoopThread) (c : Call) (t' : EventLoopThread),
      Fits es t → anyStep t c t' → t.use c = some t' → Fits (es ++ [c]) t' := by
    intro es t c t' hf _ h
    cases c with
    | stop byCreator => exact stop_fits hf h
    | step e => exact step_fits hf h
  exact hr.invariant_history hkeep fits_start

-- ════════════════════════════════════════════════════════════════════════
-- Whether a thread ends
-- ════════════════════════════════════════════════════════════════════════

/-- Whatever the thread does next, it comes to `kStopped`. -/
inductive Ends : EventLoopThread → Prop
  | stopped {t : EventLoopThread} (h : t.status = .kStopped) : Ends t
  | step {t : EventLoopThread} (hnext : ∃ e t', e.isOwn = true ∧ t.step e = some t')
      (hall : ∀ e t', e.isOwn = true → t.step e = some t' → Ends t') : Ends t

/-- How many steps are left to a thread whose loop has been stopped. -/
def RunPoint.remaining : RunPoint → Nat
  | .spawned => 5
  | .pre => 4
  | .looping => 3
  | .post => 2
  | .reset => 1
  | .done | .terminated => 0

/-- A stopped loop has nothing to wait for. -/
theorem own_progress {es : List Call} {t : EventLoopThread} (hf : Fits es t) (hstop : ioStop ∈ es)
    (hdone : t.point ≠ .done) (hterm : t.point ≠ .terminated) :
    ∃ e t', e.isOwn = true ∧ t.step e = some t' := by
  have hheld : t.point ≠ .reset → ∃ l, t.loop = some l := by
    intro hreset
    refine Option.ne_none_iff_exists'.mp fun hnone => ?_
    exact (hf.holds.mp hnone).elim hreset hdone
  cases hp : t.point with
  | spawned => exact ⟨.begin, _, rfl, if_pos hp⟩
  | pre =>
    obtain ⟨l, hl⟩ := hheld (by simp [hp])
    have hout : ¬l.inside = true := by
      rw [hf.inside l hl, hp]
      simp
    have hs : (t.step .run).isSome = true := by simp [step, hp, hl, EventLoop.step, hout]
    exact ⟨.run, _, rfl, (Option.some_get hs).symm⟩
  | looping =>
    obtain ⟨l, hl⟩ := hheld (by simp [hp])
    have hin : l.inside = true := (hf.inside l hl).mpr hp
    have hst : l.stopped = true := (hf.stopped l hl).mpr hstop
    have hs : (t.step (.loop .ret)).isSome = true := by simp [step, hl, EventLoop.step, hin, hst]
    exact ⟨.loop .ret, _, rfl, (Option.some_get hs).symm⟩
  | post => exact ⟨.reset, _, rfl, if_pos hp⟩
  | reset => exact ⟨.finish, _, rfl, if_pos hp⟩
  | done => exact absurd hp hdone
  | terminated => exact absurd hp hterm

/-- Every step of a thread whose loop has been stopped brings it closer to its end. -/
theorem own_remaining {es : List Call} {t t' : EventLoopThread} {e : Event} (hf : Fits es t)
    (hstop : ioStop ∈ es) (he : e.isOwn = true) (h : t.step e = some t') :
    t'.point ≠ .terminated ∧ RunPoint.remaining t'.point < RunPoint.remaining t.point := by
  cases e with
  | begin =>
    obtain ⟨hp, rfl⟩ := begin_cases h
    simp [hp, RunPoint.remaining]
  | run =>
    obtain ⟨hp, l, l', -, -, rfl⟩ := run_cases h
    simp [hp, RunPoint.remaining]
  | loop e =>
    obtain ⟨-, l, l', hl, hs, rfl⟩ := loop_cases h
    have hst : l.stopped = true := (hf.stopped l hl).mpr hstop
    cases e with
    | execute throws =>
      obtain ⟨-, hst', -⟩ := EventLoop.execute_cases hs
      rw [hst] at hst'
      cases hst'
    | ret =>
      obtain ⟨hin, -, -⟩ := EventLoop.ret_cases hs
      have hp : t.point = .looping := (hf.inside l hl).mp hin
      simp [hp, pointAfter, RunPoint.remaining]
    | _ => cases he
  | reset =>
    obtain ⟨hp, rfl⟩ := reset_cases h
    simp [hp, RunPoint.remaining]
  | finish =>
    obtain ⟨hp, rfl⟩ := finish_cases h
    simp [hp, RunPoint.remaining]

theorem ends_of_ioStop {es : List Call} {t : EventLoopThread} (hf : Fits es t)
    (hstop : ioStop ∈ es) (hterm : t.point ≠ .terminated) : Ends t := by
  induction hn : RunPoint.remaining t.point using Nat.strongRecOn generalizing es t with
  | _ n ih =>
    by_cases hdone : t.point = .done
    · exact .stopped (hf.done hdone)
    · refine .step (own_progress hf hstop hdone hterm) fun e t' he h => ?_
      obtain ⟨hterm', hlt⟩ := own_remaining hf hstop he h
      exact ih _ (hn ▸ hlt) (step_fits hf h) (List.mem_append_left _ hstop) hterm' rfl

/-- `kStopped` is what a new thread has, and what the last statement sets. -/
theorem step_kStopped {t t' : EventLoopThread} {e : Event} (h : t.step e = some t')
    (hst : t'.status = .kStopped) : t.status = .kStopped ∨ t'.point = .done := by
  cases e with
  | begin =>
    obtain ⟨-, rfl⟩ := begin_cases h
    cases hst
  | run =>
    obtain ⟨-, l, l', -, -, rfl⟩ := run_cases h
    exact .inl hst
  | loop e =>
    obtain ⟨-, l, l', -, -, rfl⟩ := loop_cases h
    exact .inl hst
  | reset =>
    obtain ⟨-, rfl⟩ := reset_cases h
    exact .inl hst
  | finish =>
    obtain ⟨-, rfl⟩ := finish_cases h
    exact .inr rfl

/-- A thread whose loop has not been stopped stays in the loop, or comes to it. -/
theorem not_ends {es : List Call} {t : EventLoopThread} (hf : Fits es t) (hstop : ioStop ∉ es)
    (hst : t.status ≠ .kStopped) : ¬Ends t := by
  intro hends
  induction hends generalizing es with
  | stopped h => exact hst h
  | step hnext _ ih =>
    obtain ⟨e, t', he, h⟩ := hnext
    have hne : Call.step e ≠ ioStop := by
      rintro ⟨⟩
      cases he
    have hstop' : ioStop ∉ es ++ [.step e] := by rwa [mem_snoc_ioStop hne]
    have hf' := step_fits hf h
    refine ih e t' he h hf' hstop' fun hst' => ?_
    obtain hold | hdone := step_kStopped h hst'
    · exact hst hold
    · exact hstop' (hf'.returned (by rw [hdone]; rfl))

theorem ends_iff {es : List Call} {t : EventLoopThread} (hf : Fits es t)
    (hst : t.status ≠ .kStopped) (hterm : t.point ≠ .terminated) : Ends t ↔ ioStop ∈ es := by
  constructor
  · intro hends
    by_contra hstop
    exact not_ends hf hstop hst hends
  · exact fun hstop => ends_of_ioStop hf hstop hterm

end EventLoopThread

end Libasio
