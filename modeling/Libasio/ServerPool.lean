import Libasio.PoolLifecycle
import Libasio.ServerSteps

/-!
# The pool of a server

`TCPServer` calls its pool in `Start`, `StopInLoop`, `AsyncAccept`, `IsRunning`,
`IsStopped` and the destructor. Its pool makes a run of its own, in which `Start` and
`Stop` are called as they are on the server.

## Main definitions

- `ServerLoop.Fronts` — the effects of a step on the acceptor, the pool and the calls
- `ServerLoop.poolCall` — the call that an event makes on the pool

## Main results

- `ServerLoop.run_pooled` — the run of the pool inside a run of the server
- `pool_calls_safe_iff` — when no call finds its threads missing
-/

namespace Libasio

open Transition

namespace ServerLoop

-- ════════════════════════════════════════════════════════════════════════
-- What a step does to the acceptor, the pool and the calls
-- ════════════════════════════════════════════════════════════════════════

/-- Only the connections, the map, the callbacks and the posted functors may differ. -/
structure SameFront (w w' : ServerLoop) : Prop where
  tpool : w'.server.tpool = w.server.tpool := by rfl
  acceptorOpen : w'.server.acceptorOpen = w.server.acceptorOpen := by rfl
  closed : w'.server.closed = w.server.closed := by rfl
  alive : w'.alive = w.alive := by rfl
  call : w'.call = w.call := by rfl
  accepts : w'.accepts = w.accepts := by rfl
  accepting : w'.accepting = w.accepting := by rfl
  escaped : w'.escaped = w.escaped := by rfl

/-- All that a change behind the front leaves alone. -/
def front (w : ServerLoop) :=
  (w.server.tpool, w.server.acceptorOpen, w.server.closed, w.alive, w.call, w.accepts, w.accepting,
    w.escaped)

theorem SameFront.of_front {w w' : ServerLoop} (h : w'.front = w.front) : SameFront w w' := by
  simp only [front, Prod.mk.injEq] at h
  obtain ⟨htpool, hopen, hclosed, halive, hcall, haccepts, haccepting, hescaped⟩ := h
  exact ⟨htpool, hopen, hclosed, halive, hcall, haccepts, haccepting, hescaped⟩

/-- The call on the pool that an event makes while the server lives. -/
def poolCall : Event → Option EventLoopThreadPool.Event
  | .start => some (.start true)
  | .stop true | .stopInLoop => some (.stop true)
  | _ => none

/-- The effect of a step on what `SameFront` compares. -/
inductive Fronts (w : ServerLoop) : Event → ServerLoop → Prop
  | nothing {e : Event} (he : poolCall e = none ∨ e = .stopInLoop ∧ w.alive = false) :
      Fronts w e w
  | destroy (hc : w.call = none) (ho : w.server.acceptorOpen = false) :
      Fronts w .destroy { w with alive := false }
  | start {tpool : EventLoopThreadPool} (hl : w.alive = true) (hc : w.call = none)
      (hp : w.server.tpool.step (.start true) = some tpool) :
      Fronts w .start { w with server.tpool := tpool, call := some .start }
  | stop {e : Event} {tpool : EventLoopThreadPool} (he : e = .stop true ∨ e = .stopInLoop)
      (hl : w.alive = true) (hc : w.call = none)
      (hp : w.server.tpool.step (.stop true) = some tpool) :
      Fronts w e { w with
        server.acceptorOpen := false
        accepts := w.accepts.map .abort
        server.tpool := tpool
        call := some .stop }
  | pool {e : Event} {pe : EventLoopThreadPool.Event} {tpool : EventLoopThreadPool}
      (he : (e = .advance ∧ pe = .advance true ∧ w.call ≠ none) ∨
        ∃ k ev, e = .thread k ev ∧ pe = .thread k ev)
      (hp : w.server.tpool.step pe = some tpool) :
      Fronts w e { w with server.tpool := tpool }
  | returns {k : ServerCall} (hk : w.call = some k) (hp : w.server.tpool.call = none) :
      Fronts w .advance (w.afterCall k)
  | ready {j : Nat} {loop : Option Nat} {r : Option Socket}
      (hop : w.accepts[j]? = some ⟨loop, none⟩) (hr : r.all Socket.isOpen = true) :
      Fronts w (.acceptReady j r) { w with accepts := w.accepts.set j ⟨loop, some r⟩ }
  | failed {j : Nat} {loop : Option Nat} (hl : w.alive = true) (hi : w.idle = true)
      (hop : w.accepts[j]? = some ⟨loop, some none⟩) :
      Fronts w (.handleAccept j) { w with accepts := w.accepts.eraseIdx j }.acceptNext
  | refused {j : Nat} {loop : Option Nat} {socket : Socket} (hl : w.alive = true)
      (hi : w.idle = true) (hop : w.accepts[j]? = some ⟨loop, some (some socket)⟩)
      (hs : ¬(socket.isOpen = true ∧ socket.hasPeer = true)) :
      Fronts w (.handleAccept j) { w with accepts := w.accepts.eraseIdx j, escaped := true }
  | accepted {j : Nat} {loop : Option Nat} {socket : Socket} (hl : w.alive = true)
      (hi : w.idle = true) (hop : w.accepts[j]? = some ⟨loop, some (some socket)⟩) :
      Fronts w (.handleAccept j)
        { w with accepts := w.accepts.eraseIdx j, accepting := some w.conns.length }
  | inserted {i : Nat} (hl : w.alive = true) (hf : w.free = true) (ha : w.accepting = some i) :
      Fronts w .insert { w with accepting := none }.acceptNext
  | late {e : Event} {accepts : List AcceptOp} {accepting : Option Nat} (hd : w.alive = false)
      (he : poolCall e = none) (hs : accepts.Sublist w.accepts)
      (ha : accepting = w.accepting ∨ accepting = none) :
      Fronts w e { w with accepts := accepts, accepting := accepting }

theorem SameFront.acceptNext {w w' : ServerLoop} (h : SameFront w w') :
    SameFront w.acceptNext w'.acceptNext := by
  unfold ServerLoop.acceptNext asyncAccept
  rw [h.closed, h.tpool]
  split
  · split
    · split
      · exact ⟨rfl, h.acceptorOpen, h.closed, h.alive, h.call,
          by simp [accept, h.accepts, h.acceptorOpen], h.accepting, h.escaped⟩
      · exact ⟨rfl, h.acceptorOpen, h.closed, h.alive, h.call, h.accepts, h.accepting, h.escaped⟩
    · exact ⟨h.tpool, h.acceptorOpen, h.closed, h.alive, h.call,
        by simp [accept, h.accepts, h.acceptorOpen], h.accepting, h.escaped⟩
  · exact h

theorem afterConn_front (w : ServerLoop) (i : Nat) (c : ServedConn) :
    SameFront w (w.afterConn i c) := by
  obtain ⟨_, _, _, _, _, he⟩ := afterConn_eq w i c
  rw [he]
  exact .of_front rfl

theorem handleNewConn_fronts {w : ServerLoop} {j : Nat} {loop : Option Nat} {socket : Socket}
    (hl : w.alive = true) (hi : w.idle = true)
    (hop : w.accepts[j]? = some ⟨loop, some (some socket)⟩) :
    ∃ v, Fronts w (.handleAccept j) v ∧
      SameFront v ({ w with accepts := w.accepts.eraseIdx j }.handleNewConn socket loop) := by
  simp only [handleNewConn, TcpConn.ctor]
  by_cases hs : socket.isOpen = true ∧ socket.hasPeer = true
  · refine ⟨_, .accepted hl hi hop, ?_⟩
    simp only [if_pos hs]
    cases loop <;> exact .of_front rfl
  · refine ⟨_, .refused hl hi hop hs, ?_⟩
    simp only [if_neg hs]
    exact .of_front rfl

theorem stopInLoop_fronts {w v w' : ServerLoop} {e : Event} (he : e = .stop true ∨ e = .stopInLoop)
    (hl : w.alive = true) (hc : w.call = none) (hv : SameFront w v)
    (h : v.stopInLoop = some w') : ∃ u, Fronts w e u ∧ SameFront u w' := by
  obtain ⟨tpool, hp, rfl⟩ := Option.map_eq_some_iff.mp h
  simp only [closeConns_eq, emit] at hp ⊢
  rw [hv.tpool] at hp
  exact ⟨_, .stop he hl hc hp, rfl, rfl, hv.closed, hv.alive, rfl, by simp [hv.accepts],
    hv.accepting, hv.escaped⟩

theorem startAccept_fronts {w w' : ServerLoop} {j : Nat} (h : w.startAccept j = some w') :
    ∃ v, Fronts w (.handleAccept j) v ∧ SameFront v w' := by
  simp only [startAccept] at h
  split at h
  · next loop r hop =>
    obtain ⟨hi, h⟩ := Option.ite_none_right_eq_some.mp h
    split at h
    · next hl =>
      cases h
      cases r with
      | none => exact ⟨_, .failed hl hi hop, .of_front rfl⟩
      | some socket => exact handleNewConn_fronts hl hi hop
    · next hl =>
      cases h
      exact ⟨_, .late (by simpa using hl) rfl (List.eraseIdx_sublist _ _) (.inl rfl), .of_front rfl⟩
  · cases h

theorem resumeAccept_fronts {w w' : ServerLoop} (h : w.resumeAccept = some w') :
    ∃ v, Fronts w .insert v ∧ SameFront v w' := by
  simp only [resumeAccept] at h
  split at h
  · cases h
  · next i ha =>
    split at h
    · cases h
    · next c hc =>
      obtain ⟨hf, h⟩ := Option.ite_none_right_eq_some.mp h
      split at h
      · next hl =>
        cases h
        exact ⟨_, .inserted hl hf ha, SameFront.acceptNext (.of_front rfl)⟩
      · next hl =>
        cases h
        exact ⟨_, .late (by simpa using hl) rfl (.refl _) (.inr rfl), .of_front rfl⟩

theorem call_of_running {w : ServerLoop} (h : w.running = true) : w.call = none :=
  Option.isNone_iff_eq_none.mp (Bool.and_eq_true_iff.mp (Bool.and_eq_true_iff.mp h).1).2

theorem call_of_free {w : ServerLoop} (h : w.free = true) : w.call = none :=
  Option.isNone_iff_eq_none.mp (Bool.and_eq_true_iff.mp (Bool.and_eq_true_iff.mp h).1).2

theorem call_of_idle {w : ServerLoop} (h : w.idle = true) : w.call = none :=
  call_of_free (free_of_idle h)

theorem step_fronts {w w' : ServerLoop} {e : Event} (h : w.step e = some w') :
    ∃ v, Fronts w e v ∧ SameFront v w' := by
  cases e with
  | start =>
    obtain ⟨⟨hl, hr⟩, h⟩ := Option.ite_none_right_eq_some.mp h
    obtain ⟨tpool, hp, rfl⟩ := Option.map_eq_some_iff.mp h
    exact ⟨_, .start hl (call_of_running hr) hp, .of_front rfl⟩
  | stop inLoop =>
    obtain ⟨hl, h⟩ := Option.ite_none_left_eq_some.mp h
    cases inLoop with
    | true =>
      obtain ⟨hr, h⟩ := Option.ite_none_right_eq_some.mp h
      exact stopInLoop_fronts (.inl rfl) (not_not.mp hl) (call_of_running hr) (.of_front rfl) h
    | false =>
      cases h
      exact ⟨w, .nothing (.inl rfl), .of_front rfl⟩
  | stopInLoop =>
    obtain ⟨⟨-, hi⟩, h⟩ := Option.ite_none_right_eq_some.mp h
    split at h
    · next hl => exact stopInLoop_fronts (.inr rfl) hl (call_of_idle hi) (by exact .of_front rfl) h
    · next hl =>
      cases h
      exact ⟨w, .nothing (.inr ⟨rfl, by simpa using hl⟩), .of_front rfl⟩
  | advance =>
    simp only [step] at h
    split at h
    · cases h
    · next k hk =>
      split at h
      · next hp =>
        cases h
        exact ⟨_, .returns hk hp, .of_front rfl⟩
      · obtain ⟨tpool, hp, rfl⟩ := Option.map_eq_some_iff.mp h
        exact ⟨_, .pool (.inl ⟨rfl, rfl, by simp [hk]⟩) hp, .of_front rfl⟩
  | setConnectionCallback cb | setMessageCallback cb =>
    obtain ⟨-, ⟨⟩⟩ := Option.ite_none_right_eq_some.mp h
    exact ⟨w, .nothing (.inl rfl), .of_front rfl⟩
  | destroy =>
    obtain ⟨⟨-, hc, hm⟩, ⟨⟩⟩ := Option.ite_none_right_eq_some.mp h
    have ho : w.server.acceptorOpen = false := by simpa using (Bool.and_eq_true_iff.mp hm).2
    exact ⟨_, .destroy hc ho, .of_front rfl⟩
  | acceptReady j r =>
    simp only [step, acceptReady] at h
    split at h
    · next loop hop =>
      obtain ⟨⟨hr, -⟩, ⟨⟩⟩ := Option.ite_none_right_eq_some.mp h
      exact ⟨_, .ready hop hr, .of_front rfl⟩
    · cases h
  | handleAccept j => exact startAccept_fronts h
  | insert => exact resumeAccept_fronts h
  | removeConn =>
    simp only [step, startRemoval] at h
    split at h
    · cases h
    · split at h
      · cases h
      · obtain ⟨-, h⟩ := Option.ite_none_right_eq_some.mp h
        split at h
        · cases h
          exact ⟨w, .nothing (.inl rfl), .of_front rfl⟩
        · cases h
          exact ⟨w, .nothing (.inl rfl), .of_front rfl⟩
  | conn i e =>
    simp only [step, stepConn] at h
    split at h
    · cases h
    · next c hc =>
      obtain ⟨-, h⟩ := Option.ite_none_right_eq_some.mp h
      obtain ⟨tcp, -, rfl⟩ := Option.map_eq_some_iff.mp h
      obtain ⟨t, ht⟩ := marked_eq w i c.tcp e
      rw [ht]
      have hsame := afterConn_front { w with trace := t } i { c with tcp := tcp }
      exact ⟨w, .nothing (.inl rfl), hsame.tpool, hsame.acceptorOpen, hsame.closed, hsame.alive,
        hsame.call, hsame.accepts, hsame.accepting, hsame.escaped⟩
  | thread k e =>
    obtain ⟨-, h⟩ := Option.ite_none_right_eq_some.mp h
    obtain ⟨tpool, hp, rfl⟩ := Option.map_eq_some_iff.mp h
    exact ⟨_, .pool (.inr ⟨k, e, rfl, rfl⟩) hp, .of_front rfl⟩

-- ════════════════════════════════════════════════════════════════════════
-- The run of the pool
-- ════════════════════════════════════════════════════════════════════════

end ServerLoop

namespace EventLoopThreadPool

theorem step_undefined {p p' : EventLoopThreadPool} {e : Event} (h : p.step e = some p')
    (hu : p'.undefined = true) : p'.call ≠ none := by
  have hdef := step_defined h
  obtain ⟨byCreator, rfl, ha⟩ | ⟨k, ev, t, t', -, -, -, rfl⟩ | ⟨-, -, -, hsame, -⟩ := step_cases h
  · cases ha with
    | undefined =>
      intro hnone
      simp [step, hdef, advance, show p.call = none from hnone] at h
    | start | started | runs | stop | awaits | leaves | exited | stopped =>
      exact absurd (hdef.symm.trans hu) Bool.false_ne_true
  · exact absurd (hdef.symm.trans hu) Bool.false_ne_true
  · exact absurd ((hsame.trans hdef).symm.trans hu) Bool.false_ne_true

/-- Between the calls nothing undefined has happened to a pool. -/
theorem defined_of_idle {n : Nat} {es : List Event} {p : EventLoopThreadPool}
    (hr : Runs step anyStep (create n) es p) (hc : p.call = none) : p.undefined = false := by
  have hinv : p.undefined = true → p.call ≠ none :=
    hr.invariant (I := fun p => p.undefined = true → p.call ≠ none)
      (fun _ _ _ _ _ h => step_undefined h) nofun
  by_contra hu
  exact hinv (by simpa using hu) hc

/-- A pool that has been started finds a thread. -/
theorem threads_of_rounds {n : Nat} {es : List Event} {p : EventLoopThreadPool}
    (hr : Runs step anyStep (create n) es p) (hc : p.call = none) (hpos : 0 < rounds es)
    (hn : 0 < n) : p.threads ≠ [] := by
  have hlen := (run_counted hr).length
  rw [hc, run_threadNum hr] at hlen
  refine List.length_pos_iff.mp ?_
  rw [show p.threads.length = n * rounds es from hlen]
  exact Nat.mul_pos hn hpos

end EventLoopThreadPool

namespace ServerLoop

open EventLoopThreadPool (tally rounds tally_snoc rounds_pos_iff)

/-- The calls of a run on the pool. -/
abbrev poolCalls (es : List Event) : List EventLoopThreadPool.Event := es.filterMap poolCall

theorem rounds_poolCalls_pos {es : List Event} : 0 < rounds (poolCalls es) ↔ Event.start ∈ es := by
  rw [rounds_pos_iff]
  simp only [poolCalls, List.mem_filterMap]
  constructor
  · rintro ⟨wait, e, he, hcall⟩
    unfold poolCall at hcall
    split at hcall
    · exact he
    · cases hcall
    · cases hcall
    · cases hcall
  · exact fun h => ⟨true, .start, h, rfl⟩

theorem poolCalls_snoc (es : List Event) (e : Event) :
    poolCalls (es ++ [e]) = poolCalls es ++ (poolCall e).toList := by
  rw [poolCalls, List.filterMap_append]
  cases h : poolCall e <;> simp [h]

/-- The pool makes a run of its own, and whatever waits for an accept comes after `Start`. -/
structure Pooled (n : Nat) (es : List Event) (w : ServerLoop) : Prop where
  runs : ∃ ps, Runs EventLoopThreadPool.step anyStep (.create n) ps w.server.tpool ∧
    rounds ps = rounds (poolCalls es) ∧ (w.alive = true → tally ps = tally (poolCalls es))
  busy : w.server.tpool.call ≠ none → w.call ≠ none
  started : w.accepts ≠ [] ∨ w.accepting ≠ none ∨ w.call = some .start → Event.start ∈ es

theorem Pooled.congr {n : Nat} {es : List Event} {w w' : ServerLoop} (h : Pooled n es w)
    (hs : SameFront w w') : Pooled n es w' := by
  refine ⟨?_, ?_, ?_⟩
  · rw [hs.tpool, hs.alive]
    exact h.runs
  · rw [hs.tpool, hs.call]
    exact h.busy
  · rw [hs.accepts, hs.accepting, hs.call]
    exact h.started

/-- `AsyncAccept` finds a socket, once the server has been started. -/
theorem Pooled.asyncAccept_eq {n : Nat} {es : List Event} {w : ServerLoop} (h : Pooled n es w)
    (hc : w.server.tpool.call = none) (hs : Event.start ∈ es) :
    ∃ tpool loop, w.asyncAccept = { w with server.tpool := tpool }.accept loop ∧
      (tpool = w.server.tpool ∨ w.server.tpool.step .getNext = some tpool) := by
  obtain ⟨ps, hr, hrounds, hround⟩ := h.runs
  have hnum := EventLoopThreadPool.run_threadNum hr
  have hdef := EventLoopThreadPool.defined_of_idle hr hc
  unfold ServerLoop.asyncAccept
  split
  · next hpos =>
    have hthreads : w.server.tpool.threads ≠ [] :=
      EventLoopThreadPool.threads_of_rounds hr hc
        (by rw [hrounds]; exact rounds_poolCalls_pos.mpr hs) (by rwa [← hnum])
    have hnext : w.server.tpool.getNext =
        (some (w.server.tpool.next.toNat % w.server.tpool.threads.length),
          { w.server.tpool with next := w.server.tpool.next + 1 }) := by
      rw [EventLoopThreadPool.getNext, if_neg (by simpa using hthreads)]
    rw [hnext]
    exact ⟨_, _, rfl, .inr (by simp [EventLoopThreadPool.step, hdef, hnext])⟩
  · exact ⟨_, none, rfl, .inl rfl⟩

/-- A step of the pool that is no call of `Start` or `Stop`. -/
theorem Pooled.stepPool {n : Nat} {es : List Event} {w : ServerLoop}
    {pe : EventLoopThreadPool.Event} {tpool : EventLoopThreadPool} (h : Pooled n es w)
    (hpe : ∀ s, EventLoopThreadPool.tallyAfter s pe = s) (hp : w.server.tpool.step pe = some tpool)
    (hbusy : tpool.call ≠ none → w.call ≠ none) :
    Pooled n es { w with server.tpool := tpool } := by
  obtain ⟨ps, hr, hrounds, hround⟩ := h.runs
  have hkept : tally (ps ++ [pe]) = tally ps := (tally_snoc ps pe).trans (hpe _)
  exact ⟨⟨ps ++ [pe], hr.snoc hp trivial, (congrArg Prod.snd hkept).trans hrounds,
    fun hl => hkept.trans (hround hl)⟩, hbusy, h.started⟩

theorem Pooled.asyncAccept {n : Nat} {es : List Event} {w : ServerLoop} (h : Pooled n es w)
    (hc : w.server.tpool.call = none) (hs : Event.start ∈ es) : Pooled n es w.asyncAccept := by
  obtain ⟨tpool, loop, heq, rfl | hnext⟩ := h.asyncAccept_eq hc hs
  · rw [heq]
    exact ⟨h.runs, h.busy, fun _ => hs⟩
  · rw [heq]
    have hcall : tpool.call = none := by
      have hstep := hnext
      simp only [EventLoopThreadPool.step] at hstep
      obtain ⟨-, ⟨⟩⟩ := Option.ite_none_left_eq_some.mp hstep
      unfold EventLoopThreadPool.getNext
      split <;> exact hc
    have hpool := h.stepPool (fun _ => rfl) hnext fun hne => absurd hcall hne
    exact ⟨hpool.runs, hpool.busy, fun _ => hs⟩

theorem Pooled.acceptNext {n : Nat} {es : List Event} {w : ServerLoop} (h : Pooled n es w)
    (hc : w.server.tpool.call = none) (hs : Event.start ∈ es) : Pooled n es w.acceptNext := by
  unfold ServerLoop.acceptNext
  split
  · exact h.asyncAccept hc hs
  · exact h

/-- An event that leaves the pool alone. -/
theorem Pooled.snoc {n : Nat} {es : List Event} {w : ServerLoop} {e : Event} (h : Pooled n es w)
    (he : poolCall e = none ∨ e = .stopInLoop ∧ w.alive = false) : Pooled n (es ++ [e]) w := by
  obtain ⟨ps, hr, hrounds, hround⟩ := h.runs
  refine ⟨⟨ps, hr, ?_, ?_⟩, h.busy, fun hw => List.mem_append_left _ (h.started hw)⟩
  · rw [poolCalls_snoc]
    obtain he | ⟨rfl, -⟩ := he
    · rwa [he, Option.toList_none, List.append_nil]
    · rw [poolCall, Option.toList_some, rounds, rounds, tally_snoc]
      exact hrounds
  · intro hl
    obtain he | ⟨-, hd⟩ := he
    · rw [poolCalls_snoc, he, Option.toList_none, List.append_nil]
      exact hround hl
    · rw [hl] at hd
      cases hd

/-- `Start` and `StopInLoop` call the pool. -/
theorem Pooled.calls {n : Nat} {es : List Event} {w w' : ServerLoop} {e : Event}
    {pe : EventLoopThreadPool.Event} (h : Pooled n es w) (hl : w.alive = true)
    (he : poolCall e = some pe) (hp : w.server.tpool.step pe = some w'.server.tpool)
    (hcall : w'.call ≠ none)
    (hstarted : w'.accepts ≠ [] ∨ w'.accepting ≠ none ∨ w'.call = some .start →
      Event.start ∈ es ++ [e]) : Pooled n (es ++ [e]) w' := by
  obtain ⟨ps, hr, -, hround⟩ := h.runs
  have hsame : tally (ps ++ [pe]) = tally (poolCalls (es ++ [e])) := by
    rw [poolCalls_snoc, he, Option.toList_some, tally_snoc, tally_snoc, hround hl]
  exact ⟨⟨ps ++ [pe], hr.snoc hp trivial, congrArg Prod.snd hsame, fun _ => hsame⟩,
    fun _ => hcall, hstarted⟩

theorem fronts_pooled {n : Nat} {es : List Event} {w w' : ServerLoop} {e : Event}
    (h : Pooled n es w) (hf : Fronts w e w') : Pooled n (es ++ [e]) w' := by
  have late : ∀ {e : Event}, Event.start ∈ es → Event.start ∈ es ++ [e] :=
    fun hs => List.mem_append_left _ hs
  have idle : w.call = none → w.server.tpool.call = none := fun hc => by
    by_contra hne
    exact h.busy hne hc
  cases hf with
  | nothing he => exact h.snoc he
  | destroy =>
    have h := @Pooled.snoc n es w .destroy h (.inl rfl)
    obtain ⟨ps, hr, hrounds, -⟩ := h.runs
    exact ⟨⟨ps, hr, hrounds, by simp⟩, h.busy, h.started⟩
  | start hl hc hp => exact h.calls hl rfl hp (by simp) fun _ => by simp
  | stop he hl hc hp =>
    refine h.calls hl (by obtain rfl | rfl := he <;> rfl) hp (by simp) fun hw => late ?_
    obtain hne | hne | hstart := hw
    · exact h.started (.inl (by simpa using hne))
    · exact h.started (.inr (.inl hne))
    · cases hstart
  | @pool e pe tpool he hp =>
    have hcall : poolCall e = none := by
      obtain ⟨rfl, -⟩ | ⟨k, ev, rfl, -⟩ := he <;> rfl
    have h' := @Pooled.snoc n es w e h (.inl hcall)
    obtain ⟨-, rfl, hne⟩ | ⟨k, ev, -, rfl⟩ := he
    · exact h'.stepPool (fun _ => rfl) hp fun _ => hne
    · have hsame : tpool.call = w.server.tpool.call := by
        simp only [EventLoopThreadPool.step] at hp
        obtain ⟨-, hp⟩ := Option.ite_none_left_eq_some.mp hp
        obtain ⟨t, -, rfl⟩ := Option.map_eq_some_iff.mp hp
        rfl
      exact h'.stepPool (fun _ => rfl) hp fun hne => h.busy (hsame ▸ hne)
  | @returns k hk hp =>
    have h' := @Pooled.snoc n es w .advance h (.inl rfl)
    cases k with
    | start =>
      refine Pooled.asyncAccept (w := { w with call := none }) ?_ hp (late (h.started (by simp [hk])))
      exact ⟨h'.runs, fun hne => absurd hp hne, fun _ => h'.started (by simp [hk])⟩
    | stop =>
      refine ⟨h'.runs, fun hne => absurd hp hne, fun hw => h'.started ?_⟩
      obtain hne | hne | hstart := hw
      · exact .inl hne
      · exact .inr (.inl hne)
      · cases hstart
  | @ready j loop r hop =>
    have h' := @Pooled.snoc n es w (.acceptReady j r) h (.inl rfl)
    refine ⟨h'.runs, h'.busy, fun _ => h'.started (.inl ?_)⟩
    rintro hnil
    simp [hnil] at hop
  | @failed j loop hl hi hop =>
    have h' := @Pooled.snoc n es w (.handleAccept j) h (.inl rfl)
    have hs : Event.start ∈ es := h.started (.inl (by rintro hnil; simp [hnil] at hop))
    refine Pooled.acceptNext (w := { w with accepts := w.accepts.eraseIdx j }) ?_
      (idle (call_of_idle hi)) (late hs)
    exact ⟨h'.runs, h'.busy, fun _ => late hs⟩
  | @refused j loop socket hl hi hop | @accepted j loop socket hl hi hop =>
    have h' := @Pooled.snoc n es w (.handleAccept j) h (.inl rfl)
    have hs : Event.start ∈ es := h.started (.inl (by rintro hnil; simp [hnil] at hop))
    exact ⟨h'.runs, h'.busy, fun _ => late hs⟩
  | @inserted i hl hf ha =>
    have h' := @Pooled.snoc n es w .insert h (.inl rfl)
    have hs : Event.start ∈ es := h.started (.inr (.inl (by simp [ha])))
    have hc : w.call = none :=
      Option.isNone_iff_eq_none.mp (Bool.and_eq_true_iff.mp (Bool.and_eq_true_iff.mp hf).1).2
    refine Pooled.acceptNext (w := { w with accepting := none }) ?_ (idle hc) (late hs)
    exact ⟨h'.runs, h'.busy, fun _ => late hs⟩
  | @late e accepts accepting hd he hs ha =>
    have h' := @Pooled.snoc n es w e h (.inl he)
    refine ⟨h'.runs, h'.busy, fun hw => h'.started ?_⟩
    obtain hne | hne | hc := hw
    · obtain ⟨op, hop⟩ := List.exists_mem_of_ne_nil _ hne
      exact .inl (List.ne_nil_of_mem (hs.subset hop))
    · obtain rfl | rfl := ha
      · exact .inr (.inl hne)
      · exact absurd rfl hne
    · exact .inr (.inr hc)

theorem step_pooled {n : Nat} {es : List Event} {w w' : ServerLoop} {e : Event}
    (h : Pooled n es w) (hs : w.step e = some w') : Pooled n (es ++ [e]) w' := by
  obtain ⟨v, hf, hsame⟩ := step_fronts hs
  exact (fronts_pooled h hf).congr hsame

theorem pooled_create (name : String) (n : Nat) : Pooled n [] (create name n) :=
  ⟨⟨[], .nil _, rfl, fun _ => rfl⟩, fun hne => absurd rfl hne, by simp [create]⟩

theorem run_pooled {name : String} {n : Nat} {es : List Event} {w : ServerLoop}
    {G : ServerLoop → Event → ServerLoop → Prop} (hr : Runs step G (create name n) es w) :
    Pooled n es w :=
  hr.invariant_history (I := Pooled n) (fun _ _ _ _ h _ hs => step_pooled h hs)
    (pooled_create name n)

end ServerLoop

-- ════════════════════════════════════════════════════════════════════════
-- The calls on a pool
-- ════════════════════════════════════════════════════════════════════════

/-- In every run of a pool, and of a server, the indices into `threads_` are in range
if and only if there are no threads to start or `Start` has been called before; and
the assertion of the pool's destructor holds if and only if `Start` has been carried
out exactly once. -/
theorem pool_calls_safe_iff {name : String} {n : Nat} {ps : List EventLoopThreadPool.Event}
    {p : EventLoopThreadPool} {es : List ServerLoop.Event} {w : ServerLoop}
    (hpool : Runs EventLoopThreadPool.step anyStep (.create n) ps p)
    (hserver : Runs ServerLoop.step anyStep (.create name n) es w) :
    (p.InRange ↔ n = 0 ∨ ∃ wait, EventLoopThreadPool.Event.start wait ∈ ps) ∧
    (p.call = none →
      (p.threadNum = p.threads.length ↔ n = 0 ∨ EventLoopThreadPool.rounds ps = 1)) ∧
    (w.server.tpool.InRange ↔ n = 0 ∨ ServerLoop.Event.start ∈ es) ∧
    (w.server.tpool.call = none → (w.server.tpool.threadNum = w.server.tpool.threads.length ↔
      n = 0 ∨ EventLoopThreadPool.rounds (ServerLoop.poolCalls es) = 1)) := by
  obtain ⟨qs, hr, hrounds, -⟩ := (ServerLoop.run_pooled hserver).runs
  have hstart : (∃ wait, EventLoopThreadPool.Event.start wait ∈ qs) ↔
      ServerLoop.Event.start ∈ es := by
    rw [← EventLoopThreadPool.rounds_pos_iff, hrounds]
    exact ServerLoop.rounds_poolCalls_pos
  refine ⟨EventLoopThreadPool.inRange_iff hpool,
    EventLoopThreadPool.destructor_assertion_iff hpool, ?_, fun hc => ?_⟩
  · rw [EventLoopThreadPool.inRange_iff hr, hstart]
  · rw [EventLoopThreadPool.destructor_assertion_iff hr hc, hrounds]

/-- A pool and a server of one thread that are started once, and stopped and destroyed
never. -/
theorem pool_calls_safe_started :
    ∃ p w, Runs EventLoopThreadPool.step anyStep (.create 1)
        [.start false, .advance true, .advance true] p ∧
      Runs ServerLoop.step anyStep (.create "s" 1) [.start] w ∧ p.InRange ∧
      p.threadNum = p.threads.length ∧ w.server.tpool.InRange := by
  have hpool : Runs EventLoopThreadPool.step anyStep (.create 1)
      [.start false, .advance true, .advance true]
      { EventLoopThreadPool.create 1 with started := true, threads := [.start] } :=
    exec_eq_some_iff.mp rfl
  have hserver : Runs ServerLoop.step anyStep (.create "s" 1) [.start]
      { ServerLoop.create "s" 1 with
        server.tpool := { EventLoopThreadPool.create 1 with call := some (.start true 0) }
        call := some .start } := exec_eq_some_iff.mp rfl
  obtain ⟨hin, hassert, hserved, -⟩ := pool_calls_safe_iff hpool hserver
  exact ⟨_, _, hpool, hserver, hin.mpr (.inr ⟨false, by simp⟩), (hassert rfl).mpr (.inr rfl),
    hserved.mpr (.inr (by simp))⟩

/-- `IsStopped()`, and with it the destructor of the server, reads `threads_[0]` of a
pool that was never started, and the assertion of the pool's destructor fails. -/
theorem unstarted_pool_out_of_range :
    ¬∀ n ps p, Runs EventLoopThreadPool.step anyStep (.create n) ps p →
      p.InRange ∧ (p.call = none → p.threadNum = p.threads.length) := by
  intro h
  obtain ⟨hin, hassert⟩ := h 1 [] _ (.nil _)
  have := hassert rfl
  have := hin .isStopped nofun 0 (by decide)
  cases this

end Libasio
