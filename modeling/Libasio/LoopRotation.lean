import Libasio.EventLoop
import Libasio.RoundRobin
import Libasio.Transition

/-!
# The rotation of a pool

`GetNextLoop` and `GetSocketForAccept`, called from any threads at the same time.
Both draw from `next_` and reduce what they have drawn by the number of threads; the
calls interleave between any two of their statements.

## Main definitions

- `GetCall` — a call under way, and what it has found
- `Rotation`, `Rotation.step` — a pool with all calls of the two functions
- `Rotation.InRange` — the counter has not run over

## Main results

- `Rotation.step_pool` — the counter moves as `EventLoopThreadPool.getNext` moves it
- `Rotation.fair_rotation` — indices in range, one thread for each call, and a fair share
-/

namespace Libasio

open Transition RoundRobin

inductive Getter
  | getNextLoop | getSocketForAccept
  deriving DecidableEq

/-- A call, from its `fetch_add` on. -/
structure GetCall where
  fn : Getter
  /-- the value that `fetch_add` has returned -/
  ticket : BitVec 64
  /-- the value that has been stored in `next` again -/
  index : Option Int
  /-- the thread of the pool on which `GetEventLoop` has been called -/
  loop : Option Nat
  /-- the thread of the pool on which `GetSocketForAccept` has been called -/
  socket : Option Nat
  deriving DecidableEq

/-- `next % threads_.size()`. A `size_t` of fewer than 64 bits is converted to
`int64_t`; otherwise the counter is converted to `size_t`. -/
def nextIndex (width : Nat) (next : BitVec 64) (size : Nat) : Int :=
  if width < 64 then next.toInt.tmod size else (next.toNat % size : Nat)

/-- The number of `threads_[next]`. -/
def EventLoopThreadPool.threadAt (p : EventLoopThreadPool) (next : Int) : Option Nat :=
  if 0 ≤ next ∧ next < p.threads.length then some next.toNat else none

/-- A pool, and the calls in the order of their `fetch_add`. -/
structure Rotation where
  pool : EventLoopThreadPool
  calls : List GetCall
  deriving DecidableEq

namespace Rotation

inductive Event
  | fetchAdd (fn : Getter)                       -- a thread begins a call
  | advance (k : Nat)                            -- call `k` executes its next statement
  | thread (i : Nat) (e : EventLoopThread.Event) -- a thread of the pool goes on
  deriving DecidableEq

/-- The test of `threads_` and `fetch_add`; without threads `ev_loop_` is returned. -/
def fetchAdd (r : Rotation) (fn : Getter) : Rotation :=
  if r.pool.threads.isEmpty then r
  else ⟨{ r.pool with next := r.pool.next + 1 },
    r.calls ++ [⟨fn, r.pool.next, none, none, none⟩]⟩

/-- The statements behind `fetch_add`. -/
def advance (width : Nat) (r : Rotation) (k : Nat) (c : GetCall) : Option Rotation :=
  match c.index with
  | none =>
    let next := nextIndex width c.ticket r.pool.threads.length
    some { r with calls := r.calls.set k { c with index := some next } }
  | some next =>
    match r.pool.threadAt next, c.loop, c.fn, c.socket with
    | none, none, _, _ => some { r with pool.undefined := true }
    | some i, none, _, _ => some { r with calls := r.calls.set k { c with loop := some i } }
    | none, some _, .getSocketForAccept, none => some { r with pool.undefined := true }
    | some i, some _, .getSocketForAccept, none =>
      some { r with calls := r.calls.set k { c with socket := some i } }
    | _, some _, _, _ => none                    -- the call has returned

def step (width : Nat) (r : Rotation) (e : Event) : Option Rotation :=
  if r.pool.undefined then none
  else
    match e with
    | .fetchAdd fn => some (r.fetchAdd fn)
    | .advance k => r.calls[k]?.bind (r.advance width k)
    | .thread i e => (r.pool.step (.thread i e)).map fun p => { r with pool := p }

/-- The step leaves the counter at or below its largest value. -/
def InRange (_ : Rotation) (_ : Event) (r : Rotation) : Prop := r.pool.next.toNat ≤ 2 ^ 63 - 1

end Rotation

-- ════════════════════════════════════════════════════════════════════════
-- The index
-- ════════════════════════════════════════════════════════════════════════

/-- Both remainders are that of the counter, while it is not negative. -/
theorem nextIndex_eq {next : BitVec 64} (h : next.toNat ≤ 2 ^ 63 - 1) (width size : Nat) :
    nextIndex width next size = (next.toNat % size : Nat) := by
  have hint : next.toInt = next.toNat := BitVec.toInt_eq_toNat_of_lt (by omega)
  unfold nextIndex
  split
  · rw [hint, Int.ofNat_tmod]
  · rfl

theorem EventLoopThreadPool.threadAt_of_lt {p : EventLoopThreadPool} {i : Nat}
    (h : i < p.threads.length) : p.threadAt i = some i := by
  rw [threadAt, if_pos ⟨Int.natCast_nonneg i, by exact_mod_cast h⟩, Int.toNat_natCast]

/-- The thread that a call chooses among `n`. -/
def GetCall.Chooses (width n : Nat) (i : Nat) (c : GetCall) : Prop :=
  nextIndex width c.ticket n = i

instance (width n i : Nat) : DecidablePred (GetCall.Chooses width n i) :=
  fun _ => inferInstanceAs (Decidable (_ = _))

/-- What the call has found belongs to the thread `i`. -/
structure GetCall.Finds (i : Nat) (c : GetCall) : Prop where
  index : ∀ next, c.index = some next → next = i
  loop : ∀ j, c.loop = some j → j = i
  socket : ∀ j, c.socket = some j → j = i

namespace Rotation

-- ════════════════════════════════════════════════════════════════════════
-- The calls of a run
-- ════════════════════════════════════════════════════════════════════════

/-- What a statement behind `fetch_add` does, while the index is in range. -/
theorem advance_cases {width k i : Nat} {r r' : Rotation} {c : GetCall} (hf : c.Finds i)
    (hi : nextIndex width c.ticket r.pool.threads.length = i) (hlt : i < r.pool.threads.length)
    (h : r.advance width k c = some r') :
    ∃ c', r' = { r with calls := r.calls.set k c' } ∧ c'.ticket = c.ticket ∧ c'.Finds i := by
  unfold advance at h
  split at h
  · cases h
    refine ⟨_, rfl, rfl, ?_, hf.loop, hf.socket⟩
    rintro next ⟨⟩
    exact hi
  · next next hnext =>
    rw [hf.index next hnext, EventLoopThreadPool.threadAt_of_lt hlt] at h
    split at h
    · next hnone _ => cases hnone
    · next hsome _ =>
      cases hsome
      cases h
      refine ⟨_, rfl, rfl, hf.index, ?_, hf.socket⟩
      rintro j ⟨⟩
      rfl
    · next hnone _ _ _ => cases hnone
    · next hsome _ _ _ =>
      cases hsome
      cases h
      refine ⟨_, rfl, rfl, hf.index, hf.loop, ?_⟩
      rintro j ⟨⟩
      rfl
    · cases h

/-- The pool is as it would be after a step of its own. -/
theorem step_pool {width : Nat} {r r' : Rotation} {e : Event} (h : r.step width e = some r') :
    r'.pool = r.pool ∨ r'.pool = { r.pool with undefined := true } ∨
      (∃ fn, e = .fetchAdd fn ∧ r.pool.step .getNext = some r'.pool) ∨
      ∃ i ev, e = .thread i ev ∧ r.pool.step (.thread i ev) = some r'.pool := by
  simp only [step] at h
  obtain ⟨hd, h⟩ := Option.ite_none_left_eq_some.mp h
  cases e with
  | fetchAdd fn =>
    cases h
    refine .inr (.inr (.inl ⟨fn, rfl, ?_⟩))
    simp only [EventLoopThreadPool.step, if_neg hd, fetchAdd, EventLoopThreadPool.getNext]
    split <;> rfl
  | advance k =>
    obtain ⟨c, -, h⟩ := Option.bind_eq_some_iff.mp h
    unfold advance at h
    split at h
    · cases h
      exact .inl rfl
    · split at h
      · cases h
        exact .inr (.inl rfl)
      · cases h
        exact .inl rfl
      · cases h
        exact .inr (.inl rfl)
      · cases h
        exact .inl rfl
      · cases h
  | thread i ev =>
    obtain ⟨p, hp, rfl⟩ := Option.map_eq_some_iff.mp h
    exact .inr (.inr (.inr ⟨i, ev, rfl, hp⟩))

/-- After `r.calls.length` calls of the two functions on a pool of `n` threads whose
counter was at `start`. -/
structure Rotates (width start n : Nat) (r : Rotation) : Prop where
  threads : r.pool.threads.length = n
  defined : r.pool.undefined = false
  counter : r.pool.next.toNat = start + r.calls.length
  drawn : Drawn (fun c => c.ticket.toNat) start r.calls
  finds : ∀ c ∈ r.calls, c.ticket.toNat ≤ 2 ^ 63 - 1 ∧ c.Finds (c.ticket.toNat % n)

theorem step_rotates {width start n : Nat} {r r' : Rotation} {e : Event} (hn : 0 < n)
    (h : Rotates width start n r) (hmax : r.pool.next.toNat ≤ 2 ^ 63 - 1)
    (hs : r.step width e = some r') : Rotates width start n r' := by
  simp only [step, h.defined, Bool.false_eq_true, if_false] at hs
  cases e with
  | fetchAdd fn =>
    cases hs
    have hne : r.pool.threads.isEmpty = false := by
      rw [List.isEmpty_eq_false_iff, ← List.length_pos_iff, h.threads]
      exact hn
    simp only [fetchAdd, hne, Bool.false_eq_true, if_false]
    refine ⟨h.threads, h.defined, ?_, h.drawn.snoc h.counter, ?_⟩
    · have hstep : (r.pool.next + 1).toNat = r.pool.next.toNat + 1 := by
        have hlt : r.pool.next.toNat + (1 : BitVec 64).toNat < 2 ^ 64 := by
          simp only [BitVec.reduceToNat]
          omega
        exact BitVec.toNat_add_of_lt hlt
      rw [hstep, h.counter, List.length_append, List.length_singleton, Nat.add_assoc]
    · intro c hc
      obtain hc | hc := List.mem_append.mp hc
      · exact h.finds c hc
      · cases List.mem_singleton.mp hc
        exact ⟨hmax, nofun, nofun, nofun⟩
  | advance k =>
    obtain ⟨c, hc, hs⟩ := Option.bind_eq_some_iff.mp hs
    obtain ⟨hsmall, hf⟩ := h.finds c (List.mem_of_getElem? hc)
    have hindex := nextIndex_eq hsmall width r.pool.threads.length
    rw [h.threads] at hindex
    obtain ⟨c', rfl, hticket, hf'⟩ := advance_cases hf (by rw [h.threads]; exact hindex)
      (by rw [h.threads]; exact Nat.mod_lt _ hn) hs
    refine ⟨h.threads, h.defined, ?_, h.drawn.set hc (congrArg BitVec.toNat hticket), ?_⟩
    · rw [List.length_set]
      exact h.counter
    · intro d hd
      obtain hd | rfl := List.mem_or_eq_of_mem_set hd
      · exact h.finds d hd
      · rw [hticket]
        exact ⟨hsmall, hf'⟩
  | thread i ev =>
    obtain ⟨p, hp, rfl⟩ := Option.map_eq_some_iff.mp hs
    simp only [EventLoopThreadPool.step, h.defined, Bool.false_eq_true, if_false] at hp
    obtain ⟨t, -, rfl⟩ := Option.map_eq_some_iff.mp hp
    exact ⟨List.length_set.trans h.threads, rfl, h.counter, h.drawn, h.finds⟩

theorem run_rotates {width : Nat} {p : EventLoopThreadPool} {es : List Event} {r : Rotation}
    (hn : 0 < p.threads.length) (hd : p.undefined = false) (h₀ : p.next.toNat ≤ 2 ^ 63 - 1)
    (hr : Runs (step width) InRange ⟨p, []⟩ es r) :
    Rotates width p.next.toNat p.threads.length r := by
  have hkeep := hr.invariant
    (I := fun r => Rotates width p.next.toNat p.threads.length r ∧ r.pool.next.toNat ≤ 2 ^ 63 - 1)
    (fun _ _ _ h hg hs => ⟨step_rotates hn h.1 h.2 hs, hg⟩)
    ⟨⟨rfl, hd, rfl, .nil, nofun⟩, h₀⟩
  exact hkeep.1

/-- Whatever the interleaving of the calls: no access is out of range, each call takes
everything from one thread, and any two threads have their share of every window. -/
theorem fair_rotation {width : Nat} {p : EventLoopThreadPool} {es : List Event} {r : Rotation}
    (hn : 0 < p.threads.length) (hd : p.undefined = false) (h₀ : p.next.toNat ≤ 2 ^ 63 - 1)
    (hr : Runs (step width) InRange ⟨p, []⟩ es r) :
    r.pool.undefined = false ∧
      (∀ c ∈ r.calls, ∃ i < p.threads.length, c.Chooses width p.threads.length i ∧ c.Finds i) ∧
      ∀ window, window <:+: r.calls → ∀ i j, i < p.threads.length → j < p.threads.length →
        window.countP (GetCall.Chooses width p.threads.length i) ≤
          window.countP (GetCall.Chooses width p.threads.length j) + 1 := by
  have h := run_rotates hn hd h₀ hr
  refine ⟨h.defined, fun c hc => ?_, fun window hw i j hi hj => ?_⟩
  · obtain ⟨hsmall, hf⟩ := h.finds c hc
    exact ⟨_, Nat.mod_lt _ hn, nextIndex_eq hsmall _ _, hf⟩
  · have hsame : ∀ k, window.countP (GetCall.Chooses width p.threads.length k) =
        window.countP (Chosen (fun c : GetCall => c.ticket.toNat) p.threads.length k) := by
      refine fun k => List.countP_congr fun c hc => ?_
      obtain ⟨hsmall, -⟩ := h.finds c (hw.subset hc)
      simp only [GetCall.Chooses, Chosen, nextIndex_eq hsmall]
      exact decide_eq_true_iff.trans (Int.natCast_inj.trans decide_eq_true_iff.symm)
    rw [hsame, hsame]
    exact h.drawn.fair hw hi hj

/-- A pool of two threads. -/
def twoThreads : EventLoopThreadPool :=
  { EventLoopThreadPool.create 2 with threads := [.start, .start] }

abbrev twoCalls : List Event :=
  [.fetchAdd .getSocketForAccept, .fetchAdd .getNextLoop, .advance 1, .advance 0, .advance 0,
    .advance 1, .advance 0]

def afterTwoCalls : Rotation :=
  ⟨{ twoThreads with next := 2 },
    [⟨.getSocketForAccept, 0, some 0, some 0, some 0⟩, ⟨.getNextLoop, 1, some 1, some 1, none⟩]⟩

theorem fair_rotation_two_calls :
    Runs (step 64) InRange ⟨twoThreads, []⟩ twoCalls afterTwoCalls ∧
      (∀ c ∈ afterTwoCalls.calls, ∃ i < 2, c.Chooses 64 2 i ∧ c.Finds i) ∧
      afterTwoCalls.calls.countP (GetCall.Chooses 64 2 0) ≤
        afterTwoCalls.calls.countP (GetCall.Chooses 64 2 1) + 1 := by
  have hr : Runs (step 64) InRange ⟨twoThreads, []⟩ twoCalls afterTwoCalls := by
    have hrange : ∀ {r : Rotation} {e : Event} {s : Rotation}, s.pool.next.toNat ≤ 2 →
        InRange r e s := fun h => by
      unfold InRange
      omega
    exact .cons rfl (hrange (by decide)) (.cons rfl (hrange (by decide))
      (.cons rfl (hrange (by decide)) (.cons rfl (hrange (by decide))
        (.cons rfl (hrange (by decide)) (.cons rfl (hrange (by decide))
          (.single rfl (hrange (by decide))))))))
  obtain ⟨-, hfinds, hfair⟩ := fair_rotation (by decide) rfl (by decide) hr
  exact ⟨hr, hfinds, hfair _ List.infix_rfl 0 1 (by decide) (by decide)⟩

end Rotation

end Libasio
