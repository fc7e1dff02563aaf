import Libasio.PoolStop
import Mathlib.Data.List.Induction

/-!
# The lifecycle of a thread pool

The loops of `EventLoopThreadPool` run to `thread_num_`, the vector `threads_` is
filled by `Start` and never emptied before the destructor. What the calls find in
it depends on how often `Start` has been carried out.

## Main definitions

- `EventLoopThreadPool.indices` — the indices of `threads_` that an operation uses
- `EventLoopThreadPool.rounds` — how often `Start` has been carried out

## Main results

- `EventLoopThreadPool.run_counted` — the size of `threads_` along every run
- `EventLoopThreadPool.inRange_iff`, `EventLoopThreadPool.destructor_assertion_iff` —
  when the indices are in range, and when the assertion of the destructor holds
-/

namespace Libasio

open Transition

/-- A call of `Start`, not one of `Stop`. -/
def PoolCall.isStart : PoolCall → Bool
  | .start _ _ | .starting _ => true
  | _ => false

/-- Where a call can be in its loop, with `n` threads to make or to stop and `made` of them
made. -/
def PoolCall.Within (n made : Nat) : PoolCall → Prop
  | .start _ i => i ≤ n
  | .starting i => i < n
  | .stop _ i => i ≤ made
  | .stopping _ | .stopped => True

namespace EventLoopThreadPool

/-- The uses of `threads_[i]`: by the next statement of the call under way, or by an
operation that waits for nothing. -/
inductive Use
  | call | isRunning | isStopped | getNext | destructor

/-- The indices of a loop over `threads_` that ends with the first thread that fails
the test. -/
def visits (test : EventLoopThread → Option Bool) : Nat → List (Option EventLoopThread) → List Nat
  | _, [] => []
  | i, none :: _ => [i]
  | i, some t :: ts => i :: if test t = some true then visits test (i + 1) ts else []

/-- The indices that the use computes, in order. The destructor tests the size of
`threads_` before it looks at the threads. -/
def indices (p : EventLoopThreadPool) : Use → List Nat
  | .call =>
    match p.call with
    | some (.stop _ i) => if i < p.threadNum then [i] else []
    | some .stopped => visits (fun t => some t.isStopped) 0 p.slots
    | _ => []
  | .isRunning => if p.started then visits EventLoopThread.isRunning 0 p.slots else []
  | .isStopped =>
    if p.threadNum = 0 then [] else visits (fun t => some t.isStopped) 0 p.slots
  | .getNext => if p.threads.isEmpty then [] else [p.next.toNat % p.threads.length]
  | .destructor =>
    if p.threadNum = p.threads.length then visits (fun t => some t.isStopped) 0 p.slots else []

/-- Whatever is done next to the pool, by the call under way or else by another
operation, finds its threads. -/
def InRange (p : EventLoopThreadPool) : Prop :=
  ∀ u, (∀ c, p.call = some c → u = .call) → ∀ i ∈ p.indices u, i < p.threads.length

/-- A call of `Start` on a pool that is not started is carried out: whether it is
started, and how many there were. -/
def tallyAfter (s : Bool × Nat) : Event → Bool × Nat
  | .start _ => if s.1 then s else (true, s.2 + 1)
  | .stop _ => (false, s.2)
  | _ => s

def tally (es : List Event) : Bool × Nat := es.foldl tallyAfter (false, 0)

/-- How often `Start` has been carried out. -/
def rounds (es : List Event) : Nat := (tally es).2

theorem tally_snoc (es : List Event) (e : Event) : tally (es ++ [e]) = tallyAfter (tally es) e := by
  simp [tally]

theorem tally_started {es : List Event} (h : (tally es).1 = true) : 0 < (tally es).2 := by
  induction es using List.reverseRecOn with
  | nil => cases h
  | append_singleton es e ih =>
    rw [tally_snoc] at h ⊢
    cases e with
    | start wait =>
      simp only [tallyAfter] at h ⊢
      split
      · next hs => exact ih hs
      · exact Nat.succ_pos _
    | stop wait => cases h
    | advance _ | getNext | thread _ _ => exact ih h

/-- `Start` has been carried out if it has been called. -/
theorem rounds_pos_iff {es : List Event} : 0 < rounds es ↔ ∃ wait, Event.start wait ∈ es := by
  induction es using List.reverseRecOn with
  | nil => simp [rounds, tally]
  | append_singleton es e ih =>
    rw [rounds, tally_snoc]
    cases e with
    | start wait =>
      refine iff_of_true ?_ ⟨wait, by simp⟩
      simp only [tallyAfter]
      split
      · next hs => exact tally_started hs
      · exact Nat.succ_pos _
    | stop _ | advance _ | getNext | thread _ _ => simpa [tallyAfter, rounds] using ih

theorem tally_of_no_start {es : List Event} (h : ¬0 < rounds es) : tally es = (false, 0) := by
  have hzero : (tally es).2 = 0 := Nat.eq_zero_of_not_pos h
  have hoff : (tally es).1 = false := by
    by_contra hon
    exact h (tally_started (by simpa using hon))
  exact Prod.ext hoff hzero

/-- How many threads a call of `Start` has still to make. -/
def toMake (n : Nat) : Option PoolCall → Nat
  | some (.start _ i) => n - i
  | some (.starting i) => n - (i + 1)
  | _ => 0

/-- Each `Start` that is carried out adds `thread_num_` threads, and nothing else
changes their number. -/
structure Counted (es : List Event) (p : EventLoopThreadPool) : Prop where
  length : p.threads.length + toMake p.threadNum p.call = p.threadNum * rounds es
  starting : ∀ i, p.call = some (.starting i) → i < p.threadNum
  start : ∀ wait i, p.call = some (.start wait i) → i ≤ p.threadNum
  stop : ∀ wait i, p.call = some (.stop wait i) → i ≤ p.threads.length
  idle : p.call = none → p.started = (tally es).1
  busy : ∀ c, p.call = some c → (tally es).1 = c.isStart

theorem Counted.of_call {es : List Event} {p : EventLoopThreadPool} {k : PoolCall}
    (hk : p.call = some k)
    (hlen : p.threads.length + toMake p.threadNum (some k) = p.threadNum * rounds es)
    (hwithin : k.Within p.threadNum p.threads.length) (hflag : (tally es).1 = k.isStart) :
    Counted es p := by
  refine ⟨hk ▸ hlen, fun i hi => ?_, fun wait i hi => ?_, fun wait i hi => ?_, fun hnone => ?_,
    fun c hc => ?_⟩
  · cases hk.symm.trans hi
    exact hwithin
  · cases hk.symm.trans hi
    exact hwithin
  · cases hk.symm.trans hi
    exact hwithin
  · cases hk.symm.trans hnone
  · cases hk.symm.trans hc
    exact hflag

theorem Counted.of_idle {es : List Event} {p : EventLoopThreadPool} (hk : p.call = none)
    (hlen : p.threads.length = p.threadNum * rounds es) (hflag : p.started = (tally es).1) :
    Counted es p := by
  have hnot : ∀ c, p.call ≠ some c := fun c hc => by cases hk.symm.trans hc
  exact ⟨by rw [hk]; exact hlen, fun i hi => absurd hi (hnot _), fun wait i hi => absurd hi (hnot _),
    fun wait i hi => absurd hi (hnot _), fun _ => hflag, fun c hc => absurd hc (hnot c)⟩

theorem counted_create (n : Nat) : Counted [] (create n) :=
  .of_idle rfl (by simp [create, rounds, tally]) rfl

/-- A step that leaves the call and the number of threads alone. -/
theorem Counted.kept {es es' : List Event} {p q : EventLoopThreadPool} (h : Counted es p)
    (hlen : q.threads.length = p.threads.length) (hcall : q.call = p.call)
    (hnum : q.threadNum = p.threadNum) (hst : q.started = p.started)
    (ht : tally es' = tally es) : Counted es' q := by
  have hrounds : rounds es' = rounds es := congrArg Prod.snd ht
  refine ⟨?_, ?_, ?_, ?_, ?_, ?_⟩
  · rw [hlen, hcall, hnum, hrounds]
    exact h.length
  · rw [hcall, hnum]
    exact h.starting
  · rw [hcall, hnum]
    exact h.start
  · rw [hcall, hlen]
    exact h.stop
  · rw [hcall, hst, ht]
    exact h.idle
  · rw [hcall, ht]
    exact h.busy

/-- The parts that the steps of the caller leave alone. -/
theorem Counted.advances {es : List Event} {p p' : EventLoopThreadPool} {byCreator : Bool}
    (h : Counted es p) (ha : Advances p byCreator p') : Counted (es ++ [.advance byCreator]) p' := by
  have hround : tally (es ++ [.advance byCreator]) = tally es := tally_snoc es _
  have hrounds : rounds (es ++ [.advance byCreator]) = rounds es := congrArg Prod.snd hround
  have hlen := h.length
  cases ha with
  | undefined => exact h.kept rfl rfl rfl rfl hround
  | @start wait i hc hi =>
    have hflag : (tally es).1 = true := h.busy _ hc
    simp only [hc, toMake] at hlen
    cases wait with
    | true =>
      refine .of_call (k := .starting i) rfl ?_ hi (hround ▸ hflag)
      simp only [toMake, List.length_append, List.length_singleton, hrounds]
      omega
    | false =>
      refine .of_call (k := .start false (i + 1)) rfl ?_ hi (hround ▸ hflag)
      simp only [toMake, List.length_append, List.length_singleton, hrounds]
      omega
  | @started wait i hc hi =>
    have hle := h.start wait i hc
    have hflag : (tally es).1 = true := h.busy _ hc
    simp only [hc, toMake] at hlen
    refine .of_idle rfl ?_ (hround ▸ hflag.symm)
    simp only [hrounds]
    omega
  | @runs i hc =>
    have hlt := h.starting i hc
    have hflag : (tally es).1 = true := h.busy _ hc
    simp only [hc, toMake] at hlen
    refine .of_call (k := .start true (i + 1)) rfl ?_ hlt (hround ▸ hflag)
    simp only [toMake, hrounds]
    omega
  | @stop wait i t t' hc hi ht hs =>
    have hlt := (List.getElem?_eq_some_iff.mp ht).1
    have hflag : (tally es).1 = false := h.busy _ hc
    simp only [hc, toMake] at hlen
    cases wait with
    | true =>
      refine .of_call (k := .stopping i) rfl ?_ trivial (hround ▸ hflag)
      simpa only [toMake, List.length_set, hrounds] using hlen
    | false =>
      refine .of_call (k := .stop false (i + 1)) rfl ?_ ?_ (hround ▸ hflag)
      · simpa only [toMake, List.length_set, hrounds] using hlen
      · rw [List.length_set]
        exact hlt
  | @awaits i hc hi hn =>
    have hflag : (tally es).1 = false := h.busy _ hc
    simp only [hc, toMake] at hlen
    exact .of_call (k := .stopped) rfl (hrounds ▸ hlen) trivial (hround ▸ hflag)
  | @leaves wait i hc hi hw =>
    have hflag : (tally es).1 = false := h.busy _ hc
    simp only [hc, toMake] at hlen
    exact .of_idle rfl (hrounds ▸ hlen) (hround ▸ hflag.symm)
  | @exited i t hc ht hst =>
    have hlt := (List.getElem?_eq_some_iff.mp ht).1
    have hflag : (tally es).1 = false := h.busy _ hc
    simp only [hc, toMake] at hlen
    exact .of_call (k := .stop true (i + 1)) rfl (hrounds ▸ hlen) hlt (hround ▸ hflag)
  | stopped hc =>
    have hflag : (tally es).1 = false := h.busy _ hc
    simp only [hc, toMake] at hlen
    exact .of_idle rfl (hrounds ▸ hlen) (hround ▸ hflag.symm)

theorem step_counted {es : List Event} {p p' : EventLoopThreadPool} {e : Event} (h : Counted es p)
    (hc : p.step e = some p') : Counted (es ++ [e]) p' := by
  simp only [step] at hc
  obtain ⟨-, hc⟩ := Option.ite_none_left_eq_some.mp hc
  have hround := tally_snoc es e
  cases e with
  | start wait =>
    obtain ⟨hnone, hc⟩ := Option.ite_none_left_eq_some.mp hc
    have hnone : p.call = none := not_not.mp hnone
    have hidle := h.idle hnone
    have hlen := h.length
    simp only [hnone, toMake] at hlen
    split at hc
    · next hs =>
      cases hc
      refine h.kept rfl rfl rfl rfl (hround.trans ?_)
      rw [tallyAfter, if_pos (by rw [← hidle, hs])]
    · next hs =>
      cases hc
      have hnext : tally (es ++ [.start wait]) = (true, rounds es + 1) := by
        rw [hround, tallyAfter, if_neg (by rw [← hidle]; exact hs)]
        rfl
      have hrounds : rounds (es ++ [.start wait]) = rounds es + 1 := congrArg Prod.snd hnext
      refine .of_call (k := .start wait 0) rfl ?_ (Nat.zero_le _) (congrArg Prod.fst hnext)
      simp only [toMake, hrounds, Nat.mul_add]
      omega
  | stop wait =>
    obtain ⟨hnone, ⟨⟩⟩ := Option.ite_none_left_eq_some.mp hc
    have hnone : p.call = none := not_not.mp hnone
    have hlen := h.length
    simp only [hnone, toMake] at hlen
    have hrounds : rounds (es ++ [.stop wait]) = rounds es := by
      rw [rounds, hround]
      rfl
    exact .of_call (k := .stop wait 0) rfl (hrounds ▸ hlen) (Nat.zero_le _)
      (congrArg Prod.fst hround)
  | advance byCreator => exact h.advances (advance_cases hc)
  | getNext =>
    cases hc
    unfold getNext
    split
    · exact h.kept rfl rfl rfl rfl hround
    · exact h.kept rfl rfl rfl rfl hround
  | thread i ev =>
    obtain ⟨t, -, rfl⟩ := Option.map_eq_some_iff.mp hc
    exact h.kept List.length_set rfl rfl rfl hround

theorem run_counted {n : Nat} {es : List Event} {p : EventLoopThreadPool}
    {G : EventLoopThreadPool → Event → EventLoopThreadPool → Prop}
    (hr : Runs step G (create n) es p) : Counted es p :=
  hr.invariant_history (I := Counted) (fun _ _ _ _ h _ hc => step_counted h hc) (counted_create n)

theorem run_threadNum {n : Nat} {es : List Event} {p : EventLoopThreadPool}
    {G : EventLoopThreadPool → Event → EventLoopThreadPool → Prop}
    (hr : Runs step G (create n) es p) : p.threadNum = n :=
  hr.invariant (I := fun p => p.threadNum = n) (fun _ _ _ h _ hc => (step_threadNum hc).trans h) rfl

-- ════════════════════════════════════════════════════════════════════════
-- The accesses to `threads_`
-- ════════════════════════════════════════════════════════════════════════

theorem visits_lt {test : EventLoopThread → Option Bool} {ts : List (Option EventLoopThread)}
    {k : Nat} : ∀ j ∈ visits test k ts, j < k + ts.length := by
  induction ts generalizing k with
  | nil => simp [visits]
  | cons o ts ih =>
    cases o with
    | none => simp [visits]
    | some t =>
      intro j hj
      rw [visits, List.mem_cons] at hj
      obtain rfl | hj := hj
      · simp
      · split at hj
        · have := ih j hj
          simp only [List.length_cons]
          omega
        · cases hj

theorem visits_slots_lt (p : EventLoopThreadPool) (test : EventLoopThread → Option Bool) :
    ∀ j ∈ visits test 0 p.slots, j < p.threadNum := by
  intro j hj
  have := visits_lt j hj
  simpa [slots] using this

theorem made_of_none {n : Nat} {c : Option PoolCall} (h : c = none) : toMake n c = 0 := by
  rw [h]
  rfl

/-- The operations that wait for nothing come between the calls. -/
theorem idle_of_use {p : EventLoopThreadPool} {u : Use}
    (hu : ∀ c, p.call = some c → u = .call) (hne : u ≠ .call) : p.call = none :=
  Option.eq_none_iff_forall_ne_some.mpr fun c hc => hne (hu c hc)

/-- A pool that has been started at least once, or has no threads to start, is
accessed within `threads_`. -/
theorem inRange_of_rounds {es : List Event} {p : EventLoopThreadPool} (h : Counted es p)
    (hn : p.threadNum = 0 ∨ 0 < rounds es) : p.InRange := by
  have hlen := h.length
  have hle : p.threadNum ≤ p.threadNum * rounds es := by
    obtain hz | hpos := hn
    · simp [hz]
    · exact Nat.le_mul_of_pos_right _ hpos
  have scanned : ∀ test, toMake p.threadNum p.call = 0 → ∀ j ∈ visits test 0 p.slots,
      j < p.threads.length := by
    intro test hmade j hj
    have := visits_slots_lt p test j hj
    omega
  intro u hu i hi
  cases u with
  | call =>
    simp only [indices] at hi
    split at hi
    · next wait j hc =>
      split at hi
      · next hj =>
        obtain rfl := List.mem_singleton.mp hi
        simp only [hc, toMake] at hlen
        omega
      · cases hi
    · next hc => exact scanned _ (by rw [hc]; rfl) i hi
    · cases hi
  | isRunning | destructor =>
    simp only [indices] at hi
    split at hi
    · exact scanned _ (made_of_none (idle_of_use hu nofun)) i hi
    · cases hi
  | isStopped =>
    simp only [indices] at hi
    split at hi
    · cases hi
    · exact scanned _ (made_of_none (idle_of_use hu nofun)) i hi
  | getNext =>
    simp only [indices] at hi
    split at hi
    · cases hi
    · next hne =>
      rw [List.mem_singleton] at hi
      subst hi
      refine Nat.mod_lt _ (List.length_pos_iff.mpr ?_)
      simpa using hne

/-- In every run the indices are in range if and only if the pool has no threads to
start or `Start` has been called. -/
theorem inRange_iff {n : Nat} {es : List Event} {p : EventLoopThreadPool}
    (hr : Runs step anyStep (create n) es p) : p.InRange ↔ n = 0 ∨ ∃ wait, .start wait ∈ es := by
  have hc := run_counted hr
  have hnum := run_threadNum hr
  rw [← rounds_pos_iff]
  refine ⟨fun hin => ?_, fun h => inRange_of_rounds hc (by rwa [hnum])⟩
  by_contra hno
  obtain ⟨hn, hzero⟩ := not_or.mp hno
  have hflag : tally es = (false, 0) := tally_of_no_start hzero
  have hempty : p.threads = [] ∧ toMake p.threadNum p.call = 0 := by
    have hlen := hc.length
    rw [rounds, hflag, Nat.mul_zero, Nat.add_eq_zero_iff] at hlen
    exact ⟨List.length_eq_zero_iff.mp hlen.1, hlen.2⟩
  -- the first index that is used is 0
  have hfirst : ∀ test, 0 ∈ visits test 0 p.slots := by
    intro test
    obtain ⟨m, rfl⟩ := Nat.exists_eq_succ_of_ne_zero hn
    simp [slots, hnum, hempty.1, List.range_succ_eq_map, visits]
  suffices hbad : ∃ u, (∀ c, p.call = some c → u = .call) ∧ 0 ∈ p.indices u by
    obtain ⟨u, hu, hmem⟩ := hbad
    have := hin u hu 0 hmem
    rw [hempty.1] at this
    cases this
  cases hcall : p.call with
  | none =>
    refine ⟨.isStopped, nofun, ?_⟩
    rw [indices, if_neg (by rw [hnum]; exact hn)]
    exact hfirst _
  | some c =>
    refine ⟨.call, fun _ _ => rfl, ?_⟩
    have hnot : c.isStart = false := by rw [← hc.busy c hcall, hflag]
    cases c with
    | start wait i | starting i => cases hnot
    | stop wait i =>
      have hi := hc.stop wait i hcall
      rw [hempty.1] at hi
      obtain rfl := Nat.le_zero.mp hi
      simp only [indices, hcall, if_pos (show 0 < p.threadNum by omega)]
      exact List.mem_singleton_self 0
    | stopping i =>
      obtain ⟨t, ht, -⟩ := (run_waits hr).waiting i hcall
      rw [hempty.1] at ht
      cases ht
    | stopped =>
      simp only [indices, hcall]
      exact hfirst _

/-- The assertion `thread_num_ == threads_.size()` of the destructor. -/
theorem destructor_assertion_iff {n : Nat} {es : List Event} {p : EventLoopThreadPool}
    (hr : Runs step anyStep (create n) es p) (hc : p.call = none) :
    p.threadNum = p.threads.length ↔ n = 0 ∨ rounds es = 1 := by
  have hlen := (run_counted hr).length
  rw [hc, run_threadNum hr] at hlen
  rw [run_threadNum hr, show p.threads.length = n * rounds es from hlen]
  constructor
  · intro h
    obtain rfl | hpos := Nat.eq_zero_or_pos n
    · exact .inl rfl
    · exact .inr (Nat.eq_of_mul_eq_mul_left hpos (by rw [← h, Nat.mul_one]))
  · rintro (rfl | h)
    · rw [Nat.zero_mul]
    · rw [h, Nat.mul_one]

end EventLoopThreadPool

end Libasio
