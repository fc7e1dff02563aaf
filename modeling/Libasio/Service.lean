import Libasio.Hosting

/-!
# A server and its clients

A server and a client with the network between them. Both go through any run: the
server may have other connections and any number of worker loops, the client may
reconnect, and user code on both sides may do what it likes.

## Main results

- `service_conserves` — every byte of a pair of connections is accounted for, in
  both directions
- `service_ends_in_order` — end of file comes after everything the peer's socket has
  taken; what it had not taken is lost
-/

namespace Libasio

open Transition TcpConn

/-- Connection `i` of a server and connection `j` of a client, joined by a network. -/
abbrev Service := Link ServerLoop ClientLoop

namespace Service

def step (i j : Nat) : Service → Link.Event ServerLoop.Event ClientLoop.Event → Option Service :=
  Link.step (ServerLoop.host i) (ClientLoop.host j)

def create (serverName clientName : String) (threadNum : Nat) : Service :=
  ⟨.create serverName threadNum, .create clientName, .empty, .empty⟩

theorem initial_create (serverName clientName : String) (threadNum i j : Nat) :
    Link.Initial (ServerLoop.host i) (ClientLoop.host j)
      (create serverName clientName threadNum) := by
  refine ⟨?_, ?_, rfl, rfl⟩
  · rintro c ⟨⟩
  · rintro c ⟨⟩

variable {serverName clientName : String} {threadNum i j : Nat} {w : Service}
  {es : List (Link.Event ServerLoop.Event ClientLoop.Event)}

/-- **End to end**: whatever server and client do, and in any order, what one connection
of a pair has accepted is what the other one was handed, what waits there for its
handler, what is in flight, and what the first one still has, in this order. -/
theorem service_conserves (hr : Runs (step i j) anyStep (create serverName clientName threadNum) es w)
    {c : ServedConn} {d : TcpConn} (hc : w.left.conns[i]? = some c)
    (hd : w.right.conns[j]? = some d) :
    Accounted c.tcp d w.toRight ∧ Accounted d c.tcp w.toLeft := by
  obtain ⟨hleft, hright, hto, hfrom⟩ := Link.run_sound (initial_create _ _ _ i j) hr
  have hc' : (ServerLoop.host i).conn w.left = some c.tcp :=
    congrArg (Option.map ServedConn.tcp) hc
  have hd' : (ClientLoop.host j).conn w.right = some d := hd
  rw [hc', hd'] at hto hfrom
  exact ⟨hto.accounted (hleft _ hc'), hfrom.accounted (hright _ hd')⟩

/-- **End of file is last**: a connection that was given end of file has been handed
everything that the socket of the other one took. That one is closed, and what its
socket had not taken is lost. -/
theorem service_ends_in_order
    (hr : Runs (step i j) anyStep (create serverName clientName threadNum) es w)
    {c : ServedConn} {d : TcpConn} (hc : w.left.conns[i]? = some c)
    (hd : w.right.conns[j]? = some d) :
    (.handleRead .eof ∈ d.trace → EndedBy c.tcp d) ∧
    (.handleRead .eof ∈ c.tcp.trace → EndedBy d c.tcp) := by
  obtain ⟨hleft, hright, hto, hfrom⟩ := Link.run_sound (initial_create _ _ _ i j) hr
  have hc' : (ServerLoop.host i).conn w.left = some c.tcp :=
    congrArg (Option.map ServedConn.tcp) hc
  have hd' : (ClientLoop.host j).conn w.right = some d := hd
  rw [hc', hd'] at hto hfrom
  exact ⟨fun he => hto.endedBy (hleft _ hc') (hright _ hd') (.inr he),
    fun he => hfrom.endedBy (hright _ hd') (hleft _ hc') (.inr he)⟩

-- ════════════════════════════════════════════════════════════════════════
-- Both have connected
-- ════════════════════════════════════════════════════════════════════════

/-- The server has a connection, and so has the client. -/
def joined : Service := ⟨ServerLoop.serving, ClientLoop.connected, .empty, .empty⟩

/-- The server starts and accepts, the client connects. -/
def joining : List (Link.Event ServerLoop.Event ClientLoop.Event) :=
  [.left (.setConnectionCallback (some 0)), .left .start, .left .advance, .left .advance,
    .left (.acceptReady 0 (some ⟨true, true⟩)), .left (.handleAccept 0), .left (.conn 0 .resume),
    .left .insert, .right (.call (.setConnCallback (some 0))), .right (.call (.connect true)),
    .right (.connectDone (some ⟨true, true⟩)), .right (.conn 0 .resume true)]

theorem run_joined : Runs (step 0 0) anyStep (create "server" "client" 0) joining joined := by
  have hserving := @ServerLoop.run_serving anyStep fun _ _ _ _ => trivial
  have hleft : Runs (step 0 0) anyStep (create "server" "client" 0) _
      { create "server" "client" 0 with left := .serving } :=
    Link.run_left hserving (by simp [Host.report, ServerLoop.host, ServerLoop.eventOf, Event.report]) rfl
  have hright : Runs (step 0 0) anyStep { create "server" "client" 0 with left := .serving } _
      joined :=
    Link.run_right ClientLoop.run_connected
      (by simp [Host.report, ClientLoop.host, ClientLoop.eventOf, Event.report]) rfl
  exact hleft.append hright

theorem service_conserves_joined :
    ∃ es w c d, Runs (step 0 0) anyStep (create "server" "client" 0) es w ∧
      w.left.conns[0]? = some c ∧ w.right.conns[0]? = some d ∧
      Accounted c.tcp d w.toRight ∧ Accounted d c.tcp w.toLeft := by
  exact ⟨_, joined, _, _, run_joined, rfl, rfl, service_conserves run_joined rfl rfl⟩

/-- The client closes its connection, and the server is told the end of the stream. -/
theorem service_ends_in_order_closed :
    ∃ es w c d, Runs (step 0 0) anyStep (create "server" "client" 0) es w ∧
      w.left.conns[0]? = some c ∧ w.right.conns[0]? = some d ∧
      .handleRead .eof ∈ c.tcp.trace ∧ EndedBy d c.tcp := by
  obtain ⟨w, c, d, hclose, hc, hd, he⟩ : ∃ w c d, Runs (step 0 0) anyStep joined
      [.right (.conn 0 .close true), .right (.conn 0 .runPosted true),
        .left (.conn 0 (.readReady .eof)), .left (.conn 0 .handleRead)] w ∧
      w.left.conns[0]? = some c ∧ w.right.conns[0]? = some d ∧
      .handleRead .eof ∈ c.tcp.trace :=
    ⟨_, _, _, .cons rfl trivial (.cons rfl trivial (.cons rfl trivial (.single rfl trivial))),
      rfl, rfl, @List.mem_of_getElem? _ _ 2 _ rfl⟩
  exact ⟨_, w, c, d, run_joined.append hclose, hc, hd, he,
    (service_ends_in_order (run_joined.append hclose) hc hd).2 he⟩

end Service

end Libasio
