import Libasio.ClientSteps
import Libasio.ConnectionMap
import Libasio.Link
import Libasio.PacketImpl

/-!
# Servers and clients as hosts

Every connection of a server, of a client, or of one end of the packet protocol
goes through a run of its own, and is told of the network what its host was told
for it. What holds of all runs of a connection holds of all of theirs.

## Main definitions

- `ServerLoop.host`, `ClientLoop.host`, `PacketImpl.host`

## Main results

- `ServerLoop.served_connection_runs`, `ClientLoop.client_connection_runs` — the
  refinement
-/

namespace Libasio

open Transition

namespace ServerLoop

/-- What connection `i` is told to do. -/
def eventOf (i : Nat) : Event → Option TcpConn.Event
  | .conn j e => if j = i then some e else none
  | _ => none

theorem run_close (c : TcpConn) (n : Nat) : ∃ es,
    Runs TcpConn.step Beside c es (TcpConn.close^[n] c) := by
  induction n with
  | zero => exact ⟨[], .nil c⟩
  | succ n ih =>
    obtain ⟨es, hr⟩ := ih
    rw [Function.iterate_succ_apply']
    have hclose : Runs TcpConn.step Beside (TcpConn.close^[n] c) [.close]
        (TcpConn.close^[n] c).close := .single rfl (beside_of_report rfl (by simp))
    exact ⟨es ++ [.close], hr.append hclose⟩

/-- The server's close callback comes right after the step that calls it. -/
theorem hosted_settle {c d : TcpConn} {e : TcpConn.Event} (hs : c.step e = some d) :
    Hosted (some e) (some c) (some (settle d)) := by
  unfold settle
  split
  · next hf =>
    have hresume : d.step .resume = some (d.resume .removing) := by simp [TcpConn.step, hf]
    exact .told hs (.single hresume (beside_of_report rfl (by simp)))
  · exact .one hs

theorem hosted_newConn (w : ServerLoop) (loop : Option Nat) :
    Hosted none none (some (w.newConn loop)) := by
  obtain ⟨name, connFn, msgFn, hn | hn⟩ := newConn_cases w loop
  · rw [hn]
    exact .made ⟨_, _, _, _, _, rfl⟩ (.nil _)
  · exact .made ⟨_, _, _, _, _, rfl⟩ (.single hn (beside_of_report rfl (by simp)))

theorem hosted_stepConn {w w' : ServerLoop} {k : Nat} {e : TcpConn.Event}
    (h : w.stepConn k e = some w') (i : Nat) : Hosted (eventOf i (.conn k e))
      (w.conns[i]?.map ServedConn.tcp) (w'.conns[i]?.map ServedConn.tcp) := by
  simp only [stepConn] at h
  split at h
  · cases h
  · next c hc =>
    obtain ⟨-, h⟩ := Option.ite_none_right_eq_some.mp h
    obtain ⟨tcp, hs, rfl⟩ := Option.map_eq_some_iff.mp h
    obtain ⟨t, ht⟩ := marked_eq w k c.tcp e
    rw [ht, afterConn_conns]
    by_cases hik : k = i
    · subst hik
      rw [List.getElem?_set_self (List.getElem?_eq_some_iff.mp hc).1, hc]
      simp only [eventOf, if_true, Option.map_some]
      exact hosted_settle hs
    · rw [List.getElem?_set_ne hik]
      simpa only [eventOf, if_neg hik] using Hosted.same _

/-- Every step of a server is one of each of its connections, or none. -/
theorem hosted_conn {w w' : ServerLoop} {e : Event} (hs : w.step e = some w') (i : Nat) :
    Hosted (eventOf i e) (w.conns[i]?.map ServedConn.tcp) (w'.conns[i]?.map ServedConn.tcp) := by
  by_cases hconn : ∃ k e', e = .conn k e'
  · obtain ⟨k, e', rfl⟩ := hconn
    exact hosted_stepConn hs i
  · have hnone : eventOf i e = none := by
      cases e with
      | conn k e' => exact absurd ⟨k, e', rfl⟩ hconn
      | _ => rfl
    obtain ⟨v, hv, hq⟩ := step_acts hs
    rw [hq.conns, hnone]
    cases hv with
    | nothing | destroy | refuse | insert | erase | late => exact .same _
    | stop =>
      simp only [emit, closed_getElem?]
      cases w.conns[i]? with
      | none => exact .absent
      | some c =>
        obtain ⟨es, hr⟩ := run_close c.tcp (w.entryCount i)
        exact .quiet hr
    | accept =>
      rw [List.getElem?_append]
      split
      · exact .same _
      · next hlt =>
        rw [List.getElem?_eq_none (Nat.le_of_not_lt hlt)]
        cases i - w.conns.length with
        | zero => exact hosted_newConn w _
        | succ k => exact .absent
    | conn => exact absurd ⟨_, _, rfl⟩ hconn

/-- The server, and its connection `i`. -/
def host (i : Nat) : Host ServerLoop Event where
  step := step
  conn w := w.conns[i]?.map ServedConn.tcp
  event := eventOf i
  hosted hs := hosted_conn hs i

/-- **Refinement**: every connection of a server, of any number of worker loops and in
any run, is in a state that a connection reaches by itself, and was told by the network
what the server was told for it. -/
theorem served_connection_runs {name : String} {threadNum : Nat} {w : ServerLoop} {es : List Event}
    (hr : Runs step anyStep (create name threadNum) es w) {i : Nat} {c : ServedConn}
    (hc : w.conns[i]? = some c) : Reaches (es.filterMap (host i).report) c.tcp :=
  (host i).run_conn rfl hr (congrArg (Option.map ServedConn.tcp) hc)

theorem served_connection_runs_serving : ∃ es w c, Runs step anyStep (create "server" 0) es w ∧
    w.conns[0]? = some c ∧ Reaches (es.filterMap (host 0).report) c.tcp := by
  have hr := @run_serving anyStep fun _ _ _ _ => trivial
  exact ⟨_, serving, _, hr, rfl, served_connection_runs hr rfl⟩

end ServerLoop

namespace ClientLoop

/-- What connection `i` is told to do. -/
def eventOf (i : Nat) : Event → Option TcpConn.Event
  | .conn j e _ => if j = i then some e else none
  | _ => none

theorem event_of_not_concerns {w : ClientLoop} {e : Event} {i : Nat} (h : ¬Concerns w i e) :
    eventOf i e = none := by
  cases e with
  | conn j e resolves => exact if_neg h
  | _ => rfl

theorem event_of_disconnects {w : ClientLoop} {e : Event} {i : Nat}
    (h : DisconnectsInLoop w i e) : eventOf i e = none := by
  cases e with
  | conn j e resolves => exact absurd h id
  | _ => rfl

/-- What the step makes of a connection is a step of the connection. -/
theorem hosted_touches {w : ClientLoop} {e : Event} {i : Nat} {c d : TcpConn}
    (h : Touches w e i c d) : Hosted (eventOf i e) (some c) (some d) := by
  cases h with
  | same hn =>
    rw [event_of_not_concerns hn]
    exact .same _
  | closed hd =>
    rw [event_of_disconnects hd]
    exact .quiet (.single (e := .close) rfl (beside_of_report rfl (by simp)))
  | setConnCallback cb he =>
    subst he
    exact .quiet (.single (e := .setConnCallback cb) rfl (beside_of_report rfl (by simp)))
  | detached he =>
    subst he
    exact .quiet (.single (e := .setCloseCallback none) rfl (beside_of_report rfl (by simp)))
  | moved he _ hs =>
    subst he
    simpa only [eventOf, if_true] using Hosted.one hs
  | @removed e' resolves c' _ he _ hs hf hd =>
    subst he
    simp only [eventOf, if_true]
    rcases hd with rfl | rfl
    · have hthrow : c'.step .throw = some c'.throw := by simp [TcpConn.step, hf]
      exact .told hs (.single hthrow (beside_of_report rfl (by simp)))
    · have hresume : c'.step .resume = some (c'.resume .removing) := by simp [TcpConn.step, hf]
      exact .told hs (.single hresume (beside_of_report rfl (by simp)))

theorem hosted_conn {w w' : ClientLoop} {e : Event} (hs : w.step e = some w') (i : Nat) :
    Hosted (eventOf i e) w.conns[i]? w'.conns[i]? := by
  cases hi : w.conns[i]? with
  | some c =>
    obtain ⟨d, hd, ht⟩ := step_touches hs hi
    rw [hd]
    exact hosted_touches ht
  | none =>
    cases hi' : w'.conns[i]? with
    | none =>
      have hnone : eventOf i e = none := by
        cases e with
        | conn j e' resolves =>
          obtain ⟨b, b', hj, -⟩ := stepConn_cases hs
          refine if_neg ?_
          rintro rfl
          cases hj.symm.trans hi
        | _ => rfl
      rw [hnone]
      exact .absent
    | some c =>
      obtain ⟨-, -, hm, socket, rfl, -⟩ := step_made hs hi hi'
      exact .made ⟨_, _, _, _, _, rfl⟩ (.single hm (beside_of_report rfl (by simp)))

/-- The client, and its connection `i`. -/
def host (i : Nat) : Host ClientLoop Event where
  step := step
  conn w := w.conns[i]?
  event := eventOf i
  hosted hs := hosted_conn hs i

/-- **Refinement**: every connection of a client, the first and those after a reconnect,
is in a state that a connection reaches by itself, and was told by the network what the
client was told for it. -/
theorem client_connection_runs {name : String} {w : ClientLoop} {es : List Event}
    (hr : Runs step anyStep (create name) es w) {i : Nat} {c : TcpConn}
    (hc : w.conns[i]? = some c) : Reaches (es.filterMap (host i).report) c :=
  (host i).run_conn rfl hr hc

/-- A client whose connection waits for its first read. -/
def connected : ClientLoop :=
  { create "client" with
    client := ⟨"client", false, 0, some 0, some 0, none⟩
    conns := [.established "client" .kOutgoing 0 none .onRemoveConn]
    trace := [.connect, .connected 0] }

theorem run_connected : Runs step anyStep (create "client")
    [.call (.setConnCallback (some 0)), .call (.connect true), .connectDone (some ⟨true, true⟩),
      .conn 0 .resume true] connected := by
  let a : TcpConn := .attaching "client" .kOutgoing 0 none .onRemoveConn
  let w₁ : ClientLoop := { connected with conns := [a] }
  have hresume : w₁.step (.conn 0 .resume true) = some connected :=
    congrArg (Option.map fun c => w₁.afterConn 0 c true)
      (TcpConn.step_established "client" .kOutgoing 0 none .onRemoveConn)
  exact .cons rfl trivial (.cons rfl trivial (.cons rfl trivial (.single hresume trivial)))

theorem client_connection_runs_connected : ∃ es w c, Runs step anyStep (create "client") es w ∧
    w.conns[0]? = some c ∧ Reaches (es.filterMap (host 0).report) c :=
  ⟨_, connected, _, run_connected, rfl, client_connection_runs run_connected rfl⟩

end ClientLoop

namespace PacketImpl

variable {P : Type*} {cereal : Cereal P}

/-- What the connection is told to do; `OnRecvData_` is a callback that the end itself runs. -/
def event : Event → Option TcpConn.Event
  | .conn e => some e
  | .onRecvData_ => none

/-- `OnRecvData_` is a message callback that consumes the buffer, and may throw. -/
theorem hosted_conn {r r' : PacketImpl P} {e : Event} (hs : step cereal r e = some r') :
    Hosted (event e) (some r.conn) (some r'.conn) := by
  cases e with
  | conn e => exact .one (step_conn hs).2.1
  | onRecvData_ =>
    obtain ⟨hf, rfl⟩ := step_onRecvData_ hs
    have hedit := step_emptied hf
    have hbeside : Beside r.conn (.editRecv (.consume r.conn.recvBuffer.size true)) r.emptied := by
      refine ⟨rfl, ?_⟩
      rintro edit ⟨⟩
      exact ⟨_, true, rfl, le_rfl⟩
    rcases onRecvData_cases cereal r with ⟨-, he⟩ | ⟨-, -, he⟩ | ⟨pPkt, -, -, he⟩
    · rw [he]
      exact .quiet (.single hedit hbeside)
    · rw [he]
      exact .quiet (.cons hedit hbeside (.single (step_emptied_throw hf)
        (beside_of_report rfl (by simp))))
    · rw [he]
      exact .quiet (.single hedit hbeside)

/-- One end of the packet protocol, and its connection. -/
def host (cereal : Cereal P) : Host (PacketImpl P) Event where
  step := step cereal
  conn r := some r.conn
  event := event
  hosted hs := hosted_conn hs

end PacketImpl

end Libasio
