import Libasio.SteadyTimer
import Libasio.Transition

/-!
# The packet example

`SimpleClient` and `SimpleServer` (`examples/tcp_cereal_packet`): the client logs in on
every new connection, and once it is logged in its timer makes it send `KeepAlive` every
three seconds. A connection that is lost does not stop the timer, and `DoKeepAlve` does
not look at how its wait has ended.

Packets are not encoded here. Of the packets that a read brings together `OnRecvData_`
delivers the first one.

## Main definitions

- `PacketCommon.PacketHead` — the packets
- `SimpleClient`, `SimpleServer.onRecvData` — the two ends
- `Session` — both with a connection, one after another, and a clock

## Main results

- `Session.keepalives_paced` — the pace is kept if no login is acknowledged while the timer
  of an earlier one still runs
- `Session.keepalive_rush_iff` — with two waits of the timer it is lost for good
-/

namespace Libasio

open Transition

namespace MessageType

def operateSuccess : UInt16 := 0
def packetKeepalive : UInt32 := 0x00000001
def packetKeepaliveAck : UInt32 := 0x80000001
def packetLogin : UInt32 := 0x00000002
def packetLoginAck : UInt32 := 0x80000002

end MessageType

open MessageType

namespace PacketCommon

/-- The class of a packet, with the members that it adds. -/
inductive Body
  | keepAlive
  | keepAliveAck
  | login (id : UInt64) (name passWord : String)
  | loginAck (ack : UInt64)
  deriving DecidableEq

/-- `type_` is transmitted like any other member. -/
structure PacketHead where
  type : UInt32
  body : Body
  deriving DecidableEq

def keepAlive : PacketHead := ⟨packetKeepalive, .keepAlive⟩

def keepAliveAck : PacketHead := ⟨packetKeepaliveAck, .keepAliveAck⟩

/-- The constructor without arguments leaves `id_` as it is. -/
def login (id : UInt64) (name passWord : String) : PacketHead :=
  ⟨packetLogin, .login id name passWord⟩

def loginAck (ack : UInt64) : PacketHead := ⟨packetLoginAck, .loginAck ack⟩

end PacketCommon

open PacketCommon

/-- Seconds, in ticks of `steady_clock`. -/
def seconds (n : Nat) : Nat := n * 1000000000

structure SimpleClient where
  isLogin : Bool
  conn : Bool                        -- `conn_` is not null
  keepaliveTimer : SteadyTimer
  undefined : Bool                   -- a null pointer or one of another class was used
  deriving DecidableEq

namespace SimpleClient

def new : SimpleClient := ⟨false, false, ⟨0, 0, 0⟩, false⟩

/-- `SendPkt`, with the packet for `conn_`. Without `conn_` its name is logged. -/
def sendPkt (c : SimpleClient) (pPkt : PacketHead) : SimpleClient × List PacketHead :=
  if c.conn then (c, [pPkt]) else ({ c with undefined := true }, [])

def doKeepAlve (c : SimpleClient) : SimpleClient × List PacketHead :=
  if !c.isLogin then (c, [])
  else
    let c := { c with keepaliveTimer := c.keepaliveTimer.prolong (seconds 3) }
    c.sendPkt keepAlive

def onKeepAliveAck (c : SimpleClient) : SimpleClient := c

def onLoginAck (now : Nat) (c : SimpleClient) (pPkt : PacketHead) : SimpleClient :=
  match pPkt.body with
  | .loginAck ack =>
    if ack = 0 then
      { c with
        isLogin := true
        keepaliveTimer := (c.keepaliveTimer.expiresAt (now + seconds 3)).asyncWait }
    else { c with isLogin := false }
  | _ => { c with undefined := true }

/-- `OnConnect` with a connection that `IsConnected()`, and one that `IsDisconnecting()`. -/
def onConnect (c : SimpleClient) (connected : Bool) (id : UInt64) :
    SimpleClient × List PacketHead :=
  if connected then { c with conn := true }.sendPkt (login id "test" "abc#123")
  else ({ c with isLogin := false }, [])

/-- The type is logged before the pointer is checked. -/
def onRecvData (now : Nat) (c : SimpleClient) (pPkt : Option PacketHead) : SimpleClient :=
  match pPkt with
  | none => { c with undefined := true }
  | some pPkt =>
    if pPkt.type = packetKeepaliveAck then c.onKeepAliveAck
    else if pPkt.type = packetLoginAck then c.onLoginAck now pPkt
    else c

end SimpleClient

namespace SimpleServer

def onKeepAlive : List PacketHead := [keepAliveAck]

/-- The name is logged: `none` for a packet of another class. -/
def onLogin (pPkt : PacketHead) : Option (List PacketHead) :=
  match pPkt.body with
  | .login _ _ _ => some [loginAck operateSuccess.toUInt64]
  | _ => none

/-- The packets that are sent back. -/
def onRecvData (pPkt : Option PacketHead) : Option (List PacketHead) :=
  match pPkt with
  | none => some []
  | some pPkt =>
    if pPkt.type = packetKeepalive then some onKeepAlive
    else if pPkt.type = packetLogin then onLogin pPkt
    else some []

end SimpleServer

/-- The two ends, with the connection between them if there is one. -/
structure Session where
  now : Nat
  client : SimpleClient
  connected : Bool
  toServer : List PacketHead
  toClient : List PacketHead
  serverUndefined : Bool
  sent : List PacketHead             -- by the client, on all connections
  deriving DecidableEq

namespace Session

inductive Event
  | tick (d : Nat)
  | expired                          -- the expiry time of the timer has come
  | doKeepAlve
  | connect (id : UInt64)
  | disconnect
  | serverReads (k : Nat)            -- a packet and `k` others behind it
  | clientReads (k : Nat)
  deriving DecidableEq

/-- What the client does, with the packets that it sends. -/
def clientSends (s : Session) (r : SimpleClient × List PacketHead) : Session :=
  { s with
    client := r.1
    toServer := if s.connected then s.toServer ++ r.2 else s.toServer
    sent := s.sent ++ r.2 }

def setTimer (s : Session) (timer : SteadyTimer) : Session :=
  { s with client := { s.client with keepaliveTimer := timer } }

def step (s : Session) : Event → Option Session
  | .tick d => some { s with now := s.now + d }
  | .expired => (s.client.keepaliveTimer.expire s.now).map s.setTimer
  | .doKeepAlve =>
    s.client.keepaliveTimer.invoke.map fun timer =>
      let s := s.setTimer timer
      s.clientSends s.client.doKeepAlve
  | .connect id =>
    if s.connected then none
    else
      let s := { s with connected := true, toServer := [], toClient := [] }
      some (s.clientSends (s.client.onConnect true id))
  | .disconnect =>
    if s.connected then
      some ({ s with connected := false }.clientSends (s.client.onConnect false 0))
    else none
  | .serverReads k =>
    if s.connected ∧ k < s.toServer.length then
      let rest := s.toServer.drop (k + 1)
      match SimpleServer.onRecvData s.toServer.head? with
      | some answer => some { s with toServer := rest, toClient := s.toClient ++ answer }
      | none => some { s with toServer := rest, serverUndefined := true }
    else none
  | .clientReads k =>
    if s.connected ∧ k < s.toClient.length then
      some { s with
        client := s.client.onRecvData s.now s.toClient.head?
        toClient := s.toClient.drop (k + 1) }
    else none

def init : Session := ⟨0, .new, false, [], [], false, []⟩

def keepAlives (s : Session) : Nat := s.sent.count keepAlive

/-- A read brings the client the acknowledgement of a login. -/
def Acknowledges (s : Session) (e : Event) : Prop :=
  ∃ k ack, e = .clientReads k ∧ s.toClient.head? = some (loginAck ack)

/-- No wait of the timer is left when a login is acknowledged. -/
def AcksAtRest (s : Session) (e : Event) (_ : Session) : Prop :=
  Acknowledges s e → s.client.keepaliveTimer.pending = 0

/-- The loop of the client runs what is there to run, and no time passes. -/
def Alone (_ : Session) (e : Event) (_ : Session) : Prop := e = .expired ∨ e = .doKeepAlve

-- ════════════════════════════════════════════════════════════════════════
-- The steps
-- ════════════════════════════════════════════════════════════════════════

/-- A connection begins with a login and its acknowledgement. -/
inductive Phase (s : Session) : Prop
  | down (hc : s.connected = false) (hl : s.client.isLogin = false)
  | loggingIn (id : UInt64) (hc : s.connected = true) (hl : s.client.isLogin = false)
      (hs : s.toServer = [login id "test" "abc#123"]) (ht : s.toClient = [])
  | answered (hc : s.connected = true) (hl : s.client.isLogin = false)
      (hs : s.toServer = []) (ht : s.toClient = [loginAck 0])
  | loggedIn (hc : s.connected = true) (hl : s.client.isLogin = true)
      (hs : ∀ p ∈ s.toServer, p = keepAlive) (ht : ∀ p ∈ s.toClient, p = keepAliveAck)

/-- What holds in every run. -/
structure Sound (s : Session) : Prop where
  phase : Phase s
  conn : s.connected = true → s.client.conn = true
  undefined : s.client.undefined = false
  serverUndefined : s.serverUndefined = false
  oneWait : s.client.keepaliveTimer.waiting ≤ 1

/-- What the steps of a sound session come to. -/
inductive Moves (s : Session) : Event → Session → Prop
  | tick (d : Nat) : Moves s (.tick d) { s with now := s.now + d }
  | expired {t : SteadyTimer} (h : s.client.keepaliveTimer.expire s.now = some t) :
      Moves s .expired (s.setTimer t)
  | ends {t : SteadyTimer} (h : s.client.keepaliveTimer.invoke = some t)
      (hl : s.client.isLogin = false) : Moves s .doKeepAlve (s.setTimer t)
  | beats {t : SteadyTimer} (h : s.client.keepaliveTimer.invoke = some t)
      (hl : s.client.isLogin = true) : Moves s .doKeepAlve
        { s.setTimer (t.prolong (seconds 3)) with
          toServer := s.toServer ++ [keepAlive], sent := s.sent ++ [keepAlive] }
  | connects (id : UInt64) (hc : s.connected = false) : Moves s (.connect id)
      { s with
        client := { s.client with conn := true }
        connected := true
        toServer := [login id "test" "abc#123"]
        toClient := []
        sent := s.sent ++ [login id "test" "abc#123"] }
  | disconnects (hc : s.connected = true) : Moves s .disconnect
      { s with client := { s.client with isLogin := false }, connected := false }
  | logsIn (k : Nat) (hc : s.connected = true) (hl : s.client.isLogin = false) :
      Moves s (.serverReads k) { s with toServer := [], toClient := [loginAck 0] }
  | answers (k : Nat) (hl : s.client.isLogin = true) : Moves s (.serverReads k)
      { s with toServer := s.toServer.drop (k + 1), toClient := s.toClient ++ [keepAliveAck] }
  | acknowledged (k : Nat) (hc : s.connected = true) (hl : s.client.isLogin = false)
      (hs : s.toServer = []) (ht : s.toClient = [loginAck 0]) : Moves s (.clientReads k)
        { s with
          client := { s.client with
            isLogin := true
            keepaliveTimer :=
              (s.client.keepaliveTimer.expiresAt (s.now + seconds 3)).asyncWait }
          toClient := [] }
  | hears (k : Nat) (hl : s.client.isLogin = true) : Moves s (.clientReads k)
      { s with toClient := s.toClient.drop (k + 1) }

variable {s s' : Session} {e : Event}

theorem Phase.connected_of_isLogin (h : Phase s) (hl : s.client.isLogin = true) :
    s.connected = true ∧ (∀ p ∈ s.toServer, p = keepAlive) ∧
      ∀ p ∈ s.toClient, p = keepAliveAck := by
  cases h with
  | down _ hn | loggingIn _ _ hn | answered _ hn => exact absurd hl (Bool.eq_false_iff.mp hn)
  | loggedIn hc _ hs ht => exact ⟨hc, hs, ht⟩

theorem doKeepAlve_cases (h : Sound s) {t : SteadyTimer}
    (ht : s.client.keepaliveTimer.invoke = some t) :
    Moves s .doKeepAlve ((s.setTimer t).clientSends (s.setTimer t).client.doKeepAlve) := by
  cases hl : s.client.isLogin with
  | false =>
    have hnone : (s.setTimer t).client.doKeepAlve = ((s.setTimer t).client, []) :=
      if_pos (congrArg not hl)
    have hsame : (s.setTimer t).clientSends ((s.setTimer t).client, []) = s.setTimer t := by
      simp only [clientSends, List.append_nil, ite_self]
    rw [hnone, hsame]
    exact .ends ht hl
  | true =>
    obtain ⟨hc, -, -⟩ := h.phase.connected_of_isLogin hl
    have hconn : (s.setTimer t).client.conn = true := h.conn hc
    have hsends : (s.setTimer t).client.doKeepAlve =
        ((s.setTimer (t.prolong (seconds 3))).client, [keepAlive]) := by
      refine (if_neg ?_).trans (if_pos hconn)
      have hl' : (s.setTimer t).client.isLogin = true := hl
      rw [hl']
      exact Bool.false_ne_true
    have hc' : (s.setTimer t).connected = true := hc
    rw [hsends, clientSends, if_pos hc']
    exact .beats ht hl

/-- The server reads the login, or one of the packets of a client that is logged in. -/
theorem serverReads_cases (h : Phase s) {k : Nat} (hc : s.connected = true)
    (hk : k < s.toServer.length) :
    (s.client.isLogin = false ∧ s.toClient = [] ∧ s.toServer.drop (k + 1) = [] ∧
      SimpleServer.onRecvData s.toServer.head? = some [loginAck 0]) ∨
    (s.client.isLogin = true ∧
      SimpleServer.onRecvData s.toServer.head? = some [keepAliveAck]) := by
  cases h with
  | down hn => exact absurd hc (Bool.eq_false_iff.mp hn)
  | loggingIn id _ hl hs ht =>
    rw [hs]
    exact .inl ⟨hl, ht, List.drop_of_length_le (Nat.le_add_left 1 k), rfl⟩
  | answered _ _ hs =>
    rw [hs] at hk
    exact absurd hk (Nat.not_lt_zero k)
  | loggedIn _ hl hs =>
    obtain ⟨p, ps, hp⟩ := List.exists_cons_of_length_pos (Nat.zero_lt_of_lt hk)
    have hpacket : p = keepAlive := hs p (hp ▸ List.mem_cons_self)
    rw [hp, hpacket]
    exact .inr ⟨hl, rfl⟩

theorem clientReads_cases (h : Phase s) {k : Nat} (hc : s.connected = true)
    (hk : k < s.toClient.length) :
    (s.client.isLogin = false ∧ s.toServer = [] ∧ s.toClient = [loginAck 0]) ∨
    (s.client.isLogin = true ∧ s.client.onRecvData s.now s.toClient.head? = s.client) := by
  cases h with
  | down hn => exact absurd hc (Bool.eq_false_iff.mp hn)
  | loggingIn _ _ _ _ ht =>
    rw [ht] at hk
    exact absurd hk (Nat.not_lt_zero k)
  | answered _ hl hs ht => exact .inl ⟨hl, hs, ht⟩
  | loggedIn _ hl _ ht =>
    obtain ⟨p, ps, hp⟩ := List.exists_cons_of_length_pos (Nat.zero_lt_of_lt hk)
    have hpacket : p = keepAliveAck := ht p (hp ▸ List.mem_cons_self)
    rw [hp, hpacket]
    exact .inr ⟨hl, rfl⟩

theorem step_cases (h : Sound s) (hs : s.step e = some s') : Moves s e s' := by
  cases e with
  | tick d =>
    cases hs
    exact .tick d
  | expired =>
    obtain ⟨t, ht, rfl⟩ := Option.map_eq_some_iff.mp hs
    exact .expired ht
  | doKeepAlve =>
    obtain ⟨t, ht, rfl⟩ := Option.map_eq_some_iff.mp hs
    exact doKeepAlve_cases h ht
  | connect id =>
    simp only [step] at hs
    split at hs
    · cases hs
    · next hc =>
      cases hs
      exact .connects id (Bool.eq_false_of_not_eq_true hc)
  | disconnect =>
    obtain ⟨hc, ⟨⟩⟩ := Option.ite_none_right_eq_some.mp hs
    have hsame : { s with connected := false }.clientSends (s.client.onConnect false 0) =
        { s with client := { s.client with isLogin := false }, connected := false } := by
      simp only [clientSends, SimpleClient.onConnect, Bool.false_eq_true, if_false, List.append_nil]
    rw [hsame]
    exact .disconnects hc
  | serverReads k =>
    obtain ⟨⟨hc, hk⟩, hs⟩ := Option.ite_none_right_eq_some.mp hs
    obtain ⟨hl, ht, hrest, hanswer⟩ | ⟨hl, hanswer⟩ := serverReads_cases h.phase hc hk
    · simp only [hanswer, hrest, ht, List.nil_append] at hs
      cases hs
      exact .logsIn k hc hl
    · simp only [hanswer] at hs
      cases hs
      exact .answers k hl
  | clientReads k =>
    obtain ⟨⟨hc, hk⟩, ⟨⟩⟩ := Option.ite_none_right_eq_some.mp hs
    obtain ⟨hl, hserver, hclient⟩ | ⟨hl, hsame⟩ := clientReads_cases h.phase hc hk
    · have hrest : s.toClient.drop (k + 1) = [] := by
        rw [hclient]
        exact List.drop_of_length_le (Nat.le_add_left 1 k)
      rw [hrest, hclient]
      exact .acknowledged k hc hl hserver hclient
    · rw [hsame]
      exact .hears k hl

theorem Phase.same (h : Phase s) (hc : s'.connected = s.connected)
    (hl : s'.client.isLogin = s.client.isLogin) (hs : s'.toServer = s.toServer)
    (ht : s'.toClient = s.toClient) : Phase s' := by
  cases h with
  | down hc' hl' => exact .down (hc.trans hc') (hl.trans hl')
  | loggingIn id hc' hl' hs' ht' =>
    exact .loggingIn id (hc.trans hc') (hl.trans hl') (hs.trans hs') (ht.trans ht')
  | answered hc' hl' hs' ht' =>
    exact .answered (hc.trans hc') (hl.trans hl') (hs.trans hs') (ht.trans ht')
  | loggedIn hc' hl' hs' ht' =>
    exact .loggedIn (hc.trans hc') (hl.trans hl') (hs ▸ hs') (ht ▸ ht')

theorem step_sound (h : Sound s) (hs : s.step e = some s') : Sound s' := by
  have hmoves := step_cases h hs
  obtain ⟨hphase, hconn, hundefined, hserver, hone⟩ := h
  cases hmoves with
  | tick d => exact ⟨hphase.same rfl rfl rfl rfl, hconn, hundefined, hserver, hone⟩
  | expired ht =>
    obtain ⟨-, -, rfl⟩ := SteadyTimer.expire_cases ht
    exact ⟨hphase.same rfl rfl rfl rfl, hconn, hundefined, hserver, Nat.zero_le 1⟩
  | ends ht hl =>
    obtain ⟨-, rfl⟩ := SteadyTimer.invoke_cases ht
    exact ⟨hphase.same rfl rfl rfl rfl, hconn, hundefined, hserver, hone⟩
  | beats ht hl =>
    obtain ⟨hc, htoServer, htoClient⟩ := hphase.connected_of_isLogin hl
    refine ⟨.loggedIn hc hl ?_ htoClient, hconn, hundefined, hserver, Nat.le_refl 1⟩
    exact List.forall_mem_append.mpr ⟨htoServer, List.forall_mem_singleton.mpr rfl⟩
  | connects id hc =>
    have hl : s.client.isLogin = false := by
      by_contra hl
      obtain ⟨hc', -, -⟩ := hphase.connected_of_isLogin (Bool.eq_true_of_not_eq_false hl)
      exact absurd hc' (Bool.eq_false_iff.mp hc)
    exact ⟨.loggingIn id rfl hl rfl rfl, fun _ => rfl, hundefined, hserver, hone⟩
  | disconnects hc =>
    exact ⟨.down rfl rfl, fun hc' => absurd hc' Bool.false_ne_true, hundefined, hserver, hone⟩
  | logsIn k hc hl => exact ⟨.answered hc hl rfl rfl, hconn, hundefined, hserver, hone⟩
  | answers k hl =>
    obtain ⟨hc, htoServer, htoClient⟩ := hphase.connected_of_isLogin hl
    refine ⟨.loggedIn hc hl (fun p hp => htoServer p (List.mem_of_mem_drop hp)) ?_, hconn,
      hundefined, hserver, hone⟩
    exact List.forall_mem_append.mpr ⟨htoClient, List.forall_mem_singleton.mpr rfl⟩
  | acknowledged k hc hl hempty ht =>
    refine ⟨.loggedIn hc rfl (fun p hp => ?_) (fun p hp => absurd hp List.not_mem_nil), hconn,
      hundefined, hserver, Nat.le_refl 1⟩
    have hmem : p ∈ s.toServer := hp
    rw [hempty] at hmem
    exact absurd hmem List.not_mem_nil
  | hears k hl =>
    obtain ⟨hc, htoServer, htoClient⟩ := hphase.connected_of_isLogin hl
    exact ⟨.loggedIn hc hl htoServer (fun p hp => htoClient p (List.mem_of_mem_drop hp)), hconn,
      hundefined, hserver, hone⟩

theorem sound_init : Sound init :=
  ⟨.down rfl rfl, fun hc => absurd hc Bool.false_ne_true, rfl, rfl, Nat.zero_le 1⟩

-- ════════════════════════════════════════════════════════════════════════
-- The pace
-- ════════════════════════════════════════════════════════════════════════

variable {es : List Event}

def Paced (s : Session) : Prop :=
  s.client.keepaliveTimer.Paced (seconds 3) s.keepAlives s.now

theorem count_keepAlive (s : Session) :
    (s.sent ++ [keepAlive]).count keepAlive = s.keepAlives + 1 := by
  rw [List.count_append, List.count_singleton_self]
  rfl

theorem count_login (s : Session) (id : UInt64) (name passWord : String) :
    (s.sent ++ [login id name passWord]).count keepAlive = s.keepAlives := by
  have htype : packetLogin ≠ packetKeepalive := by decide
  have hne : login id name passWord ≠ keepAlive := fun h => htype (congrArg PacketHead.type h)
  rw [List.count_append, List.count_singleton, if_neg (by simpa using hne)]
  rfl

theorem step_paced (h : Sound s) (hp : Paced s) (hrest : AcksAtRest s e s')
    (hs : s.step e = some s') : Paced s' := by
  cases step_cases h hs with
  | tick d => exact SteadyTimer.Paced.tick hp d
  | expired ht => exact SteadyTimer.Paced.expire hp ht
  | ends ht hl => exact SteadyTimer.Paced.invoke hp ht
  | beats ht hl =>
    have hbeat := SteadyTimer.Paced.beat hp ht
    rwa [← count_keepAlive] at hbeat
  | connects id hc =>
    have hsame : Paced s := hp
    rwa [Paced, ← count_login s id "test" "abc#123"] at hsame
  | disconnects hc => exact hp
  | logsIn k hc hl => exact hp
  | answers k hl => exact hp
  | acknowledged k hc hl hserver hclient =>
    exact SteadyTimer.Paced.start hp (hrest ⟨k, 0, rfl, congrArg List.head? hclient⟩)
  | hears k hl => exact hp

/-- **The pace**: in every run of the example in which no login is acknowledged while the
timer of an earlier one still runs, the client has sent no more than one `KeepAlive` for
each three seconds; and neither end uses a pointer that it may not use. -/
theorem keepalives_paced (hr : Runs step AcksAtRest init es s) :
    seconds 3 * s.keepAlives ≤ s.now ∧ s.client.undefined = false ∧ s.serverUndefined = false := by
  have hboth : Sound s ∧ Paced s := by
    refine hr.invariant (I := fun s => Sound s ∧ Paced s) ?_ ⟨sound_init, ?_⟩
    · rintro s e t ⟨hsound, hpaced⟩ hrest hs
      exact ⟨step_sound hsound hs, step_paced hsound hpaced hrest hs⟩
    · exact ⟨Nat.zero_le 1, Nat.le_refl 0, fun h => absurd h (Nat.lt_irrefl 0),
        fun h => absurd h (Nat.lt_irrefl 0)⟩
  exact ⟨hboth.2.past, hboth.1.undefined, hboth.1.serverUndefined⟩

/-- The client logs in, and sends two packets in six seconds. -/
theorem keepalives_paced_two : ∃ s : Session, seconds 3 * s.keepAlives ≤ s.now ∧
    s.client.undefined = false ∧ s.serverUndefined = false ∧ s.keepAlives = 2 ∧
      s.now = seconds 6 := by
  let loggedIn : Session := ⟨0, ⟨true, true, ⟨seconds 3, 1, 0⟩, false⟩, true, [], [], false,
    [login 0 "test" "abc#123"]⟩
  have hlogin : Runs step AcksAtRest init [.connect 0, .serverReads 0, .clientReads 0] loggedIn :=
    .cons rfl (fun _ => rfl) (.cons rfl (fun _ => rfl) (.single rfl fun _ => rfl))
  let twice : Session := ⟨seconds 6, ⟨true, true, ⟨seconds 9, 1, 0⟩, false⟩, true,
    [keepAlive, keepAlive], [], false, [login 0 "test" "abc#123", keepAlive, keepAlive]⟩
  have hbeats : Runs step anyStep loggedIn [.tick (seconds 3), .expired, .doKeepAlve,
      .tick (seconds 3), .expired, .doKeepAlve] twice := exec_eq_some_iff.mp (by decide +kernel)
  have hquiet := (hbeats.of_forall_mem (Q := fun e => ∀ k, e ≠ .clientReads k) (by simp)).mono
    (H := AcksAtRest) fun s e t _ he => by
      rintro ⟨k, ack, hread, -⟩
      exact absurd hread (he k)
  obtain ⟨hpace, hdefined⟩ := keepalives_paced (hlogin.append hquiet)
  exact ⟨twice, hpace, hdefined.1, hdefined.2, rfl, rfl⟩

-- ════════════════════════════════════════════════════════════════════════
-- The rush
-- ════════════════════════════════════════════════════════════════════════

/-- While the client stays logged in, no wait of its timer is lost. -/
theorem step_pending (h : Sound s) (hl : s.client.isLogin = true) (he : e ≠ .disconnect)
    (hs : s.step e = some s') : s'.client.isLogin = true ∧
      s.client.keepaliveTimer.pending ≤ s'.client.keepaliveTimer.pending := by
  obtain ⟨hc, -, -⟩ := h.phase.connected_of_isLogin hl
  cases step_cases h hs with
  | tick | answers | hears => exact ⟨hl, Nat.le_refl _⟩
  | expired ht => exact ⟨hl, (SteadyTimer.pending_expire ht).ge⟩
  | beats ht _ =>
    exact ⟨hl, ((SteadyTimer.pending_prolong _ _).trans (SteadyTimer.pending_invoke ht)).ge⟩
  | ends _ hn | logsIn _ _ hn | acknowledged _ _ hn => exact absurd hl (Bool.eq_false_iff.mp hn)
  | connects _ hn => exact absurd hc (Bool.eq_false_iff.mp hn)
  | disconnects => exact absurd rfl he

/-- The client is logged in with two waits of its timer. -/
structure Rushes (s : Session) : Prop where
  sound : Sound s
  isLogin : s.client.isLogin = true
  two : 2 ≤ s.client.keepaliveTimer.pending

theorem Rushes.step (h : Rushes s) (he : e ≠ .disconnect) (hs : s.step e = some s') :
    Rushes s' := by
  obtain ⟨hl, hle⟩ := step_pending h.sound h.isLogin he hs
  exact ⟨step_sound h.sound hs, hl, Nat.le_trans h.two hle⟩

theorem Rushes.ended (h : Rushes s) : 0 < s.client.keepaliveTimer.ended :=
  SteadyTimer.ended_pos h.sound.oneWait h.two

/-- There is always a handler to run, and it sends one more packet. -/
theorem Rushes.exists_beat (h : Rushes s) :
    ∃ s', s.step .doKeepAlve = some s' ∧ s'.keepAlives = s.keepAlives + 1 := by
  have hinvoke : s.client.keepaliveTimer.invoke = some _ := if_pos h.ended
  obtain ⟨s', hs⟩ : ∃ s', s.step .doKeepAlve = some s' := ⟨_, congrArg (Option.map _) hinvoke⟩
  refine ⟨s', hs, ?_⟩
  cases step_cases h.sound hs with
  | ends _ hn => exact absurd h.isLogin (Bool.eq_false_iff.mp hn)
  | beats => exact count_keepAlive s

theorem Rushes.run (h : Rushes s) (n : Nat) :
    ∃ fs t, Runs Session.step Alone s fs t ∧ t.keepAlives = s.keepAlives + n := by
  induction n generalizing s with
  | zero => exact ⟨[], s, .nil s, rfl⟩
  | succ n ih =>
    obtain ⟨u, hs, hu⟩ := h.exists_beat
    obtain ⟨fs, t, hrun, ht⟩ := ih (h.step Event.noConfusion hs)
    exact ⟨.doKeepAlve :: fs, t, .cons hs (.inr rfl) hrun, by omega⟩

/-- How many packets the timer can still make a client send that is logged in. -/
def reserve (s : Session) : Nat :=
  if s.client.isLogin then s.client.keepaliveTimer.reserve s.now else 0

theorem step_reserve (h : Sound s)
    (hfew : s.client.isLogin = true → s.client.keepaliveTimer.pending ≤ 1) (ha : Alone s e s')
    (hs : s.step e = some s') :
    (s'.client.isLogin = true → s'.client.keepaliveTimer.pending ≤ 1) ∧
      s'.keepAlives + s'.reserve ≤ s.keepAlives + s.reserve := by
  cases step_cases h hs with
  | @expired t ht =>
    refine ⟨fun hl => (SteadyTimer.pending_expire ht).trans_le (hfew hl), ?_⟩
    have hsame : (s.setTimer t).reserve = s.reserve := by
      simp only [reserve, setTimer, SteadyTimer.reserve_expire ht]
    exact (congrArg (s.keepAlives + ·) hsame).le
  | @ends t ht hl =>
    have hl' : (s.setTimer t).client.isLogin = false := hl
    refine ⟨fun hn => absurd hn (Bool.eq_false_iff.mp hl'), ?_⟩
    rw [reserve, hl', reserve, hl]
    exact Nat.le_refl s.keepAlives
  | @beats t ht hl =>
    have hpending := (SteadyTimer.pending_prolong t (seconds 3)).trans
      (SteadyTimer.pending_invoke ht)
    refine ⟨fun _ => hpending.trans_le (hfew hl), ?_⟩
    have hbeat : (t.prolong (seconds 3)).reserve s.now + 1 ≤
        s.client.keepaliveTimer.reserve s.now :=
      SteadyTimer.reserve_beat (by decide) (hfew hl) ht
    have hl' : (s.setTimer (t.prolong (seconds 3))).client.isLogin = true := hl
    have hcount := count_keepAlive s
    simp only [keepAlives] at hcount ⊢
    simp only [reserve, hl', hl, if_true]
    simp only [setTimer]
    omega
  | _ => rcases ha with ha | ha <;> cases ha

theorem run_reserve {fs : List Event} (h : Sound s)
    (hfew : s.client.isLogin = true → s.client.keepaliveTimer.pending ≤ 1)
    (hr : Runs step Alone s fs s') : s'.keepAlives ≤ s.keepAlives + s.reserve := by
  have hall : Sound s' ∧ (s'.client.isLogin = true → s'.client.keepaliveTimer.pending ≤ 1) ∧
      s'.keepAlives + s'.reserve ≤ s.keepAlives + s.reserve := by
    refine hr.invariant (I := fun t => Sound t ∧
      (t.client.isLogin = true → t.client.keepaliveTimer.pending ≤ 1) ∧
      t.keepAlives + t.reserve ≤ s.keepAlives + s.reserve) ?_ ⟨h, hfew, Nat.le_refl _⟩
    rintro t e u ⟨hsound, hfew, hle⟩ ha hs
    obtain ⟨hfew', hle'⟩ := step_reserve hsound hfew ha hs
    exact ⟨step_sound hsound hs, hfew', Nat.le_trans hle' hle⟩
  exact Nat.le_trans (Nat.le_add_right _ _) hall.2.2

/-- **The rush**: the loop of the client can send any number of `KeepAlive` packets without
any time passing and without hearing from the server exactly when the client is logged in
with two waits of its timer; and then the loop finds a handler to run at any time until the
connection is lost. -/
theorem keepalive_rush_iff (hr : Runs step anyStep init es s) :
    ((∀ n, ∃ fs t, Runs step Alone s fs t ∧ s.keepAlives + n ≤ t.keepAlives) ↔
      s.client.isLogin = true ∧ 2 ≤ s.client.keepaliveTimer.pending) ∧
    (s.client.isLogin = true ∧ 2 ≤ s.client.keepaliveTimer.pending →
      ∀ fs t, Runs step (fun _ e _ => e ≠ .disconnect) s fs t →
        0 < t.client.keepaliveTimer.ended) := by
  have hsound : Sound s := hr.invariant (fun _ _ _ h _ hs => step_sound h hs) sound_init
  refine ⟨⟨fun hall => ?_, fun ⟨hl, htwo⟩ n => ?_⟩, fun ⟨hl, htwo⟩ fs t hrun => ?_⟩
  · by_contra hnot
    obtain ⟨fs, t, hrun, hmore⟩ := hall (s.reserve + 1)
    have hle := run_reserve hsound (fun hl => by
      by_contra htwo
      exact hnot ⟨hl, by omega⟩) hrun
    omega
  · obtain ⟨fs, t, hrun, ht⟩ := Rushes.run ⟨hsound, hl, htwo⟩ n
    exact ⟨fs, t, hrun, ht.ge⟩
  · exact (hrun.invariant (fun _ _ _ h he hs => Rushes.step h he hs)
      (I := Rushes) ⟨hsound, hl, htwo⟩).ended

/-- A connection is lost and made again within three seconds. -/
theorem keepalive_rush_reconnected : ∃ s : Session,
    (∀ n, ∃ fs t, Runs step Alone s fs t ∧ s.keepAlives + n ≤ t.keepAlives) ∧
      ∀ fs t, Runs step (fun _ e _ => e ≠ .disconnect) s fs t →
        0 < t.client.keepaliveTimer.ended := by
  let again : Session := ⟨0, ⟨true, true, ⟨seconds 3, 1, 1⟩, false⟩, true, [], [], false,
    [login 0 "test" "abc#123", login 0 "test" "abc#123"]⟩
  have hr : Runs step anyStep init [.connect 0, .serverReads 0, .clientReads 0, .disconnect,
      .connect 0, .serverReads 0, .clientReads 0] again := exec_eq_some_iff.mp rfl
  obtain ⟨hiff, hafter⟩ := keepalive_rush_iff hr
  have hrush : again.client.isLogin = true ∧ 2 ≤ again.client.keepaliveTimer.pending :=
    ⟨rfl, Nat.le_refl 2⟩
  exact ⟨again, hiff.mpr hrush, hafter hrush⟩

end Session

end Libasio
