import Libasio.Lifecycle

/-!
# A client

`TCPClient` (`tcp_client.h`, `tcp_client.cc`) with what its loop holds for it:
the connects and the waits of the reconnect timer whose handlers are still to
run, the posted `DisconnectInLoop` functors, and every connection it has made.

## Main definitions

- `TcpClient` — the object
- `ClientLoop` — the object, its loop and its connections
- `ClientLoop.step` — what can happen next, and its effect

## Main results

- `ClientLoop.step_conns` — a step of the client lets each connection be, moves
  it by steps of its own, or makes a new one
- `ClientLoop.forall_conns` — invariants of a connection hold of all of them

## Design notes

A handler holds a plain pointer to the client. Handlers stay outstanding when
the client is destroyed; one that then runs is recorded in `uses` and does
nothing more. Destroying or cancelling a timer or a socket only makes the
result of its handler an error. Of several connects or waits outstanding at a
time, each may end in any way. `OnRemoveConn` runs no user code, so the step
that calls it also ends it.
-/

namespace Libasio

/-- `default_max_reconnect_time`. -/
def defaultMaxReconnectTime : Nat := 5

structure TcpClient where
  name : String
  autoReconnect : Bool
  reconnectingTimes : Nat
  /-- `conn_`, by the number of the connection -/
  conn : Option Nat
  connFn : Option Callback
  msgFn : Option Callback
  deriving DecidableEq

/-- What a client is seen to do. -/
inductive ClientObs
  | connect               -- `async_connect` is started
  | connected (i : Nat)   -- connection `i` is set to `kConnected`
  deriving DecidableEq

/-- The handlers and functors that hold a pointer to the client. -/
inductive ClientHandler
  | connect | reconnect | onRemoveConn | disconnectInLoop
  deriving DecidableEq

structure ClientLoop where
  client : TcpClient
  /-- the destructor has not been run -/
  alive : Bool
  /-- connects whose handler has not been run -/
  connects : Nat
  /-- waits of `reconnect_timer_` whose handler has not been run -/
  timers : Nat
  /-- posted `DisconnectInLoop` functors -/
  disconnects : Nat
  /-- every connection made by the client, in order -/
  conns : List TcpConn
  /-- an exception has left a handler of the client -/
  escaped : Bool
  trace : List ClientObs
  /-- what was run on the client after its destructor -/
  uses : List ClientHandler
  deriving DecidableEq

/-- The effect of a call that may throw: `threw` if an exception came out of it. -/
structure Outcome where
  state : ClientLoop
  threw : Bool

namespace ClientLoop

/-- `TCPClient(loop, remote_addr, port, name)`. -/
def create (name : String) : ClientLoop where
  client := {
    name := name, autoReconnect := false, reconnectingTimes := 0, conn := none,
    connFn := none, msgFn := none }
  alive := true
  connects := 0
  timers := 0
  disconnects := 0
  conns := []
  escaped := false
  trace := []
  uses := []

def setConn (w : ClientLoop) (i : Nat) (c : TcpConn) : ClientLoop :=
  { w with conns := w.conns.set i c }

/-- Call a member function of `conn_`, if there is one. -/
def onConn (w : ClientLoop) (f : TcpConn → TcpConn) : ClientLoop :=
  match w.client.conn with
  | some i => { w with conns := w.conns.modify i f }
  | none => w

/-- `Connect`. The resolver throws when it finds no endpoint. -/
def connect (w : ClientLoop) (resolves : Bool) : Outcome :=
  if resolves then ⟨{ w with connects := w.connects + 1, trace := w.trace ++ [.connect] }, false⟩
  else ⟨w, true⟩

def reconnect (w : ClientLoop) (resolves : Bool) : Outcome :=
  { w with client.reconnectingTimes := w.client.reconnectingTimes + 1 }.connect resolves

def disconnectInLoop (w : ClientLoop) : ClientLoop :=
  { w with client.autoReconnect := false }.onConn .close

/-- `Disconnect`: run in the loop thread, or posted to it. -/
def disconnect (w : ClientLoop) (inLoop : Bool) : ClientLoop :=
  if inLoop then w.disconnectInLoop else { w with disconnects := w.disconnects + 1 }

def setConnCallback (w : ClientLoop) (cb : Option Callback) : ClientLoop :=
  { w with client.connFn := cb }.onConn fun c => c.setConnCallback cb

/-- `HandleConn` up to the connection callback. The branch for a closed socket
constructs the connection first as well, and that throws. -/
def handleConn (w : ClientLoop) (socket : Socket) : Outcome :=
  match TcpConn.ctor socket w.client.name with
  | none => ⟨w, true⟩
  | some c =>
    let c := { c with type := .kOutgoing }.setMessageCallback w.client.msgFn
    let c := (c.setConnCallback w.client.connFn).setCloseCallback (some .onRemoveConn)
    ⟨{ w with
      client.conn := some w.conns.length
      conns := w.conns ++ [c.onAttachedToLoop]
      trace := w.trace ++ [.connected w.conns.length] }, false⟩

/-- The handler of `async_connect`; `none` stands for an error. -/
def handleConnect (w : ClientLoop) : Option Socket → Outcome
  | some socket => { w with client.reconnectingTimes := 0 }.handleConn socket
  | none =>
    if w.client.autoReconnect ∧ w.client.reconnectingTimes < defaultMaxReconnectTime then
      ⟨{ w with timers := w.timers + 1 }, false⟩
    else ⟨w, false⟩

/-- `OnRemoveConn`, compiled without its assertions. -/
def onRemoveConn (w : ClientLoop) (resolves : Bool) : Outcome :=
  if w.client.conn = none then ⟨w, false⟩
  else
    let w := { w with client.conn := none }
    if w.client.autoReconnect then w.reconnect resolves else ⟨w, false⟩

/-- `~TCPClient`; `none` when its assertion on the status fails. The one on the
number of references is left to the copies that the user holds. -/
def destructor (w : ClientLoop) : Option ClientLoop :=
  let w := { w with client.autoReconnect := false }
  match w.client.conn with
  | none => some { w with alive := false }
  | some i =>
    match w.conns[i]? with
    | none => none
    | some c =>
      if c.status = .kDisconnecting then
        some { w.setConn i (c.setCloseCallback none) with client.conn := none, alive := false }
      else if c.status = .kDisconnected then
        some { w with client.conn := none, alive := false }
      else none

/-- Calls by the user. -/
inductive Call
  | connect (resolves : Bool)
  | disconnect (inLoop : Bool)
  | setAutoReconnect (v : Bool)
  | setConnCallback (cb : Option Callback)
  | setMessageCallback (cb : Option Callback)
  | destroy

/-- One atomic step. `resolves` says whether the resolver finds an endpoint,
should the step come to `Connect`. -/
inductive Event
  | call (k : Call)
  | disconnectInLoop
  | connectDone (r : Option Socket)
  | timer (resolves : Bool)
  | conn (i : Nat) (e : TcpConn.Event) (resolves : Bool)

/-- No exception has left the loop. -/
def running (w : ClientLoop) : Bool := !w.escaped && w.conns.all fun c => !c.escaped

/-- The loop is free to start a handler. -/
def idle (w : ClientLoop) : Bool := !w.escaped && w.conns.all TcpConn.idle

def call (w : ClientLoop) : Call → Option ClientLoop
  | .connect resolves => some (w.connect resolves).state
  | .disconnect inLoop => some (w.disconnect inLoop)
  | .setAutoReconnect v => some { w with client.autoReconnect := v }
  | .setConnCallback cb => some (w.setConnCallback cb)
  | .setMessageCallback cb => some { w with client.msgFn := cb }
  | .destroy => w.destructor

/-- The loop runs a handler that uses the client. -/
def handle (w : ClientLoop) (h : ClientHandler) (f : ClientLoop → Outcome) : Outcome :=
  if w.alive then f w else ⟨{ w with uses := w.uses ++ [h] }, false⟩

/-- The same for a handler that nothing of the client has called. -/
def run (w : ClientLoop) (h : ClientHandler) (f : ClientLoop → Outcome) : ClientLoop :=
  let r := w.handle h f
  { r.state with escaped := r.state.escaped || r.threw }

/-- When a step of a connection can be taken. Its close callback is the client's. -/
def allows (w : ClientLoop) : TcpConn.Event → Bool
  | .runPosted | .handleRead | .handleWrite => w.idle
  | .editRecv _ | .resume | .throw => w.running
  | .setCloseCallback _ => false
  | _ => true

/-- Connection `i` becomes `c`; if that calls `close_fn_`, the callback is run
and the handler resumed, or left by an exception. -/
def afterConn (w : ClientLoop) (i : Nat) (c : TcpConn) (resolves : Bool) : ClientLoop :=
  if c.frame = some .removing then
    let r := w.handle .onRemoveConn fun w => w.onRemoveConn resolves
    r.state.setConn i (if r.threw then c.throw else c.resume .removing)
  else w.setConn i c

def stepConn (w : ClientLoop) (i : Nat) (e : TcpConn.Event) (resolves : Bool) :
    Option ClientLoop :=
  match w.conns[i]? with
  | none => none
  | some c =>
    if w.allows e then (c.step e).map fun c' => w.afterConn i c' resolves else none

def step (w : ClientLoop) : Event → Option ClientLoop
  | .call k => if w.alive then w.call k else none
  | .disconnectInLoop =>
    if 0 < w.disconnects ∧ w.idle then
      some ({ w with disconnects := w.disconnects - 1 }.run .disconnectInLoop fun w =>
        ⟨w.disconnectInLoop, false⟩)
    else none
  | .connectDone r =>
    if 0 < w.connects ∧ w.idle then
      some ({ w with connects := w.connects - 1 }.run .connect fun w => w.handleConnect r)
    else none
  | .timer resolves =>
    if 0 < w.timers ∧ w.idle then
      some ({ w with timers := w.timers - 1 }.run .reconnect fun w => w.reconnect resolves)
    else none
  | .conn i e resolves => w.stepConn i e resolves

/-- The client lives on as it was, and nothing was run on it after its destructor. -/
structure Kept (w w' : ClientLoop) : Prop where
  alive : w'.alive = w.alive
  uses : w'.uses = w.uses
  escaped : w'.escaped = w.escaped

theorem connect_kept (w : ClientLoop) (resolves : Bool) :
    Kept w (w.connect resolves).state ∧ (w.connect resolves).state.conns = w.conns := by
  cases resolves <;> exact ⟨⟨rfl, rfl, rfl⟩, rfl⟩

theorem reconnect_kept (w : ClientLoop) (resolves : Bool) :
    Kept w (w.reconnect resolves).state ∧ (w.reconnect resolves).state.conns = w.conns := by
  obtain ⟨⟨ha, hu, he⟩, hc⟩ := connect_kept
    { w with client.reconnectingTimes := w.client.reconnectingTimes + 1 } resolves
  exact ⟨⟨ha, hu, he⟩, hc⟩

theorem onRemoveConn_kept (w : ClientLoop) (resolves : Bool) :
    Kept w (w.onRemoveConn resolves).state ∧ (w.onRemoveConn resolves).state.conns = w.conns := by
  simp only [onRemoveConn]
  split
  · exact ⟨⟨rfl, rfl, rfl⟩, rfl⟩
  · split
    · obtain ⟨⟨ha, hu, he⟩, hc⟩ := reconnect_kept { w with client.conn := none } resolves
      exact ⟨⟨ha, hu, he⟩, hc⟩
    · exact ⟨⟨rfl, rfl, rfl⟩, rfl⟩

theorem onConn_kept (w : ClientLoop) (f : TcpConn → TcpConn) : Kept w (w.onConn f) := by
  unfold onConn
  split <;> exact ⟨rfl, rfl, rfl⟩

theorem disconnectInLoop_kept (w : ClientLoop) : Kept w w.disconnectInLoop := by
  obtain ⟨ha, hu, he⟩ := onConn_kept { w with client.autoReconnect := false } .close
  exact ⟨ha, hu, he⟩

theorem handleConn_kept (w : ClientLoop) (socket : Socket) : Kept w (w.handleConn socket).state := by
  unfold handleConn
  split <;> exact ⟨rfl, rfl, rfl⟩

theorem handleConnect_kept (w : ClientLoop) (r : Option Socket) :
    Kept w (w.handleConnect r).state := by
  cases r with
  | none =>
    simp only [handleConnect]
    split <;> exact ⟨rfl, rfl, rfl⟩
  | some socket =>
    obtain ⟨ha, hu, he⟩ := handleConn_kept { w with client.reconnectingTimes := 0 } socket
    exact ⟨ha, hu, he⟩

/-- A connection when the client has run `OnAttachedToLoop` on it up to the
connection callback. -/
def Attaching (c : TcpConn) : Prop :=
  ∃ name connFn msgFn,
    (TcpConn.handedOver name .kOutgoing connFn msgFn .onRemoveConn).step .runPosted = some c

theorem handleConn_cases (w : ClientLoop) (socket : Socket) :
    (w.handleConn socket = ⟨w, true⟩) ∨
    ∃ c, Attaching c ∧ w.handleConn socket = ⟨{ w with
      client.conn := some w.conns.length
      conns := w.conns ++ [c]
      trace := w.trace ++ [.connected w.conns.length] }, false⟩ := by
  unfold handleConn TcpConn.ctor
  split
  · exact Or.inl rfl
  · next c hc =>
    obtain ⟨-, ⟨⟩⟩ := Option.ite_none_right_eq_some.mp hc
    exact Or.inr ⟨_, ⟨w.client.name, w.client.connFn, w.client.msgFn, rfl⟩, rfl⟩

theorem stepConn_cases {w w' : ClientLoop} {i : Nat} {e : TcpConn.Event} {resolves : Bool}
    (h : w.stepConn i e resolves = some w') :
    ∃ c c', w.conns[i]? = some c ∧ w.allows e = true ∧ c.step e = some c' ∧
      w' = w.afterConn i c' resolves := by
  unfold stepConn at h
  split at h
  · cases h
  · next c hc =>
    obtain ⟨ha, h⟩ := Option.ite_none_right_eq_some.mp h
    obtain ⟨c', hs, rfl⟩ := Option.map_eq_some_iff.mp h
    exact ⟨c, c', hc, ha, hs, rfl⟩

/-- What the destructor leaves of the object. -/
def ended (client : TcpClient) : TcpClient := { client with autoReconnect := false, conn := none }

/-- The destructor detaches `conn_` if that is disconnecting, and leaves the other
connections alone. -/
theorem destructor_cases {w w' : ClientLoop} (hc : w.destructor = some w') :
    (w' = { w with client := ended w.client, alive := false } ∧
      ∀ (i : Nat) c, w.client.conn = some i → w.conns[i]? = some c →
        c.status ≠ .kDisconnecting) ∨
    ∃ i c, w.client.conn = some i ∧ w.conns[i]? = some c ∧ c.status = .kDisconnecting ∧
      w' = { w.setConn i (c.setCloseCallback none) with
        client := ended w.client, alive := false } := by
  simp only [destructor] at hc
  split at hc
  · next hn =>
    cases hc
    refine Or.inl ⟨by simp only [ended, ← hn], fun i c hi => ?_⟩
    rw [hn] at hi
    cases hi
  · next i hi =>
    split at hc
    · cases hc
    · next c hci =>
      split at hc
      · next hs =>
        cases hc
        exact Or.inr ⟨i, c, hi, hci, hs, rfl⟩
      · next hs =>
        obtain ⟨-, ⟨⟩⟩ := Option.ite_none_right_eq_some.mp hc
        refine Or.inl ⟨rfl, fun j d hj hdj => ?_⟩
        obtain rfl : i = j := by simpa [hi] using hj
        obtain rfl : c = d := by simpa [hci] using hdj
        exact hs

/-- The client's own close callback is the only one its connections ever have. -/
def Admits (e : TcpConn.Event) : Prop := ∀ f, e ≠ .setCloseCallback (some f)

theorem admits_of_allows {w : ClientLoop} {e : TcpConn.Event} (h : w.allows e = true) :
    Admits e := by
  rintro f rfl
  cases h

/-- A step of a connection, ended by the client if it has called the close
callback. -/
def Moves (c d : TcpConn) : Prop :=
  ∃ e c', Admits e ∧ c.step e = some c' ∧
    ((d = c' ∧ (c'.frame = some .removing → c.frame = some .removing)) ∨
      (c'.frame = some .removing ∧ (d = c'.throw ∨ d = c'.resume .removing)))

/-- A move is one step or two. -/
theorem Moves.invariant {P : TcpConn → Prop} {c d : TcpConn} (h : Moves c d)
    (hP : ∀ c e c', Admits e → P c → c.step e = some c' → P c') (h₀ : P c) : P d := by
  obtain ⟨e, c', he, hc, ⟨rfl, -⟩ | ⟨hf, rfl | rfl⟩⟩ := h
  · exact hP c e d he h₀ hc
  · exact hP c' .throw _ (by simp [Admits]) (hP c e c' he h₀ hc) (by simp [TcpConn.step, hf])
  · exact hP c' .resume _ (by simp [Admits]) (hP c e c' he h₀ hc) (by simp [TcpConn.step, hf])

/-- What can become of the connection with a given number; a new one takes a
number that was free. -/
inductive Evolves (fresh : Prop) : Option TcpConn → Option TcpConn → Prop
  | same (o : Option TcpConn) : Evolves fresh o o
  | moves {c d : TcpConn} (h : Moves c d) : Evolves fresh (some c) (some d)
  | attaching {d : TcpConn} (hf : fresh) (h : Attaching d) : Evolves fresh none (some d)

theorem moves_of_step {c d : TcpConn} {e : TcpConn.Event} (he : Admits e) (hs : c.step e = some d)
    (hf : d.frame = c.frame) : Moves c d :=
  ⟨e, d, he, hs, Or.inl ⟨rfl, fun hr => hf.symm.trans hr⟩⟩

theorem evolves_setConn {fresh : Prop} {w v : ClientLoop} {i : Nat} {c d : TcpConn}
    (hv : v.conns = w.conns) (hi : w.conns[i]? = some c) (hm : Moves c d) (j : Nat) :
    Evolves fresh w.conns[j]? (v.setConn i d).conns[j]? := by
  obtain ⟨hlt, -⟩ := List.getElem?_eq_some_iff.mp hi
  simp only [setConn, hv, List.getElem?_set, if_pos hlt]
  by_cases hij : i = j
  · subst hij
    rw [if_pos rfl, hi]
    exact .moves hm
  · rw [if_neg hij]
    exact .same _

theorem evolves_onConn {fresh : Prop} {w v : ClientLoop} {f : TcpConn → TcpConn}
    (hv : v.conns = w.conns) (hm : ∀ c, Moves c (f c)) (j : Nat) :
    Evolves fresh w.conns[j]? (v.onConn f).conns[j]? := by
  unfold onConn
  split
  · next i _ =>
    simp only [hv, List.getElem?_modify]
    cases hj : w.conns[j]? with
    | none => exact .same none
    | some c =>
      by_cases hij : i = j
      · simpa [hij] using Evolves.moves (hm c)
      · simpa [hij] using Evolves.same (some c)
  · rw [hv]
    exact .same _

theorem evolves_disconnectInLoop {fresh : Prop} {w v : ClientLoop} (hv : v.conns = w.conns)
    (j : Nat) : Evolves fresh w.conns[j]? v.disconnectInLoop.conns[j]? :=
  @evolves_onConn fresh w { v with client.autoReconnect := false } .close hv
    (fun c => @moves_of_step c _ .close (by simp [Admits]) rfl rfl) j

theorem evolves_setConnCallback {fresh : Prop} (w : ClientLoop) (cb : Option Callback) (j : Nat) :
    Evolves fresh w.conns[j]? (w.setConnCallback cb).conns[j]? :=
  @evolves_onConn fresh w { w with client.connFn := cb } _ rfl
    (fun c => @moves_of_step c _ (.setConnCallback cb) (by simp [Admits]) rfl rfl) j

theorem evolves_afterConn {fresh : Prop} {w : ClientLoop} {i : Nat} {e : TcpConn.Event}
    {c c' : TcpConn} {resolves : Bool} (hi : w.conns[i]? = some c) (he : Admits e)
    (hs : c.step e = some c') (j : Nat) :
    Evolves fresh w.conns[j]? (w.afterConn i c' resolves).conns[j]? := by
  simp only [afterConn]
  split
  · next hf =>
    have hv : (w.handle .onRemoveConn fun w => w.onRemoveConn resolves).state.conns = w.conns := by
      unfold handle
      split
      · exact (onRemoveConn_kept w resolves).2
      · rfl
    split
    · exact evolves_setConn hv hi ⟨e, c', he, hs, Or.inr ⟨hf, Or.inl rfl⟩⟩ j
    · exact evolves_setConn hv hi ⟨e, c', he, hs, Or.inr ⟨hf, Or.inr rfl⟩⟩ j
  · next hf =>
    exact evolves_setConn rfl hi ⟨e, c', he, hs, Or.inl ⟨rfl, fun hr => absurd hr hf⟩⟩ j

theorem evolves_handleConnect {fresh : Prop} (hf : fresh) (w : ClientLoop) (r : Option Socket)
    (j : Nat) : Evolves fresh w.conns[j]? (w.handleConnect r).state.conns[j]? := by
  cases r with
  | none =>
    simp only [handleConnect]
    split <;> exact .same _
  | some socket =>
    simp only [handleConnect]
    rcases handleConn_cases { w with client.reconnectingTimes := 0 } socket with he | ⟨c, hc, he⟩
    · rw [he]
      exact .same _
    · rw [he]
      simp only [List.getElem?_append]
      split
      · exact .same _
      · next hj =>
        rw [List.getElem?_eq_none (Nat.le_of_not_lt hj)]
        cases hk : j - w.conns.length with
        | zero => exact .attaching hf hc
        | succ k => exact .same none

/-- Every step lets each connection be, moves it, or makes a new one. -/
theorem step_conns {w w' : ClientLoop} {e : Event} (hc : w.step e = some w') (j : Nat) :
    Evolves (w.alive = true ∧ 0 < w.connects) w.conns[j]? w'.conns[j]? := by
  have same : ∀ {v : ClientLoop}, v.conns = w.conns →
      Evolves (w.alive = true ∧ 0 < w.connects) w.conns[j]? v.conns[j]? := by
    intro v hv
    rw [hv]
    exact .same _
  cases e with
  | call k =>
    obtain ⟨-, hc⟩ := Option.ite_none_right_eq_some.mp hc
    cases k with
    | connect resolves =>
      cases hc
      exact same (connect_kept w resolves).2
    | disconnect inLoop =>
      cases hc
      cases inLoop with
      | true => exact evolves_disconnectInLoop rfl j
      | false => exact .same _
    | setAutoReconnect _ | setMessageCallback _ =>
      cases hc
      exact .same _
    | setConnCallback cb =>
      cases hc
      exact evolves_setConnCallback w cb j
    | destroy =>
      obtain ⟨rfl, -⟩ | ⟨i, c, -, hi, -, rfl⟩ := destructor_cases hc
      · exact .same _
      · have hm : Moves c (c.setCloseCallback none) :=
          @moves_of_step c _ (.setCloseCallback none) (by simp [Admits]) rfl rfl
        exact @evolves_setConn _ w w i c _ rfl hi hm j
  | disconnectInLoop =>
    obtain ⟨-, ⟨⟩⟩ := Option.ite_none_right_eq_some.mp hc
    simp only [run, handle]
    split
    · exact @evolves_disconnectInLoop _ w { w with disconnects := w.disconnects - 1 } rfl j
    · exact .same _
  | connectDone r =>
    obtain ⟨⟨hn, -⟩, ⟨⟩⟩ := Option.ite_none_right_eq_some.mp hc
    simp only [run, handle]
    split
    · next ha => exact evolves_handleConnect ⟨ha, hn⟩ { w with connects := w.connects - 1 } r j
    · exact .same _
  | timer resolves =>
    obtain ⟨-, ⟨⟩⟩ := Option.ite_none_right_eq_some.mp hc
    simp only [run, handle]
    split
    · exact same (reconnect_kept { w with timers := w.timers - 1 } resolves).2
    · exact .same _
  | conn i e resolves =>
    obtain ⟨c, c', hi, ha, hs, rfl⟩ := stepConn_cases hc
    exact evolves_afterConn hi (admits_of_allows ha) hs j

/-- What moves keep, the client keeps for all its connections. -/
theorem forall_conns {P : TcpConn → Prop} {w w' : ClientLoop} {e : Event}
    (hmove : ∀ c d, P c → Moves c d → P d)
    (hnew : ∀ c, w.alive = true → 0 < w.connects → Attaching c → P c)
    (h : ∀ (i : Nat) c, w.conns[i]? = some c → P c) (hc : w.step e = some w') (i : Nat) (c : TcpConn)
    (hi : w'.conns[i]? = some c) : P c := by
  have hev := step_conns hc i
  rw [hi] at hev
  generalize ho : w.conns[i]? = o at hev
  cases hev with
  | same => exact h i c ho
  | moves hm => exact hmove _ c (h i _ ho) hm
  | attaching hf hn => exact hnew c hf.1 hf.2 hn

/-- A handler that runs after the destructor leaves its mark, and nothing else. -/
theorem handle_kept (w : ClientLoop) (h : ClientHandler) (f : ClientLoop → Outcome)
    (hk : Kept w (f w).state) :
    (w.handle h f).state.alive = w.alive ∧ (w.handle h f).state.escaped = w.escaped ∧
      (w.alive = true → (w.handle h f).state.uses = w.uses) := by
  simp only [handle]
  split
  · exact ⟨hk.alive, hk.escaped, fun _ => hk.uses⟩
  · next hn => exact ⟨rfl, rfl, fun ha => absurd ha hn⟩

theorem run_kept (w : ClientLoop) (h : ClientHandler) (f : ClientLoop → Outcome)
    (hk : Kept w (f w).state) :
    (w.escaped = true → (w.run h f).escaped = true) ∧
      (w.alive = true → (w.run h f).uses = w.uses) ∧ (w.run h f).alive = w.alive := by
  obtain ⟨ha, he, hu⟩ := handle_kept w h f hk
  exact ⟨fun hx => by simp [run, he, hx], hu, ha⟩

/-- Only the destructor ends the life of a client; until then nothing counts as
run too late. An exception that has left the loop stays out. -/
theorem step_kept {w w' : ClientLoop} {e : Event} (hc : w.step e = some w') :
    (w.escaped = true → w'.escaped = true) ∧ (w.alive = true → w'.uses = w.uses) ∧
      (e ≠ .call .destroy → w'.alive = w.alive) := by
  have kept : ∀ {v : ClientLoop}, Kept w v → (w.escaped = true → v.escaped = true) ∧
      (w.alive = true → v.uses = w.uses) ∧ (e ≠ .call .destroy → v.alive = w.alive) :=
    fun hk => ⟨hk.escaped.trans, fun _ => hk.uses, fun _ => hk.alive⟩
  cases e with
  | call k =>
    obtain ⟨-, hc⟩ := Option.ite_none_right_eq_some.mp hc
    cases k with
    | connect resolves =>
      cases hc
      exact kept (connect_kept w resolves).1
    | disconnect inLoop =>
      cases hc
      cases inLoop with
      | true => exact kept (disconnectInLoop_kept w)
      | false => exact kept ⟨rfl, rfl, rfl⟩
    | setAutoReconnect _ | setMessageCallback _ =>
      cases hc
      exact kept ⟨rfl, rfl, rfl⟩
    | setConnCallback cb =>
      cases hc
      obtain ⟨ha, hu, he⟩ := onConn_kept { w with client.connFn := cb } fun c => c.setConnCallback cb
      exact kept ⟨ha, hu, he⟩
    | destroy =>
      obtain ⟨rfl, -⟩ | ⟨i, c, -, -, -, rfl⟩ := destructor_cases hc
      · exact ⟨id, fun _ => rfl, fun hn => absurd rfl hn⟩
      · exact ⟨id, fun _ => rfl, fun hn => absurd rfl hn⟩
  | disconnectInLoop =>
    obtain ⟨-, ⟨⟩⟩ := Option.ite_none_right_eq_some.mp hc
    obtain ⟨hx, hu, ha⟩ := run_kept { w with disconnects := w.disconnects - 1 } .disconnectInLoop
      (fun v => ⟨v.disconnectInLoop, false⟩) (disconnectInLoop_kept _)
    exact ⟨hx, hu, fun _ => ha⟩
  | connectDone r =>
    obtain ⟨-, ⟨⟩⟩ := Option.ite_none_right_eq_some.mp hc
    obtain ⟨hx, hu, ha⟩ := run_kept { w with connects := w.connects - 1 } .connect
      (fun v => v.handleConnect r) (handleConnect_kept _ r)
    exact ⟨hx, hu, fun _ => ha⟩
  | timer resolves =>
    obtain ⟨-, ⟨⟩⟩ := Option.ite_none_right_eq_some.mp hc
    obtain ⟨hx, hu, ha⟩ := run_kept { w with timers := w.timers - 1 } .reconnect
      (fun v => v.reconnect resolves) (reconnect_kept _ resolves).1
    exact ⟨hx, hu, fun _ => ha⟩
  | conn i e resolves =>
    obtain ⟨c, c', -, -, -, rfl⟩ := stepConn_cases hc
    simp only [afterConn]
    split
    · obtain ⟨ha, hx, hu⟩ := handle_kept w .onRemoveConn (fun v => v.onRemoveConn resolves)
        (onRemoveConn_kept w resolves).1
      exact ⟨hx.trans, hu, fun _ => ha⟩
    · exact kept ⟨rfl, rfl, rfl⟩

theorem all_conns_iff {w : ClientLoop} {p : TcpConn → Bool} :
    w.conns.all p = true ↔ ∀ (i : Nat) c, w.conns[i]? = some c → p c = true := by
  simp only [List.all_eq_true, List.mem_iff_getElem?, forall_exists_index]
  exact forall_comm

theorem idle_iff {w : ClientLoop} : w.idle = true ↔
    w.escaped = false ∧ ∀ (i : Nat) c, w.conns[i]? = some c → c.idle = true := by
  simp only [idle, Bool.and_eq_true, Bool.not_eq_true', all_conns_iff]

end ClientLoop

end Libasio
