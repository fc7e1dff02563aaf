import Libasio.EventLoop
import Libasio.ConnMachine
import Mathlib.Data.List.AList

/-!
# A server

`TCPServer` (`tcp_server.h`, `tcp_server.cc`) with what its listening loop holds
for it: the accepts whose handlers are still to run, the posted `StopInLoop` and
`RemoveConn` functors, every connection it has made, and the loops of its pool.

## Main definitions

- `TcpServer` — the object
- `ServerLoop` — the object, its listening loop, its pool and its connections
- `ServerLoop.step` — what can happen next, and its effect

## Design notes

`HandleNewConn` takes two steps, since the connection may already run on a
worker loop, or wait in its callback on the listening loop, before it is
inserted. `Start` and `StopInLoop` keep the listening thread while the pool
works (`ServerLoop.call`). `Start` is called on the thread of the listening loop.
No accessor leads to the pool or to its loops, so nobody stops their
`io_service`s. The close callback of a connection stays the server's.
-/

namespace Libasio

/-- `async_accept` into the socket of a thread, or into `accept_socket_`. A
result is an error or the socket of the peer. -/
structure AcceptOp where
  loop : Option Nat
  result : Option (Option Socket)
  deriving DecidableEq

/-- Closing the acceptor. -/
def AcceptOp.abort (op : AcceptOp) : AcceptOp := { op with result := op.result.or (some none) }

def AcceptOp.succeeded (op : AcceptOp) : Bool :=
  match op.result with
  | some (some _) => true
  | _ => false

/-- `ConnectionMap`, from names to the numbers of connections. -/
abbrev ConnectionMap := AList fun _ : String => Nat

structure TcpServer where
  name : String
  /-- `acceptor_.is_open()` -/
  acceptorOpen : Bool
  closed : Bool
  tpool : EventLoopThreadPool
  connFn : Option Callback
  msgFn : Option Callback
  nextConnId : BitVec 64
  conns : ConnectionMap

/-- What the listening thread waits for in a call on the pool. -/
inductive ServerCall
  | start | stop
  deriving DecidableEq

/-- The handlers and functors that hold a pointer to the server. -/
inductive ServerHandler
  | stopInLoop | accept | removeConn | closeFn
  deriving DecidableEq

/-- What a server is seen to do. -/
inductive ServerObs
  | stopInLoop
  | accepted (i : Nat)                        -- `HandleNewConn` has made connection `i`
  | attached (i : Nat)                        -- `OnAttachedToLoop` is run for connection `i`
  | inserted (i : Nat)                        -- connection `i` is put into `conns_`
  | erased (i : Nat) (entry : Option Nat)     -- `RemoveConn`'s functor for `i` erases `entry`
  deriving DecidableEq

structure ServedConn where
  /-- the thread of its loop; `none` is the listening loop -/
  loop : Option Nat
  tcp : TcpConn

structure ServerLoop where
  server : TcpServer
  /-- the destructor has not been run -/
  alive : Bool
  /-- accepts whose handler has not been run -/
  accepts : List AcceptOp
  /-- the connection that `HandleNewConn` has not inserted yet -/
  accepting : Option Nat
  call : Option ServerCall
  /-- posted `StopInLoop` functors -/
  stops : Nat
  /-- posted functors of `RemoveConn`, by the number of the connection -/
  removals : List Nat
  /-- every connection made by the server, in order -/
  conns : List ServedConn
  /-- an exception has left a handler of the server -/
  escaped : Bool
  trace : List ServerObs
  /-- what was run on the server after its destructor -/
  uses : List ServerHandler

/-- `name_ + "-conn" + "#" + std::to_string(id)`. -/
def connName (name : String) (id : BitVec 64) : String :=
  name ++ "-conn" ++ "#" ++ toString id.toNat

/-- The thread executes handlers of its loop. -/
def EventLoopThread.executes (t : EventLoopThread) : Bool :=
  match t.loop with
  | some l => l.inside && !l.stopped
  | none => false

namespace ServerLoop

/-- `TCPServer(loop, bind_ip, port, name, thread_num)`. -/
def create (name : String) (threadNum : Nat) : ServerLoop where
  server := {
    name := name, acceptorOpen := true, closed := false, tpool := .create threadNum,
    connFn := none, msgFn := none, nextConnId := 0, conns := ∅ }
  alive := true
  accepts := []
  accepting := none
  call := none
  stops := 0
  removals := []
  conns := []
  escaped := false
  trace := []
  uses := []

def emit (w : ServerLoop) (o : ServerObs) : ServerLoop := { w with trace := w.trace ++ [o] }

def use (w : ServerLoop) (h : ServerHandler) : ServerLoop := { w with uses := w.uses ++ [h] }

def setConn (w : ServerLoop) (i : Nat) (c : ServedConn) : ServerLoop :=
  { w with conns := w.conns.set i c }

/-- Call a member function of connection `i`. -/
def onConn (w : ServerLoop) (i : Nat) (f : TcpConn → TcpConn) : ServerLoop :=
  { w with conns := w.conns.modify i fun c => { c with tcp := f c.tcp } }

/-- `async_accept`. It fails at once when the acceptor is closed, or the socket open. -/
def accept (w : ServerLoop) (loop : Option Nat) : ServerLoop :=
  let isOpen := w.accepts.any fun op => op.loop = loop && op.succeeded
  let result := if w.server.acceptorOpen ∧ ¬isOpen then none else some none
  { w with accepts := w.accepts ++ [⟨loop, result⟩] }

/-- `AsyncAccept`. Without a thread in the pool it passes on a null socket. -/
def asyncAccept (w : ServerLoop) : ServerLoop :=
  if 0 < w.server.tpool.threadNum then
    match w.server.tpool.getNext with
    | (some k, tpool) => { w with server.tpool := tpool }.accept (some k)
    | (none, tpool) => { w with server.tpool := { tpool with undefined := true } }
  else w.accept none

/-- The end of the handler of `async_accept`. -/
def acceptNext (w : ServerLoop) : ServerLoop :=
  if ¬w.server.closed then w.asyncAccept else w

/-- `HandleNewConn` up to the insertion. -/
def handleNewConn (w : ServerLoop) (socket : Socket) (loop : Option Nat) : ServerLoop :=
  let cn := connName w.server.name w.server.nextConnId
  let w := { w with server.nextConnId := w.server.nextConnId + 1 }
  match TcpConn.ctor socket cn with
  | none => { w with escaped := true }
  | some c =>
    let c := (c.setMessageCallback w.server.msgFn).setConnCallback w.server.connFn
    let c := c.setCloseCallback (some .removeConn)
    let i := w.conns.length
    let w := { w with accepting := some i }.emit (.accepted i)
    match loop with
    | some _ => { w with conns := w.conns ++ [⟨loop, c.post .onAttachedToLoop⟩] }
    | none =>
      let w := w.emit (.attached i)
      { w with conns := w.conns ++ [⟨loop, c.onAttachedToLoop⟩] }

/-- The handler of `async_accept`; `none` stands for an error. -/
def handleAccept (w : ServerLoop) (loop : Option Nat) : Option Socket → ServerLoop
  | some socket => w.handleNewConn socket loop
  | none => w.acceptNext

/-- The rest of `HandleNewConn` and of the handler that called it. -/
def insert (w : ServerLoop) (i : Nat) (c : ServedConn) : ServerLoop :=
  let w := { w with server.conns := w.server.conns.insert c.tcp.name i }.emit (.inserted i)
  { w with accepting := none }.acceptNext

/-- The functor of `RemoveConn`. -/
def erase (w : ServerLoop) (i : Nat) (c : ServedConn) : ServerLoop :=
  { w with server.conns := w.server.conns.erase c.tcp.name }.emit
    (.erased i (w.server.conns.lookup c.tcp.name))

/-- `RemoveConn`, called by connection `i` on its loop. -/
def removeConn (w : ServerLoop) (i : Nat) (c : ServedConn) : ServerLoop :=
  match c.loop with
  | none => w.erase i c
  | some _ => { w with removals := w.removals ++ [i] }

/-- `Close()` on every connection of `conns_`. -/
def closeConns (w : ServerLoop) : ServerLoop :=
  w.server.conns.entries.foldl (fun w entry => w.onConn entry.2 .close) w

/-- `StopInLoop` up to the wait for the pool. -/
def stopInLoop (w : ServerLoop) : Option ServerLoop :=
  let w := { w with
    server.acceptorOpen := false
    accepts := w.accepts.map .abort }.emit .stopInLoop
  let w := w.closeConns
  (w.server.tpool.step (.stop true)).map fun tpool =>
    { w with server.tpool := tpool, call := some .stop }

/-- The pool has returned to `Start` or `StopInLoop`. -/
def afterCall (w : ServerLoop) : ServerCall → ServerLoop
  | .start => { w with call := none }.asyncAccept
  | .stop => { w with call := none, server.closed := true }

/-- What `~TCPServer` asserts. -/
def mayEnd (w : ServerLoop) : Bool :=
  w.server.tpool.isStopped = some true && w.server.conns.entries.isEmpty && !w.server.acceptorOpen

/-- One atomic step. `stop inLoop` is a call of `Stop`, `stopInLoop` a posted
functor; `handleAccept j` runs the handler of an accept, `insert` the rest of
`HandleNewConn`, and `removeConn` a posted functor. -/
inductive Event
  | start
  | stop (inLoop : Bool)
  | stopInLoop
  | advance
  | setConnectionCallback (cb : Option Callback)
  | setMessageCallback (cb : Option Callback)
  | destroy
  | acceptReady (j : Nat) (r : Option Socket)
  | handleAccept (j : Nat)
  | insert
  | removeConn
  | conn (i : Nat) (e : TcpConn.Event)
  | thread (k : Nat) (e : EventLoopThread.Event)

/-- The connections of the loop meet `p`. -/
def allOn (w : ServerLoop) (loop : Option Nat) (p : TcpConn → Bool) : Bool :=
  w.conns.all fun c => !decide (c.loop = loop) || p c.tcp

/-- No exception has left the listening loop, and its thread does not wait. -/
def running (w : ServerLoop) : Bool :=
  !w.escaped && w.call.isNone && w.allOn none fun c => !c.escaped

/-- The listening thread is in no callback of a connection. -/
def free (w : ServerLoop) : Bool := !w.escaped && w.call.isNone && w.allOn none TcpConn.idle

/-- The listening loop is free to start a handler. -/
def idle (w : ServerLoop) : Bool := w.free && w.accepting.isNone

/-- The loop of thread `k` is free to start a handler. -/
def workerIdle (w : ServerLoop) (k : Nat) : Bool :=
  (w.server.tpool.threads[k]?.any EventLoopThread.executes) && w.allOn (some k) TcpConn.idle

/-- When a step of a connection can be taken. -/
def allows (w : ServerLoop) (loop : Option Nat) : TcpConn.Event → Bool
  | .runPosted | .handleRead | .handleWrite =>
    match loop with
    | none => w.idle
    | some k => w.workerIdle k
  | .editRecv _ | .resume | .throw =>
    match loop with
    | none => w.running
    | some k => w.allOn (some k) fun c => !c.escaped
  | .setCloseCallback _ => false
  | _ => true

/-- The step attaches the connection to its loop. -/
def attaches (c : TcpConn) : TcpConn.Event → Bool
  | .runPosted => c.posted.head? = some .onAttachedToLoop
  | _ => false

/-- Connection `i` becomes `c`; if that calls `close_fn_`, the callback is run
and the handler resumed. -/
def afterConn (w : ServerLoop) (i : Nat) (c : ServedConn) : ServerLoop :=
  if c.tcp.frame = some .removing then
    let w := if w.alive then w.removeConn i c else w.use .closeFn
    w.setConn i { c with tcp := c.tcp.resume .removing }
  else w.setConn i c

def stepConn (w : ServerLoop) (i : Nat) (e : TcpConn.Event) : Option ServerLoop :=
  match w.conns[i]? with
  | none => none
  | some c =>
    if w.allows c.loop e then
      (c.tcp.step e).map fun tcp =>
        let w := if attaches c.tcp e then w.emit (.attached i) else w
        w.afterConn i { c with tcp := tcp }
    else none

/-- What a thread of the pool can do, other than to run a handler of a connection. -/
def threadAllows (w : ServerLoop) (k : Nat) (e : EventLoopThread.Event) : Bool :=
  decide (e ≠ .loop .ioStop) && (!e.isOwn || w.allOn (some k) TcpConn.idle)

/-- The system call behind an accept in flight delivers a result. -/
def acceptReady (w : ServerLoop) (j : Nat) (r : Option Socket) : Option ServerLoop :=
  match w.accepts[j]? with
  | some ⟨loop, none⟩ =>
    if r.all Socket.isOpen ∧
        (r.isSome → ¬w.accepts.any fun op => op.loop = loop && op.succeeded) then
      some { w with accepts := w.accepts.set j ⟨loop, some r⟩ }
    else none
  | _ => none

/-- The listening loop runs the handler of an accept that has completed. -/
def startAccept (w : ServerLoop) (j : Nat) : Option ServerLoop :=
  match w.accepts[j]? with
  | some ⟨loop, some r⟩ =>
    if w.idle then
      let w := { w with accepts := w.accepts.eraseIdx j }
      some (if w.alive then w.handleAccept loop r else w.use .accept)
    else none
  | _ => none

/-- `HandleNewConn` goes on to the insertion. -/
def resumeAccept (w : ServerLoop) : Option ServerLoop :=
  match w.accepting with
  | none => none
  | some i =>
    match w.conns[i]? with
    | none => none
    | some c =>
      if w.free then
        some (if w.alive then w.insert i c else { w with accepting := none }.use .accept)
      else none

/-- The listening loop runs the first functor of `RemoveConn`. -/
def startRemoval (w : ServerLoop) : Option ServerLoop :=
  match w.removals with
  | [] => none
  | i :: is =>
    match w.conns[i]? with
    | none => none
    | some c =>
      if w.idle then
        let w := { w with removals := is }
        some (if w.alive then w.erase i c else w.use .removeConn)
      else none

def step (w : ServerLoop) : Event → Option ServerLoop
  | .start =>
    if w.alive ∧ w.running then
      (w.server.tpool.step (.start true)).map fun tpool =>
        { w with server.tpool := tpool, call := some .start }
    else none
  | .stop inLoop =>
    if ¬w.alive then none
    else if inLoop then if w.running then w.stopInLoop else none
    else some { w with stops := w.stops + 1 }
  | .stopInLoop =>
    if 0 < w.stops ∧ w.idle then
      let w := { w with stops := w.stops - 1 }
      if w.alive then w.stopInLoop else some (w.use .stopInLoop)
    else none
  | .advance =>
    match w.call with
    | none => none
    | some k =>
      if w.server.tpool.call = none then some (w.afterCall k)
      else (w.server.tpool.step (.advance true)).map fun tpool => { w with server.tpool := tpool }
  | .setConnectionCallback cb => if w.alive then some { w with server.connFn := cb } else none
  | .setMessageCallback cb => if w.alive then some { w with server.msgFn := cb } else none
  | .destroy =>
    if w.alive ∧ w.call = none ∧ w.mayEnd then some { w with alive := false } else none
  | .acceptReady j r => w.acceptReady j r
  | .handleAccept j => w.startAccept j
  | .insert => w.resumeAccept
  | .removeConn => w.startRemoval
  | .conn i e => w.stepConn i e
  | .thread k e =>
    if w.threadAllows k e then
      (w.server.tpool.step (.thread k e)).map fun tpool => { w with server.tpool := tpool }
    else none

end ServerLoop

end Libasio
