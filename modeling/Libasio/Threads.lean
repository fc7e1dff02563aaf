import Libasio.TcpServer
import Mathlib.Logic.Function.Basic

/-!
# Threads that execute the code of the library

Any number of threads, loops, servers with their worker threads and clients. A
thread has a stack of functions under way and executes one statement in a step,
so that the steps of the threads interleave between any two statements. Kept are
the statements that depend on the thread that executes them or that bring a
function to another thread: the assertions `IsInLoopThread()`, the calls,
`RunInLoop` and `QueueInLoop`, the operations of asio, and what `Run` writes.

## Main definitions

- `Threads.Fn`, `Threads.System.body` — the functions of the source with the lambdas
  and handlers in them, and the statements of each
- `Threads.System`, `Threads.System.step` — the threads with what they share, and
  the steps

## Design notes

What a function decides on its own data (the status of a connection, the error of a
handler, `closed_`) is left open: `body` has the branches side by side, chosen by a
number. An operation of asio that has been started is a handler in the queue of its
`io_service`, and the thread inside of `Run` takes the handlers of the queue in any
order. The waits of `EventLoopThreadPool::Stop` are left out; `work_` keeps `Run`
from returning, an exception leaves it. The objects are never destroyed, and the
reads and writes of `tid_` are taken to be atomic.
-/

namespace Libasio.Threads

abbrev ThreadId := Nat
abbrev LoopId := Nat

-- ════════════════════════════════════════════════════════════════════════
-- The objects
-- ════════════════════════════════════════════════════════════════════════

structure Server where
  id : Nat
  name : String
  loop : LoopId
  /-- the loop to whose `io_service` `acceptor_` belongs -/
  acceptor : LoopId
  /-- the loop to whose `io_service` `accept_socket_` belongs -/
  acceptSocket : LoopId
  threadNum : Nat
  deriving DecidableEq

structure Client where
  id : Nat
  name : String
  loop : LoopId
  /-- the loop to whose `io_service` `socket_` belongs -/
  socket : LoopId
  /-- the loop to whose `io_service` `reconnect_timer_` belongs -/
  timer : LoopId
  deriving DecidableEq

/-- The object whose function `close_fn_` is bound to. -/
inductive Owner
  | server (sv : Server)
  | client (k : Client)
  deriving DecidableEq

structure Conn where
  id : Nat
  name : String
  loop : LoopId
  /-- the loop to whose `io_service` `socket_` belongs -/
  socket : LoopId
  closeFn : Owner
  deriving DecidableEq

/-- An `EventLoopThread`: its loop, and the loop to whose `io_service` its
`accept_socket_` belongs. -/
structure Worker where
  evLoop : LoopId
  acceptSocket : LoopId
  deriving DecidableEq

-- ════════════════════════════════════════════════════════════════════════
-- The code
-- ════════════════════════════════════════════════════════════════════════

/-- The functions of the source, the lambdas in them and the handlers given to asio. -/
inductive Fn
  -- `TCPConn`
  | close (c : Conn)
  | closeFunctor (c : Conn)          -- queued by `Close`
  | handleClose (c : Conn)
  | handleError (c : Conn)
  | closeFn (c : Conn)               -- what `close_fn_` is bound to
  | onAttachedToLoop (c : Conn)
  | asyncRead (c : Conn)
  | asyncWrite (c : Conn)
  | handleRead (c : Conn)
  | handleWrite (c : Conn)
  | send (c : Conn)
  | sendOutsideLoop (c : Conn)       -- the `else` of `Send`
  | sendStringInLoop (c : Conn)
  | sendInLoop (c : Conn)
  -- `TCPServer`
  | start (sv : Server)
  | stop (sv : Server)
  | stopInLoop (sv : Server)
  | removeConn (sv : Server) (c : Conn)
  | removeConnFunctor (sv : Server) (c : Conn)
  | asyncAccept (sv : Server)
  | acceptHandler (sv : Server) (socket loop : LoopId)
  | handleNewConn (sv : Server) (socket loop : LoopId)
  -- `TCPClient`
  | connect (k : Client)
  | connectHandler (k : Client)
  | reconnect (k : Client)
  | disconnect (k : Client)
  | disconnectInLoop (k : Client)
  | closeConn (k : Client)           -- the `if` of `DisconnectInLoop`
  | handleConn (k : Client)
  | onRemoveConn (k : Client) (c : Conn)
  -- `EventLoop`
  | run (l : LoopId)
  | loopStop (l : LoopId)
  | loopStopInLoop (l : LoopId)
  -- code of the application, and its functors given to a loop
  | user
  | runUser (l : LoopId)
  | queueUser (l : LoopId)
  deriving DecidableEq

/-- The functions and functors that assert `IsInLoopThread()`. -/
inductive Site
  | close | handleClose | onAttachedToLoop | sendInLoop
  | handleNewConn | removeConn
  | disconnectInLoop | handleConn | onRemoveConn
  deriving DecidableEq

inductive Stmt
  | assertInLoop (site : Site) (l : LoopId)
  | call (f : Fn)
  | ifInLoop (l : LoopId) (f g : Fn)       -- `if (IsInLoopThread()) f else g`
  | runInLoop (l : LoopId) (f : Fn)
  | queueInLoop (l : LoopId) (f : Fn)      -- also the start of an operation with handler `f`
  | callback
  | throws
  -- `EventLoop::Run`; the first goes on with the others
  | setTid (l : LoopId)
  | setRunning (l : LoopId)
  | ioRun (l : LoopId)
  -- `EventLoopThreadPool::Start`, and `AsyncAccept` with `GetSocketForAccept`
  | startThread (sv : Server)
  | awaitRunning (sv : Server) (w : Worker)
  | accept (sv : Server)
  -- connections, `conns_` and `conn_`
  | newConn (loop socket : LoopId) (owner : Owner)
  | insert (sv : Server) (c : Conn)
  | erase (sv : Server) (c : Conn)
  | setConn (k : Client) (c : Conn)
  | resetConn (k : Client)

/-- An entry of the stack of a thread. -/
inductive Frame
  | user                       -- code of the application, `main` or a callback
  | ioRun (l : LoopId)         -- `io_service_.run`
  | code (stmts : List Stmt)   -- what is left of a function of the library

def Frame.isUser : Frame → Bool
  | .user => true
  | _ => false

def Stmt.asserts (l : LoopId) : Stmt → Bool
  | .assertInLoop _ m => m = l
  | _ => false

/-- The function has an assertion about the loop before it. -/
def Frame.asserts (l : LoopId) : Frame → Bool
  | .code stmts => stmts.any (Stmt.asserts l)
  | _ => false

-- ════════════════════════════════════════════════════════════════════════
-- The state
-- ════════════════════════════════════════════════════════════════════════

structure Loop where
  tid : ThreadId
  running : Bool
  /-- the thread that has entered `Run` last -/
  runner : Option ThreadId
  tasks : List Fn

structure Pool where
  threads : List Worker
  next : BitVec 64

/-- An assertion `IsInLoopThread()` that has been reached. -/
structure Assertion where
  site : Site
  /-- the thread that has reached it -/
  thread : ThreadId
  /-- `tid_` of the loop when it was reached -/
  tid : ThreadId
  /-- the loop was running when it was reached -/
  running : Bool
  deriving DecidableEq

structure System where
  loops : Nat
  loop : LoopId → Loop
  /-- the stack of each thread -/
  threads : List (List Frame)
  servers : List Server
  pool : Nat → Pool
  nextConnId : Nat → BitVec 64
  /-- `conns_` of the servers -/
  connMap : Nat → List Conn
  clients : List Client
  /-- `conn_` of the clients -/
  conn : Nat → Option Conn
  /-- every connection that has been made -/
  conns : List Conn
  asserted : List Assertion

/-- What a thread does next. -/
inductive Event
  | thread                                              -- a thread of the application begins
  | loop (X : ThreadId)                                 -- the application constructs a loop,
  | server (X : ThreadId) (name : String) (l : LoopId) (threadNum : Nat)  -- a server,
  | client (X : ThreadId) (name : String) (l : LoopId)  -- a client,
  | call (X : ThreadId) (f : Fn) (b : Nat)              -- calls a public function,
  | ret (X : ThreadId)                                  -- returns from a callback,
  | throw (X : ThreadId)                                -- throws; or asio does
  | step (X : ThreadId) (b : Nat)                       -- the next statement of the library
  | execute (X : ThreadId) (j : Nat) (b : Nat)          -- a handler of the queue

namespace System

/-- The thread of `main`, before it has done anything. -/
def init : System where
  loops := 0
  loop := fun _ => ⟨0, false, none, []⟩
  threads := [[.user]]
  servers := []
  pool := fun _ => ⟨[], 0⟩
  nextConnId := fun _ => 0
  connMap := fun _ => []
  clients := []
  conn := fun _ => none
  conns := []
  asserted := []

/-- The statements of a function. -/
def body (s : System) (b : Nat) : Fn → List Stmt
  | .close c => [.queueInLoop c.loop (.closeFunctor c)]
  | .closeFunctor c => [.assertInLoop .close c.loop]
  | .handleClose c =>
    .assertInLoop .handleClose c.loop ::
      match b with
      | 0 => [.callback, .call (.closeFn c)]
      | _ => []                                       -- already disconnected
  | .handleError c => [.call (.handleClose c)]
  | .closeFn c =>
    match c.closeFn with
    | .server sv => [.call (.removeConn sv c)]
    | .client k => [.call (.onRemoveConn k c)]
  | .onAttachedToLoop c =>
    [.assertInLoop .onAttachedToLoop c.loop, .callback, .call (.asyncRead c)]
  | .asyncRead c => [.queueInLoop c.socket (.handleRead c)]
  | .asyncWrite c =>
    match b with
    | 0 => [.queueInLoop c.socket (.handleWrite c)]
    | _ => []
  | .handleRead c =>
    match b with
    | 0 => [.callback, .call (.asyncRead c)]
    | 1 => [.call (.handleClose c)]                   -- `eof`
    | _ => [.call (.handleError c)]
  | .handleWrite c =>
    match b with
    | 0 => []
    | 1 => [.call (.asyncWrite c)]
    | _ => [.call (.handleError c)]
  | .send c => [.ifInLoop c.loop (.sendInLoop c) (.sendOutsideLoop c)]
  | .sendOutsideLoop c => [.runInLoop c.loop (.sendStringInLoop c)]
  | .sendStringInLoop c => [.call (.sendInLoop c)]
  | .sendInLoop c =>
    .assertInLoop .sendInLoop c.loop ::
      match b with
      | 0 => [.call (.asyncWrite c)]
      | 1 => [.callback]                              -- the high water mark
      | _ => []
  | .start sv =>
    match b with
    | 0 => List.replicate sv.threadNum (.startThread sv) ++ [.call (.asyncAccept sv)]
    | _ => [.call (.asyncAccept sv)]                  -- the pool has been started
  | .stop sv => [.runInLoop sv.loop (.stopInLoop sv)]
  | .stopInLoop sv =>
    (s.connMap sv.id).map (fun c => .call (.close c)) ++
      (s.pool sv.id).threads.map fun w => .call (.loopStop w.evLoop)
  | .removeConn sv c => [.runInLoop sv.loop (.removeConnFunctor sv c)]
  | .removeConnFunctor sv c => [.assertInLoop .removeConn sv.loop, .erase sv c]
  | .asyncAccept sv => [.accept sv]
  | .acceptHandler sv socket loop =>
    match b with
    | 0 => [.call (.handleNewConn sv socket loop), .call (.asyncAccept sv)]
    | 1 => [.call (.handleNewConn sv socket loop)]    -- `closed_`
    | 2 => [.call (.asyncAccept sv)]                  -- an error
    | _ => []
  | .handleNewConn sv socket loop =>
    [.assertInLoop .handleNewConn sv.loop, .newConn loop socket (.server sv)]
  | .connect k => [.queueInLoop k.socket (.connectHandler k)]
  | .connectHandler k =>
    match b with
    | 0 => [.call (.handleConn k)]
    | 1 => [.queueInLoop k.timer (.reconnect k)]
    | _ => []
  | .reconnect k => [.call (.connect k)]
  | .disconnect k => [.runInLoop k.loop (.disconnectInLoop k)]
  | .disconnectInLoop k => [.assertInLoop .disconnectInLoop k.loop, .call (.closeConn k)]
  | .closeConn k =>
    match s.conn k.id with
    | some c => [.call (.close c)]
    | none => []
  | .handleConn k =>
    match b with
    | 0 => [.assertInLoop .handleConn k.loop, .newConn k.loop k.socket (.client k)]
    | _ => [.throws]                                  -- `TCPConn` of a socket that is not open
  | .onRemoveConn k _ =>
    match s.conn k.id, b with
    | none, _ => []
    | some _, 0 => [.assertInLoop .onRemoveConn k.loop, .resetConn k, .call (.reconnect k)]
    | some _, _ => [.assertInLoop .onRemoveConn k.loop, .resetConn k]
  | .run l => [.setTid l]
  | .loopStop l => [.runInLoop l (.loopStopInLoop l)]
  | .loopStopInLoop _ => []
  | .user => [.callback]
  | .runUser l => [.runInLoop l .user]
  | .queueUser l => [.queueInLoop l .user]

def stack (s : System) (X : ThreadId) : List Frame := s.threads.getD X []

def setStack (s : System) (X : ThreadId) (frs : List Frame) : System :=
  { s with threads := s.threads.set X frs }

def push (s : System) (X : ThreadId) (fr : Frame) : System := s.setStack X (fr :: s.stack X)

def callFn (s : System) (X : ThreadId) (b : Nat) (f : Fn) : System := s.push X (.code (s.body b f))

def setLoop (s : System) (l : LoopId) (L : Loop) : System :=
  { s with loop := Function.update s.loop l L }

def queueInLoop (s : System) (l : LoopId) (f : Fn) : System :=
  s.setLoop l { s.loop l with tasks := (s.loop l).tasks ++ [f] }

/-- The constructor of `EventLoop`, executed by `X`. -/
def newLoop (s : System) (X : ThreadId) : System :=
  { s.setLoop s.loops ⟨X, false, none, []⟩ with loops := s.loops + 1 }

def spawn (s : System) (fr : Frame) : System := { s with threads := s.threads ++ [[fr]] }

/-- An exception leaves the functions of the library up to the code of the
application; where there is none below, the program ends. -/
def raise (s : System) (X : ThreadId) (frs : List Frame) : Option System :=
  match frs.dropWhile (fun fr => !fr.isUser) with
  | [] => none
  | frs => some (s.setStack X frs)

def setPool (s : System) (sv : Server) (p : Pool) : System :=
  { s with pool := Function.update s.pool sv.id p }

/-- The constructor of `TCPConn`. -/
def makeConn (s : System) (loop socket : LoopId) : Owner → Conn
  | .server sv =>
    ⟨s.conns.length, connName sv.name (s.nextConnId sv.id), loop, socket, .server sv⟩
  | .client k => ⟨s.conns.length, k.name, loop, socket, .client k⟩

def addConn (s : System) (c : Conn) : System :=
  match c.closeFn with
  | .server sv =>
    { s with
      conns := s.conns ++ [c]
      nextConnId := Function.update s.nextConnId sv.id (s.nextConnId sv.id + 1) }
  | .client _ => { s with conns := s.conns ++ [c] }

/-- What `HandleNewConn` and `HandleConn` do with the connection they have made. -/
def attach (c : Conn) : List Stmt :=
  match c.closeFn with
  | .server sv => [.runInLoop c.loop (.onAttachedToLoop c), .insert sv c]
  | .client k => [.setConn k c, .call (.onAttachedToLoop c)]

/-- What `Run` does after it has written `tid_`. -/
def afterTid (l : LoopId) : List Stmt := [.setRunning l, .ioRun l]

/-- `AsyncAccept`: the socket and the loop come from the pool in rotation, or are the
server's own. A pool without threads has no socket to give. -/
def asyncAccept (s : System) (sv : Server) : Option System :=
  if 0 < sv.threadNum then
    let p := s.pool sv.id
    (p.threads[p.next.toNat % p.threads.length]?).map fun w =>
      (s.setPool sv { p with next := p.next + 1 }).queueInLoop sv.acceptor
        (.acceptHandler sv w.acceptSocket w.evLoop)
  else
    some (s.queueInLoop sv.acceptor (.acceptHandler sv sv.acceptSocket sv.loop))

/-- A statement of thread `X`, which has been taken off its stack. -/
def exec (s : System) (X : ThreadId) (b : Nat) : Stmt → Option System
  | .assertInLoop site l =>
    some { s with asserted := s.asserted ++ [⟨site, X, (s.loop l).tid, (s.loop l).running⟩] }
  | .call f => some (s.callFn X b f)
  | .ifInLoop l f g => some (s.callFn X b (if (s.loop l).tid = X then f else g))
  | .runInLoop l f =>
    some (if (s.loop l).tid = X then s.callFn X b f else s.queueInLoop l f)
  | .queueInLoop l f => some (s.queueInLoop l f)
  | .callback => some (s.push X .user)
  | .throws => s.raise X (s.stack X)
  | .setTid l =>
    some ((s.setLoop l { s.loop l with tid := X, runner := some X }).push X (.code (afterTid l)))
  | .setRunning l => some (s.setLoop l { s.loop l with running := true })
  | .ioRun l => some (s.push X (.ioRun l))
  | .startThread sv =>
    some (((s.newLoop X).spawn (.code [.call (.run s.loops)])).push X
      (.code [.awaitRunning sv ⟨s.loops, s.loops⟩]))
  | .awaitRunning sv w =>
    let p := s.pool sv.id
    if (s.loop w.evLoop).running then some (s.setPool sv { p with threads := p.threads ++ [w] })
    else none
  | .accept sv => s.asyncAccept sv
  | .newConn loop socket owner =>
    let c := s.makeConn loop socket owner
    some ((s.addConn c).push X (.code (attach c)))
  | .insert sv c =>
    let cs := (s.connMap sv.id).filter fun d => d.name ≠ c.name
    some { s with connMap := Function.update s.connMap sv.id (c :: cs) }
  | .erase sv c =>
    let cs := (s.connMap sv.id).filter fun d => d.name ≠ c.name
    some { s with connMap := Function.update s.connMap sv.id cs }
  | .setConn k c => some { s with conn := Function.update s.conn k.id (some c) }
  | .resetConn k => some { s with conn := Function.update s.conn k.id none }

/-- The thread executes code of the application. -/
def inUser (s : System) (X : ThreadId) : Bool :=
  match s.stack X with
  | .user :: _ => true
  | _ => false

/-- The calls that the application can make: public functions of objects that there are. -/
def offers (s : System) : Fn → Bool
  | .close c | .send c | .onAttachedToLoop c => c ∈ s.conns
  | .start sv | .stop sv | .stopInLoop sv => sv ∈ s.servers
  | .removeConn sv c => sv ∈ s.servers ∧ c ∈ s.conns
  | .connect k | .disconnect k => k ∈ s.clients
  | .run l | .loopStop l | .runUser l | .queueUser l => l < s.loops
  | _ => false

def step (s : System) : Event → Option System
  | .thread => some (s.spawn .user)
  | .loop X => if s.inUser X then some (s.newLoop X) else none
  | .server X name l n =>
    if s.inUser X ∧ l < s.loops then
      some { s with servers := s.servers ++ [⟨s.servers.length, name, l, l, l, n⟩] }
    else none
  | .client X name l =>
    if s.inUser X ∧ l < s.loops then
      some { s with clients := s.clients ++ [⟨s.clients.length, name, l, l, l⟩] }
    else none
  | .call X f b => if s.inUser X ∧ s.offers f then some (s.callFn X b f) else none
  | .ret X =>
    match s.stack X with
    | .user :: frs => some (s.setStack X frs)
    | _ => none
  | .throw X =>
    match s.stack X with
    | .user :: frs => s.raise X frs
    | .code _ :: frs => s.raise X frs
    | _ => none
  | .step X b =>
    match s.stack X with
    | .code (st :: sts) :: frs => (s.setStack X (.code sts :: frs)).exec X b st
    | .code [] :: frs => some (s.setStack X frs)
    | _ => none
  | .execute X j b =>
    match s.stack X with
    | .ioRun l :: _ =>
      ((s.loop l).tasks[j]?).map fun f =>
        (s.setLoop l { s.loop l with tasks := (s.loop l).tasks.eraseIdx j }).callFn X b f
    | _ => none

-- ════════════════════════════════════════════════════════════════════════
-- How the application uses the loops
-- ════════════════════════════════════════════════════════════════════════

/-- The thread and the loop whose `Run` it enters with this step. -/
def entering (s : System) : Event → Option (ThreadId × LoopId)
  | .step X _ =>
    match s.stack X with
    | .code (.setTid l :: _) :: _ => some (X, l)
    | _ => none
  | _ => none

/-- The thread and the connection whose `OnAttachedToLoop` the application calls. -/
def attaching : Event → Option (ThreadId × Conn)
  | .call X (.onAttachedToLoop c) _ => some (X, c)
  | _ => none

/-- The `Run` of a loop is entered by one thread only. -/
def OneRunner (s : System) (e : Event) : Prop :=
  ∀ p ∈ s.entering e, ∀ Y ∈ (s.loop p.2).runner, Y = p.1

/-- An `IsInLoopThread()` of the loop has let the thread into a function, whose assertion
is still to come. -/
def asserting (s : System) (X : ThreadId) (l : LoopId) : Bool := (s.stack X).any (Frame.asserts l)

/-- No thread enters `Run` while another is about to assert that it is the loop's thread. -/
def Undisturbed (s : System) (e : Event) : Prop :=
  ∀ p ∈ s.entering e, ∀ Y < s.threads.length, Y ≠ p.1 → s.asserting Y p.2 = false

/-- The application calls `OnAttachedToLoop` in the loop's thread only. -/
def AttachesInLoop (s : System) (e : Event) : Prop :=
  ∀ p ∈ attaching e, (s.loop p.2.loop).tid = p.1

instance (s : System) (e : Event) : Decidable (s.OneRunner e) :=
  inferInstanceAs (Decidable (∀ p ∈ s.entering e, ∀ Y ∈ (s.loop p.2).runner, Y = p.1))

instance (s : System) (e : Event) : Decidable (s.Undisturbed e) :=
  inferInstanceAs (Decidable (∀ p ∈ s.entering e, ∀ Y < s.threads.length, Y ≠ p.1 →
    s.asserting Y p.2 = false))

instance (s : System) (e : Event) : Decidable (s.AttachesInLoop e) :=
  inferInstanceAs (Decidable (∀ p ∈ attaching e, (s.loop p.2.loop).tid = p.1))

end System

end Libasio.Threads
