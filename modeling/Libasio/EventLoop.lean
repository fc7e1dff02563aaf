import Libasio.Transition

/-!
# Event loops and their threads

`EventLoop` (`event_loop.h`, `event_loop.cc`), `EventLoopThread` and
`EventLoopThreadPool`: a loop executes the handlers of its queue inside `Run`,
a thread runs one loop, and a pool starts and stops its threads one by one.

## Main definitions

- `EventLoop`, `EventLoop.step` — the loop with the queue of its `io_service`
- `EventLoopThread`, `EventLoopThread.step` — the points at which the body of a
  thread can be
- `EventLoopThreadPool`, `EventLoopThreadPool.step` — the pool with the call of
  `Start` or `Stop` that is under way

## Design notes

`run` of the `io_service` returns only when it has been stopped, since `work_`
keeps it from running out of work. No function of the three classes stops it;
user code can, through the accessor `io_service()` (`EventLoop.Event.ioStop`).
A thread of a pool is constructed, started and put into `threads_` in one step.
The assertions of `Stop` and `Start` are not taken to be checked.
-/

namespace Libasio

/-- The entries of a list that has one more at its end. -/
theorem getElem?_snoc_cases {α : Type} {l : List α} {a b : α} {i : Nat}
    (h : (l ++ [a])[i]? = some b) : l[i]? = some b ∨ (i = l.length ∧ b = a) := by
  rw [List.getElem?_append] at h
  split at h
  · exact .inl h
  · next hlt =>
    obtain ⟨hi, rfl⟩ := List.getElem?_eq_some_iff.mp h
    rw [List.length_singleton] at hi
    exact .inr ⟨by omega, by simp⟩

/-- What the queue of a loop holds. -/
inductive Handler
  | stopInLoop          -- bound by `EventLoop::Stop`
  | other (id : Nat)    -- any other handler or functor
  deriving DecidableEq

structure EventLoop where
  running : Bool
  /-- the stopped state of `io_service_` -/
  stopped : Bool
  /-- handlers that are ready to run, in order -/
  queue : List Handler
  /-- a thread is inside `io_service_.run` -/
  inside : Bool
  /-- `tid_` is the thread of `Run`, no longer that of the constructor -/
  entered : Bool
  /-- the handlers executed so far -/
  executed : List Handler
  deriving DecidableEq

namespace EventLoop

def new : EventLoop where
  running := false
  stopped := false
  queue := []
  inside := false
  entered := false
  executed := []

/-- `StopInLoop`: asks `io_service_.stopped()`, and drops the answer. -/
def stopInLoop (l : EventLoop) : EventLoop :=
  let _ := l.stopped
  l

/-- Execute a handler. What other handlers post are steps of their own. -/
def call (l : EventLoop) : Handler → EventLoop
  | .stopInLoop => { l.stopInLoop with executed := l.executed ++ [.stopInLoop] }
  | .other id => { l with executed := l.executed ++ [.other id] }

def queueInLoop (l : EventLoop) (h : Handler) : EventLoop := { l with queue := l.queue ++ [h] }

def runInLoop (l : EventLoop) (inLoop : Bool) (h : Handler) : EventLoop :=
  if inLoop then l.call h else l.queueInLoop h

def stop (l : EventLoop) (inLoop : Bool) : EventLoop := l.runInLoop inLoop .stopInLoop

inductive Event
  | run                        -- a thread enters `Run`
  | post (h : Handler)         -- by any thread, or by asio
  | stop (inLoop : Bool)
  | execute (throws : Bool)    -- the first handler of the queue
  | ret                        -- `io_service_.run` returns, and with it `Run`
  | ioStop                     -- user code calls `io_service().stop()`
  deriving DecidableEq

def step (l : EventLoop) : Event → Option EventLoop
  | .run =>
    if l.inside then none else some { l with entered := true, running := true, inside := true }
  | .post h => some (l.queueInLoop h)
  | .stop inLoop => some (l.stop inLoop)
  | .execute throws =>
    match l.queue with
    | [] => none
    | h :: hs =>
      if l.inside ∧ ¬l.stopped ∧ (throws → h ≠ .stopInLoop) then
        let l := { l with queue := hs }.call h
        -- an exception leaves `Run` before `running_` is reset
        some (if throws then { l with inside := false } else l)
      else none
  | .ret =>
    if l.inside ∧ l.stopped then some { l with inside := false, running := false } else none
  | .ioStop => some { l with stopped := true }

end EventLoop

inductive ThreadStatus
  | kRunning | kStopping | kStopped
  deriving DecidableEq

/-- Where the body of a thread, `EventLoopThread::Run`, is. -/
inductive RunPoint
  | spawned      -- before its first statement
  | pre          -- in the functor `pre`
  | looping      -- in `ev_loop_->Run()`
  | post         -- in the functor `post`
  | reset        -- after `ev_loop_.reset()`
  | done
  | terminated   -- an exception has left the thread
  deriving DecidableEq

structure EventLoopThread where
  loop : Option EventLoop
  status : ThreadStatus
  point : RunPoint
  deriving DecidableEq

namespace EventLoopThread

/-- A new object after `Start`. -/
def start : EventLoopThread := ⟨some .new, .kStopped, .spawned⟩

def isStopped (t : EventLoopThread) : Bool := t.status = .kStopped

/-- `IsRunning`; `none` when it reads through an empty `ev_loop_`. -/
def isRunning (t : EventLoopThread) : Option Bool := t.loop.map EventLoop.running

/-- `Stop` up to its wait. The functor is called at once by the thread that
constructed the loop, as long as `Run` has not set `tid_`. -/
def stop (t : EventLoopThread) (byCreator : Bool) : Option EventLoopThread :=
  t.loop.map fun l =>
    { t with status := .kStopping, loop := some (l.stop (byCreator && !l.entered)) }

inductive Event
  | begin                        -- the thread sets `kRunning`
  | run                          -- `pre` returns
  | loop (e : EventLoop.Event)
  | reset                        -- `post` returns
  | finish                       -- the thread sets `kStopped`
  deriving DecidableEq

/-- The steps that the thread takes itself. -/
def Event.isOwn : Event → Bool
  | .loop (.execute _) | .loop .ret => true
  | .loop _ => false
  | _ => true

/-- Where the thread is after its loop has made a step. -/
def pointAfter (p : RunPoint) : EventLoop.Event → RunPoint
  | .ret => .post
  | .execute true => .terminated
  | _ => p

def step (t : EventLoopThread) : Event → Option EventLoopThread
  | .begin => if t.point = .spawned then some { t with status := .kRunning, point := .pre } else none
  | .run =>
    if t.point = .pre then
      (t.loop.bind fun l => l.step .run).map fun l => { t with loop := some l, point := .looping }
    else none
  | .loop .run => none
  | .loop e =>
    (t.loop.bind fun l => l.step e).map fun l =>
      { t with loop := some l, point := pointAfter t.point e }
  | .reset => if t.point = .post then some { t with loop := none, point := .reset } else none
  | .finish =>
    if t.point = .reset then some { t with status := .kStopped, point := .done } else none

/-- What happens to a thread: its steps, and calls of `Stop`. -/
inductive Call
  | stop (byCreator : Bool)
  | step (e : Event)
  deriving DecidableEq

def use (t : EventLoopThread) : Call → Option EventLoopThread
  | .stop byCreator => t.stop byCreator
  | .step e => t.step e

end EventLoopThread

/-- Where a call of `Start` or `Stop` on the pool is. -/
inductive PoolCall
  | start (wait : Bool) (i : Nat)   -- before the round `i` of `Start`
  | starting (i : Nat)              -- waits for the thread of round `i` to run
  | stop (wait : Bool) (i : Nat)    -- before the round `i` of `Stop`
  | stopping (i : Nat)              -- waits in `threads_[i]->Stop(true)`
  | stopped                         -- waits until `IsStopped()`
  deriving DecidableEq

structure EventLoopThreadPool where
  started : Bool
  threadNum : Nat
  /-- `next_`, as the `int64_t` it is -/
  next : BitVec 64
  threads : List EventLoopThread
  call : Option PoolCall
  /-- an access out of the range of `threads_`, or through an empty `ev_loop_` -/
  undefined : Bool
  deriving DecidableEq

namespace EventLoopThreadPool

def create (threadNum : Nat) : EventLoopThreadPool where
  started := false
  threadNum := threadNum
  next := 0
  threads := []
  call := none
  undefined := false

/-- Test the threads in order until one fails the test; `none` when the test or
the access to a thread is undefined. -/
def scan (test : EventLoopThread → Option Bool) : List (Option EventLoopThread) → Option Bool
  | [] => some true
  | none :: _ => none
  | some t :: ts =>
    match test t with
    | some true => scan test ts
    | r => r

/-- `threads_[i]` for `i < thread_num_`. -/
def slots (p : EventLoopThreadPool) : List (Option EventLoopThread) :=
  (List.range p.threadNum).map fun i => p.threads[i]?

def isRunning (p : EventLoopThreadPool) : Option Bool :=
  if p.started then scan EventLoopThread.isRunning p.slots else some false

def isStopped (p : EventLoopThreadPool) : Option Bool :=
  if p.threadNum = 0 then some (!p.started) else scan (fun t => some t.isStopped) p.slots

/-- `GetNextLoop` and `GetSocketForAccept`: the number of a thread, or none for
`ev_loop_`. -/
def getNext (p : EventLoopThreadPool) : Option Nat × EventLoopThreadPool :=
  if p.threads.isEmpty then (none, p)
  else (some (p.next.toNat % p.threads.length), { p with next := p.next + 1 })

/-- The caller of `Start` or `Stop` goes on; `none` while it has to wait. -/
def advance (p : EventLoopThreadPool) (byCreator : Bool) : Option EventLoopThreadPool :=
  match p.call with
  | none => none
  | some (.start wait i) =>
    if i < p.threadNum then
      some { p with
        threads := p.threads ++ [.start]
        call := some (if wait then .starting i else .start wait (i + 1)) }
    else some { p with started := true, call := none }
  | some (.starting i) =>
    match p.threads.getLast?.bind EventLoopThread.isRunning with
    | some true => some { p with call := some (.start true (i + 1)) }
    | some false => none
    | none => some { p with undefined := true }
  | some (.stop wait i) =>
    if i < p.threadNum then
      match p.threads[i]?.bind fun t => t.stop byCreator with
      | some t => some { p with
          threads := p.threads.set i t
          call := some (if wait then .stopping i else .stop wait (i + 1)) }
      | none => some { p with undefined := true }
    else if 0 < p.threadNum ∧ wait then some { p with call := some .stopped }
    else some { p with started := false, call := none }
  | some (.stopping i) =>
    match p.threads[i]? with
    | some t => if t.isStopped then some { p with call := some (.stop true (i + 1)) } else none
    | none => some { p with undefined := true }
  | some .stopped =>
    match p.isStopped with
    | some true => some { p with started := false, call := none }
    | some false => none
    | none => some { p with undefined := true }

inductive Event
  | start (wait : Bool)
  | stop (wait : Bool)
  | advance (byCreator : Bool)
  | getNext
  | thread (i : Nat) (e : EventLoopThread.Event)
  deriving DecidableEq

def step (p : EventLoopThreadPool) (e : Event) : Option EventLoopThreadPool :=
  if p.undefined then none
  else
    match e with
    | .start wait =>
      if p.call ≠ none then none
      else if p.started then some p
      else some { p with call := some (.start wait 0) }
    | .stop wait => if p.call ≠ none then none else some { p with call := some (.stop wait 0) }
    | .advance byCreator => p.advance byCreator
    | .getNext => some p.getNext.2
    | .thread i e =>
      (p.threads[i]?.bind fun t => t.step e).map fun t => { p with threads := p.threads.set i t }

end EventLoopThreadPool

end Libasio
