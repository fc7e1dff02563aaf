import Libasio.ByteBuffer

/-!
# A connection

`TCPConn` (`tcp_conn.h`, `tcp_conn.cc`) with the asynchronous operations that
asio holds for it. User code runs while a handler of the connection is
suspended in one of its callbacks; `Frame` says at which call the handler
waits, and `TcpConn.resume` is the rest of the handler.

## Main definitions

- `TcpConn` — the object, its outstanding read and write, the functors posted
  to its loop for it, and the trace of what it did
- `TcpConn.sendInLoop`, `handleRead`, `handleWrite`, `handleClose`, ... — the
  member functions

## Design notes

An operation stays outstanding until its handler starts: `result = none` while
it is in flight, `some r` once asio has queued the handler with `r`. Closing
the socket turns the operations in flight into failed ones; one that had
already succeeded keeps its result.
-/

namespace Libasio

inductive Status
  | kDisconnected | kConnecting | kConnected | kDisconnecting
  deriving DecidableEq

/-- `TCPConn::Type`. -/
inductive ConnType
  | kIncoming | kOutgoing
  deriving DecidableEq

/-- The identity of a user function stored in a `std::function`. -/
abbrev Callback := Nat

/-- What an owner binds as close callback. -/
inductive CloseCallback
  | removeConn | onRemoveConn
  deriving DecidableEq

inductive ReadResult
  | ok (data : Bytes) | eof | error
  deriving DecidableEq

inductive WriteResult
  | ok (n : Nat) | error
  deriving DecidableEq

/-- `async_read_some` into `room` bytes. -/
structure ReadOp where
  room : Nat
  result : Option ReadResult
  deriving DecidableEq

/-- `async_write_some` of a region. -/
structure WriteOp where
  region : Bytes
  result : Option WriteResult
  deriving DecidableEq

/-- Functors posted to the loop of the connection. -/
inductive Functor
  | onAttachedToLoop | closeSocket | sendStringInLoop (message : Bytes)
  deriving DecidableEq

/-- The callback in which a handler of the connection is suspended. -/
inductive Frame
  | attached   -- `conn_fn_`, called by `OnAttachedToLoop`
  | message    -- `msg_fn_`, called by `HandleRead`
  | closing    -- `conn_fn_`, called by `HandleClose`
  | removing   -- `close_fn_`, called by `HandleClose`
  deriving DecidableEq

/-- What a connection is seen to do, in order. -/
inductive Obs
  | sendInLoop (data : Bytes) (isOpen : Bool)
  | asyncRead (room : Nat)
  | asyncWrite (region : Bytes)
  | handleRead (r : ReadResult)
  | handleWrite (region : Bytes) (r : WriteResult)
  | connFn (f : Callback) (s : Status)
  | msgFn (f : Callback)
  | closeFn (f : CloseCallback)
  | highWaterMarkFn (f : Callback) (bufferSize : Nat)
  deriving DecidableEq

structure TcpConn where
  type : ConnType
  status : Status
  name : String
  /-- `socket_.is_open()` -/
  isOpen : Bool
  recvBuffer : ByteBuffer
  asyncWriting : Bool
  writeBuffer : ByteBuffer
  writingBuffer : ByteBuffer
  highWaterMark : Nat
  connFn : Option Callback
  msgFn : Option Callback
  highWaterMarkFn : Option Callback
  closeFn : Option CloseCallback
  reading : Option ReadOp
  writing : Option WriteOp
  posted : List Functor
  frame : Option Frame
  /-- an exception has left a handler of the connection -/
  escaped : Bool
  trace : List Obs
  deriving DecidableEq

/-- A socket handed to the constructor; `hasPeer` once it is connected and the
peer has not reset the connection yet. -/
structure Socket where
  isOpen : Bool
  hasPeer : Bool
  deriving DecidableEq

def ReadOp.abort (op : ReadOp) : ReadOp := { op with result := op.result.or (some .error) }

def WriteOp.abort (op : WriteOp) : WriteOp := { op with result := op.result.or (some .error) }

open ByteBuffer

namespace TcpConn

/-- The object that the constructor leaves behind. -/
def create (name : String) : TcpConn where
  type := .kIncoming
  status := .kDisconnected
  name := name
  isOpen := true
  recvBuffer := .new
  asyncWriting := false
  writeBuffer := .new
  writingBuffer := .new
  highWaterMark := 32 * 1024 * 1024
  connFn := none
  msgFn := none
  highWaterMarkFn := none
  closeFn := none
  reading := none
  writing := none
  posted := []
  frame := none
  escaped := false
  trace := []

/-- `TCPConn(loop, socket, name)`; `none` when `local_endpoint()` or
`remote_endpoint()` throws. -/
def ctor (socket : Socket) (name : String) : Option TcpConn :=
  if socket.isOpen ∧ socket.hasPeer then some (create name) else none

def emit (c : TcpConn) (o : Obs) : TcpConn := { c with trace := c.trace ++ [o] }

/-- An exception leaves the running handler, and with it `io_service::run`. -/
def throw (c : TcpConn) : TcpConn := { c with frame := none, escaped := true }

def setConnCallback (c : TcpConn) (cb : Option Callback) : TcpConn := { c with connFn := cb }

def setMessageCallback (c : TcpConn) (cb : Option Callback) : TcpConn := { c with msgFn := cb }

def setHighWaterMarkCallback (c : TcpConn) (cb : Option Callback) (mark : Nat) : TcpConn :=
  { c with highWaterMarkFn := cb, highWaterMark := mark }

def setCloseCallback (c : TcpConn) (cb : Option CloseCallback) : TcpConn := { c with closeFn := cb }

def post (c : TcpConn) (f : Functor) : TcpConn := { c with posted := c.posted ++ [f] }

/-- `socket_.close(ec)`: operations in flight will complete with an error. -/
def closeSocket (c : TcpConn) : TcpConn :=
  { c with isOpen := false, reading := c.reading.map .abort, writing := c.writing.map .abort }

def close (c : TcpConn) : TcpConn := { c with status := .kDisconnecting }.post .closeSocket

/-- `AsyncRead`. A read into an empty region completes at once, with success;
on a closed socket any other read fails. -/
def asyncRead (c : TcpConn) : TcpConn :=
  let room := c.recvBuffer.validSize
  let result : Option ReadResult :=
    if room = 0 then some (.ok []) else if c.isOpen then none else some .error
  { c with reading := some ⟨room, result⟩ }.emit (.asyncRead room)

def asyncWrite (c : TcpConn) : TcpConn :=
  if c.asyncWriting ∨ c.writingBuffer.size ≤ 0 then c
  else
    let region := c.writingBuffer.readable
    { c with
      asyncWriting := true
      writing := some ⟨region, if c.isOpen then none else some .error⟩ }.emit (.asyncWrite region)

/-- `writing_buffer_.Swap(write_buffer_)`. -/
def swapBuffers (c : TcpConn) : TcpConn :=
  let (writingBuffer, writeBuffer) := c.writingBuffer.swap c.writeBuffer
  { c with writingBuffer := writingBuffer, writeBuffer := writeBuffer }

/-- `SendInLoop`. The high-water callback is the last thing it calls, so what
that callback does to the connection comes next in the run. -/
def sendInLoop (c : TcpConn) (data : Bytes) : TcpConn :=
  let c := c.emit (.sendInLoop data c.isOpen)
  if ¬c.isOpen then c
  else if ¬c.asyncWriting then
    let c := if 0 < c.writeBuffer.size then c.swapBuffers else c
    { c with writingBuffer := c.writingBuffer.write data }.asyncWrite
  else
    let c := { c with writeBuffer := c.writeBuffer.write data }
    let bufferSize := c.writeBuffer.size + c.writingBuffer.size
    if c.highWaterMark < bufferSize then
      match c.highWaterMarkFn with
      | some f => c.emit (.highWaterMarkFn f bufferSize)
      | none => c
    else c

/-- Both overloads of `Send`; outside the loop thread the data is copied and posted. -/
def send (c : TcpConn) (inLoop : Bool) (data : Bytes) : TcpConn :=
  if inLoop then c.sendInLoop data else c.post (.sendStringInLoop data)

/-- `HandleClose` from the call of `close_fn_` on. -/
def callCloseFn (c : TcpConn) : TcpConn :=
  match c.closeFn with
  | some f => { c with frame := some .removing }.emit (.closeFn f)
  | none => { c with status := .kDisconnected, frame := none }

def handleClose (c : TcpConn) : TcpConn :=
  if c.status = .kDisconnected then c
  else
    let c := { c.closeSocket with status := .kDisconnecting }
    match c.connFn with
    | some f => { c with frame := some .closing }.emit (.connFn f c.status)
    | none => c.callCloseFn

def handleError (c : TcpConn) : TcpConn := { c with status := .kDisconnecting }.handleClose

/-- `OnAttachedToLoop` up to `conn_fn_`, which is called without a test. -/
def onAttachedToLoop (c : TcpConn) : TcpConn :=
  let c := { c with status := .kConnected }
  match c.connFn with
  | some f => { c with frame := some .attached }.emit (.connFn f c.status)
  | none => c.throw

/-- `HandleRead` up to `msg_fn_`, which is called without a test. The bytes
read are already behind `WriteBegin()` when it starts. -/
def handleRead (c : TcpConn) : ReadResult → TcpConn
  | .eof => { c with status := .kDisconnecting }.handleClose
  | .error => c.handleError
  | .ok data =>
    let c := { c with recvBuffer := (c.recvBuffer.copyIn data).writeBytes data.length }
    match c.msgFn with
    | some f => { c with frame := some .message }.emit (.msgFn f)
    | none => c.throw

def handleWrite (c : TcpConn) (r : WriteResult) : TcpConn :=
  let c := { c with asyncWriting := false }
  match r with
  | .error => c.handleError
  | .ok n =>
    let c := { c with writingBuffer := c.writingBuffer.readBytes n }
    if 0 < c.writingBuffer.size then c.asyncWrite
    else if 0 < c.writeBuffer.size then c.swapBuffers.asyncWrite
    else c

/-- The rest of a handler, once the callback it waits in has returned. -/
def resume (c : TcpConn) : Frame → TcpConn
  | .attached => { c with frame := none }.asyncRead
  | .message => { c with frame := none }.asyncRead
  | .closing => { c with frame := none }.callCloseFn
  | .removing => { c with frame := none, status := .kDisconnected }

/-- Run a posted functor. -/
def runFunctor (c : TcpConn) : Functor → TcpConn
  | .onAttachedToLoop => c.onAttachedToLoop
  | .closeSocket => c.closeSocket
  | .sendStringInLoop message => c.sendInLoop message

-- ════════════════════════════════════════════════════════════════════════
-- What the close sequence can do
-- ════════════════════════════════════════════════════════════════════════

/-- Both callers of `HandleClose` set the status first, so its guard never
returns: the socket is closed and the handler waits in the first callback that
is set. -/
theorem handleError_cases (c : TcpConn) :
    (∃ f, c.connFn = some f ∧ c.handleError = { c.closeSocket with
      status := .kDisconnecting, frame := some .closing,
      trace := c.trace ++ [.connFn f .kDisconnecting] }) ∨
    (∃ f, c.connFn = none ∧ c.closeFn = some f ∧ c.handleError = { c.closeSocket with
      status := .kDisconnecting, frame := some .removing, trace := c.trace ++ [.closeFn f] }) ∨
    (c.connFn = none ∧ c.closeFn = none ∧ c.handleError = { c.closeSocket with
      status := .kDisconnected, frame := none }) := by
  cases hc : c.connFn with
  | some f => exact Or.inl ⟨f, rfl, by simp [handleError, handleClose, closeSocket, hc, emit]⟩
  | none =>
    right
    cases hf : c.closeFn with
    | some f =>
      exact Or.inl ⟨f, rfl, rfl,
        by simp [handleError, handleClose, closeSocket, hc, hf, callCloseFn, emit]⟩
    | none =>
      exact Or.inr ⟨rfl, rfl,
        by simp [handleError, handleClose, closeSocket, hc, hf, callCloseFn]⟩

/-- Whatever it calls, the close sequence closes the socket and changes nothing
else but the status, the frame and the trace. -/
theorem handleError_eq (c : TcpConn) : ∃ status frame tail,
    c.handleError = { c.closeSocket with
      status := status, frame := frame, trace := c.trace ++ tail } ∧
    frame ≠ some .attached ∧ frame ≠ some .message ∧
    ∀ o ∈ tail, (∃ f, o = .connFn f .kDisconnecting) ∨ ∃ f, o = .closeFn f := by
  rcases handleError_cases c with ⟨f, -, he⟩ | ⟨f, -, -, he⟩ | ⟨-, -, he⟩
  · exact ⟨_, _, _, he, by simp, by simp, by simp⟩
  · exact ⟨_, _, _, he, by simp, by simp, by simp⟩
  · exact ⟨.kDisconnected, none, [], by simpa [closeSocket] using he, by simp, by simp, by simp⟩

theorem asyncWrite_cases {c : TcpConn} (hf : c.asyncWriting = false) :
    (c.writingBuffer.size = 0 ∧ c.asyncWrite = c) ∨
    (0 < c.writingBuffer.size ∧ c.asyncWrite = { c with
      asyncWriting := true
      writing := some ⟨c.writingBuffer.readable, if c.isOpen then none else some .error⟩
      trace := c.trace ++ [.asyncWrite c.writingBuffer.readable] }) := by
  simp only [asyncWrite, hf, Bool.false_eq_true, false_or, Nat.le_zero]
  by_cases hz : c.writingBuffer.size = 0
  · exact Or.inl ⟨hz, if_pos hz⟩
  · exact Or.inr ⟨Nat.pos_of_ne_zero hz, if_neg hz⟩

/-- `SendInLoop` drops the payload, or appends it to the first buffer and writes,
or appends it to the second one behind the write in flight. -/
theorem sendInLoop_cases (c : TcpConn) (data : Bytes) :
    (c.isOpen = false ∧
      c.sendInLoop data = { c with trace := c.trace ++ [.sendInLoop data false] }) ∨
    (c.isOpen = true ∧ c.asyncWriting = false ∧ c.sendInLoop data =
      { (if 0 < c.writeBuffer.size then c.swapBuffers else c) with
        writingBuffer :=
          (if 0 < c.writeBuffer.size then c.swapBuffers else c).writingBuffer.write data
        trace := c.trace ++ [Obs.sendInLoop data true] }.asyncWrite) ∨
    (c.isOpen = true ∧ c.asyncWriting = true ∧
      ∃ tail, (tail = [] ∨ ∃ f n, tail = [.highWaterMarkFn f n]) ∧ c.sendInLoop data = { c with
        writeBuffer := c.writeBuffer.write data
        trace := c.trace ++ .sendInLoop data true :: tail }) := by
  cases ho : c.isOpen with
  | false => exact Or.inl ⟨rfl, by simp [sendInLoop, emit, ho]⟩
  | true =>
    right
    cases hf : c.asyncWriting with
    | false =>
      refine Or.inl ⟨rfl, rfl, ?_⟩
      by_cases hz : 0 < c.writeBuffer.size <;>
        simp [sendInLoop, emit, ho, hf, hz, swapBuffers, swap]
    | true =>
      refine Or.inr ⟨rfl, rfl, ?_⟩
      by_cases hm : c.highWaterMark < (c.writeBuffer.write data).size + c.writingBuffer.size
      · cases hfn : c.highWaterMarkFn with
        | none => exact ⟨[], Or.inl rfl, by simp [sendInLoop, emit, ho, hf, hm, hfn]⟩
        | some f =>
          exact ⟨_, Or.inr ⟨f, (c.writeBuffer.write data).size + c.writingBuffer.size, rfl⟩,
            by simp [sendInLoop, emit, ho, hf, hm, hfn]⟩
      · exact ⟨[], Or.inl rfl, by simp [sendInLoop, emit, ho, hf, hm]⟩

end TcpConn

end Libasio
