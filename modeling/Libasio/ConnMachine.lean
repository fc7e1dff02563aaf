import Libasio.TcpConn
import Libasio.Transition

/-!
# Runs of one connection

The connection, its loop and the operating system as one machine: user code
and other threads call member functions, asio completes operations, and the
loop runs the handlers and the posted functors of the connection.

## Main definitions

- `TcpConn.Event`, `TcpConn.step` — what can happen next, and its effect
- `TcpConn.handedOver` — a connection whose `OnAttachedToLoop` is posted
- `TcpConn.armed`, `TcpConn.writeFails` — the two ways in which the close
  sequence is still to come

## Design notes

The loop starts a handler only when no other one is suspended. Handlers of
completed operations run in any order; posted functors run in posting order.
-/

namespace Libasio

/-- What asio can deliver for a read in flight: data that fits and is not
empty, end of file, or another error. -/
def ReadResult.fits (room : Nat) : ReadResult → Bool
  | .ok data => decide (0 < data.length ∧ data.length ≤ room)
  | .eof => true
  | .error => true

def WriteResult.fits (region : Bytes) : WriteResult → Bool
  | .ok n => decide (n ≤ region.length)
  | .error => true

namespace TcpConn

/-- What a message callback does to `recv_buffer_`: `ReadBytes(k)`, followed or
not by `Normalize()`, or anything else. -/
inductive Edit
  | consume (k : Nat) (normalize : Bool)
  | custom (f : ByteBuffer → ByteBuffer)

def Edit.apply (b : ByteBuffer) : Edit → ByteBuffer
  | .consume k normalize => if normalize then (b.readBytes k).normalize else b.readBytes k
  | .custom f => f b

/-- One atomic step. `send`, `close` and the setters are calls by user code or
by the owner, also from inside a callback; `editRecv` comes from inside a
message callback. -/
inductive Event
  | send (inLoop : Bool) (data : Bytes)
  | close
  | setConnCallback (cb : Option Callback)
  | setMessageCallback (cb : Option Callback)
  | setHighWaterMarkCallback (cb : Option Callback) (mark : Nat)
  | setCloseCallback (cb : Option CloseCallback)
  | editRecv (edit : Edit)
  | readReady (r : ReadResult)
  | writeReady (r : WriteResult)
  | runPosted
  | handleRead
  | handleWrite
  | resume
  | throw

/-- The loop is free to start a handler of the connection. -/
def idle (c : TcpConn) : Bool := c.frame.isNone && !c.escaped

/-- The system call behind a read in flight delivers a result. -/
def readReady (c : TcpConn) (r : ReadResult) : Option TcpConn :=
  match c.reading with
  | some ⟨room, none⟩ => if r.fits room then some { c with reading := some ⟨room, some r⟩ } else none
  | _ => none

def writeReady (c : TcpConn) (r : WriteResult) : Option TcpConn :=
  match c.writing with
  | some ⟨region, none⟩ =>
    if r.fits region then some { c with writing := some ⟨region, some r⟩ } else none
  | _ => none

/-- The loop runs the first functor posted for the connection. -/
def runPosted (c : TcpConn) : Option TcpConn :=
  match c.posted with
  | [] => none
  | f :: fs => if c.idle then some ({ c with posted := fs }.runFunctor f) else none

/-- The loop runs the handler of a read that has completed. -/
def startRead (c : TcpConn) : Option TcpConn :=
  match c.reading with
  | some ⟨_, some r⟩ =>
    if c.idle then some ((({ c with reading := none }).emit (.handleRead r)).handleRead r) else none
  | _ => none

def startWrite (c : TcpConn) : Option TcpConn :=
  match c.writing with
  | some ⟨region, some r⟩ =>
    if c.idle then
      some ((({ c with writing := none }).emit (.handleWrite region r)).handleWrite r)
    else none
  | _ => none

def step (c : TcpConn) : Event → Option TcpConn
  | .send inLoop data => some (c.send inLoop data)
  | .close => some c.close
  | .setConnCallback cb => some (c.setConnCallback cb)
  | .setMessageCallback cb => some (c.setMessageCallback cb)
  | .setHighWaterMarkCallback cb mark => some (c.setHighWaterMarkCallback cb mark)
  | .setCloseCallback cb => some (c.setCloseCallback cb)
  | .editRecv edit =>
    if c.frame = some .message then some { c with recvBuffer := edit.apply c.recvBuffer } else none
  | .readReady r => c.readReady r
  | .writeReady r => c.writeReady r
  | .runPosted => c.runPosted
  | .handleRead => c.startRead
  | .handleWrite => c.startWrite
  | .resume => c.frame.map c.resume
  | .throw => c.frame.map fun _ => c.throw

theorem readReady_cases {c c' : TcpConn} {r : ReadResult} (h : c.readReady r = some c') :
    ∃ room, c.reading = some ⟨room, none⟩ ∧ r.fits room = true ∧
      c' = { c with reading := some ⟨room, some r⟩ } := by
  unfold readReady at h
  split at h
  · next room hr =>
    obtain ⟨hfits, ⟨⟩⟩ := Option.ite_none_right_eq_some.mp h
    exact ⟨room, hr, hfits, rfl⟩
  · cases h

theorem step_readReady {c : TcpConn} {room : Nat} {r : ReadResult}
    (hr : c.reading = some ⟨room, none⟩) (hf : r.fits room = true) :
    c.step (.readReady r) = some { c with reading := some ⟨room, some r⟩ } := by
  simp only [step, readReady, hr, hf, if_true]

theorem step_handleRead {c : TcpConn} {room : Nat} {r : ReadResult}
    (hr : c.reading = some ⟨room, some r⟩) (hi : c.idle = true) :
    c.step .handleRead = some ((({ c with reading := none }).emit (.handleRead r)).handleRead r) := by
  simp only [step, startRead, hr, hi, if_true]

theorem writeReady_cases {c c' : TcpConn} {r : WriteResult} (h : c.writeReady r = some c') :
    ∃ region, c.writing = some ⟨region, none⟩ ∧ r.fits region = true ∧
      c' = { c with writing := some ⟨region, some r⟩ } := by
  unfold writeReady at h
  split at h
  · next region hw =>
    obtain ⟨hfits, ⟨⟩⟩ := Option.ite_none_right_eq_some.mp h
    exact ⟨region, hw, hfits, rfl⟩
  · cases h

theorem step_writeReady {c : TcpConn} {region : Bytes} {r : WriteResult}
    (hw : c.writing = some ⟨region, none⟩) (hf : r.fits region = true) :
    c.step (.writeReady r) = some { c with writing := some ⟨region, some r⟩ } := by
  simp only [step, writeReady, hw, hf, if_true]

theorem runPosted_cases {c c' : TcpConn} (h : c.runPosted = some c') :
    ∃ f fs, c.posted = f :: fs ∧ c.idle = true ∧ c' = { c with posted := fs }.runFunctor f := by
  unfold runPosted at h
  split at h
  · cases h
  · next f fs hp =>
    obtain ⟨hidle, ⟨⟩⟩ := Option.ite_none_right_eq_some.mp h
    exact ⟨f, fs, hp, hidle, rfl⟩

theorem startRead_cases {c c' : TcpConn} (h : c.startRead = some c') :
    ∃ room r, c.reading = some ⟨room, some r⟩ ∧ c.idle = true ∧ c' =
      ({ c with reading := none, trace := c.trace ++ [.handleRead r] } : TcpConn).handleRead r := by
  unfold startRead at h
  split at h
  · next room r hr =>
    obtain ⟨hidle, ⟨⟩⟩ := Option.ite_none_right_eq_some.mp h
    exact ⟨room, r, hr, hidle, rfl⟩
  · cases h

theorem startWrite_cases {c c' : TcpConn} (h : c.startWrite = some c') :
    ∃ region r, c.writing = some ⟨region, some r⟩ ∧ c.idle = true ∧ c' =
      ({ c with writing := none, trace := c.trace ++ [.handleWrite region r] } :
        TcpConn).handleWrite r := by
  unfold startWrite at h
  split at h
  · next region r hw =>
    obtain ⟨hidle, ⟨⟩⟩ := Option.ite_none_right_eq_some.mp h
    exact ⟨region, r, hw, hidle, rfl⟩
  · cases h

/-- A connection as its owner hands it to the loop: callbacks copied in,
`OnAttachedToLoop` the only functor posted. -/
def handedOver (name : String) (type : ConnType) (connFn msgFn : Option Callback)
    (closeFn : CloseCallback) : TcpConn :=
  { create name with
    type := type, connFn := connFn, msgFn := msgFn, closeFn := some closeFn,
    posted := [.onAttachedToLoop] }

/-- The initial states of a connection. -/
def Initial (c : TcpConn) : Prop :=
  ∃ name type connFn msgFn closeFn, c = handedOver name type connFn msgFn closeFn

/-- `OnAttachedToLoop` has been run. -/
def Attached (c : TcpConn) : Prop := .onAttachedToLoop ∉ c.posted

/-- A read is outstanding, or the handler that is suspended will issue one. -/
def armed (c : TcpConn) : Bool :=
  c.reading.isSome || c.frame == some .attached || c.frame == some .message

/-- A write is outstanding that has not drained both buffers: on a closed
socket it, or the write that follows it, ends in an error. -/
def writeFails (c : TcpConn) : Bool :=
  match c.writing with
  | none => false
  | some ⟨region, some (.ok n)⟩ => decide (n < region.length ∨ 0 < c.writeBuffer.size)
  | some _ => true

/-- The result a started handler was given is an error. -/
def readFailed (c : TcpConn) : Bool :=
  match c.reading with
  | some ⟨_, some .eof⟩ => true
  | some ⟨_, some .error⟩ => true
  | _ => false

def writeFailed (c : TcpConn) : Bool :=
  match c.writing with
  | some ⟨_, some .error⟩ => true
  | _ => false

end TcpConn

end Libasio
