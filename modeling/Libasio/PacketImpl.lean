import Libasio.Lifecycle
import Libasio.PrefixCode

/-!
# Packets over a connection

`TcpServerImpl` and `TcpClientImpl` send an encoded packet with `SendPkt`, and
install `OnRecvData_` as message callback: it takes everything the buffer holds
and decodes one packet from it. The two classes share this code word for word.
cereal is not part of the repository, `Cereal` stands for what they use of it.

## Main definitions

- `Cereal`, `Cereal.Lawful` — the serializer, and what is assumed of it
- `PacketImpl`, `PacketImpl.step` — one end with its connection
- `PacketImpl.receiveAll` — the successful reads of a list of chunks

## Main results

- `PacketImpl.serves_iff` — an exception leaves a read handler exactly when a
  chunk that starts like a packet does not decode
- `PacketImpl.packets_delivered_iff` — all packets arrive exactly when every
  chunk is one packet
-/

namespace Libasio

open ByteBuffer Transition TcpConn

/-- `cereal_serialize` of a pointer, and `cereal_deserialize_ptr`: `none` when it
throws, `some none` for a null pointer. -/
structure Cereal (P : Type*) where
  serialize : Option P → Bytes
  deserialize : Bytes → Option (Option P)

/-- What is assumed of cereal. -/
structure Cereal.Lawful {P : Type*} (cereal : Cereal P) : Prop where
  head : ∀ p, (cereal.serialize (some p)).head? = some 1
  whole : ∀ p rest, cereal.deserialize (cereal.serialize (some p) ++ rest) = some (some p)
  cut : ∀ p s, s <+: cereal.serialize (some p) → s ≠ cereal.serialize (some p) →
    cereal.deserialize s = none

/-- The encoding of pointers to bytes: an identifier, zero for a null pointer, and
the byte. -/
def byteCereal : Cereal UInt8 where
  serialize
    | none => [0, 0, 0, 0]
    | some b => [1, 0, 0, 128, b]
  deserialize
    | 1 :: 0 :: 0 :: 128 :: b :: _ => some (some b)
    | 0 :: 0 :: 0 :: 0 :: _ => some none
    | _ => none

theorem byteCereal_lawful : byteCereal.Lawful := by
  refine ⟨fun _ => rfl, fun _ _ => rfl, ?_⟩
  rintro p s ⟨t, ht⟩ hne
  rcases s with _ | ⟨a, _ | ⟨b, _ | ⟨c, _ | ⟨d, _ | ⟨e, s⟩⟩⟩⟩⟩
  · rfl
  · cases ht
    rfl
  · cases ht
    rfl
  · cases ht
    rfl
  · cases ht
    rfl
  · have ht' : a = 1 ∧ b = 0 ∧ c = 0 ∧ d = 128 ∧ e = p ∧ s = [] ∧ t = [] := by
      simpa [byteCereal] using ht
    obtain ⟨rfl, rfl, rfl, rfl, rfl, rfl, rfl⟩ := ht'
    exact absurd rfl hne

/-- A connection whose message callback is `OnRecvData_`. -/
structure PacketImpl (P : Type*) where
  conn : TcpConn
  /-- in the current message callback, `OnRecvData_` has called `OnRecvData` or returned -/
  entered : Bool
  /-- the calls of `OnRecvData` -/
  received : List (Option P)

namespace PacketImpl

variable {P : Type*}

/-- `SendPkt`. -/
def sendPkt (cereal : Cereal P) (inLoop : Bool) (pPkt : Option P) : TcpConn.Event :=
  .send inLoop (cereal.serialize pPkt)

/-- The string that `OnRecvData_` assigns, `Size()` bytes from `Data()`. -/
def ss (r : PacketImpl P) : Bytes := r.conn.recvBuffer.storage.take r.conn.recvBuffer.size

/-- `OnRecvData_` up to the call of `OnRecvData`. Of an empty string `ss[0]` is zero. -/
def onRecvData_ (cereal : Cereal P) (r : PacketImpl P) : PacketImpl P :=
  let buffer := r.conn.recvBuffer
  let conn := { r.conn with recvBuffer := (buffer.readBytes buffer.size).normalize }
  if r.ss.headD 0 ≠ 1 then { r with conn := conn, entered := true }
  else
    match cereal.deserialize r.ss with
    | none => { r with conn := conn.throw }
    | some pPkt =>
      { r with conn := conn, entered := true, received := r.received ++ [pPkt] }

inductive Event
  | conn (e : TcpConn.Event)
  | onRecvData_

/-- The message callback has been called and `OnRecvData_` has yet to run. -/
def waits (r : PacketImpl P) : Bool := r.conn.frame == some .message && !r.entered

/-- Steps of a connection that `OnRecvData_` takes the place of. -/
def blocks (r : PacketImpl P) : TcpConn.Event → Bool
  | .editRecv _ => true
  | .resume => r.waits
  | .throw => r.waits
  | _ => false

def step (cereal : Cereal P) (r : PacketImpl P) : Event → Option (PacketImpl P)
  | .conn e =>
    if r.blocks e then none
    else (r.conn.step e).map fun c =>
      { r with conn := c, entered := r.entered && c.frame == some .message }
  | .onRecvData_ => if r.waits then some (r.onRecvData_ cereal) else none

/-- An end as the server or the client sets it up, both callbacks being set. -/
def Initial (r : PacketImpl P) : Prop :=
  (∃ name type connFn msgFn closeFn,
    r.conn = handedOver name type (some connFn) (some msgFn) closeFn) ∧
  r.entered = false ∧ r.received = []

/-- User code throws no exception, and leaves both callbacks set. -/
def Polite (_ : PacketImpl P) (e : Event) (_ : PacketImpl P) : Prop :=
  e ≠ .conn .throw ∧ e ≠ .conn (.setConnCallback none) ∧ e ≠ .conn (.setMessageCallback none)

/-- What starts like a packet decodes. -/
def Parses (cereal : Cereal P) (r : PacketImpl P) (e : Event) : Prop :=
  e = .onRecvData_ → r.ss.headD 0 = 1 → cereal.deserialize r.ss ≠ none

/-- No exception has left a handler, and between handlers an attached connection
is reading, or was closed by `HandleClose` after a failed read. -/
def Serves (r : PacketImpl P) : Prop :=
  r.conn.escaped = false ∧
  (r.conn.Attached → r.conn.frame = none →
    r.conn.reading.isSome = true ∨ (r.conn.isOpen = false ∧ ReadEnded r.conn.trace))

variable {cereal : Cereal P}

/-- The connection once `OnRecvData_` has consumed the buffer. -/
def emptied (r : PacketImpl P) : TcpConn :=
  { r.conn with recvBuffer := (r.conn.recvBuffer.readBytes r.conn.recvBuffer.size).normalize }

/-- `OnRecvData_` ignores the string, fails on it, or delivers one packet. -/
theorem onRecvData_cases (cereal : Cereal P) (r : PacketImpl P) :
    (r.ss.headD 0 ≠ 1 ∧ r.onRecvData_ cereal = { r with conn := r.emptied, entered := true }) ∨
    (r.ss.headD 0 = 1 ∧ cereal.deserialize r.ss = none ∧
      r.onRecvData_ cereal = { r with conn := r.emptied.throw }) ∨
    (∃ pPkt, r.ss.headD 0 = 1 ∧ cereal.deserialize r.ss = some pPkt ∧ r.onRecvData_ cereal =
      { r with conn := r.emptied, entered := true, received := r.received ++ [pPkt] }) := by
  by_cases hh : r.ss.headD 0 = 1
  · right
    cases hd : cereal.deserialize r.ss with
    | none =>
      refine Or.inl ⟨hh, rfl, ?_⟩
      rw [onRecvData_, if_neg (not_not.mpr hh), hd]
      rfl
    | some pPkt =>
      refine Or.inr ⟨pPkt, hh, rfl, ?_⟩
      rw [onRecvData_, if_neg (not_not.mpr hh), hd]
      rfl
  · refine Or.inl ⟨hh, ?_⟩
    rw [onRecvData_, if_pos hh]
    rfl

/-- To the connection, `OnRecvData_` is a callback that consumes everything. -/
theorem step_emptied {r : PacketImpl P} (hf : r.conn.frame = some .message) :
    r.conn.step (.editRecv (.consume r.conn.recvBuffer.size true)) = some r.emptied :=
  if_pos hf

theorem step_emptied_throw {r : PacketImpl P} (hf : r.conn.frame = some .message) :
    r.emptied.step .throw = some r.emptied.throw := by
  have hf' : r.emptied.frame = some .message := hf
  rw [TcpConn.step, hf', Option.map_some]

theorem step_conn {r r' : PacketImpl P} {e : TcpConn.Event} (hc : step cereal r (.conn e) = some r') :
    r.blocks e = false ∧ r.conn.step e = some r'.conn ∧ r'.received = r.received := by
  simp only [step] at hc
  split at hc
  · cases hc
  · next hb =>
    obtain ⟨c, hc', rfl⟩ := Option.map_eq_some_iff.mp hc
    exact ⟨Bool.eq_false_iff.mpr hb, hc', rfl⟩

theorem step_of_conn {r : PacketImpl P} {e : TcpConn.Event} {c : TcpConn}
    (hb : r.blocks e = false) (hc : r.conn.step e = some c) : step cereal r (.conn e) =
      some { r with conn := c, entered := r.entered && c.frame == some .message } := by
  simp [step, hb, hc]

theorem step_onRecvData_ {r r' : PacketImpl P} (hc : step cereal r .onRecvData_ = some r') :
    r.conn.frame = some .message ∧ r' = r.onRecvData_ cereal := by
  obtain ⟨hw, ⟨⟩⟩ := Option.ite_none_right_eq_some.mp hc
  simp only [waits, Bool.and_eq_true, beq_iff_eq] at hw
  exact ⟨hw.1, rfl⟩

theorem step_sound {r r' : PacketImpl P} {e : Event} (hs : Sound r.conn)
    (hc : step cereal r e = some r') : Sound r'.conn := by
  cases e with
  | conn e => exact TcpConn.step_sound hs (step_conn hc).2.1
  | onRecvData_ =>
    obtain ⟨hf, rfl⟩ := step_onRecvData_ hc
    have hs' : Sound r.emptied := TcpConn.step_sound hs (step_emptied hf)
    rcases onRecvData_cases cereal r with ⟨-, he⟩ | ⟨-, -, he⟩ | ⟨pPkt, -, -, he⟩
    · rw [he]
      exact hs'
    · rw [he]
      exact TcpConn.step_sound hs' (step_emptied_throw hf)
    · rw [he]
      exact hs'

/-- A step of a polite run escapes exactly when `OnRecvData_` fails to parse. -/
theorem step_escaped {r r' : PacketImpl P} {e : Event} (h : CallbacksSet r.conn)
    (hp : Polite r e r') (hc : step cereal r e = some r') :
    CallbacksSet r'.conn ∧
      (r'.conn.escaped = false ↔ r.conn.escaped = false ∧ Parses cereal r e) := by
  obtain ⟨ht, hcf, hmf⟩ := hp
  cases e with
  | conn e =>
    obtain ⟨hset, hx⟩ := step_callbacksSet h (fun he => ht (by rw [he])) (fun he => hcf (by rw [he]))
      (fun he => hmf (by rw [he])) (step_conn hc).2.1
    refine ⟨hset, ?_⟩
    rw [hx]
    exact (and_iff_left (by rintro ⟨⟩)).symm
  | onRecvData_ =>
    obtain ⟨-, rfl⟩ := step_onRecvData_ hc
    have hset : CallbacksSet r.emptied := h
    rcases onRecvData_cases cereal r with ⟨hh, he⟩ | ⟨hh, hd, he⟩ | ⟨pPkt, -, hd, he⟩
    · rw [he]
      exact ⟨hset, (and_iff_left fun _ hh' => absurd hh' hh).symm⟩
    · rw [he]
      refine ⟨hset, ?_, fun hx => absurd hd (hx.2 rfl hh)⟩
      rintro ⟨⟩
    · rw [he]
      exact ⟨hset, (and_iff_left fun _ _ => by simp [hd]).symm⟩

theorem run_escaped {r r' : PacketImpl P} {es : List Event} (h : CallbacksSet r.conn)
    (hr : Runs (step cereal) Polite r es r') :
    r'.conn.escaped = false ↔
      r.conn.escaped = false ∧ Runs (step cereal) (fun r e _ => Parses cereal r e) r es r' := by
  induction hr with
  | nil => exact ⟨fun hx => ⟨hx, .nil _⟩, And.left⟩
  | @cons s t u e es hs hp _ ih =>
    obtain ⟨hset, hx⟩ := step_escaped h hp hs
    rw [ih hset, hx]
    constructor
    · rintro ⟨⟨hx', hparse⟩, hr⟩
      exact ⟨hx', .cons hs hparse hr⟩
    · rintro ⟨hx', hr⟩
      cases hr with
      | cons hs' hparse hr =>
        rw [hs] at hs'
        cases hs'
        exact ⟨⟨hx', hparse⟩, hr⟩

theorem run_sound {r r' : PacketImpl P} {es : List Event}
    {G : PacketImpl P → Event → PacketImpl P → Prop} (hi : Initial r)
    (hr : Runs (step cereal) G r es r') : Sound r'.conn := by
  obtain ⟨⟨name, type, connFn, msgFn, closeFn, he⟩, -⟩ := hi
  have h₀ : Sound r.conn := he ▸ sound_initial ⟨_, _, _, _, _, rfl⟩
  exact hr.invariant (fun _ _ _ h _ hc => step_sound h hc) h₀

/-- **Hostile input**: no exception leaves a read handler, and the connection
goes on reading until it is closed, exactly when every string that starts with
byte one decodes. -/
theorem serves_iff {r₀ r : PacketImpl P} {es : List Event} (hi : Initial r₀)
    (hr : Runs (step cereal) Polite r₀ es r) :
    Serves r ↔ Runs (step cereal) (fun r e _ => Parses cereal r e) r₀ es r := by
  have hs := run_sound hi hr
  obtain ⟨⟨name, type, connFn, msgFn, closeFn, he⟩, -⟩ := hi
  have hset : CallbacksSet r₀.conn := by
    rw [he]
    exact ⟨by rintro ⟨⟩, by rintro ⟨⟩⟩
  have hx : r₀.conn.escaped = false := by rw [he]; rfl
  have hiff := run_escaped hset hr
  constructor
  · intro h
    exact (hiff.mp h.1).2
  · intro h
    have hx' := hiff.mpr ⟨hx, h⟩
    refine ⟨hx', fun ha hf => (hs.live.armed ha hx').imp_left fun harmed => ?_⟩
    simpa [armed, hf] using harmed

-- ════════════════════════════════════════════════════════════════════════
-- A stream cut into chunks
-- ════════════════════════════════════════════════════════════════════════

/-- One successful read: the data arrives, and the loop runs its handler. After an
exception there is no callback left to return from, and no later handler runs. -/
def receive (cereal : Cereal P) (r : PacketImpl P) (chunk : Bytes) : PacketImpl P :=
  match exec (step cereal) r
    [.conn (.readReady (.ok chunk)), .conn .handleRead, .onRecvData_] with
  | some r' => (step cereal r' (.conn .resume)).getD r'
  | none => r

def receiveAll (cereal : Cereal P) (r : PacketImpl P) (chunks : List Bytes) : PacketImpl P :=
  chunks.foldl (receive cereal) r

/-- The packets that a list of chunks makes `OnRecvData_` deliver. -/
def deliveries (cereal : Cereal P) : List Bytes → List (Option P)
  | [] => []
  | chunk :: chunks =>
    if chunk.headD 0 ≠ 1 then deliveries cereal chunks
    else
      match cereal.deserialize chunk with
      | none => []
      | some pPkt => pPkt :: deliveries cereal chunks

/-- An end that waits for a read into an empty buffer. -/
structure Ready (r : PacketImpl P) : Prop where
  reading : r.conn.reading = some ⟨defaultSize, none⟩
  idle : r.conn.idle = true
  isOpen : r.conn.isOpen = true
  msgFn : r.conn.msgFn ≠ none
  rpos : r.conn.recvBuffer.rpos = 0
  wpos : r.conn.recvBuffer.wpos = 0
  capacity : r.conn.recvBuffer.capacity = defaultSize

theorem receive_down {r : PacketImpl P} (h : r.conn.reading = none) (chunk : Bytes) :
    receive cereal r chunk = r := by
  have hread : step cereal r (.conn (.readReady (.ok chunk))) = none := by
    simp [step, blocks, TcpConn.step, readReady, h]
  simp [receive, exec, hread]

/-- The buffer of a connection that was waiting, filled with one chunk. -/
theorem filled_ss {b : ByteBuffer} {chunk : Bytes} (hr : b.rpos = 0) (hw : b.wpos = 0)
    (hcap : chunk.length ≤ b.capacity) :
    let b' := (b.copyIn chunk).writeBytes chunk.length
    b'.storage.take b'.size = chunk ∧ (b'.readBytes b'.size).normalize.rpos = 0 ∧
      (b'.readBytes b'.size).normalize.wpos = 0 ∧
      (b'.readBytes b'.size).normalize.capacity = b.capacity := by
  intro b'
  have hsize : b'.size = chunk.length := by simp [b', size, writeBytes, copyIn, hr, hw]
  have hstorage : b'.storage = chunk ++ b.storage.drop chunk.length := by
    simp [b', writeBytes, copyIn, overwrite, hw]
  have hlen : b'.capacity = b.capacity := by
    rw [ByteBuffer.capacity, hstorage, List.length_append, List.length_drop]
    simp only [ByteBuffer.capacity] at hcap ⊢
    omega
  have hwf : b'.WF := by
    constructor
    · simp [b', writeBytes, copyIn, hr]
    · have hwpos : b'.wpos = chunk.length := by simp [b', writeBytes, copyIn, hw]
      rw [hwpos]
      exact hcap.trans hlen.ge
  refine ⟨?_, normalize_rpos _, ?_, ?_⟩
  · rw [hsize, hstorage, List.take_left]
  · rw [normalize_wpos]
    simp only [size, readBytes]
    omega
  · rw [capacity_normalize (wf_readBytes hwf le_rfl)]
    exact hlen

/-- An end in its message callback, with an empty buffer once it has consumed. -/
structure Busy (r : PacketImpl P) : Prop where
  frame : r.conn.frame = some .message
  reading : r.conn.reading = none
  escaped : r.conn.escaped = false
  isOpen : r.conn.isOpen = true
  msgFn : r.conn.msgFn ≠ none
  rpos : r.emptied.recvBuffer.rpos = 0
  wpos : r.emptied.recvBuffer.wpos = 0
  capacity : r.emptied.recvBuffer.capacity = defaultSize

/-- The handler of a successful read gets as far as the end of `OnRecvData_`. -/
theorem exec_chunk {r : PacketImpl P} (h : Ready r) {chunk : Bytes} (hne : chunk ≠ [])
    (hle : chunk.length ≤ defaultSize) :
    ∃ r', exec (step cereal) r [.conn (.readReady (.ok chunk)), .conn .handleRead, .onRecvData_] =
        some (r'.onRecvData_ cereal) ∧
      Busy r' ∧ r'.ss = chunk ∧ r'.received = r.received := by
  obtain ⟨hread, hidle, ho, hm, hrpos, hwpos, hcap⟩ := h
  obtain ⟨hf, hx⟩ := idle_iff.mp hidle
  obtain ⟨f, hmf⟩ := Option.ne_none_iff_exists'.mp hm
  have hfits : (ReadResult.ok chunk).fits defaultSize = true := by
    simp only [ReadResult.fits, decide_eq_true_eq]
    exact ⟨List.length_pos_iff.mpr hne, hle⟩
  let c₁ : TcpConn := { r.conn with reading := some ⟨defaultSize, some (.ok chunk)⟩ }
  let c₂ : TcpConn := { r.conn with
    reading := none
    recvBuffer := (r.conn.recvBuffer.copyIn chunk).writeBytes chunk.length
    frame := some .message
    trace := r.conn.trace ++ [.handleRead (.ok chunk)] ++ [.msgFn f] }
  have hc₁ : r.conn.step (.readReady (.ok chunk)) = some c₁ := step_readReady hread hfits
  have hc₂ : c₁.step .handleRead = some c₂ := by
    have hidle₁ : c₁.idle = true := hidle
    rw [step_handleRead rfl hidle₁]
    simp [TcpConn.handleRead, emit, c₁, c₂, hmf]
  have h₁ : step cereal r (.conn (.readReady (.ok chunk))) =
      some { r with conn := c₁, entered := false } := by
    rw [step_of_conn rfl hc₁]
    simp [c₁, hf]
  have h₂ : step cereal { r with conn := c₁, entered := false } (.conn .handleRead) =
      some { r with conn := c₂, entered := false } :=
    step_of_conn rfl hc₂
  obtain ⟨hss, hr', hw', hc'⟩ := filled_ss hrpos hwpos (hle.trans hcap.ge)
  refine ⟨{ r with conn := c₂, entered := false }, ?_,
    ⟨rfl, rfl, hx, ho, hm, hr', hw', hc'.trans hcap⟩, hss, rfl⟩
  simp only [exec, h₁, h₂, Option.bind_some]
  simp [step, waits, c₂]

/-- Back from `OnRecvData`, the connection reads again. -/
theorem ready_resume {r : PacketImpl P} (h : Busy r) (received : List (Option P)) :
    ∃ r', step cereal { r with conn := r.emptied, entered := true, received := received }
        (.conn .resume) = some r' ∧ Ready r' ∧ r'.received = received := by
  have hroom : r.emptied.recvBuffer.validSize = defaultSize := by
    rw [validSize, h.wpos, Nat.sub_zero]
    exact h.capacity
  have hread := @asyncRead_open { r.emptied with frame := none } h.isOpen
    (by rw [hroom]; simp [defaultSize])
  let c : TcpConn := { r.emptied with
    frame := none
    reading := some ⟨r.emptied.recvBuffer.validSize, none⟩
    trace := r.emptied.trace ++ [.asyncRead r.emptied.recvBuffer.validSize] }
  have hstep : r.emptied.step .resume = some c := by
    have hf : r.emptied.frame = some .message := h.frame
    rw [TcpConn.step, hf, Option.map_some]
    exact congrArg some hread
  refine ⟨{ r with conn := c, entered := false, received := received }, ?_,
    ⟨?_, idle_iff.mpr ⟨rfl, h.escaped⟩, h.isOpen, h.msgFn, h.rpos, h.wpos, h.capacity⟩, rfl⟩
  · simp [step, blocks, waits, hstep, c]
  · show some (ReadOp.mk r.emptied.recvBuffer.validSize none) = _
    rw [hroom]

theorem receive_ready {r : PacketImpl P} (h : Ready r) {chunk : Bytes} (hne : chunk ≠ [])
    (hle : chunk.length ≤ defaultSize) :
    (chunk.headD 0 ≠ 1 ∧ Ready (receive cereal r chunk) ∧
      (receive cereal r chunk).received = r.received) ∨
    (chunk.headD 0 = 1 ∧ cereal.deserialize chunk = none ∧
      (receive cereal r chunk).conn.reading = none ∧
      (receive cereal r chunk).received = r.received) ∨
    (∃ pPkt, chunk.headD 0 = 1 ∧ cereal.deserialize chunk = some pPkt ∧
      Ready (receive cereal r chunk) ∧
      (receive cereal r chunk).received = r.received ++ [pPkt]) := by
  obtain ⟨r', hexec, hbusy, hss, hrec⟩ := @exec_chunk P cereal r h chunk hne hle
  rw [receive, hexec, ← hss, ← hrec]
  rcases onRecvData_cases cereal r' with ⟨hh, he⟩ | ⟨hh, hd, he⟩ | ⟨pPkt, hh, hd, he⟩
  · obtain ⟨r'', hstep, hready, hrec'⟩ := @ready_resume P cereal r' hbusy r'.received
    refine Or.inl ⟨hh, ?_⟩
    simp only [he, hstep, Option.getD_some]
    exact ⟨hready, hrec'⟩
  · have hstep : step cereal { r' with conn := r'.emptied.throw } (.conn .resume) = none := by
      have hnone : r'.emptied.throw.step .resume = none := rfl
      simp only [step, hnone, Option.map_none, ite_self]
    refine Or.inr (Or.inl ⟨hh, hd, ?_⟩)
    simp only [he, hstep, Option.getD_none]
    exact ⟨hbusy.reading, trivial⟩
  · obtain ⟨r'', hstep, hready, hrec'⟩ := @ready_resume P cereal r' hbusy (r'.received ++ [pPkt])
    refine Or.inr (Or.inr ⟨pPkt, hh, hd, ?_⟩)
    simp only [he, hstep, Option.getD_some]
    exact ⟨hready, hrec'⟩

theorem receiveAll_down {r : PacketImpl P} (h : r.conn.reading = none) (chunks : List Bytes) :
    receiveAll cereal r chunks = r := by
  induction chunks with
  | nil => rfl
  | cons chunk chunks ih =>
    rw [receiveAll, List.foldl_cons, receive_down h]
    exact ih

/-- What arrives is what the chunks, each taken by itself, decode to. -/
theorem received_receiveAll {r : PacketImpl P} (h : Ready r) {chunks : List Bytes}
    (hchunks : ∀ chunk ∈ chunks, chunk ≠ [] ∧ chunk.length ≤ defaultSize) :
    (receiveAll cereal r chunks).received = r.received ++ deliveries cereal chunks := by
  induction chunks generalizing r with
  | nil => exact (List.append_nil _).symm
  | cons chunk chunks ih =>
    obtain ⟨hne, hle⟩ := hchunks chunk List.mem_cons_self
    have hrest : ∀ c ∈ chunks, c ≠ [] ∧ c.length ≤ defaultSize :=
      fun c hc => hchunks c (List.mem_cons_of_mem _ hc)
    have hcons : receiveAll cereal r (chunk :: chunks) =
        receiveAll cereal (receive cereal r chunk) chunks := rfl
    rw [hcons, deliveries]
    rcases @receive_ready P cereal r h chunk hne hle with
      ⟨hh, hready, hrec⟩ | ⟨hh, hd, hdown, hrec⟩ | ⟨pPkt, hh, hd, hready, hrec⟩
    · rw [if_pos hh, ih hready hrest, hrec]
    · rw [if_neg (not_not.mpr hh), hd, receiveAll_down hdown, hrec, List.append_nil]
    · rw [if_neg (not_not.mpr hh), hd, ih hready hrest, hrec, List.append_assoc]
      rfl

theorem run_established {G : PacketImpl P → Event → PacketImpl P → Prop} (name : String)
    (type : ConnType) (connFn : Callback) (msgFn : Option Callback) (closeFn : CloseCallback)
    (hp : ∀ r r', G r (.conn .runPosted) r') (hr : ∀ r r', G r (.conn .resume) r') :
    Runs (step cereal) G ⟨handedOver name type (some connFn) msgFn closeFn, false, []⟩
      [.conn .runPosted, .conn .resume]
      ⟨established name type connFn msgFn closeFn, false, []⟩ :=
  .cons (step_of_conn rfl (step_attaching _ _ _ _ _)) (hp _ _)
    (.cons (step_of_conn rfl (step_established _ _ _ _ _)) (hr _ _) (.nil _))

theorem ready_established (name : String) (type : ConnType) (connFn msgFn : Callback)
    (closeFn : CloseCallback) :
    Ready (⟨established name type connFn (some msgFn) closeFn, false, []⟩ : PacketImpl P) :=
  ⟨rfl, rfl, rfl, by rintro ⟨⟩, rfl, rfl, capacity_ofSize _⟩

/-- The first chunk of a connection, with polite user code. -/
theorem run_chunk (cereal : Cereal P) {chunk : Bytes} (hne : chunk ≠ [])
    (hle : chunk.length ≤ defaultSize) :
    ∃ r : PacketImpl P, Runs (step cereal) Polite
        ⟨handedOver "conn" .kIncoming (some 0) (some 1) .removeConn, false, []⟩
        [.conn .runPosted, .conn .resume, .conn (.readReady (.ok chunk)), .conn .handleRead,
          .onRecvData_] (r.onRecvData_ cereal) ∧ r.ss = chunk := by
  have hready := @ready_established P "conn" .kIncoming 0 1 .removeConn
  obtain ⟨r, hexec, -, hss, -⟩ := @exec_chunk P cereal _ hready chunk hne hle
  have hpolite : Runs (step cereal) Polite _ _ (r.onRecvData_ cereal) :=
    (exec_eq_some_iff.mp hexec).of_forall_mem fun e he => by
      simp only [List.mem_cons, List.not_mem_nil, or_false] at he
      rcases he with rfl | rfl | rfl <;> simp
  exact ⟨r, (run_established "conn" .kIncoming 0 (some 1) .removeConn
    (fun _ _ => by simp [Polite]) fun _ _ => by simp [Polite]).append hpolite, hss⟩

theorem serves_iff_packet :
    ∃ r, Runs (step byteCereal) Polite
        ⟨handedOver "conn" .kIncoming (some 0) (some 1) .removeConn, false, []⟩
        [.conn .runPosted, .conn .resume, .conn (.readReady (.ok [1, 0, 0, 128, 7])),
          .conn .handleRead, .onRecvData_] r ∧
      (Serves r ↔ Runs (step byteCereal) (fun r e _ => Parses byteCereal r e)
        ⟨handedOver "conn" .kIncoming (some 0) (some 1) .removeConn, false, []⟩
        [.conn .runPosted, .conn .resume, .conn (.readReady (.ok [1, 0, 0, 128, 7])),
          .conn .handleRead, .onRecvData_] r) := by
  have hi : Initial
      (⟨handedOver "conn" .kIncoming (some 0) (some 1) .removeConn, false, []⟩ : PacketImpl UInt8) :=
    ⟨⟨_, _, _, _, _, rfl⟩, rfl, rfl⟩
  obtain ⟨r, hr, -⟩ := @run_chunk UInt8 byteCereal [1, 0, 0, 128, 7] (by simp)
    (by simp [defaultSize])
  exact ⟨_, hr, serves_iff hi hr⟩

/-- One byte brings the loop down: a chunk that consists of the byte that packets
start with. -/
theorem one_byte_escapes :
    ∃ r, Runs (step byteCereal) Polite
        ⟨handedOver "conn" .kIncoming (some 0) (some 1) .removeConn, false, []⟩
        [.conn .runPosted, .conn .resume, .conn (.readReady (.ok [1])), .conn .handleRead,
          .onRecvData_] r ∧ ¬Serves r := by
  obtain ⟨r, hr, hss⟩ := @run_chunk UInt8 byteCereal [1] (by simp) (by simp [defaultSize])
  refine ⟨_, hr, ?_⟩
  rcases onRecvData_cases byteCereal r with ⟨hh, -⟩ | ⟨-, -, he⟩ | ⟨pPkt, -, hd, -⟩
  · rw [hss] at hh
    exact absurd rfl hh
  · rw [he]
    rintro ⟨⟨⟩, -⟩
  · rw [hss] at hd
    cases hd

/-- The code that `Cereal` uses for packets can be decoded. -/
theorem decodes_of_lawful (h : cereal.Lawful) :
    PrefixCode.Decodes (fun p => cereal.serialize (some p)) fun s => (cereal.deserialize s).join := by
  constructor
  · intro p rest
    rw [h.whole p rest]
    rfl
  · intro p s hs hne
    rw [h.cut p s hs hne]
    rfl

theorem deliveries_whole (h : cereal.Lawful) (packets : List P) :
    deliveries cereal (packets.map fun p => cereal.serialize (some p)) = packets.map some := by
  induction packets with
  | nil => rfl
  | cons p packets ih =>
    have hh : (cereal.serialize (some p)).headD 0 = 1 := by
      rw [List.headD_eq_head?_getD, h.head p]
      rfl
    have hd : cereal.deserialize (cereal.serialize (some p)) = some (some p) := by
      simpa using h.whole p []
    rw [List.map_cons, deliveries, if_neg (not_not.mpr hh), hd, ih]
    rfl

/-- The deserializer that accepts a string only for a packet at its front. -/
noncomputable def strict (cereal : Cereal P) : Cereal P where
  serialize := cereal.serialize
  deserialize s := (PrefixCode.canonical (fun p => cereal.serialize (some p)) s).map some

theorem strict_lawful (h : cereal.Lawful) : (strict cereal).Lawful := by
  obtain ⟨hwhole, hcut⟩ := PrefixCode.canonical_decodes (decodes_of_lawful h)
  refine ⟨h.head, ?_, ?_⟩
  · intro p rest
    exact congrArg (Option.map some) (hwhole p rest)
  · intro p s hs hne
    exact congrArg (Option.map some) (hcut p s hs hne)

/-- Each packet that arrives was at the front of a chunk of its own. -/
theorem covers_of_deliveries {chunks : List Bytes} {packets : List P}
    (h : deliveries (strict cereal) chunks = packets.map some) :
    PrefixCode.Covers (fun p => cereal.serialize (some p)) chunks packets := by
  induction chunks generalizing packets with
  | nil =>
    cases packets with
    | nil => exact .nil
    | cons => cases h
  | cons chunk chunks ih =>
    rw [deliveries] at h
    split at h
    · exact .skip (ih h)
    · split at h
      · cases packets with
        | nil => exact PrefixCode.covers_nil _
        | cons => cases h
      · next pPkt hd =>
        cases packets with
        | nil => cases h
        | cons p packets =>
          obtain ⟨rfl, hrest⟩ := List.cons.inj h
          obtain ⟨q, hq, hqp⟩ := Option.map_eq_some_iff.mp hd
          obtain rfl := Option.some.inj hqp
          have hpre := @PrefixCode.prefix_of_canonical _ _ (fun p => cereal.serialize (some p)) _ _ hq
          exact .take hpre (ih hrest)

/-- A deserializer that is only assumed lawful delivers every packet exactly when
every chunk is one packet. -/
theorem deliveries_iff (h : cereal.Lawful) {chunks : List Bytes} {packets : List P}
    (hne : ∀ chunk ∈ chunks, chunk ≠ [])
    (hcut : chunks.flatten = (packets.map fun p => cereal.serialize (some p)).flatten) :
    (∀ cereal' : Cereal P, cereal'.Lawful → cereal'.serialize = cereal.serialize →
      deliveries cereal' chunks = packets.map some) ↔
    chunks = packets.map fun p => cereal.serialize (some p) := by
  constructor
  · intro hall
    have hcover := covers_of_deliveries (hall (strict cereal) (strict_lawful h) rfl)
    exact PrefixCode.eq_map_of_covers hcover hne hcut
  · rintro rfl cereal' h' hser
    rw [← hser]
    exact deliveries_whole h' packets

end PacketImpl

namespace TcpConn

/-- The payloads accepted for sending, one by one. -/
def payloads (trace : List Obs) : List Bytes :=
  trace.filterMap fun
    | .sendInLoop data true => some data
    | _ => none

theorem flatten_payloads (trace : List Obs) : (payloads trace).flatten = accepted trace := by
  induction trace with
  | nil => rfl
  | cons o trace ih =>
    have hcons : accepted (o :: trace) = o.accepted ++ accepted trace := rfl
    rw [hcons, ← ih]
    cases o with
    | sendInLoop data isOpen => cases isOpen <;> rfl
    | _ => rfl

end TcpConn

namespace PacketImpl

variable {P : Type*} {cereal : Cereal P}

/-- **Packet delivery**: one end has sent `packets`, all of it was written, and the
other end reads it in `chunks`. Every packet arrives, whatever lawful
deserializer is used, exactly when every chunk is one packet. -/
theorem packets_delivered_iff (h : cereal.Lawful) {s₀ s : TcpConn} {es : List TcpConn.Event}
    (h₀ : TcpConn.Initial s₀) (hr : Runs TcpConn.step anyStep s₀ es s) {packets : List P}
    (hsent : payloads s.trace = packets.map fun p => cereal.serialize (some p))
    (hflushed : s.pending = []) {chunks : List Bytes} (hcut : chunks.flatten = written s.trace)
    (hchunks : ∀ chunk ∈ chunks, chunk ≠ [] ∧ chunk.length ≤ defaultSize)
    (name : String) (type : ConnType) (connFn msgFn : Callback) (closeFn : CloseCallback) :
    (∀ cereal' : Cereal P, cereal'.Lawful → cereal'.serialize = cereal.serialize →
      (receiveAll cereal' ⟨established name type connFn (some msgFn) closeFn, false, []⟩
        chunks).received = packets.map some) ↔
    chunks = packets.map fun p => cereal.serialize (some p) := by
  obtain ⟨-, ch, hs⟩ := run_streams h₀ hr
  have hwritten : written s.trace = accepted s.trace := by
    rw [← hs.delivered, ← hs.accepted, ← ch.conserved, hs.pending, hflushed, List.append_nil]
  have hcut' : chunks.flatten = (packets.map fun p => cereal.serialize (some p)).flatten := by
    rw [hcut, hwritten, ← flatten_payloads, hsent]
  rw [← deliveries_iff h (fun chunk hc => (hchunks chunk hc).1) hcut']
  refine forall_congr' fun cereal' => forall_congr' fun _ => forall_congr' fun _ => ?_
  rw [received_receiveAll (ready_established name type connFn msgFn closeFn) hchunks,
    List.nil_append]

theorem packets_delivered_iff_one :
    ∃ s, Runs TcpConn.step anyStep (handedOver "conn" .kOutgoing none none .onRemoveConn)
        [sendPkt byteCereal true (some 7), .writeReady (.ok 5), .handleWrite] s ∧
      ∀ cereal' : Cereal UInt8, cereal'.Lawful → cereal'.serialize = byteCereal.serialize →
        (receiveAll cereal' ⟨established "conn" .kIncoming 0 (some 1) .removeConn, false, []⟩
          [[1, 0, 0, 128, 7]]).received = [some 7] := by
  have h₀ : TcpConn.Initial (handedOver "conn" .kOutgoing none none .onRemoveConn) :=
    ⟨_, _, _, _, _, rfl⟩
  obtain ⟨hr, hs⟩ := @run_round _ [1, 0, 0, 128, 7] (sound_initial h₀) rfl rfl rfl (by simp)
  have hflushed : (rounded (handedOver "conn" .kOutgoing none none .onRemoveConn)
      [1, 0, 0, 128, 7]).pending = [] := by
    obtain ⟨hz, hz'⟩ := hs.output.drained rfl rfl
    rw [pending, (readable_eq_nil_iff hs.output.wfWriting).mpr hz,
      (readable_eq_nil_iff hs.output.wfWrite).mpr hz', List.append_nil]
  have hchunks : ∀ chunk ∈ [[1, 0, 0, 128, (7 : UInt8)]],
      chunk ≠ [] ∧ chunk.length ≤ defaultSize := by simp [defaultSize]
  have hiff := @packets_delivered_iff UInt8 byteCereal byteCereal_lawful _ _ _ h₀ hr.plain [7] rfl
    hflushed [[1, 0, 0, 128, 7]] rfl hchunks "conn" .kIncoming 0 1 .removeConn
  exact ⟨_, hr.plain, hiff.mpr rfl⟩

/-- Two packets that arrive in one chunk: the second one is consumed and lost. -/
theorem coalesced_packets_lost :
    ∃ s, Runs TcpConn.step anyStep (handedOver "conn" .kOutgoing none none .onRemoveConn)
        [sendPkt byteCereal true (some 7), .writeReady (.ok 5), .handleWrite,
          sendPkt byteCereal true (some 8), .writeReady (.ok 5), .handleWrite] s ∧
      payloads s.trace = [7, 8].map (fun p => byteCereal.serialize (some p)) ∧
      [1, 0, 0, 128, 7, 1, 0, 0, 128, 8] = written s.trace ∧
      (receiveAll byteCereal ⟨established "conn" .kIncoming 0 (some 1) .removeConn, false, []⟩
        [[1, 0, 0, 128, 7, 1, 0, 0, 128, 8]]).received = [some 7] := by
  have h₀ : TcpConn.Initial (handedOver "conn" .kOutgoing none none .onRemoveConn) :=
    ⟨_, _, _, _, _, rfl⟩
  obtain ⟨hr, hs⟩ := @run_round _ [1, 0, 0, 128, 7] (sound_initial h₀) rfl rfl rfl (by simp)
  obtain ⟨hr', -⟩ := @run_round _ [1, 0, 0, 128, 8] hs rfl rfl rfl (by simp)
  have hchunks : ∀ chunk ∈ [[1, 0, 0, 128, 7, 1, 0, 0, 128, (8 : UInt8)]],
      chunk ≠ [] ∧ chunk.length ≤ defaultSize := by simp [defaultSize]
  refine ⟨_, hr.plain.append hr'.plain, rfl, rfl, ?_⟩
  rw [received_receiveAll (ready_established "conn" .kIncoming 0 1 .removeConn) hchunks]
  rfl

end PacketImpl

end Libasio
