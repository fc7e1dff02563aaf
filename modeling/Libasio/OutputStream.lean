import Libasio.Channel
import Libasio.ConnMachine

/-!
# The output side of a connection

The double buffer as a lossless channel: what `SendInLoop` accepts goes in at
the back, what the operating system reports as written comes out at the front.

## Main definitions

- `TcpConn.accepted`, `TcpConn.written` — the two ends of the stream
- `TcpConn.OutputInv` — ownership of the two buffers between steps
- `TcpConn.Streams` — the connection implements a channel

## Main results

- `TcpConn.step_output` — what a step can be to the output side
- `TcpConn.step_streams` — every step is a channel operation
- `TcpConn.output_stream_intact` — nothing is lost, duplicated or reordered
-/

namespace Libasio

/-- The payload of a `SendInLoop` call made while the socket is open. -/
def Obs.accepted : Obs → Bytes
  | .sendInLoop data true => data
  | _ => []

/-- The bytes that a successful write completion reports as written. -/
def Obs.written : Obs → Bytes
  | .handleWrite region (.ok n) => region.take n
  | _ => []

/-- Observations made by the output side. -/
def Obs.isOutput : Obs → Bool
  | .sendInLoop _ _ | .asyncWrite _ | .handleWrite _ _ | .highWaterMarkFn _ _ => true
  | _ => false

open ByteBuffer Transition

namespace TcpConn

/-- Everything the connection accepted for sending, in call order. -/
def accepted (trace : List Obs) : Bytes := trace.flatMap Obs.accepted

/-- Everything reported as written. -/
def written (trace : List Obs) : Bytes := trace.flatMap Obs.written

/-- The unread content of the two output buffers. -/
def pending (c : TcpConn) : Bytes := c.writingBuffer.readable ++ c.writeBuffer.readable

/-- The pending bytes, `write_buffer_.Size() + writing_buffer_.Size()`. -/
def backlog (c : TcpConn) : Nat := c.writeBuffer.size + c.writingBuffer.size

/-- The discipline that keeps the double buffer in order. -/
structure OutputInv (c : TcpConn) : Prop where
  wfWriting : c.writingBuffer.WF
  wfWrite : c.writeBuffer.WF
  flag : c.asyncWriting = c.writing.isSome
  region : ∀ op, c.writing = some op → op.region = c.writingBuffer.readable
  fits : ∀ op n, c.writing = some op → op.result = some (.ok n) → n ≤ op.region.length
  inFlight : ∀ op, c.writing = some op → op.result = none → c.isOpen = true
  drained : c.isOpen = true → c.writing = none →
    c.writingBuffer.size = 0 ∧ c.writeBuffer.size = 0

/-- The connection implements the channel. -/
structure Streams (c : TcpConn) (ch : Channel UInt8) : Prop where
  accepted : ch.accepted = accepted c.trace
  delivered : ch.delivered = written c.trace
  pending : ch.pending = c.pending

theorem accepted_snoc (t : List Obs) (o : Obs) : accepted (t ++ [o]) = accepted t ++ o.accepted := by
  simp only [accepted, List.flatMap_append, List.flatMap_singleton]

theorem written_snoc (t : List Obs) (o : Obs) : written (t ++ [o]) = written t ++ o.written := by
  simp only [written, List.flatMap_append, List.flatMap_singleton]

/-- An observation that neither accepts nor reports bytes. -/
def Silent (o : Obs) : Prop := o.accepted = [] ∧ o.written = []

theorem silent_of_not_output {o : Obs} (h : o.isOutput = false) : Silent o := by
  cases o with
  | sendInLoop | asyncWrite | handleWrite | highWaterMarkFn => cases h
  | asyncRead | handleRead | connFn | msgFn | closeFn => exact ⟨rfl, rfl⟩

/-- Whatever was observed in between, it was not a `p`. -/
def Spares (p : Obs → Bool) (c c' : TcpConn) : Prop :=
  ∃ t, c'.trace = c.trace ++ t ∧ ∀ o ∈ t, p o = false

theorem Spares.countP_eq {p : Obs → Bool} {c c' : TcpConn} (h : Spares p c c') :
    c'.trace.countP p = c.trace.countP p := by
  obtain ⟨t, ht, hn⟩ := h
  have hz : t.countP p = 0 := List.countP_eq_zero.mpr fun o ho => by simp [hn o ho]
  rw [ht, List.countP_append, hz, Nat.add_zero]

theorem spares_same {p : Obs → Bool} {c c' : TcpConn} (h : c'.trace = c.trace) : Spares p c c' :=
  ⟨[], by simp [h], by simp⟩

theorem spares_one {p : Obs → Bool} {c c' : TcpConn} {o : Obs} (h : c'.trace = c.trace ++ [o])
    (hp : p o = false) : Spares p c c' :=
  ⟨[o], h, by simpa using hp⟩

theorem Spares.trans {p : Obs → Bool} {a b c : TcpConn} (h : Spares p a b) (h' : Spares p b c) :
    Spares p a c := by
  obtain ⟨t, ht, hn⟩ := h
  obtain ⟨u, hu, hm⟩ := h'
  refine ⟨t ++ u, by rw [hu, ht, List.append_assoc], fun o ho => ?_⟩
  exact (List.mem_append.mp ho).elim (hn o) (hm o)

-- ════════════════════════════════════════════════════════════════════════
-- Steps that leave the output alone
-- ════════════════════════════════════════════════════════════════════════

/-- The output buffers and the stream are as before; the socket may have been
closed, which fails a write in flight. -/
structure OutputKept (c c' : TcpConn) : Prop where
  asyncWriting : c'.asyncWriting = c.asyncWriting
  writeBuffer : c'.writeBuffer = c.writeBuffer
  writingBuffer : c'.writingBuffer = c.writingBuffer
  accepted : accepted c'.trace = TcpConn.accepted c.trace
  written : written c'.trace = TcpConn.written c.trace
  writing : (c'.isOpen = c.isOpen ∧ c'.writing = c.writing) ∨
    (c'.isOpen = false ∧ c'.writing = c.writing.map .abort)

theorem OutputKept.inv {c c' : TcpConn} (h : OutputInv c) (hk : OutputKept c c') :
    OutputInv c' := by
  obtain ⟨hf, hw, hg, -, -, ho⟩ := hk
  rcases ho with ⟨ho, hop⟩ | ⟨ho, hop⟩
  · refine ⟨hg ▸ h.wfWriting, hw ▸ h.wfWrite, ?_, ?_, ?_, ?_, ?_⟩
    · rw [hf, hop, h.flag]
    · rw [hop, hg]
      exact h.region
    · rw [hop]
      exact h.fits
    · rw [hop, ho]
      exact h.inFlight
    · rw [hop, ho, hg, hw]
      exact h.drained
  · refine ⟨hg ▸ h.wfWriting, hw ▸ h.wfWrite, ?_, ?_, ?_, ?_, ?_⟩
    · rw [hf, hop, h.flag, Option.isSome_map]
    · intro op he
      rw [hop, Option.map_eq_some_iff] at he
      obtain ⟨op', he', rfl⟩ := he
      rw [hg]
      exact h.region op' he'
    · intro op n he hr
      rw [hop, Option.map_eq_some_iff] at he
      obtain ⟨op', he', rfl⟩ := he
      cases hr' : op'.result with
      | none => simp [WriteOp.abort, hr'] at hr
      | some r => exact h.fits op' n he' (by simpa [WriteOp.abort, hr'] using hr)
    · intro op he hr
      rw [hop, Option.map_eq_some_iff] at he
      obtain ⟨op', -, rfl⟩ := he
      simp [WriteOp.abort] at hr
    · intro hopen
      rw [ho] at hopen
      cases hopen

theorem OutputKept.streams {c c' : TcpConn} {ch : Channel UInt8} (h : Streams c ch)
    (hk : OutputKept c c') : Streams c' ch := by
  refine ⟨h.accepted.trans hk.accepted.symm, h.delivered.trans hk.written.symm, ?_⟩
  rw [h.pending, TcpConn.pending, TcpConn.pending, hk.writingBuffer, hk.writeBuffer]

theorem OutputKept.trans {a b c : TcpConn} (h : OutputKept a b) (h' : OutputKept b c) :
    OutputKept a c := by
  refine ⟨h'.asyncWriting.trans h.asyncWriting, h'.writeBuffer.trans h.writeBuffer,
    h'.writingBuffer.trans h.writingBuffer, h'.accepted.trans h.accepted,
    h'.written.trans h.written, ?_⟩
  have habort : ∀ op : Option WriteOp, (op.map WriteOp.abort).map WriteOp.abort = op.map WriteOp.abort := by
    rintro (_ | ⟨region, _ | r⟩) <;> rfl
  rcases h.writing with ⟨ho, hop⟩ | ⟨ho, hop⟩
  · rw [← ho, ← hop]
    exact h'.writing
  · rcases h'.writing with ⟨ho', hop'⟩ | ⟨ho', hop'⟩
    · exact Or.inr ⟨ho'.trans ho, hop'.trans hop⟩
    · exact Or.inr ⟨ho', by rw [hop', hop, habort]⟩

/-- Whatever follows the close of the socket, as long as it is silent. -/
theorem outputKept_closed {c c' : TcpConn} (hf : c'.asyncWriting = c.asyncWriting)
    (hw : c'.writeBuffer = c.writeBuffer) (hg : c'.writingBuffer = c.writingBuffer)
    (ht : c'.trace = c.trace ∨ ∃ o, Silent o ∧ c'.trace = c.trace ++ [o])
    (ho : c'.isOpen = false) (hop : c'.writing = c.writing.map .abort) : OutputKept c c' := by
  rcases ht with ht | ⟨o, ⟨ha, hd⟩, ht⟩
  · exact ⟨hf, hw, hg, by rw [ht], by rw [ht], Or.inr ⟨ho, hop⟩⟩
  · refine ⟨hf, hw, hg, ?_, ?_, Or.inr ⟨ho, hop⟩⟩
    · rw [ht, accepted_snoc, ha, List.append_nil]
    · rw [ht, written_snoc, hd, List.append_nil]

/-- A step that leaves socket, write and buffers as they are. -/
theorem outputKept_same {c c' : TcpConn} (hf : c'.asyncWriting = c.asyncWriting)
    (hw : c'.writeBuffer = c.writeBuffer) (hg : c'.writingBuffer = c.writingBuffer)
    (ht : c'.trace = c.trace ∨ ∃ o, Silent o ∧ c'.trace = c.trace ++ [o])
    (ho : c'.isOpen = c.isOpen) (hop : c'.writing = c.writing) : OutputKept c c' := by
  rcases ht with ht | ⟨o, ⟨ha, hd⟩, ht⟩
  · exact ⟨hf, hw, hg, by rw [ht], by rw [ht], Or.inl ⟨ho, hop⟩⟩
  · refine ⟨hf, hw, hg, ?_, ?_, Or.inl ⟨ho, hop⟩⟩
    · rw [ht, accepted_snoc, ha, List.append_nil]
    · rw [ht, written_snoc, hd, List.append_nil]

/-- A step of the rest of the connection: the output side is kept, and observes
nothing. -/
structure Aside (c c' : TcpConn) : Prop where
  kept : OutputKept c c'
  spares : Spares Obs.isOutput c c'

theorem Aside.trans {a b c : TcpConn} (h : Aside a b) (h' : Aside b c) : Aside a c :=
  ⟨h.kept.trans h'.kept, h.spares.trans h'.spares⟩

/-- At most one observation is made, and it is not one of the output side. -/
def Watches (c c' : TcpConn) : Prop :=
  c'.trace = c.trace ∨ ∃ o, o.isOutput = false ∧ c'.trace = c.trace ++ [o]

theorem Watches.silent {c c' : TcpConn} (h : Watches c c') :
    c'.trace = c.trace ∨ ∃ o, Silent o ∧ c'.trace = c.trace ++ [o] := by
  rcases h with ht | ⟨o, ho, ht⟩
  · exact Or.inl ht
  · exact Or.inr ⟨o, silent_of_not_output ho, ht⟩

theorem Watches.spares {c c' : TcpConn} (h : Watches c c') : Spares Obs.isOutput c c' := by
  rcases h with ht | ⟨o, ho, ht⟩
  · exact spares_same ht
  · exact spares_one ht ho

theorem aside_same {c c' : TcpConn} (hf : c'.asyncWriting = c.asyncWriting)
    (hw : c'.writeBuffer = c.writeBuffer) (hg : c'.writingBuffer = c.writingBuffer)
    (ht : Watches c c') (ho : c'.isOpen = c.isOpen) (hop : c'.writing = c.writing) : Aside c c' :=
  ⟨outputKept_same hf hw hg ht.silent ho hop, ht.spares⟩

theorem aside_closed {c c' : TcpConn} (hf : c'.asyncWriting = c.asyncWriting)
    (hw : c'.writeBuffer = c.writeBuffer) (hg : c'.writingBuffer = c.writingBuffer)
    (ht : Watches c c') (ho : c'.isOpen = false) (hop : c'.writing = c.writing.map .abort) :
    Aside c c' :=
  ⟨outputKept_closed hf hw hg ht.silent ho hop, ht.spares⟩

theorem aside_handleError (c : TcpConn) : Aside c c.handleError := by
  rcases handleError_cases c with ⟨f, -, he⟩ | ⟨f, -, -, he⟩ | ⟨-, -, he⟩
  · rw [he]
    exact aside_closed rfl rfl rfl (Or.inr ⟨_, rfl, rfl⟩) rfl rfl
  · rw [he]
    exact aside_closed rfl rfl rfl (Or.inr ⟨_, rfl, rfl⟩) rfl rfl
  · rw [he]
    exact aside_closed rfl rfl rfl (Or.inl rfl) rfl rfl

theorem aside_onAttachedToLoop (c : TcpConn) : Aside c c.onAttachedToLoop := by
  simp only [onAttachedToLoop]
  cases c.connFn with
  | some f => exact aside_same rfl rfl rfl (Or.inr ⟨_, rfl, rfl⟩) rfl rfl
  | none => exact aside_same rfl rfl rfl (Or.inl rfl) rfl rfl

theorem aside_asyncRead (c : TcpConn) : Aside c c.asyncRead :=
  aside_same rfl rfl rfl (Or.inr ⟨_, rfl, rfl⟩) rfl rfl

theorem aside_callCloseFn (c : TcpConn) : Aside c c.callCloseFn := by
  simp only [callCloseFn]
  cases c.closeFn with
  | some f => exact aside_same rfl rfl rfl (Or.inr ⟨_, rfl, rfl⟩) rfl rfl
  | none => exact aside_same rfl rfl rfl (Or.inl rfl) rfl rfl

theorem aside_resume (c : TcpConn) (f : Frame) : Aside c (c.resume f) := by
  have h : Aside c { c with frame := none } := aside_same rfl rfl rfl (Or.inl rfl) rfl rfl
  cases f with
  | attached => exact h.trans (aside_asyncRead _)
  | message => exact h.trans (aside_asyncRead _)
  | closing => exact h.trans (aside_callCloseFn _)
  | removing => exact aside_same rfl rfl rfl (Or.inl rfl) rfl rfl

theorem aside_handleRead (c : TcpConn) (r : ReadResult) : Aside c (c.handleRead r) := by
  cases r with
  | eof => exact aside_handleError c
  | error => exact aside_handleError c
  | ok data =>
    simp only [handleRead]
    cases c.msgFn with
    | some f => exact aside_same rfl rfl rfl (Or.inr ⟨_, rfl, rfl⟩) rfl rfl
    | none => exact aside_same rfl rfl rfl (Or.inl rfl) rfl rfl

/-- The payload that the step hands to `SendInLoop`. -/
def payload (c : TcpConn) : Event → Option Bytes
  | .send true data => some data
  | .runPosted =>
    match c.posted with
    | .sendStringInLoop message :: _ => some message
    | _ => none
  | _ => none

/-- What a step is to the output side: nothing, a payload to send, the completion
of a write in flight, or the handler of a write. -/
theorem step_output {c c' : TcpConn} {e : Event} (hc : c.step e = some c') :
    (c.payload e = none ∧ Aside c c') ∨
    (∃ fs data, c.payload e = some data ∧
      c' = ({ c with posted := fs } : TcpConn).sendInLoop data) ∨
    (∃ region r, e = .writeReady r ∧ c.writing = some ⟨region, none⟩ ∧ r.fits region = true ∧
      c' = { c with writing := some ⟨region, some r⟩ }) ∨
    (e = .handleWrite ∧ ∃ region r, c.writing = some ⟨region, some r⟩ ∧ c' =
      ({ c with writing := none, trace := c.trace ++ [.handleWrite region r] } :
        TcpConn).handleWrite r) := by
  cases e with
  | send inLoop data =>
    cases hc
    cases inLoop with
    | true => exact Or.inr (Or.inl ⟨c.posted, data, rfl, rfl⟩)
    | false => exact Or.inl ⟨rfl, aside_same rfl rfl rfl (Or.inl rfl) rfl rfl⟩
  | close | setConnCallback _ | setMessageCallback _ | setHighWaterMarkCallback _ _
  | setCloseCallback _ =>
    cases hc
    exact Or.inl ⟨rfl, aside_same rfl rfl rfl (Or.inl rfl) rfl rfl⟩
  | editRecv f =>
    obtain ⟨-, ⟨⟩⟩ := Option.ite_none_right_eq_some.mp hc
    exact Or.inl ⟨rfl, aside_same rfl rfl rfl (Or.inl rfl) rfl rfl⟩
  | readReady r =>
    obtain ⟨room, -, -, rfl⟩ := readReady_cases hc
    exact Or.inl ⟨rfl, aside_same rfl rfl rfl (Or.inl rfl) rfl rfl⟩
  | writeReady r =>
    obtain ⟨region, hop, hr, rfl⟩ := writeReady_cases hc
    exact Or.inr (Or.inr (Or.inl ⟨region, r, rfl, hop, hr, rfl⟩))
  | runPosted =>
    obtain ⟨f, fs, hp, -, rfl⟩ := runPosted_cases hc
    have hk : Aside c { c with posted := fs } := aside_same rfl rfl rfl (Or.inl rfl) rfl rfl
    cases f with
    | onAttachedToLoop =>
      exact Or.inl ⟨by simp [payload, hp], hk.trans (aside_onAttachedToLoop _)⟩
    | closeSocket =>
      exact Or.inl ⟨by simp [payload, hp], aside_closed rfl rfl rfl (Or.inl rfl) rfl rfl⟩
    | sendStringInLoop message =>
      exact Or.inr (Or.inl ⟨fs, message, by simp [payload, hp], rfl⟩)
  | handleRead =>
    obtain ⟨room, r, -, -, rfl⟩ := startRead_cases hc
    have hk : Aside c { c with reading := none, trace := c.trace ++ [.handleRead r] } :=
      aside_same rfl rfl rfl (Or.inr ⟨_, rfl, rfl⟩) rfl rfl
    exact Or.inl ⟨rfl, hk.trans (aside_handleRead _ r)⟩
  | handleWrite =>
    obtain ⟨region, r, hop, -, rfl⟩ := startWrite_cases hc
    exact Or.inr (Or.inr (Or.inr ⟨rfl, region, r, hop, rfl⟩))
  | resume =>
    obtain ⟨f, -, rfl⟩ := Option.map_eq_some_iff.mp hc
    exact Or.inl ⟨rfl, aside_resume c f⟩
  | throw =>
    obtain ⟨f, -, rfl⟩ := Option.map_eq_some_iff.mp hc
    exact Or.inl ⟨rfl, aside_same rfl rfl rfl (Or.inl rfl) rfl rfl⟩

-- ════════════════════════════════════════════════════════════════════════
-- Sending
-- ════════════════════════════════════════════════════════════════════════

/-- `AsyncWrite` with the buffers at rest, the first one filled before the second. -/
theorem outputInv_asyncWrite {c : TcpConn} (hg : c.writingBuffer.WF) (hw : c.writeBuffer.WF)
    (hf : c.asyncWriting = false) (hop : c.writing = none)
    (hfirst : c.isOpen = true → c.writingBuffer.size = 0 → c.writeBuffer.size = 0) :
    OutputInv c.asyncWrite := by
  rcases asyncWrite_cases hf with ⟨hz, he⟩ | ⟨hpos, he⟩
  · rw [he]
    refine ⟨hg, hw, by simp [hf, hop], ?_, ?_, ?_, fun ho _ => ⟨hz, hfirst ho hz⟩⟩
    all_goals simp [hop]
  · rw [he]
    refine ⟨hg, hw, rfl, ?_, ?_, ?_, ?_⟩
    · rintro op ⟨⟩
      rfl
    · rintro op n ⟨⟩ hr
      cases ho : c.isOpen <;> simp [ho] at hr
    · rintro op ⟨⟩ hr
      cases ho : c.isOpen with
      | false => simp [ho] at hr
      | true => rfl
    · rintro - ⟨⟩

theorem streams_asyncWrite {c : TcpConn} {ch : Channel UInt8} (hf : c.asyncWriting = false)
    (h : Streams c ch) : Streams c.asyncWrite ch := by
  rcases asyncWrite_cases hf with ⟨-, he⟩ | ⟨-, he⟩
  · rw [he]
    exact h
  · rw [he]
    refine ⟨?_, ?_, h.pending⟩
    · rw [h.accepted, accepted_snoc]
      exact (List.append_nil _).symm
    · rw [h.delivered, written_snoc]
      exact (List.append_nil _).symm

/-- `SendInLoop` pushes its payload, unless the socket is closed. -/
theorem sendInLoop_streams {c : TcpConn} {ch : Channel UInt8} (h : OutputInv c)
    (hs : Streams c ch) (data : Bytes) :
    OutputInv (c.sendInLoop data) ∧
      ∃ ch', Channel.Step ch ch' ∧ Streams (c.sendInLoop data) ch' := by
  rcases sendInLoop_cases c data with ⟨-, he⟩ | ⟨ho, hf, he⟩ | ⟨-, hf, tail, htail, he⟩
  · have hk : OutputKept c (c.sendInLoop data) := by
      rw [he]
      exact outputKept_same rfl rfl rfl (Or.inr ⟨_, ⟨rfl, rfl⟩, rfl⟩) rfl rfl
    exact ⟨hk.inv h, ch, .idle ch, hk.streams hs⟩
  · have hop : c.writing = none := by simpa [hf] using h.flag
    obtain ⟨-, hz⟩ := h.drained ho hop
    rw [he, if_neg (by omega)]
    refine ⟨?_, ch.push data, .push ch data, streams_asyncWrite hf ⟨?_, ?_, ?_⟩⟩
    · exact outputInv_asyncWrite (wf_write h.wfWriting data) h.wfWrite hf hop fun _ _ => hz
    · rw [accepted_snoc, ← hs.accepted]
      rfl
    · rw [written_snoc, ← hs.delivered]
      exact (List.append_nil _).symm
    · have hempty : c.writeBuffer.readable = [] := (readable_eq_nil_iff h.wfWrite).mpr hz
      simp only [Channel.push, hs.pending, pending, readable_write h.wfWriting, hempty,
        List.append_nil]
  · have hsilent : tail.flatMap Obs.accepted = [] ∧ tail.flatMap Obs.written = [] := by
      rcases htail with rfl | ⟨f, n, rfl⟩ <;> exact ⟨rfl, rfl⟩
    have hop : c.writing ≠ none := by
      intro hop
      have hflag := h.flag
      simp [hop, hf] at hflag
    rw [he]
    refine ⟨?_, ch.push data, .push ch data, ?_, ?_, ?_⟩
    · exact ⟨h.wfWriting, wf_write h.wfWrite data, h.flag, h.region, h.fits, h.inFlight,
        fun _ hn => absurd hn hop⟩
    · simp only [accepted, List.flatMap_append, List.flatMap_cons, hsilent.1, List.append_nil]
      rw [← accepted, ← hs.accepted]
      rfl
    · simp only [written, List.flatMap_append, List.flatMap_cons, hsilent.2, List.append_nil]
      rw [← written, ← hs.delivered]
      exact (List.append_nil _).symm
    · simp only [Channel.push, hs.pending, pending, readable_write h.wfWrite, List.append_assoc]

-- ════════════════════════════════════════════════════════════════════════
-- Write completions
-- ════════════════════════════════════════════════════════════════════════

theorem outputInv_closed {c : TcpConn} (hg : c.writingBuffer.WF) (hw : c.writeBuffer.WF)
    (hf : c.asyncWriting = false) (hop : c.writing = none) (ho : c.isOpen = false) :
    OutputInv c := by
  refine ⟨hg, hw, by simp [hf, hop], ?_, ?_, ?_, ?_⟩
  all_goals simp [hop, ho]

/-- A failed write reports nothing and closes the socket. -/
theorem handleWrite_error_streams {c : TcpConn} {ch : Channel UInt8} (hg : c.writingBuffer.WF)
    (hw : c.writeBuffer.WF) (hop : c.writing = none) (hs : Streams c ch) :
    OutputInv (c.handleWrite .error) ∧ Streams (c.handleWrite .error) ch := by
  have hk : OutputKept { c with asyncWriting := false } (c.handleWrite .error) :=
    (aside_handleError _).kept
  have hs' : Streams { c with asyncWriting := false } ch := ⟨hs.accepted, hs.delivered, hs.pending⟩
  refine ⟨?_, hk.streams hs'⟩
  have ho : (c.handleWrite .error).isOpen = false := by
    obtain ⟨status, frame, tail, he, -⟩ := handleError_eq { c with asyncWriting := false }
    simp only [handleWrite, he]
    rfl
  have hop' : (c.handleWrite .error).writing = none := by
    rcases hk.writing with ⟨-, h⟩ | ⟨-, h⟩ <;> rw [h] <;> simp [hop]
  exact outputInv_closed (hk.writingBuffer ▸ hg) (hk.writeBuffer ▸ hw) hk.asyncWriting hop' ho

/-- A write that succeeded with `n` bytes consumes them; what is left of the
first buffer goes on, else the second one takes its place. -/
theorem handleWrite_ok_streams {c : TcpConn} {ch : Channel UInt8} {n : Nat}
    (hg : c.writingBuffer.WF) (hw : c.writeBuffer.WF) (hop : c.writing = none)
    (hn : n ≤ c.writingBuffer.size) (ha : ch.accepted = accepted c.trace)
    (hd : ch.delivered = written c.trace)
    (hp : ch.pending = c.writingBuffer.readable.drop n ++ c.writeBuffer.readable) :
    OutputInv (c.handleWrite (.ok n)) ∧ Streams (c.handleWrite (.ok n)) ch := by
  have hg' := wf_readBytes hg hn
  have hread := readable_readBytes c.writingBuffer n
  simp only [handleWrite]
  split
  · next hpos =>
    refine ⟨outputInv_asyncWrite hg' hw rfl hop fun _ hz => ?_, streams_asyncWrite rfl ⟨ha, hd, ?_⟩⟩
    · simp only at hz
      omega
    · rw [hp, ← hread]
      rfl
  · next hz =>
    have hnil : c.writingBuffer.readable.drop n = [] := by
      rw [← hread, readable_eq_nil_iff hg']
      exact Nat.eq_zero_of_not_pos hz
    split
    · next hpos =>
      refine ⟨outputInv_asyncWrite hw hg' rfl hop fun _ hz' => ?_,
        streams_asyncWrite rfl ⟨ha, hd, ?_⟩⟩
      · simp only [swapBuffers, swap] at hz'
        omega
      · rw [hp, hnil]
        simp only [pending, swapBuffers, swap, hread, hnil, List.nil_append, List.append_nil]
    · next hz' =>
      refine ⟨⟨hg', hw, by simp [hop], ?_, ?_, ?_, fun _ _ => ?_⟩, ha, hd, ?_⟩
      · simp [hop]
      · simp [hop]
      · simp [hop]
      · exact ⟨Nat.eq_zero_of_not_pos hz, Nat.eq_zero_of_not_pos hz'⟩
      · rw [hp, ← hread]
        rfl

/-- The handler of a successful write pops the bytes reported as written. -/
theorem handleWrite_pop {c : TcpConn} {ch : Channel UInt8} {region : Bytes} {n : Nat}
    (h : OutputInv c) (hs : Streams c ch) (hop : c.writing = some ⟨region, some (.ok n)⟩) :
    OutputInv (({ c with writing := none, trace := c.trace ++ [.handleWrite region (.ok n)] } :
      TcpConn).handleWrite (.ok n)) ∧
    Streams (({ c with writing := none, trace := c.trace ++ [.handleWrite region (.ok n)] } :
      TcpConn).handleWrite (.ok n)) (ch.pop n) := by
  have hregion : region = c.writingBuffer.readable := h.region _ hop
  let c₁ : TcpConn := { c with writing := none, trace := c.trace ++ [.handleWrite region (.ok n)] }
  have hacc : accepted c₁.trace = accepted c.trace :=
    (accepted_snoc _ _).trans (List.append_nil _)
  have hlen : n ≤ c.writingBuffer.readable.length := hregion ▸ h.fits _ n hop rfl
  have hwr : (ch.pop n).delivered = written c₁.trace := by
    rw [written_snoc, ← hs.delivered]
    simp only [Channel.pop, hs.pending, pending, Obs.written, hregion,
      List.take_append_of_le_length hlen]
  have hpend : (ch.pop n).pending = c.writingBuffer.readable.drop n ++ c.writeBuffer.readable := by
    simp only [Channel.pop, hs.pending, pending, List.drop_append_of_le_length hlen]
  rw [length_readable h.wfWriting] at hlen
  exact @handleWrite_ok_streams c₁ (ch.pop n) n h.wfWriting h.wfWrite rfl hlen
    (hs.accepted.trans hacc.symm) hwr hpend

theorem handleWrite_streams {c : TcpConn} {ch : Channel UInt8} {region : Bytes} {r : WriteResult}
    (h : OutputInv c) (hs : Streams c ch) (hop : c.writing = some ⟨region, some r⟩) :
    OutputInv (({ c with writing := none, trace := c.trace ++ [.handleWrite region r] } :
      TcpConn).handleWrite r) ∧
    ∃ ch', Channel.Step ch ch' ∧
      Streams (({ c with writing := none, trace := c.trace ++ [.handleWrite region r] } :
        TcpConn).handleWrite r) ch' := by
  cases r with
  | error =>
    let c₁ : TcpConn := { c with writing := none, trace := c.trace ++ [.handleWrite region .error] }
    have hacc : accepted c₁.trace = accepted c.trace :=
      (accepted_snoc _ _).trans (List.append_nil _)
    have hwr : written c₁.trace = written c.trace :=
      (written_snoc _ _).trans (List.append_nil _)
    have hs₁ : Streams c₁ ch := ⟨hs.accepted.trans hacc.symm, hs.delivered.trans hwr.symm, hs.pending⟩
    obtain ⟨hi, hs'⟩ := @handleWrite_error_streams c₁ ch h.wfWriting h.wfWrite rfl hs₁
    exact ⟨hi, ch, .idle ch, hs'⟩
  | ok n =>
    obtain ⟨hi, hs'⟩ := handleWrite_pop h hs hop
    exact ⟨hi, ch.pop n, .pop ch n, hs'⟩

/-- Every step of the connection is a channel operation. -/
theorem step_streams {c c' : TcpConn} {e : Event} {ch : Channel UInt8} (h : OutputInv c)
    (hs : Streams c ch) (hc : c.step e = some c') :
    OutputInv c' ∧ ∃ ch', Channel.Step ch ch' ∧ Streams c' ch' := by
  rcases step_output hc with ⟨-, hk⟩ | ⟨fs, data, -, rfl⟩ | ⟨region, r, -, hop, hr, rfl⟩ |
    ⟨-, region, r, hop, rfl⟩
  · exact ⟨hk.kept.inv h, ch, .idle ch, hk.kept.streams hs⟩
  · have hk : OutputKept c { c with posted := fs } :=
      outputKept_same rfl rfl rfl (Or.inl rfl) rfl rfl
    exact sendInLoop_streams (hk.inv h) (hk.streams hs) data
  · refine ⟨⟨h.wfWriting, h.wfWrite, ?_, ?_, ?_, ?_, ?_⟩, ch, .idle ch, hs.1, hs.2, hs.3⟩
    · exact h.flag.trans (by simp [hop])
    · rintro op ⟨⟩
      exact h.region ⟨region, none⟩ hop
    · rintro op n ⟨⟩ hn
      cases hn
      simpa [WriteResult.fits] using hr
    · rintro op ⟨⟩ ⟨⟩
    · rintro - ⟨⟩
  · exact handleWrite_streams h hs hop

theorem outputInv_initial {c : TcpConn} (h : Initial c) : OutputInv c ∧ Streams c .empty := by
  obtain ⟨name, type, connFn, msgFn, closeFn, rfl⟩ := h
  have hz : ByteBuffer.new.readable ++ ByteBuffer.new.readable = [] := by simp
  refine ⟨⟨wf_new, wf_new, rfl, ?_, ?_, ?_, fun _ _ => ⟨rfl, rfl⟩⟩, rfl, rfl, hz.symm⟩
  · rintro op ⟨⟩
  · rintro op n ⟨⟩
  · rintro op ⟨⟩

/-- A send on an open connection with nothing to write goes out at once. -/
theorem step_send_idle {c : TcpConn} {data : Bytes} (h : OutputInv c) (ho : c.isOpen = true)
    (hop : c.writing = none) (hd : data ≠ []) :
    c.step (.send true data) = some { c with
      asyncWriting := true
      writingBuffer := c.writingBuffer.write data
      writing := some ⟨data, none⟩
      trace := c.trace ++ [.sendInLoop data true, .asyncWrite data] } := by
  have hf : c.asyncWriting = false := h.flag.trans (by rw [hop]; rfl)
  obtain ⟨hz, hz'⟩ := h.drained ho hop
  have hread : (c.writingBuffer.write data).readable = data := by
    rw [readable_write h.wfWriting, (readable_eq_nil_iff h.wfWriting).mpr hz, List.nil_append]
  have hpos : 0 < (c.writingBuffer.write data).size := by
    rw [← length_readable (wf_write h.wfWriting data), hread]
    exact List.length_pos_iff.mpr hd
  simp [step, send, sendInLoop, emit, ho, hf, hz', asyncWrite, hread, Nat.pos_iff_ne_zero.mp hpos]

/-- Along every run the connection implements a channel. -/
theorem run_streams {c₀ c : TcpConn} {es : List Event} {G : TcpConn → Event → TcpConn → Prop}
    (h₀ : Initial c₀) (hr : Runs step G c₀ es c) : OutputInv c ∧ ∃ ch, Streams c ch := by
  obtain ⟨hi, hs⟩ := outputInv_initial h₀
  have hstep : ∀ c e c', (OutputInv c ∧ ∃ ch, Streams c ch) → G c e c' → c.step e = some c' →
      OutputInv c' ∧ ∃ ch, Streams c' ch := by
    rintro c e c' ⟨hi, ch, hs⟩ - hc
    obtain ⟨hi', ch', -, hs'⟩ := step_streams hi hs hc
    exact ⟨hi', ch', hs'⟩
  exact hr.invariant hstep ⟨hi, _, hs⟩

end TcpConn

end Libasio
