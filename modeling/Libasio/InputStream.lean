import Libasio.ReadRoom

/-!
# The input side of a connection

The receive buffer as a lossless channel: what asio reads goes in at the back,
what the message callbacks consume comes out at the front.

## Main definitions

- `TcpConn.received`, `TcpConn.arrived` — what the handlers were given, and what
  the reads have delivered
- `TcpConn.reads` — the same bytes, read by read
- `TcpConn.takes` — what a step consumes
- `TcpConn.Consumes` — the connection implements a channel

## Main results

- `TcpConn.step_input` — what a step can be to the input side
- `TcpConn.step_consumes` — every step is a channel operation
- `TcpConn.input_stream_intact` — nothing is lost, duplicated or reordered
-/

namespace Libasio

/-- The bytes that a successful read hands to `HandleRead`. -/
def Obs.received : Obs → Bytes
  | .handleRead (.ok data) => data
  | _ => []

def Obs.isArrival : Obs → Bool
  | .handleRead _ => true
  | _ => false

theorem Obs.isArrival_of_isOutput {o : Obs} (h : o.isOutput = true) : o.isArrival = false := by
  cases o <;> simp_all [isOutput, isArrival]

open ByteBuffer Transition

namespace TcpConn

/-- Everything that `HandleRead` was given, in order. -/
def received (trace : List Obs) : Bytes := trace.flatMap Obs.received

/-- Everything that asio has read, the read that waits for its handler included. -/
def arrived (c : TcpConn) : Bytes := received c.trace ++ c.queued

/-- A read has been completed with end of file, and waits for its handler. -/
def atEof (c : TcpConn) : Bool :=
  match c.reading with
  | some ⟨_, some .eof⟩ => true
  | _ => false

/-- The bytes that a read is completed with. -/
def Event.arrival : Event → Bytes
  | .readReady (.ok data) => data
  | _ => []

/-- The bytes that the message callback consumes. -/
def takes (c : TcpConn) : Event → Bytes
  | .editRecv (.consume k _) => c.recvBuffer.readable.take k
  | _ => []

/-- The connection implements the channel. -/
structure Consumes (c : TcpConn) (ch : Channel UInt8) : Prop where
  accepted : ch.accepted = c.arrived
  pending : ch.pending = c.recvBuffer.readable ++ c.queued

theorem received_snoc (t : List Obs) (o : Obs) : received (t ++ [o]) = received t ++ o.received := by
  simp only [received, List.flatMap_append, List.flatMap_singleton]

theorem received_eq_nil {t : List Obs} (h : ∀ o ∈ t, o.isArrival = false) : received t = [] := by
  refine List.flatMap_eq_nil_iff.mpr fun o ho => ?_
  have hn := h o ho
  cases o with
  | handleRead => cases hn
  | _ => rfl

/-- The data of the successful reads that were handed to `HandleRead`, one by one. -/
def reads (trace : List Obs) : List Bytes :=
  trace.filterMap fun
    | .handleRead (.ok data) => some data
    | _ => none

theorem reads_append (t u : List Obs) : reads (t ++ u) = reads t ++ reads u :=
  List.filterMap_append

theorem reads_eq_nil {t : List Obs} (h : ∀ o ∈ t, o.isArrival = false) : reads t = [] := by
  refine List.filterMap_eq_nil_iff.mpr fun o ho => ?_
  have hn := h o ho
  cases o with
  | handleRead => cases hn
  | _ => rfl

theorem flatten_reads (trace : List Obs) : (reads trace).flatten = received trace := by
  induction trace with
  | nil => rfl
  | cons o trace ih =>
    have hcons : received (o :: trace) = o.received ++ received trace := rfl
    rw [hcons, ← ih]
    cases o with
    | handleRead r => cases r <;> rfl
    | _ => rfl

-- ════════════════════════════════════════════════════════════════════════
-- Steps that leave the input alone
-- ════════════════════════════════════════════════════════════════════════

/-- No read handler is observed, and the buffer and the read that waits for its
handler are as before. -/
structure InputSame (c c' : TcpConn) : Prop where
  recvBuffer : c'.recvBuffer = c.recvBuffer
  queued : c'.queued = c.queued
  atEof : c'.atEof = c.atEof
  spares : Spares Obs.isArrival c c'

theorem InputSame.trans {a b c : TcpConn} (h : InputSame a b) (h' : InputSame b c) :
    InputSame a c :=
  ⟨h'.recvBuffer.trans h.recvBuffer, h'.queued.trans h.queued, h'.atEof.trans h.atEof,
    h.spares.trans h'.spares⟩

theorem InputSame.received {c c' : TcpConn} (h : InputSame c c') :
    received c'.trace = TcpConn.received c.trace := by
  obtain ⟨t, ht, hn⟩ := h.spares
  rw [ht, TcpConn.received, List.flatMap_append, ← TcpConn.received, ← TcpConn.received,
    received_eq_nil hn, List.append_nil]

theorem atEof_abort {c c' : TcpConn} (h : c'.reading = c.reading.map .abort) :
    c'.atEof = c.atEof := by
  rcases hr : c.reading with _ | ⟨room, _ | _ | _ | _⟩ <;> simp [atEof, h, hr, ReadOp.abort]

/-- The input side is kept, and no read handler is observed. -/
theorem InputKept.same {c c' : TcpConn} (h : InputKept c c') (hs : Spares Obs.isArrival c c') :
    InputSame c c' := by
  rcases h.reading with hr | hr
  · exact ⟨h.recvBuffer, by rw [queued, queued, hr], by rw [atEof, atEof, hr], hs⟩
  · exact ⟨h.recvBuffer, queued_abort hr, atEof_abort hr, hs⟩

theorem inputSame_one {c c' : TcpConn} {o : Obs} (hb : c'.recvBuffer = c.recvBuffer)
    (hr : c'.reading = c.reading ∨ c'.reading = c.reading.map .abort)
    (ht : c'.trace = c.trace ++ [o]) (ho : o.isRead = false) (ha : o.isArrival = false) :
    InputSame c c' :=
  (inputKept_one hb hr ht ho).same (spares_one ht ha)

theorem inputSame_rest {c c' : TcpConn} (hb : c'.recvBuffer = c.recvBuffer)
    (hr : c'.reading = c.reading ∨ c'.reading = c.reading.map .abort)
    (ht : c'.trace = c.trace) : InputSame c c' :=
  (inputKept_same hb hr ht).same (spares_same ht)

theorem OutputOnly.inputSame {c c' : TcpConn} (h : OutputOnly c c') : InputSame c c' :=
  h.inputKept.same (h.spares fun _ => Obs.isArrival_of_isOutput)

theorem inputSame_handleError (c : TcpConn) : InputSame c c.handleError := by
  obtain ⟨status, frame, tail, he, -, -, htail⟩ := handleError_eq c
  refine (inputKept_handleError c).same ⟨tail, by rw [he], fun o ho => ?_⟩
  rcases htail o ho with ⟨f, rfl⟩ | ⟨f, rfl⟩ <;> rfl

theorem inputSame_onAttachedToLoop (c : TcpConn) : InputSame c c.onAttachedToLoop := by
  simp only [onAttachedToLoop]
  cases c.connFn with
  | some f => exact inputSame_one rfl (Or.inl rfl) rfl rfl rfl
  | none => exact inputSame_rest rfl (Or.inl rfl) rfl

/-- A read that is just issued has delivered nothing, even into an empty region. -/
theorem inputSame_asyncRead {c : TcpConn} (hr : c.reading = none) : InputSame c c.asyncRead := by
  have hq : c.queued = [] := by rw [queued, hr]
  have he : c.atEof = false := by rw [atEof, hr]
  have hfresh : c.asyncRead.queued = [] ∧ c.asyncRead.atEof = false := by
    simp only [queued, atEof, asyncRead, emit]
    by_cases hz : c.recvBuffer.validSize = 0
    · simp [hz]
    · cases ho : c.isOpen <;> simp [hz]
  exact ⟨rfl, hfresh.1.trans hq.symm, hfresh.2.trans he.symm, spares_one rfl rfl⟩

theorem inputSame_resume {c : TcpConn} {f : Frame} (hl : LiveInv c) (hf : c.frame = some f) :
    InputSame c (c.resume f) := by
  have h : InputSame c { c with frame := none } := inputSame_rest rfl (Or.inl rfl) rfl
  cases f with
  | attached => exact h.trans (inputSame_asyncRead (hl.attached (Or.inl hf)).2)
  | message => exact h.trans (inputSame_asyncRead (hl.attached (Or.inr hf)).2)
  | closing =>
    simp only [resume, callCloseFn]
    cases c.closeFn with
    | some g => exact inputSame_one rfl (Or.inl rfl) rfl rfl rfl
    | none => exact inputSame_rest rfl (Or.inl rfl) rfl
  | removing => exact inputSame_rest rfl (Or.inl rfl) rfl

/-- What a step is to the input side: nothing, the completion of a read in flight,
the handler of a read, or what the message callback does to the buffer. -/
theorem step_input {c c' : TcpConn} {e : Event} (hl : LiveInv c) (hc : c.step e = some c') :
    (e.arrival = [] ∧ c.takes e = [] ∧ InputSame c c') ∨
    (∃ room r, e = .readReady r ∧ c.reading = some ⟨room, none⟩ ∧
      c' = { c with reading := some ⟨room, some r⟩ }) ∨
    (∃ room r, e = .handleRead ∧ c.reading = some ⟨room, some r⟩ ∧ c' =
      ({ c with reading := none, trace := c.trace ++ [.handleRead r] } : TcpConn).handleRead r) ∨
    (∃ edit, e = .editRecv edit ∧ c.reading = none ∧
      c' = { c with recvBuffer := edit.apply c.recvBuffer }) := by
  cases e with
  | send inLoop data =>
    cases hc
    cases inLoop with
    | true => exact Or.inl ⟨rfl, rfl, (outputOnly_sendInLoop c data).inputSame⟩
    | false => exact Or.inl ⟨rfl, rfl, inputSame_rest rfl (Or.inl rfl) rfl⟩
  | close | setConnCallback _ | setMessageCallback _ | setHighWaterMarkCallback _ _
  | setCloseCallback _ =>
    cases hc
    exact Or.inl ⟨rfl, rfl, inputSame_rest rfl (Or.inl rfl) rfl⟩
  | editRecv edit =>
    obtain ⟨hf, ⟨⟩⟩ := Option.ite_none_right_eq_some.mp hc
    exact Or.inr (Or.inr (Or.inr ⟨edit, rfl, (hl.attached (Or.inr hf)).2, rfl⟩))
  | readReady r =>
    obtain ⟨room, hr, -, rfl⟩ := readReady_cases hc
    exact Or.inr (Or.inl ⟨room, r, rfl, hr, rfl⟩)
  | writeReady r =>
    obtain ⟨region, -, -, rfl⟩ := writeReady_cases hc
    exact Or.inl ⟨rfl, rfl, inputSame_rest rfl (Or.inl rfl) rfl⟩
  | runPosted =>
    obtain ⟨f, fs, -, -, rfl⟩ := runPosted_cases hc
    have hfs : InputSame c { c with posted := fs } := inputSame_rest rfl (Or.inl rfl) rfl
    cases f with
    | onAttachedToLoop => exact Or.inl ⟨rfl, rfl, hfs.trans (inputSame_onAttachedToLoop _)⟩
    | closeSocket => exact Or.inl ⟨rfl, rfl, inputSame_rest rfl (Or.inr rfl) rfl⟩
    | sendStringInLoop message =>
      exact Or.inl ⟨rfl, rfl, hfs.trans (outputOnly_sendInLoop _ message).inputSame⟩
  | handleRead =>
    obtain ⟨room, r, hr, -, rfl⟩ := startRead_cases hc
    exact Or.inr (Or.inr (Or.inl ⟨room, r, rfl, hr, rfl⟩))
  | handleWrite =>
    obtain ⟨region, r, -, -, rfl⟩ := startWrite_cases hc
    have h : ∀ asyncWriting, InputSame c { c with
        writing := none, trace := c.trace ++ [.handleWrite region r],
        asyncWriting := asyncWriting } := fun _ => inputSame_one rfl (Or.inl rfl) rfl rfl rfl
    cases r with
    | ok n =>
      exact Or.inl ⟨rfl, rfl, (h c.asyncWriting).trans (outputOnly_handleWrite _ n).inputSame⟩
    | error => exact Or.inl ⟨rfl, rfl, (h false).trans (inputSame_handleError _)⟩
  | resume =>
    obtain ⟨f, hf, rfl⟩ := Option.map_eq_some_iff.mp hc
    exact Or.inl ⟨rfl, rfl, inputSame_resume hl hf⟩
  | throw =>
    obtain ⟨f, -, rfl⟩ := Option.map_eq_some_iff.mp hc
    exact Or.inl ⟨rfl, rfl, inputSame_rest rfl (Or.inl rfl) rfl⟩

/-- The handler of a read that succeeded fills in the data; it is not received again. -/
theorem handleRead_input (c : TcpConn) (data : Bytes) :
    (c.handleRead (.ok data)).recvBuffer = c.recvBuffer.fill data ∧
      (c.handleRead (.ok data)).reading = c.reading ∧
      Spares Obs.isArrival c (c.handleRead (.ok data)) := by
  simp only [handleRead]
  cases c.msgFn with
  | some f => exact ⟨rfl, rfl, spares_one rfl rfl⟩
  | none => exact ⟨rfl, rfl, spares_same rfl⟩

/-- What the handler of a read leaves: its result is handed over, and the data of a
successful one is behind the unread content. -/
theorem handled_input {c c' : TcpConn} {room : Nat} {r : ReadResult}
    (hr : c.reading = some ⟨room, some r⟩) (hc : c' =
      ({ c with reading := none, trace := c.trace ++ [.handleRead r] } : TcpConn).handleRead r) :
    c'.recvBuffer = c.recvBuffer.fill c.queued ∧ c'.reading = none ∧
      ∃ t, c'.trace = c.trace ++ .handleRead r :: t ∧ ∀ o ∈ t, o.isArrival = false := by
  let c₁ : TcpConn := { c with reading := none, trace := c.trace ++ [.handleRead r] }
  have hsnoc : ∀ t, c₁.trace ++ t = c.trace ++ .handleRead r :: t := fun t => by
    rw [List.append_cons]
  subst hc
  cases r with
  | ok data =>
    obtain ⟨hb, hrd, t, ht, hn⟩ := handleRead_input c₁ data
    have hq : c.queued = data := by rw [queued, hr]
    exact ⟨hb.trans (by rw [hq]), hrd, t, ht.trans (hsnoc t), hn⟩
  | eof | error =>
    have hq : c.queued = [] := by rw [queued, hr]
    obtain ⟨status, frame, t, he, -, -, htail⟩ := handleError_eq c₁
    have hn : ∀ o ∈ t, o.isArrival = false := fun o ho => by
      rcases htail o ho with ⟨f, rfl⟩ | ⟨f, rfl⟩ <;> rfl
    refine ⟨(congrArg recvBuffer he).trans ?_, congrArg reading he, t,
      (congrArg trace he).trans (hsnoc t), hn⟩
    rw [hq, fill_nil]
    rfl

/-- Only the completion of a read adds to what has arrived. -/
theorem step_arrived {c c' : TcpConn} {e : Event} (hl : LiveInv c) (hc : c.step e = some c') :
    c'.arrived = c.arrived ++ e.arrival := by
  rcases step_input hl hc with ⟨hn, -, h⟩ | ⟨room, r, rfl, hr, rfl⟩ | ⟨room, r, rfl, hr, hc'⟩ |
    ⟨edit, rfl, -, rfl⟩
  · rw [hn, List.append_nil, arrived, arrived, h.received, h.queued]
  · have hq : c.queued = [] := by rw [queued, hr]
    simp only [arrived, hq, List.append_nil]
    cases r <;> rfl
  · obtain ⟨-, hrd, t, ht, hn⟩ := handled_input hr hc'
    have hq' : c'.queued = [] := by rw [queued, hrd]
    have hrec : received (c.trace ++ .handleRead r :: t) =
        received c.trace ++ (Obs.handleRead r).received := by
      rw [received, List.flatMap_append, List.flatMap_cons, ← received, ← received,
        received_eq_nil hn, List.append_nil]
    rw [arrived, arrived, ht, hrec, hq', queued, hr]
    cases r <;> simp [Obs.received, Event.arrival]
  · exact (List.append_nil _).symm

/-- Apart from the handler of a read and the callback, no step touches the buffer or hands
over data. -/
theorem step_input_same {c c' : TcpConn} {e : Event} (hl : LiveInv c) (hr : e ≠ .handleRead)
    (hedit : ∀ edit, e ≠ .editRecv edit) (hc : c.step e = some c') :
    c'.recvBuffer = c.recvBuffer ∧ reads c'.trace = reads c.trace := by
  rcases step_input hl hc with ⟨-, -, h⟩ | ⟨room, r, -, -, rfl⟩ | ⟨room, r, he, -⟩ | ⟨edit, he, -⟩
  · obtain ⟨t, ht, hn⟩ := h.spares
    rw [ht, reads_append, reads_eq_nil hn, List.append_nil]
    exact ⟨h.recvBuffer, rfl⟩
  · exact ⟨rfl, rfl⟩
  · exact absurd he hr
  · exact absurd he (hedit edit)

-- ════════════════════════════════════════════════════════════════════════
-- Reads deliver something
-- ════════════════════════════════════════════════════════════════════════

/-- A read with room that has succeeded has delivered something. -/
def Solid (c : TcpConn) : Prop :=
  ∀ room data, c.reading = some ⟨room, some (.ok data)⟩ → 0 < room → data ≠ []

theorem Solid.congr {c c' : TcpConn} (h : Solid c)
    (hr : c'.reading = c.reading ∨ c'.reading = c.reading.map .abort) : Solid c' := by
  intro room data hr'
  rcases hr with hr | hr
  · exact h room data (hr ▸ hr')
  · refine h room data ?_
    rw [hr] at hr'
    rcases hop : c.reading with _ | ⟨room₀, _ | _ | _ | _⟩ <;>
      simp_all [ReadOp.abort]

theorem solid_none {c : TcpConn} (h : c.reading = none) : Solid c := by
  intro room data hr
  cases h.symm.trans hr

theorem solid_asyncRead (c : TcpConn) : Solid c.asyncRead := by
  intro room data hr hpos
  simp only [asyncRead, emit, Option.some.injEq, ReadOp.mk.injEq] at hr
  obtain ⟨rfl, hr⟩ := hr
  rw [if_neg (Nat.pos_iff_ne_zero.mp hpos)] at hr
  cases ho : c.isOpen <;> simp [ho] at hr

theorem solid_handleError {c : TcpConn} (h : Solid c) : Solid c.handleError := by
  obtain ⟨status, frame, tail, he, -⟩ := handleError_eq c
  exact h.congr (.inr (by rw [he]; rfl))

theorem step_solid {c c' : TcpConn} {e : Event} (h : Solid c) (hc : c.step e = some c') :
    Solid c' := by
  cases e with
  | send inLoop data =>
    cases hc
    cases inLoop with
    | true =>
      obtain ⟨_, _, _, _, _, hk, -⟩ := outputOnly_sendInLoop c data
      exact h.congr (.inl (by simp only [send, if_true, hk]))
    | false => exact h.congr (.inl rfl)
  | close | setConnCallback _ | setMessageCallback _ | setHighWaterMarkCallback _ _
  | setCloseCallback _ =>
    cases hc
    exact h.congr (.inl rfl)
  | editRecv edit =>
    obtain ⟨-, ⟨⟩⟩ := Option.ite_none_right_eq_some.mp hc
    exact h.congr (.inl rfl)
  | readReady r =>
    obtain ⟨room, -, hfits, rfl⟩ := readReady_cases hc
    rintro room' data ⟨⟩ - rfl
    simp [ReadResult.fits] at hfits
  | writeReady r =>
    obtain ⟨region, -, -, rfl⟩ := writeReady_cases hc
    exact h.congr (.inl rfl)
  | runPosted =>
    obtain ⟨f, fs, -, -, rfl⟩ := runPosted_cases hc
    cases f with
    | onAttachedToLoop =>
      simp only [runFunctor, onAttachedToLoop]
      split <;> exact h.congr (.inl rfl)
    | closeSocket => exact h.congr (.inr rfl)
    | sendStringInLoop message =>
      obtain ⟨_, _, _, _, _, hk, -⟩ := outputOnly_sendInLoop { c with posted := fs } message
      exact h.congr (.inl (by rw [runFunctor, hk]))
  | handleRead =>
    obtain ⟨room, r, -, -, rfl⟩ := startRead_cases hc
    cases r with
    | eof | error => exact solid_handleError (solid_none rfl)
    | ok data =>
      simp only [handleRead]
      split <;> exact solid_none rfl
  | handleWrite =>
    obtain ⟨region, r, -, -, rfl⟩ := startWrite_cases hc
    cases r with
    | error => exact solid_handleError (h.congr (.inl rfl))
    | ok n =>
      obtain ⟨_, _, _, _, _, hk, -⟩ := outputOnly_handleWrite
        { c with writing := none, trace := c.trace ++ [.handleWrite region (.ok n)] } n
      exact h.congr (.inl (by rw [hk]))
  | resume =>
    obtain ⟨f, -, rfl⟩ := Option.map_eq_some_iff.mp hc
    cases f with
    | attached | message => exact solid_asyncRead _
    | removing => exact h.congr (.inl rfl)
    | closing =>
      simp only [resume, callCloseFn]
      split <;> exact h.congr (.inl rfl)
  | throw =>
    obtain ⟨f, -, rfl⟩ := Option.map_eq_some_iff.mp hc
    exact h.congr (.inl rfl)

-- ════════════════════════════════════════════════════════════════════════
-- Consumption
-- ════════════════════════════════════════════════════════════════════════

theorem readable_consume {b : ByteBuffer} {k : Nat} (h : b.WF) (hk : k ≤ b.size)
    (normalize : Bool) : ((Edit.consume k normalize).apply b).readable = b.readable.drop k := by
  cases normalize with
  | true =>
    exact (readable_normalize (wf_readBytes h hk)).trans (readable_readBytes b k)
  | false => exact readable_readBytes b k

/-- Every step of a connection whose message callback only consumes is a channel
operation, and delivers what the callback takes. -/
theorem step_consumes {c c' : TcpConn} {e : Event} {l : Load} {ch : Channel UInt8}
    (hl : LiveInv c) (hf : Fed l c) (h : Consumes c ch) (hg : Feeds c e c')
    (hc : c.step e = some c') :
    ∃ ch', Channel.Step ch ch' ∧ Consumes c' ch' ∧ ch'.delivered = ch.delivered ++ c.takes e := by
  have harr : c'.arrived = ch.accepted ++ e.arrival := h.accepted ▸ step_arrived hl hc
  rcases step_input hl hc with ⟨hn, htakes, hs⟩ | ⟨room, r, rfl, hr, rfl⟩ |
    ⟨room, r, rfl, hr, hc'⟩ | ⟨edit, rfl, hr, rfl⟩
  · refine ⟨ch, .idle ch, ⟨?_, ?_⟩, by rw [htakes, List.append_nil]⟩
    · rw [harr, hn, List.append_nil]
    · rw [hs.recvBuffer, hs.queued, h.pending]
  · have hq : c.queued = [] := by rw [queued, hr]
    refine ⟨ch.push (Event.arrival (.readReady r)), .push ch _, ⟨harr.symm, ?_⟩,
      (List.append_nil _).symm⟩
    simp only [Channel.push, h.pending, hq, List.append_nil]
    cases r <;> rfl
  · obtain ⟨hb, hrd, -⟩ := handled_input hr hc'
    have hq' : c'.queued = [] := by rw [queued, hrd]
    refine ⟨ch, .idle ch, ⟨(harr.trans (List.append_nil _)).symm, ?_⟩,
      (List.append_nil _).symm⟩
    rw [hq', hb, h.pending, readable_fill hf.wf, List.append_nil]
  · obtain ⟨k, normalize, rfl, hk⟩ := hg edit rfl
    have hq : c.queued = [] := by rw [queued, hr]
    have hq' : ∀ b, ({ c with recvBuffer := b } : TcpConn).queued = [] := fun _ => hq
    refine ⟨ch.pop k, .pop ch k, ⟨(harr.trans (List.append_nil _)).symm, ?_⟩, ?_⟩
    · simp only [Channel.pop, h.pending, hq, hq', List.append_nil]
      exact (readable_consume hf.wf hk normalize).symm
    · simp only [Channel.pop, h.pending, hq, List.append_nil, takes]

theorem consumes_initial {c : TcpConn} (h : Initial c) :
    Fed ⟨0, 0⟩ c ∧ Consumes c .empty := by
  obtain ⟨name, type, connFn, msgFn, closeFn, rfl⟩ := h
  refine ⟨⟨wf_new, capacity_ofSize _, rfl, rfl, ?_, ?_⟩, rfl, ?_⟩
  · rintro op ⟨⟩
  · rintro room data ⟨⟩
  · exact (congrArg (· ++ []) readable_new).symm

/-- Along a run the consumed bytes are what has come out of the channel. -/
theorem run_consumes {c₀ c : TcpConn} {es : List Event} (h₀ : Initial c₀)
    (hr : Runs step Feeds c₀ es c) :
    c.arrived = es.flatMap Event.arrival ∧ (∃ l, Fed l c) ∧
      ∃ ch, Consumes c ch ∧ ch.delivered = outputs step takes c₀ es := by
  have hkeep : ∀ es s e t,
      (Runs step Feeds c₀ es s ∧ s.arrived = es.flatMap Event.arrival ∧ (∃ l, Fed l s) ∧
        ∃ ch, Consumes s ch ∧ ch.delivered = outputs step takes c₀ es) →
      (Sound s ∧ Feeds s e t) → s.step e = some t →
      Runs step Feeds c₀ (es ++ [e]) t ∧ t.arrived = (es ++ [e]).flatMap Event.arrival ∧
        (∃ l, Fed l t) ∧ ∃ ch, Consumes t ch ∧ ch.delivered = outputs step takes c₀ (es ++ [e]) := by
    rintro es s e t ⟨hrun, harr, ⟨l, hfed⟩, ch, hch, hdel⟩ ⟨hs, hg⟩ hc
    obtain ⟨ch', -, hch', hdel'⟩ := step_consumes hs.live hfed hch hg hc
    refine ⟨hrun.snoc hc hg, ?_, ⟨_, (step_fed hs.live hfed hg hc).1⟩, ch', hch', ?_⟩
    · rw [step_arrived hs.live hc, harr, List.flatMap_append, List.flatMap_singleton]
    · rw [hdel', hdel, hrun.outputs_snoc]
  obtain ⟨hfed, hch⟩ := consumes_initial h₀
  have harr : c₀.arrived = [] := hch.accepted.symm
  exact ((run_sound h₀ hr).invariant_history hkeep
    ⟨.nil c₀, harr, ⟨_, hfed⟩, _, hch, rfl⟩).2

/-- **Input stream integrity**: what the message callbacks have consumed, then the
unread content of `recv_buffer_`, is what `HandleRead` was given; with the read that
waits for its handler it is everything that reads have delivered. -/
theorem input_stream_intact {c₀ c : TcpConn} {es : List Event} (h₀ : Initial c₀)
    (hr : Runs step Feeds c₀ es c) :
    outputs step takes c₀ es ++ c.recvBuffer.readable = received c.trace ∧
      received c.trace ++ c.queued = es.flatMap Event.arrival := by
  obtain ⟨harr, -, ch, hch, hdel⟩ := run_consumes h₀ hr
  refine ⟨?_, harr⟩
  have hconserved := ch.conserved
  rw [hdel, hch.pending, hch.accepted, arrived, ← List.append_assoc] at hconserved
  exact List.append_cancel_right hconserved

theorem input_stream_intact_consumed :
    ∃ c, Runs step Feeds (handedOver "conn" .kIncoming (some 0) (some 1) .removeConn)
      [.runPosted, .resume, .readReady (.ok [7, 8]), .handleRead,
        .editRecv (.consume 1 false)] c ∧
      outputs step takes (handedOver "conn" .kIncoming (some 0) (some 1) .removeConn)
        [.runPosted, .resume, .readReady (.ok [7, 8]), .handleRead,
          .editRecv (.consume 1 false)] ++ c.recvBuffer.readable = received c.trace ∧
      received c.trace ++ c.queued = [7, 8] := by
  have h₀ : Initial (handedOver "conn" .kIncoming (some 0) (some 1) .removeConn) :=
    ⟨_, _, _, _, _, rfl⟩
  have other : ∀ {c c' e}, (∀ edit, e ≠ .editRecv edit) → Feeds c e c' :=
    fun h edit he => absurd he (h edit)
  have hrun := @run_established Feeds "conn" .kIncoming 0 (some 1) .removeConn
    (fun _ _ => other (by simp)) fun _ _ => other (by simp)
  have hfits : (ReadResult.ok [7, 8]).fits defaultSize = true := by
    simp [ReadResult.fits, defaultSize]
  have hsize : 1 ≤ ((ByteBuffer.new.copyIn [7, 8]).writeBytes 2).size := by decide
  have hfeeds : ∀ {c c' : TcpConn}, 1 ≤ c.recvBuffer.size →
      Feeds c (.editRecv (.consume 1 false)) c' := by
    rintro c c' hk edit ⟨⟩
    exact ⟨1, false, rfl, hk⟩
  obtain ⟨c, hr⟩ : ∃ c, Runs step Feeds (handedOver "conn" .kIncoming (some 0) (some 1) .removeConn)
      ([.runPosted, .resume] ++ [.readReady (.ok [7, 8]), .handleRead,
        .editRecv (.consume 1 false)]) c :=
    ⟨_, hrun.append (.cons (step_readReady rfl hfits) (other (by simp))
      (.cons rfl (other (by simp)) (.cons rfl (hfeeds hsize) (.nil _))))⟩
  exact ⟨c, hr, input_stream_intact h₀ hr⟩

end TcpConn

end Libasio
