import Libasio.CloseSequence
import Libasio.InputStream

/-!
# A connection as an end of a link

What the socket of a connection has taken from it and handed over to it, and
which steps of the connection change that: the ones that asio reports from the
network, and no others.

## Main definitions

- `Report`, `TcpConn.Event.report` — what asio reports from the network
- `TcpConn.shipped`, `TcpConn.unshipped` — what the socket has taken of the output, and the rest
- `TcpConn.SawEof` — a read was completed with end of file

## Main results

- `TcpConn.shipped_append_unshipped` — the two parts of what was accepted
- `TcpConn.step_shipped`, `TcpConn.step_sawEof` — what a step can add
- `TcpConn.run_unreported` — without reports, both sides of the socket stay as they are
-/

namespace Libasio

/-- The completion of a read or of a write. -/
inductive Report
  | read (r : ReadResult)
  | write (r : WriteResult)
  deriving DecidableEq

open ByteBuffer Transition

namespace TcpConn

def Event.report : Event → Option Report
  | .readReady r => some (.read r)
  | .writeReady r => some (.write r)
  | _ => none

/-- The bytes of a write that has succeeded and waits for its handler. -/
def landed (c : TcpConn) : Bytes :=
  match c.writing with
  | some ⟨region, some (.ok n)⟩ => region.take n
  | _ => []

/-- Everything that the socket has taken. -/
def shipped (c : TcpConn) : Bytes := written c.trace ++ c.landed

/-- The accepted bytes that the socket has not taken. -/
def unshipped (c : TcpConn) : Bytes := c.pending.drop c.landed.length

/-- The region of the write in flight. -/
def region (c : TcpConn) : Bytes := (c.writing.map WriteOp.region).getD []

/-- The bytes that the socket takes when a report comes in. -/
def departure (c : TcpConn) : Option Report → Bytes
  | some (.write (.ok n)) => c.region.take n
  | _ => []

/-- The bytes that the socket hands over when a report comes in. -/
def arrival : Option Report → Bytes
  | some (.read (.ok data)) => data
  | _ => []

theorem arrival_report (e : Event) : arrival e.report = e.arrival := by
  cases e with
  | readReady r => cases r <;> rfl
  | _ => rfl

-- ════════════════════════════════════════════════════════════════════════
-- The output
-- ════════════════════════════════════════════════════════════════════════

/-- What has landed is at the front of the pending bytes. -/
theorem landed_append_unshipped {c : TcpConn} (h : OutputInv c) : c.landed ++ c.unshipped = c.pending := by
  suffices hpre : c.landed <+: c.pending by
    obtain ⟨t, ht⟩ := hpre
    rw [unshipped, ← ht, List.drop_left]
  rcases hop : c.writing with _ | ⟨region, _ | n | _⟩
  · simp [landed, hop]
  · simp [landed, hop]
  · have hregion : region = c.writingBuffer.readable := h.region _ hop
    simp only [landed, hop, hregion]
    exact (List.take_prefix _ _).trans (List.prefix_append _ _)
  · simp [landed, hop]

/-- What was accepted is what the socket has taken, then what it has not. -/
theorem shipped_append_unshipped {c : TcpConn} (h : Sound c) : c.shipped ++ c.unshipped = accepted c.trace := by
  obtain ⟨ch, hs⟩ := h.stream
  rw [shipped, List.append_assoc, landed_append_unshipped h.output, ← hs.accepted, ← ch.conserved,
    hs.delivered, hs.pending]

theorem landed_of_writing {c : TcpConn} (h : c.writing = none) : c.landed = [] := by
  rw [landed, h]

/-- The same bytes were written, and the same write has succeeded. -/
theorem shipped_congr {c c' : TcpConn} (ht : written c'.trace = written c.trace)
    (hop : c'.writing = c.writing ∨ c'.writing = c.writing.map .abort) : c'.shipped = c.shipped := by
  have hlanded : c'.landed = c.landed := by
    rcases hop with hop | hop
    · rw [landed, landed, hop]
    · rcases hw : c.writing with _ | ⟨region, _ | _ | _⟩ <;> simp [landed, hop, hw, WriteOp.abort]
  rw [shipped, shipped, ht, hlanded]

theorem OutputKept.shipped {c c' : TcpConn} (h : OutputKept c c') : c'.shipped = c.shipped :=
  shipped_congr h.written (h.writing.imp And.right And.right)

/-- A write that is just issued has landed nowhere. -/
theorem shipped_asyncWrite {c : TcpConn} (hf : c.asyncWriting = false) (hop : c.writing = none) :
    c.asyncWrite.shipped = c.shipped := by
  rcases asyncWrite_cases hf with ⟨-, he⟩ | ⟨-, he⟩
  · rw [he]
  · have hlanded : c.asyncWrite.landed = [] := by
      rw [he]
      cases ho : c.isOpen <;> simp [landed]
    have hwritten : written c.asyncWrite.trace = written c.trace := by
      rw [he]
      exact (written_snoc _ _).trans (List.append_nil _)
    rw [shipped, shipped, hwritten, hlanded, landed_of_writing hop]

theorem shipped_sendInLoop {c : TcpConn} (h : OutputInv c) (data : Bytes) :
    (c.sendInLoop data).shipped = c.shipped := by
  rcases sendInLoop_cases c data with ⟨-, he⟩ | ⟨ho, hf, he⟩ | ⟨-, -, tail, htail, he⟩
  · rw [he]
    exact shipped_congr ((written_snoc _ _).trans (List.append_nil _)) (Or.inl rfl)
  · have hop : c.writing = none := by simpa [hf] using h.flag
    obtain ⟨-, hz⟩ := h.drained ho hop
    have hkeep := @shipped_asyncWrite { c with
      writingBuffer := c.writingBuffer.write data
      trace := c.trace ++ [.sendInLoop data true] } hf hop
    rw [he, if_neg (by omega)]
    exact hkeep.trans (shipped_congr ((written_snoc _ _).trans (List.append_nil _)) (Or.inl rfl))
  · rw [he]
    refine shipped_congr ?_ (Or.inl rfl)
    rcases htail with rfl | ⟨f, n, rfl⟩ <;> simp [written, Obs.written]

/-- The handler of a write only moves its bytes from landed to written. -/
theorem shipped_handleWrite {c : TcpConn} {region : Bytes} {r : WriteResult}
    (hop : c.writing = some ⟨region, some r⟩) :
    (({ c with writing := none, trace := c.trace ++ [.handleWrite region r] } :
      TcpConn).handleWrite r).shipped = c.shipped := by
  let c₁ : TcpConn := { c with
    writing := none, trace := c.trace ++ [.handleWrite region r], asyncWriting := false }
  have h₁ : c₁.shipped = c.shipped := by
    rw [shipped, shipped, landed_of_writing (rfl : c₁.writing = none), List.append_nil, written_snoc,
      landed, hop]
    cases r <;> rfl
  rw [← h₁]
  cases r with
  | error => exact (aside_handleError c₁).kept.shipped
  | ok n =>
    simp only [handleWrite]
    split
    · exact (shipped_asyncWrite rfl rfl).trans (shipped_congr rfl (Or.inl rfl))
    · split
      · exact (shipped_asyncWrite rfl rfl).trans (shipped_congr rfl (Or.inl rfl))
      · exact shipped_congr rfl (Or.inl rfl)

/-- Only the completion of a write adds to what the socket has taken. -/
theorem step_shipped {c c' : TcpConn} {e : Event} (h : OutputInv c) (hc : c.step e = some c') :
    c'.shipped = c.shipped ++ c.departure e.report := by
  by_cases hr : ∃ r, e = .writeReady r
  · obtain ⟨r, rfl⟩ := hr
    obtain ⟨region, hop, -, rfl⟩ := writeReady_cases hc
    have hlanded : c.landed = [] := by rw [landed, hop]
    rw [shipped, shipped, hlanded, List.append_nil]
    cases r with
    | ok n => simp only [landed, departure, Event.report, TcpConn.region, hop, Option.map_some,
        Option.getD_some]
    | error => rfl
  · have hn : c.departure e.report = [] := by
      cases e with
      | writeReady r => exact absurd ⟨r, rfl⟩ hr
      | _ => rfl
    rw [hn, List.append_nil]
    rcases step_output hc with ⟨-, hk⟩ | ⟨fs, data, -, rfl⟩ | ⟨region, r, rfl, -⟩ |
      ⟨-, region, r, hop, rfl⟩
    · exact hk.kept.shipped
    · have hk : OutputKept c { c with posted := fs } :=
        outputKept_same rfl rfl rfl (Or.inl rfl) rfl rfl
      exact (shipped_sendInLoop (hk.inv h) data).trans hk.shipped
    · exact absurd ⟨r, rfl⟩ hr
    · exact shipped_handleWrite hop

-- ════════════════════════════════════════════════════════════════════════
-- End of file
-- ════════════════════════════════════════════════════════════════════════

/-- A read was completed with end of file; its handler may have run since. -/
def SawEof (c : TcpConn) : Prop := c.atEof = true ∨ .handleRead .eof ∈ c.trace

theorem eof_not_mem {t : List Obs} (h : ∀ o ∈ t, o.isArrival = false) : .handleRead .eof ∉ t :=
  fun hm => Bool.noConfusion (h _ hm)

theorem step_sawEof {c c' : TcpConn} {e : Event} (hl : LiveInv c) (hc : c.step e = some c')
    (h : SawEof c') : SawEof c ∨ e = .readReady .eof := by
  rcases step_input hl hc with ⟨-, -, hs⟩ | ⟨room, r, rfl, hr, rfl⟩ | ⟨room, r, rfl, hr, hc'⟩ |
    ⟨edit, rfl, -, rfl⟩
  · obtain ⟨t, ht, hn⟩ := hs.spares
    rw [SawEof, hs.atEof, ht, List.mem_append] at h
    exact Or.inl (h.imp_right fun hm => hm.resolve_right (eof_not_mem hn))
  · rcases h with h | h
    · cases r with
      | eof => exact Or.inr rfl
      | ok | error => cases h
    · exact Or.inl (Or.inr h)
  · left
    obtain ⟨-, hrd, t, ht, hn⟩ := handled_input hr hc'
    rcases h with h | h
    · rw [atEof, hrd] at h
      cases h
    · rw [ht, List.mem_append, List.mem_cons] at h
      rcases h with h | h | h
      · exact Or.inr h
      · cases h
        exact Or.inl (by rw [atEof, hr])
      · exact absurd h (eof_not_mem hn)
  · exact Or.inl h

/-- What holds of a connection as an end of a link: after end of file no data comes. -/
structure EndInv (c : TcpConn) : Prop extends Sound c where
  last : .handleRead .eof ∈ c.trace → Departed c

theorem endInv_initial {c : TcpConn} (h : Initial c) : EndInv c := by
  refine ⟨sound_initial h, ?_⟩
  obtain ⟨name, type, connFn, msgFn, closeFn, rfl⟩ := h
  exact fun hm => absurd hm List.not_mem_nil

theorem step_endInv {c c' : TcpConn} {e : Event} (h : EndInv c) (hc : c.step e = some c') :
    EndInv c' := by
  refine ⟨step_sound h.toSound hc, fun hm => ?_⟩
  by_cases hold : .handleRead .eof ∈ c.trace
  · exact (step_departed h.live (h.last hold) hc).1
  · rcases step_input h.live hc with ⟨-, -, hs⟩ | ⟨room, r, rfl, hr, rfl⟩ | ⟨room, r, rfl, hr, hc'⟩ |
      ⟨edit, rfl, -, rfl⟩
    · obtain ⟨t, ht, hn⟩ := hs.spares
      rw [ht, List.mem_append] at hm
      exact absurd (hm.resolve_right (eof_not_mem hn)) hold
    · exact absurd hm hold
    · obtain ⟨-, -, t, ht, hn⟩ := handled_input hr hc'
      rw [ht, List.mem_append, List.mem_cons] at hm
      obtain rfl : r = .eof := by
        rcases hm with hm | hm | hm
        · exact absurd hm hold
        · cases hm
          rfl
        · exact absurd hm (eof_not_mem hn)
      rw [hc']
      exact (departed_handleError (by simp)).1
    · exact absurd hm hold

/-- After end of file, everything that was read has been handed to `HandleRead`. -/
theorem queued_of_sawEof {c : TcpConn} (h : EndInv c) (he : SawEof c) : c.queued = [] := by
  rcases hr : c.reading with _ | ⟨room, _ | data | _ | _⟩
  · rw [queued, hr]
  · rw [queued, hr]
  · rcases he with he | he
    · rw [atEof, hr] at he
      cases he
    · exact absurd hr ((h.last he).noOk room data)
  · rw [queued, hr]
  · rw [queued, hr]

-- ════════════════════════════════════════════════════════════════════════
-- Runs without reports
-- ════════════════════════════════════════════════════════════════════════

/-- The network reports nothing in this step. -/
def Unreported (_ : TcpConn) (e : Event) (_ : TcpConn) : Prop := e.report = none

/-- The two sides of the socket are as before; it may have been closed. -/
structure SocketKept (c d : TcpConn) : Prop where
  shipped : d.shipped = c.shipped
  arrived : d.arrived = c.arrived
  sawEof : SawEof d → SawEof c
  isOpen : c.isOpen = false → d.isOpen = false

theorem step_unreported {c c' : TcpConn} {e : Event} (h : EndInv c) (he : e.report = none)
    (hc : c.step e = some c') : SocketKept c c' where
  shipped := by
    rw [step_shipped h.output hc, he]
    exact List.append_nil _
  arrived := by
    rw [step_arrived h.live hc, ← arrival_report, he]
    exact List.append_nil _
  sawEof heof := (step_sawEof h.live hc heof).resolve_right fun hread => by
    rw [hread] at he
    cases he
  isOpen ho := step_isOpen ho hc

theorem SocketKept.refl (c : TcpConn) : SocketKept c c := ⟨rfl, rfl, id, id⟩

theorem SocketKept.trans {a b c : TcpConn} (h : SocketKept a b) (h' : SocketKept b c) :
    SocketKept a c :=
  ⟨h'.shipped.trans h.shipped, h'.arrived.trans h.arrived, h.sawEof ∘ h'.sawEof, h'.isOpen ∘ h.isOpen⟩

theorem run_unreported {c d : TcpConn} {es : List Event} (h : EndInv c)
    (hr : Runs step Unreported c es d) : EndInv d ∧ SocketKept c d := by
  have hkeep : ∀ s e t, (EndInv s ∧ SocketKept c s) → Unreported s e t → s.step e = some t →
      EndInv t ∧ SocketKept c t := by
    rintro s e t ⟨hs, hk⟩ hu hc
    exact ⟨step_endInv hs hc, hk.trans (step_unreported hs hu hc)⟩
  exact hr.invariant hkeep ⟨h, .refl c⟩

end TcpConn

end Libasio
