import Libasio.OutputStream

/-!
# The life cycle of a connection

Attachment, the chain of reads, and the close of the socket. The output side
never touches these (`TcpConn.OutputOnly`), and an attached connection is
either waiting for a read or closed (`TcpConn.LiveInv`).

## Main results

- `TcpConn.outputOnly_sendInLoop`, `TcpConn.outputOnly_handleWrite` — frames
- `TcpConn.run_sound` — both invariants hold along every run
-/

namespace Libasio

open Transition

namespace TcpConn

/-- Nothing but the output side has changed. -/
def OutputOnly (c c' : TcpConn) : Prop :=
  ∃ asyncWriting writing writeBuffer writingBuffer tail,
    c' = { c with
      asyncWriting := asyncWriting, writing := writing, writeBuffer := writeBuffer,
      writingBuffer := writingBuffer, trace := c.trace ++ tail } ∧
    ∀ o ∈ tail, o.isOutput = true

theorem OutputOnly.trans {a b c : TcpConn} (h : OutputOnly a b) (h' : OutputOnly b c) :
    OutputOnly a c := by
  obtain ⟨_, _, _, _, t, rfl, ht⟩ := h
  obtain ⟨f, w, b, g, u, rfl, hu⟩ := h'
  refine ⟨f, w, b, g, t ++ u, by simp only [List.append_assoc], ?_⟩
  intro o ho
  exact (List.mem_append.mp ho).elim (ht o) (hu o)

/-- The output fields are set, nothing is observed. -/
theorem outputOnly_set (c : TcpConn) (asyncWriting : Bool) (writeBuffer writingBuffer : ByteBuffer) :
    OutputOnly c { c with
      asyncWriting := asyncWriting, writeBuffer := writeBuffer, writingBuffer := writingBuffer } :=
  ⟨asyncWriting, c.writing, writeBuffer, writingBuffer, [], by simp, by simp⟩

theorem outputOnly_asyncWrite (c : TcpConn) : OutputOnly c c.asyncWrite := by
  simp only [asyncWrite]
  split
  · exact outputOnly_set c c.asyncWriting c.writeBuffer c.writingBuffer
  · exact ⟨_, _, _, _, _, rfl, by simp [Obs.isOutput]⟩

/-- Sending leaves the life cycle alone. -/
theorem outputOnly_sendInLoop (c : TcpConn) (data : Bytes) : OutputOnly c (c.sendInLoop data) := by
  rcases sendInLoop_cases c data with ⟨-, he⟩ | ⟨-, -, he⟩ | ⟨-, -, tail, htail, he⟩
  · exact ⟨_, _, _, _, _, he, by simp [Obs.isOutput]⟩
  · rw [he]
    refine OutputOnly.trans ?_ (outputOnly_asyncWrite _)
    split <;> exact ⟨_, _, _, _, _, rfl, by simp [Obs.isOutput]⟩
  · refine ⟨_, _, _, _, _, he, ?_⟩
    rcases htail with rfl | ⟨f, n, rfl⟩ <;> simp [Obs.isOutput]

/-- A successful write completion leaves the life cycle alone. -/
theorem outputOnly_handleWrite (c : TcpConn) (n : Nat) : OutputOnly c (c.handleWrite (.ok n)) := by
  simp only [handleWrite]
  split
  · exact (outputOnly_set c false c.writeBuffer _).trans (outputOnly_asyncWrite _)
  · split
    · exact (outputOnly_set c false _ c.writeBuffer).trans (outputOnly_asyncWrite _)
    · exact outputOnly_set c false c.writeBuffer _

theorem OutputOnly.spares {p : Obs → Bool} (hp : ∀ o : Obs, o.isOutput = true → p o = false)
    {c c' : TcpConn} (h : OutputOnly c c') : Spares p c c' := by
  obtain ⟨_, _, _, _, t, rfl, ht⟩ := h
  exact ⟨t, rfl, fun o ho => hp o (ht o ho)⟩

/-- What holds also while a handler is running. -/
structure LiveCore (c : TcpConn) : Prop where
  unattached : ¬c.Attached → ∃ fs, c.posted = .onAttachedToLoop :: fs ∧
    .onAttachedToLoop ∉ fs ∧ c.reading = none
  fresh : ¬c.Attached ∨ c.frame = some .attached → c.recvBuffer = .new
  attached : c.frame = some .attached ∨ c.frame = some .message → c.Attached ∧ c.reading = none
  closed : c.frame = some .closing ∨ c.frame = some .removing → c.isOpen = false
  inFlight : ∀ room, c.reading = some ⟨room, none⟩ → c.isOpen = true ∧ 0 < room

/-- `HandleRead` has been given an error, and has run the close sequence. -/
def ReadEnded (trace : List Obs) : Prop :=
  ∃ r, (r = .eof ∨ r = .error) ∧ Obs.handleRead r ∈ trace

theorem ReadEnded.append {t : List Obs} (h : ReadEnded t) (u : List Obs) : ReadEnded (t ++ u) := by
  obtain ⟨r, hr, hm⟩ := h
  exact ⟨r, hr, List.mem_append_left u hm⟩

/-- The reads of an attached connection go on until one of them fails. -/
structure LiveInv (c : TcpConn) : Prop extends LiveCore c where
  armed : c.Attached → c.escaped = false →
    c.armed = true ∨ (c.isOpen = false ∧ ReadEnded c.trace)

theorem LiveInv.armed_or_closed {c : TcpConn} (h : LiveInv c) (ha : c.Attached)
    (hx : c.escaped = false) : c.armed = true ∨ c.isOpen = false :=
  (h.armed ha hx).imp_right And.left

theorem LiveInv.outputOnly {c c' : TcpConn} (h : LiveInv c) (hk : OutputOnly c c') : LiveInv c' := by
  obtain ⟨_, _, _, _, _, rfl, -⟩ := hk
  exact ⟨⟨h.unattached, h.fresh, h.attached, h.closed, h.inFlight⟩,
    fun ha hx => (h.armed ha hx).imp_right fun hr => ⟨hr.1, hr.2.append _⟩⟩

/-- Only an attached connection reads. -/
theorem LiveInv.attached_of_reading {c : TcpConn} {op : ReadOp} (h : LiveInv c)
    (hr : c.reading = some op) : c.Attached := by
  by_contra hna
  obtain ⟨_, -, -, hnone⟩ := h.unattached hna
  rw [hr] at hnone
  cases hnone

/-- A read that was aborted is not in flight. -/
theorem abort_ne_inFlight (op : Option ReadOp) (room : Nat) :
    op.map ReadOp.abort ≠ some ⟨room, none⟩ := by
  intro he
  obtain ⟨op, -, hop⟩ := Option.map_eq_some_iff.mp he
  cases hr : op.result <;> simp [ReadOp.abort, hr] at hop

/-- A handler that ended in the close sequence. -/
theorem liveInv_handleError {c : TcpConn} (h : LiveCore c)
    (hr : c.Attached → c.escaped = false → c.reading.isSome = true ∨ ReadEnded c.trace) :
    LiveInv c.handleError := by
  have hun : ¬c.Attached → ∃ fs, c.posted = .onAttachedToLoop :: fs ∧
      .onAttachedToLoop ∉ fs ∧ c.reading.map ReadOp.abort = none := by
    intro ha
    obtain ⟨fs, hp, hfs, hr⟩ := h.unattached ha
    exact ⟨fs, hp, hfs, by rw [hr]; rfl⟩
  have hfresh : ¬c.Attached → c.recvBuffer = .new := fun ha => h.fresh (Or.inl ha)
  have harmed : ∀ {c' : TcpConn}, c'.reading = c.reading.map ReadOp.abort → c'.isOpen = false →
      c.trace <+: c'.trace → c.Attached → c.escaped = false →
      c'.armed = true ∨ (c'.isOpen = false ∧ ReadEnded c'.trace) := by
    rintro c' hr' ho ⟨t, ht⟩ ha hx
    rcases hr ha hx with hsome | hended
    · exact Or.inl (by simp [TcpConn.armed, hr', hsome])
    · exact Or.inr ⟨ho, ht ▸ hended.append t⟩
  obtain ⟨status, frame, tail, he, hfa, hfm, -⟩ := handleError_eq c
  rw [he]
  refine ⟨⟨hun, ?_, ?_, fun _ => rfl, fun room hr => absurd hr (abort_ne_inFlight _ room)⟩,
    harmed rfl rfl (List.prefix_append _ _)⟩
  · rintro (ha | hf)
    · exact hfresh ha
    · exact absurd hf hfa
  · rintro (hf | hf)
    · exact absurd hf hfa
    · exact absurd hf hfm

/-- The part of the life cycle that a step can leave as it is. -/
theorem LiveInv.same {c c' : TcpConn} (h : LiveInv c) (hp : c'.posted = c.posted)
    (hb : c'.recvBuffer = c.recvBuffer) (hr : c'.reading = c.reading) (hf : c'.frame = c.frame)
    (ho : c'.isOpen = c.isOpen) (he : c'.escaped = c.escaped) (ht : c'.trace = c.trace) :
    LiveInv c' := by
  obtain ⟨⟨h₁, h₂, h₃, h₄, h₅⟩, h₆⟩ := h
  refine ⟨⟨?_, ?_, ?_, ?_, ?_⟩, ?_⟩
  all_goals simp only [Attached, TcpConn.armed, ho, hb, hr, hp, hf, he, ht] at *
  all_goals assumption

/-- Posting anything but the attachment. -/
theorem LiveInv.post {c : TcpConn} (h : LiveInv c) {f : Functor} (hf : f ≠ .onAttachedToLoop) :
    LiveInv (c.post f) := by
  have ha : (c.post f).Attached ↔ c.Attached := by
    simp [Attached, TcpConn.post, hf.symm]
  refine ⟨⟨?_, ?_, ?_, h.closed, h.inFlight⟩, ?_⟩
  · intro hn
    obtain ⟨fs, hp, hfs, hr⟩ := h.unattached (mt ha.mpr hn)
    exact ⟨fs ++ [f], by simp [TcpConn.post, hp], by simp [hfs, hf.symm], hr⟩
  · rw [ha]
    exact h.fresh
  · rw [ha]
    exact h.attached
  · rw [ha]
    exact h.armed

theorem idle_iff {c : TcpConn} : c.idle = true ↔ c.frame = none ∧ c.escaped = false := by
  simp [idle]

/-- `OnAttachedToLoop` runs once, on a connection that nothing has been read from. -/
theorem liveInv_onAttachedToLoop {c : TcpConn} {fs : List Functor} (h : LiveInv c)
    (hp : c.posted = .onAttachedToLoop :: fs) :
    LiveInv ({ c with posted := fs } : TcpConn).onAttachedToLoop := by
  have hna : ¬c.Attached := by simp [Attached, hp]
  obtain ⟨fs', hp', hfs, hr⟩ := h.unattached hna
  obtain rfl : fs = fs' := by simpa [hp] using hp'
  have hb := h.fresh (Or.inl hna)
  simp only [onAttachedToLoop]
  cases c.connFn with
  | some f =>
    refine ⟨⟨absurd hfs, fun _ => hb, fun _ => ⟨hfs, hr⟩, ?_, h.inFlight⟩, fun _ _ => ?_⟩
    · rintro (⟨⟨⟩⟩ | ⟨⟨⟩⟩)
    · exact Or.inl (by simp [TcpConn.armed, emit])
  | none =>
    refine ⟨⟨absurd hfs, fun _ => hb, ?_, ?_, h.inFlight⟩, ?_⟩
    · rintro (⟨⟨⟩⟩ | ⟨⟨⟩⟩)
    · rintro (⟨⟨⟩⟩ | ⟨⟨⟩⟩)
    · rintro - ⟨⟩

/-- Taking any other functor from the queue. -/
theorem LiveInv.pop {c : TcpConn} {f : Functor} {fs : List Functor} (h : LiveInv c)
    (hp : c.posted = f :: fs) (hf : f ≠ .onAttachedToLoop) :
    Attached { c with posted := fs } ∧ LiveInv { c with posted := fs } := by
  have ha : c.Attached := by
    by_contra hna
    obtain ⟨_, hp', -⟩ := h.unattached hna
    rw [hp] at hp'
    exact hf (List.cons.inj hp').1
  have hfs : Attached { c with posted := fs } := by
    simp only [Attached, hp, List.mem_cons, not_or] at ha
    exact ha.2
  exact ⟨hfs, ⟨absurd hfs, fun hfr => h.fresh (hfr.imp_left (absurd hfs)),
    fun hfr => ⟨hfs, (h.attached hfr).2⟩, h.closed, h.inFlight⟩, fun _ => h.armed ha⟩

theorem liveInv_runPosted {c c' : TcpConn} (h : LiveInv c) (hc : c.runPosted = some c') :
    LiveInv c' := by
  obtain ⟨f, fs, hp, -, rfl⟩ := runPosted_cases hc
  by_cases hf : f = .onAttachedToLoop
  · subst hf
    exact liveInv_onAttachedToLoop h hp
  · obtain ⟨hfs, hrest⟩ := h.pop hp hf
    cases f with
    | onAttachedToLoop => exact absurd rfl hf
    | sendStringInLoop message => exact hrest.outputOnly (outputOnly_sendInLoop _ message)
    | closeSocket =>
      refine ⟨⟨absurd hfs, hrest.fresh, ?_, fun _ => rfl, ?_⟩, fun ha hx => ?_⟩
      · intro hfr
        refine ⟨hfs, ?_⟩
        simp only [runFunctor, closeSocket, Option.map_eq_none_iff]
        exact (h.attached hfr).2
      · exact fun room he => absurd he (abort_ne_inFlight _ room)
      · rcases hrest.armed ha hx with harmed | ⟨-, hended⟩
        · exact Or.inl (by simpa [TcpConn.armed, runFunctor, closeSocket] using harmed)
        · exact Or.inr ⟨rfl, hended⟩

theorem liveInv_startRead {c c' : TcpConn} (h : LiveInv c) (hc : c.startRead = some c') :
    LiveInv c' := by
  obtain ⟨room, r, hr, hidle, rfl⟩ := startRead_cases hc
  obtain ⟨hf, -⟩ := idle_iff.mp hidle
  have ha := h.attached_of_reading hr
  have hcore : LiveCore { c with reading := none, trace := c.trace ++ [.handleRead r] } :=
    ⟨absurd ha, h.fresh, fun hfr => ⟨ha, rfl⟩, h.closed, by rintro _ ⟨⟩⟩
  have hlast : ∀ r, Obs.handleRead r ∈ c.trace ++ [Obs.handleRead r] := fun r => by simp
  cases r with
  | eof => exact liveInv_handleError hcore fun _ _ => Or.inr ⟨_, Or.inl rfl, hlast _⟩
  | error => exact liveInv_handleError hcore fun _ _ => Or.inr ⟨_, Or.inr rfl, hlast _⟩
  | ok data =>
    simp only [handleRead]
    cases c.msgFn with
    | some f =>
      refine ⟨⟨absurd ha, ?_, fun _ => ⟨ha, rfl⟩, ?_, by rintro _ ⟨⟩⟩, fun _ _ => ?_⟩
      · rintro (hna | ⟨⟨⟩⟩)
        exact absurd ha hna
      · rintro (⟨⟨⟩⟩ | ⟨⟨⟩⟩)
      · exact Or.inl (by simp [TcpConn.armed, emit])
    | none =>
      refine ⟨⟨absurd ha, ?_, ?_, ?_, by rintro _ ⟨⟩⟩, ?_⟩
      · rintro (hna | ⟨⟨⟩⟩)
        exact absurd ha hna
      · rintro (⟨⟨⟩⟩ | ⟨⟨⟩⟩)
      · rintro (⟨⟨⟩⟩ | ⟨⟨⟩⟩)
      · rintro - ⟨⟩

/-- `AsyncRead` after a callback of an attached connection. -/
theorem liveInv_asyncRead {c : TcpConn} (ha : c.Attached) (hf : c.frame = none) :
    LiveInv c.asyncRead := by
  refine ⟨⟨absurd ha, ?_, ?_, ?_, ?_⟩, fun _ _ => Or.inl rfl⟩
  · rintro (hna | hfr)
    · exact absurd ha hna
    · simp [asyncRead, emit, hf] at hfr
  · simp [asyncRead, emit, hf]
  · simp [asyncRead, emit, hf]
  · intro room hr
    simp only [asyncRead, emit, Option.some.injEq, ReadOp.mk.injEq] at hr
    obtain ⟨rfl, hres⟩ := hr
    split at hres
    · cases hres
    · next hz =>
      refine ⟨?_, Nat.pos_of_ne_zero hz⟩
      cases ho : c.isOpen with
      | true => exact ho
      | false => simp [ho] at hres

/-- Inside the close sequence only the outstanding read counts. -/
theorem LiveInv.resumed {c c' : TcpConn} (h : LiveInv c)
    (hf : c.frame = some .closing ∨ c.frame = some .removing) (hr : c'.reading = c.reading)
    (ho : c'.isOpen = c.isOpen) (ht : c.trace <+: c'.trace) (ha : c.Attached)
    (hx : c.escaped = false) : c'.armed = true ∨ (c'.isOpen = false ∧ ReadEnded c'.trace) := by
  obtain ⟨t, ht⟩ := ht
  rcases h.armed ha hx with harmed | ⟨-, hended⟩
  · left
    have hsome : c.reading.isSome = true := by
      rcases hf with hf | hf <;> simpa [TcpConn.armed, hf] using harmed
    simp [TcpConn.armed, hr, hsome]
  · exact Or.inr ⟨ho.trans (h.closed hf), ht ▸ hended.append t⟩

theorem liveInv_resume {c : TcpConn} {f : Frame} (h : LiveInv c) (hf : c.frame = some f) :
    LiveInv (c.resume f) := by
  cases f with
  | attached => exact liveInv_asyncRead (h.attached (Or.inl hf)).1 rfl
  | message => exact liveInv_asyncRead (h.attached (Or.inr hf)).1 rfl
  | closing =>
    have ho := h.closed (Or.inl hf)
    have hfresh : ¬c.Attached → c.recvBuffer = .new := fun hna => h.fresh (Or.inl hna)
    simp only [resume, callCloseFn]
    cases c.closeFn with
    | some g =>
      refine ⟨⟨h.unattached, ?_, ?_, fun _ => ho, h.inFlight⟩,
        h.resumed (Or.inl hf) rfl rfl (List.prefix_append _ _)⟩
      · rintro (hna | ⟨⟨⟩⟩)
        exact hfresh hna
      · rintro (⟨⟨⟩⟩ | ⟨⟨⟩⟩)
    | none =>
      refine ⟨⟨h.unattached, ?_, ?_, fun _ => ho, h.inFlight⟩,
        h.resumed (Or.inl hf) rfl rfl List.prefix_rfl⟩
      · rintro (hna | ⟨⟨⟩⟩)
        exact hfresh hna
      · rintro (⟨⟨⟩⟩ | ⟨⟨⟩⟩)
  | removing =>
    have ho := h.closed (Or.inr hf)
    refine ⟨⟨h.unattached, ?_, ?_, fun _ => ho, h.inFlight⟩,
      h.resumed (Or.inr hf) rfl rfl List.prefix_rfl⟩
    · rintro (hna | ⟨⟨⟩⟩)
      exact h.fresh (Or.inl hna)
    · rintro (⟨⟨⟩⟩ | ⟨⟨⟩⟩)

theorem step_live {c c' : TcpConn} {e : Event} (h : LiveInv c) (hc : c.step e = some c') :
    LiveInv c' := by
  cases e with
  | send inLoop data =>
    cases hc
    cases inLoop with
    | true => exact h.outputOnly (outputOnly_sendInLoop c data)
    | false => exact h.post (by simp)
  | close =>
    cases hc
    have hs : LiveInv { c with status := .kDisconnecting } := h.same rfl rfl rfl rfl rfl rfl rfl
    exact hs.post (by simp)
  | setConnCallback _ | setMessageCallback _ | setHighWaterMarkCallback _ _ | setCloseCallback _ =>
    cases hc
    exact h.same rfl rfl rfl rfl rfl rfl rfl
  | editRecv f =>
    obtain ⟨hf, ⟨⟩⟩ := Option.ite_none_right_eq_some.mp hc
    obtain ⟨ha, hr⟩ := h.attached (Or.inr hf)
    refine ⟨⟨absurd ha, ?_, h.attached, h.closed, h.inFlight⟩, h.armed⟩
    rintro (hna | hfr)
    · exact absurd ha hna
    · rw [hf] at hfr
      cases hfr
  | readReady r =>
    obtain ⟨room, hr, -, rfl⟩ := readReady_cases hc
    have ha := h.attached_of_reading hr
    have hfr : ¬(c.frame = some .attached ∨ c.frame = some .message) := by
      intro hfr
      have hnone := (h.attached hfr).2
      rw [hr] at hnone
      cases hnone
    exact ⟨⟨absurd ha, h.fresh, fun hf => absurd hf hfr, h.closed, by rintro _ ⟨⟩⟩,
      fun _ _ => Or.inl rfl⟩
  | writeReady r =>
    obtain ⟨region, -, -, rfl⟩ := writeReady_cases hc
    exact h.same rfl rfl rfl rfl rfl rfl rfl
  | runPosted => exact liveInv_runPosted h hc
  | handleRead => exact liveInv_startRead h hc
  | handleWrite =>
    obtain ⟨region, r, -, hidle, rfl⟩ := startWrite_cases hc
    cases r with
    | error =>
      refine liveInv_handleError ⟨h.unattached, h.fresh, h.attached, h.closed, h.inFlight⟩ ?_
      intro ha hx
      obtain ⟨hf, -⟩ := idle_iff.mp hidle
      rcases h.armed ha hx with harmed | ⟨-, hended⟩
      · exact Or.inl (by simpa [TcpConn.armed, hf] using harmed)
      · exact Or.inr (hended.append _)
    | ok n =>
      exact h.outputOnly (OutputOnly.trans
        ⟨c.asyncWriting, none, c.writeBuffer, c.writingBuffer, _, rfl, by simp [Obs.isOutput]⟩
        (outputOnly_handleWrite _ n))
  | resume =>
    obtain ⟨f, hf, rfl⟩ := Option.map_eq_some_iff.mp hc
    exact liveInv_resume h hf
  | throw =>
    obtain ⟨f, hf, rfl⟩ := Option.map_eq_some_iff.mp hc
    refine ⟨⟨h.unattached, ?_, ?_, ?_, h.inFlight⟩, ?_⟩
    · rintro (hna | ⟨⟨⟩⟩)
      exact h.fresh (Or.inl hna)
    · rintro (⟨⟨⟩⟩ | ⟨⟨⟩⟩)
    · rintro (⟨⟨⟩⟩ | ⟨⟨⟩⟩)
    · rintro - ⟨⟩

theorem liveInv_initial {c : TcpConn} (h : Initial c) : LiveInv c := by
  obtain ⟨name, type, connFn, msgFn, closeFn, rfl⟩ := h
  refine ⟨⟨fun _ => ⟨[], rfl, by simp, rfl⟩, fun _ => rfl, ?_, ?_, by rintro _ ⟨⟩⟩, ?_⟩
  · rintro (⟨⟨⟩⟩ | ⟨⟨⟩⟩)
  · rintro (⟨⟨⟩⟩ | ⟨⟨⟩⟩)
  · intro ha
    exact absurd (List.mem_singleton.mpr rfl) ha

/-- On a closed socket nothing is sent. -/
theorem sendInLoop_closed {c : TcpConn} (h : c.isOpen = false) (data : Bytes) :
    c.sendInLoop data = { c with trace := c.trace ++ [.sendInLoop data false] } := by
  simp [sendInLoop, emit, h]

/-- A read on a closed socket, into a buffer with room, fails. -/
theorem asyncRead_closed {c : TcpConn} (ho : c.isOpen = false) (hroom : c.recvBuffer.validSize ≠ 0) :
    c.asyncRead = { c with
      reading := some ⟨c.recvBuffer.validSize, some .error⟩
      trace := c.trace ++ [.asyncRead c.recvBuffer.validSize] } := by
  simp only [asyncRead, emit, if_neg hroom, ho, Bool.false_eq_true, if_false]

/-- A drained write leaves nothing behind. -/
theorem handleWrite_drained {c : TcpConn} {region : Bytes} {n : Nat} (h : OutputInv c)
    (hop : c.writing = some ⟨region, some (.ok n)⟩) (hq : c.writeFails = false) :
    ({ c with writing := none, trace := c.trace ++ [.handleWrite region (.ok n)] } :
      TcpConn).handleWrite (.ok n) =
    { c with
      writing := none, asyncWriting := false, writingBuffer := c.writingBuffer.readBytes n,
      trace := c.trace ++ [.handleWrite region (.ok n)] } := by
  have hregion : region = c.writingBuffer.readable := h.region _ hop
  have hlen : region.length = c.writingBuffer.size := by
    rw [hregion, ByteBuffer.length_readable h.wfWriting]
  simp only [writeFails, hop, decide_eq_false_iff_not, not_or, Nat.not_lt, Nat.le_zero] at hq
  have hz : (c.writingBuffer.readBytes n).size = 0 := by
    simp only [ByteBuffer.readBytes, ByteBuffer.size] at hlen ⊢
    omega
  simp [handleWrite, hz, hq.2]

/-- Closing the socket makes no write fail that would not fail anyway. -/
theorem writeFails_closeSocket (c : TcpConn) : c.closeSocket.writeFails = c.writeFails := by
  rcases hw : c.writing with _ | ⟨region, _ | _ | _⟩ <;>
    simp [writeFails, closeSocket, WriteOp.abort, hw]

theorem asyncWrite_closed {c : TcpConn} (ho : c.isOpen = false) (hf : c.asyncWriting = false)
    (hz : 0 < c.writingBuffer.size) : c.asyncWrite.writeFails = true := by
  rcases asyncWrite_cases hf with ⟨hz', -⟩ | ⟨-, he⟩
  · omega
  · rw [he]
    simp [writeFails, ho]

/-- On a closed socket, what a write has not drained makes another one fail. -/
theorem handleWrite_undrained {c : TcpConn} {region : Bytes} {n : Nat} (h : OutputInv c)
    (ho : c.isOpen = false) (hop : c.writing = some ⟨region, some (.ok n)⟩)
    (hq : c.writeFails = true) :
    (({ c with writing := none, trace := c.trace ++ [.handleWrite region (.ok n)] } :
      TcpConn).handleWrite (.ok n)).writeFails = true := by
  have hregion : region = c.writingBuffer.readable := h.region _ hop
  have hlen : region.length = c.writingBuffer.size := by
    rw [hregion, ByteBuffer.length_readable h.wfWriting]
  simp only [writeFails, hop, decide_eq_true_eq] at hq
  simp only [handleWrite]
  split
  · next hz => exact asyncWrite_closed ho rfl hz
  · next hz =>
    have hz' : 0 < c.writeBuffer.size := by
      simp only [ByteBuffer.readBytes, ByteBuffer.size] at hz hlen hq ⊢
      omega
    rw [if_pos hz']
    exact asyncWrite_closed ho rfl hz'

/-- The callbacks that handlers call without a test are set. -/
def CallbacksSet (c : TcpConn) : Prop := c.connFn ≠ none ∧ c.msgFn ≠ none

/-- With both callbacks set, only a callback that throws makes a handler throw. -/
theorem step_callbacksSet {c c' : TcpConn} {e : Event} (h : CallbacksSet c) (ht : e ≠ .throw)
    (hcf : e ≠ .setConnCallback none) (hmf : e ≠ .setMessageCallback none)
    (hc : c.step e = some c') : CallbacksSet c' ∧ c'.escaped = c.escaped := by
  have output : ∀ {a b : TcpConn}, OutputOnly a b → CallbacksSet a → a.escaped = c.escaped →
      CallbacksSet b ∧ b.escaped = c.escaped := by
    intro a b hk ha hx
    obtain ⟨_, _, _, _, _, rfl, -⟩ := hk
    exact ⟨ha, hx⟩
  have failed : ∀ {a : TcpConn}, CallbacksSet a → a.escaped = c.escaped →
      CallbacksSet a.handleError ∧ a.handleError.escaped = c.escaped := by
    intro a ha hx
    obtain ⟨status, frame, tail, he, -⟩ := handleError_eq a
    rw [he]
    exact ⟨ha, hx⟩
  cases e with
  | send inLoop data =>
    cases hc
    cases inLoop with
    | true => exact output (outputOnly_sendInLoop c data) h rfl
    | false => exact ⟨h, rfl⟩
  | close | setHighWaterMarkCallback _ _ | setCloseCallback _ =>
    cases hc
    exact ⟨h, rfl⟩
  | setConnCallback cb =>
    cases hc
    exact ⟨⟨fun hn => hcf (congrArg Event.setConnCallback hn), h.2⟩, rfl⟩
  | setMessageCallback cb =>
    cases hc
    exact ⟨⟨h.1, fun hn => hmf (congrArg Event.setMessageCallback hn)⟩, rfl⟩
  | editRecv edit =>
    obtain ⟨-, ⟨⟩⟩ := Option.ite_none_right_eq_some.mp hc
    exact ⟨h, rfl⟩
  | readReady r =>
    obtain ⟨room, -, -, rfl⟩ := readReady_cases hc
    exact ⟨h, rfl⟩
  | writeReady r =>
    obtain ⟨region, -, -, rfl⟩ := writeReady_cases hc
    exact ⟨h, rfl⟩
  | runPosted =>
    obtain ⟨f, fs, -, -, rfl⟩ := runPosted_cases hc
    cases f with
    | closeSocket => exact ⟨h, rfl⟩
    | sendStringInLoop message =>
      exact output (outputOnly_sendInLoop { c with posted := fs } message) h rfl
    | onAttachedToLoop =>
      obtain ⟨f, hf⟩ := Option.ne_none_iff_exists'.mp h.1
      simp only [runFunctor, onAttachedToLoop, hf]
      exact ⟨⟨by simp [emit], h.2⟩, rfl⟩
  | handleRead =>
    obtain ⟨room, r, -, -, rfl⟩ := startRead_cases hc
    cases r with
    | eof | error => exact failed h rfl
    | ok data =>
      obtain ⟨f, hf⟩ := Option.ne_none_iff_exists'.mp h.2
      simp only [handleRead, hf]
      exact ⟨⟨h.1, by simp [emit]⟩, rfl⟩
  | handleWrite =>
    obtain ⟨region, r, -, -, rfl⟩ := startWrite_cases hc
    cases r with
    | ok n =>
      exact output (outputOnly_handleWrite
        { c with writing := none, trace := c.trace ++ [.handleWrite region (.ok n)] } n) h rfl
    | error => exact failed h rfl
  | resume =>
    obtain ⟨f, -, rfl⟩ := Option.map_eq_some_iff.mp hc
    cases f with
    | attached | message | removing => exact ⟨h, rfl⟩
    | closing =>
      simp only [resume, callCloseFn]
      cases c.closeFn with
      | some g => exact ⟨h, rfl⟩
      | none => exact ⟨h, rfl⟩
  | throw => exact absurd rfl ht

/-- The queue of the loop after a step: its first functor is taken, or one is posted. -/
def Event.queueAfter (posted : List Functor) : Event → List Functor
  | .runPosted => posted.tail
  | .send false data => posted ++ [.sendStringInLoop data]
  | .close => posted ++ [.closeSocket]
  | _ => posted

theorem step_posted {c c' : TcpConn} {e : Event} (hc : c.step e = some c') :
    c'.posted = e.queueAfter c.posted := by
  have output : ∀ {a b : TcpConn}, OutputOnly a b → b.posted = a.posted := by
    rintro a b ⟨_, _, _, _, _, rfl, -⟩
    rfl
  have failed : ∀ a : TcpConn, a.handleError.posted = a.posted := by
    intro a
    obtain ⟨status, frame, tail, he, -⟩ := handleError_eq a
    rw [he]
    rfl
  cases e with
  | send inLoop data =>
    cases hc
    cases inLoop with
    | true => exact output (outputOnly_sendInLoop c data)
    | false => rfl
  | close =>
    cases hc
    rfl
  | setConnCallback _ | setMessageCallback _ | setHighWaterMarkCallback _ _ | setCloseCallback _ =>
    cases hc
    rfl
  | editRecv edit =>
    obtain ⟨-, ⟨⟩⟩ := Option.ite_none_right_eq_some.mp hc
    rfl
  | readReady r =>
    obtain ⟨room, -, -, rfl⟩ := readReady_cases hc
    rfl
  | writeReady r =>
    obtain ⟨region, -, -, rfl⟩ := writeReady_cases hc
    rfl
  | runPosted =>
    obtain ⟨f, fs, hp, -, rfl⟩ := runPosted_cases hc
    simp only [hp, Event.queueAfter, List.tail_cons]
    cases f with
    | onAttachedToLoop =>
      simp only [runFunctor, onAttachedToLoop]
      split <;> rfl
    | closeSocket => rfl
    | sendStringInLoop message => exact output (outputOnly_sendInLoop _ message)
  | handleRead =>
    obtain ⟨room, r, -, -, rfl⟩ := startRead_cases hc
    cases r with
    | eof | error => exact failed _
    | ok data =>
      simp only [handleRead, Event.queueAfter]
      split <;> rfl
  | handleWrite =>
    obtain ⟨region, r, -, -, rfl⟩ := startWrite_cases hc
    cases r with
    | error => exact failed _
    | ok n =>
      have hk := output (outputOnly_handleWrite
        { c with writing := none, trace := c.trace ++ [.handleWrite region (.ok n)] } n)
      exact hk
  | resume =>
    obtain ⟨f, -, rfl⟩ := Option.map_eq_some_iff.mp hc
    cases f with
    | attached | message | removing => rfl
    | closing =>
      simp only [resume, callCloseFn, Event.queueAfter]
      split <;> rfl
  | throw =>
    obtain ⟨f, -, rfl⟩ := Option.map_eq_some_iff.mp hc
    rfl

/-- Steps in which the loop starts, continues or leaves a handler. -/
def Event.isLoop : Event → Bool
  | .runPosted | .handleRead | .handleWrite | .resume | .throw => true
  | _ => false

/-- All other steps leave the running handler alone. -/
theorem step_outside {c c' : TcpConn} {e : Event} (he : e.isLoop = false)
    (hc : c.step e = some c') : c'.frame = c.frame ∧ c'.escaped = c.escaped := by
  cases e with
  | send inLoop data =>
    cases hc
    cases inLoop with
    | true =>
      obtain ⟨_, _, _, _, _, hk, -⟩ := outputOnly_sendInLoop c data
      simp only [send, if_true, hk, and_self]
    | false => exact ⟨rfl, rfl⟩
  | close | setConnCallback _ | setMessageCallback _ | setHighWaterMarkCallback _ _
  | setCloseCallback _ =>
    cases hc
    exact ⟨rfl, rfl⟩
  | editRecv edit =>
    obtain ⟨-, ⟨⟩⟩ := Option.ite_none_right_eq_some.mp hc
    exact ⟨rfl, rfl⟩
  | readReady r =>
    obtain ⟨room, -, -, rfl⟩ := readReady_cases hc
    exact ⟨rfl, rfl⟩
  | writeReady r =>
    obtain ⟨region, -, -, rfl⟩ := writeReady_cases hc
    exact ⟨rfl, rfl⟩
  | runPosted | handleRead | handleWrite | resume | throw => cases he

/-- While a handler is under way, or an exception is, the loop can only go on in the
handler. -/
theorem step_busy {c c' : TcpConn} {e : Event} (hb : c.idle ≠ true) (hl : e.isLoop = true)
    (hc : c.step e = some c') : ∃ f, c.frame = some f ∧
      (e = .resume ∧ c' = c.resume f ∨ e = .throw ∧ c' = c.throw) := by
  cases e with
  | runPosted =>
    obtain ⟨f, fs, -, hi, -⟩ := runPosted_cases hc
    exact absurd hi hb
  | handleRead =>
    obtain ⟨room, r, -, hi, -⟩ := startRead_cases hc
    exact absurd hi hb
  | handleWrite =>
    obtain ⟨region, r, -, hi, -⟩ := startWrite_cases hc
    exact absurd hi hb
  | resume =>
    obtain ⟨f, hf, rfl⟩ := Option.map_eq_some_iff.mp hc
    exact ⟨f, hf, .inl ⟨rfl, rfl⟩⟩
  | throw =>
    obtain ⟨f, hf, rfl⟩ := Option.map_eq_some_iff.mp hc
    exact ⟨f, hf, .inr ⟨rfl, rfl⟩⟩
  | _ => cases hl

/-- Which handler is suspended where: steps outside the loop leave it, a free loop starts
one, and a suspended one goes on or is left by an exception. -/
theorem step_frame {c c' : TcpConn} {e : Event} (hc : c.step e = some c') :
    (c'.frame = c.frame ∧ c'.escaped = c.escaped ∧ e.isLoop = false) ∨
    (c.idle = true ∧ (e = .runPosted ∨ e = .handleRead ∨ e = .handleWrite)) ∨
    (∃ f, c.frame = some f ∧ (e = .resume ∧ c' = c.resume f ∨ e = .throw ∧ c' = c.throw)) := by
  cases hl : e.isLoop with
  | false => exact .inl ⟨(step_outside hl hc).1, (step_outside hl hc).2, rfl⟩
  | true =>
    right
    by_cases hi : c.idle = true
    · left
      refine ⟨hi, ?_⟩
      have hf := (idle_iff.mp hi).1
      cases e with
      | runPosted => exact .inl rfl
      | handleRead => exact .inr (.inl rfl)
      | handleWrite => exact .inr (.inr rfl)
      | resume | throw =>
        obtain ⟨f, hf', -⟩ := Option.map_eq_some_iff.mp hc
        cases hf.symm.trans hf'
      | _ => cases hl
    · exact .inr (step_busy hi hl hc)

theorem handleError_frame (c : TcpConn) : c.handleError.frame ≠ some .message := by
  obtain ⟨status, frame, tail, he, -, hne, -⟩ := handleError_eq c
  rw [he]
  exact hne

/-- Only the handler of a read calls the message callback. -/
theorem step_message {c c' : TcpConn} {e : Event} (hc : c.step e = some c')
    (hf : c'.frame = some .message) :
    e = .handleRead ∨ c.frame = some .message ∧ e.isLoop = false := by
  rcases step_frame hc with ⟨hsame, -, hl⟩ | ⟨hi, he | he | he⟩ | ⟨f, hframe, ⟨-, rfl⟩ | ⟨-, rfl⟩⟩
  · exact .inr ⟨hsame ▸ hf, hl⟩
  · have hnone := (idle_iff.mp hi).1
    subst he
    obtain ⟨g, fs, -, -, rfl⟩ := runPosted_cases hc
    cases g with
    | onAttachedToLoop =>
      simp only [runFunctor, onAttachedToLoop] at hf
      split at hf
      · cases hf
      · cases hf
    | closeSocket => cases hnone.symm.trans hf
    | sendStringInLoop message =>
      obtain ⟨_, _, _, _, _, hk, -⟩ := outputOnly_sendInLoop { c with posted := fs } message
      rw [runFunctor, hk] at hf
      cases hnone.symm.trans hf
  · exact .inl he
  · have hnone := (idle_iff.mp hi).1
    subst he
    obtain ⟨region, r, -, -, rfl⟩ := startWrite_cases hc
    cases r with
    | error => exact absurd hf (handleError_frame _)
    | ok n =>
      obtain ⟨_, _, _, _, _, hk, -⟩ := outputOnly_handleWrite
        { c with writing := none, trace := c.trace ++ [.handleWrite region (.ok n)] } n
      rw [hk] at hf
      cases hnone.symm.trans hf
  · cases f with
    | attached | message | removing => cases hf
    | closing =>
      simp only [resume, callCloseFn] at hf
      split at hf
      · cases hf
      · cases hf
  · cases hf

/-- An exception that has left the loop stays out. -/
theorem step_escaped {c c' : TcpConn} {e : Event} (hx : c.escaped = true)
    (hc : c.step e = some c') : c'.escaped = true := by
  have busy : c.idle ≠ true := fun hi => by simp [(idle_iff.mp hi).2] at hx
  cases hl : e.isLoop with
  | false => exact (step_outside hl hc).2.trans hx
  | true =>
    obtain ⟨f, -, ⟨-, rfl⟩ | ⟨-, rfl⟩⟩ := step_busy busy hl hc
    · cases f with
      | attached | message | removing => exact hx
      | closing =>
        simp only [resume, callCloseFn]
        split <;> exact hx
    · rfl

/-- What holds in every state of a connection. -/
structure Sound (c : TcpConn) : Prop where
  output : OutputInv c
  stream : ∃ ch, Streams c ch
  live : LiveInv c

theorem sound_initial {c : TcpConn} (h : Initial c) : Sound c :=
  ⟨(outputInv_initial h).1, ⟨_, (outputInv_initial h).2⟩, liveInv_initial h⟩

theorem step_sound {c c' : TcpConn} {e : Event} (h : Sound c) (hc : c.step e = some c') :
    Sound c' := by
  obtain ⟨ho, ⟨ch, hs⟩, hl⟩ := h
  obtain ⟨ho', ch', -, hs'⟩ := step_streams ho hs hc
  exact ⟨ho', ⟨ch', hs'⟩, step_live hl hc⟩

/-- Every run goes through sound states only. -/
theorem run_sound {c₀ c : TcpConn} {es : List Event} {G : TcpConn → Event → TcpConn → Prop}
    (h₀ : Initial c₀) (hr : Runs step G c₀ es c) :
    Runs step (fun s e t => Sound s ∧ G s e t) c₀ es c :=
  hr.strengthen (fun _ _ _ h _ hc => step_sound h hc) (sound_initial h₀)

/-- A connection that has been attached and waits for its first read. -/
def established (name : String) (type : ConnType) (connFn : Callback) (msgFn : Option Callback)
    (closeFn : CloseCallback) : TcpConn :=
  { handedOver name type (some connFn) msgFn closeFn with
    status := .kConnected
    posted := []
    reading := some ⟨ByteBuffer.defaultSize, none⟩
    trace := [.connFn connFn .kConnected, .asyncRead ByteBuffer.defaultSize] }

/-- A read on an open socket, into a buffer with room, stays in flight. -/
theorem asyncRead_open {c : TcpConn} (ho : c.isOpen = true) (hroom : c.recvBuffer.validSize ≠ 0) :
    c.asyncRead = { c with
      reading := some ⟨c.recvBuffer.validSize, none⟩
      trace := c.trace ++ [.asyncRead c.recvBuffer.validSize] } := by
  simp only [asyncRead, emit, if_neg hroom, ho, if_true]

/-- The same connection while `OnAttachedToLoop` is in its callback. -/
def attaching (name : String) (type : ConnType) (connFn : Callback) (msgFn : Option Callback)
    (closeFn : CloseCallback) : TcpConn :=
  { handedOver name type (some connFn) msgFn closeFn with
    status := .kConnected
    posted := []
    frame := some .attached
    trace := [.connFn connFn .kConnected] }

theorem step_attaching (name : String) (type : ConnType) (connFn : Callback)
    (msgFn : Option Callback) (closeFn : CloseCallback) :
    (handedOver name type (some connFn) msgFn closeFn).step .runPosted =
      some (attaching name type connFn msgFn closeFn) := rfl

theorem step_established (name : String) (type : ConnType) (connFn : Callback)
    (msgFn : Option Callback) (closeFn : CloseCallback) :
    (attaching name type connFn msgFn closeFn).step .resume =
      some (established name type connFn msgFn closeFn) := by
  let c : TcpConn := { attaching name type connFn msgFn closeFn with frame := none }
  have hroom : c.recvBuffer.validSize = ByteBuffer.defaultSize := ByteBuffer.validSize_new
  have hread : c.asyncRead = established name type connFn msgFn closeFn := by
    rw [asyncRead_open rfl (by rw [hroom]; simp [ByteBuffer.defaultSize]), hroom]
    rfl
  exact congrArg some hread

theorem run_established {G : TcpConn → Event → TcpConn → Prop} (name : String) (type : ConnType)
    (connFn : Callback) (msgFn : Option Callback) (closeFn : CloseCallback)
    (hp : ∀ c c', G c .runPosted c') (hr : ∀ c c', G c .resume c') :
    Runs step G (handedOver name type (some connFn) msgFn closeFn) [.runPosted, .resume]
      (established name type connFn msgFn closeFn) :=
  .cons (step_attaching _ _ _ _ _) (hp _ _)
    (.cons (step_established _ _ _ _ _) (hr _ _) (.nil _))

theorem sound_established (name : String) (type : ConnType) (connFn : Callback)
    (msgFn : Option Callback) (closeFn : CloseCallback) :
    Sound (established name type connFn msgFn closeFn) :=
  (@run_established anyStep name type connFn msgFn closeFn (fun _ _ => trivial)
    fun _ _ => trivial).invariant (fun _ _ _ h _ hc => step_sound h hc)
    (sound_initial ⟨_, _, _, _, _, rfl⟩)

/-- What a payload leaves behind that was sent and written in one piece: an empty
buffer whose positions are both further on. -/
def rounded (c : TcpConn) (data : Bytes) : TcpConn :=
  { c with
    asyncWriting := false
    writingBuffer := (c.writingBuffer.write data).readBytes data.length
    writing := none
    trace := c.trace ++ [.sendInLoop data true, .asyncWrite data] ++
      [.handleWrite data (.ok data.length)] }

theorem run_round {c : TcpConn} {data : Bytes} (hs : Sound c) (ho : c.isOpen = true)
    (hop : c.writing = none) (hidle : c.idle = true) (hd : data ≠ []) :
    Runs step (fun _ _ c' => c'.backlog ≤ data.length) c
        [.send true data, .writeReady (.ok data.length), .handleWrite] (rounded c data) ∧
      Sound (rounded c data) := by
  obtain ⟨hz, hz'⟩ := hs.output.drained ho hop
  have hsend := step_send_idle hs.output ho hop hd
  let c₁ : TcpConn := { c with
    asyncWriting := true, writingBuffer := c.writingBuffer.write data,
    writing := some ⟨data, none⟩
    trace := c.trace ++ [.sendInLoop data true, .asyncWrite data] }
  let c₂ : TcpConn := { c₁ with writing := some ⟨data, some (.ok data.length)⟩ }
  have hs₁ : Sound c₁ := step_sound hs hsend
  have hready : c₁.step (.writeReady (.ok data.length)) = some c₂ :=
    step_writeReady rfl (decide_eq_true le_rfl)
  have hs₂ : Sound c₂ := step_sound hs₁ hready
  have hq : c₂.writeFails = false := by simp [writeFails, c₂, c₁, hz']
  have hhandle : c₂.step .handleWrite = some (rounded c data) := by
    have hidle₂ : c₂.idle = true := hidle
    have hdrained := handleWrite_drained hs₂.output rfl hq
    exact (if_pos hidle₂).trans (congrArg some hdrained)
  have hsize : (c.writingBuffer.write data).size = data.length := by
    rw [ByteBuffer.size_write hs.output.wfWriting, hz, Nat.zero_add]
  refine ⟨.cons hsend ?_ (.cons hready ?_ (.cons hhandle ?_ (.nil _))), step_sound hs₂ hhandle⟩
  · simp only [backlog, hz', hsize, Nat.zero_add, le_refl]
  · simp only [backlog, c₂, c₁, hz', hsize, Nat.zero_add, le_refl]
  · simp only [backlog, rounded, hz']
    simp only [ByteBuffer.readBytes, ByteBuffer.size] at hsize ⊢
    omega

end TcpConn

end Libasio
