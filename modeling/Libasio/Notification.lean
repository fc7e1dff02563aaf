import Libasio.Lifecycle

/-!
# Notifications of a connection

How often the end of a connection is reported, and what may follow the report.
`HandleError` and the end-of-file branch of `HandleRead` overwrite the status
before they call `HandleClose`, so every failing completion that reaches its
handler runs the close sequence.

## Main definitions

- `TcpConn.Gone` — closed, and no failing completion is to come
- `TcpConn.ClosesOnce`, `TcpConn.NoQueuedRead` — the conditions on a run

## Main results

- `TcpConn.disconnect_notified_once` — at most one report of the end
- `TcpConn.no_message_after_goodbye` — no message after that report
-/

namespace Libasio

open Transition

/-- The connection callback is invoked in disconnecting state. -/
def Obs.isGoodbye : Obs → Bool
  | .connFn _ .kDisconnecting => true
  | _ => false

def Obs.isCloseCall : Obs → Bool
  | .closeFn _ => true
  | _ => false

def Obs.isMessage : Obs → Bool
  | .msgFn _ => true
  | _ => false

theorem Obs.isGoodbye_of_isOutput {o : Obs} (h : o.isOutput = true) : o.isGoodbye = false := by
  cases o <;> simp_all [isOutput, isGoodbye]

theorem Obs.isCloseCall_of_isOutput {o : Obs} (h : o.isOutput = true) : o.isCloseCall = false := by
  cases o <;> simp_all [isOutput, isCloseCall]

theorem Obs.isMessage_of_isOutput {o : Obs} (h : o.isOutput = true) : o.isMessage = false := by
  cases o <;> simp_all [isOutput, isMessage]

namespace TcpConn

/-- How often the connection callback was invoked in disconnecting state. -/
def goodbyes (trace : List Obs) : Nat := trace.countP Obs.isGoodbye

def closeCalls (trace : List Obs) : Nat := trace.countP Obs.isCloseCall

/-- The socket is closed and no outstanding operation will end in an error. -/
structure Gone (c : TcpConn) : Prop where
  closed : c.isOpen = false
  attached : c.Attached
  unarmed : c.armed = false
  quiet : c.writeFails = false

/-- When the handler of a failing completion starts, no other operation is
outstanding that will fail, and none is to come. -/
def ClosesOnce (c : TcpConn) (e : Event) (_ : TcpConn) : Prop :=
  (e = .handleRead → c.readFailed = true → c.writeFails = false) ∧
  (e = .handleWrite → c.writeFailed = true → c.Attached ∧ c.armed = false)

/-- With a connection callback set, a failing write is handled only when no read
that has succeeded waits for its handler. -/
def NoQueuedRead (c : TcpConn) (e : Event) (_ : TcpConn) : Prop :=
  e = .handleWrite → c.writeFailed = true → c.connFn ≠ none →
    ∀ room data, c.reading ≠ some ⟨room, some (.ok data)⟩

theorem armed_eq_false {c : TcpConn} : c.armed = false ↔
    c.reading = none ∧ c.frame ≠ some .attached ∧ c.frame ≠ some .message := by
  simp [armed, and_assoc]

/-- The end of a callback on a connection that is gone. -/
theorem gone_resume {c : TcpConn} {f : Frame} (h : Gone c) (hf : c.frame = some f) :
    Gone (c.resume f) ∧ Spares Obs.isGoodbye c (c.resume f) ∧
      (c.resume f).frame ≠ some .closing ∧
      (closeCalls (c.resume f).trace = closeCalls c.trace ∨
        f = .closing ∧ closeCalls (c.resume f).trace = closeCalls c.trace + 1) := by
  obtain ⟨hr, hfa, hfm⟩ := armed_eq_false.mp h.unarmed
  cases f with
  | attached => exact absurd hf hfa
  | message => exact absurd hf hfm
  | closing =>
    simp only [resume, callCloseFn]
    cases c.closeFn with
    | some g =>
      refine ⟨⟨h.closed, h.attached, by simp [armed, emit, hr], h.quiet⟩, spares_one rfl rfl,
        by simp [emit], Or.inr ⟨trivial, ?_⟩⟩
      simp [closeCalls, emit, List.countP_append, Obs.isCloseCall]
    | none =>
      exact ⟨⟨h.closed, h.attached, by simp [armed, hr], h.quiet⟩, spares_same rfl,
        by simp, Or.inl rfl⟩
  | removing =>
    exact ⟨⟨h.closed, h.attached, by simp [resume, armed, hr], h.quiet⟩, spares_same rfl,
      by simp [resume], Or.inl rfl⟩

/-- A connection that is gone stays so. It says goodbye to nobody, and calls the
close callback only at the end of a close sequence that is under way. -/
theorem step_gone {c c' : TcpConn} {e : Event} (h : OutputInv c) (hg : Gone c)
    (hc : c.step e = some c') :
    Gone c' ∧ Spares Obs.isGoodbye c c' ∧
      ((c'.frame = c.frame ∧ closeCalls c'.trace = closeCalls c.trace) ∨
        (c.frame ≠ none ∧ c'.frame ≠ some .closing ∧ (closeCalls c'.trace = closeCalls c.trace ∨
          c.frame = some .closing ∧ closeCalls c'.trace = closeCalls c.trace + 1))) := by
  obtain ⟨hr, hfa, hfm⟩ := armed_eq_false.mp hg.unarmed
  have calm : ∀ {o : Obs}, o.isCloseCall = false →
      closeCalls (c.trace ++ [o]) = closeCalls c.trace := by
    intro o ho
    simp [closeCalls, List.countP_append, ho]
  cases e with
  | send inLoop data =>
    cases hc
    cases inLoop with
    | true =>
      simp only [send, if_true, sendInLoop_closed hg.closed]
      exact ⟨⟨hg.closed, hg.attached, hg.unarmed, hg.quiet⟩, spares_one rfl rfl,
        Or.inl ⟨trivial, calm rfl⟩⟩
    | false =>
      refine ⟨⟨hg.closed, ?_, hg.unarmed, hg.quiet⟩, spares_same rfl, Or.inl ⟨rfl, rfl⟩⟩
      simpa [Attached, send, post] using hg.attached
  | close =>
    cases hc
    refine ⟨⟨hg.closed, ?_, hg.unarmed, hg.quiet⟩, spares_same rfl, Or.inl ⟨rfl, rfl⟩⟩
    simpa [Attached, close, post] using hg.attached
  | setConnCallback _ | setMessageCallback _ | setHighWaterMarkCallback _ _ | setCloseCallback _ =>
    cases hc
    exact ⟨⟨hg.closed, hg.attached, hg.unarmed, hg.quiet⟩, spares_same rfl, Or.inl ⟨rfl, rfl⟩⟩
  | editRecv f =>
    obtain ⟨hf, -⟩ := Option.ite_none_right_eq_some.mp hc
    exact absurd hf hfm
  | readReady r =>
    obtain ⟨room, hr', -⟩ := readReady_cases hc
    rw [hr] at hr'
    cases hr'
  | writeReady r =>
    obtain ⟨region, hw, -⟩ := writeReady_cases hc
    have ho := h.inFlight _ hw rfl
    rw [hg.closed] at ho
    cases ho
  | runPosted =>
    obtain ⟨f, fs, hp, -, rfl⟩ := runPosted_cases hc
    have ha := hg.attached
    simp only [Attached, hp, List.mem_cons, not_or] at ha
    cases f with
    | onAttachedToLoop => exact absurd rfl ha.1
    | closeSocket =>
      refine ⟨⟨rfl, ha.2, ?_, ?_⟩, spares_same rfl, Or.inl ⟨rfl, rfl⟩⟩
      · exact armed_eq_false.mpr ⟨by simp [runFunctor, closeSocket, hr], hfa, hfm⟩
      · exact (writeFails_closeSocket c).trans hg.quiet
    | sendStringInLoop message =>
      have hclosed : ({ c with posted := fs } : TcpConn).isOpen = false := hg.closed
      simp only [runFunctor, sendInLoop_closed hclosed]
      exact ⟨⟨hg.closed, ha.2, hg.unarmed, hg.quiet⟩, spares_one rfl rfl,
        Or.inl ⟨trivial, calm rfl⟩⟩
  | handleRead =>
    obtain ⟨room, r, hr', -⟩ := startRead_cases hc
    rw [hr] at hr'
    cases hr'
  | handleWrite =>
    obtain ⟨region, r, hw, -, rfl⟩ := startWrite_cases hc
    cases r with
    | error =>
      have hq := hg.quiet
      simp [writeFails, hw] at hq
    | ok n =>
      rw [handleWrite_drained h hw hg.quiet]
      exact ⟨⟨hg.closed, hg.attached, hg.unarmed, rfl⟩, spares_one rfl rfl, Or.inl ⟨rfl, calm rfl⟩⟩
  | resume =>
    obtain ⟨f, hf, rfl⟩ := Option.map_eq_some_iff.mp hc
    obtain ⟨hg', hs, hfr, hk⟩ := gone_resume hg hf
    refine ⟨hg', hs, Or.inr ⟨by simp [hf], hfr, hk.imp_right fun hk => ⟨?_, hk.2⟩⟩⟩
    rw [hf, hk.1]
  | throw =>
    obtain ⟨f, hf, rfl⟩ := Option.map_eq_some_iff.mp hc
    exact ⟨⟨hg.closed, hg.attached, by simp [throw, armed, hr], hg.quiet⟩, spares_same rfl,
      Or.inr ⟨by simp [hf], by simp [throw], Or.inl rfl⟩⟩

/-- Neither a goodbye nor a close call was made, and none is under way. -/
structure Untouched (c : TcpConn) : Prop where
  goodbyes : goodbyes c.trace = 0
  closeCalls : closeCalls c.trace = 0
  closing : c.frame ≠ some .closing
  removing : c.frame ≠ some .removing

/-- The end was reported, and will not be again. -/
structure SaidOnce (c : TcpConn) : Prop extends Gone c where
  goodbyes : TcpConn.goodbyes c.trace ≤ 1
  closeCalls : TcpConn.closeCalls c.trace ≤ 1
  pendingCall : c.frame = some .closing → TcpConn.closeCalls c.trace = 0

/-- The step leaves the report of the end as it is. -/
structure Calm (c c' : TcpConn) : Prop where
  goodbye : Spares Obs.isGoodbye c c'
  closeCall : Spares Obs.isCloseCall c c'
  frame : c'.frame = c.frame ∨ c'.frame ≠ some .closing ∧ c'.frame ≠ some .removing

theorem Untouched.calm {c c' : TcpConn} (h : Untouched c) (hk : Calm c c') : Untouched c' := by
  refine ⟨hk.goodbye.countP_eq.trans h.goodbyes, hk.closeCall.countP_eq.trans h.closeCalls, ?_, ?_⟩
  · rcases hk.frame with hf | ⟨hf, -⟩
    · rw [hf]
      exact h.closing
    · exact hf
  · rcases hk.frame with hf | ⟨-, hf⟩
    · rw [hf]
      exact h.removing
    · exact hf

theorem OutputOnly.calm {c c' : TcpConn} (h : OutputOnly c c') : Calm c c' := by
  refine ⟨h.spares fun _ => Obs.isGoodbye_of_isOutput,
    h.spares fun _ => Obs.isCloseCall_of_isOutput, Or.inl ?_⟩
  obtain ⟨_, _, _, _, _, rfl, -⟩ := h
  rfl

/-- The handler of a failing completion is about to start. -/
def Fails (c : TcpConn) (e : Event) : Prop :=
  (e = .handleRead ∧ c.readFailed = true) ∨ (e = .handleWrite ∧ c.writeFailed = true)

theorem Calm.trans {a b c : TcpConn} (h : Calm a b) (h' : Calm b c) : Calm a c := by
  refine ⟨h.goodbye.trans h'.goodbye, h.closeCall.trans h'.closeCall, ?_⟩
  rcases h'.frame with hf | hf
  · rw [hf]
    exact h.frame
  · exact Or.inr hf

/-- Only the handler of a failing completion starts a close sequence. -/
theorem step_calm {c c' : TcpConn} {e : Event} (hf : e = .resume → c.frame ≠ some .closing)
    (hn : ¬Fails c e) (hc : c.step e = some c') : Calm c c' := by
  have same : ∀ {c' : TcpConn}, c'.trace = c.trace → c'.frame = c.frame → Calm c c' :=
    fun ht hfr => ⟨spares_same ht, spares_same ht, Or.inl hfr⟩
  cases e with
  | send inLoop data =>
    cases hc
    cases inLoop with
    | true => exact (outputOnly_sendInLoop c data).calm
    | false => exact same rfl rfl
  | close | setConnCallback _ | setMessageCallback _ | setHighWaterMarkCallback _ _
  | setCloseCallback _ =>
    cases hc
    exact same rfl rfl
  | editRecv f =>
    obtain ⟨-, ⟨⟩⟩ := Option.ite_none_right_eq_some.mp hc
    exact same rfl rfl
  | readReady r =>
    obtain ⟨room, -, -, rfl⟩ := readReady_cases hc
    exact same rfl rfl
  | writeReady r =>
    obtain ⟨region, -, -, rfl⟩ := writeReady_cases hc
    exact same rfl rfl
  | runPosted =>
    obtain ⟨f, fs, -, -, rfl⟩ := runPosted_cases hc
    have hfs : Calm c { c with posted := fs } := same rfl rfl
    cases f with
    | closeSocket => exact same rfl rfl
    | sendStringInLoop message => exact hfs.trans (outputOnly_sendInLoop _ message).calm
    | onAttachedToLoop =>
      simp only [runFunctor, onAttachedToLoop]
      cases c.connFn with
      | some f => exact ⟨spares_one rfl rfl, spares_one rfl rfl, Or.inr ⟨by simp [emit], by simp [emit]⟩⟩
      | none => exact ⟨spares_same rfl, spares_same rfl, Or.inr ⟨by simp [throw], by simp [throw]⟩⟩
  | handleRead =>
    obtain ⟨room, r, hr, -, rfl⟩ := startRead_cases hc
    cases r with
    | eof => exact absurd (Or.inl ⟨rfl, by simp [readFailed, hr]⟩) hn
    | error => exact absurd (Or.inl ⟨rfl, by simp [readFailed, hr]⟩) hn
    | ok data =>
      have two : ∀ {p : Obs → Bool} {c' : TcpConn} {o o' : Obs}, c'.trace = c.trace ++ [o] ++ [o'] →
          p o = false → p o' = false → Spares p c c' := by
        intro p c' o o' ht ho ho'
        exact ⟨[o, o'], by simp [ht], by simp [ho, ho']⟩
      simp only [handleRead]
      cases c.msgFn with
      | some f =>
        exact ⟨two rfl rfl rfl, two rfl rfl rfl, Or.inr ⟨by simp [emit], by simp [emit]⟩⟩
      | none =>
        exact ⟨spares_one rfl rfl, spares_one rfl rfl, Or.inr ⟨by simp [throw], by simp [throw]⟩⟩
  | handleWrite =>
    obtain ⟨region, r, hw, -, rfl⟩ := startWrite_cases hc
    cases r with
    | error => exact absurd (Or.inr ⟨rfl, by simp [writeFailed, hw]⟩) hn
    | ok n =>
      have ho : Calm c { c with writing := none, trace := c.trace ++ [.handleWrite region (.ok n)] } :=
        ⟨spares_one rfl rfl, spares_one rfl rfl, Or.inl rfl⟩
      exact ho.trans (outputOnly_handleWrite _ n).calm
  | resume =>
    obtain ⟨f, hfr, rfl⟩ := Option.map_eq_some_iff.mp hc
    cases f with
    | closing => exact absurd hfr (hf rfl)
    | attached | message =>
      exact ⟨spares_one rfl rfl, spares_one rfl rfl,
        Or.inr ⟨by simp [resume, asyncRead, emit], by simp [resume, asyncRead, emit]⟩⟩
    | removing =>
      exact ⟨spares_same rfl, spares_same rfl, Or.inr ⟨by simp [resume], by simp [resume]⟩⟩
  | throw =>
    obtain ⟨f, -, rfl⟩ := Option.map_eq_some_iff.mp hc
    exact ⟨spares_same rfl, spares_same rfl, Or.inr ⟨by simp [throw], by simp [throw]⟩⟩

/-- The close sequence, run for the first time while nothing else can fail. -/
theorem saidOnce_handleError {c : TcpConn} {o : Obs} (hu : Untouched c) (ha : c.Attached)
    (hr : c.reading = none) (hq : c.writeFails = false) (ht : o.isGoodbye = false)
    (ht' : o.isCloseCall = false) {asyncWriting : Bool} :
    SaidOnce ({ c with asyncWriting := asyncWriting, trace := c.trace ++ [o] } :
      TcpConn).handleError := by
  let c₁ : TcpConn := { c with asyncWriting := asyncWriting, trace := c.trace ++ [o] }
  have hg : goodbyes c₁.trace = 0 := by
    simpa [goodbyes, List.countP_append, ht, c₁] using hu.goodbyes
  have hk : closeCalls c₁.trace = 0 := by
    simpa [closeCalls, List.countP_append, ht', c₁] using hu.closeCalls
  have hq' : c₁.closeSocket.writeFails = false := (writeFails_closeSocket c₁).trans hq
  have hr' : c.reading.map ReadOp.abort = none := by rw [hr]; rfl
  rcases handleError_cases c₁ with ⟨f, -, he⟩ | ⟨f, -, -, he⟩ | ⟨-, -, he⟩
  · rw [he]
    refine ⟨⟨rfl, ha, armed_eq_false.mpr ⟨hr', by simp, by simp⟩, hq'⟩, ?_, ?_, fun _ => ?_⟩
    · simpa [goodbyes, List.countP_append, Obs.isGoodbye] using hg.le
    · simpa [closeCalls, List.countP_append, Obs.isCloseCall] using hk.le.trans (Nat.zero_le 1)
    · simpa [closeCalls, List.countP_append, Obs.isCloseCall] using hk
  · rw [he]
    refine ⟨⟨rfl, ha, armed_eq_false.mpr ⟨hr', by simp, by simp⟩, hq'⟩, ?_, ?_, by rintro ⟨⟩⟩
    · simpa [goodbyes, List.countP_append, Obs.isGoodbye] using hg.le.trans (Nat.zero_le 1)
    · simpa [closeCalls, List.countP_append, Obs.isCloseCall] using hk.le
  · rw [he]
    refine ⟨⟨rfl, ha, armed_eq_false.mpr ⟨hr', by simp, by simp⟩, hq'⟩, ?_, ?_, by rintro ⟨⟩⟩
    · exact hg.le.trans (Nat.zero_le 1)
    · exact hk.le.trans (Nat.zero_le 1)

theorem startRead_saidOnce {c c' : TcpConn} (hl : LiveInv c) (hu : Untouched c)
    (hf : c.readFailed = true) (hq : c.writeFails = false) (hc : c.startRead = some c') :
    SaidOnce c' := by
  obtain ⟨room, r, hr, -, rfl⟩ := startRead_cases hc
  have ha := hl.attached_of_reading hr
  have hu' : Untouched { c with reading := none } :=
    ⟨hu.goodbyes, hu.closeCalls, hu.closing, hu.removing⟩
  cases r with
  | ok data => simp [readFailed, hr] at hf
  | eof | error =>
    exact @saidOnce_handleError { c with reading := none } _ hu' ha rfl hq rfl rfl c.asyncWriting

theorem startWrite_saidOnce {c c' : TcpConn} (hu : Untouched c) (hf : c.writeFailed = true)
    (ha : c.Attached) (hr : c.armed = false) (hc : c.startWrite = some c') : SaidOnce c' := by
  obtain ⟨region, r, hw, -, rfl⟩ := startWrite_cases hc
  have hu' : Untouched { c with writing := none } :=
    ⟨hu.goodbyes, hu.closeCalls, hu.closing, hu.removing⟩
  cases r with
  | ok n => simp [writeFailed, hw] at hf
  | error =>
    exact @saidOnce_handleError { c with writing := none } _ hu' ha (armed_eq_false.mp hr).1
      rfl rfl rfl false

/-- A report that was made once is not made again. -/
theorem step_saidOnce {c c' : TcpConn} {e : Event} (h : OutputInv c) (hs : SaidOnce c)
    (hc : c.step e = some c') : SaidOnce c' := by
  obtain ⟨hg, hgood, hk⟩ := step_gone h hs.toGone hc
  refine ⟨hg, hgood.countP_eq.trans_le hs.goodbyes, ?_, ?_⟩
  · rcases hk with ⟨-, hk⟩ | ⟨-, -, hk | ⟨hf, hk⟩⟩
    · exact hk.trans_le hs.closeCalls
    · exact hk.trans_le hs.closeCalls
    · rw [hk, hs.pendingCall hf]
  · intro hf
    rcases hk with ⟨hf', hk⟩ | ⟨-, hf', -⟩
    · exact hk.trans (hs.pendingCall (hf'.symm.trans hf))
    · exact absurd hf hf'

theorem step_closesOnce {c c' : TcpConn} {e : Event} (h : Sound c)
    (hu : Untouched c ∨ SaidOnce c) (hg : ClosesOnce c e c') (hc : c.step e = some c') :
    Untouched c' ∨ SaidOnce c' := by
  rcases hu with hu | hs
  · by_cases hf : Fails c e
    · right
      rcases hf with ⟨rfl, hf⟩ | ⟨rfl, hf⟩
      · exact startRead_saidOnce h.live hu hf (hg.1 rfl hf) hc
      · exact startWrite_saidOnce hu hf (hg.2 rfl hf).1 (hg.2 rfl hf).2 hc
    · exact Or.inl (hu.calm (step_calm (fun _ => hu.closing) hf hc))
  · exact Or.inr (step_saidOnce h.output hs hc)

/-- **One report**: the connection callback is invoked in disconnecting state at
most once, and the close callback at most once. -/
theorem disconnect_notified_once {c₀ c : TcpConn} {es : List Event} (h₀ : Initial c₀)
    (hr : Runs step ClosesOnce c₀ es c) : goodbyes c.trace ≤ 1 ∧ closeCalls c.trace ≤ 1 := by
  have hinit : Untouched c₀ := by
    obtain ⟨name, type, connFn, msgFn, closeFn, rfl⟩ := h₀
    exact ⟨rfl, rfl, by rintro ⟨⟩, by rintro ⟨⟩⟩
  have hinv : Untouched c ∨ SaidOnce c :=
    (run_sound h₀ hr).invariant (fun _ _ _ hu hg hc => step_closesOnce hg.1 hu hg.2 hc)
      (Or.inl hinit)
  rcases hinv with hu | hs
  · exact ⟨hu.goodbyes.trans_le (Nat.zero_le 1), hu.closeCalls.trans_le (Nat.zero_le 1)⟩
  · exact ⟨hs.goodbyes, hs.closeCalls⟩

theorem disconnect_notified_once_eof :
    ∃ c, Runs step ClosesOnce (handedOver "conn" .kIncoming (some 0) (some 1) .removeConn)
      [.runPosted, .resume, .readReady .eof, .handleRead, .resume] c ∧
      goodbyes c.trace ≤ 1 ∧ closeCalls c.trace ≤ 1 := by
  have h₀ : Initial (handedOver "conn" .kIncoming (some 0) (some 1) .removeConn) :=
    ⟨_, _, _, _, _, rfl⟩
  have other : ∀ {c c' e}, e ≠ .handleRead → e ≠ .handleWrite → ClosesOnce c e c' :=
    fun h h' => ⟨fun he => absurd he h, fun he => absurd he h'⟩
  have hrun := run_established "conn" .kIncoming 0 (some 1) .removeConn
    (fun c c' => @other c c' .runPosted (by simp) (by simp))
    (fun c c' => @other c c' .resume (by simp) (by simp))
  obtain ⟨c, hr⟩ : ∃ c, Runs step ClosesOnce
      (handedOver "conn" .kIncoming (some 0) (some 1) .removeConn)
      ([.runPosted, .resume] ++ [.readReady .eof, .handleRead, .resume]) c :=
    ⟨_, hrun.append (.cons rfl (other (by simp) (by simp)) (.cons rfl ⟨fun _ _ => rfl, by simp⟩
      (.cons rfl (other (by simp) (by simp)) (.nil _))))⟩
  exact ⟨c, hr, disconnect_notified_once h₀ hr⟩

/-- A failing write closes the socket under the outstanding read, whose failure
then runs the close sequence a second time. -/
theorem disconnect_notified_twice :
    ∃ c, Runs step anyStep (handedOver "conn" .kIncoming (some 0) (some 1) .removeConn)
      [.runPosted, .resume, .send true [1], .writeReady .error, .handleWrite, .resume, .resume,
        .handleRead, .resume] c ∧
      goodbyes c.trace = 2 ∧ closeCalls c.trace = 2 := by
  have hrun := @run_established anyStep "conn" .kIncoming 0 (some 1) .removeConn
    (fun _ _ => trivial) fun _ _ => trivial
  have hs := sound_established "conn" .kIncoming 0 (some 1) .removeConn
  have hsend := step_send_idle hs.output rfl rfl (List.cons_ne_nil 1 [])
  refine ⟨_, hrun.append (.cons hsend trivial (.cons rfl trivial (.cons rfl trivial
    (.cons rfl trivial (.cons rfl trivial (.cons rfl trivial (.cons rfl trivial (.nil _)))))))),
    ?_, ?_⟩
  · rfl
  · rfl

/-- No goodbye is followed by a message. -/
def MessagesFirst (trace : List Obs) : Prop :=
  trace.Pairwise fun a b => a.isGoodbye = true → b.isMessage = false

/-- The socket is closed, and no message can come any more. -/
structure Departed (c : TcpConn) : Prop where
  closed : c.isOpen = false
  silent : c.frame ≠ some .message
  noData : ∀ room r, c.reading = some ⟨room, r⟩ → r = some .eof ∨ r = some .error

theorem messagesFirst_spares {c c' : TcpConn} (h : MessagesFirst c.trace)
    (hs : Spares Obs.isMessage c c') : MessagesFirst c'.trace := by
  obtain ⟨t, ht, hn⟩ := hs
  rw [ht, MessagesFirst, List.pairwise_append]
  refine ⟨h, ?_, fun a _ b hb _ => hn b hb⟩
  exact (List.pairwise_of_forall_mem_list fun a _ b hb _ => hn b hb)

/-- A read that had not succeeded when it was aborted ends in an error. -/
theorem noData_abort {op : Option ReadOp}
    (hd : ∀ room data, op ≠ some ⟨room, some (.ok data)⟩) (room : Nat) (r : Option ReadResult)
    (hr : op.map ReadOp.abort = some ⟨room, r⟩) : r = some .eof ∨ r = some .error := by
  obtain ⟨⟨room', r'⟩, hop, he⟩ := Option.map_eq_some_iff.mp hr
  rcases r' with _ | data | _ | _
  · cases he
    exact Or.inr rfl
  · exact absurd hop (hd room' data)
  · cases he
    exact Or.inl rfl
  · cases he
    exact Or.inr rfl

theorem Departed.noOk {c : TcpConn} (h : Departed c) (room : Nat) (data : Bytes) :
    c.reading ≠ some ⟨room, some (.ok data)⟩ := by
  intro hr
  rcases h.noData _ _ hr with he | he
  · cases he
  · cases he

/-- The close sequence closes the socket, and shows no message. -/
theorem departed_handleError {c : TcpConn}
    (hd : ∀ room data, c.reading ≠ some ⟨room, some (.ok data)⟩) :
    Departed c.handleError ∧ Spares Obs.isMessage c c.handleError := by
  obtain ⟨status, frame, tail, he, -, hfm, htail⟩ := handleError_eq c
  rw [he]
  refine ⟨⟨rfl, hfm, noData_abort hd⟩, tail, rfl, fun o ho => ?_⟩
  rcases htail o ho with ⟨f, rfl⟩ | ⟨f, rfl⟩ <;> rfl

theorem OutputOnly.departed {c c' : TcpConn} (h : Departed c) (hk : OutputOnly c c') :
    Departed c' := by
  obtain ⟨_, _, _, _, _, rfl, -⟩ := hk
  exact ⟨h.closed, h.silent, h.noData⟩

theorem departed_resume {c : TcpConn} {f : Frame} (hl : LiveInv c) (h : Departed c)
    (hf : c.frame = some f) : Departed (c.resume f) ∧ Spares Obs.isMessage c (c.resume f) := by
  cases f with
  | message => exact absurd hf h.silent
  | attached =>
    have hroom : c.recvBuffer.validSize ≠ 0 := by
      rw [hl.fresh (Or.inr hf), ByteBuffer.validSize_new]
      simp [ByteBuffer.defaultSize]
    have hclosed : ({ c with frame := none } : TcpConn).isOpen = false := h.closed
    rw [resume, asyncRead_closed hclosed hroom]
    refine ⟨⟨h.closed, by simp, ?_⟩, spares_one rfl rfl⟩
    rintro room r ⟨⟩
    exact Or.inr rfl
  | closing =>
    simp only [resume, callCloseFn]
    cases c.closeFn with
    | some g => exact ⟨⟨h.closed, by simp [emit], h.noData⟩, spares_one rfl rfl⟩
    | none => exact ⟨⟨h.closed, by simp, h.noData⟩, spares_same rfl⟩
  | removing => exact ⟨⟨h.closed, by simp [resume], h.noData⟩, spares_same rfl⟩

theorem departed_runPosted {c c' : TcpConn} (h : Departed c) (hc : c.runPosted = some c') :
    Departed c' ∧ Spares Obs.isMessage c c' := by
  obtain ⟨f, fs, -, -, rfl⟩ := runPosted_cases hc
  have hfs : Departed { c with posted := fs } := ⟨h.closed, h.silent, h.noData⟩
  cases f with
  | onAttachedToLoop =>
    simp only [runFunctor, onAttachedToLoop]
    cases c.connFn with
    | some f => exact ⟨⟨h.closed, by simp [emit], h.noData⟩, spares_one rfl rfl⟩
    | none => exact ⟨⟨h.closed, by simp [throw], h.noData⟩, spares_same rfl⟩
  | closeSocket =>
    exact ⟨⟨rfl, h.silent, noData_abort h.noOk⟩, spares_same rfl⟩
  | sendStringInLoop message =>
    have hk := outputOnly_sendInLoop { c with posted := fs } message
    exact ⟨hk.departed hfs, (spares_same rfl).trans (hk.spares fun _ => Obs.isMessage_of_isOutput)⟩

/-- Once departed, a connection stays so and shows no message. -/
theorem step_departed {c c' : TcpConn} {e : Event} (hl : LiveInv c) (h : Departed c)
    (hc : c.step e = some c') : Departed c' ∧ Spares Obs.isMessage c c' := by
  cases e with
  | send inLoop data =>
    cases hc
    cases inLoop with
    | true =>
      have hk := outputOnly_sendInLoop c data
      exact ⟨hk.departed h, hk.spares fun _ => Obs.isMessage_of_isOutput⟩
    | false => exact ⟨⟨h.closed, h.silent, h.noData⟩, spares_same rfl⟩
  | close | setConnCallback _ | setMessageCallback _ | setHighWaterMarkCallback _ _
  | setCloseCallback _ =>
    cases hc
    exact ⟨⟨h.closed, h.silent, h.noData⟩, spares_same rfl⟩
  | editRecv f =>
    obtain ⟨hf, -⟩ := Option.ite_none_right_eq_some.mp hc
    exact absurd hf h.silent
  | readReady r =>
    obtain ⟨room, hr, -, -⟩ := readReady_cases hc
    rcases h.noData _ _ hr with he | he
    · cases he
    · cases he
  | writeReady r =>
    obtain ⟨region, -, -, rfl⟩ := writeReady_cases hc
    exact ⟨⟨h.closed, h.silent, h.noData⟩, spares_same rfl⟩
  | runPosted => exact departed_runPosted h hc
  | handleRead =>
    obtain ⟨room, r, hr, -, rfl⟩ := startRead_cases hc
    let c₁ : TcpConn := { c with reading := none, trace := c.trace ++ [.handleRead r] }
    have hone : Spares Obs.isMessage c c₁ := spares_one rfl rfl
    cases r with
    | ok data => exact absurd hr (h.noOk room data)
    | eof | error =>
      obtain ⟨hd, hs⟩ := @departed_handleError c₁ fun room data => by simp [c₁]
      exact ⟨hd, hone.trans hs⟩
  | handleWrite =>
    obtain ⟨region, r, -, -, rfl⟩ := startWrite_cases hc
    let c₁ : TcpConn := { c with writing := none, trace := c.trace ++ [.handleWrite region r] }
    have hone : Spares Obs.isMessage c c₁ := spares_one rfl rfl
    have h₁ : Departed c₁ := ⟨h.closed, h.silent, h.noData⟩
    cases r with
    | ok n =>
      have hk := outputOnly_handleWrite c₁ n
      exact ⟨hk.departed h₁, hone.trans (hk.spares fun _ => Obs.isMessage_of_isOutput)⟩
    | error =>
      obtain ⟨hd, hs⟩ := @departed_handleError { c₁ with asyncWriting := false } h.noOk
      exact ⟨hd, hone.trans hs⟩
  | resume =>
    obtain ⟨f, hf, rfl⟩ := Option.map_eq_some_iff.mp hc
    exact departed_resume hl h hf
  | throw =>
    obtain ⟨f, -, rfl⟩ := Option.map_eq_some_iff.mp hc
    exact ⟨⟨h.closed, by simp [throw], h.noData⟩, spares_same rfl⟩

/-- No goodbye was said, or no message can follow it. -/
def Farewell (c : TcpConn) : Prop :=
  (∀ o ∈ c.trace, o.isGoodbye = false) ∨ (MessagesFirst c.trace ∧ Departed c)

theorem noGoodbye_spares {c c' : TcpConn} (h : ∀ o ∈ c.trace, o.isGoodbye = false)
    (hs : Spares Obs.isGoodbye c c') : ∀ o ∈ c'.trace, o.isGoodbye = false := by
  obtain ⟨t, ht, hn⟩ := hs
  rw [ht]
  intro o ho
  exact (List.mem_append.mp ho).elim (h o) (hn o)

/-- The first goodbye. -/
theorem farewell_handleError {c : TcpConn} (h : ∀ o ∈ c.trace, o.isGoodbye = false)
    (hd : c.connFn ≠ none → ∀ room data, c.reading ≠ some ⟨room, some (.ok data)⟩) :
    Farewell c.handleError := by
  by_cases hcf : c.connFn = none
  · left
    refine noGoodbye_spares h ?_
    rcases handleError_cases c with ⟨f, hf, -⟩ | ⟨f, -, -, he⟩ | ⟨-, -, he⟩
    · rw [hcf] at hf
      cases hf
    · rw [he]
      exact spares_one rfl rfl
    · rw [he]
      exact spares_same rfl
  · obtain ⟨hdep, hs⟩ := departed_handleError (hd hcf)
    refine Or.inr ⟨messagesFirst_spares ?_ hs, hdep⟩
    exact List.pairwise_of_forall_mem_list fun a ha _ _ hg => absurd hg (by simp [h a ha])

theorem step_farewell {c c' : TcpConn} {e : Event} (hl : LiveInv c) (h : Farewell c)
    (hg : NoQueuedRead c e c') (hc : c.step e = some c') : Farewell c' := by
  rcases h with h | ⟨h, hd⟩
  · by_cases hf : Fails c e
    · rcases hf with ⟨rfl, hf⟩ | ⟨rfl, hf⟩
      · obtain ⟨room, r, hr, -, rfl⟩ := startRead_cases hc
        let c₁ : TcpConn := { c with reading := none, trace := c.trace ++ [.handleRead r] }
        have h₁ : ∀ o ∈ c₁.trace, o.isGoodbye = false := noGoodbye_spares h (spares_one rfl rfl)
        cases r with
        | ok data => simp [readFailed, hr] at hf
        | eof | error => exact @farewell_handleError c₁ h₁ fun _ room data => by simp [c₁]
      · obtain ⟨region, r, hw, -, rfl⟩ := startWrite_cases hc
        let c₁ : TcpConn := { c with
          writing := none, trace := c.trace ++ [.handleWrite region r], asyncWriting := false }
        have h₁ : ∀ o ∈ c₁.trace, o.isGoodbye = false := noGoodbye_spares h (spares_one rfl rfl)
        cases r with
        | ok n => simp [writeFailed, hw] at hf
        | error => exact @farewell_handleError c₁ h₁ (hg rfl hf)
    · left
      by_cases he : e = .resume ∧ c.frame = some .closing
      · obtain ⟨rfl, hfr⟩ := he
        obtain ⟨f, hf', rfl⟩ := Option.map_eq_some_iff.mp hc
        obtain rfl : f = .closing := by simpa [hfr] using hf'.symm
        refine noGoodbye_spares h ?_
        simp only [resume, callCloseFn]
        cases c.closeFn with
        | some g => exact spares_one rfl rfl
        | none => exact spares_same rfl
      · exact noGoodbye_spares h (step_calm (fun hr hfr => he ⟨hr, hfr⟩) hf hc).goodbye
  · obtain ⟨hd', hs⟩ := step_departed hl hd hc
    exact Or.inr ⟨messagesFirst_spares h hs, hd'⟩

/-- **No message after the goodbye**: the message callback is not invoked after
the connection callback was in disconnecting state. -/
theorem no_message_after_goodbye {c₀ c : TcpConn} {es : List Event} (h₀ : Initial c₀)
    (hr : Runs step NoQueuedRead c₀ es c) : MessagesFirst c.trace := by
  have hinit : Farewell c₀ := by
    obtain ⟨name, type, connFn, msgFn, closeFn, rfl⟩ := h₀
    exact Or.inl fun o ho => absurd ho List.not_mem_nil
  have hinv : Farewell c :=
    (run_sound h₀ hr).invariant (fun _ _ _ h hg hc => step_farewell hg.1.live h hg.2 hc) hinit
  rcases hinv with h | ⟨h, -⟩
  · exact List.pairwise_of_forall_mem_list fun a ha _ _ hg => absurd hg (by simp [h a ha])
  · exact h

theorem no_message_after_goodbye_reset :
    ∃ c, Runs step NoQueuedRead (handedOver "conn" .kIncoming (some 0) (some 1) .removeConn)
      [.runPosted, .resume, .send true [1], .writeReady .error, .handleWrite, .resume, .resume] c ∧
      MessagesFirst c.trace := by
  have h₀ : Initial (handedOver "conn" .kIncoming (some 0) (some 1) .removeConn) :=
    ⟨_, _, _, _, _, rfl⟩
  have other : ∀ {c c' e}, e ≠ .handleWrite → NoQueuedRead c e c' :=
    fun h he => absurd he h
  have hrun := run_established "conn" .kIncoming 0 (some 1) .removeConn
    (fun c c' => @other c c' .runPosted (by simp)) (fun c c' => @other c c' .resume (by simp))
  have hs := sound_established "conn" .kIncoming 0 (some 1) .removeConn
  have hsend := step_send_idle hs.output rfl rfl (List.cons_ne_nil 1 [])
  obtain ⟨c, hr⟩ : ∃ c, Runs step NoQueuedRead
      (handedOver "conn" .kIncoming (some 0) (some 1) .removeConn)
      ([.runPosted, .resume] ++
        [.send true [1], .writeReady .error, .handleWrite, .resume, .resume]) c :=
    ⟨_, hrun.append (.cons hsend (other (by simp)) (.cons rfl (other (by simp))
      (.cons rfl (fun _ _ _ room data => by simp [established]) (.cons rfl (other (by simp))
      (.cons rfl (other (by simp)) (.nil _))))))⟩
  exact ⟨c, hr, no_message_after_goodbye h₀ hr⟩

/-- A read that has succeeded is handled after the close sequence of a failing
write: `HandleRead` tests neither the status nor the socket. -/
theorem message_after_goodbye :
    ∃ c, Runs step anyStep (handedOver "conn" .kIncoming (some 0) (some 1) .removeConn)
      [.runPosted, .resume, .send true [1], .readReady (.ok [7]), .writeReady .error, .handleWrite,
        .resume, .resume, .handleRead] c ∧
      ¬MessagesFirst c.trace := by
  have hrun := @run_established anyStep "conn" .kIncoming 0 (some 1) .removeConn
    (fun _ _ => trivial) fun _ _ => trivial
  have hs := sound_established "conn" .kIncoming 0 (some 1) .removeConn
  have hsend := step_send_idle hs.output rfl rfl (List.cons_ne_nil 1 [])
  have hfits : (ReadResult.ok [7]).fits ByteBuffer.defaultSize = true := by
    simp [ReadResult.fits, ByteBuffer.defaultSize]
  refine ⟨_, hrun.append (.cons hsend trivial (.cons (step_readReady rfl hfits) trivial (.cons rfl trivial
    (.cons rfl trivial (.cons rfl trivial (.cons rfl trivial (.cons rfl trivial (.nil _)))))))), ?_⟩
  rw [MessagesFirst]
  decide

end TcpConn

end Libasio
