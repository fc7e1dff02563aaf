import Libasio.Notification

/-!
# The close sequence as its owner sees it

A handler that fails starts the close sequence, which calls the connection
callback, waits in it, and then calls the close callback. A step touches the
sequence in one of these ways or not at all.

## Main definitions

- `TcpConn.Shut` — the socket is closed, or will be by a posted functor
- `TcpConn.Reports` — the end of the reads has been reported

## Main results

- `TcpConn.step_sequence` — the three ways of a step
- `TcpConn.step_closeCalls` — a call of the close callback is a step into it
- `TcpConn.step_status` — when a connection stops being connected
- `TcpConn.step_reports` — the report comes with the failing read
-/

namespace Libasio

open Transition

/-- `HandleRead` is given an error. -/
def Obs.isReadEnd : Obs → Bool
  | .handleRead .eof | .handleRead .error => true
  | _ => false

theorem Obs.isReadEnd_of_isOutput {o : Obs} (h : o.isOutput = true) : o.isReadEnd = false := by
  cases o <;> simp_all [isOutput, isReadEnd]

/-- The connection callback is invoked in connected state. -/
def Obs.isHello : Obs → Bool
  | .connFn _ .kConnected => true
  | _ => false

theorem Obs.isHello_of_isOutput {o : Obs} (h : o.isOutput = true) : o.isHello = false := by
  cases o <;> simp_all [isOutput, isHello]

namespace TcpConn

/-- The connection when a failing handler starts the close sequence. -/
structure Failing (c c₁ : TcpConn) : Prop where
  goodbye : Spares Obs.isGoodbye c c₁
  closeCall : Spares Obs.isCloseCall c c₁
  connFn : c₁.connFn = c.connFn
  closeFn : c₁.closeFn = c.closeFn

/-- What a step is to the close sequence: nothing, its start, or the way from the
connection callback to the close callback. -/
theorem step_sequence {c c' : TcpConn} {e : Event} (hc : c.step e = some c') :
    (¬Fails c e ∧ Calm c c') ∨ (Fails c e ∧ ∃ c₁, Failing c c₁ ∧ c' = c₁.handleError) ∨
      (e = .resume ∧ c.frame = some .closing ∧
        c' = ({ c with frame := none } : TcpConn).callCloseFn) := by
  by_cases hr : e = .resume ∧ c.frame = some .closing
  · obtain ⟨rfl, hfr⟩ := hr
    obtain ⟨f, hf, rfl⟩ := Option.map_eq_some_iff.mp hc
    obtain rfl : f = .closing := by simpa [hfr] using hf.symm
    exact .inr (.inr ⟨rfl, hfr, rfl⟩)
  · by_cases hf : Fails c e
    · refine .inr (.inl ?_)
      obtain ⟨rfl, hfail⟩ | ⟨rfl, hfail⟩ := hf
      · obtain ⟨room, r, hop, -, rfl⟩ := startRead_cases hc
        refine ⟨.inl ⟨rfl, hfail⟩, { c with reading := none, trace := c.trace ++ [.handleRead r] },
          ⟨spares_one rfl rfl, spares_one rfl rfl, rfl, rfl⟩, ?_⟩
        cases r with
        | ok data => simp [readFailed, hop] at hfail
        | eof | error => rfl
      · obtain ⟨region, r, hop, -, rfl⟩ := startWrite_cases hc
        refine ⟨.inr ⟨rfl, hfail⟩, { c with
          writing := none, trace := c.trace ++ [.handleWrite region r], asyncWriting := false },
          ⟨spares_one rfl rfl, spares_one rfl rfl, rfl, rfl⟩, ?_⟩
        cases r with
        | ok n => simp [writeFailed, hop] at hfail
        | error => rfl
    · exact .inl ⟨hf, step_calm (fun he hfr => hr ⟨he, hfr⟩) hf hc⟩

/-- The close callback is called in exactly the steps that end inside it. -/
theorem step_closeCalls {c c' : TcpConn} {e : Event} (hf : c.frame ≠ some .removing)
    (hc : c.step e = some c') : closeCalls c'.trace =
      closeCalls c.trace + if c'.frame = some .removing then 1 else 0 := by
  obtain ⟨-, hk⟩ | ⟨-, c₁, hk, rfl⟩ | ⟨-, -, rfl⟩ := step_sequence hc
  · have hf' : c'.frame ≠ some .removing := by
      obtain hsame | ⟨-, hne⟩ := hk.frame
      · exact hsame ▸ hf
      · exact hne
    rw [if_neg hf']
    exact hk.closeCall.countP_eq
  · have hcount : closeCalls c₁.trace = closeCalls c.trace := hk.closeCall.countP_eq
    rw [← hcount]
    obtain ⟨f, -, he⟩ | ⟨f, -, -, he⟩ | ⟨-, -, he⟩ := handleError_cases c₁
    all_goals simp [he, closeCalls, List.countP_append, Obs.isCloseCall, closeSocket]
  · unfold callCloseFn
    split <;> simp [closeCalls, emit, List.countP_append, Obs.isCloseCall]

theorem step_isOpen {c c' : TcpConn} {e : Event} (ho : c.isOpen = false)
    (hc : c.step e = some c') : c'.isOpen = false := by
  have output : ∀ {a b : TcpConn}, OutputOnly a b → b.isOpen = a.isOpen := by
    rintro a b ⟨_, _, _, _, _, rfl, -⟩
    rfl
  have aside : ∀ {a : TcpConn}, Aside c a → a.isOpen = false := by
    intro a hk
    obtain ⟨hsame, -⟩ | ⟨hclosed, -⟩ := hk.kept.writing
    · exact hsame.trans ho
    · exact hclosed
  obtain ⟨-, hk⟩ | ⟨fs, data, -, rfl⟩ | ⟨region, r, -, -, -, rfl⟩ | ⟨-, region, r, -, rfl⟩ :=
    step_output hc
  · exact aside hk
  · exact (output (outputOnly_sendInLoop { c with posted := fs } data)).trans ho
  · exact ho
  · cases r with
    | ok n =>
      exact (output (outputOnly_handleWrite
        { c with writing := none, trace := c.trace ++ [.handleWrite region (.ok n)] } n)).trans ho
    | error =>
      obtain ⟨status, frame, tail, he, -⟩ := handleError_eq
        { c with
          writing := none, trace := c.trace ++ [.handleWrite region .error], asyncWriting := false }
      simp only [handleWrite, he]
      rfl

theorem step_attached {c c' : TcpConn} {e : Event} (h : c.Attached) (hc : c.step e = some c') :
    c'.Attached := by
  rw [Attached, step_posted hc]
  cases e with
  | runPosted => exact fun hm => h (List.mem_of_mem_tail hm)
  | send inLoop data => cases inLoop <;> simpa [Event.queueAfter, Attached] using h
  | _ => simpa [Event.queueAfter, Attached] using h

-- ════════════════════════════════════════════════════════════════════════
-- The status
-- ════════════════════════════════════════════════════════════════════════

/-- `IsDisconnected()` or `IsDisconnecting()`. -/
def Off (c : TcpConn) : Prop := c.status = .kDisconnected ∨ c.status = .kDisconnecting

theorem Off.ne_connected {c : TcpConn} (h : c.Off) : c.status ≠ .kConnected := by
  obtain hs | hs := h <;> simp [hs]

/-- The steps that end the connected state, or go on with its end. -/
def Ends (c : TcpConn) (e : Event) : Prop :=
  e = .close ∨ Fails c e ∨ e = .resume ∧ (c.frame = some .closing ∨ c.frame = some .removing)

/-- `HandleError` leaves a connection that is off. -/
theorem off_handleError (c : TcpConn) : c.handleError.Off := by
  obtain ⟨f, -, he⟩ | ⟨f, -, -, he⟩ | ⟨-, -, he⟩ := handleError_cases c
  all_goals simp [Off, he]

theorem spares_hello_handleError (c : TcpConn) : Spares Obs.isHello c c.handleError := by
  obtain ⟨status, frame, tail, he, -, -, htail⟩ := handleError_eq c
  refine ⟨tail, by rw [he], fun o ho => ?_⟩
  obtain ⟨f, rfl⟩ | ⟨f, rfl⟩ := htail o ho <;> rfl

/-- Only `OnAttachedToLoop` makes a connection a connected one. Every other step
leaves the status alone or ends the connected state. -/
theorem step_status {c c' : TcpConn} {e : Event} (h : c.Attached ∨ c.escaped = true)
    (hc : c.step e = some c') :
    Spares Obs.isHello c c' ∧ (c'.status = c.status ∨ c'.Off ∧ Ends c e) := by
  have output : ∀ {a b : TcpConn}, OutputOnly a b → Spares Obs.isHello c a → a.status = c.status →
      Spares Obs.isHello c b ∧ (b.status = c.status ∨ b.Off ∧ Ends c e) := by
    intro a b hk hs ha
    refine ⟨hs.trans (hk.spares fun _ => Obs.isHello_of_isOutput), .inl ?_⟩
    obtain ⟨_, _, _, _, _, rfl, -⟩ := hk
    exact ha
  have failed : ∀ {a : TcpConn}, Spares Obs.isHello c a → Fails c e →
      Spares Obs.isHello c a.handleError ∧
        (a.handleError.status = c.status ∨ a.handleError.Off ∧ Ends c e) :=
    fun hs hf => ⟨hs.trans (spares_hello_handleError _), .inr ⟨off_handleError _, .inr (.inl hf)⟩⟩
  cases e with
  | send inLoop data =>
    cases hc
    cases inLoop with
    | true => exact output (outputOnly_sendInLoop c data) (spares_same rfl) rfl
    | false => exact ⟨spares_same rfl, .inl rfl⟩
  | close =>
    cases hc
    exact ⟨spares_same rfl, .inr ⟨.inr rfl, .inl rfl⟩⟩
  | setConnCallback _ | setMessageCallback _ | setHighWaterMarkCallback _ _ | setCloseCallback _ =>
    cases hc
    exact ⟨spares_same rfl, .inl rfl⟩
  | editRecv edit =>
    obtain ⟨-, ⟨⟩⟩ := Option.ite_none_right_eq_some.mp hc
    exact ⟨spares_same rfl, .inl rfl⟩
  | readReady r =>
    obtain ⟨room, -, -, rfl⟩ := readReady_cases hc
    exact ⟨spares_same rfl, .inl rfl⟩
  | writeReady r =>
    obtain ⟨region, -, -, rfl⟩ := writeReady_cases hc
    exact ⟨spares_same rfl, .inl rfl⟩
  | runPosted =>
    obtain ⟨f, fs, hp, hi, rfl⟩ := runPosted_cases hc
    cases f with
    | closeSocket => exact ⟨spares_same rfl, .inl rfl⟩
    | sendStringInLoop message => exact output (outputOnly_sendInLoop _ message) (spares_same rfl) rfl
    | onAttachedToLoop =>
      rcases h with ha | hx
      · exact absurd (by simp [hp]) ha
      · rw [(idle_iff.mp hi).2] at hx
        cases hx
  | handleRead =>
    obtain ⟨room, r, hr, -, rfl⟩ := startRead_cases hc
    have hone : Spares Obs.isHello c
        { c with reading := none, trace := c.trace ++ [.handleRead r] } := spares_one rfl rfl
    cases r with
    | eof | error => exact failed hone (.inl ⟨rfl, by simp [readFailed, hr]⟩)
    | ok data =>
      simp only [handleRead]
      split
      · exact ⟨hone.trans (spares_one rfl rfl), .inl rfl⟩
      · exact ⟨hone.trans (spares_same rfl), .inl rfl⟩
  | handleWrite =>
    obtain ⟨region, r, hw, -, rfl⟩ := startWrite_cases hc
    have hone : ∀ asyncWriting, Spares Obs.isHello c { c with
        asyncWriting := asyncWriting, writing := none
        trace := c.trace ++ [.handleWrite region r] } := fun _ => spares_one rfl rfl
    cases r with
    | ok n => exact output (outputOnly_handleWrite _ n) (hone c.asyncWriting) rfl
    | error => exact failed (hone false) (.inr ⟨rfl, by simp [writeFailed, hw]⟩)
  | resume =>
    obtain ⟨f, hf, rfl⟩ := Option.map_eq_some_iff.mp hc
    cases f with
    | attached | message => exact ⟨spares_one rfl rfl, .inl rfl⟩
    | removing => exact ⟨spares_same rfl, .inr ⟨.inl rfl, .inr (.inr ⟨rfl, .inr hf⟩)⟩⟩
    | closing =>
      simp only [resume, callCloseFn]
      split
      · exact ⟨spares_one rfl rfl, .inl rfl⟩
      · exact ⟨spares_same rfl, .inr ⟨.inl rfl, .inr (.inr ⟨rfl, .inl hf⟩)⟩⟩
  | throw =>
    obtain ⟨f, -, rfl⟩ := Option.map_eq_some_iff.mp hc
    exact ⟨spares_same rfl, .inl rfl⟩

/-- A connection that is off stays off. -/
theorem step_off {c c' : TcpConn} {e : Event} (ha : c.Attached) (h : c.Off)
    (hc : c.step e = some c') : c'.Off := by
  obtain hsame | ⟨hoff, -⟩ := (step_status (.inl ha) hc).2
  · rwa [Off, hsame]
  · exact hoff

/-- `Close` and the close sequence turn it off. -/
theorem off_of_ends {c c' : TcpConn} {e : Event} (he : e = .close ∨ Fails c e)
    (hc : c.step e = some c') : c'.Off := by
  obtain rfl | hf := he
  · cases hc
    exact .inr rfl
  · obtain ⟨hn, -⟩ | ⟨-, c₁, -, rfl⟩ | ⟨rfl, -⟩ := step_sequence hc
    · exact absurd hf hn
    · exact off_handleError c₁
    · obtain ⟨he, -⟩ | ⟨he, -⟩ := hf <;> cases he

/-- The name and the callbacks of the owner stay, and no read ends. -/
structure Keeps (c c' : TcpConn) : Prop where
  name : c'.name = c.name
  connFn : c'.connFn = c.connFn
  closeFn : c'.closeFn = c.closeFn
  readEnd : Spares Obs.isReadEnd c c'

theorem Keeps.trans {a b c : TcpConn} (h : Keeps a b) (h' : Keeps b c) : Keeps a c :=
  ⟨h'.name.trans h.name, h'.connFn.trans h.connFn, h'.closeFn.trans h.closeFn, h.readEnd.trans h'.readEnd⟩

theorem keeps_same {c c' : TcpConn} (hn : c'.name = c.name) (hf : c'.connFn = c.connFn)
    (hg : c'.closeFn = c.closeFn) (ht : c'.trace = c.trace) : Keeps c c' :=
  ⟨hn, hf, hg, spares_same ht⟩

theorem keeps_one {c c' : TcpConn} {o : Obs} (hn : c'.name = c.name) (hf : c'.connFn = c.connFn)
    (hg : c'.closeFn = c.closeFn) (ht : c'.trace = c.trace ++ [o]) (ho : o.isReadEnd = false) :
    Keeps c c' := ⟨hn, hf, hg, spares_one ht ho⟩

theorem OutputOnly.keeps {c c' : TcpConn} (h : OutputOnly c c') : Keeps c c' := by
  have hs := h.spares fun _ => Obs.isReadEnd_of_isOutput
  obtain ⟨_, _, _, _, _, rfl, -⟩ := h
  exact ⟨rfl, rfl, rfl, hs⟩

theorem keeps_handleError (c : TcpConn) : Keeps c c.handleError := by
  obtain ⟨status, frame, tail, he, -, -, htail⟩ := handleError_eq c
  refine ⟨by rw [he]; rfl, by rw [he]; rfl, by rw [he]; rfl, tail, by rw [he], fun o ho => ?_⟩
  obtain ⟨f, rfl⟩ | ⟨f, rfl⟩ := htail o ho <;> rfl

/-- The events by which a callback of the owner is replaced. -/
def Event.replaces : Event → Bool
  | .setConnCallback _ | .setCloseCallback _ => true
  | _ => false

/-- Only a handler that is given an error ends the reads. -/
theorem step_keeps {c c' : TcpConn} {e : Event} (hset : e.replaces = false)
    (he : ¬(e = .handleRead ∧ c.readFailed = true)) (hc : c.step e = some c') : Keeps c c' := by
  cases e with
  | send inLoop data =>
    cases hc
    cases inLoop with
    | true => exact (outputOnly_sendInLoop c data).keeps
    | false => exact keeps_same rfl rfl rfl rfl
  | close | setMessageCallback _ | setHighWaterMarkCallback _ _ =>
    cases hc
    exact keeps_same rfl rfl rfl rfl
  | setConnCallback _ | setCloseCallback _ => cases hset
  | editRecv edit =>
    obtain ⟨-, ⟨⟩⟩ := Option.ite_none_right_eq_some.mp hc
    exact keeps_same rfl rfl rfl rfl
  | readReady r =>
    obtain ⟨room, -, -, rfl⟩ := readReady_cases hc
    exact keeps_same rfl rfl rfl rfl
  | writeReady r =>
    obtain ⟨region, -, -, rfl⟩ := writeReady_cases hc
    exact keeps_same rfl rfl rfl rfl
  | runPosted =>
    obtain ⟨f, fs, -, -, rfl⟩ := runPosted_cases hc
    have hpop : Keeps c { c with posted := fs } := keeps_same rfl rfl rfl rfl
    cases f with
    | onAttachedToLoop =>
      simp only [runFunctor, onAttachedToLoop]
      split
      · exact keeps_one rfl rfl rfl rfl rfl
      · exact keeps_same rfl rfl rfl rfl
    | closeSocket => exact keeps_same rfl rfl rfl rfl
    | sendStringInLoop message => exact hpop.trans (outputOnly_sendInLoop _ message).keeps
  | handleRead =>
    obtain ⟨room, r, hr, -, rfl⟩ := startRead_cases hc
    cases r with
    | eof | error => exact absurd ⟨rfl, by simp [readFailed, hr]⟩ he
    | ok data =>
      have hone : Keeps c { c with reading := none, trace := c.trace ++ [.handleRead (.ok data)] } :=
        keeps_one rfl rfl rfl rfl rfl
      refine hone.trans ?_
      simp only [handleRead]
      split
      · exact keeps_one rfl rfl rfl rfl rfl
      · exact keeps_same rfl rfl rfl rfl
  | handleWrite =>
    obtain ⟨region, r, -, -, rfl⟩ := startWrite_cases hc
    have hone : Keeps c { c with writing := none, trace := c.trace ++ [.handleWrite region r] } :=
      keeps_one rfl rfl rfl rfl rfl
    cases r with
    | ok n => exact hone.trans (outputOnly_handleWrite _ n).keeps
    | error =>
      have hflag : Keeps c { c with
          writing := none, trace := c.trace ++ [.handleWrite region .error], asyncWriting := false } :=
        keeps_one rfl rfl rfl rfl rfl
      exact hflag.trans (keeps_handleError _)
  | resume =>
    obtain ⟨f, -, rfl⟩ := Option.map_eq_some_iff.mp hc
    cases f with
    | attached | message => exact keeps_one rfl rfl rfl rfl rfl
    | removing => exact keeps_same rfl rfl rfl rfl
    | closing =>
      simp only [resume, callCloseFn]
      split
      · exact keeps_one rfl rfl rfl rfl rfl
      · exact keeps_same rfl rfl rfl rfl
  | throw =>
    obtain ⟨f, -, rfl⟩ := Option.map_eq_some_iff.mp hc
    exact keeps_same rfl rfl rfl rfl

/-- An owner has set both callbacks, and nobody has removed them. -/
structure Answers (c : TcpConn) : Prop where
  closeFn : c.closeFn ≠ none
  connFn : c.Attached → c.escaped = false → c.connFn ≠ none

theorem step_callbacks {c c' : TcpConn} {e : Event} (hset : e.replaces = false)
    (hc : c.step e = some c') :
    c'.name = c.name ∧ c'.connFn = c.connFn ∧ c'.closeFn = c.closeFn := by
  by_cases he : e = .handleRead ∧ c.readFailed = true
  · obtain ⟨rfl, hfail⟩ := he
    obtain ⟨room, r, hr, -, rfl⟩ := startRead_cases hc
    have hk := keeps_handleError { c with reading := none, trace := c.trace ++ [.handleRead r] }
    cases r with
    | ok data => simp [readFailed, hr] at hfail
    | eof | error => exact ⟨hk.name, hk.connFn, hk.closeFn⟩
  · have hk := step_keeps hset he hc
    exact ⟨hk.name, hk.connFn, hk.closeFn⟩

theorem step_name {c c' : TcpConn} {e : Event} (hc : c.step e = some c') : c'.name = c.name := by
  cases hset : e.replaces with
  | false => exact (step_callbacks hset hc).1
  | true =>
    cases e with
    | setConnCallback _ | setCloseCallback _ =>
      cases hc
      rfl
    | _ => cases hset

theorem step_answers {c c' : TcpConn} {e : Event} (h : Answers c)
    (hconn : e ≠ .setConnCallback none) (hclose : e ≠ .setCloseCallback none)
    (hc : c.step e = some c') : Answers c' := by
  cases hset : e.replaces with
  | true =>
    cases e with
    | setConnCallback cb =>
      cases hc
      exact ⟨h.closeFn, fun _ _ hnone => hconn (congrArg _ hnone)⟩
    | setCloseCallback cb =>
      cases hc
      exact ⟨fun hnone => hclose (congrArg _ hnone), h.connFn⟩
    | _ => cases hset
  | false =>
    obtain ⟨-, hf, hg⟩ := step_callbacks hset hc
    refine ⟨hg ▸ h.closeFn, fun ha hx => ?_⟩
    rw [hf]
    have hx₀ : c.escaped = false := by
      by_contra hx₀
      have := step_escaped (by simpa using hx₀) hc
      simp [hx] at this
    by_cases ha₀ : c.Attached
    · exact h.connFn ha₀ hx₀
    · have hpost := step_posted hc
      cases e with
      | runPosted =>
        obtain ⟨f, fs, hp, -, rfl⟩ := runPosted_cases hc
        cases f with
        | onAttachedToLoop =>
          intro hnone
          simp [runFunctor, onAttachedToLoop, hnone, throw] at hx
        | closeSocket | sendStringInLoop _ =>
          refine absurd ?_ ha₀
          rw [Attached, hpost, hp] at ha
          rw [Attached, hp]
          simpa [Event.queueAfter] using ha
      | send inLoop data =>
        refine absurd ?_ ha₀
        rw [Attached, hpost] at ha
        cases inLoop <;> simpa [Attached, Event.queueAfter] using ha
      | _ =>
        refine absurd ?_ ha₀
        rw [Attached, hpost] at ha
        simpa [Attached, Event.queueAfter] using ha

end TcpConn

end Libasio
