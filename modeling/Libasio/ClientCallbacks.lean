import Libasio.ClientSteps

/-!
# The callbacks of a client

A client copies its callbacks into a connection when it makes it. A later
`SetConnCallback` is passed on to `conn_`, a later `SetMessageCallback` is not.
`OnAttachedToLoop` and `HandleRead` call their callback without a test.

## Main definitions

- `TcpConn.notice`, `TcpConn.notices` — what a step has to tell, and what it tells
- `TcpConn.Deaf` — no message will be read any more
- `ClientLoop.SetsInTime` — callbacks are replaced when no connection needs the old ones
- `ClientLoop.UsesLast` — a step invokes the callbacks that were set last

## Main results

- `TcpConn.step_notices` — a step tells its connection's own callbacks
- `ClientLoop.last_callback_used` — and they are the ones set last on the client
-/

namespace Libasio

open Transition

/-- What a connection tells its owner. -/
inductive Notice
  | connection (s : Status)
  | message
  deriving DecidableEq

/-- The connection callback or the message callback is invoked. -/
def Obs.isNotice : Obs → Bool
  | .connFn _ _ | .msgFn _ => true
  | _ => false

theorem Obs.isNotice_of_isOutput {o : Obs} (h : o.isOutput = true) : o.isNotice = false := by
  cases o <;> simp_all [isOutput, isNotice]

/-- The calls that tell a notice to these callbacks. -/
def due (connFn msgFn : Option Callback) : Option Notice → List Obs
  | none => []
  | some (.connection s) => (connFn.map fun f => Obs.connFn f s).toList
  | some .message => (msgFn.map Obs.msgFn).toList

namespace TcpConn

/-- What the step has to tell the owner. -/
def notice (c : TcpConn) : Event → Option Notice
  | .runPosted =>
    if c.posted.head? = some .onAttachedToLoop then some (.connection .kConnected) else none
  | .handleRead => if c.readFailed then some (.connection .kDisconnecting) else some .message
  | .handleWrite => if c.writeFailed then some (.connection .kDisconnecting) else none
  | _ => none

/-- The callbacks invoked on the way from `c` to `c'`. -/
def notices (c c' : TcpConn) : List Obs := (c'.trace.drop c.trace.length).filter Obs.isNotice

/-- The step calls an empty `std::function`. -/
def CallsEmpty (c : TcpConn) : Event → Prop
  | .runPosted => c.posted.head? = some .onAttachedToLoop ∧ c.connFn = none
  | .handleRead => c.readFailed = false ∧ c.msgFn = none
  | _ => False

theorem notices_eq {c c' : TcpConn} {t : List Obs} (h : c'.trace = c.trace ++ t) :
    notices c c' = t.filter Obs.isNotice := by
  rw [notices, h, List.drop_left]

theorem notices_spares {c c' : TcpConn} (h : Spares Obs.isNotice c c') : notices c c' = [] := by
  obtain ⟨t, ht, hn⟩ := h
  rw [notices_eq ht, List.filter_eq_nil_iff]
  exact fun o ho => by simp [hn o ho]

theorem OutputOnly.notices {c c' : TcpConn} (h : OutputOnly c c') :
    Spares Obs.isNotice c c' ∧ c'.escaped = c.escaped := by
  refine ⟨h.spares fun _ => Obs.isNotice_of_isOutput, ?_⟩
  obtain ⟨_, _, _, _, _, rfl, -⟩ := h
  rfl

/-- The close sequence tells the connection callback, if there is one. -/
theorem notices_handleError {c c₁ : TcpConn} {o : Obs} (ht : c₁.trace = c.trace ++ [o])
    (ho : o.isNotice = false) (hf : c₁.connFn = c.connFn) :
    notices c c₁.handleError = due c.connFn c.msgFn (some (.connection .kDisconnecting)) := by
  obtain ⟨f, hfn, he⟩ | ⟨f, hfn, -, he⟩ | ⟨hfn, -, he⟩ := handleError_cases c₁
  · have htrace : c₁.handleError.trace = c.trace ++ [o, .connFn f .kDisconnecting] := by
      simp [he, ht]
    rw [notices_eq htrace, due, ← hf, hfn, List.filter_cons_of_neg (by simp [ho])]
    rfl
  · have htrace : c₁.handleError.trace = c.trace ++ [o, .closeFn f] := by
      simp [he, ht]
    rw [notices_eq htrace, due, ← hf, hfn, List.filter_cons_of_neg (by simp [ho])]
    rfl
  · have htrace : c₁.handleError.trace = c.trace ++ [o] := by
      simp [he, ht, closeSocket]
    rw [notices_eq htrace, due, ← hf, hfn, List.filter_cons_of_neg (by simp [ho])]
    rfl

theorem escaped_handleError (c : TcpConn) : c.handleError.escaped = c.escaped := by
  obtain ⟨status, frame, tail, he, -⟩ := handleError_eq c
  rw [he]
  rfl

/-- `OnAttachedToLoop` tells the connection callback, or throws when there is none. -/
theorem notices_onAttachedToLoop (c : TcpConn) (hx : c.escaped = false) :
    notices c c.onAttachedToLoop = due c.connFn c.msgFn (some (.connection .kConnected)) ∧
      (c.onAttachedToLoop.escaped = true ↔ c.connFn = none) := by
  simp only [onAttachedToLoop]
  cases hf : c.connFn with
  | some f =>
    refine ⟨?_, by simp [emit, hx]⟩
    rw [notices_eq rfl]
    simp [due, Obs.isNotice]
  | none => exact ⟨notices_spares (spares_same rfl), by simp [throw]⟩

/-- `HandleRead` tells the message callback, or throws when there is none. -/
theorem notices_handleRead {c : TcpConn} (c₁ : TcpConn) (data : Bytes) {o : Obs}
    (ht : c₁.trace = c.trace ++ [o]) (ho : o.isNotice = false) (hf : c₁.msgFn = c.msgFn)
    (hx : c₁.escaped = false) :
    notices c (c₁.handleRead (.ok data)) = due c.connFn c.msgFn (some .message) ∧
      ((c₁.handleRead (.ok data)).escaped = true ↔ c.msgFn = none) := by
  simp only [handleRead, ← hf]
  cases c₁.msgFn with
  | some f =>
    refine ⟨?_, by simp [emit, hx]⟩
    have htrace : c₁.trace ++ [.msgFn f] = c.trace ++ [o, .msgFn f] := by simp [ht]
    rw [notices_eq htrace, List.filter_cons_of_neg (by simp [ho])]
    rfl
  | none => exact ⟨notices_spares (spares_one ht ho), by simp [throw]⟩

/-- A step tells the connection's own callbacks what it has to tell, unless there is
none; an exception leaves a handler when a callback throws or an empty one is called. -/
theorem step_notices {c c' : TcpConn} {e : Event} (hc : c.step e = some c') :
    notices c c' = due c.connFn c.msgFn (c.notice e) ∧
      (c'.escaped = true ↔ c.escaped = true ∨ e = .throw ∨ CallsEmpty c e) := by
  have calm : ∀ {a : TcpConn}, Spares Obs.isNotice c a ∧ a.escaped = c.escaped → c.notice e = none →
      e ≠ .throw → ¬CallsEmpty c e → notices c a = due c.connFn c.msgFn (c.notice e) ∧
        (a.escaped = true ↔ c.escaped = true ∨ e = .throw ∨ CallsEmpty c e) := by
    rintro a ⟨hs, hx⟩ hn ht he
    refine ⟨by rw [notices_spares hs, hn, due], ?_⟩
    simp [hx, ht, he]
  cases e with
  | send inLoop data =>
    cases hc
    cases inLoop with
    | true => exact calm (outputOnly_sendInLoop c data).notices rfl (by simp) id
    | false => exact calm ⟨spares_same rfl, rfl⟩ rfl (by simp) id
  | close | setConnCallback _ | setMessageCallback _ | setHighWaterMarkCallback _ _
  | setCloseCallback _ =>
    cases hc
    exact calm ⟨spares_same rfl, rfl⟩ rfl (by simp) id
  | editRecv edit =>
    obtain ⟨-, ⟨⟩⟩ := Option.ite_none_right_eq_some.mp hc
    exact calm ⟨spares_same rfl, rfl⟩ rfl (by simp) id
  | readReady r =>
    obtain ⟨room, -, -, rfl⟩ := readReady_cases hc
    exact calm ⟨spares_same rfl, rfl⟩ rfl (by simp) id
  | writeReady r =>
    obtain ⟨region, -, -, rfl⟩ := writeReady_cases hc
    exact calm ⟨spares_same rfl, rfl⟩ rfl (by simp) id
  | runPosted =>
    obtain ⟨f, fs, hp, hi, rfl⟩ := runPosted_cases hc
    cases f with
    | closeSocket =>
      exact calm ⟨spares_same rfl, rfl⟩ (by simp [notice, hp]) (by simp) (by simp [CallsEmpty, hp])
    | sendStringInLoop message =>
      have hk := (outputOnly_sendInLoop { c with posted := fs } message).notices
      exact calm ⟨hk.1, hk.2⟩ (by simp [notice, hp]) (by simp) (by simp [CallsEmpty, hp])
    | onAttachedToLoop =>
      obtain ⟨hn, hx⟩ := notices_onAttachedToLoop { c with posted := fs } (idle_iff.mp hi).2
      exact ⟨hn.trans (by simp [notice, hp]), hx.trans (by simp [CallsEmpty, hp, (idle_iff.mp hi).2])⟩
  | handleRead =>
    obtain ⟨room, r, hr, hi, rfl⟩ := startRead_cases hc
    have hx : c.escaped = false := (idle_iff.mp hi).2
    have hsame := fun r => escaped_handleError
      { c with reading := none, trace := c.trace ++ [.handleRead r] }
    cases r with
    | eof | error =>
      have hfail : c.readFailed = true := by simp [readFailed, hr]
      refine ⟨?_, ?_⟩
      · rw [notice, if_pos hfail]
        exact notices_handleError rfl rfl rfl
      · exact (Bool.eq_iff_iff.mp (hsame _)).trans (by simp [CallsEmpty, hfail])
    | ok data =>
      have hfail : c.readFailed = false := by simp [readFailed, hr]
      obtain ⟨hn, hy⟩ := notices_handleRead (c := c)
        { c with reading := none, trace := c.trace ++ [.handleRead (.ok data)] } data rfl rfl rfl hx
      exact ⟨hn.trans (by simp [notice, hfail]), hy.trans (by simp [CallsEmpty, hx, hfail])⟩
  | handleWrite =>
    obtain ⟨region, r, hw, -, rfl⟩ := startWrite_cases hc
    cases r with
    | ok n =>
      have hk := (outputOnly_handleWrite
        { c with writing := none, trace := c.trace ++ [.handleWrite region (.ok n)] } n).notices
      have hone : Spares Obs.isNotice c
          { c with writing := none, trace := c.trace ++ [.handleWrite region (.ok n)] } :=
        spares_one rfl rfl
      exact calm ⟨hone.trans hk.1, hk.2⟩ (by simp [notice, writeFailed, hw]) (by simp) id
    | error =>
      have hfail : c.writeFailed = true := by simp [writeFailed, hw]
      refine ⟨?_, ?_⟩
      · rw [notice, if_pos hfail]
        exact notices_handleError rfl rfl rfl
      · simp only [handleWrite, escaped_handleError]
        simp [CallsEmpty]
  | resume =>
    obtain ⟨f, -, rfl⟩ := Option.map_eq_some_iff.mp hc
    refine calm ?_ rfl (by simp) id
    cases f with
    | attached | message => exact ⟨spares_one rfl rfl, rfl⟩
    | removing => exact ⟨spares_same rfl, rfl⟩
    | closing =>
      simp only [resume, callCloseFn]
      split
      · exact ⟨spares_one rfl rfl, rfl⟩
      · exact ⟨spares_same rfl, rfl⟩
  | throw =>
    obtain ⟨f, -, rfl⟩ := Option.map_eq_some_iff.mp hc
    exact ⟨(notices_spares (spares_same rfl)).trans rfl, by simp [throw]⟩

/-- No message will be read any more: no read is outstanding and none will be issued,
or the one that is outstanding has failed. -/
def Deaf (c : TcpConn) : Prop := c.armed = false ∨ c.readFailed = true

theorem OutputOnly.deaf {c c' : TcpConn} (h : OutputOnly c c') (hd : Deaf c) : Deaf c' := by
  obtain ⟨_, _, _, _, _, rfl, -⟩ := h
  exact hd

/-- Closing the socket does not bring data. -/
theorem readFailed_abort {c : TcpConn} (h : c.readFailed = true) :
    c.closeSocket.readFailed = true := by
  unfold readFailed at h ⊢
  split at h
  · next hr => simp [closeSocket, hr, ReadOp.abort]
  · next hr => simp [closeSocket, hr, ReadOp.abort]
  · cases h

theorem deaf_handleError {c : TcpConn} (h : Deaf c) : Deaf c.handleError := by
  obtain ⟨status, frame, tail, he, hfa, hfm, -⟩ := handleError_eq c
  rw [he]
  obtain hu | hf := h
  · obtain ⟨hr, -, -⟩ := armed_eq_false.mp hu
    exact .inl (armed_eq_false.mpr ⟨by simp [closeSocket, hr], hfa, hfm⟩)
  · exact .inr (readFailed_abort hf)

/-- A failed read is the last one. -/
theorem step_deaf {c c' : TcpConn} {e : Event} (hl : LiveInv c) (ha : c.Attached) (h : Deaf c)
    (hc : c.step e = some c') : Deaf c' := by
  have frames : c.frame ≠ some .attached ∧ c.frame ≠ some .message := by
    obtain hu | hf := h
    · exact (armed_eq_false.mp hu).2
    · have hsome : c.reading ≠ none := fun hnone => by simp [readFailed, hnone] at hf
      exact ⟨fun hfr => hsome (hl.attached (.inl hfr)).2,
        fun hfr => hsome (hl.attached (.inr hfr)).2⟩
  have reframed : ∀ {f : Option Frame}, f ≠ some .attached → f ≠ some .message →
      ∀ {d : TcpConn}, d.reading = c.reading → d.frame = f → Deaf d := by
    intro f hfa hfm d hr hf
    obtain hu | hfail := h
    · exact .inl (armed_eq_false.mpr ⟨hr.trans (armed_eq_false.mp hu).1, hf ▸ hfa, hf ▸ hfm⟩)
    · refine .inr ?_
      rwa [readFailed, hr]
  cases e with
  | send inLoop data =>
    cases hc
    cases inLoop with
    | true => exact (outputOnly_sendInLoop c data).deaf h
    | false => exact h
  | close | setConnCallback _ | setMessageCallback _ | setHighWaterMarkCallback _ _
  | setCloseCallback _ =>
    cases hc
    exact h
  | editRecv edit =>
    obtain ⟨hf, -⟩ := Option.ite_none_right_eq_some.mp hc
    exact absurd hf frames.2
  | readReady r =>
    obtain ⟨room, hr, -, -⟩ := readReady_cases hc
    obtain hu | hf := h
    · rw [(armed_eq_false.mp hu).1] at hr
      cases hr
    · simp [readFailed, hr] at hf
  | writeReady r =>
    obtain ⟨region, -, -, rfl⟩ := writeReady_cases hc
    exact h
  | runPosted =>
    obtain ⟨f, fs, hp, -, rfl⟩ := runPosted_cases hc
    cases f with
    | onAttachedToLoop => exact absurd (by simp [hp]) ha
    | sendStringInLoop message =>
      exact (outputOnly_sendInLoop { c with posted := fs } message).deaf h
    | closeSocket =>
      obtain hu | hf := h
      · exact .inl (armed_eq_false.mpr ⟨by simp [runFunctor, closeSocket, (armed_eq_false.mp hu).1],
          frames.1, frames.2⟩)
      · exact .inr (readFailed_abort hf)
  | handleRead =>
    obtain ⟨room, r, hr, hi, rfl⟩ := startRead_cases hc
    obtain hu | hf := h
    · rw [(armed_eq_false.mp hu).1] at hr
      cases hr
    · have hended : ∀ r, Deaf { c with reading := none, trace := c.trace ++ [.handleRead r] } :=
        fun r => .inl (armed_eq_false.mpr ⟨rfl, frames⟩)
      cases r with
      | ok data => simp [readFailed, hr] at hf
      | eof => exact deaf_handleError (hended .eof)
      | error => exact deaf_handleError (hended .error)
  | handleWrite =>
    obtain ⟨region, r, -, -, rfl⟩ := startWrite_cases hc
    have hone : Deaf { c with writing := none, trace := c.trace ++ [.handleWrite region r] } := h
    cases r with
    | ok n => exact (outputOnly_handleWrite _ n).deaf hone
    | error =>
      have hflag : Deaf { c with
        writing := none, trace := c.trace ++ [.handleWrite region .error], asyncWriting := false } := h
      exact deaf_handleError hflag
  | resume =>
    obtain ⟨f, hf, rfl⟩ := Option.map_eq_some_iff.mp hc
    cases f with
    | attached => exact absurd hf frames.1
    | message => exact absurd hf frames.2
    | removing => exact reframed (f := none) (by simp) (by simp) rfl rfl
    | closing =>
      simp only [resume, callCloseFn]
      split
      · exact reframed (f := some .removing) (by simp) (by simp) rfl rfl
      · exact reframed (f := none) (by simp) (by simp) rfl rfl
  | throw =>
    obtain ⟨f, -, rfl⟩ := Option.map_eq_some_iff.mp hc
    exact reframed (f := none) (by simp) (by simp) rfl rfl

/-- Only its setter replaces the message callback of a connection. -/
theorem step_msgFn {c c' : TcpConn} {e : Event} (he : ∀ cb, e ≠ .setMessageCallback cb)
    (hc : c.step e = some c') : c'.msgFn = c.msgFn := by
  have output : ∀ {a b : TcpConn}, OutputOnly a b → b.msgFn = a.msgFn := by
    rintro a b ⟨_, _, _, _, _, rfl, -⟩
    rfl
  have failed : ∀ a : TcpConn, a.handleError.msgFn = a.msgFn := by
    intro a
    obtain ⟨status, frame, tail, heq, -⟩ := handleError_eq a
    rw [heq]
    rfl
  cases e with
  | send inLoop data =>
    cases hc
    cases inLoop with
    | true => exact output (outputOnly_sendInLoop c data)
    | false => rfl
  | setMessageCallback cb => exact absurd rfl (he cb)
  | close | setConnCallback _ | setHighWaterMarkCallback _ _ | setCloseCallback _ =>
    cases hc
    rfl
  | editRecv edit =>
    obtain ⟨-, ⟨⟩⟩ := Option.ite_none_right_eq_some.mp hc
    rfl
  | readReady r =>
    obtain ⟨room, -, -, rfl⟩ := readReady_cases hc
    rfl
  | writeReady r =>
    obtain ⟨region, -, -, rfl⟩ := writeReady_cases hc
    rfl
  | runPosted =>
    obtain ⟨f, fs, -, -, rfl⟩ := runPosted_cases hc
    cases f with
    | onAttachedToLoop =>
      simp only [runFunctor, onAttachedToLoop]
      split <;> rfl
    | closeSocket => rfl
    | sendStringInLoop message =>
      have hk := output (outputOnly_sendInLoop { c with posted := fs } message)
      exact hk
  | handleRead =>
    obtain ⟨room, r, -, -, rfl⟩ := startRead_cases hc
    cases r with
    | eof | error => exact failed _
    | ok data =>
      simp only [handleRead]
      split <;> rfl
  | handleWrite =>
    obtain ⟨region, r, -, -, rfl⟩ := startWrite_cases hc
    cases r with
    | ok n =>
      have hk := output (outputOnly_handleWrite
        { c with writing := none, trace := c.trace ++ [.handleWrite region (.ok n)] } n)
      exact hk
    | error => exact failed _
  | resume =>
    obtain ⟨f, -, rfl⟩ := Option.map_eq_some_iff.mp hc
    cases f with
    | attached | message | removing => rfl
    | closing =>
      simp only [resume, callCloseFn]
      split <;> rfl
  | throw =>
    obtain ⟨f, -, rfl⟩ := Option.map_eq_some_iff.mp hc
    rfl

/-- A connection that is gone has nothing to tell, and a deaf one no message. -/
theorem notice_gone {c c' : TcpConn} {e : Event} (h : Gone c) (hc : c.step e = some c') :
    c.notice e = none := by
  obtain ⟨hr, -, -⟩ := armed_eq_false.mp h.unarmed
  cases e with
  | runPosted =>
    refine if_neg fun hhead => h.attached ?_
    exact List.mem_of_mem_head? hhead
  | handleRead =>
    obtain ⟨room, r, hr', -, -⟩ := startRead_cases hc
    rw [hr] at hr'
    cases hr'
  | handleWrite =>
    obtain ⟨region, r, hw, -, -⟩ := startWrite_cases hc
    have hq := h.quiet
    cases r with
    | ok n => simp [notice, writeFailed, hw]
    | error => simp [writeFails, hw] at hq
  | _ => rfl

theorem notice_deaf {c c' : TcpConn} {e : Event} (h : Deaf c) (hc : c.step e = some c') :
    c.notice e ≠ some .message := by
  cases e with
  | runPosted =>
    simp only [notice]
    split <;> simp
  | handleRead =>
    obtain ⟨room, r, hr, -, -⟩ := startRead_cases hc
    obtain hu | hf := h
    · rw [(armed_eq_false.mp hu).1] at hr
      cases hr
    · simp [notice, hf]
  | handleWrite =>
    simp only [notice]
    split <;> simp
  | _ => simp [notice]

end TcpConn

namespace ClientLoop

/-- The connection callback that a call leaves set. -/
def connCallbackAfter (cb : Option Callback) : Event → Option Callback
  | .call (.setConnCallback cb') => cb'
  | _ => cb

def messageCallbackAfter (cb : Option Callback) : Event → Option Callback
  | .call (.setMessageCallback cb') => cb'
  | _ => cb

/-- The connection callback set last in the history. -/
def connCallbackSet (es : List Event) : Option Callback := es.foldl connCallbackAfter none

def messageCallbackSet (es : List Event) : Option Callback := es.foldl messageCallbackAfter none

/-- What the step has connection `i` tell. -/
def noticeTo (w : ClientLoop) (i : Nat) : Event → Option Notice
  | .conn j e _ => if j = i then w.conns[i]?.bind fun c => c.notice e else none
  | _ => none

/-- The step calls an empty `std::function`: `conn_fn_` for a connection that it makes,
or a callback of connection `i`. -/
def CallsEmpty (w : ClientLoop) : Event → Prop
  | .connectDone (some socket) =>
    w.alive = true ∧ socket.isOpen = true ∧ socket.hasPeer = true ∧ w.client.connFn = none
  | .conn i e _ => ∃ c, w.conns[i]? = some c ∧ c.CallsEmpty e
  | _ => False

/-- The step from `w` to `w'` tells its notices to these callbacks, and calls no
empty function. -/
structure UsesLast (connFn msgFn : Option Callback) (w : ClientLoop) (e : Event)
    (w' : ClientLoop) : Prop where
  told : ∀ (i : Nat) c c', w.conns[i]? = some c → w'.conns[i]? = some c' →
    c.notices c' = due connFn msgFn (w.noticeTo i e)
  greeted : ∀ (i : Nat) c', w.conns[i]? = none → w'.conns[i]? = some c' →
    c'.trace.filter Obs.isNotice = due connFn msgFn (some (.connection .kConnected))
  nonempty : ¬CallsEmpty w e

/-- A message callback is replaced when every connection is deaf, and a connection
callback when every one but `conn_` is gone; a connection callback is set when a
connect succeeds, and a message callback when data is read. Nobody sets a callback
on a connection of the client directly. -/
def SetsInTime (w : ClientLoop) (e : Event) (_ : ClientLoop) : Prop :=
  match e with
  | .call (.setConnCallback cb) => cb = w.client.connFn ∨
      ∀ (i : Nat) c, w.conns[i]? = some c → w.client.conn = some i ∨ c.Gone
  | .call (.setMessageCallback cb) => cb = w.client.msgFn ∨
      ∀ (i : Nat) c, w.conns[i]? = some c → c.Deaf
  | .connectDone (some socket) =>
      w.alive = true → socket.isOpen = true → socket.hasPeer = true → w.client.connFn ≠ none
  | .conn _ (.setConnCallback _) _ => False
  | .conn _ (.setMessageCallback _) _ => False
  | .conn i .handleRead _ => ∀ c, w.conns[i]? = some c → c.readFailed = false →
      w.client.msgFn ≠ none
  | _ => True

/-- A connection that may still tell something has these callbacks. -/
structure Copies (connFn msgFn : Option Callback) (c : TcpConn) : Prop where
  sound : c.Sound
  attached : c.Attached
  connFn : c.Gone ∨ c.connFn = connFn
  msgFn : c.Deaf ∨ c.msgFn = msgFn

theorem Copies.step {connFn msgFn : Option Callback} {c c' : TcpConn} {e : TcpConn.Event}
    (h : Copies connFn msgFn c) (he : e.replaces = false) (hm : ∀ cb, e ≠ .setMessageCallback cb)
    (hc : c.step e = some c') : Copies connFn msgFn c' := by
  refine ⟨TcpConn.step_sound h.sound hc, TcpConn.step_attached h.attached hc, ?_, ?_⟩
  · exact h.connFn.imp (fun hg => (TcpConn.step_gone h.sound.output hg hc).1)
      ((TcpConn.step_callbacks he hc).2.1.trans ·)
  · exact h.msgFn.imp (TcpConn.step_deaf h.sound.live h.attached · hc)
      ((TcpConn.step_msgFn hm hc).trans ·)

/-- What such a connection tells, it tells these callbacks. -/
theorem Copies.notices {connFn msgFn : Option Callback} {c c' : TcpConn} {e : TcpConn.Event}
    (h : Copies connFn msgFn c) (hc : c.step e = some c') :
    c.notices c' = due connFn msgFn (c.notice e) := by
  rw [(TcpConn.step_notices hc).1]
  cases hn : c.notice e with
  | none => rfl
  | some n =>
    cases n with
    | connection s =>
      obtain hg | hf := h.connFn
      · rw [TcpConn.notice_gone hg hc] at hn
        cases hn
      · rw [due, due, hf]
    | message =>
      obtain hd | hf := h.msgFn
      · exact absurd hn (TcpConn.notice_deaf hd hc)
      · rw [due, due, hf]

/-- The end of the close callback tells nothing and keeps the callbacks. -/
theorem Copies.removed {connFn msgFn : Option Callback} {c d : TcpConn}
    (h : Copies connFn msgFn c) (hf : c.frame = some .removing)
    (hd : d = c.throw ∨ d = c.resume .removing) : Copies connFn msgFn d := by
  obtain rfl | rfl := hd
  · exact h.step (e := .throw) rfl (by simp) (by simp [TcpConn.step, hf])
  · exact h.step (e := .resume) rfl (by simp) (by simp [TcpConn.step, hf])

theorem callbacks_of_disconnects {w : ClientLoop} {i : Nat} {e : Event} (h : DisconnectsInLoop w i e)
    (connFn msgFn : Option Callback) :
    connCallbackAfter connFn e = connFn ∧ messageCallbackAfter msgFn e = msgFn := by
  unfold DisconnectsInLoop at h
  split at h
  · exact ⟨rfl, rfl⟩
  · exact ⟨rfl, rfl⟩
  · exact absurd h id

theorem callbacks_onConn (w : ClientLoop) (f : TcpConn → TcpConn) :
    (w.onConn f).client.connFn = w.client.connFn ∧ (w.onConn f).client.msgFn = w.client.msgFn := by
  unfold onConn
  split <;> exact ⟨rfl, rfl⟩

theorem callbacks_connect (w : ClientLoop) (resolves : Bool) :
    (w.connect resolves).state.client.connFn = w.client.connFn ∧
      (w.connect resolves).state.client.msgFn = w.client.msgFn := by
  cases resolves <;> exact ⟨rfl, rfl⟩

theorem callbacks_onRemoveConn (w : ClientLoop) (resolves : Bool) :
    (w.onRemoveConn resolves).state.client.connFn = w.client.connFn ∧
      (w.onRemoveConn resolves).state.client.msgFn = w.client.msgFn := by
  simp only [onRemoveConn]
  split
  · exact ⟨rfl, rfl⟩
  · split
    · cases resolves <;> exact ⟨rfl, rfl⟩
    · exact ⟨rfl, rfl⟩

/-- Only its setters replace the callbacks of a client. -/
theorem step_client_callbacks {w w' : ClientLoop} {e : Event} (hc : w.step e = some w') :
    w'.client.connFn = connCallbackAfter w.client.connFn e ∧
      w'.client.msgFn = messageCallbackAfter w.client.msgFn e := by
  cases e with
  | call k =>
    obtain ⟨-, hc⟩ := Option.ite_none_right_eq_some.mp hc
    cases k with
    | connect resolves =>
      cases hc
      exact callbacks_connect w resolves
    | disconnect inLoop =>
      cases hc
      cases inLoop with
      | true => exact callbacks_onConn { w with client.autoReconnect := false } .close
      | false => exact ⟨rfl, rfl⟩
    | setAutoReconnect _ | setMessageCallback _ =>
      cases hc
      exact ⟨rfl, rfl⟩
    | setConnCallback cb =>
      cases hc
      exact callbacks_onConn { w with client.connFn := cb } fun c => c.setConnCallback cb
    | destroy =>
      obtain ⟨rfl, -⟩ | ⟨i, c, -, -, -, rfl⟩ := destructor_cases hc <;> exact ⟨rfl, rfl⟩
  | disconnectInLoop =>
    obtain ⟨-, ⟨⟩⟩ := Option.ite_none_right_eq_some.mp hc
    simp only [run, handle]
    split
    · exact callbacks_onConn
        { w with disconnects := w.disconnects - 1, client.autoReconnect := false } .close
    · exact ⟨rfl, rfl⟩
  | connectDone r =>
    obtain ⟨-, ⟨⟩⟩ := Option.ite_none_right_eq_some.mp hc
    simp only [run, handle]
    split
    · cases r with
      | none =>
        simp only [handleConnect]
        split <;> exact ⟨rfl, rfl⟩
      | some socket =>
        simp only [handleConnect, handleConn]
        split <;> exact ⟨rfl, rfl⟩
    · exact ⟨rfl, rfl⟩
  | timer resolves =>
    obtain ⟨-, ⟨⟩⟩ := Option.ite_none_right_eq_some.mp hc
    simp only [run, handle]
    split
    · cases resolves <;> exact ⟨rfl, rfl⟩
    · exact ⟨rfl, rfl⟩
  | conn i e' resolves =>
    obtain ⟨c, c', -, -, -, rfl⟩ := stepConn_cases hc
    simp only [afterConn]
    split
    · simp only [handle]
      split
      · exact callbacks_onRemoveConn w resolves
      · exact ⟨rfl, rfl⟩
    · exact ⟨rfl, rfl⟩

/-- The connection that a connect makes has the callbacks of the client. -/
theorem copies_of_makes {w : ClientLoop} {c : TcpConn} (h : Makes w c) :
    Copies w.client.connFn w.client.msgFn c := by
  have hs : c.Sound := TcpConn.step_sound (TcpConn.sound_initial ⟨_, _, _, _, _, rfl⟩) h
  unfold Makes at h
  cases hf : w.client.connFn with
  | some f =>
    rw [hf] at h
    cases h
    exact ⟨hs, List.not_mem_nil, .inr rfl, .inr rfl⟩
  | none =>
    rw [hf] at h
    cases h
    exact ⟨hs, List.not_mem_nil, .inr rfl, .inr rfl⟩

/-- The connections of the client have its callbacks, as far as they need them. -/
def AllCopy (w : ClientLoop) : Prop :=
  ∀ (i : Nat) c, w.conns[i]? = some c → Copies w.client.connFn w.client.msgFn c

theorem Touches.copies {w w' : ClientLoop} {e : Event} {i : Nat} {c d : TcpConn}
    (ht : Touches w e i c d) (hi : w.conns[i]? = some c) (hg : SetsInTime w e w')
    (h : Copies w.client.connFn w.client.msgFn c) :
    Copies (connCallbackAfter w.client.connFn e) (messageCallbackAfter w.client.msgFn e) d := by
  have moved : ∀ {e' : TcpConn.Event} {resolves : Bool} {c' : TcpConn}, e = .conn i e' resolves →
      w.allows e' = true → c.step e' = some c' → Copies w.client.connFn w.client.msgFn c' := by
    rintro e' resolves c' rfl ha hs
    refine h.step ?_ ?_ hs
    · cases e' with
      | setConnCallback cb => exact absurd hg id
      | setCloseCallback cb => cases ha
      | _ => rfl
    · rintro cb rfl
      exact hg
  cases ht with
  | same hn =>
    refine ⟨h.sound, h.attached, ?_, ?_⟩
    · unfold connCallbackAfter
      split
      · next cb =>
        obtain rfl | hgone := hg
        · exact h.connFn
        · exact .inl ((hgone i c hi).resolve_left hn)
      · exact h.connFn
    · unfold messageCallbackAfter
      split
      · next cb =>
        obtain rfl | hdeaf := hg
        · exact h.msgFn
        · exact .inl (hdeaf i c hi)
      · exact h.msgFn
  | closed hd =>
    obtain ⟨hconn, hmsg⟩ := callbacks_of_disconnects hd w.client.connFn w.client.msgFn
    rw [hconn, hmsg]
    exact h.step (e := .close) rfl nofun rfl
  | setConnCallback cb he hconn =>
    subst he
    exact ⟨TcpConn.step_sound h.sound (e := .setConnCallback cb) rfl, h.attached, .inr rfl, h.msgFn⟩
  | detached he hs =>
    subst he
    refine ⟨TcpConn.step_sound h.sound (e := .setCloseCallback none) rfl, h.attached, ?_, h.msgFn⟩
    exact h.connFn.imp_left fun hg => ⟨hg.closed, hg.attached, hg.unarmed, hg.quiet⟩
  | moved he ha hs _ =>
    subst he
    exact moved rfl ha hs
  | removed he ha hs hf hd =>
    subst he
    exact (moved rfl ha hs).removed hf hd

theorem step_allCopy {w w' : ClientLoop} {e : Event} (h : AllCopy w) (hg : SetsInTime w e w')
    (hc : w.step e = some w') : AllCopy w' := by
  intro i d hd
  obtain ⟨hconn, hmsg⟩ := step_client_callbacks hc
  rw [hconn, hmsg]
  cases hi : w.conns[i]? with
  | some c =>
    obtain ⟨d', hd', ht⟩ := step_touches hc hi
    obtain rfl : d' = d := Option.some.inj (hd'.symm.trans hd)
    exact ht.copies hi hg (h i c hi)
  | none =>
    obtain ⟨-, -, hm, socket, rfl, -⟩ := step_made hc hi hd
    exact copies_of_makes hm

/-- The client has the callbacks that its history has set. -/
theorem callbacks_of_history {name : String} {w : ClientLoop} {es : List Event}
    {G : ClientLoop → Event → ClientLoop → Prop} (hr : Runs step G (create name) es w) :
    w.client.connFn = connCallbackSet es ∧ w.client.msgFn = messageCallbackSet es := by
  refine hr.invariant_history (I := fun es w =>
    w.client.connFn = connCallbackSet es ∧ w.client.msgFn = messageCallbackSet es) ?_ ⟨rfl, rfl⟩
  rintro es w e w' ⟨hf, hm⟩ - hc
  obtain ⟨hf', hm'⟩ := step_client_callbacks hc
  rw [hf', hm', hf, hm, connCallbackSet, connCallbackSet, messageCallbackSet, messageCallbackSet,
    List.foldl_concat, List.foldl_concat]
  exact ⟨rfl, rfl⟩

/-- A connection that is touched tells what it has to tell to the callbacks of the client. -/
theorem Touches.told {w : ClientLoop} {e : Event} {i : Nat} {c d : TcpConn}
    (ht : Touches w e i c d) (hi : w.conns[i]? = some c)
    (h : Copies w.client.connFn w.client.msgFn c) :
    c.notices d = due w.client.connFn w.client.msgFn (w.noticeTo i e) := by
  have quiet : ∀ {d : TcpConn}, d.trace = c.trace → (∀ e' resolves, e ≠ .conn i e' resolves) →
      c.notices d = due w.client.connFn w.client.msgFn (w.noticeTo i e) := by
    intro d htrace he
    rw [TcpConn.notices_spares (TcpConn.spares_same htrace)]
    unfold noticeTo
    split
    · next j e' resolves =>
      rw [if_neg fun hij => he e' resolves (by rw [hij])]
      rfl
    · rfl
  cases ht with
  | same hn =>
    refine quiet rfl fun e' resolves he => hn ?_
    rw [he]
    exact rfl
  | closed hd =>
    refine quiet rfl fun e' resolves he => ?_
    rw [he] at hd
    exact hd
  | setConnCallback cb he => exact quiet rfl (by rw [he]; nofun)
  | detached he => exact quiet rfl (by rw [he]; nofun)
  | moved he _ hs _ =>
    rw [he, noticeTo, if_pos rfl, hi]
    exact h.notices hs
  | @removed e' _ c' _ he _ hs _ hd =>
    have hsame : c.notices d = c.notices c' := by
      obtain rfl | rfl := hd <;> rfl
    rw [hsame, he, noticeTo, if_pos rfl, hi]
    exact h.notices hs

/-- No empty function is called, since the callbacks that are copied are set. -/
theorem not_callsEmpty {w w' : ClientLoop} {e : Event} (h : AllCopy w) (hg : SetsInTime w e w')
    (hc : w.step e = some w') : ¬CallsEmpty w e := by
  intro he
  cases e with
  | connectDone r =>
    cases r with
    | none => exact he
    | some socket => exact hg he.1 he.2.1 he.2.2.1 he.2.2.2
  | conn i e' resolves =>
    obtain ⟨c, hi, hempty⟩ := he
    obtain ⟨b, b', hb, -, hs, -⟩ := stepConn_cases hc
    obtain rfl : b = c := Option.some.inj (hb.symm.trans hi)
    have hcopy := h i b hi
    cases e' with
    | runPosted => exact hcopy.attached (List.mem_of_mem_head? hempty.1)
    | handleRead =>
      obtain ⟨hfail, hnone⟩ := hempty
      obtain hd | hf := hcopy.msgFn
      · refine TcpConn.notice_deaf hd hs ?_
        rw [TcpConn.notice, if_neg (by simp [hfail])]
      · exact hg b hi hfail (hf.symm.trans hnone)
    | _ => exact hempty
  | _ => exact he

/-- **The last callback set is the one used**: in a run whose setters are called in
time, every step tells what it has to tell to the callbacks set last on the client,
to nobody where none has been set, and calls no empty function. -/
theorem last_callback_used {name : String} {w w' : ClientLoop} {es : List Event} {e : Event}
    (hr : Runs step SetsInTime (create name) es w) (hg : SetsInTime w e w')
    (hc : w.step e = some w') : UsesLast (connCallbackSet es) (messageCallbackSet es) w e w' := by
  have h : AllCopy w := by
    refine hr.invariant (fun _ _ _ h hg hc => step_allCopy h hg hc) ?_
    rintro i c ⟨⟩
  obtain ⟨hf, hm⟩ := callbacks_of_history hr
  rw [← hf, ← hm]
  refine ⟨fun i c c' hi hi' => ?_, fun i c' hi hi' => ?_, not_callsEmpty h hg hc⟩
  · obtain ⟨d, hd, ht⟩ := step_touches hc hi
    obtain rfl : d = c' := Option.some.inj (hd.symm.trans hi')
    exact ht.told hi (h i c hi)
  · obtain ⟨-, -, hmade, -⟩ := step_made hc hi hi'
    exact (TcpConn.step_notices hmade).1

theorem last_callback_used_greeting :
    ∃ w w', w.step (.connectDone (some ⟨true, true⟩)) = some w' ∧
      UsesLast (some 0) none w (.connectDone (some ⟨true, true⟩)) w' := by
  obtain ⟨w, w', hr, hf, hc⟩ : ∃ w w', Runs step SetsInTime (create "client")
      [.call (.setConnCallback (some 0)), .call (.connect true)] w ∧ w.client.connFn = some 0 ∧
      w.step (.connectDone (some ⟨true, true⟩)) = some w' := by
    refine ⟨_, _, .cons rfl (.inr ?_) (.single rfl trivial), rfl, rfl⟩
    rintro i c ⟨⟩
  exact ⟨w, w', hc, last_callback_used hr (fun _ _ _ => by simp [hf]) hc⟩

/-- A message that arrives after `SetMessageCallback` goes to the callback that was set
when the connection was made. -/
theorem stale_message_callback :
    ∃ w w' c c', Runs step anyStep (create "client") [.call (.setConnCallback (some 0)),
        .call (.setMessageCallback (some 1)), .call (.connect true),
        .connectDone (some ⟨true, true⟩), .conn 0 .resume true,
        .call (.setMessageCallback (some 2)), .conn 0 (.readReady (.ok [7])) true] w ∧
      w.client.msgFn = some 2 ∧ w.noticeTo 0 (.conn 0 .handleRead true) = some .message ∧
      w.step (.conn 0 .handleRead true) = some w' ∧
      w.conns[0]? = some c ∧ w'.conns[0]? = some c' ∧ c.notices c' = [.msgFn 1] := by
  let c : TcpConn := .established "client" .kOutgoing 0 (some 1) .onRemoveConn
  let a : TcpConn := .attaching "client" .kOutgoing 0 (some 1) .onRemoveConn
  let w₁ : ClientLoop := { create "client" with
    client := ⟨"client", false, 0, some 0, some 0, some 1⟩
    conns := [a], trace := [.connect, .connected 0] }
  have hr₁ : Runs step anyStep (create "client") [.call (.setConnCallback (some 0)),
      .call (.setMessageCallback (some 1)), .call (.connect true),
      .connectDone (some ⟨true, true⟩)] w₁ :=
    .cons rfl trivial (.cons rfl trivial (.cons rfl trivial (.single rfl trivial)))
  have h₁ : w₁.step (.conn 0 .resume true) = some { w₁ with conns := [c] } :=
    congrArg (Option.map fun d => w₁.afterConn 0 d true) (TcpConn.step_established _ _ _ _ _)
  obtain ⟨w, w', d, d', hr₂, hrest⟩ : ∃ w w' d d', Runs step anyStep { w₁ with conns := [c] }
      [.call (.setMessageCallback (some 2)), .conn 0 (.readReady (.ok [7])) true] w ∧
      w.client.msgFn = some 2 ∧ w.noticeTo 0 (.conn 0 .handleRead true) = some .message ∧
      w.step (.conn 0 .handleRead true) = some w' ∧
      w.conns[0]? = some d ∧ w'.conns[0]? = some d' ∧ d.notices d' = [.msgFn 1] :=
    ⟨_, _, _, _, .cons rfl trivial (.single rfl trivial), rfl, rfl, rfl, rfl, rfl, rfl⟩
  exact ⟨w, w', d, d', (hr₁.snoc h₁ trivial).append hr₂, hrest⟩

end ClientLoop

end Libasio
