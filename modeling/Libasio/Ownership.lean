import Libasio.Lifecycle

/-!
# The owner of a connection

Who keeps a connection alive: the map of the server or the member of the
client, handlers and functors that are still to run, and the user. The
destructor may run once only the user is left.

## Main definitions

- `Held`, `Held.step` — a connection with the references of its owner
- `Held.NoLateClose` — `Close` is called while the close sequence is to come

## Main results

- `Held.destructor_assertions_hold` — what `~TCPConn` asserts

## Design notes

`RunInLoop` runs `RemoveConn`'s functor at once when the connection lives on
the listening loop, and posts it otherwise.
-/

namespace Libasio

open Transition TcpConn

structure Held where
  conn : TcpConn
  /-- `conns_` of the server, or `conn_` of the client, has the connection -/
  member : Bool
  /-- functors of `RemoveConn` posted to the listening loop -/
  removals : Nat
  /-- the loop of the connection is the loop of its owner -/
  sameLoop : Bool

namespace Held

/-- `stop` is `StopInLoop`, `removeConn` a functor of `RemoveConn`, and `conn e`
everything else, calls by the user and by handlers included. -/
inductive Event
  | conn (e : TcpConn.Event)
  | removeConn
  | stop

/-- `RemoveConn` of the server, and `OnRemoveConn` of the client. -/
def closeCallback (h : Held) : CloseCallback → Held
  | .removeConn =>
    if h.sameLoop then { h with member := false } else { h with removals := h.removals + 1 }
  | .onRemoveConn => { h with member := false }

/-- The step has called the close callback. -/
def Calls (c c' : TcpConn) : Prop := c.frame ≠ some .removing ∧ c'.frame = some .removing

instance (c c' : TcpConn) : Decidable (Calls c c') := inferInstanceAs (Decidable (_ ∧ _))

def step (h : Held) : Event → Option Held
  | .conn e => (h.conn.step e).map fun c =>
    match c.closeFn with
    | some f => if Calls h.conn c then { h with conn := c }.closeCallback f else { h with conn := c }
    | none => { h with conn := c }
  | .removeConn =>
    if 0 < h.removals then some { h with removals := h.removals - 1, member := false } else none
  | .stop => some (if h.member then { h with conn := h.conn.close } else h)

/-- A pending handler, a posted functor or the owner refers to the connection. -/
def Referenced (h : Held) : Prop :=
  h.member = true ∨ 0 < h.removals ∨ h.conn.frame ≠ none ∨
    h.conn.reading ≠ none ∨ h.conn.writing ≠ none ∨ h.conn.posted ≠ []

/-- A connection that its owner has just handed to the loop. -/
def Initial (h : Held) : Prop := h.conn.Initial ∧ h.member = true ∧ h.removals = 0

/-- Handlers still to run will end in the close sequence. -/
def Closing (c : TcpConn) : Prop :=
  c.armed = true ∨ c.writeFails = true ∨ c.frame = some .closing ∨ c.frame = some .removing

/-- No exception leaves a handler, and once a connection is attached `Close` is
called only while the close sequence is still to come. -/
def NoLateClose (h : Held) (e : Event) (h' : Held) : Prop :=
  h'.conn.escaped = false ∧
  (e = .conn .close ∨ e = .stop ∧ h.member = true → h.conn.Attached → Closing h.conn)

/-- An attached connection is disconnected, or will be. -/
def Finishes (c : TcpConn) : Prop :=
  c.Attached → c.escaped = false → Closing c ∨ c.status = .kDisconnected

theorem finishes_handleError (c : TcpConn) : Finishes c.handleError := by
  intro _ _
  rcases handleError_cases c with ⟨f, -, he⟩ | ⟨f, -, -, he⟩ | ⟨-, -, he⟩
  · exact Or.inl (Or.inr (Or.inr (Or.inl (by rw [he]))))
  · exact Or.inl (Or.inr (Or.inr (Or.inr (by rw [he]))))
  · exact Or.inr (by rw [he])

/-- Sending on a closed connection only reports the loss; on an open one a read
is outstanding. -/
theorem finishes_sendInLoop {c : TcpConn} (hl : LiveInv c) (h : Finishes c) (data : Bytes) :
    Finishes (c.sendInLoop data) := by
  obtain ⟨_, _, _, _, _, he, -⟩ := outputOnly_sendInLoop c data
  cases ho : c.isOpen with
  | false =>
    rw [sendInLoop_closed ho]
    exact h
  | true =>
    intro ha hx
    rw [he] at ha hx
    have harmed : c.armed = true := (hl.armed_or_closed ha hx).resolve_right (by simp [ho])
    left
    left
    rw [he]
    exact harmed

/-- A successful write either drains the buffers, or leaves a write outstanding
that a closed socket makes fail. -/
theorem finishes_handleWrite {c : TcpConn} {region : Bytes} {n : Nat} (hl : LiveInv c)
    (ho : OutputInv c) (h : Finishes c) (hf : c.frame = none)
    (hw : c.writing = some ⟨region, some (.ok n)⟩) :
    Finishes (({ c with writing := none, trace := c.trace ++ [.handleWrite region (.ok n)] } :
      TcpConn).handleWrite (.ok n)) := by
  let c₁ : TcpConn := { c with
    writing := none, trace := c.trace ++ [.handleWrite region (.ok n)] }
  by_cases hq : c.writeFails = true
  · obtain ⟨_, _, _, _, _, he, -⟩ := outputOnly_handleWrite c₁ n
    intro ha hx
    have harmed : c.armed = true ∨ c.isOpen = false := 
      hl.armed_or_closed (by rwa [he] at ha) (by rwa [he] at hx)
    left
    rcases harmed with harmed | hclosed
    · left
      rw [he]
      exact harmed
    · exact Or.inr (Or.inl (handleWrite_undrained ho hclosed hw hq))
  · rw [handleWrite_drained ho hw (Bool.eq_false_iff.mpr hq)]
    intro ha hx
    rcases h ha hx with (harmed | hfails | hfr | hfr) | hs
    · exact Or.inl (Or.inl harmed)
    · exact absurd hfails hq
    · rw [hf] at hfr
      cases hfr
    · rw [hf] at hfr
      cases hfr
    · exact Or.inr hs

theorem finishes_closeSocket {c : TcpConn} (h : Finishes c) : Finishes c.closeSocket := by
  intro ha hx
  rcases h ha hx with (harmed | hfails | hfr | hfr) | hs
  · refine Or.inl (Or.inl ?_)
    simpa [armed, closeSocket] using harmed
  · refine Or.inl (Or.inr (Or.inl ?_))
    exact (writeFails_closeSocket c).trans hfails
  · exact Or.inl (Or.inr (Or.inr (Or.inl hfr)))
  · exact Or.inl (Or.inr (Or.inr (Or.inr hfr)))
  · exact Or.inr hs

/-- The steps of a connection, `Close` apart. -/
theorem finishes_step {c c' : TcpConn} {e : TcpConn.Event} (hs : Sound c) (h : Finishes c)
    (he : e = .close → c.Attached → Closing c) (hc : c.step e = some c') : Finishes c' := by
  cases e with
  | send inLoop data =>
    cases hc
    cases inLoop with
    | true => exact finishes_sendInLoop hs.live h data
    | false =>
      intro ha hx
      exact h (by simpa [Attached, send, post] using ha) hx
  | close =>
    cases hc
    intro ha _
    exact Or.inl (he rfl (by simpa [Attached, close, post] using ha))
  | setConnCallback _ | setMessageCallback _ | setHighWaterMarkCallback _ _ | setCloseCallback _ =>
    cases hc
    exact h
  | editRecv f =>
    obtain ⟨-, ⟨⟩⟩ := Option.ite_none_right_eq_some.mp hc
    exact h
  | readReady r =>
    obtain ⟨room, hr, -, rfl⟩ := readReady_cases hc
    exact fun _ _ => Or.inl (Or.inl rfl)
  | writeReady r =>
    obtain ⟨region, hw, -, rfl⟩ := writeReady_cases hc
    intro ha hx
    have ho : c.isOpen = true := hs.output.inFlight _ hw rfl
    exact Or.inl (Or.inl ((hs.live.armed_or_closed ha hx).resolve_right (by simp [ho])))
  | runPosted =>
    obtain ⟨f, fs, hp, -, rfl⟩ := runPosted_cases hc
    by_cases hf : f = .onAttachedToLoop
    · subst hf
      simp only [runFunctor, onAttachedToLoop]
      cases c.connFn with
      | some f => exact fun _ _ => Or.inl (Or.inl (by simp [armed, emit]))
      | none => rintro _ ⟨⟩
    · obtain ⟨hfs, hl⟩ := hs.live.pop hp hf
      have ha : c.Attached := by
        simp only [Attached, hp, List.mem_cons, not_or]
        exact ⟨Ne.symm hf, hfs⟩
      have hrest : Finishes { c with posted := fs } := fun _ => h ha
      cases f with
      | onAttachedToLoop => exact absurd rfl hf
      | closeSocket => exact finishes_closeSocket hrest
      | sendStringInLoop message => exact finishes_sendInLoop hl hrest message
  | handleRead =>
    obtain ⟨room, r, hr, -, rfl⟩ := startRead_cases hc
    cases r with
    | eof | error => exact finishes_handleError _
    | ok data =>
      simp only [handleRead]
      cases c.msgFn with
      | some f => exact fun _ _ => Or.inl (Or.inl (by simp [armed, emit]))
      | none => rintro _ ⟨⟩
  | handleWrite =>
    obtain ⟨region, r, hw, hidle, rfl⟩ := startWrite_cases hc
    cases r with
    | error => exact finishes_handleError _
    | ok n => exact finishes_handleWrite hs.live hs.output h (idle_iff.mp hidle).1 hw
  | resume =>
    obtain ⟨f, hf, rfl⟩ := Option.map_eq_some_iff.mp hc
    intro _ _
    cases f with
    | attached | message => exact Or.inl (Or.inl rfl)
    | removing => exact Or.inr rfl
    | closing =>
      simp only [resume, callCloseFn]
      cases c.closeFn with
      | some g => exact Or.inl (Or.inr (Or.inr (Or.inr rfl)))
      | none => exact Or.inr rfl
  | throw =>
    obtain ⟨f, -, rfl⟩ := Option.map_eq_some_iff.mp hc
    rintro _ ⟨⟩

theorem finishes_close {c : TcpConn} (h : c.Attached → Closing c) : Finishes c.close := by
  intro ha _
  exact Or.inl (h (by simpa [Attached, close, post] using ha))

/-- The owner changes its references, the connection takes a step of its own,
is closed, or stays as it is. -/
theorem step_cases {h h' : Held} {e : Event} (hs : h.step e = some h') :
    (∃ e', e = .conn e' ∧ h.conn.step e' = some h'.conn) ∨
    (e = .stop ∧ h.member = true ∧ h'.conn = h.conn.close) ∨ h'.conn = h.conn := by
  cases e with
  | conn e' =>
    obtain ⟨c, hc, rfl⟩ := Option.map_eq_some_iff.mp hs
    refine Or.inl ⟨e', rfl, ?_⟩
    rw [hc]
    split
    · split
      · next f _ _ =>
        cases f with
        | onRemoveConn => rfl
        | removeConn =>
          simp only [closeCallback]
          split <;> rfl
      · rfl
    · rfl
  | removeConn =>
    obtain ⟨-, ⟨⟩⟩ := Option.ite_none_right_eq_some.mp hs
    exact Or.inr (Or.inr rfl)
  | stop =>
    cases hs
    by_cases hm : h.member = true
    · exact Or.inr (Or.inl ⟨rfl, hm, by rw [if_pos hm]⟩)
    · exact Or.inr (Or.inr (by rw [if_neg hm]))

theorem step_sound {h h' : Held} {e : Event} (hs : Sound h.conn) (hc : h.step e = some h') :
    Sound h'.conn := by
  rcases step_cases hc with ⟨e', -, hc'⟩ | ⟨-, -, he⟩ | he
  · exact TcpConn.step_sound hs hc'
  · rw [he]
    exact @TcpConn.step_sound h.conn h.conn.close .close hs rfl
  · rw [he]
    exact hs

theorem step_finishes {h h' : Held} {e : Event} (hs : Sound h.conn) (hf : Finishes h.conn)
    (hg : NoLateClose h e h') (hc : h.step e = some h') : Finishes h'.conn := by
  rcases step_cases hc with ⟨e', rfl, hc'⟩ | ⟨rfl, hm, he⟩ | he
  · exact finishes_step hs hf (fun he => hg.2 (Or.inl (by rw [he]))) hc'
  · rw [he]
    exact finishes_close (hg.2 (Or.inr ⟨rfl, hm⟩))
  · rw [he]
    exact hf

/-- **The destructor's assertions**: once nothing but the user refers to an
attached connection, it is disconnected and its socket is closed. -/
theorem destructor_assertions_hold {h₀ h : Held} {es : List Event} (hi : Initial h₀)
    (hr : Runs step NoLateClose h₀ es h) (ha : h.conn.Attached) (hu : ¬Referenced h) :
    h.conn.status = .kDisconnected ∧ h.conn.isOpen = false := by
  have hstep : ∀ h e h', (Sound h.conn ∧ Finishes h.conn ∧ h.conn.escaped = false) →
      NoLateClose h e h' → h.step e = some h' →
      Sound h'.conn ∧ Finishes h'.conn ∧ h'.conn.escaped = false :=
    fun _ _ _ ⟨hs, hf, _⟩ hg hc => ⟨step_sound hs hc, step_finishes hs hf hg hc, hg.1⟩
  have hinit : Finishes h₀.conn ∧ h₀.conn.escaped = false := by
    obtain ⟨⟨name, type, connFn, msgFn, closeFn, he⟩, -⟩ := hi
    rw [he]
    exact ⟨fun ha => absurd (List.mem_singleton.mpr rfl) ha, rfl⟩
  obtain ⟨hs, hf, hx⟩ := hr.invariant hstep ⟨sound_initial hi.1, hinit⟩
  simp only [Referenced, not_or, not_not] at hu
  obtain ⟨-, -, hfr, hread, hwrite, -⟩ := hu
  have hun : h.conn.armed = false := by simp [armed, hfr, hread]
  have hq : h.conn.writeFails = false := by simp [writeFails, hwrite]
  constructor
  · rcases hf ha hx with (harmed | hfails | hfr' | hfr') | hst
    · simp [hun] at harmed
    · simp [hq] at hfails
    · simp [hfr] at hfr'
    · simp [hfr] at hfr'
    · exact hst
  · exact (hs.live.armed_or_closed ha hx).resolve_left (by simp [hun])

theorem step_conn {h : Held} {e : TcpConn.Event} {c : TcpConn} (hc : h.conn.step e = some c)
    (hn : ¬Calls h.conn c) : h.step (.conn e) = some { h with conn := c } := by
  simp only [step, hc, Option.map_some, if_neg hn]
  split <;> rfl

/-- A server's connection on a loop of the pool, attached and waiting for a read. -/
theorem run_established {G : Held → Event → Held → Prop} (connFn : Callback)
    (msgFn : Option Callback) (hp : ∀ h h', h'.conn.escaped = false → G h (.conn .runPosted) h')
    (hr : ∀ h h', h'.conn.escaped = false → G h (.conn .resume) h') :
    Runs step G
      ⟨handedOver "conn" .kIncoming (some connFn) msgFn .removeConn, true, 0, false⟩
      [.conn .runPosted, .conn .resume]
      ⟨established "conn" .kIncoming connFn msgFn .removeConn, true, 0, false⟩ := by
  have hattaching : (attaching "conn" .kIncoming connFn msgFn .removeConn).frame ≠ some .removing ∧
      (established "conn" .kIncoming connFn msgFn .removeConn).frame ≠ some .removing :=
    ⟨by rintro ⟨⟩, by rintro ⟨⟩⟩
  refine .cons (step_conn (step_attaching _ _ _ _ _) fun h => hattaching.1 h.2) (hp _ _ rfl) ?_
  exact .cons (step_conn (step_established _ _ _ _ _) fun h => hattaching.2 h.2) (hr _ _ rfl)
    (.nil _)

theorem destructor_assertions_hold_close :
    ∃ h, Runs step NoLateClose
      ⟨handedOver "conn" .kIncoming (some 0) (some 1) .removeConn, true, 0, false⟩
      [.conn .runPosted, .conn .resume, .stop, .conn .runPosted, .conn .handleRead, .conn .resume,
        .conn .resume, .removeConn] h ∧
      h.conn.status = .kDisconnected ∧ h.conn.isOpen = false := by
  have hi : Initial
      ⟨handedOver "conn" .kIncoming (some 0) (some 1) .removeConn, true, 0, false⟩ :=
    ⟨⟨_, _, _, _, _, rfl⟩, rfl, rfl⟩
  have other : ∀ {h h' : Held} {e}, e ≠ .conn .close → e ≠ .stop → h'.conn.escaped = false →
      NoLateClose h e h' :=
    fun hc hs hx => ⟨hx, fun he => he.elim (absurd · hc) fun he => absurd he.1 hs⟩
  have hrun := @run_established NoLateClose 0 (some 1)
    (fun _ _ hx => other (by simp) (by simp) hx) fun _ _ hx => other (by simp) (by simp) hx
  obtain ⟨h, hr, ha, hu⟩ : ∃ h, Runs step NoLateClose
      ⟨handedOver "conn" .kIncoming (some 0) (some 1) .removeConn, true, 0, false⟩
      ([.conn .runPosted, .conn .resume] ++ [.stop, .conn .runPosted, .conn .handleRead,
        .conn .resume, .conn .resume, .removeConn]) h ∧ h.conn.Attached ∧ ¬Referenced h := by
    refine ⟨_, hrun.append (.cons rfl ⟨rfl, fun _ _ => Or.inl rfl⟩
      (.cons rfl (other (by simp) (by simp) rfl) (.cons rfl (other (by simp) (by simp) rfl)
      (.cons rfl (other (by simp) (by simp) rfl) (.cons rfl (other (by simp) (by simp) rfl)
      (.cons rfl (other (by simp) (by simp) rfl) (.nil _))))))), ?_, ?_⟩
    · exact List.not_mem_nil
    · rintro (h | h | h | h | h | h) <;> revert h <;> decide
  exact ⟨h, hr, destructor_assertions_hold hi hr ha hu⟩

/-- Closed by the user after the end was reported, `RemoveConn` has run, and the
posted close has run: the last reference goes while the status is `kDisconnecting`. -/
theorem destructor_assertion_fails :
    ∃ h, Runs step anyStep
      ⟨handedOver "conn" .kIncoming (some 0) (some 1) .removeConn, true, 0, false⟩
      [.conn .runPosted, .conn .resume, .conn (.readReady .eof), .conn .handleRead, .conn .resume,
        .conn .resume, .removeConn, .conn .close, .conn .runPosted] h ∧
      h.conn.Attached ∧ ¬Referenced h ∧ h.conn.status = .kDisconnecting := by
  have hrun := @run_established anyStep 0 (some 1) (fun _ _ _ => trivial) fun _ _ _ => trivial
  refine ⟨_, hrun.append (.cons rfl trivial (.cons rfl trivial (.cons rfl trivial
    (.cons rfl trivial (.cons rfl trivial (.cons rfl trivial (.cons rfl trivial (.nil _)))))))),
    ?_, ?_, ?_⟩
  · exact List.not_mem_nil
  · rintro (h | h | h | h | h | h) <;> revert h <;> decide
  · rfl

end Held

end Libasio
