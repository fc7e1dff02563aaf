import Libasio.ClientSteps

/-!
# The assertion of `DisconnectInLoop`

`DisconnectInLoop` asserts that `conn_` is neither disconnected nor disconnecting,
and then closes it. `conn_` is reset by the close callback only, so that a second
`DisconnectInLoop` may find the connection that the first one has closed.

## Main definitions

- `ClientLoop.EndsConn` — the steps by which a connection stops being connected

## Main results

- `ClientLoop.disconnect_assertion_iff` — the assertion holds as long as none was taken
-/

namespace Libasio

open Transition

namespace TcpConn

/-- The connection is connected, and its close sequence is not under way. -/
structure Up (c : TcpConn) : Prop where
  attached : c.Attached
  status : c.status = .kConnected
  closing : c.frame ≠ some .closing
  removing : c.frame ≠ some .removing

theorem Up.not_off {c : TcpConn} (h : c.Up) : ¬c.Off := fun hoff => hoff.ne_connected h.status

/-- Only `Close` and a failing handler take a connection out of that state. -/
theorem step_up {c c' : TcpConn} {e : Event} (h : Up c) (hclose : e ≠ .close) (hf : ¬Fails c e)
    (hc : c.step e = some c') : Up c' := by
  have hstatus : c'.status = c.status := by
    obtain hsame | ⟨-, he⟩ := (step_status (.inl h.attached) hc).2
    · exact hsame
    · obtain rfl | hfail | ⟨-, hfr | hfr⟩ := he
      · exact absurd rfl hclose
      · exact absurd hfail hf
      · exact absurd hfr h.closing
      · exact absurd hfr h.removing
  have hcalm : Calm c c' := step_calm (fun _ => h.closing) hf hc
  refine ⟨step_attached h.attached hc, hstatus.trans h.status, ?_, ?_⟩
  · obtain hsame | ⟨hne, -⟩ := hcalm.frame
    · exact hsame ▸ h.closing
    · exact hne
  · obtain hsame | ⟨-, hne⟩ := hcalm.frame
    · exact hsame ▸ h.removing
    · exact hne

end TcpConn

namespace ClientLoop

/-- The step closes connection `i`, as `conn_` or by a call of its own, or starts
its close sequence. -/
def EndsConn (w : ClientLoop) (i : Nat) (e : Event) : Prop :=
  DisconnectsInLoop w i e ∨
    ∃ c e' resolves, w.conns[i]? = some c ∧ e = .conn i e' resolves ∧ (e' = .close ∨ c.Fails e')

/-- A connection is connected from its first callback on. -/
theorem up_of_makes {w : ClientLoop} {c : TcpConn} (h : Makes w c) : c.Up := by
  unfold Makes at h
  cases hf : w.client.connFn with
  | some f =>
    rw [hf] at h
    cases h
    exact ⟨List.not_mem_nil, rfl, nofun, nofun⟩
  | none =>
    rw [hf] at h
    cases h
    exact ⟨List.not_mem_nil, rfl, nofun, nofun⟩

theorem Touches.up {w : ClientLoop} {e : Event} {i : Nat} {c d : TcpConn} (ht : Touches w e i c d)
    (hi : w.conns[i]? = some c) (h : c.Up) (hn : ¬EndsConn w i e) : d.Up := by
  have step : ∀ {e' : TcpConn.Event} {resolves : Bool} {c' : TcpConn}, e = .conn i e' resolves →
      c.step e' = some c' → c'.Up := by
    intro e' resolves c' he hs
    refine TcpConn.step_up h (fun hclose => hn ?_) (fun hfail => hn ?_) hs
    · exact .inr ⟨c, e', resolves, hi, he, .inl hclose⟩
    · exact .inr ⟨c, e', resolves, hi, he, .inr hfail⟩
  cases ht with
  | same => exact h
  | closed hd => exact absurd (.inl hd) hn
  | setConnCallback cb => exact ⟨h.attached, h.status, h.closing, h.removing⟩
  | detached he hs =>
    rw [h.status] at hs
    cases hs
  | moved he _ hs _ => exact step he hs
  | removed he _ hs hf _ => exact absurd hf (step he hs).removing

/-- A connection that is off. -/
def Ended (c : TcpConn) : Prop := c.Attached ∧ c.Off

theorem ended_removed {c d : TcpConn} (h : Ended c)
    (hd : d = c.throw ∨ d = c.resume .removing) : Ended d := by
  obtain rfl | rfl := hd
  · exact h
  · exact ⟨h.1, .inl rfl⟩

theorem ended_close {c : TcpConn} (ha : c.Attached) : Ended c.close :=
  ⟨by simpa [TcpConn.Attached, TcpConn.close, TcpConn.post] using ha, .inr rfl⟩

theorem Touches.ended {w : ClientLoop} {e : Event} {i : Nat} {c d : TcpConn}
    (ht : Touches w e i c d) (h : Ended c) : Ended d := by
  cases ht with
  | same => exact h
  | closed => exact ended_close h.1
  | setConnCallback cb => exact h
  | detached => exact h
  | moved _ _ hs _ => exact ⟨TcpConn.step_attached h.1 hs, TcpConn.step_off h.1 h.2 hs⟩
  | removed _ _ hs _ hd =>
    exact ended_removed ⟨TcpConn.step_attached h.1 hs, TcpConn.step_off h.1 h.2 hs⟩ hd

/-- Each of the steps that end a connection turns it off. -/
theorem Touches.ended_of_ends {w : ClientLoop} {e : Event} {i : Nat} {c d : TcpConn}
    (ht : Touches w e i c d) (hi : w.conns[i]? = some c) (ha : c.Attached) (he : EndsConn w i e) :
    Ended d := by
  have step : ∀ {e' : TcpConn.Event} {resolves : Bool} {c' : TcpConn}, e = .conn i e' resolves →
      c.step e' = some c' → Ended c' := by
    rintro e' resolves c' rfl hs
    obtain hd | ⟨b, e'', resolves', hb, heq, hends⟩ := he
    · exact absurd hd id
    · cases heq
      obtain rfl : b = c := Option.some.inj (hb.symm.trans hi)
      exact ⟨TcpConn.step_attached ha hs, TcpConn.off_of_ends hends hs⟩
  cases ht with
  | same hn =>
    obtain hd | ⟨-, e', resolves, -, rfl, -⟩ := he
    · exact absurd (concerns_of_disconnects hd) hn
    · exact absurd rfl hn
  | closed => exact ended_close ha
  | setConnCallback cb hcall =>
    subst hcall
    obtain hd | ⟨b, e', resolves, -, heq, -⟩ := he
    · exact absurd hd id
    · cases heq
  | detached hcall =>
    subst hcall
    obtain hd | ⟨b, e', resolves, -, heq, -⟩ := he
    · exact absurd hd id
    · cases heq
  | moved hconn _ hs _ => exact step hconn hs
  | removed hconn _ hs _ hd => exact ended_removed (step hconn hs) hd

/-- A step that does not end connection `i` finds it up and leaves it up. -/
theorem step_up_conn {w w' : ClientLoop} {e : Event} {i : Nat}
    (h : ∀ c, w.conns[i]? = some c → c.Up) (hn : ¬EndsConn w i e) (hc : w.step e = some w') :
    ∀ c, w'.conns[i]? = some c → c.Up := by
  intro d hd
  cases hi : w.conns[i]? with
  | some c =>
    obtain ⟨d', hd', ht⟩ := step_touches hc hi
    obtain rfl : d' = d := Option.some.inj (hd'.symm.trans hd)
    exact ht.up hi (h c hi) hn
  | none =>
    obtain ⟨-, -, hm, -⟩ := step_made hc hi hd
    exact up_of_makes hm

/-- The history has not ended connection `i` so far, or the connection is off. -/
def SparedOrEnded (name : String) (i : Nat) (es : List Event) (w : ClientLoop) : Prop :=
  (Runs step (fun w e _ => ¬EndsConn w i e) (create name) es w ∧
    ∀ c, w.conns[i]? = some c → c.Up) ∨
  ∃ c, w.conns[i]? = some c ∧ Ended c

theorem step_sparedOrEnded {name : String} {i : Nat} {es : List Event} {w w' : ClientLoop}
    {e : Event} (hr : Runs step anyStep (create name) es w) (h : SparedOrEnded name i es w)
    (hc : w.step e = some w') : SparedOrEnded name i (es ++ [e]) w' := by
  obtain ⟨hspared, hup⟩ | ⟨c, hi, hended⟩ := h
  · by_cases hends : EndsConn w i e
    · have hlt : i < w.conns.length := by
        obtain hd | ⟨c, -, -, hi, -⟩ := hends
        · exact conn_lt hr (conn_of_disconnects hd)
        · exact (List.getElem?_eq_some_iff.mp hi).1
      have hi := List.getElem?_eq_getElem hlt
      obtain ⟨d, hd, ht⟩ := step_touches hc hi
      exact .inr ⟨d, hd, ht.ended_of_ends hi (hup _ hi).attached hends⟩
    · exact .inl ⟨hspared.snoc hc hends, step_up_conn hup hends hc⟩
  · obtain ⟨d, hd, ht⟩ := step_touches hc hi
    exact .inr ⟨d, hd, ht.ended hended⟩

/-- **The assertion of `DisconnectInLoop`**: it holds of a connection, which may be `conn_`,
exactly as long as no step has closed that connection or started its close sequence. -/
theorem disconnect_assertion_iff {name : String} {w : ClientLoop} {es : List Event} {i : Nat}
    {c : TcpConn} (hr : Runs step anyStep (create name) es w) (hi : w.conns[i]? = some c) :
    (c.status ≠ .kDisconnected ∧ c.status ≠ .kDisconnecting) ↔
      Runs step (fun w e _ => ¬EndsConn w i e) (create name) es w := by
  have hinit : ∀ c, (create name).conns[i]? = some c → c.Up := by
    rintro c ⟨⟩
  constructor
  · intro hassert
    have h : Runs step anyStep (create name) es w ∧ SparedOrEnded name i es w := by
      refine hr.invariant_history
        (I := fun es w => Runs step anyStep (create name) es w ∧ SparedOrEnded name i es w) ?_
        ⟨.nil _, .inl ⟨.nil _, hinit⟩⟩
      rintro es w e w' ⟨hr, h⟩ - hc
      exact ⟨hr.snoc hc trivial, step_sparedOrEnded hr h hc⟩
    obtain ⟨hspared, -⟩ | ⟨d, hd, -, hoff⟩ := h.2
    · exact hspared
    · obtain rfl : d = c := Option.some.inj (hd.symm.trans hi)
      obtain hs | hs := hoff
      · exact absurd hs hassert.1
      · exact absurd hs hassert.2
  · intro hspared
    have hup : c.Up := hspared.invariant (fun _ _ _ h hn hc => step_up_conn h hn hc) hinit c hi
    exact not_or.mp hup.not_off

/-- A client that has connected and waits in its connection callback. -/
def greeting : ClientLoop :=
  { create "client" with
    client := ⟨"client", false, 0, some 0, some 0, none⟩
    conns := [.attaching "client" .kOutgoing 0 none .onRemoveConn]
    trace := [.connect, .connected 0] }

theorem run_greeting {G : ClientLoop → Event → ClientLoop → Prop}
    (hg : ∀ w e w', e ∈ [Event.call (.setConnCallback (some 0)), .call (.connect true),
      .connectDone (some ⟨true, true⟩)] → G w e w') :
    Runs step G (create "client") [.call (.setConnCallback (some 0)), .call (.connect true),
      .connectDone (some ⟨true, true⟩)] greeting :=
  .cons rfl (hg _ _ _ (by simp)) (.cons rfl (hg _ _ _ (by simp)) (.single rfl (hg _ _ _ (by simp))))

theorem disconnect_assertion_first_call :
    TcpConn.status (.attaching "client" .kOutgoing 0 none .onRemoveConn) ≠ .kDisconnected ∧
      TcpConn.status (.attaching "client" .kOutgoing 0 none .onRemoveConn) ≠ .kDisconnecting := by
  refine (disconnect_assertion_iff (i := 0) (run_greeting fun _ _ _ _ => trivial) rfl).mpr
    (run_greeting fun w e w' he => ?_)
  simp only [List.mem_cons, List.not_mem_nil, or_false] at he
  rintro (hd | ⟨c, e', resolves, -, heq, -⟩)
  · obtain rfl | rfl | rfl := he <;> exact absurd hd id
  · obtain rfl | rfl | rfl := he <;> cases heq

/-- Two calls of `Disconnect` in the connection callback: the second one finds the
connection disconnecting. -/
theorem second_disconnect_fails_assertion :
    ∃ w c, Runs step anyStep (create "client") [.call (.setConnCallback (some 0)),
        .call (.connect true), .connectDone (some ⟨true, true⟩), .call (.disconnect true)] w ∧
      DisconnectsInLoop w 0 (.call (.disconnect true)) ∧ (w.step (.call (.disconnect true))).isSome ∧
      w.conns[0]? = some c ∧ c.status = .kDisconnecting :=
  ⟨_, _, (run_greeting fun _ _ _ _ => trivial).snoc rfl trivial, rfl, rfl, rfl, rfl⟩

end ClientLoop

end Libasio
