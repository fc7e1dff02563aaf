import Libasio.ClientLifetime
import Libasio.ClientRetry

/-!
# The connection that a client tracks

`conn_` is the connection made last. `OnRemoveConn` takes it that the one which
calls it is `conn_`, but every connection of the client calls it, as often as
its close sequence is run.

## Main definitions

- `TcpConn.OpenWhileConnected` — what a connection in connected state has not done yet
- `ClientLoop.AttachesAlone` — the condition on the success of a connect
- `ClientLoop.Tracked` — `conn_` is the last connection, the others are finished

## Main results

- `ClientLoop.client_tracks_connection` — only `conn_` resets `conn_`
-/

namespace Libasio

open Transition

namespace TcpConn

/-- In connected state the socket is open, and its close is not posted. -/
structure OpenWhileConnected (c : TcpConn) : Prop where
  attached : c.Attached
  connected : c.status = .kConnected → c.isOpen = true ∧ .closeSocket ∉ c.posted

/-- The output side changes none of it. -/
theorem OutputOnly.openWhileConnected {c c' : TcpConn} (h : OpenWhileConnected c) (hk : OutputOnly c c') :
    OpenWhileConnected c' := by
  obtain ⟨_, _, _, _, _, rfl, -⟩ := hk
  exact ⟨h.attached, h.connected⟩

/-- The close sequence ends the connected state. -/
theorem openWhileConnected_handleError {c : TcpConn} (h : c.Attached) : OpenWhileConnected c.handleError := by
  rcases handleError_cases c with ⟨f, -, he⟩ | ⟨f, -, -, he⟩ | ⟨-, -, he⟩
  all_goals
    rw [he]
    exact ⟨h, by rintro ⟨⟩⟩

/-- A step of an attached connection does not bring the connected state back. -/
theorem step_openWhileConnected {c c' : TcpConn} {e : Event} (h : OpenWhileConnected c)
    (hc : c.step e = some c') : OpenWhileConnected c' := by
  cases e with
  | send inLoop data =>
    cases hc
    cases inLoop with
    | true => exact (outputOnly_sendInLoop c data).openWhileConnected h
    | false =>
      refine ⟨?_, fun hs => ?_⟩
      · simpa [Attached, send, post] using h.attached
      · simpa [send, post] using h.connected hs
  | close =>
    cases hc
    refine ⟨?_, by rintro ⟨⟩⟩
    simpa [Attached, close, post] using h.attached
  | setConnCallback _ | setMessageCallback _ | setHighWaterMarkCallback _ _
  | setCloseCallback _ =>
    cases hc
    exact ⟨h.attached, h.connected⟩
  | editRecv edit =>
    obtain ⟨-, ⟨⟩⟩ := Option.ite_none_right_eq_some.mp hc
    exact ⟨h.attached, h.connected⟩
  | readReady r =>
    obtain ⟨room, -, -, rfl⟩ := readReady_cases hc
    exact ⟨h.attached, h.connected⟩
  | writeReady r =>
    obtain ⟨region, -, -, rfl⟩ := writeReady_cases hc
    exact ⟨h.attached, h.connected⟩
  | runPosted =>
    obtain ⟨f, fs, hp, -, rfl⟩ := runPosted_cases hc
    have ha := h.attached
    simp only [Attached, hp, List.mem_cons, not_or] at ha
    have hconn : c.status = .kConnected → c.isOpen = true ∧ f ≠ .closeSocket ∧
        .closeSocket ∉ fs := by
      intro hs
      obtain ⟨ho, hq⟩ := h.connected hs
      simp only [hp, List.mem_cons, not_or] at hq
      exact ⟨ho, Ne.symm hq.1, hq.2⟩
    cases f with
    | onAttachedToLoop => exact absurd rfl ha.1
    | closeSocket => exact ⟨ha.2, fun hs => absurd rfl (hconn hs).2.1⟩
    | sendStringInLoop message =>
      have hfs : OpenWhileConnected { c with posted := fs } :=
        ⟨ha.2, fun hs => ⟨(hconn hs).1, (hconn hs).2.2⟩⟩
      exact (outputOnly_sendInLoop _ message).openWhileConnected hfs
  | handleRead =>
    obtain ⟨room, r, -, -, rfl⟩ := startRead_cases hc
    cases r with
    | eof | error => exact openWhileConnected_handleError h.attached
    | ok data =>
      simp only [handleRead]
      split <;> exact ⟨h.attached, h.connected⟩
  | handleWrite =>
    obtain ⟨region, r, -, -, rfl⟩ := startWrite_cases hc
    let c₁ : TcpConn := { c with writing := none, trace := c.trace ++ [.handleWrite region r] }
    have h₁ : OpenWhileConnected c₁ := ⟨h.attached, h.connected⟩
    cases r with
    | ok n => exact (outputOnly_handleWrite c₁ n).openWhileConnected h₁
    | error => exact @openWhileConnected_handleError { c₁ with asyncWriting := false } h.attached
  | resume =>
    obtain ⟨f, -, rfl⟩ := Option.map_eq_some_iff.mp hc
    cases f with
    | attached | message => exact ⟨h.attached, h.connected⟩
    | removing => exact ⟨h.attached, by rintro ⟨⟩⟩
    | closing =>
      simp only [resume, callCloseFn]
      split
      · exact ⟨h.attached, h.connected⟩
      · exact ⟨h.attached, by rintro ⟨⟩⟩
  | throw =>
    obtain ⟨f, -, rfl⟩ := Option.map_eq_some_iff.mp hc
    exact ⟨h.attached, h.connected⟩

theorem Finished.not_connected {c : TcpConn} (h : Finished c) (he : OpenWhileConnected c) :
    c.status ≠ .kConnected := by
  intro hs
  have ho := (he.connected hs).1
  rw [h.closed] at ho
  cases ho

end TcpConn

namespace ClientLoop

/-- No connection is made, and `conn_` is as it was or has been reset. -/
structure SameRoster (w w' : ClientLoop) : Prop where
  length : w'.conns.length = w.conns.length
  conn : w'.client.conn = w.client.conn ∨ w'.client.conn = none

theorem sameRoster_onConn (w : ClientLoop) (f : TcpConn → TcpConn) : SameRoster w (w.onConn f) := by
  unfold onConn
  split
  · exact ⟨List.length_modify _ _ _, Or.inl rfl⟩
  · exact ⟨rfl, Or.inl rfl⟩

theorem conn_connect (w : ClientLoop) (resolves : Bool) :
    (w.connect resolves).state.client.conn = w.client.conn := by
  cases resolves <;> rfl

theorem sameRoster_onRemoveConn (w : ClientLoop) (resolves : Bool) :
    SameRoster w (w.onRemoveConn resolves).state := by
  refine ⟨by rw [(onRemoveConn_kept w resolves).2], ?_⟩
  simp only [onRemoveConn]
  split
  · exact Or.inl rfl
  · right
    split
    · exact conn_connect _ resolves
    · rfl

theorem sameRoster_afterConn (w : ClientLoop) (i : Nat) (c : TcpConn) (resolves : Bool) :
    SameRoster w (w.afterConn i c resolves) := by
  have hset : ∀ (v : ClientLoop) (d : TcpConn), SameRoster w v → SameRoster w (v.setConn i d) :=
    fun v d h => ⟨List.length_set.trans h.length, h.conn⟩
  simp only [afterConn]
  split
  · refine hset _ _ ?_
    simp only [handle]
    split
    · exact sameRoster_onRemoveConn w resolves
    · exact ⟨rfl, Or.inl rfl⟩
  · exact hset w c ⟨rfl, Or.inl rfl⟩

/-- Only the success of a connect makes a connection, and sets `conn_` to it. -/
theorem step_roster {w w' : ClientLoop} {e : Event} (hc : w.step e = some w') :
    SameRoster w w' ∨
    (∃ socket, e = .connectDone (some socket) ∧ socket.isOpen = true ∧ socket.hasPeer = true ∧
      w.alive = true ∧ w'.conns.length = w.conns.length + 1 ∧
      w'.client.conn = some w.conns.length) := by
  cases e with
  | call k =>
    obtain ⟨-, hc⟩ := Option.ite_none_right_eq_some.mp hc
    left
    cases k with
    | connect resolves =>
      cases hc
      exact ⟨by rw [(connect_kept w resolves).2], Or.inl (conn_connect w resolves)⟩
    | disconnect inLoop =>
      cases hc
      cases inLoop with
      | true =>
        obtain ⟨hl, hconn⟩ := @sameRoster_onConn { w with client.autoReconnect := false } .close
        exact ⟨hl, hconn⟩
      | false => exact ⟨rfl, Or.inl rfl⟩
    | setAutoReconnect _ | setMessageCallback _ =>
      cases hc
      exact ⟨rfl, Or.inl rfl⟩
    | setConnCallback cb =>
      cases hc
      obtain ⟨hl, hconn⟩ := @sameRoster_onConn { w with client.connFn := cb } fun c =>
        c.setConnCallback cb
      exact ⟨hl, hconn⟩
    | destroy =>
      obtain ⟨rfl, -⟩ | ⟨i, c, -, -, -, rfl⟩ := destructor_cases hc
      · exact ⟨rfl, Or.inr rfl⟩
      · exact ⟨List.length_set, Or.inr rfl⟩
  | disconnectInLoop =>
    obtain ⟨-, ⟨⟩⟩ := Option.ite_none_right_eq_some.mp hc
    left
    simp only [run, handle]
    split
    · obtain ⟨hl, hconn⟩ := @sameRoster_onConn { w with
        disconnects := w.disconnects - 1, client.autoReconnect := false } .close
      exact ⟨hl, hconn⟩
    · exact ⟨rfl, Or.inl rfl⟩
  | connectDone r =>
    obtain ⟨-, ⟨⟩⟩ := Option.ite_none_right_eq_some.mp hc
    simp only [run, handle]
    split
    · next ha =>
      cases r with
      | none =>
        left
        simp only [handleConnect]
        split <;> exact ⟨rfl, Or.inl rfl⟩
      | some socket =>
        simp only [handleConnect, handleConn, TcpConn.ctor]
        split
        · exact Or.inl ⟨rfl, Or.inl rfl⟩
        · next c hctor =>
          obtain ⟨⟨hopen, hpeer⟩, -⟩ := Option.ite_none_right_eq_some.mp hctor
          exact Or.inr ⟨socket, rfl, hopen, hpeer, ha, by simp, rfl⟩
    · exact Or.inl ⟨rfl, Or.inl rfl⟩
  | timer resolves =>
    obtain ⟨-, ⟨⟩⟩ := Option.ite_none_right_eq_some.mp hc
    left
    simp only [run, handle]
    split
    · let v : ClientLoop := { w with timers := w.timers - 1 }
      exact ⟨by rw [(reconnect_kept v resolves).2], Or.inl (conn_connect _ resolves)⟩
    · exact ⟨rfl, Or.inl rfl⟩
  | conn i e resolves =>
    obtain ⟨c, c', -, -, -, rfl⟩ := stepConn_cases hc
    exact Or.inl (sameRoster_afterConn w i c' resolves)

/-- When a connect succeeds, every connection made before is finished. -/
def AttachesAlone (w : ClientLoop) (e : Event) (_ : ClientLoop) : Prop :=
  ∀ socket, e = .connectDone (some socket) → socket.isOpen = true → socket.hasPeer = true →
    w.alive = true → ∀ (i : Nat) c, w.conns[i]? = some c → c.Finished

/-- `conn_` is the last connection, and the others are finished. -/
structure Tracked (w : ClientLoop) : Prop where
  healthy : Healthy w
  upright : ∀ (i : Nat) c, w.conns[i]? = some c → c.OpenWhileConnected
  finished : ∀ (i : Nat) c, w.conns[i]? = some c → c.Finished ∨ i + 1 = w.conns.length
  last : ∀ i, w.client.conn = some i → i + 1 = w.conns.length

theorem openWhileConnected_attaching {c : TcpConn} (h : Attaching c) : c.OpenWhileConnected := by
  obtain ⟨name, connFn, msgFn, hc⟩ := h
  cases connFn with
  | some f =>
    cases hc
    exact ⟨List.not_mem_nil, fun _ => ⟨rfl, List.not_mem_nil⟩⟩
  | none =>
    cases hc
    exact ⟨List.not_mem_nil, fun _ => ⟨rfl, List.not_mem_nil⟩⟩

theorem finished_moves {c d : TcpConn} (hs : c.Sound) (h : c.Finished) (hm : Moves c d) :
    d.Finished := by
  have hstep : ∀ (c : TcpConn) (e : TcpConn.Event) (c' : TcpConn), Admits e →
      (c.Sound ∧ c.Finished) → c.step e = some c' → c'.Sound ∧ c'.Finished := by
    rintro c e c' - ⟨hs, hf⟩ hc
    exact ⟨TcpConn.step_sound hs hc, TcpConn.step_finished hs.output hf hc⟩
  exact (hm.invariant hstep ⟨hs, h⟩).2

theorem step_tracked {w w' : ClientLoop} {e : Event} (h : Tracked w) (hg : AttachesAlone w e w')
    (hc : w.step e = some w') : Tracked w' := by
  have hupright : ∀ (i : Nat) c, w'.conns[i]? = some c → c.OpenWhileConnected := by
    refine forall_conns ?_ (fun c _ _ hn => openWhileConnected_attaching hn) h.upright hc
    intro c d hcd hm
    exact hm.invariant (fun _ _ _ _ h hs => TcpConn.step_openWhileConnected h hs) hcd
  -- a connection that was there before is finished if it was, wherever the list ends now
  have hold : ∀ (i : Nat) c c', w.conns[i]? = some c → w'.conns[i]? = some c' → c.Finished →
      c'.Finished := by
    intro i c c' hi hi' hf
    have hev := step_conns hc i
    rw [hi, hi'] at hev
    cases hev with
    | same => exact hf
    | moves hm => exact finished_moves (h.healthy i c hi).1 hf hm
  have hlt : ∀ (i : Nat), i < w.conns.length → ∃ c, w.conns[i]? = some c :=
    fun i hi => ⟨_, List.getElem?_eq_getElem hi⟩
  refine ⟨step_healthy h.healthy hc, hupright, fun i c' hi' => ?_, fun i hi => ?_⟩
  · have hilt := (List.getElem?_eq_some_iff.mp hi').1
    rcases step_roster hc with ⟨hlen, -⟩ | ⟨socket, rfl, hopen, hpeer, ha, hlen, -⟩
    · obtain ⟨c, hi⟩ := hlt i (hlen ▸ hilt)
      rw [hlen]
      exact (h.finished i c hi).imp_left (hold i c c' hi hi')
    · rcases Nat.lt_succ_iff_lt_or_eq.mp (hlen ▸ hilt) with hlt' | rfl
      · obtain ⟨c, hi⟩ := hlt i hlt'
        exact Or.inl (hold i c c' hi hi' (hg socket rfl hopen hpeer ha i c hi))
      · exact Or.inr hlen.symm
  · rcases step_roster hc with ⟨hlen, hconn | hconn⟩ | ⟨socket, -, -, -, -, hlen, hconn⟩
    · rw [hlen]
      exact h.last i (hconn ▸ hi)
    · rw [hconn] at hi
      cases hi
    · rw [hconn] at hi
      obtain rfl := Option.some.inj hi
      exact hlen.symm

/-- A connection that calls its close callback is the last one. -/
theorem last_of_removes {w : ClientLoop} {i : Nat} {e : TcpConn.Event} (h : Tracked w)
    (hr : w.removes i e = true) : i + 1 = w.conns.length := by
  unfold removes at hr
  split at hr
  · next c hi =>
    obtain ⟨c', hs, hf⟩ := (Option.any_eq_true _ _).mp hr
    have hf : c'.frame = some .removing := of_decide_eq_true hf
    refine (h.finished i c hi).resolve_left fun hfin => ?_
    have hend := TcpConn.step_finished (h.healthy i c hi).1.output hfin hs
    simp [hend.frame] at hf
  · cases hr

/-- **The client tracks its connection**: when every connection made before is finished
whenever a connect succeeds, `OnRemoveConn` is only run for `conn_` or while it is null,
a step of another connection leaves it alone, and at most one connection is connected. -/
theorem client_tracks_connection {name : String} {w : ClientLoop} {es : List Event}
    (hr : Runs step AttachesAlone (create name) es w) :
    (∀ i e j, w.removes i e = true → w.client.conn = some j → i = j) ∧
    (∀ i e resolves w', w.step (.conn i e resolves) = some w' → w.client.conn ≠ some i →
      w'.client.conn = w.client.conn) ∧
    ∀ (i j : Nat) c d, w.conns[i]? = some c → w.conns[j]? = some d → c.status = .kConnected →
      d.status = .kConnected → i = j := by
  have h : Tracked w := by
    refine hr.invariant (fun _ _ _ h hg hc => step_tracked h hg hc) ⟨?_, ?_, ?_, ?_⟩
    · rintro i c ⟨⟩
    · rintro i c ⟨⟩
    · rintro i c ⟨⟩
    · rintro i ⟨⟩
  have honly : ∀ i e j, w.removes i e = true → w.client.conn = some j → i = j := by
    intro i e j hrem hj
    have hi := last_of_removes h hrem
    have hj := h.last j hj
    omega
  refine ⟨honly, fun i e resolves w' hc hne => ?_, fun i j c d hi hj hcs hds => ?_⟩
  · obtain ⟨c, c', hi, -, hs, rfl⟩ := stepConn_cases hc
    simp only [afterConn]
    split
    · next hf =>
      have hrem : w.removes i e = true := by simp [removes, hi, hs, hf]
      have hnone : w.client.conn = none := by
        cases hconn : w.client.conn with
        | none => rfl
        | some j => exact absurd (hconn.trans (congrArg some (honly i e j hrem hconn).symm)) hne
      simp only [setConn, handle, onRemoveConn, hnone, if_true]
      split
      · exact hnone
      · exact hnone
    · rfl
  · have hlast : ∀ (i : Nat) c, w.conns[i]? = some c → c.status = .kConnected →
        i + 1 = w.conns.length := by
      intro i c hi hs
      exact (h.finished i c hi).resolve_left fun hf => hf.not_connected (h.upright i c hi) hs
    have hi := hlast i c hi hcs
    have hj := hlast j d hj hds
    omega

theorem client_tracks_connection_connected :
    ∃ w, Runs step AttachesAlone (create "client")
        [.call (.setConnCallback (some 0)), .call (.connect true),
          .connectDone (some ⟨true, true⟩)] w ∧
      w.client.conn = some 0 ∧
      ∀ i e j, w.removes i e = true → w.client.conn = some j → i = j := by
  obtain ⟨w, hr, hconn⟩ : ∃ w, Runs step AttachesAlone (create "client")
      [.call (.setConnCallback (some 0)), .call (.connect true),
        .connectDone (some ⟨true, true⟩)] w ∧ w.client.conn = some 0 := by
    refine ⟨_, .cons rfl ?_ (.cons rfl ?_ (.single rfl ?_)), rfl⟩
    · rintro socket ⟨⟩
    · rintro socket ⟨⟩
    · rintro socket - - - - i c ⟨⟩
  exact ⟨w, hr, hconn, (client_tracks_connection hr).1⟩

/-- A client whose first connection is being closed by `Disconnect` while a second
`Connect` has succeeded: the close callback of the first resets `conn_`. -/
theorem stale_close_resets_connection :
    ∃ w w', Runs step anyStep (create "client")
        [.call (.setConnCallback (some 0)), .call (.connect true),
          .connectDone (some ⟨true, true⟩), .conn 0 .resume true, .call (.disconnect true),
          .call (.connect true), .connectDone (some ⟨true, true⟩), .conn 1 .resume true,
          .conn 0 .runPosted true, .conn 0 .handleRead true] w ∧
      w.alive = true ∧ w.removes 0 .resume = true ∧ w.client.conn = some 1 ∧
      w.step (.conn 0 .resume true) = some w' ∧ w'.client.conn = none ∧
      w'.conns[1]?.map TcpConn.status = some .kConnected := by
  let c : TcpConn := TcpConn.established "client" .kOutgoing 0 none .onRemoveConn
  let a : TcpConn := TcpConn.attaching "client" .kOutgoing 0 none .onRemoveConn
  have hresume : a.step .resume = some c := TcpConn.step_established _ _ _ _ _
  let w₁ : ClientLoop := { create "client" with
    client := ⟨"client", false, 0, some 0, some 0, none⟩
    conns := [a], trace := [.connect, .connected 0] }
  let w₂ : ClientLoop := { w₁ with
    client := ⟨"client", false, 0, some 1, some 0, none⟩
    conns := [c.close, a], trace := [.connect, .connected 0, .connect, .connected 1] }
  have hr₁ : Runs step anyStep (create "client") [.call (.setConnCallback (some 0)),
      .call (.connect true), .connectDone (some ⟨true, true⟩)] w₁ :=
    .cons rfl trivial (.cons rfl trivial (.single rfl trivial))
  have h₁ : w₁.step (.conn 0 .resume true) = some { w₁ with conns := [c] } :=
    congrArg (Option.map fun d => w₁.afterConn 0 d true) hresume
  have hr₂ : Runs step anyStep { w₁ with conns := [c] } [.call (.disconnect true),
      .call (.connect true), .connectDone (some ⟨true, true⟩)] w₂ :=
    .cons rfl trivial (.cons rfl trivial (.single rfl trivial))
  have h₂ : w₂.step (.conn 1 .resume true) = some { w₂ with conns := [c.close, c] } :=
    congrArg (Option.map fun d => w₂.afterConn 1 d true) hresume
  have hr₃ : ∃ w w', Runs step anyStep { w₂ with conns := [c.close, c] }
      [.conn 0 .runPosted true, .conn 0 .handleRead true] w ∧ w.alive = true ∧
      w.removes 0 .resume = true ∧ w.client.conn = some 1 ∧
      w.step (.conn 0 .resume true) = some w' ∧ w'.client.conn = none ∧
      w'.conns[1]?.map TcpConn.status = some .kConnected :=
    ⟨_, _, .cons rfl trivial (.single rfl trivial), rfl, rfl, rfl, rfl, rfl, rfl⟩
  obtain ⟨w, w', hr₃, hrest⟩ := hr₃
  exact ⟨w, w', ((hr₁.snoc h₁ trivial).append hr₂).append ((Runs.single h₂ trivial).append hr₃),
    hrest⟩

end ClientLoop

end Libasio
