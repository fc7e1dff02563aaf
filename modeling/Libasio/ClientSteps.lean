import Libasio.ClientTracking

/-!
# What a step of a client does to its connections

`ClientLoop.step_conns` says that connections move by steps of their own. Here
it is said which step of the client causes which step of which connection.

## Main definitions

- `ClientLoop.DisconnectsInLoop` — `DisconnectInLoop` is run while `conn_` is a connection
- `ClientLoop.Concerns` — the steps that are about a connection
- `ClientLoop.Touches` — what becomes of a connection in a step

## Main results

- `ClientLoop.step_touches` — the effect on the connections there are
- `ClientLoop.step_made` — the connections that are new
- `ClientLoop.conn_lt` — `conn_` is one of the connections
-/

namespace Libasio

open Transition

namespace ClientLoop

/-- The step runs `DisconnectInLoop` while `conn_` is connection `i`. -/
def DisconnectsInLoop (w : ClientLoop) (i : Nat) : Event → Prop
  | .call (.disconnect true) => w.client.conn = some i
  | .disconnectInLoop => w.alive = true ∧ w.client.conn = some i
  | _ => False

/-- The step is one of connection `i`, or a call that the client passes on to it. -/
def Concerns (w : ClientLoop) (i : Nat) : Event → Prop
  | .call (.setConnCallback _) => w.client.conn = some i
  | .conn j _ _ => j = i
  | e => DisconnectsInLoop w i e

theorem conn_of_disconnects {w : ClientLoop} {i : Nat} {e : Event} (h : DisconnectsInLoop w i e) :
    w.client.conn = some i := by
  unfold DisconnectsInLoop at h
  split at h
  · exact h
  · exact h.2
  · exact absurd h id

theorem concerns_of_disconnects {w : ClientLoop} {i : Nat} {e : Event}
    (h : DisconnectsInLoop w i e) : Concerns w i e := by
  unfold Concerns
  split
  · exact absurd h id
  · exact absurd h id
  · exact h

/-- What the step makes of connection `i`, which is `c` before. -/
inductive Touches (w : ClientLoop) (e : Event) (i : Nat) (c : TcpConn) : TcpConn → Prop
  | same (h : ¬Concerns w i e) : Touches w e i c c
  | closed (h : DisconnectsInLoop w i e) : Touches w e i c c.close
  | setConnCallback (cb : Option Callback) (he : e = .call (.setConnCallback cb))
      (h : w.client.conn = some i) : Touches w e i c (c.setConnCallback cb)
  | detached (he : e = .call .destroy) (hs : c.status = .kDisconnecting) :
      Touches w e i c (c.setCloseCallback none)
  | moved {e' : TcpConn.Event} {resolves : Bool} {c' : TcpConn} (he : e = .conn i e' resolves)
      (ha : w.allows e' = true) (hs : c.step e' = some c') (hf : c'.frame ≠ some .removing) :
      Touches w e i c c'
  | removed {e' : TcpConn.Event} {resolves : Bool} {c' d : TcpConn} (he : e = .conn i e' resolves)
      (ha : w.allows e' = true) (hs : c.step e' = some c') (hf : c'.frame = some .removing)
      (hd : d = c'.throw ∨ d = c'.resume .removing) : Touches w e i c d

theorem getElem?_onConn (w : ClientLoop) (f : TcpConn → TcpConn) (i : Nat) :
    (w.onConn f).conns[i]? =
      if w.client.conn = some i then w.conns[i]?.map f else w.conns[i]? := by
  unfold onConn
  split
  · next j hj => simp only [hj, List.getElem?_modify, Option.some.injEq]; split <;> simp
  · next hn => simp [hn]

theorem conns_onRemoveConn (w : ClientLoop) (resolves : Bool) :
    (w.handle .onRemoveConn fun w => w.onRemoveConn resolves).state.conns = w.conns := by
  unfold handle
  split
  · exact (onRemoveConn_kept w resolves).2
  · rfl

/-- A step of connection `j` moves it, with the removal it may end in, and no other. -/
theorem touches_conn {w w' : ClientLoop} {i j : Nat} {e : TcpConn.Event} {resolves : Bool}
    {c : TcpConn} (h : w.stepConn j e resolves = some w') (hi : w.conns[i]? = some c) :
    ∃ d, w'.conns[i]? = some d ∧ Touches w (.conn j e resolves) i c d := by
  obtain ⟨b, b', hj, ha, hs, rfl⟩ := stepConn_cases h
  simp only [afterConn]
  by_cases hij : j = i
  · subst hij
    obtain rfl : b = c := Option.some.inj (hj.symm.trans hi)
    have hlt := (List.getElem?_eq_some_iff.mp hi).1
    split
    · next hf =>
      have hset : ∀ d : TcpConn, ((w.handle .onRemoveConn fun w =>
          w.onRemoveConn resolves).state.setConn j d).conns[j]? = some d := by
        intro d
        rw [setConn, conns_onRemoveConn]
        exact List.getElem?_set_self hlt
      split
      · exact ⟨_, hset _, .removed rfl ha hs hf (.inl rfl)⟩
      · exact ⟨_, hset _, .removed rfl ha hs hf (.inr rfl)⟩
    · next hf => exact ⟨_, List.getElem?_set_self hlt, .moved rfl ha hs hf⟩
  · refine ⟨c, ?_, .same hij⟩
    split
    · rw [setConn, conns_onRemoveConn]
      exact (List.getElem?_set_ne hij).trans hi
    · exact (List.getElem?_set_ne hij).trans hi

/-- Every connection there is stays as it is or is touched in one of these ways. -/
theorem step_touches {w w' : ClientLoop} {e : Event} (hc : w.step e = some w') {i : Nat}
    {c : TcpConn} (hi : w.conns[i]? = some c) :
    ∃ d, w'.conns[i]? = some d ∧ Touches w e i c d := by
  have same : ∀ {v : ClientLoop}, v.conns = w.conns →
      ¬Concerns w i e → ∃ d, v.conns[i]? = some d ∧ Touches w e i c d :=
    fun hv he => ⟨c, hv ▸ hi, .same he⟩
  have closes : ∀ {v : ClientLoop}, v.conns = w.conns → v.client.conn = w.client.conn →
      (w.client.conn = some i → DisconnectsInLoop w i e) → (Concerns w i e → w.client.conn = some i) →
      ∃ d, v.disconnectInLoop.conns[i]? = some d ∧ Touches w e i c d := by
    intro v hv hconn hyes hno
    have hget : v.disconnectInLoop.conns[i]? =
        if w.client.conn = some i then some c.close else some c := by
      rw [disconnectInLoop, getElem?_onConn]
      simp only [hv, hconn, hi, Option.map_some]
    by_cases h : w.client.conn = some i
    · exact ⟨_, hget.trans (if_pos h), .closed (hyes h)⟩
    · exact ⟨_, hget.trans (if_neg h), .same fun hn => h (hno hn)⟩
  cases e with
  | call k =>
    obtain ⟨-, hc⟩ := Option.ite_none_right_eq_some.mp hc
    cases k with
    | connect resolves =>
      cases hc
      exact same (connect_kept w resolves).2 id
    | disconnect inLoop =>
      cases hc
      cases inLoop with
      | true => exact closes rfl rfl id id
      | false => exact same rfl id
    | setAutoReconnect _ | setMessageCallback _ =>
      cases hc
      exact same rfl id
    | setConnCallback cb =>
      cases hc
      have hget : (w.setConnCallback cb).conns[i]? =
          if w.client.conn = some i then some (c.setConnCallback cb) else some c := by
        rw [setConnCallback, getElem?_onConn]
        simp only [hi, Option.map_some]
      by_cases h : w.client.conn = some i
      · exact ⟨_, hget.trans (if_pos h), .setConnCallback cb rfl h⟩
      · exact ⟨_, hget.trans (if_neg h), .same h⟩
    | destroy =>
      obtain ⟨rfl, -⟩ | ⟨j, d, -, hj, hs, rfl⟩ := destructor_cases hc
      · exact same rfl id
      · by_cases hij : j = i
        · subst hij
          obtain rfl : d = c := Option.some.inj (hj.symm.trans hi)
          exact ⟨_, List.getElem?_set_self (List.getElem?_eq_some_iff.mp hi).1, .detached rfl hs⟩
        · exact ⟨c, (List.getElem?_set_ne hij).trans hi, .same id⟩
  | disconnectInLoop =>
    obtain ⟨-, ⟨⟩⟩ := Option.ite_none_right_eq_some.mp hc
    simp only [run, handle]
    split
    · next ha =>
      exact closes (v := { w with disconnects := w.disconnects - 1 }) rfl rfl (fun h => ⟨ha, h⟩)
        And.right
    · next ha => exact same rfl fun h => ha h.1
  | connectDone r =>
    obtain ⟨-, ⟨⟩⟩ := Option.ite_none_right_eq_some.mp hc
    simp only [run, handle]
    split
    · cases r with
      | none =>
        simp only [handleConnect]
        split <;> exact same rfl id
      | some socket =>
        simp only [handleConnect]
        obtain he | ⟨d, -, he⟩ := handleConn_cases
          { w with connects := w.connects - 1, client.reconnectingTimes := 0 } socket
        · rw [he]
          exact same rfl id
        · rw [he]
          refine ⟨c, ?_, .same id⟩
          exact (List.getElem?_append_left (List.getElem?_eq_some_iff.mp hi).1).trans hi
    · exact same rfl id
  | timer resolves =>
    obtain ⟨-, ⟨⟩⟩ := Option.ite_none_right_eq_some.mp hc
    simp only [run, handle]
    split
    · exact same (reconnect_kept { w with timers := w.timers - 1 } resolves).2 id
    · exact same rfl id
  | conn j e' resolves =>
    exact touches_conn hc hi

/-- The connection that a successful connect makes, in its connection callback. -/
def Makes (w : ClientLoop) (c : TcpConn) : Prop :=
  (TcpConn.handedOver w.client.name .kOutgoing w.client.connFn w.client.msgFn .onRemoveConn).step
    .runPosted = some c

/-- A connection with a new number is the one that the success of a connect makes. -/
theorem step_made {w w' : ClientLoop} {e : Event} (hc : w.step e = some w') {i : Nat} {c : TcpConn}
    (hnone : w.conns[i]? = none) (hi : w'.conns[i]? = some c) :
    i = w.conns.length ∧ w.alive = true ∧ Makes w c ∧
      ∃ socket, e = .connectDone (some socket) ∧ socket.isOpen = true ∧ socket.hasPeer = true := by
  have hge : w.conns.length ≤ i := List.getElem?_eq_none_iff.mp hnone
  have hlt := (List.getElem?_eq_some_iff.mp hi).1
  obtain ⟨hlen, -⟩ | ⟨socket, rfl, hopen, hpeer, ha, hlen, -⟩ := step_roster hc
  · omega
  · obtain rfl : i = w.conns.length := by omega
    refine ⟨rfl, ha, ?_, socket, rfl, hopen, hpeer⟩
    obtain ⟨-, ⟨⟩⟩ := Option.ite_none_right_eq_some.mp hc
    have hctor : TcpConn.ctor socket w.client.name = some (.create w.client.name) :=
      if_pos ⟨hopen, hpeer⟩
    simp only [run, handle, ha, if_true, handleConnect, handleConn, hctor] at hi
    rw [List.getElem?_append_right le_rfl, Nat.sub_self] at hi
    exact hi

/-- `conn_` is one of the connections. -/
theorem conn_lt {name : String} {w : ClientLoop} {es : List Event}
    {G : ClientLoop → Event → ClientLoop → Prop} (hr : Runs step G (create name) es w) {i : Nat}
    (hi : w.client.conn = some i) : i < w.conns.length := by
  have h : ∀ i, w.client.conn = some i → i < w.conns.length := by
    refine hr.invariant (I := fun w => ∀ i, w.client.conn = some i → i < w.conns.length) ?_ ?_
    · intro w e w' h _ hc i hi
      obtain ⟨hlen, hconn | hconn⟩ | ⟨socket, -, -, -, -, hlen, hconn⟩ := step_roster hc
      · rw [hlen]
        exact h i (hconn ▸ hi)
      · rw [hconn] at hi
        cases hi
      · rw [hconn] at hi
        obtain rfl := Option.some.inj hi
        omega
    · rintro i ⟨⟩
  exact h i hi

end ClientLoop

end Libasio
