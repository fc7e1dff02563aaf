import Libasio.TcpServer

/-!
# The steps of a server

What a step can do to the connections, the map, the acceptor and the life of a
server, said once for all invariants.

## Main definitions

- `ServerLoop.Quiet` — a change beside the connections and the map
- `ServerLoop.Acts` — the effects that a step can have on these
- `ServerLoop.Accepts` — the effects that a step can have on the acceptor

## Main results

- `ServerLoop.step_effects` — every step has these effects
- `ServerLoop.forall_conns` — invariants of a connection hold of all of them
-/

namespace Libasio

namespace ServerLoop

-- ════════════════════════════════════════════════════════════════════════
-- What a step does
-- ════════════════════════════════════════════════════════════════════════

/-- Only the accepts, the posted `StopInLoop` functors, the pool, the flags of the
acceptor and the callbacks for new connections may have changed. -/
structure Quiet (w w' : ServerLoop) : Prop where
  name : w'.server.name = w.server.name := by rfl
  nextConnId : w'.server.nextConnId = w.server.nextConnId := by rfl
  map : w'.server.conns = w.server.conns := by rfl
  alive : w'.alive = w.alive := by rfl
  accepting : w'.accepting = w.accepting := by rfl
  removals : w'.removals = w.removals := by rfl
  conns : w'.conns = w.conns := by rfl
  escaped : w'.escaped = w.escaped := by rfl
  trace : w'.trace = w.trace := by rfl
  uses : w'.uses = w.uses := by rfl

/-- All that a quiet change leaves alone. -/
def core (w : ServerLoop) :=
  (w.server.name, w.server.nextConnId, w.server.conns, w.alive, w.accepting, w.removals, w.conns,
    w.escaped, w.trace, w.uses)

theorem Quiet.of_core {w w' : ServerLoop} (h : w'.core = w.core) : Quiet w w' := by
  simp only [core, Prod.mk.injEq] at h
  obtain ⟨hname, hid, hmap, halive, haccepting, hremovals, hconns, hescaped, htrace, huses⟩ := h
  exact ⟨hname, hid, hmap, halive, haccepting, hremovals, hconns, hescaped, htrace, huses⟩

theorem Quiet.trans {u v w : ServerLoop} (h : Quiet u v) (h' : Quiet v w) : Quiet u w where
  name := h'.name.trans h.name
  nextConnId := h'.nextConnId.trans h.nextConnId
  map := h'.map.trans h.map
  alive := h'.alive.trans h.alive
  accepting := h'.accepting.trans h.accepting
  removals := h'.removals.trans h.removals
  conns := h'.conns.trans h.conns
  escaped := h'.escaped.trans h.escaped
  trace := h'.trace.trans h.trace
  uses := h'.uses.trans h.uses

theorem accept_quiet (w : ServerLoop) (loop : Option Nat) : Quiet w (w.accept loop) := .of_core rfl

theorem asyncAccept_quiet (w : ServerLoop) : Quiet w w.asyncAccept := by
  unfold asyncAccept
  split
  · split <;> exact .of_core rfl
  · exact accept_quiet w none

theorem acceptNext_quiet (w : ServerLoop) : Quiet w w.acceptNext := by
  unfold acceptNext
  split
  · exact asyncAccept_quiet w
  · exact .of_core rfl

/-- The connections after `Close()` on those of `conns_`. -/
def closed (w : ServerLoop) : List ServedConn :=
  w.server.conns.entries.foldl
    (fun cs entry => cs.modify entry.2 fun c => { c with tcp := c.tcp.close }) w.conns

theorem closeConns_eq (w : ServerLoop) : w.closeConns = { w with conns := w.closed } := by
  have hfold : ∀ (entries : List (Sigma fun _ : String => Nat)) (w : ServerLoop),
      entries.foldl (fun w entry => w.onConn entry.2 .close) w = { w with
        conns := entries.foldl
          (fun cs entry => cs.modify entry.2 fun c => { c with tcp := c.tcp.close }) w.conns } := by
    intro entries
    induction entries with
    | nil => exact fun w => rfl
    | cons entry entries ih => exact fun w => ih (w.onConn entry.2 .close)
  exact hfold _ w

/-- A connection as `HandleNewConn` leaves it, up to its callback on the
listening loop. -/
def newConn (w : ServerLoop) (loop : Option Nat) : TcpConn :=
  let c := TcpConn.handedOver (connName w.server.name w.server.nextConnId) .kIncoming
    w.server.connFn w.server.msgFn .removeConn
  match loop with
  | some _ => c
  | none => { c with posted := [] }.onAttachedToLoop

/-- The effect of a step on everything but what `Quiet` leaves open. -/
inductive Acts (w : ServerLoop) : Event → ServerLoop → Prop
  | nothing (e : Event) : Acts w e w
  | destroy : Acts w .destroy { w with alive := false }
  | stop {e : Event} (hl : w.alive = true) (he : e = .stop true ∨ e = .stopInLoop) :
      Acts w e ({ w with conns := w.closed }.emit .stopInLoop)
  | refuse {j : Nat} (hl : w.alive = true) (hi : w.idle = true) :
      Acts w (.handleAccept j)
        { w with server.nextConnId := w.server.nextConnId + 1, escaped := true }
  | accept {j : Nat} {socket : Socket} {loop : Option Nat} (hl : w.alive = true)
      (hi : w.idle = true) (hop : w.accepts[j]? = some ⟨loop, some (some socket)⟩) :
      Acts w (.handleAccept j) { w with
        server.nextConnId := w.server.nextConnId + 1
        accepting := some w.conns.length
        conns := w.conns ++ [⟨loop, w.newConn loop⟩]
        trace := w.trace ++ (.accepted w.conns.length ::
          if loop = none then [.attached w.conns.length] else []) }
  | insert {i : Nat} {c : ServedConn} (hl : w.alive = true) (hf : w.free = true)
      (ha : w.accepting = some i) (hc : w.conns[i]? = some c) :
      Acts w .insert ({ w with
        server.conns := w.server.conns.insert c.tcp.name i
        accepting := none }.emit (.inserted i))
  | erase {i : Nat} {is : List Nat} {c : ServedConn} (hl : w.alive = true) (hi : w.idle = true)
      (hr : w.removals = i :: is) (hc : w.conns[i]? = some c) :
      Acts w .removeConn ({ w with removals := is }.erase i c)
  | late {e : Event} {accepting : Option Nat} {removals : List Nat} (h : ServerHandler)
      (hd : w.alive = false) (hf : w.free = true)
      (hh : h = .stopInLoop ∨ (h = .accept ∧ (w.accepts ≠ [] ∨ w.accepting ≠ none)) ∨
        (h = .removeConn ∧ w.removals ≠ []))
      (ha : accepting = w.accepting ∨ accepting = none)
      (hr : removals = w.removals ∨ removals = w.removals.tail) :
      Acts w e ({ w with accepting := accepting, removals := removals }.use h)
  | conn {i : Nat} {e : TcpConn.Event} {c : ServedConn} {tcp : TcpConn}
      (hc : w.conns[i]? = some c) (ha : w.allows c.loop e = true) (hs : c.tcp.step e = some tcp) :
      Acts w (.conn i e)
        ((if attaches c.tcp e then w.emit (.attached i) else w).afterConn i { c with tcp := tcp })

/-- The accepts of a step, up to the next `AsyncAccept`: one has completed, the handler
of one is run, or the acceptor is closed. -/
inductive Handled (w : ServerLoop) : List AcceptOp → Prop
  | same : Handled w w.accepts
  | ready {j : Nat} {loop : Option Nat} {r : Option Socket}
      (hop : w.accepts[j]? = some ⟨loop, none⟩) : Handled w (w.accepts.set j ⟨loop, some r⟩)
  | handled {j : Nat} {loop : Option Nat} {r : Option Socket}
      (hop : w.accepts[j]? = some ⟨loop, some r⟩) : Handled w (w.accepts.eraseIdx j)
  | aborted (hl : w.alive = true) : Handled w (w.accepts.map .abort)

/-- `AsyncAccept` issues an accept, unless the pool has lost its threads. On a closed
acceptor it fails at once. -/
def Issues (acceptorOpen : Bool) (ops ops' : List AcceptOp) : Prop :=
  ops' = ops ∨ ∃ loop result, ops' = ops ++ [⟨loop, result⟩] ∧
    (acceptorOpen = false → result = some none)

/-- The effect of a step on the acceptor. Nobody starts an accept for a destroyed
server, or waits in one of its calls. -/
structure Accepts (w w' : ServerLoop) : Prop where
  acceptor : w'.server.acceptorOpen = w.server.acceptorOpen ∨ w'.server.acceptorOpen = false
  call : w.alive = false → w.call = none → w'.call = none
  ops : ∃ ops, Handled w ops ∧ (w'.accepts = ops ∨
    (w.alive = true ∨ w.call ≠ none) ∧ Issues w.server.acceptorOpen ops w'.accepts)

theorem Handled.accepts {w w' : ServerLoop} {ops : List AcceptOp} (h : Handled w ops)
    (ho : w'.server.acceptorOpen = w.server.acceptorOpen) (ha : w'.accepts = ops)
    (hc : w.alive = false → w.call = none → w'.call = none) : Accepts w w' :=
  ⟨.inl ho, hc, ops, h, .inl ha⟩

theorem accept_issues (w : ServerLoop) (loop : Option Nat) :
    Issues w.server.acceptorOpen w.accepts (w.accept loop).accepts :=
  .inr ⟨loop, _, rfl, fun ho => by simp [ho]⟩

theorem asyncAccept_issues (w : ServerLoop) :
    w.asyncAccept.server.acceptorOpen = w.server.acceptorOpen ∧
      Issues w.server.acceptorOpen w.accepts w.asyncAccept.accepts := by
  unfold asyncAccept
  split
  · split
    · next k tpool _ => exact ⟨rfl, accept_issues { w with server.tpool := tpool } (some k)⟩
    · exact ⟨rfl, .inl rfl⟩
  · exact ⟨rfl, accept_issues w none⟩

/-- The end of a handler that has taken what it needs from the accepts. -/
theorem Handled.acceptNext {w v : ServerLoop} (h : Handled w v.accepts) (hl : w.alive = true)
    (ho : v.server.acceptorOpen = w.server.acceptorOpen) : Accepts w v.acceptNext := by
  have hlive : ¬w.alive = false := by simp [hl]
  unfold ServerLoop.acceptNext
  split
  · obtain ⟨hsame, hissues⟩ := asyncAccept_issues v
    exact ⟨.inl (hsame.trans ho), fun hd => absurd hd hlive, _, h, .inr ⟨.inl hl, ho ▸ hissues⟩⟩
  · exact ⟨.inl ho, fun hd => absurd hd hlive, _, h, .inl rfl⟩

theorem stopInLoop_accepts {w v w' : ServerLoop} (hl : w.alive = true)
    (h : v.stopInLoop = some w') (hv : v.accepts = w.accepts) : Accepts w w' := by
  obtain ⟨tpool, -, rfl⟩ := Option.map_eq_some_iff.mp h
  simp only [closeConns_eq]
  refine ⟨.inr rfl, fun hd => ?_, _, .aborted hl, .inl (congrArg _ hv)⟩
  rw [hl] at hd
  cases hd

theorem stopInLoop_acts {w w' : ServerLoop} (h : w.stopInLoop = some w') :
    Quiet ({ w with conns := w.closed }.emit .stopInLoop) w' := by
  obtain ⟨tpool, -, rfl⟩ := Option.map_eq_some_iff.mp h
  simp only [closeConns_eq]
  exact .of_core rfl

theorem handleNewConn_acts {w : ServerLoop} {j : Nat} {socket : Socket} {loop : Option Nat}
    (hl : w.alive = true) (hi : w.idle = true)
    (hop : w.accepts[j]? = some ⟨loop, some (some socket)⟩) :
    ∃ v, Acts w (.handleAccept j) v ∧
      Quiet v ({ w with accepts := w.accepts.eraseIdx j }.handleNewConn socket loop) := by
  unfold handleNewConn TcpConn.ctor
  by_cases hs : socket.isOpen = true ∧ socket.hasPeer = true
  · refine ⟨_, .accept hl hi hop, ?_⟩
    simp only [if_pos hs]
    cases loop <;> exact ⟨rfl, rfl, rfl, rfl, rfl, rfl, rfl, rfl, by simp [emit], rfl⟩
  · refine ⟨_, .refuse hl hi, ?_⟩
    simp only [if_neg hs]
    exact .of_core rfl

theorem handleNewConn_accepts (w : ServerLoop) (socket : Socket) (loop : Option Nat) :
    (w.handleNewConn socket loop).server.acceptorOpen = w.server.acceptorOpen ∧
      (w.handleNewConn socket loop).accepts = w.accepts := by
  simp only [handleNewConn]
  split
  · exact ⟨rfl, rfl⟩
  · cases loop <;> exact ⟨rfl, rfl⟩

theorem free_of_idle {w : ServerLoop} (h : w.idle = true) : w.free = true :=
  (Bool.and_eq_true_iff.mp h).1

theorem accepting_of_idle {w : ServerLoop} (h : w.idle = true) : w.accepting = none :=
  Option.isNone_iff_eq_none.mp (Bool.and_eq_true_iff.mp h).2

/-- The server as a step of connection `i` finds it. -/
theorem marked_eq (w : ServerLoop) (i : Nat) (c : TcpConn) (e : TcpConn.Event) :
    ∃ t, (if attaches c e then w.emit (.attached i) else w) = { w with trace := t } := by
  split <;> exact ⟨_, rfl⟩

/-- A step of a connection leaves the rest of the server alone. -/
theorem afterConn_eq (w : ServerLoop) (i : Nat) (c : ServedConn) :
    ∃ map removals conns trace uses, w.afterConn i c = { w with
      server.conns := map, removals := removals, conns := conns, trace := trace, uses := uses } := by
  simp only [afterConn]
  split
  · split
    · simp only [removeConn]
      split <;> exact ⟨_, _, _, _, _, rfl⟩
    · exact ⟨_, _, _, _, _, rfl⟩
  · exact ⟨_, _, _, _, _, rfl⟩

/-- One of the effects on the connections and the map, a quiet change beside it, and
one of the effects on the acceptor. -/
def Effects (w : ServerLoop) (e : Event) (w' : ServerLoop) : Prop :=
  (∃ v, Acts w e v ∧ Quiet v w') ∧ Accepts w w'

theorem acceptReady_effects {w w' : ServerLoop} {e : Event} {j : Nat} {r : Option Socket}
    (h : w.acceptReady j r = some w') : Effects w e w' := by
  simp only [acceptReady] at h
  split at h
  · next loop hop =>
    obtain ⟨-, ⟨⟩⟩ := Option.ite_none_right_eq_some.mp h
    exact ⟨⟨w, .nothing _, .of_core rfl⟩, (Handled.ready hop).accepts rfl rfl fun _ hc => hc⟩
  · cases h

theorem startAccept_effects {w w' : ServerLoop} {j : Nat} (h : w.startAccept j = some w') :
    Effects w (.handleAccept j) w' := by
  simp only [startAccept] at h
  split at h
  · next loop r hop =>
    obtain ⟨hi, h⟩ := Option.ite_none_right_eq_some.mp h
    let v : ServerLoop := { w with accepts := w.accepts.eraseIdx j }
    split at h
    · next hl =>
      cases h
      cases r with
      | none =>
        exact ⟨⟨w, .nothing _, .trans (v := v) (.of_core rfl) (acceptNext_quiet v)⟩,
          @Handled.acceptNext w v (.handled hop) hl rfl⟩
      | some socket =>
        obtain ⟨hsame, hkept⟩ := handleNewConn_accepts v socket loop
        exact ⟨handleNewConn_acts hl hi hop,
          (Handled.handled hop).accepts hsame hkept (by simp [hl])⟩
    · next hl =>
      cases h
      have hne : w.accepts ≠ [] := by
        intro hnil
        simp [hnil] at hop
      exact ⟨⟨_, .late .accept (by simpa using hl) (free_of_idle hi)
        (.inr (.inl ⟨rfl, .inl hne⟩)) (.inl rfl) (.inl rfl), .of_core rfl⟩,
        (Handled.handled hop).accepts rfl rfl fun _ hc => hc⟩
  · cases h

theorem resumeAccept_effects {w w' : ServerLoop} (h : w.resumeAccept = some w') :
    Effects w .insert w' := by
  simp only [resumeAccept] at h
  split at h
  · cases h
  · next i ha =>
    split at h
    · cases h
    · next c hc =>
      obtain ⟨hf, h⟩ := Option.ite_none_right_eq_some.mp h
      split at h
      · next hl =>
        cases h
        let v : ServerLoop := { w with
          server.conns := w.server.conns.insert c.tcp.name i
          accepting := none }.emit (.inserted i)
        exact ⟨⟨_, .insert hl hf ha hc, acceptNext_quiet v⟩, @Handled.acceptNext w v .same hl rfl⟩
      · next hl =>
        cases h
        exact ⟨⟨_, .late .accept (by simpa using hl) hf
          (.inr (.inl ⟨rfl, .inr (by simp [ha])⟩)) (.inr rfl) (.inl rfl), .of_core rfl⟩,
          Handled.same.accepts rfl rfl fun _ hc => hc⟩

theorem startRemoval_effects {w w' : ServerLoop} (h : w.startRemoval = some w') :
    Effects w .removeConn w' := by
  simp only [startRemoval] at h
  split at h
  · cases h
  · next i is hr =>
    split at h
    · cases h
    · next c hc =>
      obtain ⟨hi, h⟩ := Option.ite_none_right_eq_some.mp h
      split at h
      · next hl =>
        cases h
        exact ⟨⟨_, .erase hl hi hr hc, .of_core rfl⟩, Handled.same.accepts rfl rfl fun _ hc => hc⟩
      · next hl =>
        cases h
        refine ⟨⟨_, .late .removeConn (by simpa using hl) (free_of_idle hi)
          (.inr (.inr ⟨rfl, by simp [hr]⟩)) (.inl rfl) (.inr rfl), ?_⟩,
          Handled.same.accepts rfl rfl fun _ hc => hc⟩
        simp only [hr, List.tail_cons]
        exact .of_core rfl

theorem stepConn_effects {w w' : ServerLoop} {i : Nat} {e : TcpConn.Event}
    (h : w.stepConn i e = some w') : Effects w (.conn i e) w' := by
  simp only [stepConn] at h
  split at h
  · cases h
  · next c hc =>
    obtain ⟨ha, h⟩ := Option.ite_none_right_eq_some.mp h
    obtain ⟨tcp, hs, rfl⟩ := Option.map_eq_some_iff.mp h
    refine ⟨⟨_, .conn hc ha hs, .of_core rfl⟩, ?_⟩
    obtain ⟨t, ht⟩ := marked_eq w i c.tcp e
    obtain ⟨_, _, _, _, _, he⟩ := afterConn_eq { w with trace := t } i { c with tcp := tcp }
    rw [ht, he]
    exact Handled.same.accepts rfl rfl fun _ hc => hc

theorem afterCall_effects {w : ServerLoop} {e : Event} {k : ServerCall} (hk : w.call = some k) :
    Effects w e (w.afterCall k) := by
  have hwaited : w.call ≠ none := by simp [hk]
  refine ⟨⟨w, .nothing _, ?_⟩, ?_⟩
  · cases k with
    | start => exact .trans (v := { w with call := none }) (.of_core rfl) (asyncAccept_quiet _)
    | stop => exact .of_core rfl
  · cases k with
    | start =>
      obtain ⟨hsame, hissues⟩ := asyncAccept_issues { w with call := none }
      exact ⟨.inl hsame, fun _ hc => absurd hc hwaited, _, .same, .inr ⟨.inr hwaited, hissues⟩⟩
    | stop => exact Handled.same.accepts rfl rfl fun _ hc => absurd hc hwaited

theorem step_effects {w w' : ServerLoop} {e : Event} (h : w.step e = some w') :
    Effects w e w' := by
  cases e with
  | start =>
    obtain ⟨⟨hl, -⟩, h⟩ := Option.ite_none_right_eq_some.mp h
    obtain ⟨tpool, -, rfl⟩ := Option.map_eq_some_iff.mp h
    exact ⟨⟨w, .nothing _, .of_core rfl⟩, Handled.same.accepts rfl rfl (by simp [hl])⟩
  | stop inLoop =>
    obtain ⟨hl, h⟩ := Option.ite_none_left_eq_some.mp h
    cases inLoop with
    | true =>
      obtain ⟨-, h⟩ := Option.ite_none_right_eq_some.mp h
      exact ⟨⟨_, .stop (not_not.mp hl) (.inl rfl), stopInLoop_acts h⟩,
        stopInLoop_accepts (not_not.mp hl) h rfl⟩
    | false =>
      cases h
      exact ⟨⟨w, .nothing _, .of_core rfl⟩, Handled.same.accepts rfl rfl fun _ hc => hc⟩
  | stopInLoop =>
    obtain ⟨⟨-, hi⟩, h⟩ := Option.ite_none_right_eq_some.mp h
    split at h
    · next hl =>
      exact ⟨⟨_, .stop hl (.inr rfl), .trans (by exact .of_core rfl) (stopInLoop_acts h)⟩,
        stopInLoop_accepts hl h rfl⟩
    · next hl =>
      cases h
      exact ⟨⟨_, .late .stopInLoop (by simpa using hl) (free_of_idle hi) (.inl rfl) (.inl rfl)
        (.inl rfl), .of_core rfl⟩, Handled.same.accepts rfl rfl fun _ hc => hc⟩
  | advance =>
    simp only [step] at h
    split at h
    · cases h
    · next k hk =>
      split at h
      · cases h
        exact afterCall_effects hk
      · obtain ⟨tpool, -, rfl⟩ := Option.map_eq_some_iff.mp h
        exact ⟨⟨w, .nothing _, .of_core rfl⟩, Handled.same.accepts rfl rfl fun _ hc => hc⟩
  | setConnectionCallback cb | setMessageCallback cb =>
    obtain ⟨-, ⟨⟩⟩ := Option.ite_none_right_eq_some.mp h
    exact ⟨⟨w, .nothing _, .of_core rfl⟩, Handled.same.accepts rfl rfl fun _ hc => hc⟩
  | destroy =>
    obtain ⟨-, ⟨⟩⟩ := Option.ite_none_right_eq_some.mp h
    exact ⟨⟨_, .destroy, .of_core rfl⟩, Handled.same.accepts rfl rfl fun _ hc => hc⟩
  | acceptReady j r => exact acceptReady_effects h
  | handleAccept j => exact startAccept_effects h
  | insert => exact resumeAccept_effects h
  | removeConn => exact startRemoval_effects h
  | conn i e => exact stepConn_effects h
  | thread k e =>
    obtain ⟨-, h⟩ := Option.ite_none_right_eq_some.mp h
    obtain ⟨tpool, -, rfl⟩ := Option.map_eq_some_iff.mp h
    exact ⟨⟨w, .nothing _, .of_core rfl⟩, Handled.same.accepts rfl rfl fun _ hc => hc⟩

theorem step_acts {w w' : ServerLoop} {e : Event} (h : w.step e = some w') :
    ∃ v, Acts w e v ∧ Quiet v w' := (step_effects h).1

theorem getElem?_foldl_modify {α β : Type} (f : α → α) (key : β → Nat) (entries : List β)
    (cs : List α) (i : Nat) :
    (entries.foldl (fun cs entry => cs.modify (key entry) f) cs)[i]? =
      cs[i]?.map f^[(entries.map key).count i] := by
  induction entries generalizing cs with
  | nil => simp
  | cons entry entries ih =>
    rw [List.foldl_cons, ih, List.getElem?_modify, List.map_cons, List.count_cons]
    cases cs[i]? with
    | none => rfl
    | some c =>
      by_cases hk : key entry = i <;> simp [hk]

/-- How often connection `i` stands in `conns_`. -/
def entryCount (w : ServerLoop) (i : Nat) : Nat :=
  (w.server.conns.entries.map fun entry => entry.2).count i

theorem closed_getElem? (w : ServerLoop) (i : Nat) :
    w.closed[i]? =
      w.conns[i]?.map fun c => { c with tcp := TcpConn.close^[w.entryCount i] c.tcp } := by
  have hiter : ∀ (n : Nat) (c : ServedConn),
      (fun c : ServedConn => { c with tcp := c.tcp.close })^[n] c =
        { c with tcp := TcpConn.close^[n] c.tcp } := by
    intro n
    induction n with
    | zero => exact fun c => rfl
    | succ n ih => exact fun c => ih { c with tcp := c.tcp.close }
  rw [closed, getElem?_foldl_modify _ fun entry : Sigma fun _ : String => Nat => entry.2]
  cases w.conns[i]? with
  | none => rfl
  | some c => exact congrArg some (hiter _ c)

theorem length_closed (w : ServerLoop) : w.closed.length = w.conns.length := by
  refine Nat.le_antisymm ?_ ?_
  · refine List.getElem?_eq_none_iff.mp ?_
    rw [closed_getElem?, List.getElem?_eq_none (Nat.le_refl _)]
    rfl
  · refine List.getElem?_eq_none_iff.mp ?_
    have h := closed_getElem? w w.closed.length
    rw [List.getElem?_eq_none (Nat.le_refl _)] at h
    exact Option.map_eq_none_iff.mp h.symm

/-- A step of a connection, by its loop, its user or the server. -/
def Admits (e : Event) (e' : TcpConn.Event) : Prop :=
  e' = .close ∨ e' = .resume ∨ e' = .runPosted ∨
    (∃ i, e = .conn i e') ∧ ∀ cb, e' ≠ .setCloseCallback cb

theorem not_setCloseCallback {w : ServerLoop} {loop : Option Nat} {e : TcpConn.Event}
    (h : w.allows loop e = true) (cb : Option CloseCallback) : e ≠ .setCloseCallback cb := by
  rintro rfl
  cases h

theorem newConn_cases (w : ServerLoop) (loop : Option Nat) :
    ∃ name connFn msgFn, w.newConn loop = .handedOver name .kIncoming connFn msgFn .removeConn ∨
      (TcpConn.handedOver name .kIncoming connFn msgFn .removeConn).step .runPosted =
        some (w.newConn loop) := by
  refine ⟨connName w.server.name w.server.nextConnId, w.server.connFn, w.server.msgFn, ?_⟩
  cases loop with
  | none => exact .inr rfl
  | some k => exact .inl rfl

/-- A connection after the server's close callback. -/
def settle (c : TcpConn) : TcpConn :=
  if c.frame = some .removing then c.resume .removing else c

theorem removeConn_conns (w : ServerLoop) (i : Nat) (c : ServedConn) :
    (w.removeConn i c).conns = w.conns := by
  unfold removeConn
  split <;> rfl

theorem afterConn_conns (w : ServerLoop) (i : Nat) (c : ServedConn) :
    (w.afterConn i c).conns = w.conns.set i { c with tcp := settle c.tcp } := by
  simp only [afterConn, settle]
  split
  · split
    · exact congrArg (List.set · i _) (removeConn_conns w i c)
    · rfl
  · rfl

/-- What the steps of a connection keep, the server keeps for all its connections. -/
theorem forall_conns {P : TcpConn → Prop} {w w' : ServerLoop} {e : Event}
    (hstep : ∀ c e' c', Admits e e' → P c → c.step e' = some c' → P c')
    (hnew : (∃ op ∈ w.accepts, op.succeeded = true) →
      ∀ name connFn msgFn, P (.handedOver name .kIncoming connFn msgFn .removeConn))
    (h : ∀ (i : Nat) c, w.conns[i]? = some c → P c.tcp) (hs : w.step e = some w') (i : Nat)
    (c : ServedConn) (hc : w'.conns[i]? = some c) : P c.tcp := by
  obtain ⟨v, hv, hq⟩ := step_acts hs
  rw [hq.conns] at hc
  cases hv with
  | nothing | destroy | refuse | insert | erase | late => exact h i c hc
  | stop =>
    simp only [emit, closed_getElem?] at hc
    obtain ⟨d, hd, rfl⟩ := Option.map_eq_some_iff.mp hc
    have hclose : ∀ n, P (TcpConn.close^[n] d.tcp) := by
      intro n
      induction n with
      | zero => exact h i d hd
      | succ n ih =>
        rw [Function.iterate_succ_apply']
        exact hstep _ .close _ (.inl rfl) ih rfl
    exact hclose _
  | @accept j socket loop _ _ hop =>
    obtain hold | ⟨-, rfl⟩ := getElem?_snoc_cases hc
    · exact h i c hold
    · have hnew := hnew ⟨_, List.mem_of_getElem? hop, rfl⟩
      obtain ⟨name, connFn, msgFn, hn | hn⟩ := newConn_cases w loop
      · exact hn ▸ hnew name connFn msgFn
      · exact hstep _ .runPosted _ (.inr (.inr (.inl rfl))) (hnew name connFn msgFn) hn
  | @conn k e d tcp hd ha hs' =>
    have hmoved : P tcp :=
      hstep d.tcp e tcp (.inr (.inr (.inr ⟨⟨k, rfl⟩, not_setCloseCallback ha⟩))) (h k d hd) hs'
    have hsettled : P (settle tcp) := by
      unfold settle
      split
      · next hf => exact hstep tcp .resume _ (.inr (.inl rfl)) hmoved (by simp [TcpConn.step, hf])
      · exact hmoved
    obtain ⟨t, ht⟩ := marked_eq w k d.tcp e
    rw [ht, afterConn_conns, List.getElem?_set] at hc
    split at hc
    · split at hc
      · cases hc
        exact hsettled
      · cases hc
    · exact h i c hc

theorem step_length {w w' : ServerLoop} {e : Event} (hs : w.step e = some w') :
    w.conns.length ≤ w'.conns.length := by
  obtain ⟨v, hv, hq⟩ := step_acts hs
  rw [hq.conns]
  cases hv with
  | stop => exact Nat.le_of_eq (length_closed w).symm
  | accept => simp
  | @conn k e d tcp =>
    obtain ⟨t, ht⟩ := marked_eq w k d.tcp e
    rw [ht, afterConn_conns, List.length_set]
  | _ => exact Nat.le_refl _

/-- Only the destructor ends the life of a server, for ever. -/
theorem step_alive {w w' : ServerLoop} {e : Event} (hs : w.step e = some w') :
    w'.alive = w.alive ∨ (e = .destroy ∧ w'.alive = false) := by
  obtain ⟨v, hv, hq⟩ := step_acts hs
  rw [hq.alive]
  cases hv with
  | destroy => exact .inr ⟨rfl, rfl⟩
  | @conn k e d tcp =>
    left
    obtain ⟨t, ht⟩ := marked_eq w k d.tcp e
    obtain ⟨_, _, _, _, _, he⟩ := afterConn_eq { w with trace := t } k { d with tcp := tcp }
    rw [ht, he]
  | _ => exact .inl rfl

end ServerLoop

end Libasio
