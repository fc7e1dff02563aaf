import Libasio.ClientCallbacks
import Libasio.ServerLifetime
import Libasio.ServerPool

/-!
# The accept chain

The handler of an accept is what starts the next accept. So one thing at a time
stands for the acceptor's turn: the call of `Start`, an accept, or the handler that
has taken its socket. An exception that leaves the handler takes the turn with it.

## Main definitions

- `ServerLoop.turns` — what stands for the turn of the acceptor
- `ServerLoop.KeepsTurn` — the condition under which a step passes the turn on
- `ServerLoop.issuing` — the state in which a step calls `AsyncAccept`

## Main results

- `ServerLoop.accept_chain` — in runs of such steps one accept is outstanding
  between handlers, and its socket was not open
-/

namespace Libasio

open Transition

namespace ServerLoop

/-- The socket of the thread, or `accept_socket_`, holds an accepted connection that
no handler has taken yet. -/
def socketOpen (w : ServerLoop) (loop : Option Nat) : Bool :=
  w.accepts.any fun op => op.loop = loop && op.succeeded

/-- An exception of the connection has left the handler of its accept. -/
def Aborted (w : ServerLoop) (i : Nat) : Prop :=
  ∃ c, w.conns[i]? = some c ∧ c.loop = none ∧ c.tcp.escaped = true

/-- The listening loop is in no call on the pool and in no handler of an accept. -/
def BetweenHandlers (w : ServerLoop) : Prop :=
  w.call = none ∧ ∀ i, w.accepting = some i → w.Aborted i

/-- The state in which the step calls `AsyncAccept`. -/
def issuing (w : ServerLoop) : Event → Option ServerLoop
  | .advance =>
    if w.call = some .start ∧ w.server.tpool.call = none then some { w with call := none } else none
  | .handleAccept j =>
    match w.accepts[j]? with
    | some ⟨_, some none⟩ =>
      if w.alive ∧ ¬w.server.closed then some { w with accepts := w.accepts.eraseIdx j } else none
    | _ => none
  | .insert =>
    match w.accepting with
    | some i =>
      match w.conns[i]? with
      | some c =>
        if w.alive ∧ ¬w.server.closed then
          some { { w with server.conns := w.server.conns.insert c.tcp.name i }.emit (.inserted i) with
            accepting := none }
        else none
      | none => none
    | none => none
  | _ => none

/-- What stands for the turn of the acceptor. -/
def turns (w : ServerLoop) : Nat :=
  w.accepts.length + w.accepting.toList.length + if w.call = some .start then 1 else 0

/-- `Start` finds the pool not started, as the pool asserts; the peer of an accepted
connection is still there when the handler runs; and no exception leaves the
connection callback inside of the handler. -/
structure KeepsTurn (w : ServerLoop) (e : Event) (_ : ServerLoop) : Prop where
  once : e = .start → w.server.tpool.started = false
  peer : ∀ j loop socket, e = .handleAccept j → w.accepts[j]? = some ⟨loop, some (some socket)⟩ →
    socket.hasPeer = true ∧ (loop = none → w.server.connFn ≠ none)
  returns : ∀ i c, e = .conn i .throw → w.accepting = some i → w.conns[i]? = some c → c.loop ≠ none

-- ════════════════════════════════════════════════════════════════════════
-- Where accepts are started
-- ════════════════════════════════════════════════════════════════════════

/-- A step starts an accept in the state `issuing`, and no other step starts one. -/
theorem step_issuing {w w' : ServerLoop} {e : Event} (h : w.step e = some w') :
    (∀ v, w.issuing e = some v → w' = v.asyncAccept) ∧
      (w.issuing e = none → w'.accepts.length ≤ w.accepts.length) := by
  refine ⟨fun v hv => ?_, fun hnone => ?_⟩
  · cases e with
    | advance =>
      obtain ⟨⟨hk, hp⟩, ⟨⟩⟩ := Option.ite_none_right_eq_some.mp hv
      simp only [step, hk, hp, if_true, Option.some.injEq] at h
      exact h.symm
    | handleAccept j =>
      simp only [issuing] at hv
      split at hv
      · next loop hop =>
        obtain ⟨⟨hl, hc⟩, ⟨⟩⟩ := Option.ite_none_right_eq_some.mp hv
        simp only [step, startAccept, hop] at h
        obtain ⟨-, h⟩ := Option.ite_none_right_eq_some.mp h
        rw [if_pos hl] at h
        cases h
        exact if_pos hc
      · cases hv
    | insert =>
      simp only [issuing] at hv
      split at hv
      · next i ha =>
        split at hv
        · next c hc =>
          obtain ⟨⟨hl, hopen⟩, ⟨⟩⟩ := Option.ite_none_right_eq_some.mp hv
          simp only [step, resumeAccept, ha, hc] at h
          obtain ⟨-, h⟩ := Option.ite_none_right_eq_some.mp h
          rw [if_pos hl] at h
          cases h
          exact if_pos hopen
        · cases hv
      · cases hv
    | _ => cases hv
  · obtain ⟨v, hf, hsame⟩ := step_fronts h
    rw [hsame.accepts]
    cases hf with
    | nothing | destroy | start | pool => exact Nat.le_refl _
    | stop => simp
    | @returns k hk hp =>
      cases k with
      | start => simp [issuing, hk, hp] at hnone
      | stop => exact Nat.le_refl _
    | ready => simp
    | failed hl _ hop =>
      simp only [issuing, hop] at hnone
      have hc : ¬¬w.server.closed = true := fun hc => by simp [hl, hc] at hnone
      rw [acceptNext, if_neg hc]
      exact (List.eraseIdx_sublist _ _).length_le
    | refused | accepted => exact (List.eraseIdx_sublist _ _).length_le
    | inserted hl _ ha =>
      simp only [step, resumeAccept, ha] at h
      split at h
      · cases h
      · next c hc =>
        simp only [issuing, ha, hc] at hnone
        have hc : ¬¬w.server.closed = true := fun hc => by simp [hl, hc] at hnone
        rw [acceptNext, if_neg hc]
    | late hd he hs => exact hs.length_le

-- ════════════════════════════════════════════════════════════════════════
-- The turn
-- ════════════════════════════════════════════════════════════════════════

/-- From `Start` until the server is closed there is one turn. -/
structure Chain (es : List Event) (w : ServerLoop) : Prop where
  alive : w.server.closed = false → w.alive = true
  acceptor : w.server.acceptorOpen = false → w.server.closed = true ∨ w.call = some .stop
  started : w.server.closed = false → w.call ≠ some .stop → Event.start ∈ es →
    (EventLoopThreadPool.tally (poolCalls es)).1 = true
  turns : w.server.closed = false → Event.start ∈ es → w.turns = 1
  opened : ∀ op ∈ w.accepts, ∀ socket, op.result = some (some socket) → socket.isOpen = true

theorem chain_create (name : String) (n : Nat) : Chain [] (create name n) :=
  ⟨fun _ => rfl, nofun, nofun, nofun, nofun⟩

theorem Chain.closed_of_dead {es : List Event} {w : ServerLoop} (h : Chain es w)
    (hd : w.alive = false) : w.server.closed = true := by
  by_contra hc
  rw [h.alive (by simpa using hc)] at hd
  cases hd

/-- Outside of `Stop` only a server that is closed has no acceptor. -/
theorem Chain.closed_of_shut {es : List Event} {w : ServerLoop} (h : Chain es w)
    (ho : w.server.acceptorOpen = false) (hc : w.call ≠ some .stop) : w.server.closed = true :=
  (h.acceptor ho).resolve_right hc

theorem Chain.congr {es : List Event} {w w' : ServerLoop} (h : Chain es w)
    (hs : SameFront w w') : Chain es w' := by
  refine ⟨?_, ?_, ?_, ?_, ?_⟩
  · rw [hs.closed, hs.alive]
    exact h.alive
  · rw [hs.acceptorOpen, hs.closed, hs.call]
    exact h.acceptor
  · rw [hs.closed, hs.call]
    exact h.started
  · rw [hs.closed, ServerLoop.turns, hs.accepts, hs.accepting, hs.call]
    exact h.turns
  · rw [hs.accepts]
    exact h.opened

/-- What a step leaves alone that calls nothing on the pool. -/
theorem Chain.snoc {es : List Event} {w w' : ServerLoop} {e : Event} (h : Chain es w)
    (he : poolCall e = none) (halive : w'.server.closed = false → w'.alive = true)
    (hacceptor : w'.server.acceptorOpen = false → w'.server.closed = true ∨ w'.call = some .stop)
    (hstarted : w'.server.closed = false → w'.call ≠ some .stop →
      w.server.closed = false ∧ w.call ≠ some .stop)
    (hturns : w'.server.closed = false → Event.start ∈ es → w'.turns = 1)
    (hopened : ∀ op ∈ w'.accepts, ∀ socket, op.result = some (some socket) →
      socket.isOpen = true) : Chain (es ++ [e]) w' := by
  have hmem : Event.start ∈ es ++ [e] → Event.start ∈ es := by
    intro hs
    obtain hs | rfl := by simpa using hs
    · exact hs
    · cases he
  refine ⟨halive, hacceptor, fun hc hne hs => ?_, fun hc hs => hturns hc (hmem hs), hopened⟩
  obtain ⟨hc₀, hne₀⟩ := hstarted hc hne
  rw [poolCalls_snoc, he, Option.toList_none, List.append_nil]
  exact h.started hc₀ hne₀ (hmem hs)

theorem accept_opened {w : ServerLoop} {loop : Option Nat}
    (h : ∀ op ∈ w.accepts, ∀ socket, op.result = some (some socket) → socket.isOpen = true) :
    ∀ op ∈ (w.accept loop).accepts, ∀ socket, op.result = some (some socket) →
      socket.isOpen = true := by
  intro op hop socket hr
  obtain hop | rfl := by simpa [accept] using hop
  · exact h op hop socket hr
  · simp only at hr
    split at hr <;> cases hr

/-- The turn passes to the next accept, unless the server is closed. -/
theorem Chain.acceptNext {n : Nat} {es : List Event} {w v : ServerLoop} {e : Event}
    (h : Chain es w) (hpool : Pooled n es v) (hc : v.server.tpool.call = none)
    (hs : Event.start ∈ es) (he : poolCall e = none) (hcall : v.call = none) (hw : w.call = none)
    (hclosed : v.server.closed = w.server.closed) (hl : v.alive = w.alive)
    (ho : v.server.acceptorOpen = w.server.acceptorOpen)
    (hturns : w.server.closed = false → v.turns = 0)
    (hopened : ∀ op ∈ v.accepts, ∀ socket, op.result = some (some socket) →
      socket.isOpen = true) : Chain (es ++ [e]) v.acceptNext := by
  by_cases hv : v.server.closed = true
  · rw [ServerLoop.acceptNext, if_neg (not_not.mpr hv)]
    refine h.snoc he ?_ ?_ ?_ ?_ hopened
    · simp [hv]
    · exact fun _ => .inl hv
    · simp [hv]
    · simp [hv]
  · have hv : v.server.closed = false := by simpa using hv
    have hopen : w.server.closed = false := hclosed.symm.trans hv
    rw [ServerLoop.acceptNext, if_pos (by simp [hv])]
    obtain ⟨tpool, loop, heq, -⟩ := hpool.asyncAccept_eq hc hs
    rw [heq]
    refine h.snoc he (fun _ => hl.trans (h.alive hopen)) (fun hshut => ?_)
      (fun _ _ => ⟨hopen, by simp [hw]⟩) (fun _ _ => ?_) (accept_opened hopened)
    · obtain hc' | hc' := h.acceptor (ho.symm.trans hshut)
      · exact .inl (hclosed.trans hc')
      · rw [hw] at hc'
        cases hc'
    · have hzero := hturns hopen
      simp only [ServerLoop.turns, hcall, accept, List.length_append,
        List.length_singleton] at hzero ⊢
      omega

/-- A server that has been started and not closed cannot be started again. -/
theorem Chain.not_started {n : Nat} {es : List Event} {w : ServerLoop} (h : Chain es w)
    (hp : Pooled n es w) (hc : w.call = none) (hopen : w.server.closed = false)
    (honce : w.server.tpool.started = false) : Event.start ∉ es := by
  intro hs
  obtain ⟨ps, hr, -, hround⟩ := hp.runs
  have hidle : w.server.tpool.call = none := by
    by_contra hne
    exact hp.busy hne hc
  have hon : w.server.tpool.started = true := by
    rw [(EventLoopThreadPool.run_counted hr).idle hidle, hround (h.alive hopen)]
    exact h.started hopen (by simp [hc]) hs
  rw [honce] at hon
  cases hon

/-- `Start` takes the turn, which nobody has before. -/
theorem Chain.start {n : Nat} {es : List Event} {w : ServerLoop} (h : Chain es w)
    (hp : Pooled n es w) (hc : w.call = none) (honce : w.server.tpool.started = false)
    (tpool : EventLoopThreadPool) :
    Chain (es ++ [.start]) { w with server.tpool := tpool, call := some .start } := by
  refine ⟨h.alive, fun ho => .inl (h.closed_of_shut ho (by simp [hc])), fun _ _ _ => ?_,
    fun hopen _ => ?_, h.opened⟩
  · rw [poolCalls_snoc, poolCall, Option.toList_some, EventLoopThreadPool.tally_snoc]
    simp only [EventLoopThreadPool.tallyAfter]
    split
    · next hs => exact hs
    · rfl
  · have hnot := h.not_started hp hc hopen honce
    have hnone : w.accepts = [] ∧ w.accepting = none := by
      constructor
      · by_contra hne
        exact hnot (hp.started (.inl hne))
      · by_contra hne
        exact hnot (hp.started (.inr (.inl hne)))
    simp [ServerLoop.turns, hnone]

/-- `Stop` aborts the accept that has the turn, whose handler is still to come. -/
theorem Chain.stop {es : List Event} {w : ServerLoop} {e : Event} (h : Chain es w)
    (he : e = .stop true ∨ e = .stopInLoop) (hc : w.call = none) (tpool : EventLoopThreadPool) :
    Chain (es ++ [e]) { w with
      server.acceptorOpen := false
      accepts := w.accepts.map .abort
      server.tpool := tpool
      call := some .stop } := by
  have hmem : Event.start ∈ es ++ [e] → Event.start ∈ es := by
    intro hs
    obtain hs | rfl := by simpa using hs
    · exact hs
    · obtain ⟨⟨⟩⟩ | ⟨⟨⟩⟩ := he
  refine ⟨h.alive, fun _ => .inr rfl, fun _ hne => absurd rfl hne, fun hopen hs => ?_, ?_⟩
  · have hone := h.turns hopen (hmem hs)
    simp only [ServerLoop.turns, hc, List.length_map] at hone ⊢
    exact hone
  · intro op hop socket hr
    obtain ⟨op₀, hop₀, rfl⟩ := List.mem_map.mp hop
    refine h.opened op₀ hop₀ socket ?_
    simp only [AcceptOp.abort] at hr
    cases hres : op₀.result with
    | none => simp [hres] at hr
    | some r => simpa [hres] using hr

/-- When `Start` returns, the turn passes to the first accept. -/
theorem Chain.returns_start {n : Nat} {es : List Event} {w : ServerLoop} (h : Chain es w)
    (hp : Pooled n es w) (hk : w.call = some .start) (hidle : w.server.tpool.call = none) :
    Chain (es ++ [.advance]) { w with call := none }.asyncAccept := by
  have hs : Event.start ∈ es := hp.started (.inr (.inr hk))
  have hv : Pooled n es { w with call := none } :=
    ⟨hp.runs, fun hne => absurd hidle hne, fun _ => hs⟩
  obtain ⟨tpool, loop, heq, -⟩ := hv.asyncAccept_eq hidle hs
  rw [heq]
  refine h.snoc rfl h.alive (fun ho => .inl (h.closed_of_shut ho (by simp [hk])))
    (fun hopen _ => ⟨hopen, by simp [hk]⟩) (fun hopen hs => ?_) (accept_opened h.opened)
  have hone := h.turns hopen hs
  simp only [ServerLoop.turns, hk, if_true] at hone
  simp only [ServerLoop.turns, accept, List.length_append, List.length_singleton, reduceCtorEq,
    if_false]
  omega

theorem fronts_chain {n : Nat} {es : List Event} {w w' v : ServerLoop} {e : Event}
    (h : Chain es w) (hp : Pooled n es w) (hg : KeepsTurn w e v) (hf : Fronts w e w') :
    Chain (es ++ [e]) w' := by
  have idle : w.call = none → w.server.tpool.call = none := fun hc => by
    by_contra hne
    exact hp.busy hne hc
  have taken : ∀ {j : Nat} {op : AcceptOp}, w.accepts[j]? = some op → Event.start ∈ es ∧
      (w.accepts.eraseIdx j).length + 1 = w.accepts.length := by
    intro j op hop
    obtain ⟨hj, -⟩ := List.getElem?_eq_some_iff.mp hop
    have hlen := List.length_eraseIdx_of_lt hj
    exact ⟨hp.started (.inl (List.length_pos_iff.mp (by omega))), by omega⟩
  have kept : ∀ (j : Nat), ∀ op ∈ w.accepts.eraseIdx j, ∀ socket,
      op.result = some (some socket) → socket.isOpen = true :=
    fun j op hop => h.opened op (List.mem_of_mem_eraseIdx hop)
  cases hf with
  | nothing he =>
    obtain he | ⟨rfl, hd⟩ := he
    · exact h.snoc he h.alive h.acceptor (fun hc hne => ⟨hc, hne⟩) h.turns h.opened
    · have hclosed : w.server.closed = true := h.closed_of_dead hd
      exact ⟨h.alive, h.acceptor, by simp [hclosed], by simp [hclosed], h.opened⟩
  | destroy hc ho =>
    have hclosed : w.server.closed = true := h.closed_of_shut ho (by simp [hc])
    exact h.snoc rfl (by simp [hclosed]) h.acceptor (fun hc hne => ⟨hc, hne⟩) h.turns h.opened
  | start hl hc hstep => exact h.start hp hc (hg.once rfl) _
  | stop he hl hc hstep => exact h.stop he hc _
  | @pool e pe tpool he hstep =>
    have hcall : poolCall e = none := by
      obtain ⟨rfl, -⟩ | ⟨k, ev, rfl, -⟩ := he <;> rfl
    exact h.snoc hcall h.alive h.acceptor (fun hc hne => ⟨hc, hne⟩) h.turns h.opened
  | @returns k hk hidle =>
    cases k with
    | start => exact h.returns_start hp hk hidle
    | stop =>
      exact h.snoc rfl (by simp [afterCall]) (fun _ => .inl rfl) (by simp [afterCall])
        (by simp [afterCall]) h.opened
  | @ready j loop r hop hr =>
    refine h.snoc rfl h.alive h.acceptor (fun hc hne => ⟨hc, hne⟩) (fun hc hs => ?_) ?_
    · have hone := h.turns hc hs
      simpa only [ServerLoop.turns, List.length_set] using hone
    · intro op hmem socket hres
      obtain hmem | rfl := List.mem_or_eq_of_mem_set hmem
      · exact h.opened op hmem socket hres
      · simp only [Option.some.injEq] at hres
        subst hres
        exact hr
  | @failed j loop hl hi hop =>
    obtain ⟨hs, hlen⟩ := taken hop
    have hcall := call_of_idle hi
    refine h.acceptNext (n := n) ?_ (idle hcall) hs rfl hcall hcall rfl rfl rfl (fun hopen => ?_)
      (kept j)
    · exact ⟨hp.runs, hp.busy, fun _ => hs⟩
    · have hone := h.turns hopen hs
      simp only [ServerLoop.turns] at hone ⊢
      omega
  | refused hl hi hop hbad =>
    have hopen := h.opened _ (List.mem_of_getElem? hop) _ rfl
    exact absurd ⟨hopen, (hg.peer _ _ _ rfl hop).1⟩ hbad
  | @accepted j loop socket hl hi hop =>
    obtain ⟨hs, hlen⟩ := taken hop
    refine h.snoc rfl h.alive h.acceptor (fun hc hne => ⟨hc, hne⟩) (fun hopen _ => ?_) (kept j)
    have hone := h.turns hopen hs
    simp only [ServerLoop.turns, accepting_of_idle hi, Option.toList_none, List.length_nil,
      Option.toList_some, List.length_singleton] at hone ⊢
    omega
  | @inserted i hl hfree ha =>
    have hs : Event.start ∈ es := hp.started (.inr (.inl (by simp [ha])))
    have hcall := call_of_free hfree
    refine h.acceptNext (n := n) ?_ (idle hcall) hs rfl hcall hcall rfl rfl rfl (fun hopen => ?_)
      h.opened
    · exact ⟨hp.runs, hp.busy, fun _ => hs⟩
    · have hone := h.turns hopen hs
      simp only [ServerLoop.turns, ha, Option.toList_none, List.length_nil, Option.toList_some,
        List.length_singleton] at hone ⊢
      omega
  | @late e accepts accepting hd he hsub ha =>
    have hclosed : w.server.closed = true := h.closed_of_dead hd
    exact h.snoc he h.alive h.acceptor (fun hc hne => ⟨hc, hne⟩) (by simp [hclosed])
      fun op hop => h.opened op (hsub.subset hop)

-- ════════════════════════════════════════════════════════════════════════
-- No exception inside of the handler
-- ════════════════════════════════════════════════════════════════════════

/-- No exception leaves the handler that the connection `w.accepting` comes from. -/
def Unbroken (w : ServerLoop) : Prop := ∀ i, w.accepting = some i → ¬w.Aborted i

theorem newConn_escaped {w : ServerLoop} (hf : w.server.connFn ≠ none) :
    (w.newConn none).escaped = false := by
  obtain ⟨f, hf⟩ := Option.ne_none_iff_exists'.mp hf
  simp [newConn, TcpConn.onAttachedToLoop, TcpConn.handedOver, hf, TcpConn.emit, TcpConn.create]

theorem escaped_of_closed {w : ServerLoop} {i : Nat} {c : ServedConn}
    (h : w.closed[i]? = some c) :
    ∃ d, w.conns[i]? = some d ∧ d.loop = c.loop ∧ d.tcp.escaped = c.tcp.escaped := by
  rw [closed_getElem?] at h
  obtain ⟨d, hd, rfl⟩ := Option.map_eq_some_iff.mp h
  refine ⟨d, hd, rfl, ?_⟩
  change d.tcp.escaped = (TcpConn.close^[w.entryCount i] d.tcp).escaped
  induction w.entryCount i with
  | zero => rfl
  | succ n ih =>
    rw [Function.iterate_succ_apply']
    exact ih

/-- While a connection waits to be inserted, the listening loop starts no handler. -/
theorem not_callsEmpty {w : ServerLoop} {i : Nat} {c : TcpConn} {e : TcpConn.Event}
    (ha : w.accepting = some i) (hallow : w.allows none e = true) : ¬TcpConn.CallsEmpty c e := by
  intro he
  cases e with
  | runPosted | handleRead =>
    rw [accepting_of_idle hallow] at ha
    cases ha
  | _ => cases he

theorem step_unbroken {w w' : ServerLoop} {e : Event} (h : Unbroken w) (hg : KeepsTurn w e w')
    (hs : w.step e = some w') : Unbroken w' := by
  obtain ⟨v, hv, hq⟩ := step_acts hs
  rintro i ha ⟨c, hc, hl, hx⟩
  rw [hq.accepting] at ha
  rw [hq.conns] at hc
  cases hv with
  | nothing | destroy | refuse | erase => exact h i ha ⟨c, hc, hl, hx⟩
  | insert => cases ha
  | late _ _ _ _ hacc =>
    obtain rfl | rfl := hacc
    · exact h i ha ⟨c, hc, hl, hx⟩
    · cases ha
  | stop =>
    obtain ⟨d, hd, hloop, hesc⟩ := escaped_of_closed hc
    exact h i ha ⟨d, hd, hloop.trans hl, hesc.trans hx⟩
  | @accept j socket loop hlive hi hop =>
    cases ha
    obtain hold | ⟨-, rfl⟩ := getElem?_snoc_cases hc
    · rw [List.getElem?_eq_none (Nat.le_refl _)] at hold
      cases hold
    · obtain rfl : loop = none := hl
      have hf := (hg.peer j none socket rfl hop).2 rfl
      exact absurd ((newConn_escaped hf).symm.trans hx) Bool.false_ne_true
  | @conn k e d tcp hd hallow hstep =>
    obtain ⟨t, ht⟩ := marked_eq w k d.tcp e
    rw [ht] at ha hc
    rw [(afterConn_front { w with trace := t } k { d with tcp := tcp }).accepting] at ha
    rw [afterConn_conns] at hc
    obtain ⟨rfl, rfl⟩ | hold := @setConn_cases w k i { d with tcp := settle tcp } c hc
    · rw [show (settle tcp).escaped = tcp.escaped from settle_escaped tcp] at hx
      obtain hx | rfl | hempty := (TcpConn.step_notices hstep).2.mp hx
      · exact h i ha ⟨d, hd, hl, hx⟩
      · exact hg.returns i d rfl ha hd hl
      · rw [show d.loop = none from hl] at hallow
        exact not_callsEmpty ha hallow hempty
    · exact h i ha ⟨c, hold, hl, hx⟩

-- ════════════════════════════════════════════════════════════════════════
-- The chain
-- ════════════════════════════════════════════════════════════════════════

/-- The states of a run whose steps pass the turn on. -/
structure Linked (n : Nat) (es : List Event) (w : ServerLoop) : Prop where
  chain : Chain es w
  pooled : Pooled n es w
  unbroken : Unbroken w

theorem run_linked {name : String} {n : Nat} {es : List Event} {w : ServerLoop}
    (hr : Runs step KeepsTurn (create name n) es w) : Linked n es w := by
  have hstep : ∀ (es : List Event) (w : ServerLoop) (e : Event) (w' : ServerLoop),
      Linked n es w → KeepsTurn w e w' → w.step e = some w' → Linked n (es ++ [e]) w' := by
    rintro es w e w' ⟨hchain, hpooled, hunbroken⟩ hg hs
    obtain ⟨v, hf, hsame⟩ := step_fronts hs
    exact ⟨(fronts_chain hchain hpooled hg hf).congr hsame, step_pooled hpooled hs,
      step_unbroken hunbroken hg hs⟩
  exact hr.invariant_history hstep ⟨chain_create name n, pooled_create name n, nofun⟩

/-- When `AsyncAccept` is called, no accept is outstanding. -/
theorem Linked.issuing {n : Nat} {es : List Event} {w v : ServerLoop} {e : Event}
    (h : Linked n es w) (hs : Event.start ∈ es) (hc : w.server.closed = false)
    (hv : w.issuing e = some v) : v.accepts = [] := by
  have hone := h.chain.turns hc hs
  refine List.length_eq_zero_iff.mp ?_
  cases e with
  | advance =>
    obtain ⟨⟨hk, -⟩, ⟨⟩⟩ := Option.ite_none_right_eq_some.mp hv
    simp only [ServerLoop.turns, hk, if_true] at hone
    exact (by omega : w.accepts.length = 0)
  | handleAccept j =>
    simp only [ServerLoop.issuing] at hv
    split at hv
    · next loop hop =>
      obtain ⟨-, ⟨⟩⟩ := Option.ite_none_right_eq_some.mp hv
      obtain ⟨hj, -⟩ := List.getElem?_eq_some_iff.mp hop
      have hlen := List.length_eraseIdx_of_lt hj
      simp only [ServerLoop.turns] at hone
      simp only [hlen]
      omega
    · cases hv
  | insert =>
    simp only [ServerLoop.issuing] at hv
    split at hv
    · next i ha =>
      split at hv
      · obtain ⟨-, ⟨⟩⟩ := Option.ite_none_right_eq_some.mp hv
        simp only [ServerLoop.turns, ha, Option.toList_some, List.length_singleton] at hone
        exact (by omega : w.accepts.length = 0)
      · cases hv
    · cases hv
  | _ => cases hv

/-- In every run whose steps pass the turn on, from `Start` until the server is closed,
exactly one accept is outstanding between handlers, and whenever `AsyncAccept` is
called no socket of the pool, nor `accept_socket_`, is open. -/
theorem accept_chain {name : String} {n : Nat} {es : List Event} {w : ServerLoop}
    (hr : Runs step KeepsTurn (create name n) es w) (hs : Event.start ∈ es)
    (hc : w.server.closed = false) :
    (w.BetweenHandlers → w.accepts.length = 1) ∧
      ∀ e v, w.issuing e = some v → ∀ loop, v.socketOpen loop = false := by
  have hlinked := run_linked hr
  refine ⟨fun ⟨hcall, hnone⟩ => ?_, fun e v hv loop => ?_⟩
  · have haccepting : w.accepting = none :=
      Option.eq_none_iff_forall_ne_some.mpr fun i ha => hlinked.unbroken i ha (hnone i ha)
    have hone := hlinked.chain.turns hc hs
    simpa [turns, hcall, haccepting] using hone
  · rw [socketOpen, hlinked.issuing hs hc hv]
    rfl

/-- The events of a server with one thread up to the return of `Start`. -/
abbrev startOne : List Event :=
  [.start, .advance, .thread 0 .begin, .thread 0 .run, .advance, .advance, .advance]

/-- The loop of a thread that is inside of `Run`. -/
def inRun : EventLoopThread :=
  ⟨some { EventLoop.new with running := true, inside := true, entered := true }, .kRunning, .looping⟩

/-- A server with one thread that waits for its first connection. -/
def listening : ServerLoop :=
  { create "server" 1 with
    server := { (create "server" 1).server with
      tpool := { EventLoopThreadPool.create 1 with
        started := true
        next := 1
        threads := [inRun] } }
    accepts := [⟨some 0, none⟩] }

theorem KeepsTurn.of_ne {w w' : ServerLoop} {e : Event} (hs : e ≠ .start)
    (ha : ∀ j, e ≠ .handleAccept j) (hc : ∀ i, e ≠ .conn i .throw) : KeepsTurn w e w' :=
  ⟨fun he => absurd he hs, fun j _ _ he => absurd he (ha j), fun i _ he => absurd he (hc i)⟩

theorem run_listening : Runs step KeepsTurn (create "server" 1) startOne listening := by
  have hstart : KeepsTurn (create "server" 1) .start { create "server" 1 with
      server.tpool := { EventLoopThreadPool.create 1 with call := some (.start true 0) }
      call := some .start } :=
    ⟨fun _ => rfl, fun _ _ _ he => Event.noConfusion he, fun _ _ he => Event.noConfusion he⟩
  exact .cons rfl hstart (.cons rfl (.of_ne nofun nofun nofun)
    (.cons rfl (.of_ne nofun nofun nofun) (.cons rfl (.of_ne nofun nofun nofun)
    (.cons rfl (.of_ne nofun nofun nofun) (.cons rfl (.of_ne nofun nofun nofun)
    (.single rfl (.of_ne nofun nofun nofun)))))))

/-- The first connection is accepted and handed to the loop of the thread. -/
theorem accept_chain_accepted :
    ∃ w, Runs step KeepsTurn (create "server" 1)
      (startOne ++ [.acceptReady 0 (some ⟨true, true⟩), .handleAccept 0, .insert]) w ∧
      w.accepts.length = 1 := by
  let ready : ServerLoop := { listening with accepts := [⟨some 0, some (some ⟨true, true⟩)⟩] }
  let handling : ServerLoop := { listening with
    server := { listening.server with nextConnId := 1 }
    accepts := []
    accepting := some 0
    conns := [⟨some 0, listening.newConn (some 0)⟩]
    trace := [.accepted 0] }
  have hready : listening.step (.acceptReady 0 (some ⟨true, true⟩)) = some ready := rfl
  have hhandle : ready.step (.handleAccept 0) = some handling := rfl
  have hpeer : KeepsTurn ready (.handleAccept 0) handling := by
    refine ⟨fun he => Event.noConfusion he, ?_, fun _ _ he => Event.noConfusion he⟩
    rintro j loop socket ⟨⟩ hop
    cases hop
    exact ⟨rfl, nofun⟩
  have hinsert : handling.step .insert =
      some (handling.insert 0 ⟨some 0, listening.newConn (some 0)⟩) := rfl
  have hr := ((run_listening.snoc hready (.of_ne nofun nofun nofun)).snoc hhandle hpeer).snoc
    hinsert (.of_ne nofun nofun nofun)
  exact ⟨_, hr, (accept_chain hr (by simp) rfl).1 ⟨rfl, nofun⟩⟩

/-- The peer resets the connection before the handler runs, and no accept is left. -/
theorem accept_chain_broken :
    ¬∀ name n es w, Runs step anyStep (create name n) es w → Event.start ∈ es →
      w.server.closed = false → w.BetweenHandlers → w.accepts.length = 1 := by
  intro h
  let ready : ServerLoop := { listening with accepts := [⟨some 0, some (some ⟨true, false⟩)⟩] }
  let broken : ServerLoop := { listening with
    server := { listening.server with nextConnId := 1 }
    accepts := []
    escaped := true }
  have hready : listening.step (.acceptReady 0 (some ⟨true, false⟩)) = some ready := rfl
  have hbroken : ready.step (.handleAccept 0) = some broken := rfl
  have hr := (run_listening.plain.snoc hready trivial).snoc hbroken trivial
  have hone := h _ _ _ broken hr (by simp) rfl ⟨rfl, nofun⟩
  cases hone

end ServerLoop

end Libasio
