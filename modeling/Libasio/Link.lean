import Libasio.Endpoint

/-!
# Two ends and the network between them

Two machines, each with one connection of a pair, and what the network carries in
each direction. The machines take their steps in any order; a completion that asio
reports to one of them moves bytes into the network or out of it.

## Main definitions

- `Hosted` — what one step of a machine can be to a connection in it
- `Host` — a machine with a connection in it, every step of which is one of these
- `Link`, `Link.step` — two hosts, and the bytes in flight between them

## Main results

- `Host.run_conn` — the connection of a host has gone through a run of its own, with
  the reports of the host
- `Link.run_sound` — the network delivers in order, and end of file last
- `Carries.accounted`, `Carries.endedBy` — the bytes of one direction

## Design notes

The network loses nothing as long as it reports no error; it can report an error at
any time. End of file comes from the close of the socket of the peer, after all that
this socket had taken. A peer whose process ends is not modelled.
-/

namespace Libasio

open Transition TcpConn

/-- A step by the machine around a connection: the network reports nothing, and what was
received is only consumed. -/
def Beside (c : TcpConn) (e : TcpConn.Event) (c' : TcpConn) : Prop :=
  e.report = none ∧ Feeds c e c'

theorem beside_of_report {c c' : TcpConn} {e : TcpConn.Event} (he : e.report = none)
    (hn : ∀ edit, e ≠ .editRecv edit) : Beside c e c' :=
  ⟨he, fun edit hedit => absurd hedit (hn edit)⟩

/-- What one step of a machine can be to a connection in it: the connection is made, or
is told to take a step, and the machine may take further ones. -/
inductive Hosted : Option TcpConn.Event → Option TcpConn → Option TcpConn → Prop
  | absent : Hosted none none none
  | made {c d : TcpConn} {es : List TcpConn.Event} (h₀ : Initial c)
      (hr : Runs TcpConn.step Beside c es d) : Hosted none none (some d)
  | quiet {c d : TcpConn} {es : List TcpConn.Event}
      (hr : Runs TcpConn.step Beside c es d) : Hosted none (some c) (some d)
  | told {c m d : TcpConn} {e : TcpConn.Event} {es : List TcpConn.Event}
      (hs : c.step e = some m) (hr : Runs TcpConn.step Beside m es d) :
      Hosted (some e) (some c) (some d)

theorem Hosted.same (o : Option TcpConn) : Hosted none o o := by
  cases o with
  | none => exact .absent
  | some c => exact .quiet (.nil c)

theorem Hosted.one {c d : TcpConn} {e : TcpConn.Event} (hs : c.step e = some d) :
    Hosted (some e) (some c) (some d) := .told hs (.nil d)

/-- A machine, and one connection in it. -/
structure Host (σ ε : Type*) where
  step : σ → ε → Option σ
  conn : σ → Option TcpConn
  /-- what the connection is told to do in this step -/
  event : ε → Option TcpConn.Event
  hosted : ∀ {s e t}, step s e = some t → Hosted (event e) (conn s) (conn t)

variable {σ τ ε δ : Type*}

/-- What asio reports to the connection in this step. -/
def Host.report (H : Host σ ε) (e : ε) : Option Report := (H.event e).bind TcpConn.Event.report

/-- A connection by itself. -/
def TcpConn.host : Host TcpConn TcpConn.Event where
  step := TcpConn.step
  conn := some
  event := some
  hosted hs := .one hs

-- ════════════════════════════════════════════════════════════════════════
-- The connection of a host
-- ════════════════════════════════════════════════════════════════════════

theorem reports_beside {c d : TcpConn} {es : List TcpConn.Event}
    (hr : Runs TcpConn.step Beside c es d) : es.filterMap TcpConn.Event.report = [] := by
  induction hr with
  | nil => rfl
  | cons _ hb _ ih => rw [List.filterMap_cons_none hb.1, ih]

/-- A run of one connection with the given reports. -/
def Reaches (reports : List Report) (c : TcpConn) : Prop :=
  ∃ c₀ es, Initial c₀ ∧ Runs TcpConn.step anyStep c₀ es c ∧
    es.filterMap TcpConn.Event.report = reports

theorem Reaches.quiet {reports : List Report} {c d : TcpConn} {es : List TcpConn.Event}
    (h : Reaches reports c) (hr : Runs TcpConn.step Beside c es d) : Reaches reports d := by
  obtain ⟨c₀, fs, h₀, hrun, hrep⟩ := h
  refine ⟨c₀, fs ++ es, h₀, hrun.append hr.plain, ?_⟩
  rw [List.filterMap_append, reports_beside hr, List.append_nil, hrep]

theorem Reaches.told {reports : List Report} {c d : TcpConn} {e : TcpConn.Event}
    (h : Reaches reports c) (hs : c.step e = some d) :
    Reaches (reports ++ e.report.toList) d := by
  obtain ⟨c₀, fs, h₀, hrun, hrep⟩ := h
  refine ⟨c₀, fs ++ [e], h₀, hrun.snoc hs trivial, ?_⟩
  rw [List.filterMap_append, hrep]
  cases he : e.report with
  | none => rw [List.filterMap_cons_none he]; rfl
  | some r => rw [List.filterMap_cons_some he]; rfl

/-- The connection that a host has made is in a state that a connection can reach by
itself, and was told of the network what the host was. -/
theorem Host.run_conn (H : Host σ ε) {s t : σ} {es : List ε} {G : σ → ε → σ → Prop}
    (h₀ : H.conn s = none) (hr : Runs H.step G s es t) {c : TcpConn} (hc : H.conn t = some c) :
    Reaches (es.filterMap H.report) c := by
  have hkeep : ∀ es s e t,
      (H.conn s = none ∧ es.filterMap H.report = [] ∨
        ∃ c, H.conn s = some c ∧ Reaches (es.filterMap H.report) c) →
      G s e t → H.step s e = some t →
      H.conn t = none ∧ (es ++ [e]).filterMap H.report = [] ∨
        ∃ c, H.conn t = some c ∧ Reaches ((es ++ [e]).filterMap H.report) c := by
    intro es s e t hinv _ hs
    have hsnoc : (es ++ [e]).filterMap H.report =
        es.filterMap H.report ++ ((H.event e).bind TcpConn.Event.report).toList := by
      rw [List.filterMap_append]
      cases he : H.report e with
      | none => rw [List.filterMap_cons_none he, ← Host.report, he]; rfl
      | some r => rw [List.filterMap_cons_some he, ← Host.report, he]; rfl
    have hh := H.hosted hs
    generalize H.event e = r, H.conn s = o, H.conn t = o' at hh hinv hsnoc ⊢
    rw [hsnoc]
    cases hh with
    | absent =>
      obtain ⟨-, hnil⟩ | ⟨c, ⟨⟩, -⟩ := hinv
      exact .inl ⟨rfl, by rw [hnil]; rfl⟩
    | made h₀ hr =>
      obtain ⟨-, hnil⟩ | ⟨c, ⟨⟩, -⟩ := hinv
      exact .inr ⟨_, rfl, by rw [hnil]; exact ⟨_, _, h₀, hr.plain, reports_beside hr⟩⟩
    | quiet hr =>
      obtain ⟨⟨⟩, -⟩ | ⟨c, ⟨⟩, hreach⟩ := hinv
      exact .inr ⟨_, rfl, by rw [Option.bind_none, Option.toList_none, List.append_nil]; exact hreach.quiet hr⟩
    | told hs hr =>
      obtain ⟨⟨⟩, -⟩ | ⟨c, ⟨⟩, hreach⟩ := hinv
      exact .inr ⟨_, rfl, (hreach.told hs).quiet hr⟩
  obtain ⟨hn, -⟩ | ⟨d, hd, hreach⟩ :=
    hr.invariant_history (I := fun es s => H.conn s = none ∧ es.filterMap H.report = [] ∨
      ∃ c, H.conn s = some c ∧ Reaches (es.filterMap H.report) c) hkeep (.inl ⟨h₀, rfl⟩)
  · cases hn.symm.trans hc
  · cases hd.symm.trans hc
    exact hreach

-- ════════════════════════════════════════════════════════════════════════
-- One end
-- ════════════════════════════════════════════════════════════════════════

/-- What the socket of the connection has taken, if there is one yet. -/
def shippedOf : Option TcpConn → Bytes
  | none => []
  | some c => c.shipped

def arrivedOf : Option TcpConn → Bytes
  | none => []
  | some c => c.arrived

def departureOf : Option TcpConn → Option Report → Bytes
  | none, _ => []
  | some c, r => c.departure r

def EofAt (o : Option TcpConn) : Prop := ∃ c, o = some c ∧ SawEof c

def ClosedAt (o : Option TcpConn) : Prop := ∃ c, o = some c ∧ c.isOpen = false

/-- The connection meets its invariants, if there is one yet. -/
def InvAt (o : Option TcpConn) : Prop := ∀ c, o = some c → EndInv c

/-- What a step of a host does to the two sides of the socket. -/
structure Moved (r : Option Report) (o o' : Option TcpConn) : Prop where
  inv : InvAt o'
  shipped : shippedOf o' = shippedOf o ++ departureOf o r
  arrived : arrivedOf o' = arrivedOf o ++ arrival r
  eof : EofAt o' → EofAt o ∨ r = some (.read .eof)
  closed : ClosedAt o → ClosedAt o' ∧ departureOf o r = []

theorem invAt_some {c : TcpConn} (h : EndInv c) : InvAt (some c) := by
  rintro d ⟨⟩
  exact h

theorem moved_quiet {c d : TcpConn} (h : EndInv d) (hk : SocketKept c d) :
    Moved none (some c) (some d) where
  inv := invAt_some h
  shipped := hk.shipped.trans (List.append_nil _).symm
  arrived := hk.arrived.trans (List.append_nil _).symm
  eof := by
    rintro ⟨_, ⟨⟩, he⟩
    exact .inl ⟨c, rfl, hk.sawEof he⟩
  closed := by
    rintro ⟨_, ⟨⟩, ho⟩
    exact ⟨⟨d, rfl, hk.isOpen ho⟩, rfl⟩

theorem sawEof_initial {c : TcpConn} (h : Initial c) : ¬SawEof c := by
  obtain ⟨name, type, connFn, msgFn, closeFn, rfl⟩ := h
  rintro (he | he)
  · cases he
  · exact absurd he List.not_mem_nil

/-- A socket that is closed takes nothing any more. -/
theorem departure_closed {c m : TcpConn} {e : TcpConn.Event} (h : OutputInv c)
    (ho : c.isOpen = false) (hs : c.step e = some m) : c.departure e.report = [] := by
  cases e with
  | writeReady r =>
    obtain ⟨region, hop, -⟩ := writeReady_cases hs
    have hopen := h.inFlight _ hop rfl
    rw [ho] at hopen
    cases hopen
  | _ => rfl

theorem run_beside {c d : TcpConn} {es : List TcpConn.Event} (h : EndInv c)
    (hr : Runs TcpConn.step Beside c es d) : EndInv d ∧ SocketKept c d :=
  run_unreported h (hr.mono fun _ _ _ _ hb => hb.1)

theorem Hosted.moved {q : Option TcpConn.Event} {o o' : Option TcpConn} (h : Hosted q o o')
    (hi : InvAt o) : Moved (q.bind TcpConn.Event.report) o o' := by
  cases h with
  | absent => exact ⟨hi, rfl, rfl, .inl, by rintro ⟨_, ⟨⟩, -⟩⟩
  | made h₀ hr =>
    obtain ⟨hinv, hk⟩ := run_beside (endInv_initial h₀) hr
    refine ⟨invAt_some hinv, ?_, ?_, ?_, ?_⟩
    · refine hk.shipped.trans ?_
      obtain ⟨name, type, connFn, msgFn, closeFn, rfl⟩ := h₀
      rfl
    · refine hk.arrived.trans ?_
      obtain ⟨name, type, connFn, msgFn, closeFn, rfl⟩ := h₀
      rfl
    · rintro ⟨_, ⟨⟩, he⟩
      exact absurd (hk.sawEof he) (sawEof_initial h₀)
    · rintro ⟨_, ⟨⟩, -⟩
  | quiet hr =>
    obtain ⟨hinv, hk⟩ := run_beside (hi _ rfl) hr
    exact moved_quiet hinv hk
  | @told c m d e es hs hr =>
    have hc := hi c rfl
    obtain ⟨hinv, hk⟩ := run_beside (step_endInv hc hs) hr
    refine ⟨invAt_some hinv, ?_, ?_, ?_, ?_⟩
    · exact hk.shipped.trans (step_shipped hc.output hs)
    · refine hk.arrived.trans ?_
      rw [step_arrived hc.live hs, ← arrival_report]
      rfl
    · rintro ⟨_, ⟨⟩, heof⟩
      refine (step_sawEof hc.live hs (hk.sawEof heof)).imp (fun h => ⟨c, rfl, h⟩) fun hread => ?_
      rw [hread]
      rfl
    · rintro ⟨_, ⟨⟩, ho⟩
      exact ⟨⟨d, rfl, hk.isOpen (step_isOpen ho hs)⟩, departure_closed hc.output ho hs⟩

-- ════════════════════════════════════════════════════════════════════════
-- One direction
-- ════════════════════════════════════════════════════════════════════════

/-- What the network can report to an end: data in the order in which it was sent, end
of file after all that a closed peer has sent. -/
def reportable (peer : Option TcpConn) (incoming : Channel UInt8) : Option Report → Bool
  | some (.read (.ok data)) => data.isPrefixOf incoming.pending
  | some (.read .eof) => incoming.pending.isEmpty && peer.any fun c => !c.isOpen
  | _ => true

/-- What arrives was in flight, in front. -/
theorem arrival_in_front {peer : Option TcpConn} {incoming : Channel UInt8} {r : Option Report}
    (h : reportable peer incoming r = true) : arrival r <+: incoming.pending := by
  rcases r with _ | (data | _ | _) | _
  · exact List.nil_prefix
  · exact List.isPrefixOf_iff_prefix.mp h
  · exact List.nil_prefix
  · exact List.nil_prefix
  · exact List.nil_prefix

/-- The network carries what the first end has sent to the second one. -/
structure Carries (o p : Option TcpConn) (ch : Channel UInt8) : Prop where
  accepted : ch.accepted = shippedOf o
  delivered : ch.delivered = arrivedOf p
  ended : EofAt p → ch.pending = [] ∧ ClosedAt o

theorem Carries.push {o o' p : Option TcpConn} {ch : Channel UInt8} {r : Option Report}
    (h : Carries o p ch) (hm : Moved r o o') : Carries o' p (ch.push (departureOf o r)) where
  accepted := by rw [hm.shipped, ← h.accepted]; rfl
  delivered := h.delivered
  ended he := by
    obtain ⟨hnil, hclosed⟩ := h.ended he
    obtain ⟨hclosed', hnone⟩ := hm.closed hclosed
    exact ⟨by rw [hnone]; exact (List.append_nil _).trans hnil, hclosed'⟩

theorem Carries.pop {o p p' : Option TcpConn} {ch : Channel UInt8} {r : Option Report}
    (h : Carries o p ch) (hm : Moved r p p') (hr : reportable o ch r = true) :
    Carries o p' (ch.pop (arrival r).length) where
  accepted := h.accepted
  delivered := by
    rw [hm.arrived, ← h.delivered, Channel.pop, List.prefix_iff_eq_take.mp (arrival_in_front hr)]
    simp
  ended he := by
    rcases hm.eof he with he | rfl
    · obtain ⟨hnil, hclosed⟩ := h.ended he
      exact ⟨(congrArg (List.drop _) hnil).trans List.drop_nil, hclosed⟩
    · simp only [reportable, Bool.and_eq_true, List.isEmpty_iff, Option.any_eq_true,
        Bool.not_eq_true'] at hr
      exact ⟨(congrArg (List.drop _) hr.1).trans List.drop_nil, hr.2⟩

/-- What `c` has accepted is what `d` was handed, what waits there for its handler, what
is in flight, and what `c` still has. -/
def Accounted (c d : TcpConn) (ch : Channel UInt8) : Prop :=
  received d.trace ++ d.queued ++ ch.pending ++ c.unshipped = accepted c.trace

/-- The socket of `c` is closed, and `d` was handed all that it had taken. -/
structure EndedBy (c d : TcpConn) : Prop where
  closed : c.isOpen = false
  received : TcpConn.received d.trace = c.shipped
  lost : TcpConn.received d.trace ++ c.unshipped = TcpConn.accepted c.trace

theorem Carries.accounted {c d : TcpConn} {ch : Channel UInt8}
    (h : Carries (some c) (some d) ch) (hc : EndInv c) : Accounted c d ch := by
  have hshipped : ch.delivered ++ ch.pending = c.shipped := ch.conserved.trans h.accepted
  rw [h.delivered] at hshipped
  rw [Accounted, ← shipped_append_unshipped hc.toSound, ← hshipped]
  rfl

/-- End of file comes last. -/
theorem Carries.endedBy {c d : TcpConn} {ch : Channel UInt8}
    (h : Carries (some c) (some d) ch) (hc : EndInv c) (hd : EndInv d) (he : SawEof d) :
    EndedBy c d := by
  obtain ⟨hnil, _, ⟨⟩, hclosed⟩ := h.ended ⟨d, rfl, he⟩
  have hshipped : ch.delivered ++ ch.pending = c.shipped := ch.conserved.trans h.accepted
  rw [h.delivered, hnil, List.append_nil, arrivedOf, arrived, queued_of_sawEof hd he,
    List.append_nil] at hshipped
  exact ⟨hclosed, hshipped, hshipped ▸ shipped_append_unshipped hc.toSound⟩

-- ════════════════════════════════════════════════════════════════════════
-- The link
-- ════════════════════════════════════════════════════════════════════════

/-- The two machines, and the bytes in flight to each of them. -/
structure Link (σ τ : Type*) where
  left : σ
  right : τ
  toRight : Channel UInt8
  toLeft : Channel UInt8

namespace Link

inductive Event (ε δ : Type*)
  | left (e : ε)
  | right (e : δ)

def swap (l : Link σ τ) : Link τ σ := ⟨l.right, l.left, l.toLeft, l.toRight⟩

/-- A step of the machine on the left. -/
def stepLeft (H : Host σ ε) (K : Host τ δ) (l : Link σ τ) (e : ε) : Option (Link σ τ) :=
  if reportable (K.conn l.right) l.toLeft (H.report e) then
    (H.step l.left e).map fun s =>
      { l with
        left := s
        toRight := l.toRight.push (departureOf (H.conn l.left) (H.report e))
        toLeft := l.toLeft.pop (arrival (H.report e)).length }
  else none

def step (H : Host σ ε) (K : Host τ δ) (l : Link σ τ) : Event ε δ → Option (Link σ τ)
  | .left e => l.stepLeft H K e
  | .right e => (l.swap.stepLeft K H e).map swap

/-- Two machines before any connection is made between them. -/
structure Initial (H : Host σ ε) (K : Host τ δ) (l : Link σ τ) : Prop where
  left : ∀ c, H.conn l.left = some c → TcpConn.Initial c
  right : ∀ c, K.conn l.right = some c → TcpConn.Initial c
  toRight : l.toRight = .empty
  toLeft : l.toLeft = .empty

/-- What holds in every state of a link. -/
structure Sound (H : Host σ ε) (K : Host τ δ) (l : Link σ τ) : Prop where
  left : InvAt (H.conn l.left)
  right : InvAt (K.conn l.right)
  toRight : Carries (H.conn l.left) (K.conn l.right) l.toRight
  toLeft : Carries (K.conn l.right) (H.conn l.left) l.toLeft

variable {H : Host σ ε} {K : Host τ δ}

def Event.swap : Event ε δ → Event δ ε
  | .left e => .right e
  | .right e => .left e

theorem step_swap (l : Link σ τ) (e : Event ε δ) :
    l.swap.step K H e.swap = (l.step H K e).map Link.swap := by
  cases e with
  | left e => rfl
  | right e =>
    have hid : Link.swap ∘ Link.swap = (id : Link τ σ → Link τ σ) := rfl
    simp only [step, Event.swap, Option.map_map, hid, Option.map_id, id_eq]

theorem step_left {l : Link σ τ} {e : ε} {s : σ}
    (hr : reportable (K.conn l.right) l.toLeft (H.report e) = true)
    (hs : H.step l.left e = some s) : l.step H K (.left e) = some { l with
      left := s
      toRight := l.toRight.push (departureOf (H.conn l.left) (H.report e))
      toLeft := l.toLeft.pop (arrival (H.report e)).length } := by
  simp only [step, stepLeft, hr, if_true, hs, Option.map_some]

theorem step_right {l : Link σ τ} {e : δ} {s : τ}
    (hr : reportable (H.conn l.left) l.toRight (K.report e) = true)
    (hs : K.step l.right e = some s) : l.step H K (.right e) = some { l with
      right := s
      toLeft := l.toLeft.push (departureOf (K.conn l.right) (K.report e))
      toRight := l.toRight.pop (arrival (K.report e)).length } := by
  have h := @step_left _ _ _ _ K H l.swap e s hr hs
  exact congrArg (Option.map swap) h

/-- Without a report the network stays as it is. -/
theorem step_left_quiet {l : Link σ τ} {e : ε} {s : σ} (he : H.report e = none)
    (hs : H.step l.left e = some s) : l.step H K (.left e) = some { l with left := s } := by
  have hdep : departureOf (H.conn l.left) none = [] := by
    cases H.conn l.left <;> rfl
  rw [step_left (by rw [he]; rfl) hs, he, hdep]
  simp [arrival]

theorem step_right_quiet {l : Link σ τ} {e : δ} {s : τ} (he : K.report e = none)
    (hs : K.step l.right e = some s) : l.step H K (.right e) = some { l with right := s } := by
  have h := @step_left_quiet _ _ _ _ K H l.swap e s he hs
  exact congrArg (Option.map swap) h

/-- A link looks the same from both ends. -/
theorem run_swap {l l' : Link σ τ} {es : List (Event ε δ)}
    {G : Link σ τ → Event ε δ → Link σ τ → Prop} {F : Link τ σ → Event δ ε → Link τ σ → Prop}
    (hr : Runs (step H K) G l es l') (hg : ∀ l e l', G l e l' → F l.swap e.swap l'.swap) :
    Runs (step K H) F l.swap (es.map Event.swap) l'.swap := by
  induction hr with
  | nil l => exact .nil _
  | @cons s t u e es hs hG _ ih =>
    have hs' : s.swap.step K H e.swap = some t.swap := by
      rw [step_swap, hs]
      rfl
    exact .cons hs' (hg s e t hG) ih

/-- A run of one machine without reports is a run of the link. -/
theorem run_left {l : Link σ τ} {s t : σ} {es : List ε} {G : σ → ε → σ → Prop}
    (hr : Runs H.step G s es t) (hq : ∀ e ∈ es, H.report e = none) (hl : l.left = s) :
    Runs (step H K) anyStep l (es.map .left) { l with left := t } := by
  induction hr generalizing l with
  | nil s =>
    subst hl
    exact .nil l
  | @cons s t u e es hs _ _ ih =>
    subst hl
    have he := hq e List.mem_cons_self
    exact .cons (step_left_quiet he hs) trivial
      (ih (fun e' h' => hq e' (List.mem_cons_of_mem _ h')) rfl)

theorem run_right {l : Link σ τ} {s t : τ} {es : List δ} {G : τ → δ → τ → Prop}
    (hr : Runs K.step G s es t) (hq : ∀ e ∈ es, K.report e = none) (hl : l.right = s) :
    Runs (step H K) anyStep l (es.map .right) { l with right := t } := by
  have hrun := run_swap (F := anyStep) (@run_left _ _ _ _ K H l.swap _ _ _ _ hr hq hl)
    fun _ _ _ _ => trivial
  rwa [List.map_map] at hrun

/-- Each machine goes through a run of its own. -/
theorem run_of_left {l l' : Link σ τ} {es : List (Event ε δ)}
    {G : Link σ τ → Event ε δ → Link σ τ → Prop} {F : σ → ε → σ → Prop}
    (hr : Runs (step H K) G l es l') (hg : ∀ l e l', G l (.left e) l' → F l.left e l'.left) :
    ∃ fs, Runs H.step F l.left fs l'.left := by
  induction hr with
  | nil l => exact ⟨[], .nil _⟩
  | @cons s t u e es hs hG _ ih =>
    obtain ⟨fs, hfs⟩ := ih
    cases e with
    | left e =>
      obtain ⟨-, hmap⟩ := Option.ite_none_right_eq_some.mp hs
      obtain ⟨m, hstep, rfl⟩ := Option.map_eq_some_iff.mp hmap
      exact ⟨e :: fs, .cons hstep (hg _ _ _ hG) hfs⟩
    | right e =>
      obtain ⟨m, hm, rfl⟩ := Option.map_eq_some_iff.mp hs
      obtain ⟨-, hmap⟩ := Option.ite_none_right_eq_some.mp hm
      obtain ⟨s', -, rfl⟩ := Option.map_eq_some_iff.mp hmap
      exact ⟨fs, hfs⟩

theorem run_of_right {l l' : Link σ τ} {es : List (Event ε δ)}
    {G : Link σ τ → Event ε δ → Link σ τ → Prop} {F : τ → δ → τ → Prop}
    (hr : Runs (step H K) G l es l') (hg : ∀ l e l', G l (.right e) l' → F l.right e l'.right) :
    ∃ fs, Runs K.step F l.right fs l'.right := by
  have hswap := run_swap hr (F := fun l e l' => ∀ e', e = .left e' → F l.left e' l'.left) <| by
    rintro l (e | e) l' hG e' ⟨⟩
    exact hg l e l' hG
  exact run_of_left hswap fun l e l' h => h e rfl

theorem Sound.swap {l : Link σ τ} (h : Sound H K l) : Sound K H l.swap :=
  ⟨h.right, h.left, h.toLeft, h.toRight⟩

theorem stepLeft_sound {l l' : Link σ τ} {e : ε} (h : Sound H K l)
    (hs : l.stepLeft H K e = some l') : Sound H K l' := by
  obtain ⟨hr, hmap⟩ := Option.ite_none_right_eq_some.mp hs
  obtain ⟨s, hstep, rfl⟩ := Option.map_eq_some_iff.mp hmap
  have hm := (H.hosted hstep).moved h.left
  exact ⟨hm.inv, h.right, h.toRight.push hm, h.toLeft.pop hm hr⟩

theorem step_sound {l l' : Link σ τ} {e : Event ε δ} (h : Sound H K l)
    (hs : l.step H K e = some l') : Sound H K l' := by
  cases e with
  | left e => exact stepLeft_sound h hs
  | right e =>
    obtain ⟨m, hstep, rfl⟩ := Option.map_eq_some_iff.mp hs
    exact (stepLeft_sound h.swap hstep).swap

theorem carries_empty {o p : Option TcpConn} (ho : ∀ c, o = some c → TcpConn.Initial c)
    (hp : ∀ c, p = some c → TcpConn.Initial c) : Carries o p .empty := by
  refine ⟨?_, ?_, ?_⟩
  · cases o with
    | none => rfl
    | some c =>
      obtain ⟨name, type, connFn, msgFn, closeFn, rfl⟩ := ho c rfl
      rfl
  · cases p with
    | none => rfl
    | some c =>
      obtain ⟨name, type, connFn, msgFn, closeFn, rfl⟩ := hp c rfl
      rfl
  · rintro ⟨c, rfl, he⟩
    exact absurd he (sawEof_initial (hp c rfl))

theorem sound_initial {l : Link σ τ} (h : Initial H K l) : Sound H K l where
  left c hc := endInv_initial (h.left c hc)
  right c hc := endInv_initial (h.right c hc)
  toRight := h.toRight ▸ carries_empty h.left h.right
  toLeft := h.toLeft ▸ carries_empty h.right h.left

theorem run_sound {l₀ l : Link σ τ} {es : List (Event ε δ)}
    {G : Link σ τ → Event ε δ → Link σ τ → Prop} (h₀ : Initial H K l₀)
    (hr : Runs (step H K) G l₀ es l) : Sound H K l :=
  hr.invariant (fun _ _ _ h _ hs => step_sound h hs) (sound_initial h₀)

end Link

end Libasio
