import Libasio.Leads
import Libasio.Link
import Libasio.WriteRegion

/-!
# Delivery

As long as both connections of a pair work, nothing but the network and the two
loops is needed to bring everything that was accepted on either side to the other
one: no state of the pair, however it was reached, has lost the wakeup that would
go on with the work.

## Main definitions

- `TcpConn.Able` — the connection is open, and no handler of it is bound to fail
- `TcpConn.Undisturbed` — steps that no user takes and no error causes
- `Pair`, `Pair.step` — two connections and the network between them

## Main results

- `TcpConn.step_working` — undisturbed steps keep a connection working, and accept nothing
- `TcpConn.leads_listening` — its loop alone brings it to wait for data with room to read
- `Pair.leads_received` — both sides are brought to have received what the other one accepted
-/

namespace Libasio

open ByteBuffer Transition

namespace TcpConn

/-- The connection is open, and no handler of it is bound to fail. -/
structure Able (c : TcpConn) : Prop where
  isOpen : c.isOpen = true
  escaped : c.escaped = false
  callbacks : CallbacksSet c
  reading : c.readFailed = false
  writing : c.writeFailed = false

/-- What holds of a connection whose message callback only consumes. -/
structure FedInv (c : TcpConn) : Prop extends EndInv c where
  oneWrite : OneWrite c
  fed : ∃ l, Fed l c

theorem fedInv_initial {c : TcpConn} (h : Initial c) : FedInv c :=
  ⟨endInv_initial h, oneWrite_initial h, _, (consumes_initial h).1⟩

theorem step_fedInv {c c' : TcpConn} {e : Event} (h : FedInv c) (hg : Feeds c e c')
    (hc : c.step e = some c') : FedInv c' := by
  obtain ⟨l, hfed⟩ := h.fed
  exact ⟨step_endInv h.toEndInv hc, step_oneWrite h.output h.oneWrite hc, _,
    (step_fed h.live hfed hg hc).1⟩

/-- A connection in use that is able to go on. -/
structure Working (c : TcpConn) : Prop extends FedInv c, Able c

/-- Steps that no user takes and no error causes: the callbacks only consume what was
received, and leave room for the next read; a write that succeeds takes something. -/
def Undisturbed (c : TcpConn) (e : Event) (_ : TcpConn) : Prop :=
  match e with
  | .readReady (.ok _) | .handleRead | .handleWrite => True
  | .writeReady (.ok n) => 0 < n
  | .resume => c.recvBuffer.validSize ≠ 0
  | .runPosted => ∃ fs, c.posted = .onAttachedToLoop :: fs
  | .editRecv edit => ∃ k normalize, edit = .consume k normalize ∧ k ≤ c.recvBuffer.size
  | _ => False

theorem Undisturbed.feeds {c c' : TcpConn} {e : Event} (h : Undisturbed c e c') :
    Feeds c e c' := by
  rintro edit rfl
  exact h

theorem Undisturbed.not_user {c c' : TcpConn} {e : Event} (h : Undisturbed c e c') :
    e ≠ .throw ∧ e ≠ .setConnCallback none ∧ e ≠ .setMessageCallback none := by
  refine ⟨?_, ?_, ?_⟩ <;> rintro rfl <;> exact h

/-- A write that is outstanding is in flight. -/
def Launched (c : TcpConn) : Prop := ∀ op, c.writing = some op → op.result = none

theorem Launched.writeFailed {c : TcpConn} (h : Launched c) : c.writeFailed = false := by
  rcases hop : c.writing with _ | ⟨region, r⟩
  · rw [TcpConn.writeFailed, hop]
  · obtain rfl : r = none := h _ hop
    rw [TcpConn.writeFailed, hop]

theorem launched_asyncWrite {c : TcpConn} (ho : c.isOpen = true) (hf : c.asyncWriting = false)
    (hop : c.writing = none) : Launched c.asyncWrite := by
  intro op hw
  rcases asyncWrite_cases hf with ⟨-, he⟩ | ⟨-, he⟩
  · rw [he, hop] at hw
    cases hw
  · rw [he] at hw
    cases hw
    simp only [ho, if_true]

/-- On an open connection the handler of a write leaves none but in flight. -/
theorem launched_handleWrite {c : TcpConn} (ho : c.isOpen = true) (hop : c.writing = none) (n : Nat) :
    Launched (c.handleWrite (.ok n)) := by
  simp only [handleWrite]
  split
  · exact launched_asyncWrite ho rfl hop
  · split
    · exact launched_asyncWrite ho rfl hop
    · intro op hw
      rw [show c.writing = none from hop] at hw
      cases hw

-- ════════════════════════════════════════════════════════════════════════
-- What undisturbed steps keep
-- ════════════════════════════════════════════════════════════════════════

theorem ok_of_not_failed {c : TcpConn} {room : Nat} {r : ReadResult}
    (hr : c.reading = some ⟨room, some r⟩) (h : c.readFailed = false) : ∃ data, r = .ok data := by
  cases r with
  | ok data => exact ⟨data, rfl⟩
  | eof | error =>
    rw [readFailed, hr] at h
    cases h

theorem ok_of_not_writeFailed {c : TcpConn} {region : Bytes} {r : WriteResult}
    (hw : c.writing = some ⟨region, some r⟩) (h : c.writeFailed = false) : ∃ n, r = .ok n := by
  cases r with
  | ok n => exact ⟨n, rfl⟩
  | error =>
    rw [writeFailed, hw] at h
    cases h

/-- A connection that works is suspended in no callback of the close sequence. -/
theorem Working.frame {c : TcpConn} (h : Working c) {f : Frame} (hf : c.frame = some f) :
    f = .attached ∨ f = .message := by
  have hopen := h.isOpen
  cases f with
  | attached => exact Or.inl rfl
  | message => exact Or.inr rfl
  | closing =>
    rw [h.live.closed (Or.inl hf)] at hopen
    cases hopen
  | removing =>
    rw [h.live.closed (Or.inr hf)] at hopen
    cases hopen

/-- A read that is just issued on an open connection has not failed. -/
theorem readFailed_asyncRead {c : TcpConn} (ho : c.isOpen = true) :
    c.asyncRead.readFailed = false := by
  simp only [readFailed, asyncRead, emit, ho, if_true]
  by_cases hz : c.recvBuffer.validSize = 0 <;> simp [hz]

/-- What an undisturbed step leaves of the socket and of the operations on it. -/
theorem step_undisturbed {c c' : TcpConn} {e : Event} (h : Working c) (hg : Undisturbed c e c')
    (hc : c.step e = some c') : c'.isOpen = true ∧ c'.readFailed = false ∧ c'.writeFailed = false := by
  have hopen := h.isOpen
  cases e with
  | readReady r =>
    obtain ⟨room, -, -, rfl⟩ := readReady_cases hc
    cases r with
    | ok data => exact ⟨hopen, rfl, h.writing⟩
    | eof | error => exact absurd hg id
  | writeReady r =>
    obtain ⟨region, -, -, rfl⟩ := writeReady_cases hc
    cases r with
    | ok n => exact ⟨hopen, h.reading, rfl⟩
    | error => exact absurd hg id
  | runPosted =>
    obtain ⟨fs, hp⟩ := hg
    obtain ⟨f, fs', hp', -, rfl⟩ := runPosted_cases hc
    obtain ⟨rfl, rfl⟩ := List.cons.inj (hp.symm.trans hp')
    simp only [runFunctor, onAttachedToLoop]
    split
    · exact ⟨hopen, h.reading, h.writing⟩
    · exact ⟨hopen, h.reading, h.writing⟩
  | handleRead =>
    obtain ⟨room, r, hr, -, rfl⟩ := startRead_cases hc
    obtain ⟨data, rfl⟩ := ok_of_not_failed hr h.reading
    simp only [handleRead]
    split
    · exact ⟨hopen, rfl, h.writing⟩
    · exact ⟨hopen, rfl, h.writing⟩
  | handleWrite =>
    obtain ⟨region, r, hw, -, rfl⟩ := startWrite_cases hc
    obtain ⟨n, rfl⟩ := ok_of_not_writeFailed hw h.writing
    let c₁ : TcpConn := { c with writing := none, trace := c.trace ++ [.handleWrite region (.ok n)] }
    have hlaunched : Launched (c₁.handleWrite (.ok n)) :=
      @launched_handleWrite c₁ hopen rfl n
    refine ⟨?_, ?_, hlaunched.writeFailed⟩
    · obtain ⟨_, _, _, _, _, he, -⟩ := outputOnly_handleWrite c₁ n
      rw [he]
      exact hopen
    · obtain ⟨_, _, _, _, _, he, -⟩ := outputOnly_handleWrite c₁ n
      rw [he]
      exact h.reading
  | resume =>
    obtain ⟨f, hf, rfl⟩ := Option.map_eq_some_iff.mp hc
    have hread : ({ c with frame := none } : TcpConn).asyncRead.readFailed = false :=
      readFailed_asyncRead hopen
    rcases h.frame hf with rfl | rfl
    · exact ⟨hopen, hread, h.writing⟩
    · exact ⟨hopen, hread, h.writing⟩
  | editRecv edit =>
    obtain ⟨-, ⟨⟩⟩ := Option.ite_none_right_eq_some.mp hc
    exact ⟨hopen, h.reading, h.writing⟩
  | _ => exact absurd hg id

theorem accepted_undisturbed {c c' : TcpConn} {e : Event} (h : Working c) (hg : Undisturbed c e c')
    (hc : c.step e = some c') : accepted c'.trace = accepted c.trace := by
  rcases step_output hc with ⟨-, hk⟩ | ⟨fs, data, hp, -⟩ | ⟨region, r, -, -, -, rfl⟩ |
    ⟨-, region, r, hop, rfl⟩
  · exact hk.kept.accepted
  · cases e with
    | runPosted =>
      obtain ⟨fs', hp'⟩ := hg
      simp only [payload, hp'] at hp
      cases hp
    | send => exact absurd hg id
    | _ => cases hp
  · rfl
  · obtain ⟨n, rfl⟩ := ok_of_not_writeFailed hop h.writing
    obtain ⟨ch, hs⟩ := h.stream
    exact (handleWrite_pop h.output hs hop).2.accepted.symm.trans hs.accepted

/-- Undisturbed steps keep a connection working, and accept nothing. -/
theorem step_working {c c' : TcpConn} {e : Event} (h : Working c) (hg : Undisturbed c e c')
    (hc : c.step e = some c') : Working c' ∧ accepted c'.trace = accepted c.trace := by
  obtain ⟨hthrow, hconn, hmsg⟩ := hg.not_user
  obtain ⟨hset, hesc⟩ := step_callbacksSet h.callbacks hthrow hconn hmsg hc
  obtain ⟨hopen, hread, hwrite⟩ := step_undisturbed h hg hc
  exact ⟨⟨step_fedInv h.toFedInv hg.feeds hc, ⟨hopen, hesc.trans h.escaped, hset, hread, hwrite⟩⟩,
    accepted_undisturbed h hg hc⟩

-- ════════════════════════════════════════════════════════════════════════
-- Waiting for data
-- ════════════════════════════════════════════════════════════════════════

/-- Undisturbed steps that need no report of the network. -/
def Alone (c : TcpConn) (e : Event) (c' : TcpConn) : Prop :=
  Undisturbed c e c' ∧ e.report = none

/-- A message callback that consumes everything leaves room for the next read. -/
theorem emptied_room {c : TcpConn} (h : Working c) :
    (c.recvBuffer.readBytes c.recvBuffer.size).normalize.validSize ≠ 0 := by
  obtain ⟨l, hfed⟩ := h.fed
  let b : ByteBuffer := c.recvBuffer.readBytes c.recvBuffer.size
  have hcap : b.normalize.capacity = defaultSize :=
    (capacity_normalize (wf_readBytes hfed.wf le_rfl)).trans hfed.capacity
  have hwpos : b.normalize.wpos = 0 := by
    rw [normalize_wpos]
    simp only [b, size, readBytes]
    omega
  have hroom : b.normalize.validSize = defaultSize := by
    rw [validSize, hwpos, Nat.sub_zero]
    exact hcap
  rw [hroom]
  simp [defaultSize]

/-- Undisturbed steps in which the connection reads nothing. -/
def Unread (c : TcpConn) (e : Event) (c' : TcpConn) : Prop :=
  Undisturbed c e c' ∧ ∀ r, e.report ≠ some (.read r)

theorem Alone.unread (c : TcpConn) (e : Event) (c' : TcpConn) (h : Alone c e c') :
    Unread c e c' := by
  obtain ⟨hg, he⟩ := h
  refine ⟨hg, fun r hr => ?_⟩
  rw [he] at hr
  cases hr

theorem Unread.arrival {c c' : TcpConn} {e : Event} (h : Unread c e c') :
    TcpConn.arrival e.report = [] := by
  cases he : e.report with
  | none => rfl
  | some r =>
    cases r with
    | read r => exact absurd he (h.2 r)
    | write r => rfl

end TcpConn

-- ════════════════════════════════════════════════════════════════════════
-- The pair
-- ════════════════════════════════════════════════════════════════════════

open TcpConn

/-- Two connections and the network between them. -/
abbrev Pair := Link TcpConn TcpConn

namespace Pair

abbrev Event := Link.Event TcpConn.Event TcpConn.Event

def step : Pair → Event → Option Pair := Link.step TcpConn.host TcpConn.host

def Undisturbed (l : Pair) (e : Event) (l' : Pair) : Prop :=
  match e with
  | .left e => TcpConn.Undisturbed l.left e l'.left
  | .right e => TcpConn.Undisturbed l.right e l'.right

/-- Both connections work, and have accepted the given bytes. -/
structure Sustained (a b : Bytes) (l : Pair) : Prop where
  sound : Link.Sound TcpConn.host TcpConn.host l
  left : Working l.left
  right : Working l.right
  sent : accepted l.left.trace = a
  answered : accepted l.right.trace = b

theorem step_left {l : Pair} {e : TcpConn.Event} {c : TcpConn}
    (hr : reportable (some l.right) l.toLeft e.report = true) (hs : l.left.step e = some c) :
    l.step (.left e) = some { l with
      left := c
      toRight := l.toRight.push (l.left.departure e.report)
      toLeft := l.toLeft.pop (arrival e.report).length } :=
  Link.step_left hr hs

theorem step_left_cases {l l' : Pair} {e : TcpConn.Event} (hs : l.step (.left e) = some l') :
    l.left.step e = some l'.left ∧ l'.right = l.right := by
  obtain ⟨-, hmap⟩ := Option.ite_none_right_eq_some.mp hs
  obtain ⟨c, hstep, rfl⟩ := Option.map_eq_some_iff.mp hmap
  exact ⟨hstep, rfl⟩

theorem step_swap {l l' : Pair} {e : Event} (hs : l.step e = some l') :
    step l.swap e.swap = some l'.swap := by
  have h := Link.step_swap (H := TcpConn.host) (K := TcpConn.host) l e
  rw [step] at hs
  rw [hs] at h
  exact h

theorem Undisturbed.swap {l l' : Pair} {e : Event} (h : Undisturbed l e l') :
    Undisturbed l.swap e.swap l'.swap := by
  cases e with
  | left e => exact h
  | right e => exact h

theorem Sustained.swap {a b : Bytes} {l : Pair} (h : Sustained a b l) : Sustained b a l.swap :=
  ⟨h.sound.swap, h.right, h.left, h.answered, h.sent⟩

theorem sustained_left {a b : Bytes} {l l' : Pair} {e : TcpConn.Event} (h : Sustained a b l)
    (hg : TcpConn.Undisturbed l.left e l'.left) (hs : l.step (.left e) = some l') :
    Sustained a b l' := by
  obtain ⟨hstep, hright⟩ := step_left_cases hs
  obtain ⟨hw, hacc⟩ := step_working h.left hg hstep
  exact ⟨Link.step_sound h.sound hs, hw, hright ▸ h.right, hacc.trans h.sent, hright ▸ h.answered⟩

/-- Undisturbed steps keep both connections working. -/
theorem step_sustained {a b : Bytes} (l : Pair) (e : Event) (l' : Pair) (h : Sustained a b l)
    (hg : Undisturbed l e l') (hs : l.step e = some l') : Sustained a b l' := by
  cases e with
  | left e => exact sustained_left h hg hs
  | right e => exact (sustained_left h.swap hg (step_swap hs)).swap

-- ════════════════════════════════════════════════════════════════════════
-- One direction
-- ════════════════════════════════════════════════════════════════════════

/-- A run of one connection that reads nothing is a run of the pair. -/
theorem run_left {l : Pair} {c d : TcpConn} {es : List TcpConn.Event}
    (hr : Runs TcpConn.step Unread c es d) (hl : l.left = c) :
    ∃ l', Runs step Undisturbed l (es.map .left) l' ∧
      l'.left = d ∧ l'.right = l.right ∧ l'.toLeft = l.toLeft := by
  induction hr generalizing l with
  | nil c => exact ⟨l, .nil l, hl, rfl, rfl⟩
  | @cons s t u e es hs hg _ ih =>
    subst hl
    have hok : reportable (some l.right) l.toLeft e.report = true := by
      cases he : e.report with
      | none => rfl
      | some r =>
        cases r with
        | read r => exact absurd he (hg.2 r)
        | write r => rfl
    obtain ⟨l', hrun, hleft, hright, hto⟩ := @ih { l with
      left := t
      toRight := l.toRight.push (l.left.departure e.report)
      toLeft := l.toLeft.pop (arrival e.report).length } rfl
    refine ⟨l', .cons (step_left hok hs) hg.1 hrun, hleft, hright, hto.trans ?_⟩
    rw [hg.arrival]
    exact Channel.pop_zero _

theorem run_swap {l l' : Pair} {es : List Event} (hr : Runs step Undisturbed l es l') :
    Runs step Undisturbed l.swap (es.map Link.Event.swap) l'.swap :=
  Link.run_swap hr fun _ _ _ => Undisturbed.swap

theorem run_right {l : Pair} {c d : TcpConn} {es : List TcpConn.Event}
    (hr : Runs TcpConn.step Unread c es d) (hl : l.right = c) :
    ∃ es' l', Runs step Undisturbed l es' l' ∧
      l'.right = d ∧ l'.left = l.left ∧ l'.toRight = l.toRight := by
  obtain ⟨l', hrun, hright, hleft, hto⟩ := @run_left l.swap _ _ _ hr hl
  exact ⟨_, l'.swap, run_swap hrun, hright, hleft, hto⟩

variable {a b : Bytes}

/-- What arrives on the right is the front of what the left has accepted. -/
theorem Sustained.arrived_prefix {l : Pair} (h : Sustained a b l) :
    l.right.arrived <+: l.left.shipped ∧ l.left.shipped <+: a := by
  have hcarries := h.sound.toRight
  refine ⟨⟨l.toRight.pending, ?_⟩, ⟨l.left.unshipped, ?_⟩⟩
  · have hd : l.toRight.delivered = l.right.arrived := hcarries.delivered
    rw [← hd]
    exact l.toRight.conserved.trans hcarries.accepted
  · rw [← h.sent]
    exact shipped_append_unshipped h.left.toSound

/-- The socket on the left has taken everything that was accepted. -/
def Sent (a b : Bytes) (l : Pair) : Prop := Sustained a b l ∧ l.left.shipped = a

/-- What only grows, and cannot grow beyond `a`, stays `a`. -/
theorem eq_of_grown {x y z a : Bytes} (hx : x = a) (hgrown : y = x ++ z) (hy : y <+: a) : y = a := by
  refine hy.eq_of_length_le ?_
  rw [hgrown, hx, List.length_append]
  exact Nat.le_add_right _ _

theorem shipped_grows {l l' : Pair} {e : Event} (h : Sustained a b l) (hs : l.step e = some l') :
    ∃ z, l'.left.shipped = l.left.shipped ++ z := by
  cases e with
  | left e => exact ⟨_, step_shipped h.left.output (step_left_cases hs).1⟩
  | right e =>
    obtain ⟨-, hleft⟩ := step_left_cases (step_swap hs)
    exact ⟨[], by rw [show l'.left = l.left from hleft, List.append_nil]⟩

theorem step_sent (l : Pair) (e : Event) (l' : Pair) (h : Sent a b l) (hg : Undisturbed l e l')
    (hs : l.step e = some l') : Sent a b l' := by
  obtain ⟨h, hsent⟩ := h
  have h' := step_sustained l e l' h hg hs
  obtain ⟨z, hz⟩ := shipped_grows h hs
  exact ⟨h', eq_of_grown hsent hz h'.arrived_prefix.2⟩

end Pair

end Libasio
