import Libasio.HostedPair
import Libasio.SendOrder

/-!
# The echo example

The programs of `examples/tcp_echo`: a client that says hello when it is connected, a
server, and on both sides a message callback that empties the buffer and says hello. A
read can end anywhere in a message, and bring several of them; it is answered once.

## Main definitions

- `Echo` — what the callbacks of a program send
- `EchoEnd`, `EchoEnd.step` — a connection with these callbacks
- `EchoEnd.Holds` — there is something to say at this end

## Main results

- `Echoes.one_hello_per_read` — what each end says, in every order of steps
- `Echoes.never_silent` — the conversation does not end, and no end is left out of it

## Design notes

Both programs print what they do, and do nothing when the connection ends; that is left
out. A step that reports an error or the end of the stream can be taken, but is not
`Errorless`.
-/

namespace Libasio

open ByteBuffer Transition TcpConn

/-- A program of the example. -/
structure Echo where
  hello : Bytes
  /-- `OnConnection` says hello to a connection that `IsConnected()` -/
  first : Bool
  hello_ne : hello ≠ []

/-- What a callback does: `ReadBytes(Size())` and `Normalize()`, or `Send`. -/
inductive Act
  | empty | say
  deriving DecidableEq

namespace Echo

def bytes (s : String) : Bytes := s.toList.map fun c => UInt8.ofNat c.toNat

def client : Echo := ⟨bytes "client say hello!", true, by decide⟩

def server : Echo := ⟨bytes "server say hello!", false, by decide⟩

def onConnection (p : Echo) : List Act := if p.first then [.say] else []

def onMessage : List Act := [.empty, .say]

/-- What is done in a callback that has just been called. -/
def callback (p : Echo) : Option Frame → List Act
  | some .attached => p.onConnection
  | some .message => onMessage
  | _ => []

end Echo

def Act.event (p : Echo) (c : TcpConn) : Act → TcpConn.Event
  | .empty => .editRecv (.consume c.recvBuffer.size true)
  | .say => .send true p.hello

/-- A connection of a program, and what the callback that is under way has still to do. -/
structure EchoEnd where
  conn : TcpConn
  todo : List Act

namespace EchoEnd

inductive Event
  | conn (e : TcpConn.Event)
  | act

/-- The programs call nothing but `Send`, and throw no exception. -/
def allows (r : EchoEnd) : TcpConn.Event → Bool
  | .readReady _ | .writeReady _ | .runPosted | .handleRead | .handleWrite => true
  | .resume => r.todo.isEmpty
  | _ => false

def step (p : Echo) (r : EchoEnd) : Event → Option EchoEnd
  | .conn e =>
    if r.allows e then
      (r.conn.step e).map fun c =>
        ⟨c, if c.frame = r.conn.frame then r.todo else p.callback c.frame⟩
    else none
  | .act =>
    match r.todo with
    | [] => none
    | a :: acts => (r.conn.step (a.event p r.conn)).map fun c => ⟨c, acts⟩

/-- The step of the connection that asio can report something to. -/
def event : Event → Option TcpConn.Event
  | .conn e => some e
  | .act => none

variable {p : Echo} {r r' : EchoEnd} {e : TcpConn.Event} {c : TcpConn}

theorem step_conn_cases (hs : step p r (.conn e) = some r') : ∃ c, r.allows e = true ∧
    r.conn.step e = some c ∧
      r' = ⟨c, if c.frame = r.conn.frame then r.todo else p.callback c.frame⟩ := by
  obtain ⟨ha, hmap⟩ := Option.ite_none_right_eq_some.mp hs
  obtain ⟨c, hc, rfl⟩ := Option.map_eq_some_iff.mp hmap
  exact ⟨c, ha, hc, rfl⟩

theorem step_conn (ha : r.allows e = true) (hc : r.conn.step e = some c) : step p r (.conn e) =
    some ⟨c, if c.frame = r.conn.frame then r.todo else p.callback c.frame⟩ := by
  simp only [step, ha, if_true, hc, Option.map_some]

theorem step_act {a : Act} {acts : List Act} (htodo : r.todo = a :: acts)
    (hc : r.conn.step (a.event p r.conn) = some c) : step p r .act = some ⟨c, acts⟩ := by
  simp only [step, htodo, hc, Option.map_some]

theorem step_say {acts : List Act} (htodo : r.todo = .say :: acts) :
    step p r .act = some ⟨r.conn.sendInLoop p.hello, acts⟩ := step_act htodo rfl

theorem step_act_cases (hs : step p r .act = some r') : ∃ a acts c, r.todo = a :: acts ∧
    r.conn.step (a.event p r.conn) = some c ∧ r' = ⟨c, acts⟩ := by
  simp only [step] at hs
  split at hs
  · cases hs
  · next a acts htodo =>
    obtain ⟨c, hc, rfl⟩ := Option.map_eq_some_iff.mp hs
    exact ⟨a, acts, c, htodo, hc, rfl⟩

theorem beside_act (a : Act) (c d : TcpConn) : Beside c (a.event p c) d := by
  cases a with
  | empty =>
    refine ⟨rfl, ?_⟩
    rintro edit ⟨⟩
    exact ⟨_, true, rfl, Nat.le_refl _⟩
  | say => exact beside_of_report rfl (by rintro edit ⟨⟩)

/-- A program and its connection. -/
def host (p : Echo) : Host EchoEnd Event where
  step := step p
  conn r := some r.conn
  event := event
  hosted {r e r'} hs := by
    cases e with
    | conn e =>
      obtain ⟨c, -, hc, rfl⟩ := step_conn_cases hs
      exact .one hc
    | act =>
      obtain ⟨a, acts, c, -, hc, rfl⟩ := step_act_cases hs
      exact .quiet (.single hc (beside_act a _ _))

/-- The network reports no error and no end of file; a write takes something. -/
def Fine : TcpConn.Event → Prop
  | .readReady (.ok _) => True
  | .readReady _ => False
  | .writeReady (.ok n) => 0 < n
  | .writeReady .error => False
  | _ => True

-- ════════════════════════════════════════════════════════════════════════
-- One end
-- ════════════════════════════════════════════════════════════════════════

/-- What holds of an end to which no error has been reported. -/
structure Inv (p : Echo) (r : EchoEnd) : Prop where
  working : Working r.conn
  posted : ∀ f ∈ r.conn.posted, f = .onAttachedToLoop
  todo : r.todo <:+ p.callback r.conn.frame
  room : .empty ∉ r.todo → r.conn.frame ≠ none → r.conn.recvBuffer.validSize ≠ 0

theorem Inv.undisturbed (h : Inv p r) (ha : r.allows e = true) (hfine : Fine e)
    (hc : r.conn.step e = some c) : TcpConn.Undisturbed r.conn e c := by
  cases e with
  | readReady res =>
    cases res with
    | ok data => trivial
    | eof | error => exact hfine
  | writeReady res =>
    cases res with
    | ok n => exact hfine
    | error => exact hfine
  | runPosted =>
    obtain ⟨f, fs, hp, -, -⟩ := runPosted_cases hc
    have hf : f = .onAttachedToLoop := h.posted f (hp ▸ List.mem_cons_self)
    exact ⟨fs, hf ▸ hp⟩
  | handleRead | handleWrite => trivial
  | resume =>
    obtain ⟨f, hf, -⟩ := Option.map_eq_some_iff.mp hc
    have htodo : r.todo = [] := List.isEmpty_iff.mp ha
    refine h.room ?_ ?_
    · rw [htodo]
      exact List.not_mem_nil
    · rw [hf]
      exact Option.some_ne_none f
  | _ => cases ha

theorem Inv.idle_todo (h : Inv p r) (hf : r.conn.frame = none) : r.todo = [] := by
  have htodo := h.todo
  rw [hf] at htodo
  exact List.suffix_nil.mp htodo

/-- A callback is called, it returns, or nothing changes for it. -/
theorem Inv.frame_cases (h : Inv p r) (ha : r.allows e = true) (hfine : Fine e)
    (hc : r.conn.step e = some c) :
    (c.frame = r.conn.frame ∧ c.recvBuffer = r.conn.recvBuffer ∧ c.posted = r.conn.posted ∧
      e ≠ .handleRead ∧ (e.arrival = [] → c.queued = r.conn.queued)) ∨
    (e = .runPosted ∧ r.conn.frame = none ∧ c.frame = some .attached ∧
      c.queued = r.conn.queued) ∨
    (e = .handleRead ∧ r.conn.frame = none ∧ c.frame = some .message) ∨
    (e = .resume ∧ r.todo = [] ∧ r.conn.frame ≠ none ∧ c.frame = none) := by
  have hw := h.working
  cases e with
  | readReady res =>
    obtain ⟨room, -, hfits, rfl⟩ := readReady_cases hc
    refine .inl ⟨rfl, rfl, rfl, TcpConn.Event.noConfusion, fun hnil => ?_⟩
    cases res with
    | ok data =>
      have hne : 0 < data.length := (of_decide_eq_true hfits).1
      have hnil' : data = [] := hnil
      rw [hnil'] at hne
      exact absurd hne (Nat.lt_irrefl 0)
    | eof | error => exact hfine.elim
  | writeReady res =>
    obtain ⟨region, -, -, rfl⟩ := writeReady_cases hc
    exact .inl ⟨rfl, rfl, rfl, TcpConn.Event.noConfusion, fun _ => rfl⟩
  | runPosted =>
    obtain ⟨f, fs, hp, hidle, rfl⟩ := runPosted_cases hc
    have hf : f = .onAttachedToLoop := h.posted f (hp ▸ List.mem_cons_self)
    obtain ⟨g, hg⟩ := Option.ne_none_iff_exists'.mp hw.callbacks.1
    subst hf
    refine .inr (.inl ⟨rfl, (idle_iff.mp hidle).1, ?_⟩)
    simp only [runFunctor, onAttachedToLoop, hg, emit]
    exact ⟨trivial, rfl⟩
  | handleRead =>
    obtain ⟨room, res, hr, hidle, rfl⟩ := startRead_cases hc
    obtain ⟨data, rfl⟩ := ok_of_not_failed hr hw.reading
    obtain ⟨g, hg⟩ := Option.ne_none_iff_exists'.mp hw.callbacks.2
    refine .inr (.inr (.inl ⟨rfl, (idle_iff.mp hidle).1, ?_⟩))
    simp only [handleRead, hg, emit]
  | handleWrite =>
    obtain ⟨region, res, hop, -, rfl⟩ := startWrite_cases hc
    obtain ⟨n, rfl⟩ := ok_of_not_writeFailed hop hw.writing
    obtain ⟨_, _, _, _, _, he, -⟩ := outputOnly_handleWrite
      { r.conn with writing := none, trace := r.conn.trace ++ [.handleWrite region (.ok n)] } n
    rw [he]
    exact .inl ⟨rfl, rfl, rfl, TcpConn.Event.noConfusion, fun _ => rfl⟩
  | resume =>
    obtain ⟨f, hf, rfl⟩ := Option.map_eq_some_iff.mp hc
    refine .inr (.inr (.inr ⟨rfl, List.isEmpty_iff.mp ha, ?_, ?_⟩))
    · rw [hf]
      exact Option.some_ne_none f
    · rcases hw.frame hf with rfl | rfl
      · rfl
      · rfl
  | _ => cases ha

theorem suffix_callback {acts : List Act} {o : Option Frame} (h : acts <:+ p.callback o)
    {a : Act} {rest : List Act} (ha : acts = a :: rest) : rest <:+ p.callback o :=
  (List.suffix_cons a rest).trans (ha ▸ h)

/-- A step of the connection by itself. -/
theorem Inv.conn (h : Inv p r) (ha : r.allows e = true) (hfine : Fine e)
    (hc : r.conn.step e = some c) :
    Inv p ⟨c, if c.frame = r.conn.frame then r.todo else p.callback c.frame⟩ := by
  have hund := h.undisturbed ha hfine hc
  have hposted : ∀ f ∈ c.posted, f = .onAttachedToLoop := by
    rw [step_posted hc]
    cases e with
    | runPosted => exact fun f hf => h.posted f (List.mem_of_mem_tail hf)
    | send | close => cases ha
    | _ => exact h.posted
  have hw := (step_working h.working hund hc).1
  refine ⟨hw, hposted, ?_, ?_⟩
  · show (if c.frame = r.conn.frame then r.todo else p.callback c.frame) <:+ p.callback c.frame
    split
    · next hsame =>
      rw [hsame]
      exact h.todo
    · exact List.suffix_rfl
  · intro hnot hf
    have hnot' : .empty ∉ if c.frame = r.conn.frame then r.todo else p.callback c.frame := hnot
    have hf' : c.frame ≠ none := hf
    show c.recvBuffer.validSize ≠ 0
    rcases h.frame_cases ha hfine hc with ⟨hsame, hbuf, -⟩ | ⟨-, -, hattached, -⟩ |
      ⟨-, hnone, hmessage⟩ | ⟨-, -, -, hnone⟩
    · rw [if_pos hsame] at hnot'
      rw [hbuf]
      exact h.room hnot' (hsame ▸ hf')
    · rw [hw.live.fresh (.inr hattached), validSize_new]
      simp [defaultSize]
    · rw [hmessage, hnone, if_neg (Option.some_ne_none _)] at hnot'
      exact absurd List.mem_cons_self hnot'
    · exact absurd hnone hf'

/-- What is sent is written now, or after the write that is outstanding. -/
theorem writing_sendInLoop {c : TcpConn} (h : Working c) (data : Bytes) :
    (c.writing = none ∧ Launched (c.sendInLoop data)) ∨
      (c.sendInLoop data).writing = c.writing := by
  rcases sendInLoop_cases c data with ⟨hclosed, -⟩ | ⟨ho, hf, he⟩ | ⟨-, -, tail, -, he⟩
  · cases hclosed.symm.trans h.isOpen
  · have hop : c.writing = none := by simpa [hf] using h.output.flag
    refine .inl ⟨hop, ?_⟩
    rw [he]
    refine launched_asyncWrite ?_ ?_ ?_
    · split
      · exact ho
      · exact ho
    · split
      · exact hf
      · exact hf
    · split
      · exact hop
      · exact hop
  · right
    rw [he]

/-- Sending on an open connection leaves it able to go on. -/
theorem able_sendInLoop {c : TcpConn} (h : Working c) (data : Bytes) :
    Able (c.sendInLoop data) := by
  have hwrite : (c.sendInLoop data).writeFailed = false := by
    rcases writing_sendInLoop h data with ⟨-, hlaunched⟩ | hsame
    · exact hlaunched.writeFailed
    · rw [TcpConn.writeFailed, hsame]
      exact h.writing
  obtain ⟨_, _, _, _, _, he, -⟩ := outputOnly_sendInLoop c data
  rw [he] at hwrite ⊢
  exact ⟨h.isOpen, h.escaped, h.callbacks, h.reading, hwrite⟩

/-- Sending leaves nothing more for the loop to run. -/
theorem chores_sendInLoop {c : TcpConn} (h : Working c) (data : Bytes) :
    (c.sendInLoop data).chores = c.chores := by
  have hhandled : ((c.sendInLoop data).writing.any fun op => op.result.isSome) =
      c.writing.any fun op => op.result.isSome := by
    rcases writing_sendInLoop h data with ⟨hop, hlaunched⟩ | hsame
    · rw [hlaunched.handled, hop]
      rfl
    · rw [hsame]
  obtain ⟨_, _, _, _, _, he, -⟩ := outputOnly_sendInLoop c data
  rw [he] at hhandled ⊢
  simp only [chores, hhandled]

theorem Inv.say (h : Inv p r) {acts : List Act} (htodo : r.todo = .say :: acts) :
    Inv p ⟨r.conn.sendInLoop p.hello, acts⟩ := by
  have hstep : r.conn.step (.send true p.hello) = some (r.conn.sendInLoop p.hello) := rfl
  obtain ⟨_, _, _, _, _, he, -⟩ := outputOnly_sendInLoop r.conn p.hello
  refine ⟨⟨step_fedInv h.working.toFedInv (by rintro edit ⟨⟩) hstep,
    able_sendInLoop h.working p.hello⟩, ?_, ?_, ?_⟩
  · show ∀ f ∈ (r.conn.sendInLoop p.hello).posted, f = .onAttachedToLoop
    rw [he]
    exact h.posted
  · show acts <:+ p.callback (r.conn.sendInLoop p.hello).frame
    rw [he]
    exact suffix_callback h.todo htodo
  · show .empty ∉ acts → (r.conn.sendInLoop p.hello).frame ≠ none →
      (r.conn.sendInLoop p.hello).recvBuffer.validSize ≠ 0
    rw [he]
    intro hnot
    refine h.room ?_
    rw [htodo]
    exact fun hmem => hnot ((List.mem_cons.mp hmem).resolve_left (by decide))

theorem Inv.empty (h : Inv p r) {acts : List Act} (htodo : r.todo = .empty :: acts)
    (hc : r.conn.step (Act.empty.event p r.conn) = some c) : Inv p ⟨c, acts⟩ := by
  have hund : TcpConn.Undisturbed r.conn (Act.empty.event p r.conn) c :=
    ⟨_, true, rfl, Nat.le_refl _⟩
  obtain ⟨-, ⟨⟩⟩ := Option.ite_none_right_eq_some.mp hc
  exact ⟨(step_working h.working hund hc).1, h.posted, suffix_callback h.todo htodo,
    fun _ _ => emptied_room h.working⟩

-- ════════════════════════════════════════════════════════════════════════
-- Whose turn it is
-- ════════════════════════════════════════════════════════════════════════

/-- There is something to send at this end, or to be answered by it. -/
def Holds (p : Echo) (r : EchoEnd) : Prop :=
  r.conn.unshipped ≠ [] ∨ r.conn.queued ≠ [] ∨ .say ∈ r.todo ∨
    (p.first = true ∧ ¬r.conn.Attached)

theorem Inv.queued_of_frame (h : Inv p r) {f : Frame} (hf : r.conn.frame = some f) :
    r.conn.queued = [] := by
  have hcalled := (h.working.frame hf).imp (congrArg some) (congrArg some)
  have hr : r.conn.reading = none := (h.working.live.attached (hf ▸ hcalled)).2
  rw [queued, hr]

theorem Inv.attached_of_frame (h : Inv p r) {f : Frame} (hf : r.conn.frame = some f) :
    r.conn.Attached := by
  have hcalled := (h.working.frame hf).imp (congrArg some) (congrArg some)
  exact (h.working.live.attached (hf ▸ hcalled)).1

/-- What is there to send is still there, or has just left. -/
theorem Inv.unshipped_conn (h : Inv p r) (hund : TcpConn.Undisturbed r.conn e c)
    (hc : r.conn.step e = some c) (hne : r.conn.unshipped ≠ []) :
    c.unshipped ≠ [] ∨ r.conn.departure e.report ≠ [] := by
  have hlen := unshipped_undisturbed h.working hund hc
  have hpos := List.length_pos_iff.mpr hne
  by_cases hdep : r.conn.departure e.report = []
  · rw [hdep, List.length_nil] at hlen
    exact .inl (List.length_pos_iff.mp (by omega))
  · exact .inr hdep

/-- What arrives waits for its handler. -/
theorem queued_of_arrival (hc : r.conn.step e = some c) (harr : e.arrival ≠ []) :
    c.queued ≠ [] := by
  cases e with
  | readReady res =>
    obtain ⟨room, -, -, rfl⟩ := readReady_cases hc
    cases res with
    | ok data => exact harr
    | eof | error => exact absurd rfl harr
  | _ => exact absurd rfl harr

/-- What arrives brings the turn; it stays, or what is sent takes it along. -/
theorem Inv.holds_conn (h : Inv p r) (ha : r.allows e = true) (hfine : Fine e)
    (hc : r.conn.step e = some c) (hold : Holds p r ∨ e.arrival ≠ []) :
    Holds p ⟨c, if c.frame = r.conn.frame then r.todo else p.callback c.frame⟩ ∨
      r.conn.departure e.report ≠ [] := by
  have hund := h.undisturbed ha hfine hc
  by_cases harr : e.arrival = []
  · rcases hold.resolve_right (absurd harr) with hunshipped | hqueued | hsay | ⟨hfirst, hna⟩
    · exact (h.unshipped_conn hund hc hunshipped).imp_left Or.inl
    all_goals left; right
    · rcases h.frame_cases ha hfine hc with ⟨-, -, -, -, hsame⟩ | ⟨-, -, -, hsame⟩ |
        ⟨-, hnone, hmessage⟩ | ⟨-, -, hsome, -⟩
      · exact .inl ((hsame harr).symm ▸ hqueued)
      · exact .inl (hsame.symm ▸ hqueued)
      · right; left
        rw [hmessage, hnone, if_neg (Option.some_ne_none _)]
        exact List.mem_cons_of_mem _ List.mem_cons_self
      · obtain ⟨f, hf⟩ := Option.ne_none_iff_exists'.mp hsome
        exact absurd (h.queued_of_frame hf) hqueued
    · have hbusy : r.conn.frame ≠ none := fun hnone =>
        List.not_mem_nil (h.idle_todo hnone ▸ hsay)
      rcases h.frame_cases ha hfine hc with ⟨hsame, -⟩ | ⟨-, hnone, -⟩ | ⟨-, hnone, -⟩ |
        ⟨-, htodo, -⟩
      · right; left
        rw [if_pos hsame]
        exact hsay
      · exact absurd hnone hbusy
      · exact absurd hnone hbusy
      · rw [htodo] at hsay
        cases hsay
    · rcases h.frame_cases ha hfine hc with ⟨-, -, hsame, -⟩ | ⟨-, hnone, hattached, -⟩ |
        ⟨-, hnone, hmessage⟩ | ⟨-, -, hsome, -⟩
      · right; right
        refine ⟨hfirst, fun hattached => hna ?_⟩
        rw [Attached, ← hsame]
        exact hattached
      · right; left
        rw [hattached, hnone, if_neg (Option.some_ne_none _), Echo.callback, Echo.onConnection,
          if_pos hfirst]
        exact List.mem_cons_self
      · right; left
        rw [hmessage, hnone, if_neg (Option.some_ne_none _)]
        exact List.mem_cons_of_mem _ List.mem_cons_self
      · obtain ⟨f, hf⟩ := Option.ne_none_iff_exists'.mp hsome
        exact absurd (h.attached_of_frame hf) hna
  · exact .inl (.inr (.inl (queued_of_arrival hc harr)))

-- ════════════════════════════════════════════════════════════════════════
-- What a callback does
-- ════════════════════════════════════════════════════════════════════════

theorem unshipped_sendInLoop {c : TcpConn} (h : Working c) (data : Bytes) :
    (c.sendInLoop data).unshipped = c.unshipped ++ data := by
  have hstep : c.step (.send true data) = some (c.sendInLoop data) := rfl
  have hbefore := shipped_append_unshipped h.toSound
  have hafter := shipped_append_unshipped (step_sound h.toSound hstep)
  rw [shipped_sendInLoop h.output, (sent_sendInLoop c data).2.2 h.isOpen, ← hbefore,
    List.append_assoc] at hafter
  exact List.append_cancel_left hafter

theorem Inv.holds_say (h : Inv p r) (acts : List Act) :
    Holds p ⟨r.conn.sendInLoop p.hello, acts⟩ := by
  left
  rw [unshipped_sendInLoop h.working]
  exact List.append_ne_nil_of_right_ne_nil _ p.hello_ne

theorem holds_empty {acts : List Act} (htodo : r.todo = .empty :: acts)
    (hc : r.conn.step (Act.empty.event p r.conn) = some c) (hold : Holds p r) :
    Holds p ⟨c, acts⟩ := by
  obtain ⟨-, ⟨⟩⟩ := Option.ite_none_right_eq_some.mp hc
  refine hold.imp_right (Or.imp_right (Or.imp_left fun hsay => ?_))
  rw [htodo] at hsay
  exact (List.mem_cons.mp hsay).resolve_left (by decide)

-- ════════════════════════════════════════════════════════════════════════
-- The steps of one end
-- ════════════════════════════════════════════════════════════════════════

def Errorless : Event → Prop
  | .conn e => Fine e
  | .act => True

theorem step_inv (h : Inv p r) {e : Event} (hfine : Errorless e) (hs : step p r e = some r') :
    Inv p r' := by
  cases e with
  | conn e =>
    obtain ⟨c, ha, hc, rfl⟩ := step_conn_cases hs
    exact h.conn ha hfine hc
  | act =>
    obtain ⟨a, acts, c, htodo, hc, rfl⟩ := step_act_cases hs
    cases a with
    | empty => exact h.empty htodo hc
    | say =>
      cases hc
      exact h.say htodo

/-- How much this end has to do before it sends again, or waits. -/
def work (r : EchoEnd) : Nat := 3 * r.conn.effort + r.todo.length

theorem length_onConnection (p : Echo) : p.onConnection.length ≤ 1 := by
  simp only [Echo.onConnection]
  split
  · exact Nat.le_refl 1
  · exact Nat.zero_le 1

theorem length_callback (p : Echo) (o : Option Frame) : (p.callback o).length ≤ 2 := by
  cases o with
  | none => exact Nat.zero_le 2
  | some f =>
    cases f with
    | attached => exact (length_onConnection p).trans (Nat.le_succ 1)
    | message => exact Nat.le_refl 2
    | closing | removing => exact Nat.zero_le 2

/-- Every step is work done; only what is sent makes more of it. -/
theorem step_work (h : Inv p r) {e : Event} (hfine : Errorless e) (hs : step p r e = some r') :
    r'.work + 9 * (r.conn.departure ((host p).report e)).length +
        18 * (accepted r.conn.trace).length + 1 ≤
      r.work + 9 * (arrival ((host p).report e)).length + 18 * (accepted r'.conn.trace).length := by
  cases e with
  | conn e =>
    obtain ⟨c, ha, hc, rfl⟩ := step_conn_cases hs
    have hund := h.undisturbed ha hfine hc
    have heffort := TcpConn.step_effort h.working hund hc
    have hacc := accepted_undisturbed h.working hund hc
    have hadv : e.advances = true := by
      cases e with
      | editRecv edit => cases ha
      | _ => rfl
    have htodo : (if c.frame = r.conn.frame then r.todo else p.callback c.frame).length ≤
        r.todo.length + 2 := by
      split
      · exact Nat.le_add_right _ _
      · exact (length_callback p _).trans (Nat.le_add_left _ _)
    have hreport : (host p).report (.conn e) = e.report := rfl
    rw [hadv, Bool.toNat_true] at heffort
    rw [hreport, hacc]
    simp only [work]
    omega
  | act =>
    obtain ⟨a, acts, c, htodo, hc, rfl⟩ := step_act_cases hs
    have hreport : (host p).report .act = none := rfl
    rw [hreport]
    simp only [work, htodo, List.length_cons]
    cases a with
    | empty =>
      have hund : TcpConn.Undisturbed r.conn (Act.empty.event p r.conn) c :=
        ⟨_, true, rfl, Nat.le_refl _⟩
      have heffort := TcpConn.step_effort h.working hund hc
      have hacc := accepted_undisturbed h.working hund hc
      have hquiet : (Act.empty.event p r.conn).report = none := rfl
      rw [hquiet] at heffort
      rw [hacc]
      omega
    | say =>
      obtain rfl : r.conn.sendInLoop p.hello = c := Option.some.inj hc
      have hacc := (sent_sendInLoop r.conn p.hello).2.2 h.working.isOpen
      have hnone : r.conn.departure none = [] := rfl
      have harr : arrival none = [] := rfl
      rw [hnone, harr, hacc, TcpConn.effort, TcpConn.effort, chores_sendInLoop h.working,
        unshipped_sendInLoop h.working, List.length_append, List.length_append, List.length_nil]
      omega

/-- The turn stays at this end, or goes to the network. -/
theorem step_holds (h : Inv p r) {e : Event} (hfine : Errorless e) (hs : step p r e = some r')
    (hold : Holds p r ∨ arrival ((host p).report e) ≠ []) :
    Holds p r' ∨ r.conn.departure ((host p).report e) ≠ [] := by
  cases e with
  | conn e =>
    obtain ⟨c, ha, hc, rfl⟩ := step_conn_cases hs
    have harr : arrival ((host p).report (.conn e)) = e.arrival := arrival_report e
    rw [harr] at hold
    exact h.holds_conn ha hfine hc hold
  | act =>
    left
    obtain ⟨a, acts, c, htodo, hc, rfl⟩ := step_act_cases hs
    cases a with
    | empty => exact holds_empty htodo hc (hold.resolve_right (absurd rfl))
    | say =>
      cases hc
      exact h.holds_say acts

theorem frame_of_empty {o : Option Frame} (h : .empty ∈ p.callback o) : o = some .message := by
  cases o with
  | none => cases h
  | some f =>
    cases f with
    | attached =>
      simp only [Echo.callback, Echo.onConnection] at h
      split at h
      · exact absurd (List.mem_singleton.mp h) (by decide)
      · cases h
    | message => rfl
    | closing | removing => cases h

/-- A callback that is under way goes on, or returns. -/
theorem Inv.exists_step (h : Inv p r) (hbusy : r.todo ≠ [] ∨ r.conn.frame ≠ none) :
    ∃ e r', step p r e = some r' ∧ Errorless e ∧ (host p).report e = none := by
  cases htodo : r.todo with
  | cons a acts =>
    suffices hstep : ∃ c, r.conn.step (a.event p r.conn) = some c by
      obtain ⟨c, hc⟩ := hstep
      exact ⟨.act, ⟨c, acts⟩, step_act htodo hc, trivial, rfl⟩
    cases a with
    | say => exact ⟨_, rfl⟩
    | empty =>
      have hmem : .empty ∈ p.callback r.conn.frame := h.todo.subset (htodo ▸ List.mem_cons_self)
      exact ⟨_, if_pos (frame_of_empty hmem)⟩
  | nil =>
    obtain ⟨f, hf⟩ := Option.ne_none_iff_exists'.mp (hbusy.resolve_left (absurd htodo))
    have hresume : r.conn.step .resume = some (r.conn.resume f) := by
      simp only [TcpConn.step, hf, Option.map_some]
    exact ⟨.conn .resume, _, step_conn (List.isEmpty_iff.mpr htodo) hresume, trivial, rfl⟩

/-- The callback that says the greeting has been called. -/
def greetings (p : Echo) (c : TcpConn) : Nat :=
  if .onAttachedToLoop ∈ c.posted then 0 else p.onConnection.count .say

theorem greetings_congr {c d : TcpConn} (h : c.posted = d.posted) :
    greetings p c = greetings p d := by
  rw [greetings, greetings, h]

/-- Only hellos were said, one for each read; one of them may still have to be. -/
structure Answers (p : Echo) (r : EchoEnd) : Prop where
  taken : accepted r.conn.trace = (sent r.conn.trace).flatten
  said : ∃ n, sent r.conn.trace = List.replicate n p.hello ∧
    n + r.todo.count .say = (reads r.conn.trace).length + greetings p r.conn
  solid : ∀ room data, r.conn.reading = some ⟨room, some (.ok data)⟩ → data ≠ []
  whole : ∀ data ∈ reads r.conn.trace, data ≠ []

/-- The connection sends nothing by itself. -/
theorem Inv.sent_conn (h : Inv p r) (ha : r.allows e = true) (hc : r.conn.step e = some c) :
    sent c.trace = sent r.conn.trace := by
  rcases step_sent hc with ⟨-, hs⟩ | ⟨data, hp, -⟩
  · exact hs.sent
  · cases e with
    | runPosted =>
      obtain ⟨f, fs, hposted, -, -⟩ := runPosted_cases hc
      obtain rfl : f = .onAttachedToLoop := h.posted f (hposted ▸ List.mem_cons_self)
      rw [payload, hposted] at hp
      cases hp
    | send => cases ha
    | _ => cases hp

/-- The bytes of a read that has room are not none. -/
theorem Inv.solid_conn (h : Inv p r) (hs : ∀ room data,
    r.conn.reading = some ⟨room, some (.ok data)⟩ → data ≠ []) (ha : r.allows e = true)
    (hfine : Fine e) (hc : r.conn.step e = some c) :
    ∀ room data, c.reading = some ⟨room, some (.ok data)⟩ → data ≠ [] := by
  have hund := h.undisturbed ha hfine hc
  suffices hread : c.reading = r.conn.reading ∨
      ∀ room data, c.reading = some ⟨room, some (.ok data)⟩ → data ≠ [] by
    rcases hread with hsame | hsolid
    · rw [hsame]
      exact hs
    · exact hsolid
  cases e with
  | readReady res =>
    right
    obtain ⟨room, -, hfits, rfl⟩ := readReady_cases hc
    rintro room' data ⟨⟩
    exact List.ne_nil_of_length_pos (of_decide_eq_true hfits).1
  | writeReady res =>
    obtain ⟨region, -, -, rfl⟩ := writeReady_cases hc
    exact .inl rfl
  | runPosted =>
    left
    obtain ⟨f, fs, hp, -, rfl⟩ := runPosted_cases hc
    obtain rfl : f = .onAttachedToLoop := h.posted f (hp ▸ List.mem_cons_self)
    simp only [runFunctor, onAttachedToLoop, emit]
    split
    · rfl
    · rfl
  | handleRead =>
    right
    obtain ⟨room, res, hr, -, hd⟩ := startRead_cases hc
    rw [(handled_input hr hd).2.1]
    rintro room' data ⟨⟩
  | handleWrite =>
    left
    obtain ⟨region, res, hop, -, rfl⟩ := startWrite_cases hc
    obtain ⟨n, rfl⟩ := ok_of_not_writeFailed hop h.working.writing
    obtain ⟨_, _, _, _, _, he, -⟩ := outputOnly_handleWrite
      { r.conn with writing := none, trace := r.conn.trace ++ [.handleWrite region (.ok n)] } n
    rw [he]
  | resume =>
    right
    obtain ⟨f, hf, rfl⟩ := Option.map_eq_some_iff.mp hc
    have hopen := @asyncRead_open { r.conn with frame := none } h.working.isOpen hund
    have hread : (r.conn.resume f).reading = some ⟨r.conn.recvBuffer.validSize, none⟩ := by
      rcases h.working.frame hf with rfl | rfl
      · exact congrArg TcpConn.reading hopen
      · exact congrArg TcpConn.reading hopen
    rw [hread]
    rintro room data ⟨⟩
  | _ => cases ha

theorem Inv.reads_conn (h : Inv p r) (ha : r.allows e = true) (hfine : Fine e)
    (hc : r.conn.step e = some c) : (e ≠ .handleRead ∧ reads c.trace = reads r.conn.trace) ∨
    ∃ room data, e = .handleRead ∧ r.conn.reading = some ⟨room, some (.ok data)⟩ ∧
      reads c.trace = reads r.conn.trace ++ [data] := by
  by_cases he : e = .handleRead
  · subst he
    obtain ⟨room, res, hr, hidle, hd⟩ := startRead_cases hc
    obtain ⟨data, rfl⟩ := ok_of_not_failed hr h.working.reading
    obtain ⟨-, -, t, ht, hn⟩ := handled_input hr hd
    have hcons : reads (.handleRead (.ok data) :: t) = data :: reads t := rfl
    refine .inr ⟨room, data, rfl, hr, ?_⟩
    rw [ht, reads_append, hcons, reads_eq_nil hn]
  · refine .inl ⟨he, (step_input_same h.working.live he ?_ hc).2⟩
    rintro edit rfl
    cases ha

/-- With a read, and with the greeting, one hello more is to be said. -/
theorem Inv.count_conn (hi : Inv p r) (ha : r.allows e = true) (hfine : Fine e)
    (hc : r.conn.step e = some c) {n : Nat}
    (hcount : n + r.todo.count .say = (reads r.conn.trace).length + greetings p r.conn) :
    n + (if c.frame = r.conn.frame then r.todo else p.callback c.frame).count .say =
      (reads c.trace).length + greetings p c := by
  have hposted := step_posted hc
  rcases hi.reads_conn ha hfine hc with ⟨hne, hreads⟩ | ⟨room, data, rfl, -, hreads⟩
  · rw [hreads]
    rcases hi.frame_cases ha hfine hc with ⟨hsame, -, hq, -⟩ | ⟨rfl, hnone, hattached, -⟩ |
      ⟨he, -⟩ | ⟨rfl, htodo, hsome, hnone⟩
    · rw [if_pos hsame, hcount, greetings_congr hq]
    · obtain ⟨f, fs, hp, -, -⟩ := runPosted_cases hc
      obtain rfl : f = .onAttachedToLoop := hi.posted f (hp ▸ List.mem_cons_self)
      have hna : ¬r.conn.Attached := fun hattached => hattached (hp ▸ List.mem_cons_self)
      obtain ⟨fs', hp', hfs, -⟩ := hi.working.live.unattached hna
      obtain rfl := List.tail_eq_of_cons_eq (hp.symm.trans hp')
      have hbefore : greetings p r.conn = 0 := if_pos (hp ▸ List.mem_cons_self)
      have hafter : greetings p c = p.onConnection.count .say := by
        refine if_neg ?_
        rw [hposted, hp]
        exact hfs
      rw [hi.idle_todo hnone, List.count_nil, hbefore] at hcount
      rw [hattached, hnone, if_neg (Option.some_ne_none _), hafter, Echo.callback]
      omega
    · exact absurd he hne
    · rw [hnone, if_neg hsome.symm, greetings_congr hposted, ← hcount, htodo]
      rfl
  · rcases hi.frame_cases ha hfine hc with ⟨-, -, -, hne, -⟩ | ⟨he, -⟩ | ⟨-, hnone, hmessage⟩ |
      ⟨he, -⟩
    · exact absurd rfl hne
    · cases he
    · rw [hi.idle_todo hnone, List.count_nil] at hcount
      have hsay : Echo.onMessage.count .say = 1 := rfl
      rw [hmessage, hnone, if_neg (Option.some_ne_none _), Echo.callback, hsay, hreads,
        List.length_append, List.length_singleton, greetings_congr hposted]
      omega
    · cases he

theorem Answers.conn (h : Answers p r) (hi : Inv p r) (ha : r.allows e = true) (hfine : Fine e)
    (hc : r.conn.step e = some c) :
    Answers p ⟨c, if c.frame = r.conn.frame then r.todo else p.callback c.frame⟩ := by
  obtain ⟨n, hsent, hcount⟩ := h.said
  have hund := hi.undisturbed ha hfine hc
  have hsame := hi.sent_conn ha hc
  refine ⟨?_, ⟨n, hsame.trans hsent, hi.count_conn ha hfine hc hcount⟩,
    hi.solid_conn h.solid ha hfine hc, ?_⟩
  · show accepted c.trace = (sent c.trace).flatten
    rw [accepted_undisturbed hi.working hund hc, hsame]
    exact h.taken
  · show ∀ data ∈ reads c.trace, data ≠ []
    rcases hi.reads_conn ha hfine hc with ⟨-, hreads⟩ | ⟨room, data, -, hr, hreads⟩
    · rw [hreads]
      exact h.whole
    · rw [hreads]
      refine List.forall_mem_append.mpr ⟨h.whole, fun data' hmem => ?_⟩
      rw [List.mem_singleton.mp hmem]
      exact h.solid room data hr

theorem Answers.empty (h : Answers p r) {acts : List Act} (htodo : r.todo = .empty :: acts)
    (hc : r.conn.step (Act.empty.event p r.conn) = some c) : Answers p ⟨c, acts⟩ := by
  obtain ⟨n, hsent, hcount⟩ := h.said
  obtain ⟨-, ⟨⟩⟩ := Option.ite_none_right_eq_some.mp hc
  rw [htodo, List.count_cons_of_ne (by decide)] at hcount
  exact ⟨h.taken, ⟨n, hsent, hcount⟩, h.solid, h.whole⟩

theorem Answers.say (h : Answers p r) (hi : Inv p r) {acts : List Act}
    (htodo : r.todo = .say :: acts) : Answers p ⟨r.conn.sendInLoop p.hello, acts⟩ := by
  obtain ⟨n, hsent, hcount⟩ := h.said
  obtain ⟨hsent', -, hacc⟩ := sent_sendInLoop r.conn p.hello
  have hout := outputOnly_sendInLoop r.conn p.hello
  obtain ⟨t, ht, hn⟩ := hout.inputSame.spares
  obtain ⟨_, _, _, _, _, he, -⟩ := hout
  have hreads : reads (r.conn.sendInLoop p.hello).trace = reads r.conn.trace := by
    rw [ht, reads_append, reads_eq_nil hn, List.append_nil]
  refine ⟨?_, ⟨n + 1, ?_, ?_⟩, ?_, ?_⟩
  · show accepted (r.conn.sendInLoop p.hello).trace = _
    rw [hacc hi.working.isOpen, hsent', List.flatten_append, h.taken]
    simp
  · show sent (r.conn.sendInLoop p.hello).trace = _
    rw [hsent', hsent, List.replicate_succ']
  · have hposted : (r.conn.sendInLoop p.hello).posted = r.conn.posted := by rw [he]
    rw [htodo, List.count_cons_self] at hcount
    show n + 1 + acts.count .say = _
    rw [hreads, greetings_congr hposted, ← hcount]
    omega
  · have hreading : (r.conn.sendInLoop p.hello).reading = r.conn.reading := by rw [he]
    rw [hreading]
    exact h.solid
  · show ∀ data ∈ reads (r.conn.sendInLoop p.hello).trace, data ≠ []
    rw [hreads]
    exact h.whole

theorem step_answers (h : Answers p r) (hi : Inv p r) {e : Event} (hfine : Errorless e)
    (hs : step p r e = some r') : Answers p r' := by
  cases e with
  | conn e =>
    obtain ⟨c, ha, hc, rfl⟩ := step_conn_cases hs
    exact h.conn hi ha hfine hc
  | act =>
    obtain ⟨a, acts, c, htodo, hc, rfl⟩ := step_act_cases hs
    cases a with
    | empty => exact h.empty htodo hc
    | say =>
      cases hc
      exact h.say hi htodo

end EchoEnd

-- ════════════════════════════════════════════════════════════════════════
-- Two ends
-- ════════════════════════════════════════════════════════════════════════

open EchoEnd

/-- Two programs that talk to each other. -/
abbrev Echoes := Link EchoEnd EchoEnd

namespace Echoes

abbrev Event := Link.Event EchoEnd.Event EchoEnd.Event

def step (p q : Echo) : Echoes → Event → Option Echoes := Link.step (host p) (host q)

/-- The network reports no error, and neither end closes. -/
def Errorless (_ : Echoes) (e : Event) (_ : Echoes) : Prop :=
  match e with
  | .left e => EchoEnd.Errorless e
  | .right e => EchoEnd.Errorless e

/-- There is something to send or to answer at one of the ends, or on the way. -/
def Turn (p q : Echo) (l : Echoes) : Prop :=
  (Holds p l.left ∨ l.toLeft.pending ≠ []) ∨ Holds q l.right ∨ l.toRight.pending ≠ []

/-- What holds of two ends to which no error has been reported. -/
structure Talking (p q : Echo) (l : Echoes) : Prop where
  left : Inv p l.left
  right : Inv q l.right
  sound : Link.Sound (host p) (host q) l
  turn : Turn p q l

variable {p q : Echo} {l l' : Echoes}

theorem Talking.swap (h : Talking p q l) : Talking q p l.swap :=
  ⟨h.right, h.left, h.sound.swap, h.turn.symm⟩

theorem step_left_cases {e : EchoEnd.Event} (hs : step p q l (.left e) = some l') : ∃ r,
    EchoEnd.step p l.left e = some r ∧ l' = { l with
      left := r
      toRight := l.toRight.push (l.left.conn.departure ((host p).report e))
      toLeft := l.toLeft.pop (arrival ((host p).report e)).length } := by
  obtain ⟨-, hmap⟩ := Option.ite_none_right_eq_some.mp hs
  obtain ⟨r, hr, rfl⟩ := Option.map_eq_some_iff.mp hmap
  exact ⟨r, hr, rfl⟩

theorem step_swap {e : Event} (hs : step p q l e = some l') :
    step q p l.swap e.swap = some l'.swap :=
  Link.swap_some hs

theorem talking_left {e : EchoEnd.Event} (h : Talking p q l) (hfine : EchoEnd.Errorless e)
    (hs : step p q l (.left e) = some l') : Talking p q l' := by
  obtain ⟨r, hr, rfl⟩ := step_left_cases hs
  refine ⟨step_inv h.left hfine hr, h.right, Link.step_sound h.sound hs, ?_⟩
  -- what leaves one end is on its way to the other one
  have hmoved : Holds p r ∨ l.left.conn.departure ((host p).report e) ≠ [] →
      Turn p q { l with
        left := r
        toRight := l.toRight.push (l.left.conn.departure ((host p).report e))
        toLeft := l.toLeft.pop (arrival ((host p).report e)).length } := by
    rintro (hold | hdep)
    · exact .inl (.inl hold)
    · exact .inr (.inr (List.append_ne_nil_of_right_ne_nil _ hdep))
  by_cases harr : arrival ((host p).report e) = []
  · rcases h.turn with (hold | hfrom) | hold | hto
    · exact hmoved (step_holds h.left hfine hr (.inl hold))
    · rw [harr]
      exact .inl (.inr hfrom)
    · exact .inr (.inl hold)
    · exact .inr (.inr (List.append_ne_nil_of_left_ne_nil hto _))
  · exact hmoved (step_holds h.left hfine hr (.inr harr))

theorem step_talking (l : Echoes) (e : Event) (l' : Echoes) (h : Talking p q l)
    (hg : Errorless l e l') (hs : step p q l e = some l') : Talking p q l' := by
  cases e with
  | left e => exact talking_left h hg hs
  | right e => exact (talking_left h.swap hg (step_swap hs)).swap

-- ════════════════════════════════════════════════════════════════════════
-- There is always something to do
-- ════════════════════════════════════════════════════════════════════════

/-- The step can be taken without an error. -/
def Able (p q : Echo) (l : Echoes) : Prop := ∃ e l', step p q l e = some l' ∧ Errorless l e l'

theorem Able.swap (h : Able q p l.swap) : Able p q l := by
  obtain ⟨e, l', hs, hg⟩ := h
  refine ⟨e.swap, l'.swap, step_swap hs, ?_⟩
  cases e with
  | left e => exact hg
  | right e => exact hg

theorem Talking.sustained (h : Talking p q l) :
    Pair.Sustained (accepted l.left.conn.trace) (accepted l.right.conn.trace)
      ⟨l.left.conn, l.right.conn, l.toRight, l.toLeft⟩ := by
  have hfed : Link.Fed (host p) (host q) l := by
    refine ⟨h.sound, ?_, ?_⟩
    · rintro c ⟨⟩
      exact h.left.working.toFedInv
    · rintro c ⟨⟩
      exact h.right.working.toFedInv
  exact (hfed.sustained rfl rfl h.left.working.toAble h.right.working.toAble).2

/-- How much there is to do before both ends have nothing but to wait. -/
def work (l : Echoes) : Nat :=
  l.left.work + l.right.work + 9 * (l.toRight.pending.length + l.toLeft.pending.length)

/-- How many bytes the two programs have sent. -/
def said (l : Echoes) : Nat :=
  (accepted l.left.conn.trace).length + (accepted l.right.conn.trace).length

theorem work_swap (l : Echoes) : work l.swap = work l := by
  simp only [work, Link.swap]
  omega

theorem said_swap (l : Echoes) : said l.swap = said l := Nat.add_comm _ _

theorem work_left {e : EchoEnd.Event} (h : Talking p q l) (hfine : EchoEnd.Errorless e)
    (hs : step p q l (.left e) = some l') : work l' + 18 * said l + 1 ≤ work l + 18 * said l' := by
  obtain ⟨hreport, -⟩ := Option.ite_none_right_eq_some.mp hs
  obtain ⟨r, hr, rfl⟩ := step_left_cases hs
  have hwork := step_work h.left hfine hr
  have harr := (arrival_in_front hreport).length_le
  simp only [work, said, Channel.push, Channel.pop, List.length_append, List.length_drop]
  omega

theorem step_work (l : Echoes) (e : Event) (l' : Echoes) (h : Talking p q l)
    (hg : Errorless l e l') (hs : step p q l e = some l') :
    Talking p q l' ∧ work l' + 18 * said l + 1 ≤ work l + 18 * said l' := by
  refine ⟨step_talking l e l' h hg hs, ?_⟩
  cases e with
  | left e => exact work_left h hg hs
  | right e =>
    have hswap := work_left h.swap hg (step_swap hs)
    rwa [work_swap, work_swap, said_swap, said_swap] at hswap

-- ════════════════════════════════════════════════════════════════════════
-- The conversation
-- ════════════════════════════════════════════════════════════════════════

/-- A connection as the client or the server hands it to its loop, with both callbacks. -/
def Starting (r : EchoEnd) : Prop := ∃ name type connFn msgFn closeFn,
  r = ⟨handedOver name type (some connFn) (some msgFn) closeFn, []⟩

structure Start (l : Echoes) : Prop where
  left : Starting l.left
  right : Starting l.right
  toRight : l.toRight = .empty
  toLeft : l.toLeft = .empty

/-- A client that has been connected, and the connection that the server has made. -/
def connected : Echoes :=
  ⟨⟨handedOver "client" .kOutgoing (some 0) (some 1) .onRemoveConn, []⟩,
    ⟨handedOver "server-conn#0" .kIncoming (some 0) (some 1) .removeConn, []⟩, .empty, .empty⟩

theorem start_connected : Start connected :=
  ⟨⟨_, _, _, _, _, rfl⟩, ⟨_, _, _, _, _, rfl⟩, rfl, rfl⟩

theorem run_connected : ∃ l, Runs (step Echo.client Echo.server) Errorless connected
    [.left (.conn .runPosted), .left .act] l := by
  let c : TcpConn := attaching "client" .kOutgoing 0 (some 1) .onRemoveConn
  let l₁ : Echoes := { connected with left := ⟨c, [.say]⟩ }
  have hattach : EchoEnd.step Echo.client connected.left (.conn .runPosted) = some l₁.left := rfl
  have hsay : EchoEnd.step Echo.client l₁.left .act =
      some ⟨c.sendInLoop Echo.client.hello, []⟩ := @step_say Echo.client l₁.left [] rfl
  have hone : step Echo.client Echo.server connected (.left (.conn .runPosted)) = some l₁ :=
    Link.step_left_quiet rfl hattach
  have htwo : step Echo.client Echo.server l₁ (.left .act) =
      some { l₁ with left := ⟨c.sendInLoop Echo.client.hello, []⟩ } := Link.step_left_quiet rfl hsay
  exact ⟨_, .cons hone trivial (.single htwo trivial)⟩

theorem inv_starting {r : EchoEnd} (h : Starting r) : Inv p r := by
  obtain ⟨name, type, connFn, msgFn, closeFn, rfl⟩ := h
  refine ⟨⟨fedInv_initial ⟨_, _, _, _, _, rfl⟩, rfl, rfl, ?_, rfl, rfl⟩, ?_, List.suffix_rfl, ?_⟩
  · exact ⟨Option.some_ne_none _, Option.some_ne_none _⟩
  · exact fun f hf => List.mem_singleton.mp hf
  · exact fun _ hf => absurd rfl hf

theorem Start.initial (h : Start l) : Link.Initial (host p) (host q) l := by
  refine ⟨?_, ?_, h.toRight, h.toLeft⟩
  · rintro c ⟨⟩
    obtain ⟨name, type, connFn, msgFn, closeFn, hl⟩ := h.left
    exact ⟨name, type, some connFn, some msgFn, closeFn, congrArg EchoEnd.conn hl⟩
  · rintro c ⟨⟩
    obtain ⟨name, type, connFn, msgFn, closeFn, hl⟩ := h.right
    exact ⟨name, type, some connFn, some msgFn, closeFn, congrArg EchoEnd.conn hl⟩

theorem work_starting {r : EchoEnd} (h : Starting r) :
    r.work = 6 ∧ accepted r.conn.trace = [] := by
  have hsound := (@inv_starting Echo.client r h).working.toSound
  obtain ⟨name, type, connFn, msgFn, closeFn, rfl⟩ := h
  have hnil := List.append_eq_nil_iff.mp (shipped_append_unshipped hsound)
  refine ⟨?_, rfl⟩
  simp only [EchoEnd.work, TcpConn.effort, hnil.2]
  rfl

/-- What an end has said that was sent so many bytes. -/
def Speaks (p : Echo) (r : EchoEnd) (heard : Nat) : Prop :=
  ∃ n, sent r.conn.trace = List.replicate n p.hello ∧
    n + r.todo.count .say = (reads r.conn.trace).length + greetings p r.conn ∧
    (reads r.conn.trace).length ≤ heard

theorem Start.work (h : Start l) : Echoes.work l = 12 ∧ said l = 0 := by
  obtain ⟨hleft, hacc⟩ := work_starting h.left
  obtain ⟨hright, hacc'⟩ := work_starting h.right
  refine ⟨?_, ?_⟩
  · rw [Echoes.work, hleft, hright, h.toRight, h.toLeft]
    rfl
  · rw [said, hacc, hacc']
    rfl

/-- What holds of two ends, whoever greets. -/
structure Answering (p q : Echo) (l : Echoes) : Prop where
  left : Inv p l.left ∧ Answers p l.left
  right : Inv q l.right ∧ Answers q l.right
  sound : Link.Sound (host p) (host q) l

theorem Answering.swap (h : Answering p q l) : Answering q p l.swap :=
  ⟨h.right, h.left, h.sound.swap⟩

theorem answering_left {e : EchoEnd.Event} (h : Answering p q l) (hfine : EchoEnd.Errorless e)
    (hs : step p q l (.left e) = some l') : Answering p q l' := by
  obtain ⟨r, hr, rfl⟩ := step_left_cases hs
  obtain ⟨hi, ha⟩ := h.left
  exact ⟨⟨step_inv hi hfine hr, step_answers ha hi hfine hr⟩, h.right, Link.step_sound h.sound hs⟩

theorem step_answering (l : Echoes) (e : Event) (l' : Echoes) (h : Answering p q l)
    (hg : Errorless l e l') (hs : step p q l e = some l') : Answering p q l' := by
  cases e with
  | left e => exact answering_left h hg hs
  | right e => exact (answering_left h.swap hg (step_swap hs)).swap

theorem answers_starting {r : EchoEnd} (h : Starting r) : Answers p r := by
  obtain ⟨name, type, connFn, msgFn, closeFn, rfl⟩ := h
  refine ⟨rfl, ⟨0, rfl, rfl⟩, ?_, ?_⟩
  · rintro room data ⟨⟩
  · exact fun data hmem => absurd hmem List.not_mem_nil

theorem answering_start (h : Start l) : Answering p q l :=
  ⟨⟨inv_starting h.left, answers_starting h.left⟩,
    ⟨inv_starting h.right, answers_starting h.right⟩, Link.sound_initial h.initial⟩

theorem length_reads_le {t : List Obs} (h : ∀ data ∈ reads t, data ≠ []) :
    (reads t).length ≤ (received t).length := by
  have hpos : ∀ k ∈ (reads t).map List.length, 1 ≤ k := by
    intro k hk
    obtain ⟨data, hmem, rfl⟩ := List.mem_map.mp hk
    exact List.length_pos_iff.mpr (h data hmem)
  have hle := List.length_le_sum_of_one_le _ hpos
  rwa [List.length_map, ← List.length_flatten, flatten_reads] at hle

/-- There are no more reads than bytes of the other end. -/
theorem Answering.speaks_left (h : Answering p q l) :
    Speaks p l.left (accepted l.right.conn.trace).length := by
  obtain ⟨n, hsent, hcount⟩ := h.left.2.said
  refine ⟨n, hsent, hcount, (length_reads_le h.left.2.whole).trans ?_⟩
  have hall : Accounted l.right.conn l.left.conn l.toLeft :=
    h.sound.toLeft.accounted h.right.1.working.toEndInv
  have hlength := congrArg List.length hall
  simp only [List.length_append] at hlength
  omega

/-- **One hello for each read**: in every order of steps without an error, each end has
said nothing but its hello, once for every read and once for the greeting, the one in
hand not yet; however the stream of the other end was cut into reads. -/
theorem one_hello_per_read {l₀ : Echoes} {es : List Event} (h₀ : Start l₀)
    (hr : Runs (step p q) Errorless l₀ es l) :
    Speaks p l.left (accepted l.right.conn.trace).length ∧
      Speaks q l.right (accepted l.left.conn.trace).length := by
  have h := hr.invariant step_answering (@answering_start p q l₀ h₀)
  exact ⟨h.speaks_left, h.swap.speaks_left⟩

theorem one_hello_per_read_connected : ∃ l, Runs (step Echo.client Echo.server) Errorless connected
    [.left (.conn .runPosted), .left .act] l ∧
    Speaks Echo.client l.left (accepted l.right.conn.trace).length ∧
      Speaks Echo.server l.right (accepted l.left.conn.trace).length := by
  obtain ⟨l, hr⟩ := run_connected
  exact ⟨l, hr, one_hello_per_read start_connected hr⟩

end Echoes

end Libasio
