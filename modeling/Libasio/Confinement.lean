import Libasio.Threads

/-!
# Thread confinement

Every function that asserts `IsInLoopThread()` gets to its thread by one of three ways: the
queue of the loop, which only the thread inside of `Run` takes from; a test
`IsInLoopThread()` that has been passed; or a call by a function that is in the
loop's thread already. The first and the third stay good, since the thread inside
of `Run` is the loop's thread for ever. The second is good as long as nobody enters
`Run` between the test and the assertion.

## Main definitions

- `Threads.Fn.home`, `Threads.Fn.tested` — the loop whose thread must execute a function:
  the thread inside of its `Run`, or whoever passes its test
- `Threads.System.Confined` — the invariant over threads, loops, queues and connections

## Main results

- `Threads.System.Confined.body_ok` — a function that is ready to be executed leads to
  statements that are
-/

namespace Libasio.Threads

/-- The loop inside of whose `Run` the function is executed. -/
def Fn.home : Fn → Option LoopId
  | .closeFunctor c | .handleClose c | .handleError c | .closeFn c | .onAttachedToLoop c
  | .handleRead c | .handleWrite c | .sendStringInLoop c | .sendInLoop c => some c.loop
  | .acceptHandler sv _ _ | .handleNewConn sv _ _ => some sv.loop
  | .connectHandler k | .handleConn k | .onRemoveConn k _ => some k.loop
  | _ => none

/-- The loop whose `IsInLoopThread()` lets a thread into the function, possibly before
any thread has entered `Run`. -/
def Fn.tested : Fn → Option LoopId
  | .removeConnFunctor sv _ => some sv.loop
  | .disconnectInLoop k => some k.loop
  | _ => none

namespace System

variable {s s' : System} {X : ThreadId} {l : LoopId} {f : Fn}

-- ════════════════════════════════════════════════════════════════════════
-- The invariant
-- ════════════════════════════════════════════════════════════════════════

/-- Some thread has entered `Run` of the loop. -/
def Entered (s : System) (l : LoopId) : Prop := ∃ X, (s.loop l).runner = some X

/-- The arguments of a function are objects that there are, and the socket of an accept
belongs to the loop it comes with. -/
def Valid (s : System) : Fn → Prop
  | .close c | .closeFunctor c | .handleClose c | .handleError c | .closeFn c
  | .onAttachedToLoop c | .asyncRead c | .asyncWrite c | .handleRead c | .handleWrite c
  | .send c | .sendOutsideLoop c | .sendStringInLoop c | .sendInLoop c => c ∈ s.conns
  | .start sv | .stop sv | .stopInLoop sv | .asyncAccept sv
  | .removeConn sv _ | .removeConnFunctor sv _ => sv ∈ s.servers
  | .acceptHandler sv socket loop | .handleNewConn sv socket loop =>
    sv ∈ s.servers ∧ socket = loop ∧ (loop = sv.loop ∨ s.Entered loop)
  | .connect k | .connectHandler k | .reconnect k | .disconnect k | .disconnectInLoop k
  | .closeConn k | .handleConn k | .onRemoveConn k _ => k ∈ s.clients
  | .run l => l < s.loops
  | .loopStop _ | .loopStopInLoop _ | .user | .runUser _ | .queueUser _ => True

/-- Thread `X` can begin the function. -/
structure Ready (s : System) (X : ThreadId) (f : Fn) : Prop where
  valid : s.Valid f
  home : ∀ l, f.home = some l → (s.loop l).runner = some X
  tested : ∀ l, f.tested = some l → (s.loop l).tid = X

/-- The function can be put into the queue of the loop. -/
structure Posted (s : System) (l : LoopId) (f : Fn) : Prop where
  valid : s.Valid f
  home : ∀ l', f.home = some l' → l' = l
  tested : ∀ l', f.tested = some l' → l' = l

/-- The function can be given to `RunInLoop` of the loop. -/
structure Sent (s : System) (l : LoopId) (f : Fn) : Prop extends s.Posted l f where
  entered : ∀ l', f.home = some l' → s.Entered l'

/-- The object to which `close_fn_` is bound, for a connection of loop `l`. -/
def OwnerOk (s : System) (l : LoopId) : Owner → Prop
  | .server sv => sv ∈ s.servers
  | .client k => k ∈ s.clients ∧ k.loop = l

structure ConnOk (s : System) (c : Conn) : Prop where
  socket : c.socket = c.loop
  entered : s.Entered c.loop
  owner : s.OwnerOk c.loop c.closeFn

/-- Thread `X` can execute the statement, whatever the threads do before it does. -/
def StmtOk (s : System) (X : ThreadId) : Stmt → Prop
  | .assertInLoop _ l => (s.loop l).tid = X ∧ l < s.loops
  | .call f => s.Ready X f ∧ f.tested = none
  | .ifInLoop l f g =>
    s.Sent l f ∧ f.tested = none ∧ s.Valid g ∧ g.home = none ∧ g.tested = none
  | .runInLoop l f => s.Sent l f
  | .queueInLoop l f => s.Posted l f
  | .callback | .throws | .erase _ _ | .resetConn _ => True
  | .setTid l => l < s.loops
  | .setRunning l | .ioRun l => (s.loop l).runner = some X
  | .startThread sv | .accept sv => sv ∈ s.servers
  | .awaitRunning _ w => w.acceptSocket = w.evLoop
  | .newConn loop socket owner =>
    socket = loop ∧ s.Entered loop ∧ s.OwnerOk loop owner ∧
      ∀ k, owner = .client k → (s.loop loop).runner = some X
  | .insert _ c | .setConn _ c => c ∈ s.conns

def FrameOk (s : System) (X : ThreadId) : Frame → Prop
  | .user => True
  | .ioRun l => (s.loop l).runner = some X
  | .code stmts => ∀ st ∈ stmts, s.StmtOk X st

structure LoopOk (s : System) (l : LoopId) : Prop where
  tid : ∀ X, (s.loop l).runner = some X → (s.loop l).tid = X
  running : (s.loop l).running = true → s.Entered l
  fresh : s.loops ≤ l → (s.loop l).runner = none

structure ServerOk (s : System) (sv : Server) : Prop where
  loop : sv.loop < s.loops
  acceptor : sv.acceptor = sv.loop
  acceptSocket : sv.acceptSocket = sv.loop

structure ClientOk (s : System) (k : Client) : Prop where
  loop : k.loop < s.loops
  socket : k.socket = k.loop
  timer : k.timer = k.loop

structure WorkerOk (s : System) (w : Worker) : Prop where
  acceptSocket : w.acceptSocket = w.evLoop
  entered : s.Entered w.evLoop

/-- The invariant: what the threads are about to do and what the queues hold is done in
the right thread, and the parts of each object belong to one loop. -/
structure Confined (s : System) : Prop where
  loop : ∀ l, s.LoopOk l
  servers : ∀ sv ∈ s.servers, s.ServerOk sv
  clients : ∀ k ∈ s.clients, s.ClientOk k
  workers : ∀ i, ∀ w ∈ (s.pool i).threads, s.WorkerOk w
  conns : ∀ c ∈ s.conns, s.ConnOk c
  connMap : ∀ i, ∀ c ∈ s.connMap i, c ∈ s.conns
  conn : ∀ i c, s.conn i = some c → c ∈ s.conns
  tasks : ∀ l, ∀ f ∈ (s.loop l).tasks, s.Posted l f
  stack : ∀ X, ∀ fr ∈ s.stack X, s.FrameOk X fr
  asserted : ∀ a ∈ s.asserted, a.tid = a.thread

-- ════════════════════════════════════════════════════════════════════════
-- What stays as the system grows
-- ════════════════════════════════════════════════════════════════════════

/-- No object goes away, and the thread inside of `Run` of a loop stays the same. -/
structure Grows (s s' : System) : Prop where
  loops : s.loops ≤ s'.loops
  runner : ∀ l X, (s.loop l).runner = some X → (s'.loop l).runner = some X
  servers : ∀ sv ∈ s.servers, sv ∈ s'.servers
  clients : ∀ k ∈ s.clients, k ∈ s'.clients
  conns : ∀ c ∈ s.conns, c ∈ s'.conns

theorem Entered.grow (h : s.Entered l) (hg : s.Grows s') : s'.Entered l := by
  obtain ⟨X, hX⟩ := h
  exact ⟨X, hg.runner l X hX⟩

theorem Valid.grow (h : s.Valid f) (hg : s.Grows s') : s'.Valid f := by
  cases f with
  | close c | closeFunctor c | handleClose c | handleError c | closeFn c | onAttachedToLoop c
  | asyncRead c | asyncWrite c | handleRead c | handleWrite c | send c | sendOutsideLoop c
  | sendStringInLoop c | sendInLoop c => exact hg.conns c h
  | start sv | stop sv | stopInLoop sv | asyncAccept sv | removeConn sv c
  | removeConnFunctor sv c => exact hg.servers sv h
  | acceptHandler sv socket loop | handleNewConn sv socket loop =>
    obtain ⟨hsv, heq, hl⟩ := h
    exact ⟨hg.servers sv hsv, heq, hl.imp_right fun hl => hl.grow hg⟩
  | connect k | connectHandler k | reconnect k | disconnect k | disconnectInLoop k
  | closeConn k | handleConn k | onRemoveConn k c => exact hg.clients k h
  | run l => exact lt_of_lt_of_le h hg.loops
  | loopStop _ | loopStopInLoop _ | user | runUser _ | queueUser _ => trivial

theorem Posted.grow (h : s.Posted l f) (hg : s.Grows s') : s'.Posted l f :=
  ⟨h.valid.grow hg, h.home, h.tested⟩

theorem Sent.grow (h : s.Sent l f) (hg : s.Grows s') : s'.Sent l f :=
  ⟨h.toPosted.grow hg, fun l' hl' => (h.entered l' hl').grow hg⟩

theorem OwnerOk.grow {o : Owner} (h : s.OwnerOk l o) (hg : s.Grows s') : s'.OwnerOk l o := by
  cases o with
  | server sv => exact hg.servers sv h
  | client k => exact ⟨hg.clients k h.1, h.2⟩

theorem ConnOk.grow {c : Conn} (h : s.ConnOk c) (hg : s.Grows s') : s'.ConnOk c :=
  ⟨h.socket, h.entered.grow hg, h.owner.grow hg⟩

theorem ServerOk.grow {sv : Server} (h : s.ServerOk sv) (hg : s.Grows s') : s'.ServerOk sv :=
  ⟨lt_of_lt_of_le h.loop hg.loops, h.acceptor, h.acceptSocket⟩

theorem ClientOk.grow {k : Client} (h : s.ClientOk k) (hg : s.Grows s') : s'.ClientOk k :=
  ⟨lt_of_lt_of_le h.loop hg.loops, h.socket, h.timer⟩

theorem WorkerOk.grow {w : Worker} (h : s.WorkerOk w) (hg : s.Grows s') : s'.WorkerOk w :=
  ⟨h.acceptSocket, h.entered.grow hg⟩

/-- Only the assertions look at `tid_`, which `Run` overwrites. -/
theorem StmtOk.grow {st : Stmt} (h : s.StmtOk X st) (hg : s.Grows s')
    (ht : ∀ site l, st = .assertInLoop site l → (s.loop l).tid = X → l < s.loops →
      (s'.loop l).tid = X) : s'.StmtOk X st := by
  cases st with
  | assertInLoop site l => exact ⟨ht site l rfl h.1 h.2, lt_of_lt_of_le h.2 hg.loops⟩
  | call f =>
    obtain ⟨hf, hnone⟩ := h
    exact ⟨⟨hf.valid.grow hg, fun l hl => hg.runner l X (hf.home l hl), by simp [hnone]⟩, hnone⟩
  | ifInLoop l f g =>
    obtain ⟨hf, hnone, hgv, hgn⟩ := h
    exact ⟨hf.grow hg, hnone, hgv.grow hg, hgn⟩
  | runInLoop l f => exact Sent.grow h hg
  | queueInLoop l f => exact Posted.grow h hg
  | callback | throws | erase _ _ | resetConn _ => trivial
  | setTid l => exact lt_of_lt_of_le h hg.loops
  | setRunning l | ioRun l => exact hg.runner l X h
  | startThread sv | accept sv => exact hg.servers sv h
  | awaitRunning sv w => exact h
  | newConn loop socket owner =>
    obtain ⟨heq, hl, ho, hk⟩ := h
    exact ⟨heq, hl.grow hg, ho.grow hg, fun k hok => hg.runner loop X (hk k hok)⟩
  | insert _ c | setConn _ c => exact hg.conns c h

theorem FrameOk.grow {fr : Frame} (h : s.FrameOk X fr) (hg : s.Grows s')
    (ht : ∀ stmts, fr = .code stmts → ∀ site l, .assertInLoop site l ∈ stmts →
      (s.loop l).tid = X → l < s.loops → (s'.loop l).tid = X) : s'.FrameOk X fr := by
  cases fr with
  | user => trivial
  | ioRun l => exact hg.runner l X h
  | code stmts =>
    intro st hst
    exact (h st hst).grow hg fun site l heq => ht stmts rfl site l (heq ▸ hst)

-- ════════════════════════════════════════════════════════════════════════
-- Functions and their statements
-- ════════════════════════════════════════════════════════════════════════

/-- The thread that passes the test of an entered loop is the one inside of its `Run`. -/
theorem Confined.runner_of_tid (h : s.Confined) (hl : s.Entered l) (hX : (s.loop l).tid = X) :
    (s.loop l).runner = some X := by
  obtain ⟨Y, hY⟩ := hl
  rwa [← hX, (h.loop l).tid Y hY]

theorem Confined.lt_of_entered (h : s.Confined) (hl : s.Entered l) : l < s.loops := by
  obtain ⟨Y, hY⟩ := hl
  by_contra hge
  simp [(h.loop l).fresh (Nat.le_of_not_lt hge)] at hY

/-- A function from the queue of a loop, in the thread inside of its `Run`. -/
theorem Confined.ready_of_posted (h : s.Confined) (hf : s.Posted l f)
    (hX : (s.loop l).runner = some X) : s.Ready X f := by
  refine ⟨hf.valid, fun l' hl' => ?_, fun l' hl' => ?_⟩
  · rwa [hf.home l' hl']
  · rw [hf.tested l' hl']
    exact (h.loop l).tid X hX

/-- A function that a thread executes at once, since it has passed the test. -/
theorem Confined.ready_of_sent (h : s.Confined) (hf : s.Sent l f) (hX : (s.loop l).tid = X) :
    s.Ready X f := by
  refine ⟨hf.valid, fun l' hl' => ?_, fun l' hl' => ?_⟩
  · have hl : s.Entered l' := hf.entered l' hl'
    rw [hf.home l' hl'] at hl ⊢
    exact h.runner_of_tid hl hX
  · rwa [hf.tested l' hl']

theorem forall_some_of_none {o : Option LoopId} {p : LoopId → Prop} (h : o = none) :
    ∀ l', o = some l' → p l' := by
  rintro l' hl'
  rw [h] at hl'
  cases hl'

theorem forall_some_of_eq {o : Option LoopId} {p : LoopId → Prop} (h : o = some l) (hp : p l) :
    ∀ l', o = some l' → p l' := by
  rintro l' hl'
  obtain rfl : l' = l := Option.some_injective _ (hl'.symm.trans h)
  exact hp

/-- A function that any thread can execute. -/
theorem ready_of_free (hv : s.Valid f) (hl : f.home = none)
    (hnone : f.tested = none) : s.Ready X f :=
  ⟨hv, forall_some_of_none hl, forall_some_of_none hnone⟩

/-- A function of the loop whose `Run` the thread is inside of. -/
theorem ready_of_home (hv : s.Valid f) (hX : (s.loop l).runner = some X)
    (hl : f.home = some l) (hnone : f.tested = none) : s.Ready X f :=
  ⟨hv, forall_some_of_eq hl hX, forall_some_of_none hnone⟩

theorem stmtOk_call_free (hv : s.Valid f) (hl : f.home = none)
    (hnone : f.tested = none) : s.StmtOk X (.call f) :=
  ⟨ready_of_free hv hl hnone, hnone⟩

theorem stmtOk_call_home (hv : s.Valid f) (hX : (s.loop l).runner = some X)
    (hl : f.home = some l) (hnone : f.tested = none) :
    s.StmtOk X (.call f) :=
  ⟨ready_of_home hv hX hl hnone, hnone⟩

theorem posted_free (hv : s.Valid f) (hl : f.home = none)
    (hnone : f.tested = none) : s.Posted l f :=
  ⟨hv, forall_some_of_none hl, forall_some_of_none hnone⟩

theorem posted_home (hv : s.Valid f) (hl : f.home = some l)
    (hnone : f.tested = none) : s.Posted l f :=
  ⟨hv, forall_some_of_eq hl rfl, forall_some_of_none hnone⟩

theorem posted_tested (hv : s.Valid f) (hl : f.home = none)
    (ht : f.tested = some l) : s.Posted l f :=
  ⟨hv, forall_some_of_none hl, forall_some_of_eq ht rfl⟩

/-- Whoever passes the test may execute a function that any thread can. -/
theorem sent_of_posted (h : s.Posted l f) (hl : f.home = none) : s.Sent l f :=
  ⟨h, forall_some_of_none hl⟩

/-- The thread that passes the test of an entered loop is inside of its `Run`. -/
theorem sent_of_entered (h : s.Posted l f) (hl : s.Entered l) : s.Sent l f := by
  refine ⟨h, fun l' hl' => ?_⟩
  rwa [h.home l' hl']

/-- The assertion at the head of a function of the loop whose `Run` the thread is inside of. -/
theorem Confined.assertion_ok (h : s.Confined) (site : Site) (hX : (s.loop l).runner = some X) :
    s.StmtOk X (.assertInLoop site l) :=
  ⟨(h.loop l).tid X hX, h.lt_of_entered ⟨X, hX⟩⟩

theorem forall_mem_pair {p : Stmt → Prop} {st st' : Stmt} :
    (∀ x ∈ [st, st'], p x) ↔ p st ∧ p st' := by simp

theorem Confined.body_handleClose_ok (h : s.Confined) {c : Conn} (b : Nat)
    (hf : s.Ready X (.handleClose c)) : ∀ st ∈ s.body b (.handleClose c), s.StmtOk X st := by
  have hX : (s.loop c.loop).runner = some X := hf.home c.loop rfl
  refine List.forall_mem_cons.mpr ⟨h.assertion_ok _ hX, ?_⟩
  cases b with
  | zero => exact forall_mem_pair.mpr ⟨trivial, stmtOk_call_home hf.valid hX rfl rfl⟩
  | succ b => exact List.forall_mem_nil _

/-- `close_fn_` is bound to the server or the client of the connection's loop. -/
theorem Confined.body_closeFn_ok (h : s.Confined) {c : Conn} (b : Nat)
    (hf : s.Ready X (.closeFn c)) : ∀ st ∈ s.body b (.closeFn c), s.StmtOk X st := by
  have hX : (s.loop c.loop).runner = some X := hf.home c.loop rfl
  have ho : s.OwnerOk c.loop c.closeFn := (h.conns c hf.valid).owner
  obtain ⟨id, name, loop, socket, closeFn⟩ := c
  cases closeFn with
  | server sv => exact List.forall_mem_singleton.mpr (stmtOk_call_free ho rfl rfl)
  | client k =>
    obtain ⟨hk, hloop⟩ := ho
    refine List.forall_mem_singleton.mpr (stmtOk_call_home hk ?_ rfl rfl)
    rwa [hloop]

theorem Confined.body_start_ok {sv : Server} (b : Nat) (hf : s.Ready X (.start sv)) :
    ∀ st ∈ s.body b (.start sv), s.StmtOk X st := by
  have haccept : s.StmtOk X (.call (.asyncAccept sv)) := stmtOk_call_free hf.valid rfl rfl
  cases b with
  | zero =>
    intro st hst
    rcases List.mem_append.mp hst with hst | hst
    · rw [List.eq_of_mem_replicate hst]
      exact hf.valid
    · rw [List.mem_singleton.mp hst]
      exact haccept
  | succ b => exact List.forall_mem_singleton.mpr haccept

/-- `StopInLoop` closes connections and stops loops, which any thread can do. -/
theorem Confined.body_stopInLoop_ok (h : s.Confined) {sv : Server} (b : Nat) :
    ∀ st ∈ s.body b (.stopInLoop sv), s.StmtOk X st := by
  intro st hst
  rcases List.mem_append.mp hst with hst | hst
  · obtain ⟨c, hc, rfl⟩ := List.mem_map.mp hst
    exact stmtOk_call_free (h.connMap sv.id c hc) rfl rfl
  · obtain ⟨w, hw, rfl⟩ := List.mem_map.mp hst
    exact stmtOk_call_free trivial rfl rfl

theorem Confined.body_acceptHandler_ok {sv : Server} {socket loop : LoopId} (b : Nat)
    (hf : s.Ready X (.acceptHandler sv socket loop)) :
    ∀ st ∈ s.body b (.acceptHandler sv socket loop), s.StmtOk X st := by
  have hconn : s.StmtOk X (.call (.handleNewConn sv socket loop)) :=
    stmtOk_call_home hf.valid (hf.home sv.loop rfl) rfl rfl
  have haccept : s.StmtOk X (.call (.asyncAccept sv)) := stmtOk_call_free hf.valid.1 rfl rfl
  rcases b with _ | _ | _ | b
  · exact forall_mem_pair.mpr ⟨hconn, haccept⟩
  · exact List.forall_mem_singleton.mpr hconn
  · exact List.forall_mem_singleton.mpr haccept
  · exact List.forall_mem_nil _

/-- The connection that `HandleNewConn` makes gets the socket of the loop it is given. -/
theorem Confined.body_handleNewConn_ok (h : s.Confined) {sv : Server} {socket loop : LoopId}
    (b : Nat) (hf : s.Ready X (.handleNewConn sv socket loop)) :
    ∀ st ∈ s.body b (.handleNewConn sv socket loop), s.StmtOk X st := by
  obtain ⟨hsv, heq, hl⟩ := hf.valid
  have hX : (s.loop sv.loop).runner = some X := hf.home sv.loop rfl
  have hentered : s.Entered loop := by
    rcases hl with rfl | hl
    · exact ⟨X, hX⟩
    · exact hl
  exact forall_mem_pair.mpr ⟨h.assertion_ok _ hX, heq, hentered, hsv, nofun⟩

theorem Confined.body_handleConn_ok (h : s.Confined) {k : Client} (b : Nat)
    (hf : s.Ready X (.handleConn k)) : ∀ st ∈ s.body b (.handleConn k), s.StmtOk X st := by
  have hX : (s.loop k.loop).runner = some X := hf.home k.loop rfl
  cases b with
  | zero =>
    exact forall_mem_pair.mpr ⟨h.assertion_ok _ hX, (h.clients k hf.valid).socket, ⟨X, hX⟩,
      ⟨hf.valid, rfl⟩, fun _ _ => hX⟩
  | succ b => exact List.forall_mem_singleton.mpr trivial

theorem Confined.body_onRemoveConn_ok (h : s.Confined) {k : Client} {c : Conn} (b : Nat)
    (hf : s.Ready X (.onRemoveConn k c)) :
    ∀ st ∈ s.body b (.onRemoveConn k c), s.StmtOk X st := by
  have hasrt : s.StmtOk X (.assertInLoop .onRemoveConn k.loop) :=
    h.assertion_ok _ (hf.home k.loop rfl)
  simp only [body]
  split
  · exact List.forall_mem_nil _
  · exact List.forall_mem_cons.mpr ⟨hasrt, forall_mem_pair.mpr
      ⟨trivial, stmtOk_call_free hf.valid rfl rfl⟩⟩
  · exact forall_mem_pair.mpr ⟨hasrt, trivial⟩

theorem Confined.body_ok (h : s.Confined) (b : Nat) (hf : s.Ready X f) :
    ∀ st ∈ s.body b f, s.StmtOk X st := by
  cases f with
  | close c =>
    exact List.forall_mem_singleton.mpr (posted_home hf.valid rfl rfl)
  | closeFunctor c => exact List.forall_mem_singleton.mpr (h.assertion_ok _ (hf.home c.loop rfl))
  | handleClose c => exact h.body_handleClose_ok b hf
  | handleError c =>
    exact List.forall_mem_singleton.mpr (stmtOk_call_home hf.valid (hf.home c.loop rfl) rfl rfl)
  | closeFn c => exact h.body_closeFn_ok b hf
  | onAttachedToLoop c =>
    refine List.forall_mem_cons.mpr ⟨h.assertion_ok _ (hf.home c.loop rfl), ?_⟩
    exact forall_mem_pair.mpr ⟨trivial, stmtOk_call_free hf.valid rfl rfl⟩
  | asyncRead c =>
    -- the handler comes back to the `io_service` of the socket
    have hsocket : c.socket = c.loop := (h.conns c hf.valid).socket
    exact List.forall_mem_singleton.mpr (posted_home hf.valid (congrArg some hsocket.symm) rfl)
  | asyncWrite c =>
    have hsocket : c.socket = c.loop := (h.conns c hf.valid).socket
    cases b with
    | zero =>
      exact List.forall_mem_singleton.mpr (posted_home hf.valid (congrArg some hsocket.symm) rfl)
    | succ b => exact List.forall_mem_nil _
  | handleRead c =>
    have hX : (s.loop c.loop).runner = some X := hf.home c.loop rfl
    rcases b with _ | _ | b
    · exact forall_mem_pair.mpr ⟨trivial, stmtOk_call_free hf.valid rfl rfl⟩
    · exact List.forall_mem_singleton.mpr (stmtOk_call_home hf.valid hX rfl rfl)
    · exact List.forall_mem_singleton.mpr (stmtOk_call_home hf.valid hX rfl rfl)
  | handleWrite c =>
    have hX : (s.loop c.loop).runner = some X := hf.home c.loop rfl
    rcases b with _ | _ | b
    · exact List.forall_mem_nil _
    · exact List.forall_mem_singleton.mpr (stmtOk_call_free hf.valid rfl rfl)
    · exact List.forall_mem_singleton.mpr (stmtOk_call_home hf.valid hX rfl rfl)
  | send c =>
    have hsent : s.Sent c.loop (.sendInLoop c) :=
      sent_of_entered (posted_home hf.valid rfl rfl) (h.conns c hf.valid).entered
    exact List.forall_mem_singleton.mpr ⟨hsent, rfl, hf.valid, rfl, rfl⟩
  | sendOutsideLoop c =>
    exact List.forall_mem_singleton.mpr
      (sent_of_entered (posted_home hf.valid rfl rfl) (h.conns c hf.valid).entered)
  | sendStringInLoop c =>
    exact List.forall_mem_singleton.mpr (stmtOk_call_home hf.valid (hf.home c.loop rfl) rfl rfl)
  | sendInLoop c =>
    refine List.forall_mem_cons.mpr ⟨h.assertion_ok _ (hf.home c.loop rfl), ?_⟩
    rcases b with _ | _ | b
    · exact List.forall_mem_singleton.mpr (stmtOk_call_free hf.valid rfl rfl)
    · exact List.forall_mem_singleton.mpr trivial
    · exact List.forall_mem_nil _
  | start sv => exact body_start_ok b hf
  | stop sv =>
    exact List.forall_mem_singleton.mpr (sent_of_posted (posted_free hf.valid rfl rfl) rfl)
  | stopInLoop sv => exact h.body_stopInLoop_ok b
  | removeConn sv c =>
    exact List.forall_mem_singleton.mpr (sent_of_posted (posted_tested hf.valid rfl rfl) rfl)
  | removeConnFunctor sv c =>
    exact forall_mem_pair.mpr
      ⟨⟨hf.tested sv.loop rfl, (h.servers sv hf.valid).loop⟩, trivial⟩
  | asyncAccept sv => exact List.forall_mem_singleton.mpr hf.valid
  | acceptHandler sv socket loop => exact body_acceptHandler_ok b hf
  | handleNewConn sv socket loop => exact h.body_handleNewConn_ok b hf
  | connect k =>
    have hsocket : k.socket = k.loop := (h.clients k hf.valid).socket
    exact List.forall_mem_singleton.mpr (posted_home hf.valid (congrArg some hsocket.symm) rfl)
  | connectHandler k =>
    rcases b with _ | _ | b
    · exact List.forall_mem_singleton.mpr (stmtOk_call_home hf.valid (hf.home k.loop rfl) rfl rfl)
    · exact List.forall_mem_singleton.mpr (posted_free hf.valid rfl rfl)
    · exact List.forall_mem_nil _
  | reconnect k => exact List.forall_mem_singleton.mpr (stmtOk_call_free hf.valid rfl rfl)
  | disconnect k =>
    exact List.forall_mem_singleton.mpr (sent_of_posted (posted_tested hf.valid rfl rfl) rfl)
  | disconnectInLoop k =>
    exact forall_mem_pair.mpr ⟨⟨hf.tested k.loop rfl, (h.clients k hf.valid).loop⟩,
      stmtOk_call_free hf.valid rfl rfl⟩
  | closeConn k =>
    simp only [body]
    split
    · next c hc => exact List.forall_mem_singleton.mpr (stmtOk_call_free (h.conn k.id c hc) rfl rfl)
    · exact List.forall_mem_nil _
  | handleConn k => exact h.body_handleConn_ok b hf
  | onRemoveConn k c => exact h.body_onRemoveConn_ok b hf
  | run l => exact List.forall_mem_singleton.mpr hf.valid
  | loopStop l =>
    exact List.forall_mem_singleton.mpr (sent_of_posted (posted_free trivial rfl rfl) rfl)
  | loopStopInLoop l => exact List.forall_mem_nil _
  | user => exact List.forall_mem_singleton.mpr trivial
  | runUser l =>
    exact List.forall_mem_singleton.mpr (sent_of_posted (posted_free trivial rfl rfl) rfl)
  | queueUser l => exact List.forall_mem_singleton.mpr (posted_free trivial rfl rfl)

end System

end Libasio.Threads
