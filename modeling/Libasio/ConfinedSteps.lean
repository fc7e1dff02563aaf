import Libasio.Confinement
import Libasio.Transition

/-!
# Steps of confined threads

The operations on the shared state keep the invariant of thread confinement, and with
them the statements of the library and the steps of the threads. The one that needs
the order of the steps is the write of `tid_` in `Run`.

## Main results

- `Threads.System.Confined.of_objects`, `Threads.System.Confined.of_references` — an operation
  keeps the invariant
- `Threads.System.step_confined` — every step does
- `Threads.System.in_loop_assertions_hold` — the assertions hold in every run
-/

namespace Libasio.Threads

open Transition

namespace System

variable {s s' : System} {X : ThreadId} {l : LoopId} {f : Fn}

-- ════════════════════════════════════════════════════════════════════════
-- The operations on the state
-- ════════════════════════════════════════════════════════════════════════

theorem LoopOk.grow (h : s.LoopOk l) (hg : s.Grows s') (hl : s'.loop l = s.loop l) :
    s'.LoopOk l := by
  refine ⟨fun X hX => ?_, fun hrun => ?_, fun hle => ?_⟩
  · rw [hl] at hX ⊢
    exact h.tid X hX
  · rw [hl] at hrun
    exact (h.running hrun).grow hg
  · rw [hl]
    exact h.fresh (hg.loops.trans hle)

theorem asserting_of_mem {stmts : List Stmt} {site : Site} (hmem : .code stmts ∈ s.stack X)
    (hst : .assertInLoop site l ∈ stmts) : s.asserting X l = true :=
  List.any_eq_true.mpr ⟨_, hmem, List.any_eq_true.mpr ⟨_, hst, decide_eq_true rfl⟩⟩

/-- The loops and the objects on them. -/
def objects (s : System) :
    Nat × (LoopId → Loop) × List Server × List Client × List Conn :=
  (s.loops, s.loop, s.servers, s.clients, s.conns)

/-- What refers to the objects. -/
def references (s : System) :
    (Nat → Pool) × (Nat → List Conn) × (Nat → Option Conn) × List (List Frame) × List Assertion :=
  (s.pool, s.connMap, s.conn, s.threads, s.asserted)

theorem Grows.of_objects (h : s'.objects = s.objects) : s.Grows s' := by
  obtain ⟨hloops, hloop, hservers, hclients, hconns⟩ := by
    simpa only [objects, Prod.mk.injEq] using h
  refine ⟨hloops.ge, fun l X hX => ?_, fun sv hsv => ?_, fun k hk => ?_, fun c hc => ?_⟩
  · rwa [hloop]
  · rwa [hservers]
  · rwa [hclients]
  · rwa [hconns]

/-- An operation that leaves the objects alone. -/
theorem Confined.of_objects (h : s.Confined) (hobj : s'.objects = s.objects)
    (workers : ∀ i, ∀ w ∈ (s'.pool i).threads, s.WorkerOk w)
    (connMap : ∀ i, ∀ c ∈ s'.connMap i, c ∈ s.conns)
    (conn : ∀ i c, s'.conn i = some c → c ∈ s.conns)
    (stack : ∀ X, ∀ fr ∈ s'.stack X, s.FrameOk X fr)
    (asserted : ∀ a ∈ s'.asserted, a.tid = a.thread) : s'.Confined := by
  have hg : s.Grows s' := .of_objects hobj
  obtain ⟨_, hloop, hservers, hclients, hconns⟩ := by
    simpa only [objects, Prod.mk.injEq] using hobj
  refine ⟨fun l => ?_, fun sv hsv => ?_, fun k hk => ?_, fun i w hw => ?_, fun c hc => ?_,
    fun i c hc => ?_, fun i c hc => ?_, fun l f hf => ?_, fun X fr hfr => ?_, asserted⟩
  · exact (h.loop l).grow hg (congrFun hloop l)
  · rw [hservers] at hsv
    exact (h.servers sv hsv).grow hg
  · rw [hclients] at hk
    exact (h.clients k hk).grow hg
  · exact (workers i w hw).grow hg
  · rw [hconns] at hc
    exact (h.conns c hc).grow hg
  · exact hg.conns c (connMap i c hc)
  · exact hg.conns c (conn i c hc)
  · rw [hloop] at hf
    exact (h.tasks l f hf).grow hg
  · refine (stack X fr hfr).grow hg fun _ _ _ l _ htid _ => ?_
    rwa [hloop]

/-- An operation on the loops and the objects: whatever is not as before is as the
invariant wants it. -/
theorem Confined.of_references (h : s.Confined) (href : s'.references = s.references)
    (hg : s.Grows s') (loop : ∀ l, s'.loop l = s.loop l ∨ s'.LoopOk l)
    (servers : ∀ sv ∈ s'.servers, sv ∈ s.servers ∨ s'.ServerOk sv)
    (clients : ∀ k ∈ s'.clients, k ∈ s.clients ∨ s'.ClientOk k)
    (conns : ∀ c ∈ s'.conns, c ∈ s.conns ∨ s'.ConnOk c)
    (tasks : ∀ l, ∀ f ∈ (s'.loop l).tasks, f ∈ (s.loop l).tasks ∨ s'.Posted l f)
    (asserting : ∀ X l, s.asserting X l = true → l < s.loops → (s.loop l).tid = X →
      (s'.loop l).tid = X) : s'.Confined := by
  obtain ⟨hpool, hconnMap, hconn, hthreads, hasserted⟩ := by
    simpa only [references, Prod.mk.injEq] using href
  refine ⟨fun l => ?_, fun sv hsv => ?_, fun k hk => ?_, fun i w hw => ?_, fun c hc => ?_,
    fun i c hc => ?_, fun i c hc => ?_, fun l f hf => ?_, fun X fr hfr => ?_, fun a ha => ?_⟩
  · exact (loop l).elim (fun hl => (h.loop l).grow hg hl) id
  · exact (servers sv hsv).elim (fun hsv => (h.servers sv hsv).grow hg) id
  · exact (clients k hk).elim (fun hk => (h.clients k hk).grow hg) id
  · rw [hpool] at hw
    exact (h.workers i w hw).grow hg
  · exact (conns c hc).elim (fun hc => (h.conns c hc).grow hg) id
  · rw [hconnMap] at hc
    exact hg.conns c (h.connMap i c hc)
  · rw [hconn] at hc
    exact hg.conns c (h.conn i c hc)
  · exact (tasks l f hf).elim (fun hf => (h.tasks l f hf).grow hg) id
  · have hold : fr ∈ s.stack X := by
      rwa [System.stack, hthreads] at hfr
    refine (h.stack X fr hold).grow hg fun stmts heq site l hst htid hl => ?_
    exact asserting X l (asserting_of_mem (heq ▸ hold) hst) hl htid
  · rw [hasserted] at ha
    exact h.asserted a ha

theorem stack_setStack_of_ne {Y : ThreadId} (hY : Y ≠ X) (frs : List Frame) :
    (s.setStack X frs).stack Y = s.stack Y := by
  simp [stack, setStack, List.getElem?_set_ne (Ne.symm hY)]

theorem mem_stack_setStack {frs : List Frame} {fr : Frame}
    (h : fr ∈ (s.setStack X frs).stack X) : fr ∈ frs := by
  by_cases hX : X < s.threads.length
  · simpa [stack, setStack, hX] using h
  · simp [stack, setStack, hX] at h

theorem mem_stack_spawn {Y : ThreadId} {fr fr' : Frame} (h : fr' ∈ (s.spawn fr).stack Y) :
    fr' ∈ s.stack Y ∨ Y = s.threads.length ∧ fr' = fr := by
  rcases Nat.lt_trichotomy Y s.threads.length with hY | hY | hY
  · left
    simpa [stack, spawn, List.getElem?_append_left hY] using h
  · right
    exact ⟨hY, by simpa [stack, spawn, hY] using h⟩
  · have hlen : (s.threads ++ [[fr]]).length ≤ Y := by
      rw [List.length_append]
      exact hY
    simp [stack, spawn, List.getElem?_eq_none hlen] at h

theorem Confined.setStack (h : s.Confined) {frs : List Frame}
    (hfrs : ∀ fr ∈ frs, s.FrameOk X fr) : (s.setStack X frs).Confined := by
  refine h.of_objects rfl h.workers h.connMap h.conn (fun Y fr hfr => ?_) h.asserted
  by_cases hY : Y = X
  · rw [hY] at hfr ⊢
    exact hfrs fr (mem_stack_setStack hfr)
  · rw [stack_setStack_of_ne hY] at hfr
    exact h.stack Y fr hfr

theorem Confined.push (h : s.Confined) {fr : Frame} (hfr : s.FrameOk X fr) :
    (s.push X fr).Confined :=
  h.setStack (List.forall_mem_cons.mpr ⟨hfr, h.stack X⟩)

theorem Confined.callFn (h : s.Confined) (b : Nat) (hf : s.Ready X f) : (s.callFn X b f).Confined :=
  h.push (h.body_ok b hf)

theorem Confined.raise (h : s.Confined) {frs : List Frame} (hfrs : ∀ fr ∈ frs, s.FrameOk X fr)
    (hs : s.raise X frs = some s') : s'.Confined := by
  simp only [System.raise] at hs
  split at hs
  · cases hs
  · obtain rfl := Option.some_injective _ hs
    exact h.setStack fun fr hfr => hfrs fr ((List.dropWhile_sublist _).subset hfr)

theorem setLoop_loop_of_ne {m : LoopId} (hm : m ≠ l) (L : Loop) :
    (s.setLoop l L).loop m = s.loop m := Function.update_of_ne hm _ _

theorem setLoop_loop_self (s : System) (l : LoopId) (L : Loop) : (s.setLoop l L).loop l = L :=
  Function.update_self ..

theorem grows_setLoop {L : Loop} (hr : ∀ Y, (s.loop l).runner = some Y → L.runner = some Y) :
    s.Grows (s.setLoop l L) := by
  refine ⟨le_rfl, fun m Y hY => ?_, fun _ h => h, fun _ h => h, fun _ h => h⟩
  by_cases hm : m = l
  · rw [hm] at hY ⊢
    rw [setLoop_loop_self]
    exact hr Y hY
  · rwa [setLoop_loop_of_ne hm]

/-- What changes about a loop: the thread inside of its `Run` stays, and so does the
recorded thread for those who are about to assert that they are it. -/
theorem Confined.setLoop (h : s.Confined) {L : Loop}
    (hr : ∀ Y, (s.loop l).runner = some Y → L.runner = some Y) (hL : (s.setLoop l L).LoopOk l)
    (htasks : ∀ g ∈ L.tasks, g ∈ (s.loop l).tasks ∨ s.Posted l g)
    (htid : ∀ Y, s.asserting Y l = true → (s.loop l).tid = Y → L.tid = Y) :
    (s.setLoop l L).Confined := by
  have hg : s.Grows (s.setLoop l L) := grows_setLoop hr
  refine h.of_references rfl hg (fun m => ?_) (fun _ => .inl) (fun _ => .inl) (fun _ => .inl)
    (fun m g hmem => ?_) fun Y m hY _ hold => ?_
  · by_cases hm : m = l
    · rw [hm]
      exact .inr hL
    · exact .inl (setLoop_loop_of_ne hm L)
  · by_cases hm : m = l
    · rw [hm, setLoop_loop_self] at hmem
      rw [hm]
      exact (htasks g hmem).imp_right fun hg' => hg'.grow hg
    · rw [setLoop_loop_of_ne hm] at hmem
      exact .inl hmem
  · by_cases hm : m = l
    · rw [hm, setLoop_loop_self]
      exact htid Y (hm ▸ hY) (hm ▸ hold)
    · rwa [setLoop_loop_of_ne hm]

theorem Confined.setTasks (h : s.Confined) {fs : List Fn}
    (hfs : ∀ g ∈ fs, g ∈ (s.loop l).tasks ∨ s.Posted l g) :
    (s.setLoop l { s.loop l with tasks := fs }).Confined := by
  have hL : (s.setLoop l { s.loop l with tasks := fs }).LoopOk l := by
    refine ⟨fun X hX => ?_, fun hrun => ?_, fun hle => ?_⟩
    · rw [setLoop_loop_self] at hX ⊢
      exact (h.loop l).tid X hX
    · rw [setLoop_loop_self] at hrun
      obtain ⟨X, hX⟩ := (h.loop l).running hrun
      exact ⟨X, by rwa [setLoop_loop_self]⟩
    · rw [setLoop_loop_self]
      exact (h.loop l).fresh hle
  exact h.setLoop (fun _ h => h) hL hfs fun _ _ h => h

theorem Confined.queueInLoop (h : s.Confined) (hf : s.Posted l f) :
    (s.queueInLoop l f).Confined := by
  refine h.setTasks fun g hg => ?_
  rcases List.mem_append.mp hg with hg | hg
  · exact .inl hg
  · rw [List.mem_singleton.mp hg]
    exact .inr hf

/-- A new loop is the creator's until a thread enters its `Run`. -/
theorem Confined.newLoop (h : s.Confined) (X : ThreadId) : (s.newLoop X).Confined := by
  have hold : ∀ m, m ≠ s.loops → (s.newLoop X).loop m = s.loop m := fun m hm =>
    Function.update_of_ne hm _ _
  have hnew : (s.newLoop X).loop s.loops = ⟨X, false, none, []⟩ := Function.update_self ..
  have hg : s.Grows (s.newLoop X) := by
    refine ⟨Nat.le_succ _, fun m Y hY => ?_, fun _ h => h, fun _ h => h, fun _ h => h⟩
    have hlt : m < s.loops := h.lt_of_entered ⟨Y, hY⟩
    rwa [hold m hlt.ne]
  refine h.of_references rfl hg (fun m => ?_) (fun _ => .inl) (fun _ => .inl) (fun _ => .inl)
    (fun m g hmem => ?_) fun Y m _ hm htid => ?_
  · by_cases hm : m = s.loops
    · right
      rw [hm]
      exact ⟨by simp [hnew], by simp [hnew], by simp [hnew]⟩
    · exact .inl (hold m hm)
  · by_cases hm : m = s.loops
    · rw [hm, hnew] at hmem
      cases hmem
    · rw [hold m hm] at hmem
      exact .inl hmem
  · rwa [hold m hm.ne]

theorem Confined.spawn (h : s.Confined) {fr : Frame} (hfr : s.FrameOk s.threads.length fr) :
    (s.spawn fr).Confined := by
  refine h.of_objects rfl h.workers h.connMap h.conn (fun Y fr' hfr' => ?_) h.asserted
  rcases mem_stack_spawn hfr' with hold | ⟨hY, rfl⟩
  · exact h.stack Y fr' hold
  · rwa [hY]

/-- `Run` writes `tid_`: the loop has been entered by no other thread, and no other thread
is about to assert that it is the loop's. -/
theorem Confined.setTid (h : s.Confined) (hl : l < s.loops)
    (hone : ∀ Y, (s.loop l).runner = some Y → Y = X)
    (hquiet : ∀ Y, s.asserting Y l = true → Y = X) :
    (s.setLoop l { s.loop l with tid := X, runner := some X }).Confined := by
  have hL : (s.setLoop l { s.loop l with tid := X, runner := some X }).LoopOk l := by
    refine ⟨fun Y hY => ?_, fun _ => ⟨X, by rw [setLoop_loop_self]⟩, fun hle => ?_⟩
    · rw [setLoop_loop_self] at hY ⊢
      exact Option.some_injective _ hY
    · exact absurd hl (Nat.not_lt.mpr hle)
  refine h.setLoop (fun Y hY => ?_) hL (fun _ hg => .inl hg) fun Y hY _ => ?_
  · rw [hone Y hY]
  · exact (hquiet Y hY).symm

theorem Confined.setRunning (h : s.Confined) (hX : (s.loop l).runner = some X) :
    (s.setLoop l { s.loop l with running := true }).Confined := by
  have hL : (s.setLoop l { s.loop l with running := true }).LoopOk l := by
    refine ⟨fun Y hY => ?_, fun _ => ⟨X, by rwa [setLoop_loop_self]⟩, fun hle => ?_⟩
    · rw [setLoop_loop_self] at hY ⊢
      exact (h.loop l).tid Y hY
    · rw [setLoop_loop_self]
      exact (h.loop l).fresh hle
  exact h.setLoop (fun _ h => h) hL (fun _ hg => .inl hg) fun _ _ h => h

theorem Confined.setPool (h : s.Confined) (sv : Server) {p : Pool}
    (hp : ∀ w ∈ p.threads, s.WorkerOk w) : (s.setPool sv p).Confined := by
  refine h.of_objects rfl (fun i w hw => ?_) h.connMap h.conn h.stack h.asserted
  simp only [System.setPool, Function.update_apply] at hw
  split at hw
  · exact hp w hw
  · exact h.workers i w hw

/-- The handler of an accept, with a socket that belongs to the loop it comes with. -/
theorem posted_acceptHandler {sv : Server} {socket loop : LoopId} (hsv : sv ∈ s.servers)
    (hok : s.ServerOk sv) (heq : socket = loop) (hl : loop = sv.loop ∨ s.Entered loop) :
    s.Posted sv.acceptor (.acceptHandler sv socket loop) :=
  posted_home ⟨hsv, heq, hl⟩ (congrArg some hok.acceptor.symm) rfl

theorem Confined.asyncAccept (h : s.Confined) {sv : Server} (hsv : sv ∈ s.servers)
    (hs : s.asyncAccept sv = some s') : s'.Confined := by
  have hok : s.ServerOk sv := h.servers sv hsv
  simp only [System.asyncAccept] at hs
  split at hs
  · obtain ⟨w, hw, rfl⟩ := Option.map_eq_some_iff.mp hs
    have hworker : s.WorkerOk w := h.workers sv.id w (List.mem_of_getElem? hw)
    have hposted : s.Posted sv.acceptor (.acceptHandler sv w.acceptSocket w.evLoop) :=
      posted_acceptHandler hsv hok hworker.acceptSocket (.inr hworker.entered)
    have hpool : (s.setPool sv ⟨(s.pool sv.id).threads, (s.pool sv.id).next + 1⟩).Confined :=
      h.setPool sv (h.workers sv.id)
    exact hpool.queueInLoop (hposted.grow (.of_objects rfl))
  · obtain rfl := Option.some_injective _ hs
    exact h.queueInLoop (posted_acceptHandler hsv hok hok.acceptSocket (.inl rfl))

theorem addConn_grows (s : System) (c : Conn) : s.Grows (s.addConn c) := by
  simp only [addConn]
  split <;> exact ⟨le_rfl, fun _ _ h => h, fun _ h => h, fun _ h => h,
    fun _ h => List.mem_append_left _ h⟩

theorem mem_addConn (s : System) (c : Conn) : c ∈ (s.addConn c).conns := by
  simp only [addConn]
  split <;> exact List.mem_append_right _ (List.mem_singleton_self c)

theorem Confined.addConn (h : s.Confined) {c : Conn} (hc : s.ConnOk c) :
    (s.addConn c).Confined := by
  have hg : s.Grows (s.addConn c) := addConn_grows s c
  have hconns : ∀ d ∈ (s.addConn c).conns, d ∈ s.conns ∨ (s.addConn c).ConnOk d := by
    intro d hd
    have hd' : d ∈ s.conns ++ [c] := by
      simp only [System.addConn] at hd
      split at hd <;> exact hd
    rcases List.mem_append.mp hd' with hd' | hd'
    · exact .inl hd'
    · rw [List.mem_singleton.mp hd']
      exact .inr (hc.grow hg)
  revert hg hconns
  simp only [System.addConn]
  split <;> exact fun hg hconns => h.of_references rfl hg (fun _ => .inl rfl) (fun _ => .inl)
    (fun _ => .inl) hconns (fun _ _ => .inl) fun _ _ _ _ htid => htid

/-- The connection is handed to its loop, or begins in the thread that has made it. -/
theorem attach_ok {c : Conn} (hc : c ∈ s.conns) (hok : s.ConnOk c)
    (hX : ∀ k, c.closeFn = .client k → (s.loop c.loop).runner = some X) :
    ∀ st ∈ attach c, s.StmtOk X st := by
  simp only [attach]
  split
  · exact forall_mem_pair.mpr ⟨sent_of_entered (posted_home hc rfl rfl) hok.entered, hc⟩
  · next k heq => exact forall_mem_pair.mpr ⟨hc, stmtOk_call_home hc (hX k heq) rfl rfl⟩

theorem Confined.newConn (h : s.Confined) {loop socket : LoopId} {owner : Owner}
    (hst : s.StmtOk X (.newConn loop socket owner)) :
    ((s.addConn (s.makeConn loop socket owner)).push X
      (.code (attach (s.makeConn loop socket owner)))).Confined := by
  obtain ⟨heq, hl, ho, hX⟩ := hst
  set c := s.makeConn loop socket owner with hc
  have hloop : c.loop = loop := by cases owner <;> rfl
  have howner : c.closeFn = owner := by cases owner <;> rfl
  have hsocket : c.socket = socket := by cases owner <;> rfl
  have hok : s.ConnOk c := by
    refine ⟨?_, ?_, ?_⟩
    · rw [hsocket, hloop, heq]
    · rwa [hloop]
    · rwa [hloop, howner]
  have hg : s.Grows (s.addConn c) := addConn_grows s c
  refine (h.addConn hok).push (attach_ok (mem_addConn s c) (hok.grow hg) fun k hk => ?_)
  rw [hloop]
  exact hg.runner loop X (hX k (howner.symm.trans hk))

theorem Confined.setConnMap (h : s.Confined) (i : Nat) {cs : List Conn}
    (hcs : ∀ c ∈ cs, c ∈ s.conns) :
    ({ s with connMap := Function.update s.connMap i cs } : System).Confined := by
  refine h.of_objects rfl h.workers (fun j c hc => ?_) h.conn h.stack h.asserted
  simp only [Function.update_apply] at hc
  split at hc
  · exact hcs c hc
  · exact h.connMap j c hc

theorem Confined.setConn (h : s.Confined) (i : Nat) {o : Option Conn}
    (ho : ∀ c, o = some c → c ∈ s.conns) :
    ({ s with conn := Function.update s.conn i o } : System).Confined := by
  refine h.of_objects rfl h.workers h.connMap (fun j c hc => ?_) h.stack h.asserted
  simp only [Function.update_apply] at hc
  split at hc
  · exact ho c hc
  · exact h.conn j c hc

-- ════════════════════════════════════════════════════════════════════════
-- Steps and runs
-- ════════════════════════════════════════════════════════════════════════

/-- One statement of the library. -/
theorem Confined.exec (h : s.Confined) (b : Nat) {st : Stmt} (hst : s.StmtOk X st)
    (hone : ∀ l, st = .setTid l → ∀ Y, (s.loop l).runner = some Y → Y = X)
    (hquiet : ∀ l, st = .setTid l → ∀ Y, s.asserting Y l = true → Y = X)
    (hs : s.exec X b st = some s') : s'.Confined := by
  cases st with
  | assertInLoop site l =>
    obtain rfl := Option.some_injective _ hs
    refine h.of_objects rfl h.workers h.connMap h.conn h.stack fun a ha => ?_
    rcases List.mem_append.mp ha with ha | ha
    · exact h.asserted a ha
    · rw [List.mem_singleton.mp ha]
      exact hst.1
  | call f =>
    obtain rfl := Option.some_injective _ hs
    exact h.callFn b hst.1
  | ifInLoop l f g =>
    obtain rfl := Option.some_injective _ hs
    obtain ⟨hf, _, hg, hghome, hgtested⟩ := hst
    split
    · next hX => exact h.callFn b (h.ready_of_sent hf hX)
    · exact h.callFn b (ready_of_free hg hghome hgtested)
  | runInLoop l f =>
    obtain rfl := Option.some_injective _ hs
    split
    · next hX => exact h.callFn b (h.ready_of_sent hst hX)
    · exact h.queueInLoop (Sent.toPosted hst)
  | queueInLoop l f =>
    obtain rfl := Option.some_injective _ hs
    exact h.queueInLoop hst
  | callback =>
    obtain rfl := Option.some_injective _ hs
    exact h.push trivial
  | throws => exact h.raise (h.stack X) hs
  | setTid l =>
    obtain rfl := Option.some_injective _ hs
    refine (h.setTid hst (hone l rfl) (hquiet l rfl)).push (forall_mem_pair.mpr ?_)
    have hX : ((s.setLoop l { s.loop l with tid := X, runner := some X }).loop l).runner =
        some X := by
      rw [setLoop_loop_self]
    exact ⟨hX, hX⟩
  | setRunning l =>
    obtain rfl := Option.some_injective _ hs
    exact h.setRunning hst
  | ioRun l =>
    obtain rfl := Option.some_injective _ hs
    exact h.push hst
  | startThread sv =>
    obtain rfl := Option.some_injective _ hs
    have hnew : (s.newLoop X).Confined := h.newLoop X
    have hspawn : ((s.newLoop X).spawn (.code [.call (.run s.loops)])).Confined :=
      hnew.spawn (List.forall_mem_singleton.mpr
        (stmtOk_call_free (Nat.lt_succ_self s.loops) rfl rfl))
    exact hspawn.push (List.forall_mem_singleton.mpr rfl)
  | awaitRunning sv w =>
    simp only [System.exec] at hs
    split at hs
    · next hrun =>
      obtain rfl := Option.some_injective _ hs
      refine h.setPool sv fun v hv => ?_
      rcases List.mem_append.mp hv with hv | hv
      · exact h.workers sv.id v hv
      · rw [List.mem_singleton.mp hv]
        exact ⟨hst, (h.loop w.evLoop).running hrun⟩
    · cases hs
  | accept sv => exact h.asyncAccept hst hs
  | newConn loop socket owner =>
    obtain rfl := Option.some_injective _ hs
    exact h.newConn hst
  | insert sv c =>
    obtain rfl := Option.some_injective _ hs
    refine h.setConnMap sv.id (List.forall_mem_cons.mpr ⟨hst, fun d hd => ?_⟩)
    exact h.connMap sv.id d (List.mem_of_mem_filter hd)
  | erase sv c =>
    obtain rfl := Option.some_injective _ hs
    exact h.setConnMap sv.id fun d hd => h.connMap sv.id d (List.mem_of_mem_filter hd)
  | setConn k c =>
    obtain rfl := Option.some_injective _ hs
    refine h.setConn k.id ?_
    rintro d ⟨⟩
    exact hst
  | resetConn k =>
    obtain rfl := Option.some_injective _ hs
    exact h.setConn k.id nofun

/-- A public function that the application calls. -/
theorem Confined.ready_of_offers (h : s.Confined) (hf : s.offers f = true)
    (hX : ∀ c, f = .onAttachedToLoop c → (s.loop c.loop).tid = X) : s.Ready X f := by
  cases f with
  | close c | send c =>
    have hc : c ∈ s.conns := of_decide_eq_true hf
    exact ready_of_free hc rfl rfl
  | onAttachedToLoop c =>
    have hc : c ∈ s.conns := of_decide_eq_true hf
    exact ready_of_home hc (h.runner_of_tid (h.conns c hc).entered (hX c rfl))
      rfl rfl
  | start sv | stop sv | stopInLoop sv =>
    have hsv : sv ∈ s.servers := of_decide_eq_true hf
    exact ready_of_free hsv rfl rfl
  | removeConn sv c =>
    have hsv : sv ∈ s.servers ∧ c ∈ s.conns := of_decide_eq_true hf
    exact ready_of_free hsv.1 rfl rfl
  | connect k | disconnect k =>
    have hk : k ∈ s.clients := of_decide_eq_true hf
    exact ready_of_free hk rfl rfl
  | run l =>
    have hl : l < s.loops := of_decide_eq_true hf
    exact ready_of_free hl rfl rfl
  | loopStop l | runUser l | queueUser l => exact ready_of_free trivial rfl rfl
  | _ => cases hf

theorem lt_length_of_asserting (h : s.asserting X l = true) : X < s.threads.length := by
  by_contra hX
  simp [asserting, stack, List.getElem?_eq_none (Nat.le_of_not_lt hX)] at h

/-- The entries of a stack under the one at the top. -/
theorem Confined.frames_below (h : s.Confined) {fr : Frame} {frs : List Frame}
    (hX : s.stack X = fr :: frs) : ∀ x ∈ frs, s.FrameOk X x := by
  intro x hx
  apply h.stack X x
  rw [hX]
  exact List.mem_cons_of_mem fr hx

/-- The thread executes its next statement. -/
theorem Confined.step_code (h : s.Confined) {st : Stmt} {sts : List Stmt} {frs : List Frame}
    {b : Nat} (hX : s.stack X = .code (st :: sts) :: frs) (hone : s.OneRunner (.step X b))
    (hquiet : s.Undisturbed (.step X b))
    (hs : (s.setStack X (.code sts :: frs)).exec X b st = some s') : s'.Confined := by
  have hframe : s.FrameOk X (.code (st :: sts)) :=
    h.stack X _ (by rw [hX]; exact List.mem_cons_self)
  obtain ⟨hst, hsts⟩ := List.forall_mem_cons.mp hframe
  have hset : (s.setStack X (.code sts :: frs)).Confined :=
    h.setStack (List.forall_mem_cons.mpr ⟨hsts, h.frames_below hX⟩)
  have hentering : ∀ l, st = .setTid l → s.entering (.step X b) = some (X, l) := by
    rintro l rfl
    simp [entering, hX]
  refine hset.exec b (hst.grow (.of_objects rfl) fun _ _ _ htid _ => htid)
    (fun l heq Y hY => hone (X, l) (hentering l heq) Y hY) (fun l heq Y hY => ?_) hs
  by_contra hne
  have hasrt : s.asserting Y l = true := by
    rwa [asserting, stack_setStack_of_ne hne] at hY
  exact Bool.false_ne_true
    ((hquiet (X, l) (hentering l heq) Y (lt_length_of_asserting hasrt) hne).symm.trans hasrt)

theorem step_confined {e : Event} (h : s.Confined) (hone : s.OneRunner e)
    (hquiet : s.Undisturbed e) (hattach : s.AttachesInLoop e) (hs : s.step e = some s') :
    s'.Confined := by
  cases e with
  | thread =>
    obtain rfl := Option.some_injective _ hs
    exact h.spawn trivial
  | loop X =>
    simp only [step] at hs
    split at hs
    · obtain rfl := Option.some_injective _ hs
      exact h.newLoop X
    · cases hs
  | server X name l n =>
    simp only [step] at hs
    split at hs
    · next hl =>
      obtain rfl := Option.some_injective _ hs
      have hg : s.Grows { s with servers := s.servers ++ [⟨s.servers.length, name, l, l, l, n⟩] } :=
        ⟨le_rfl, fun _ _ h => h, fun _ h => List.mem_append_left _ h, fun _ h => h, fun _ h => h⟩
      refine h.of_references rfl hg (fun _ => .inl rfl) (fun sv hsv => ?_) (fun _ => .inl)
        (fun _ => .inl) (fun _ _ => .inl) fun _ _ _ _ htid => htid
      refine (List.mem_append.mp hsv).imp_right fun hsv => ?_
      rw [List.mem_singleton.mp hsv]
      exact ⟨hl.2, rfl, rfl⟩
    · cases hs
  | client X name l =>
    simp only [step] at hs
    split at hs
    · next hl =>
      obtain rfl := Option.some_injective _ hs
      have hg : s.Grows { s with clients := s.clients ++ [⟨s.clients.length, name, l, l, l⟩] } :=
        ⟨le_rfl, fun _ _ h => h, fun _ h => h, fun _ h => List.mem_append_left _ h, fun _ h => h⟩
      refine h.of_references rfl hg (fun _ => .inl rfl) (fun _ => .inl) (fun k hk => ?_)
        (fun _ => .inl) (fun _ _ => .inl) fun _ _ _ _ htid => htid
      refine (List.mem_append.mp hk).imp_right fun hk => ?_
      rw [List.mem_singleton.mp hk]
      exact ⟨hl.2, rfl, rfl⟩
    · cases hs
  | call X f b =>
    simp only [step] at hs
    split at hs
    · next hf =>
      obtain rfl := Option.some_injective _ hs
      refine h.callFn b (h.ready_of_offers hf.2 ?_)
      rintro c rfl
      exact hattach (X, c) rfl
    · cases hs
  | ret X =>
    simp only [step] at hs
    split at hs
    · next frs hX =>
      obtain rfl := Option.some_injective _ hs
      exact h.setStack (h.frames_below hX)
    · cases hs
  | throw X =>
    simp only [step] at hs
    split at hs
    · next frs hX =>
      exact h.raise (h.frames_below hX) hs
    · next sts frs hX =>
      exact h.raise (h.frames_below hX) hs
    · cases hs
  | step X b =>
    simp only [step] at hs
    split at hs
    · next st sts frs hX => exact h.step_code hX hone hquiet hs
    · next frs hX =>
      obtain rfl := Option.some_injective _ hs
      exact h.setStack (h.frames_below hX)
    · cases hs
  | execute X j b =>
    simp only [step] at hs
    split at hs
    · next l frs hX =>
      obtain ⟨f, hf, rfl⟩ := Option.map_eq_some_iff.mp hs
      have hrun : (s.loop l).runner = some X :=
        h.stack X (.ioRun l) (by rw [hX]; exact List.mem_cons_self)
      have hposted : s.Posted l f := h.tasks l f (List.mem_of_getElem? hf)
      have hset : (s.setLoop l { s.loop l with tasks := (s.loop l).tasks.eraseIdx j }).Confined :=
        h.setTasks fun g hg => .inl (List.mem_of_mem_eraseIdx hg)
      have hg : s.Grows (s.setLoop l { s.loop l with tasks := (s.loop l).tasks.eraseIdx j }) :=
        grows_setLoop fun _ h => h
      exact hset.callFn b (hset.ready_of_posted (hposted.grow hg) (hg.runner l X hrun))
    · cases hs

theorem init_confined : init.Confined where
  loop l := ⟨nofun, nofun, fun _ => rfl⟩
  servers := nofun
  clients := nofun
  workers := nofun
  conns := nofun
  connMap := nofun
  conn := nofun
  tasks := nofun
  stack X fr hfr := by
    cases X with
    | zero =>
      rw [List.mem_singleton.mp hfr]
      trivial
    | succ X => cases hfr
  asserted := nofun

theorem run_confined {es : List Event}
    (h : Runs step (fun s e _ => s.OneRunner e ∧ s.Undisturbed e ∧ s.AttachesInLoop e) init es s) :
    s.Confined :=
  h.invariant (fun _ _ _ hI hG hs => step_confined hI hG.1 hG.2.1 hG.2.2 hs) init_confined

/-- In every run in which each `Run` is entered by one thread only, and never while another
thread is between a test of the loop and the assertion behind it, every assertion
`IsInLoopThread()` holds when it is reached, and the socket of every connection belongs
to the `io_service` of the connection's loop. -/
theorem in_loop_assertions_hold {es : List Event}
    (h : Runs step (fun s e _ => s.OneRunner e ∧ s.Undisturbed e ∧ s.AttachesInLoop e) init es s) :
    (∀ a ∈ s.asserted, a.tid = a.thread) ∧ ∀ c ∈ s.conns, c.socket = c.loop :=
  have hc : s.Confined := run_confined h
  ⟨hc.asserted, fun c hmem => (hc.conns c hmem).socket⟩

/-- A server with one worker thread accepts a connection, which the thread attaches. -/
def acceptEvents : List Event :=
  [.loop 0, .server 0 "" 0 1, .call 0 (.start ⟨0, "", 0, 0, 0, 1⟩) 0,
    .step 0 0,                                      -- the thread is constructed,
    .step 1 0, .step 1 0, .step 1 0, .step 1 0,     -- and enters `Run`
    .step 0 0, .step 0 0, .step 0 0, .step 0 0, .step 0 0, .step 0 0,
    .call 0 (.run 0) 0, .step 0 0, .step 0 0, .step 0 0,
    .execute 0 0 0, .step 0 0, .step 0 0, .step 0 0, .step 0 0,
    .execute 1 0 0, .step 1 0]

theorem in_loop_assertions_hold_accepted : ∃ s : System,
    s.asserted.map (fun a => (a.site, a.thread)) = [(.handleNewConn, 0), (.onAttachedToLoop, 1)] ∧
      (∀ a ∈ s.asserted, a.tid = a.thread) ∧ ∀ c ∈ s.conns, c.socket = c.loop := by
  have hrun : (execGuarded step (fun s e => s.OneRunner e ∧ s.Undisturbed e ∧ s.AttachesInLoop e)
      init acceptEvents).map (fun s => s.asserted.map fun a => (a.site, a.thread)) =
      some [(.handleNewConn, 0), (.onAttachedToLoop, 1)] := by decide
  obtain ⟨s, hs, hsites⟩ := Option.map_eq_some_iff.mp hrun
  exact ⟨s, hsites, in_loop_assertions_hold (runs_of_execGuarded hs)⟩

/-- The thread that has made the loop calls `Disconnect`, and between the test and the
assertion behind it another thread enters `Run`. -/
def raceEvents : List Event :=
  [.loop 0, .client 0 "" 0, .thread, .call 1 (.run 0) 0, .call 0 (.disconnect ⟨0, "", 0, 0, 0⟩) 0,
    .step 0 0, .step 1 0, .step 1 0, .step 1 0, .step 0 0]

theorem disconnect_races_with_run : ∃ (es : List Event) (s : System),
    Runs step (fun s e _ => s.OneRunner e ∧ s.AttachesInLoop e) init es s ∧
      ∃ a ∈ s.asserted, a.site = .disconnectInLoop ∧ a.running = true ∧ a.tid ≠ a.thread := by
  have hrun : (execGuarded step (fun s e => s.OneRunner e ∧ s.AttachesInLoop e) init
      raceEvents).map asserted = some [⟨.disconnectInLoop, 0, 1, true⟩] := by decide
  obtain ⟨s, hs, hasserted⟩ := Option.map_eq_some_iff.mp hrun
  refine ⟨raceEvents, s, runs_of_execGuarded hs, ⟨.disconnectInLoop, 0, 1, true⟩, ?_, rfl, rfl, ?_⟩
  · rw [hasserted]
    exact List.mem_singleton_self _
  · decide

end System

end Libasio.Threads
