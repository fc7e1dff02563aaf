import Libasio.TcpClient

/-!
# The retries of a client

`Connect` arms a connect, its failure arms the reconnect timer, the timer
counts up and calls `Connect` again, and the loss of `conn_` does the same
without the timer. The counter is compared with its limit in one of these
places only.

## Main definitions

- `ClientLoop.Retry` — the part of a client that takes it to the next attempt
- `ClientLoop.Retries` — what a step does to it
- `ClientLoop.Phase` — the phases of the retry machine
- `ClientLoop.AttemptsStart` — the condition under which no attempt gets lost

## Main results

- `ClientLoop.step_retries` — the steps of a client are steps of its retries
- `ClientLoop.retry_machine` — one thing at a time, and a bound on the attempts
- `ClientLoop.no_reconnect_lost` — with reconnecting on, something is under way
  until the limit is reached
-/

namespace Libasio

open Transition

namespace ClientLoop

/-- The state of a client without its connections. -/
structure Retry where
  alive : Bool
  auto : Bool
  disconnects : Nat
  connects : Nat
  timers : Nat
  times : Nat
  /-- `conn_` is set -/
  attached : Bool

def retry (w : ClientLoop) : Retry :=
  ⟨w.alive, w.client.autoReconnect, w.disconnects, w.connects, w.timers,
    w.client.reconnectingTimes, w.client.conn.isSome⟩

/-- `Connect`. -/
def Retry.connect (r : Retry) (resolves : Bool) : Retry :=
  if resolves then { r with connects := r.connects + 1 } else r

/-- `Reconnect`. -/
def Retry.reconnect (r : Retry) (resolves : Bool) : Retry :=
  { r with times := r.times + 1 }.connect resolves

/-- A failed attempt. -/
def Retry.failed (r : Retry) : Retry :=
  if r.auto ∧ r.times < defaultMaxReconnectTime then { r with timers := r.timers + 1 } else r

/-- `OnRemoveConn` while `conn_` is set. -/
def Retry.lost (r : Retry) (resolves : Bool) : Retry :=
  if r.auto then { r with attached := false }.reconnect resolves else { r with attached := false }

/-- The step of connection `i` calls its close callback. -/
def removes (w : ClientLoop) (i : Nat) (e : TcpConn.Event) : Bool :=
  match w.conns[i]? with
  | some c => (c.step e).any fun c' => c'.frame = some .removing
  | none => false

/-- The user calls `Connect`. -/
def Event.isConnectCall : Event → Bool
  | .call (.connect _) => true
  | _ => false

/-- The handler of an attempt is run. -/
def Event.isAttempt : Event → Bool
  | .connectDone _ => true
  | _ => false

/-- The user asks to switch the reconnecting off, or a posted `DisconnectInLoop` does. -/
def Event.switchesOff : Event → Bool
  | .call (.setAutoReconnect false) | .call (.disconnect _) | .call .destroy
  | .disconnectInLoop => true
  | _ => false

/-- What the steps of a client do to its retries. -/
inductive Retries (w : ClientLoop) : Event → Retry → Prop
  | connect (resolves : Bool) :
    Retries w (.call (.connect resolves)) (w.retry.connect resolves)
  | failed (ha : w.retry.alive = true) (hn : 0 < w.retry.connects) :
    Retries w (.connectDone none) { w.retry with connects := w.retry.connects - 1 }.failed
  | succeeded (socket : Socket) (ha : w.retry.alive = true) (hn : 0 < w.retry.connects) :
    Retries w (.connectDone (some socket)) { w.retry with
      connects := w.retry.connects - 1, times := 0
      attached := w.retry.attached || (socket.isOpen && socket.hasPeer) }
  | expired (resolves : Bool) (ha : w.retry.alive = true) (hn : 0 < w.retry.timers) :
    Retries w (.timer resolves) ({ w.retry with timers := w.retry.timers - 1 }.reconnect resolves)
  | lost (i : Nat) (e : TcpConn.Event) (resolves : Bool) (ha : w.retry.alive = true)
    (hr : w.removes i e = true) (hc : w.retry.attached = true) :
    Retries w (.conn i e resolves) (w.retry.lost resolves)
  | lateAttempt (r : Option Socket) (ha : w.retry.alive = false) (hn : 0 < w.retry.connects) :
    Retries w (.connectDone r) { w.retry with connects := w.retry.connects - 1 }
  | lateTimer (resolves : Bool) (ha : w.retry.alive = false) (hn : 0 < w.retry.timers) :
    Retries w (.timer resolves) { w.retry with timers := w.retry.timers - 1 }
  | off {e : Event} (alive auto attached : Bool) (disconnects : Nat) (he : e.switchesOff = true)
    (hd : e = .disconnectInLoop → 0 < w.retry.disconnects)
    (hc : attached = true → w.retry.attached = true) :
    Retries w e { w.retry with
      alive := alive, auto := auto, disconnects := disconnects, attached := attached }
  | quiet {e : Event} (auto : Bool) (hc : e.isConnectCall = false) (ha : e.isAttempt = false)
    (he : auto = w.retry.auto ∨ auto = true) : Retries w e { w.retry with auto := auto }

/-- Nothing that the retries depend on has changed. -/
theorem retries_same {w w' : ClientLoop} {e : Event} (hc : e.isConnectCall = false)
    (ha : e.isAttempt = false) (h : w'.retry = w.retry) : Retries w e w'.retry := by
  rw [h]
  exact .quiet w.retry.auto hc ha (Or.inl rfl)

theorem retry_connect (w : ClientLoop) (resolves : Bool) :
    (w.connect resolves).state.retry = w.retry.connect resolves := by
  cases resolves <;> rfl

theorem retry_reconnect (w : ClientLoop) (resolves : Bool) :
    (w.reconnect resolves).state.retry = w.retry.reconnect resolves := by
  cases resolves <;> rfl

theorem retry_onConn (w : ClientLoop) (f : TcpConn → TcpConn) : (w.onConn f).retry = w.retry := by
  unfold onConn
  split <;> rfl

theorem retry_handleConn (w : ClientLoop) (socket : Socket) :
    (w.handleConn socket).state.retry = { w.retry with
      attached := w.retry.attached || (socket.isOpen && socket.hasPeer) } := by
  obtain ⟨isOpen, hasPeer⟩ := socket
  cases isOpen <;> cases hasPeer <;> simp [handleConn, TcpConn.ctor, retry]

theorem retry_failed (w : ClientLoop) : (w.handleConnect none).state.retry = w.retry.failed := by
  simp only [handleConnect, Retry.failed]
  by_cases h : w.client.autoReconnect = true ∧ w.client.reconnectingTimes < defaultMaxReconnectTime
  · rw [if_pos h]
    exact (if_pos h).symm
  · rw [if_neg h]
    exact (if_neg h).symm

theorem retry_onRemoveConn {w : ClientLoop} (resolves : Bool) (h : w.client.conn ≠ none) :
    (w.onRemoveConn resolves).state.retry = w.retry.lost resolves := by
  simp only [onRemoveConn, if_neg h, Retry.lost]
  cases hauto : w.client.autoReconnect with
  | true =>
    have hr := retry_reconnect { w with client.conn := none } resolves
    simp only [retry, hauto] at hr ⊢
    simpa using hr
  | false => simp [retry, hauto]

theorem retry_disconnectInLoop (w : ClientLoop) :
    w.disconnectInLoop.retry = { w.retry with auto := false } := retry_onConn _ _

theorem retry_run (w : ClientLoop) (h : ClientHandler) (f : ClientLoop → Outcome) :
    (w.run h f).retry = if w.alive then (f w).state.retry else w.retry := by
  simp only [run, handle]
  split <;> rfl

/-- The close callback, before or after the destructor. -/
theorem retries_afterConn {w : ClientLoop} {i : Nat} {e : TcpConn.Event} {c c' : TcpConn}
    (resolves : Bool) (hi : w.conns[i]? = some c) (hs : c.step e = some c') :
    Retries w (.conn i e resolves) (w.afterConn i c' resolves).retry := by
  simp only [afterConn]
  split
  · next hf =>
    have hr : w.removes i e = true := by simp [removes, hi, hs, hf]
    have hset : ∀ (v : ClientLoop) (d : TcpConn), (v.setConn i d).retry = v.retry :=
      fun _ _ => rfl
    rw [hset]
    simp only [handle]
    split
    · next ha =>
      by_cases hn : w.client.conn = none
      · simp only [onRemoveConn, if_pos hn]
        exact retries_same rfl rfl rfl
      · rw [retry_onRemoveConn resolves hn]
        exact .lost i e resolves ha hr (Option.isSome_iff_ne_none.mpr hn)
    · exact @retries_same w { w with uses := w.uses ++ [.onRemoveConn] } _ rfl rfl rfl
  · exact @retries_same w (w.setConn i c') _ rfl rfl rfl

/-- The steps of a client are steps of its retries. -/
theorem step_retries {w w' : ClientLoop} {e : Event} (hc : w.step e = some w') :
    Retries w e w'.retry := by
  cases e with
  | call k =>
    obtain ⟨-, hc⟩ := Option.ite_none_right_eq_some.mp hc
    cases k with
    | connect resolves =>
      cases hc
      rw [retry_connect]
      exact .connect resolves
    | disconnect inLoop =>
      cases hc
      cases inLoop with
      | true =>
        simp only [disconnect, if_true, retry_disconnectInLoop]
        exact .off w.alive false _ _ rfl (by simp) id
      | false => exact .off w.alive w.retry.auto _ (w.disconnects + 1) rfl (by simp) id
    | setAutoReconnect v =>
      cases hc
      cases v with
      | true => exact .quiet true rfl rfl (Or.inr rfl)
      | false => exact .off w.alive false _ _ rfl (by simp) id
    | setConnCallback cb =>
      cases hc
      exact retries_same rfl rfl (retry_onConn _ _)
    | setMessageCallback cb =>
      cases hc
      exact retries_same rfl rfl rfl
    | destroy =>
      have he : w'.retry = { w.retry with alive := false, auto := false, attached := false } := by
        obtain ⟨rfl, -⟩ | ⟨i, c, -, -, -, rfl⟩ := destructor_cases hc
        · rfl
        · rfl
      rw [he]
      exact .off false false false _ rfl (by simp) (by simp)
  | disconnectInLoop =>
    obtain ⟨⟨hn, -⟩, ⟨⟩⟩ := Option.ite_none_right_eq_some.mp hc
    rw [retry_run]
    split
    · rw [retry_disconnectInLoop]
      exact .off w.alive false _ _ rfl (fun _ => hn) id
    · exact .off w.alive w.retry.auto _ _ rfl (fun _ => hn) id
  | connectDone r =>
    obtain ⟨⟨hn, -⟩, ⟨⟩⟩ := Option.ite_none_right_eq_some.mp hc
    rw [retry_run]
    split
    · next ha =>
      cases r with
      | none =>
        rw [retry_failed]
        exact .failed ha hn
      | some socket =>
        simp only [handleConnect, retry_handleConn]
        exact .succeeded socket ha hn
    · next ha => exact .lateAttempt r (Bool.eq_false_of_not_eq_true ha) hn
  | timer resolves =>
    obtain ⟨⟨hn, -⟩, ⟨⟩⟩ := Option.ite_none_right_eq_some.mp hc
    rw [retry_run]
    split
    · next ha =>
      rw [retry_reconnect]
      exact .expired resolves ha hn
    · next ha => exact .lateTimer resolves (Bool.eq_false_of_not_eq_true ha) hn
  | conn i e resolves =>
    obtain ⟨c, c', hi, -, hs, rfl⟩ := stepConn_cases hc
    exact retries_afterConn resolves hi hs

-- ════════════════════════════════════════════════════════════════════════
-- The retry machine
-- ════════════════════════════════════════════════════════════════════════

/-- An attempt succeeds. -/
def Event.isSuccess : Event → Bool
  | .connectDone (some _) => true
  | _ => false

/-- The failures counted so far, after one more event. -/
def countFailure (n : Nat) : Event → Nat
  | .connectDone none => n + 1
  | .connectDone (some _) => 0
  | _ => n

/-- The number of failed attempts since the last successful one. -/
def failedAttempts (es : List Event) : Nat := es.foldl countFailure 0

/-- 1 once an attempt has succeeded. -/
def successes (es : List Event) : Nat := if es.any Event.isSuccess then 1 else 0

/-- The phases of a client whose `Connect` was called once. The counter knows the
number `n` of attempts that have failed, where one success counts as well. -/
inductive Phase (n : Nat) (r : Retry) : Prop
  | resting (hc : r.connects = 0) (ht : r.timers = 0) (ha : r.attached = false)
    (hr : r.times ≤ defaultMaxReconnectTime) (hn : n ≤ defaultMaxReconnectTime + 1)
  | connecting (hc : r.connects = 1) (ht : r.timers = 0) (ha : r.attached = false)
    (hr : r.times ≤ defaultMaxReconnectTime) (hn : n = r.times)
  | waiting (hc : r.connects = 0) (ht : r.timers = 1) (ha : r.attached = false)
    (hr : r.times < defaultMaxReconnectTime) (hn : n = r.times + 1)
  | connected (hc : r.connects = 0) (ht : r.timers = 0) (ha : r.attached = true)
    (hr : r.times = 0) (hn : n = 1)

/-- Nothing was ever started. -/
structure Fresh (n : Nat) (r : Retry) : Prop where
  connects : r.connects = 0
  timers : r.timers = 0
  attached : r.attached = false
  times : r.times = 0
  none : n = 0

theorem Phase.times_le {n : Nat} {r : Retry} (h : Phase n r) :
    r.times ≤ defaultMaxReconnectTime ∧ n ≤ defaultMaxReconnectTime + 1 := by
  cases h with
  | resting _ _ _ hr hn => exact ⟨hr, hn⟩
  | connecting _ _ _ hr hn => omega
  | waiting _ _ _ hr hn => omega
  | connected _ _ _ hr hn => omega

/-- A step leaves `conn_` as it was, or resets it. -/
theorem Phase.detach {n : Nat} {r r' : Retry} (h : Phase n r) (hc : r'.connects = r.connects)
    (ht : r'.timers = r.timers) (hr : r'.times = r.times)
    (ha : r'.attached = true → r.attached = true) : Phase n r' := by
  have hoff : r.attached = false → r'.attached = false := by
    intro hf
    by_contra hn
    simp [ha (by simpa using hn)] at hf
  cases h with
  | resting h₁ h₂ h₃ h₄ h₅ => exact .resting (hc.trans h₁) (ht.trans h₂) (hoff h₃) (hr ▸ h₄) h₅
  | connecting h₁ h₂ h₃ h₄ h₅ =>
    exact .connecting (hc.trans h₁) (ht.trans h₂) (hoff h₃) (hr ▸ h₄) (hr ▸ h₅)
  | waiting h₁ h₂ h₃ h₄ h₅ =>
    exact .waiting (hc.trans h₁) (ht.trans h₂) (hoff h₃) (hr ▸ h₄) (hr ▸ h₅)
  | connected h₁ h₂ h₃ h₄ h₅ =>
    cases ha' : r'.attached with
    | true => exact .connected (hc.trans h₁) (ht.trans h₂) ha' (hr.trans h₄) h₅
    | false => exact .resting (hc.trans h₁) (ht.trans h₂) ha' (by omega) (by omega)

/-- `Reconnect`, called with nothing under way. -/
theorem phase_reconnect {r : Retry} (resolves : Bool) (hc : r.connects = 0) (ht : r.timers = 0)
    (ha : r.attached = false) (hr : r.times < defaultMaxReconnectTime) :
    Phase (r.times + 1) (r.reconnect resolves) := by
  cases resolves with
  | true => exact .connecting (by simp [Retry.reconnect, Retry.connect, hc]) ht ha hr rfl
  | false => exact .resting hc ht ha hr (Nat.succ_le_succ hr.le)

/-- A failed attempt is the only one that was under way. -/
theorem phase_failed {n : Nat} {r : Retry} (hc : r.connects = 0) (ht : r.timers = 0)
    (ha : r.attached = false) (hr : r.times ≤ defaultMaxReconnectTime) (hn : n = r.times) :
    Phase (n + 1) r.failed := by
  simp only [Retry.failed]
  split
  · next h => exact .waiting hc (by simp [ht]) ha h.2 (by rw [hn])
  · exact .resting hc ht ha hr (by omega)

/-- The loss of the connection is the first failure of a new sequence. -/
theorem phase_lost {r : Retry} (resolves : Bool) (hc : r.connects = 0) (ht : r.timers = 0)
    (hz : r.times = 0) : Phase 1 (r.lost resolves) := by
  have hlt : r.times < defaultMaxReconnectTime := by rw [hz]; decide
  have hphase : Phase (r.times + 1) ({ r with attached := false }.reconnect resolves) :=
    @phase_reconnect { r with attached := false } resolves hc ht rfl hlt
  have hone : r.times + 1 = 1 := by omega
  simp only [Retry.lost]
  split
  · rwa [hone] at hphase
  · exact .resting hc ht rfl hlt.le (by decide)

/-- What a step makes of the phase; `Connect` is not called again. -/
theorem phase_retries {failed succeeded : Nat} {w : ClientLoop} {e : Event} {r : Retry}
    (hcall : e.isConnectCall = false) (h : Phase (failed + succeeded) w.retry)
    (hr : Retries w e r) :
    Phase (countFailure failed e + if e.isSuccess then 1 else succeeded) r := by
  cases hr with
  | connect resolves => cases hcall
  | failed ha hn =>
    cases h with
    | connecting hc ht ha hle hn' =>
      have hfail := @phase_failed (failed + succeeded) { w.retry with
        connects := w.retry.connects - 1 } (by simp [hc]) ht ha hle hn'
      rwa [Nat.add_right_comm] at hfail
    | resting hc | waiting hc | connected hc => omega
  | succeeded socket ha hn =>
    cases h with
    | connecting hc ht ha hle hn' =>
      show Phase 1 _
      cases hm : socket.isOpen && socket.hasPeer with
      | true => exact .connected (by simp [hc]) ht (by simp) rfl rfl
      | false => exact .resting (by simp [hc]) ht (by simp [ha]) (Nat.zero_le _) (by decide)
    | resting hc | waiting hc | connected hc => omega
  | expired resolves ha hn =>
    cases h with
    | waiting hc ht ha hlt hn' =>
      have hphase := @phase_reconnect { w.retry with timers := w.retry.timers - 1 } resolves hc
        (by simp [ht]) ha hlt
      rwa [← hn'] at hphase
    | resting hc ht | connecting hc ht | connected hc ht => omega
  | lost i e resolves ha hr hatt =>
    cases h with
    | connected hc ht ha hz hn' =>
      show Phase (failed + succeeded) _
      rw [hn']
      exact phase_lost resolves hc ht hz
    | resting hc ht ha | connecting hc ht ha | waiting hc ht ha => simp [ha] at hatt
  | lateAttempt res ha hn =>
    cases h with
    | connecting hc ht ha hle hn' =>
      have hrest : ∀ n, n ≤ defaultMaxReconnectTime + 1 →
          Phase n { w.retry with connects := w.retry.connects - 1 } :=
        fun n hn => .resting (by simp [hc]) ht ha hle hn
      cases res with
      | none => exact hrest _ (by simp [countFailure, Event.isSuccess]; omega)
      | some socket => exact hrest _ (by simp [countFailure, Event.isSuccess])
    | resting hc | waiting hc | connected hc => omega
  | lateTimer resolves ha hn =>
    cases h with
    | waiting hc ht ha hlt hn' =>
      show Phase (failed + succeeded) _
      exact .resting hc (by simp [ht]) ha hlt.le (by omega)
    | resting hc ht | connecting hc ht | connected hc ht => omega
  | off alive auto attached disconnects he hd hc =>
    have hphase : Phase (failed + succeeded) { w.retry with
        alive := alive, auto := auto, disconnects := disconnects, attached := attached } :=
      h.detach rfl rfl rfl hc
    cases e with
    | connectDone => cases he
    | call | disconnectInLoop | timer | conn => exact hphase
  | quiet auto hc hatt he =>
    have hphase : Phase (failed + succeeded) { w.retry with auto := auto } :=
      h.detach rfl rfl rfl id
    cases e with
    | connectDone => cases hatt
    | call | disconnectInLoop | timer | conn => exact hphase

/-- A client that was never asked to connect does nothing on its own. -/
theorem fresh_retries {failed succeeded : Nat} {w : ClientLoop} {e : Event} {r : Retry}
    (hcall : e.isConnectCall = false) (h : Fresh (failed + succeeded) w.retry)
    (hr : Retries w e r) :
    Fresh (countFailure failed e + if e.isSuccess then 1 else succeeded) r := by
  obtain ⟨hc, ht, ha, hz, hn⟩ := h
  cases hr with
  | connect resolves => cases hcall
  | failed _ hpos | succeeded _ _ hpos | lateAttempt _ _ hpos => omega
  | expired _ _ hpos | lateTimer _ _ hpos => omega
  | lost _ _ _ _ _ hatt => simp [ha] at hatt
  | off alive auto attached disconnects he hd hatt =>
    have hoff : attached = false := by
      by_contra hne
      simp [hatt (by simpa using hne)] at ha
    have hfresh : Fresh (failed + succeeded) { w.retry with
        alive := alive, auto := auto, disconnects := disconnects, attached := attached } :=
      ⟨hc, ht, hoff, hz, hn⟩
    cases e with
    | connectDone => cases he
    | call | disconnectInLoop | timer | conn => exact hfresh
  | quiet auto hcall hatt he =>
    have hfresh : Fresh (failed + succeeded) { w.retry with auto := auto } := ⟨hc, ht, ha, hz, hn⟩
    cases e with
    | connectDone => cases hatt
    | call | disconnectInLoop | timer | conn => exact hfresh

/-- The call of `Connect` itself. -/
theorem phase_connect {n : Nat} {w : ClientLoop} {resolves : Bool} {r : Retry}
    (h : Fresh n w.retry) (hr : Retries w (.call (.connect resolves)) r) : Phase n r := by
  obtain ⟨hc, ht, ha, hz, hn⟩ := h
  cases hr with
  | connect =>
    cases resolves with
    | true =>
      refine .connecting ?_ ht ha (hz.trans_le (Nat.zero_le _)) (hn.trans hz.symm)
      simp [Retry.connect, hc]
    | false => exact .resting hc ht ha (hz.trans_le (Nat.zero_le _)) (hn.trans_le (Nat.zero_le _))
  | off alive auto attached disconnects he => cases he
  | quiet auto hcall => cases hcall

/-- How often `Connect` was called. -/
def connectCalls (es : List Event) : Nat := es.countP Event.isConnectCall

theorem failedAttempts_snoc (es : List Event) (e : Event) :
    failedAttempts (es ++ [e]) = countFailure (failedAttempts es) e := by
  simp [failedAttempts]

theorem successes_snoc (es : List Event) (e : Event) :
    successes (es ++ [e]) = if e.isSuccess then 1 else successes es := by
  simp only [successes, List.any_append, List.any_cons, List.any_nil, Bool.or_false]
  cases e.isSuccess <;> simp

/-- Before and after the one call of `Connect`. -/
def Machine (es : List Event) (w : ClientLoop) : Prop :=
  (connectCalls es = 0 → Fresh (failedAttempts es + successes es) w.retry) ∧
  (connectCalls es = 1 → Phase (failedAttempts es + successes es) w.retry)

theorem step_machine {es : List Event} {w w' : ClientLoop} {e : Event} (h : Machine es w)
    (hc : w.step e = some w') : Machine (es ++ [e]) w' := by
  have hr := step_retries hc
  simp only [Machine, connectCalls, List.countP_append, List.countP_singleton,
    failedAttempts_snoc, successes_snoc]
  cases hcall : e.isConnectCall with
  | false =>
    simp only [Bool.false_eq_true, if_false, Nat.add_zero]
    exact ⟨fun hz => fresh_retries hcall (h.1 hz) hr, fun ho => phase_retries hcall (h.2 ho) hr⟩
  | true =>
    simp only [if_true]
    refine ⟨fun hz => by omega, fun ho => ?_⟩
    have hz : connectCalls es = 0 := by
      simp only [connectCalls]
      omega
    cases e with
    | call k =>
      cases k with
      | connect resolves => exact phase_connect (h.1 hz) hr
      | _ => cases hcall
    | _ => cases hcall

/-- **The retry machine**: of a client whose `Connect` is called once, at most one of
a connect in flight, a pending reconnect timer and `conn_` exists at any time. The
counter stays within its limit and is zero while `conn_` is set. No more than six
attempts fail in a row, and five once an attempt has succeeded. -/
theorem retry_machine {name : String} {w : ClientLoop} {es : List Event}
    (hr : Runs step anyStep (create name) es w) (h1 : connectCalls es ≤ 1) :
    w.connects + w.timers + (if w.client.conn = none then 0 else 1) ≤ 1 ∧
    w.client.reconnectingTimes ≤ 5 ∧
    (w.client.conn ≠ none → w.client.reconnectingTimes = 0) ∧
    failedAttempts es ≤ 6 ∧
    ((∃ socket, Event.connectDone (some socket) ∈ es) → failedAttempts es ≤ 5) := by
  have hm : Machine es w :=
    hr.invariant_history (fun _ _ _ _ h _ hc => step_machine h hc)
      ⟨fun _ => ⟨rfl, rfl, rfl, rfl, rfl⟩, by rintro ⟨⟩⟩
  have hphase : Phase (failedAttempts es + successes es) w.retry := by
    rcases Nat.le_one_iff_eq_zero_or_eq_one.mp h1 with hz | ho
    · obtain ⟨hc, ht, ha, hz, hn⟩ := hm.1 hz
      exact .resting hc ht ha (hz.trans_le (Nat.zero_le _)) (hn.trans_le (Nat.zero_le _))
    · exact hm.2 ho
  have hconn : ∀ b, w.retry.attached = b → (w.client.conn = none ↔ b = false) := by
    rintro b rfl
    simp [retry]
  obtain ⟨htimes, hbound⟩ := hphase.times_le
  have hmax : defaultMaxReconnectTime = 5 := rfl
  refine ⟨?_, htimes, fun hne => ?_, by omega, ?_⟩
  · cases hphase with
    | resting hc ht ha | connecting hc ht ha | waiting hc ht ha =>
      simp only [(hconn _ ha).mpr rfl, if_true]
      simp only [retry] at hc ht
      omega
    | connected hc ht ha =>
      simp only [retry] at hc ht
      split <;> omega
  · cases hphase with
    | resting hc ht ha | connecting hc ht ha | waiting hc ht ha =>
      exact absurd ((hconn _ ha).mpr rfl) hne
    | connected hc ht ha hz => exact hz
  · rintro ⟨socket, hmem⟩
    have hs : successes es = 1 := if_pos (List.any_eq_true.mpr ⟨_, hmem, rfl⟩)
    omega

theorem retry_machine_one_failure :
    ∃ w, Runs step anyStep (create "client")
      [.call (.setAutoReconnect true), .call (.connect true), .connectDone none, .timer true,
        .connectDone none] w ∧
      w.connects + w.timers + (if w.client.conn = none then 0 else 1) ≤ 1 ∧
      w.client.reconnectingTimes ≤ 5 := by
  obtain ⟨w, hr⟩ : ∃ w, Runs step anyStep (create "client")
      [.call (.setAutoReconnect true), .call (.connect true), .connectDone none, .timer true,
        .connectDone none] w :=
    ⟨_, .cons rfl trivial (.cons rfl trivial (.cons rfl trivial (.cons rfl trivial
      (.cons rfl trivial (.nil _)))))⟩
  obtain ⟨hone, htimes, -⟩ := retry_machine hr (by decide)
  exact ⟨w, hr, hone, htimes⟩

-- ════════════════════════════════════════════════════════════════════════
-- Lost reconnects
-- ════════════════════════════════════════════════════════════════════════

/-- A call of the user, other than the destructor. -/
def Event.isSetup : Event → Bool
  | .call .destroy => false
  | .call _ => true
  | _ => false

/-- The reconnecting is not switched off. -/
def StaysOn (_ : ClientLoop) (e : Event) (_ : ClientLoop) : Prop := e.switchesOff = false

/-- Where `Reconnect` is run, the resolver finds an endpoint, and the constructor of
a connection does not throw on a socket that was connected. -/
def AttemptsStart (w : ClientLoop) (e : Event) (_ : ClientLoop) : Prop :=
  e ≠ .timer false ∧
  (∀ i e', e = .conn i e' false → w.removes i e' = true → w.client.conn = none) ∧
  ∀ socket, e = .connectDone (some socket) → socket.isOpen = true ∧ socket.hasPeer = true

/-- A connection, a connect in flight, a wait for the next one, or the limit reached
after a failed attempt. -/
def RetryPending (es : List Event) (w : ClientLoop) : Prop :=
  w.client.conn ≠ none ∨ 0 < w.connects ∨ 0 < w.timers ∨
    (defaultMaxReconnectTime ≤ w.client.reconnectingTimes ∧ 0 < failedAttempts es)

theorem retryPending_iff {es : List Event} {w : ClientLoop} : RetryPending es w ↔
    w.retry.attached = true ∨ 0 < w.retry.connects ∨ 0 < w.retry.timers ∨
      (defaultMaxReconnectTime ≤ w.retry.times ∧ 0 < failedAttempts es) := by
  simp only [RetryPending, retry, ← Option.isSome_iff_ne_none]

/-- Before the loop runs, an attempt stays in flight. -/
theorem step_setup {w w' : ClientLoop} {e : Event} (he : e.isSetup = true)
    (hc : w.step e = some w') : w'.alive = w.alive ∧ w.connects ≤ w'.connects ∧
      (e = .call (.connect true) → 0 < w'.connects) := by
  have halive : w'.alive = w.alive := (step_kept hc).2.2 (by rintro rfl; cases he)
  have hr := step_retries hc
  generalize hr' : w'.retry = r at hr
  have hconn : w'.connects = r.connects := congrArg Retry.connects hr'
  refine ⟨halive, ?_⟩
  rw [hconn]
  cases hr with
  | connect resolves =>
    cases resolves with
    | true => exact ⟨Nat.le_succ _, fun _ => Nat.succ_pos _⟩
    | false => exact ⟨le_rfl, by simp⟩
  | off alive auto attached disconnects hoff =>
    refine ⟨le_rfl, ?_⟩
    rintro rfl
    cases hoff
  | quiet auto hcall =>
    refine ⟨le_rfl, ?_⟩
    rintro rfl
    cases hcall
  | failed | succeeded | expired | lost | lateAttempt | lateTimer => cases he

/-- One step of the loop leaves something under way, or has reached the limit. -/
theorem step_retryPending {es : List Event} {w w' : ClientLoop} {e : Event} (ha : w.alive = true)
    (hauto : w.client.autoReconnect = true) (hon : StaysOn w e w') (hg : AttemptsStart w e w')
    (hc : w.step e = some w') : w'.alive = true ∧ w'.client.autoReconnect = true ∧
      (e = .call (.connect true) ∨ RetryPending es w → RetryPending (es ++ [e]) w') := by
  obtain ⟨htimer, hlost, hsocket⟩ := hg
  have halive : w'.alive = true := by
    refine ((step_kept hc).2.2 ?_).trans ha
    rintro rfl
    cases hon
  have hr := step_retries hc
  rw [retryPending_iff, retryPending_iff, failedAttempts_snoc]
  have hauto' : w'.client.autoReconnect = w'.retry.auto := rfl
  have hret : w.retry.auto = true := hauto
  refine ⟨halive, ?_⟩
  rw [hauto']
  generalize w'.retry = r at hr
  cases hr with
  | connect resolves =>
    cases resolves with
    | true => exact ⟨hret, fun _ => Or.inr (Or.inl (Nat.succ_pos _))⟩
    | false => exact ⟨hret, fun h => h.resolve_left (by simp)⟩
  | failed _ hn =>
    simp only [Retry.failed, hret, true_and]
    split
    · exact ⟨rfl, fun _ => Or.inr (Or.inr (Or.inl (Nat.succ_pos _)))⟩
    · next hlt =>
      exact ⟨rfl, fun _ => Or.inr (Or.inr (Or.inr ⟨Nat.le_of_not_lt hlt, Nat.succ_pos _⟩))⟩
  | succeeded socket _ hn =>
    obtain ⟨hopen, hpeer⟩ := hsocket socket rfl
    exact ⟨hret, fun _ => Or.inl (by simp [hopen, hpeer])⟩
  | expired resolves _ hn =>
    cases resolves with
    | true => exact ⟨hret, fun _ => Or.inr (Or.inl (Nat.succ_pos _))⟩
    | false => exact absurd rfl htimer
  | lost i e resolves _ hrem hatt =>
    cases resolves with
    | true =>
      simp only [Retry.lost, hret, if_true]
      exact ⟨rfl, fun _ => Or.inr (Or.inl (Nat.succ_pos _))⟩
    | false => exact absurd (hlost i e rfl hrem) (Option.isSome_iff_ne_none.mp hatt)
  | lateAttempt _ hdead | lateTimer _ hdead => exact absurd ha (by simpa [retry] using hdead)
  | off alive auto attached disconnects hoff =>
    rw [show e.switchesOff = false from hon] at hoff
    cases hoff
  | quiet auto hcall hatt hkept =>
    refine ⟨?_, fun h => ?_⟩
    · rcases hkept with rfl | rfl
      · exact hret
      · rfl
    · have hsame : countFailure (failedAttempts es) e = failedAttempts es := by
        cases e with
        | connectDone => cases hatt
        | _ => rfl
      rw [hsame]
      refine h.resolve_left ?_
      rintro rfl
      cases hcall

/-- Before the loop runs, a connect that was started is in flight. -/
def SetUp (es : List Event) (w : ClientLoop) : Prop :=
  w.alive = true ∧ (Event.call (.connect true) ∈ es → 0 < w.connects)

theorem setUp_run {name : String} {w : ClientLoop} {es : List Event}
    (hr : Runs step (fun _ e _ => e.isSetup = true) (create name) es w) : SetUp es w := by
  have hkeep : ∀ (es : List Event) (s : ClientLoop) (e : Event) (t : ClientLoop),
      SetUp es s → e.isSetup = true → s.step e = some t → SetUp (es ++ [e]) t := by
    rintro es s e t ⟨ha, hconn⟩ he hc
    obtain ⟨halive, hle, hpos⟩ := step_setup he hc
    refine ⟨halive.trans ha, fun hm => ?_⟩
    rcases List.mem_append.mp hm with hm | hm
    · exact (hconn hm).trans_le hle
    · exact hpos (List.mem_singleton.mp hm).symm
  exact hr.invariant_history hkeep ⟨rfl, by simp⟩

/-- Reconnecting is on, and what was started before or since is under way. -/
def Pursued (pre es : List Event) (w : ClientLoop) : Prop :=
  w.alive = true ∧ w.client.autoReconnect = true ∧
    (Event.call (.connect true) ∈ pre ++ es → RetryPending es w)

theorem step_pursued {pre es : List Event} {w w' : ClientLoop} {e : Event} (h : Pursued pre es w)
    (hg : StaysOn w e w' ∧ AttemptsStart w e w') (hc : w.step e = some w') :
    Pursued pre (es ++ [e]) w' := by
  obtain ⟨ha, hauto, hp⟩ := h
  obtain ⟨ha', hauto', hp'⟩ := @step_retryPending es w w' e ha hauto hg.1 hg.2 hc
  refine ⟨ha', hauto', fun hm => ?_⟩
  rw [← List.append_assoc] at hm
  rcases List.mem_append.mp hm with hm | hm
  · exact hp' (Or.inr (hp hm))
  · exact hp' (Or.inl (List.mem_singleton.mp hm).symm)

/-- **No reconnect is lost**: with reconnecting switched on before the loop runs and
never off, a client whose `Connect` got past the resolver has, in every state, a
connection, a connect in flight, a pending timer, or reached the limit. -/
theorem no_reconnect_lost {name : String} {w₁ w₂ w : ClientLoop} {pre es : List Event}
    (hpre : Runs step (fun _ e _ => e.isSetup = true) (create name) pre w₁)
    (hon : w₁.step (.call (.setAutoReconnect true)) = some w₂)
    (hr : Runs step (fun s e t => StaysOn s e t ∧ AttemptsStart s e t) w₂ es w)
    (hcall : Event.call (.connect true) ∈ pre ++ es) : RetryPending es w := by
  obtain ⟨ha, hconn⟩ := setUp_run hpre
  have hw₂ : w₂ = { w₁ with client.autoReconnect := true } := by
    obtain ⟨-, hc⟩ := Option.ite_none_right_eq_some.mp hon
    exact (Option.some.inj hc).symm
  have hinit : Pursued pre [] w₂ := by
    rw [hw₂]
    exact ⟨ha, rfl, fun hm => Or.inr (Or.inl (hconn (by simpa using hm)))⟩
  exact (hr.invariant_history (fun _ _ _ _ h hg hc => step_pursued h hg hc) hinit).2.2 hcall

theorem no_reconnect_lost_one_failure :
    ∃ w₁ w₂ w, Runs step (fun _ e _ => e.isSetup = true) (create "client")
        [.call (.connect true)] w₁ ∧
      w₁.step (.call (.setAutoReconnect true)) = some w₂ ∧
      Runs step (fun s e t => StaysOn s e t ∧ AttemptsStart s e t) w₂
        [.connectDone none, .timer true, .connectDone none] w ∧
      RetryPending [.connectDone none, .timer true, .connectDone none] w := by
  have hg : ∀ {s t : ClientLoop} {e : Event}, e = .connectDone none ∨ e = .timer true →
      StaysOn s e t ∧ AttemptsStart s e t := by
    rintro s t e (rfl | rfl)
    · exact ⟨rfl, by simp, by simp, by simp⟩
    · exact ⟨rfl, by simp, by simp, by simp⟩
  obtain ⟨w₁, w₂, w, hpre, hon, hr⟩ : ∃ w₁ w₂ w,
      Runs step (fun _ e _ => e.isSetup = true) (create "client") [.call (.connect true)] w₁ ∧
      w₁.step (.call (.setAutoReconnect true)) = some w₂ ∧
      Runs step (fun s e t => StaysOn s e t ∧ AttemptsStart s e t) w₂
        [.connectDone none, .timer true, .connectDone none] w :=
    ⟨_, _, _, .single rfl rfl, rfl, .cons rfl (hg (Or.inl rfl)) (.cons rfl (hg (Or.inr rfl))
      (.cons rfl (hg (Or.inl rfl)) (.nil _)))⟩
  exact ⟨w₁, w₂, w, hpre, hon, hr, no_reconnect_lost hpre hon hr (by simp)⟩

/-- The handler of the timer throws when the name is not resolved, and nothing is
left that would try again. -/
theorem reconnect_lost :
    ∃ w₁ w₂ w, Runs step (fun _ e _ => e.isSetup = true) (create "client")
        [.call (.connect true)] w₁ ∧
      w₁.step (.call (.setAutoReconnect true)) = some w₂ ∧
      Runs step StaysOn w₂ [.connectDone none, .timer false] w ∧
      ¬RetryPending [.connectDone none, .timer false] w :=
  ⟨_, _, _, .single rfl rfl, rfl, .cons rfl rfl (.cons rfl rfl (.nil _)), by
    rintro (h | h | h | ⟨h, -⟩)
    · exact h rfl
    · exact absurd h (by decide)
    · exact absurd h (by decide)
    · exact absurd h (by decide)⟩

end ClientLoop

end Libasio
