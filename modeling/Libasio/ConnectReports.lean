import Libasio.ClientCallbacks

/-!
# What a client reports of its attempts

The connection callback is documented to be called also when connecting has failed.
The handler of a failed attempt schedules a retry or leaves its last branch empty.
`HandleConn` has a call of `conn_fn_` for a socket that is closed, behind a
constructor that throws for such a socket.

## Main definitions

- `ClientLoop.GivesUp` — an attempt has failed and no retry is scheduled
- `ClientLoop.failureReports` — the calls of the callback for neither an established
  nor a lost connection
- `ClientLoop.AllReported` — the client has reported each time it gave up

## Main results

- `TcpConn.step_noFailure` — a connection tells nothing but its begin and its end
- `ClientLoop.give_ups_reported_iff` — all is reported in the runs without a failure
-/

namespace Libasio

open Transition

/-- The connection callback is called for a connection that is neither established nor
broken down. -/
def Obs.isFailure : Obs → Bool
  | .connFn _ s => s != .kConnected && s != .kDisconnecting
  | _ => false

theorem Obs.isFailure_of_isOutput {o : Obs} (h : o.isOutput = true) : o.isFailure = false := by
  cases o <;> simp_all [isOutput, isFailure]

namespace TcpConn

/-- The end of a connection is not told as a failure to connect. -/
theorem handleError_noFailure {c c₁ : TcpConn} (h : Spares Obs.isFailure c c₁) :
    Spares Obs.isFailure c c₁.handleError := by
  obtain ⟨status, frame, tail, he, -, -, ht⟩ := handleError_eq c₁
  refine h.trans ⟨tail, by rw [he], fun o ho => ?_⟩
  obtain ⟨f, rfl⟩ | ⟨f, rfl⟩ := ht o ho <;> rfl

/-- A connection tells its owner that it is established, or that it ends. -/
theorem step_noFailure {c c' : TcpConn} {e : Event} (hc : c.step e = some c') :
    Spares Obs.isFailure c c' := by
  have output : ∀ {a b : TcpConn}, OutputOnly a b → Spares Obs.isFailure a b :=
    fun h => h.spares fun _ => Obs.isFailure_of_isOutput
  cases e with
  | send inLoop data =>
    cases hc
    cases inLoop with
    | true => exact output (outputOnly_sendInLoop c data)
    | false => exact spares_same rfl
  | close | setConnCallback _ | setMessageCallback _ | setHighWaterMarkCallback _ _
  | setCloseCallback _ =>
    cases hc
    exact spares_same rfl
  | editRecv edit =>
    obtain ⟨-, ⟨⟩⟩ := Option.ite_none_right_eq_some.mp hc
    exact spares_same rfl
  | readReady r =>
    obtain ⟨room, -, -, rfl⟩ := readReady_cases hc
    exact spares_same rfl
  | writeReady r =>
    obtain ⟨region, -, -, rfl⟩ := writeReady_cases hc
    exact spares_same rfl
  | runPosted =>
    obtain ⟨f, fs, -, -, rfl⟩ := runPosted_cases hc
    cases f with
    | closeSocket => exact spares_same rfl
    | sendStringInLoop message =>
      have h : Spares Obs.isFailure { c with posted := fs } _ :=
        output (outputOnly_sendInLoop { c with posted := fs } message)
      exact h
    | onAttachedToLoop =>
      simp only [runFunctor, onAttachedToLoop]
      split
      · exact spares_one rfl rfl
      · exact spares_same rfl
  | handleRead =>
    obtain ⟨room, r, -, -, rfl⟩ := startRead_cases hc
    have hone : ∀ r, Spares Obs.isFailure c
        { c with reading := none, trace := c.trace ++ [.handleRead r] } :=
      fun r => spares_one rfl rfl
    cases r with
    | eof => exact handleError_noFailure (hone .eof)
    | error => exact handleError_noFailure (hone .error)
    | ok data =>
      simp only [handleRead]
      split
      · exact (hone (.ok data)).trans (spares_one rfl rfl)
      · exact (hone (.ok data)).trans (spares_same rfl)
  | handleWrite =>
    obtain ⟨region, r, -, -, rfl⟩ := startWrite_cases hc
    have hone : Spares Obs.isFailure c
        { c with writing := none, trace := c.trace ++ [.handleWrite region r] } :=
      spares_one rfl rfl
    cases r with
    | ok n => exact hone.trans (output (outputOnly_handleWrite _ n))
    | error => exact handleError_noFailure (hone.trans (spares_same rfl))
  | resume =>
    obtain ⟨f, -, rfl⟩ := Option.map_eq_some_iff.mp hc
    cases f with
    | attached | message => exact spares_one rfl rfl
    | removing => exact spares_same rfl
    | closing =>
      simp only [resume, callCloseFn]
      split
      · exact spares_one rfl rfl
      · exact spares_same rfl
  | throw =>
    obtain ⟨f, -, rfl⟩ := Option.map_eq_some_iff.mp hc
    exact spares_same rfl

/-- No failure to connect has been told. -/
def NoFailure (c : TcpConn) : Prop := ∀ o ∈ c.trace, o.isFailure = false

theorem noFailure_step {c c' : TcpConn} {e : Event} (h : NoFailure c) (hc : c.step e = some c') :
    NoFailure c' := by
  obtain ⟨t, ht, hn⟩ := step_noFailure hc
  intro o ho
  rw [ht] at ho
  exact (List.mem_append.mp ho).elim (h o) (hn o)

end TcpConn

namespace ClientLoop

/-- An attempt has failed and no retry is scheduled. -/
def GivesUp (w : ClientLoop) : Event → Prop
  | .connectDone none => w.alive = true ∧
      ¬(w.client.autoReconnect = true ∧ w.client.reconnectingTimes < defaultMaxReconnectTime)
  | _ => False

instance (w : ClientLoop) : (e : Event) → Decidable (w.GivesUp e)
  | .connectDone none => inferInstanceAs (Decidable (_ ∧ ¬(_ ∧ _)))
  | .connectDone (some _) | .call _ | .disconnectInLoop | .timer _ | .conn _ _ _ => isFalse id

/-- The failures of a run after which the client gave up. -/
def givenUp (name : String) (es : List Event) : List Event :=
  outputs step (fun w e => if w.GivesUp e then [e] else []) (create name) es

/-- The calls of the connection callback that report a failure. -/
def failureReports (w : ClientLoop) : Nat :=
  (w.conns.flatMap TcpConn.trace).countP Obs.isFailure

/-- Each time the client has given up in the run, the failure has been reported. -/
def AllReported (name : String) (es : List Event) : Prop :=
  ∀ past w, past <+: es → Runs step anyStep (create name) past w →
    (givenUp name past).length ≤ w.failureReports

/-- `GivesUp` says when a failed attempt leaves no retry. -/
theorem timers_of_failure {w w' : ClientLoop} (ha : w.alive = true)
    (hc : w.step (.connectDone none) = some w') :
    w'.timers = if w.GivesUp (.connectDone none) then w.timers else w.timers + 1 := by
  obtain ⟨-, ⟨⟩⟩ := Option.ite_none_right_eq_some.mp hc
  by_cases hauto : w.client.autoReconnect = true ∧
      w.client.reconnectingTimes < defaultMaxReconnectTime
  · rw [if_neg fun h => h.2 hauto]
    simp [run, handle, ha, handleConnect, hauto]
  · rw [if_pos ⟨ha, hauto⟩]
    simp [run, handle, ha, handleConnect, hauto]

theorem run_noFailure {name : String} {w : ClientLoop} {es : List Event}
    {G : ClientLoop → Event → ClientLoop → Prop} (hr : Runs step G (create name) es w) :
    ∀ (i : Nat) c, w.conns[i]? = some c → c.NoFailure := by
  have hmove : ∀ c d, TcpConn.NoFailure c → Moves c d → TcpConn.NoFailure d :=
    fun c d h hm => hm.invariant (fun _ _ _ _ h hc => TcpConn.noFailure_step h hc) h
  have hnew : ∀ c, Attaching c → TcpConn.NoFailure c := by
    rintro c ⟨name, connFn, msgFn, hc⟩
    exact TcpConn.noFailure_step (fun o ho => absurd ho List.not_mem_nil) hc
  exact hr.invariant (I := fun w => ∀ (i : Nat) c, w.conns[i]? = some c → c.NoFailure)
    (fun _ _ _ h _ hc => forall_conns hmove (fun c _ _ => hnew c) h hc) (by simp [create])

/-- Whatever happens, no failure to connect is ever reported. -/
theorem run_failureReports {name : String} {w : ClientLoop} {es : List Event}
    {G : ClientLoop → Event → ClientLoop → Prop} (hr : Runs step G (create name) es w) :
    w.failureReports = 0 := by
  refine List.countP_eq_zero.mpr fun o ho => ?_
  obtain ⟨c, hc, hmem⟩ := List.mem_flatMap.mp ho
  obtain ⟨i, hi⟩ := List.getElem?_of_mem hc
  simp [run_noFailure hr i c hi o hmem]

/-- The callback is only ever called for connections, and there are no more of these than
attempts that have succeeded. -/
theorem run_conns_le {name : String} {w : ClientLoop} {es : List Event}
    {G : ClientLoop → Event → ClientLoop → Prop} (hr : Runs step G (create name) es w) :
    w.conns.length ≤ es.countP Event.isSuccess := by
  refine hr.invariant_history (I := fun es w => w.conns.length ≤ es.countP Event.isSuccess) ?_
    (Nat.zero_le _)
  intro es w e w' h _ hc
  rw [List.countP_append]
  obtain ⟨hlen, -⟩ | ⟨socket, rfl, -, -, -, hlen, -⟩ := step_roster hc
  · omega
  · rw [hlen]
    exact Nat.add_le_add_right h 1

/-- The runs in which every failure is reported are those in which the client never
gives up. -/
theorem give_ups_reported_iff {name : String} {w : ClientLoop} {es : List Event}
    (hr : Runs step anyStep (create name) es w) :
    (AllReported name es ↔ Runs step (fun w e _ => ¬w.GivesUp e) (create name) es w) ∧
      w.conns.length ≤ es.countP Event.isSuccess := by
  have hnone : givenUp name es = [] ↔
      Runs step (fun w e _ => ¬w.GivesUp e) (create name) es w := by
    have hguard : ∀ (w : ClientLoop) e, (if w.GivesUp e then [e] else []) = [] ↔ ¬w.GivesUp e := by
      intro w e
      split <;> simp_all
    rw [givenUp, hr.outputs_eq_nil_iff]
    simp only [hguard]
  refine ⟨⟨fun h => ?_, fun h past u hpast hu => ?_⟩, run_conns_le hr⟩
  · have hle := h es w (List.prefix_refl es) hr
    rw [run_failureReports hr] at hle
    exact hnone.mp (List.length_eq_zero_iff.mp (Nat.le_zero.mp hle))
  · obtain ⟨rest, rfl⟩ := hpast
    have happ := hnone.mpr h
    rw [givenUp, hu.outputs_append] at happ
    rw [givenUp, (List.append_eq_nil_iff.mp happ).1]
    exact Nat.zero_le _

theorem give_ups_reported_retry :
    ∃ w, Runs step anyStep (create "client")
        [.call (.setConnCallback (some 0)), .call (.setAutoReconnect true),
          .call (.connect true), .connectDone none, .timer true,
          .connectDone (some ⟨true, true⟩)] w ∧
      AllReported "client" [.call (.setConnCallback (some 0)), .call (.setAutoReconnect true),
        .call (.connect true), .connectDone none, .timer true,
        .connectDone (some ⟨true, true⟩)] := by
  have hr := exec_eq_some_iff.mp (rfl : exec step (create "client")
    [.call (.setConnCallback (some 0)), .call (.setAutoReconnect true), .call (.connect true),
      .connectDone none, .timer true, .connectDone (some ⟨true, true⟩)] = some _)
  refine ⟨_, hr, (give_ups_reported_iff hr).1.mpr ?_⟩
  exact .cons rfl nofun (.cons rfl nofun (.cons rfl nofun (.cons rfl (by decide)
    (.cons rfl nofun (.single rfl nofun)))))

/-- Without reconnecting one refused attempt is enough. -/
theorem failure_not_reported :
    ∃ w, Runs step anyStep (create "client")
        [.call (.setConnCallback (some 0)), .call (.connect true), .connectDone none] w ∧
      (givenUp "client"
        [.call (.setConnCallback (some 0)), .call (.connect true), .connectDone none]).length = 1 ∧
      w.conns = [] ∧ ¬AllReported "client"
        [.call (.setConnCallback (some 0)), .call (.connect true), .connectDone none] := by
  have hr := exec_eq_some_iff.mp (rfl : exec step (create "client")
    [.call (.setConnCallback (some 0)), .call (.connect true), .connectDone none] = some _)
  refine ⟨_, hr, rfl, rfl, fun h => ?_⟩
  exact absurd (h _ _ (List.prefix_refl _) hr) (by decide)

end ClientLoop

end Libasio
