import Libasio.Lifecycle

/-!
# Memory of the output buffers

What the capacity of `write_buffer_` and `writing_buffer_` depends on.
`ReadBytes` moves the read position, nothing in the output path moves it back,
and `EstimateSize` measures the room behind the write position: a buffer that
has to grow grows on top of the bytes that were already consumed.

## Main definitions

- `TcpConn.backlog` — the pending bytes of both buffers
- `TcpConn.GrowsWithin` — a send that has to grow its buffer finds few
  consumed bytes in front of it
- `TcpConn.highWaterCalls`, `TcpConn.highWaterDue` — the calls of the high-water
  callback that a step makes, and those that the backlog asks for

## Main results

- `TcpConn.capacity_bounded` — the capacity depends on the backlog only
- `TcpConn.capacity_unbounded` — without the condition it does not
- `TcpConn.high_water_notified_iff` — when the owner learns of a large backlog
-/

namespace Libasio

open ByteBuffer Transition

namespace ByteBuffer

/-- `Write` grows the buffer to one and a half times what it held and was asked
to hold, or leaves the capacity as it is. -/
theorem capacity_write {b : ByteBuffer} (h : b.WF) (data : Bytes) :
    (data.length ≤ b.validSize ∧ (b.write data).capacity = b.capacity) ∨
    (b.validSize < data.length ∧
      (b.write data).capacity = (b.capacity + data.length) * 3 / 2) := by
  have hroom := room_estimateSize h data.length
  have hcap : (b.write data).capacity = (b.estimateSize data.length).capacity := by
    simp only [write]
    split
    · exact length_overwrite (by rwa [estimateSize_wpos])
    · next hz =>
      rw [estimateSize, if_neg (by omega)]
  rw [hcap, estimateSize]
  by_cases hlt : b.validSize < data.length
  · rw [if_pos hlt]
    exact Or.inr ⟨hlt, length_resizeStorage _ _⟩
  · rw [if_neg hlt]
    exact Or.inl ⟨Nat.le_of_not_lt hlt, rfl⟩

end ByteBuffer

/-- A call of the high-water callback. -/
def Obs.isHighWater : Obs → Bool
  | .highWaterMarkFn _ _ => true
  | _ => false

namespace TcpConn

/-- The buffer that `SendInLoop` appends to. -/
def target (c : TcpConn) : ByteBuffer :=
  if c.asyncWriting ∨ 0 < c.writeBuffer.size then c.writeBuffer else c.writingBuffer

/-- When a payload does not fit behind the write position of its buffer, at most
`slack` consumed bytes are in front of the unread ones. -/
def GrowsWithin (slack : Nat) (c : TcpConn) (e : Event) : Prop :=
  ∀ data, payload c e = some data → c.isOpen = true → c.target.validSize < data.length →
    c.target.rpos ≤ slack

/-- Neither buffer is larger than `n`. -/
def CapacityAtMost (n : Nat) (c : TcpConn) : Prop :=
  c.writeBuffer.capacity ≤ n ∧ c.writingBuffer.capacity ≤ n

/-- The bound on the capacity for a backlog of at most `bound`. -/
def capacityBound (bound slack : Nat) : Nat := max defaultSize (3 * (bound + slack))

/-- How a step treats the output buffers: not at all, by sending, or by consuming
what was written. -/
theorem step_buffers {c c' : TcpConn} {e : Event} (hc : c.step e = some c') :
    (c'.writeBuffer = c.writeBuffer ∧ c'.writingBuffer = c.writingBuffer) ∨
    (∃ fs data, c.payload e = some data ∧ c' = ({ c with posted := fs } : TcpConn).sendInLoop data) ∨
    (∃ region n, c' = ({ c with
      writing := none, trace := c.trace ++ [.handleWrite region (.ok n)] } :
        TcpConn).handleWrite (.ok n)) := by
  rcases step_output hc with ⟨-, hk⟩ | hsend | ⟨region, r, -, -, -, rfl⟩ | ⟨-, region, r, -, rfl⟩
  · exact Or.inl ⟨hk.kept.writeBuffer, hk.kept.writingBuffer⟩
  · exact Or.inr (Or.inl hsend)
  · exact Or.inl ⟨rfl, rfl⟩
  · cases r with
    | ok n => exact Or.inr (Or.inr ⟨region, n, rfl⟩)
    | error =>
      have hk := aside_handleError { c with
        writing := none, trace := c.trace ++ [.handleWrite region .error], asyncWriting := false }
      exact Or.inl ⟨hk.kept.writeBuffer, hk.kept.writingBuffer⟩

theorem asyncWrite_buffers (c : TcpConn) :
    c.asyncWrite.writeBuffer = c.writeBuffer ∧ c.asyncWrite.writingBuffer = c.writingBuffer := by
  simp only [asyncWrite]
  split
  · exact ⟨rfl, rfl⟩
  · exact ⟨rfl, rfl⟩

/-- Consuming and swapping leave the capacities alone. -/
theorem capacity_handleWrite {c : TcpConn} {m n : Nat} (h : CapacityAtMost m c) :
    CapacityAtMost m (c.handleWrite (.ok n)) := by
  simp only [handleWrite]
  split
  · rw [CapacityAtMost, (asyncWrite_buffers _).1, (asyncWrite_buffers _).2]
    exact h
  · split
    · rw [CapacityAtMost, (asyncWrite_buffers _).1, (asyncWrite_buffers _).2]
      exact h.symm
    · exact h

/-- `SendInLoop` on an open socket writes to `target`, and to no other buffer. -/
theorem sendInLoop_buffers {c : TcpConn} (ho : c.isOpen = true) (data : Bytes) :
    ((c.sendInLoop data).writeBuffer = c.target.write data ∧
      (c.sendInLoop data).writingBuffer = c.writingBuffer) ∨
    ((c.sendInLoop data).writingBuffer = c.target.write data ∧
      ((c.sendInLoop data).writeBuffer = c.writeBuffer ∨
        (c.sendInLoop data).writeBuffer = c.writingBuffer)) := by
  rcases sendInLoop_cases c data with ⟨hclosed, -⟩ | ⟨-, hf, he⟩ | ⟨-, hf, tail, -, he⟩
  · rw [ho] at hclosed
    cases hclosed
  · right
    rw [he, (asyncWrite_buffers _).1, (asyncWrite_buffers _).2]
    by_cases hz : 0 < c.writeBuffer.size
    · simp [target, hf, hz, swapBuffers, swap]
    · simp [target, hf, hz]
  · left
    rw [he]
    simp [target, hf]

theorem wf_target {c : TcpConn} (h : OutputInv c) : c.target.WF := by
  rw [target]
  split
  · exact h.wfWrite
  · exact h.wfWriting

theorem capacity_target {c : TcpConn} {n : Nat} (h : CapacityAtMost n c) :
    c.target.capacity ≤ n := by
  rw [target]
  split
  · exact h.1
  · exact h.2

/-- A buffer that grows was too small for what it holds and is to hold. -/
theorem capacity_grown {b : ByteBuffer} {data : Bytes} {bound slack : Nat} (h : b.WF)
    (hgrow : b.validSize < data.length → b.rpos ≤ slack)
    (hsize : b.size + data.length ≤ bound) (hcap : b.capacity ≤ capacityBound bound slack) :
    (b.write data).capacity ≤ capacityBound bound slack := by
  rcases capacity_write h data with ⟨-, he⟩ | ⟨hlt, he⟩
  · rw [he]
    exact hcap
  · have hslack := hgrow hlt
    have hw := h.wpos_le
    have hr := h.rpos_le
    refine le_trans ?_ (le_max_right _ _)
    simp only [validSize, size, capacity] at *
    omega

theorem step_capacity {c c' : TcpConn} {e : Event} {bound slack : Nat} (h : OutputInv c)
    (hb : c'.backlog ≤ bound) (hg : GrowsWithin slack c e)
    (hk : CapacityAtMost (capacityBound bound slack) c) (hc : c.step e = some c') :
    CapacityAtMost (capacityBound bound slack) c' := by
  rcases step_buffers hc with ⟨hw, hwg⟩ | ⟨fs, data, hp, rfl⟩ | ⟨region, n, rfl⟩
  · rw [CapacityAtMost, hw, hwg]
    exact hk
  · by_cases ho : c.isOpen = true
    · have hwf := wf_target h
      have hgrown := @capacity_grown _ data bound slack hwf (hg data hp ho)
      have hsize : c.target.size + data.length = (c.target.write data).size :=
        (size_write hwf data).symm
      rcases @sendInLoop_buffers { c with posted := fs } ho data with ⟨hw, hwg⟩ | ⟨hwg, hw⟩
      · have hle : c.target.size + data.length ≤ bound := by
          rw [hsize]
          refine le_trans ?_ hb
          rw [backlog, hw]
          exact Nat.le_add_right _ _
        refine ⟨?_, ?_⟩
        · rw [hw]
          exact hgrown hle (capacity_target hk)
        · rw [hwg]
          exact hk.2
      · have hle : c.target.size + data.length ≤ bound := by
          rw [hsize]
          refine le_trans ?_ hb
          rw [backlog, hwg]
          exact Nat.le_add_left _ _
        refine ⟨?_, ?_⟩
        · rcases hw with hw | hw
          · rw [hw]
            exact hk.1
          · rw [hw]
            exact hk.2
        · rw [hwg]
          exact hgrown hle (capacity_target hk)
    · have hclosed : ({ c with posted := fs } : TcpConn).isOpen = false := Bool.eq_false_iff.mpr ho
      rw [sendInLoop_closed hclosed]
      exact hk
  · exact capacity_handleWrite hk

/-- **Bounded send memory**: as long as the backlog is at most `bound`, and a
payload that does not fit finds at most `slack` consumed bytes in its buffer,
the capacities depend on these two numbers only. -/
theorem capacity_bounded {c₀ c : TcpConn} {es : List Event} {bound slack : Nat}
    (h₀ : Initial c₀)
    (hr : Runs step (fun c e c' => c'.backlog ≤ bound ∧ GrowsWithin slack c e) c₀ es c) :
    c.writeBuffer.capacity ≤ capacityBound bound slack ∧
      c.writingBuffer.capacity ≤ capacityBound bound slack := by
  have hinit : CapacityAtMost (capacityBound bound slack) c₀ := by
    obtain ⟨name, type, connFn, msgFn, closeFn, rfl⟩ := h₀
    have hnew : ByteBuffer.new.capacity ≤ capacityBound bound slack := by
      rw [ByteBuffer.new, capacity_ofSize]
      exact le_max_left _ _
    exact ⟨hnew, hnew⟩
  exact (run_sound h₀ hr).invariant
    (fun _ _ _ hk hg hc => step_capacity hg.1.output hg.2.1 hg.2.2 hk hc) hinit

theorem capacity_bounded_one_send :
    ∃ c, Runs step (fun c e c' => c'.backlog ≤ 2 ∧ GrowsWithin 0 c e)
      (handedOver "conn" .kIncoming none none .removeConn) [.send true [1, 2]] c ∧
      c.writeBuffer.capacity ≤ capacityBound 2 0 ∧ c.writingBuffer.capacity ≤ capacityBound 2 0 := by
  have h₀ : Initial (handedOver "conn" .kIncoming none none .removeConn) := ⟨_, _, _, _, _, rfl⟩
  have hs := (sound_initial h₀).output
  have hsend := step_send_idle hs rfl rfl (List.cons_ne_nil 1 [2])
  have hgrows : GrowsWithin 0 (handedOver "conn" .kIncoming none none .removeConn)
      (.send true [1, 2]) := fun _ _ _ _ => le_rfl
  obtain ⟨c, hr⟩ : ∃ c, Runs step (fun c e c' => c'.backlog ≤ 2 ∧ GrowsWithin 0 c e)
      (handedOver "conn" .kIncoming none none .removeConn) [.send true [1, 2]] c := by
    refine ⟨_, .single hsend ⟨?_, hgrows⟩⟩
    simp only [backlog, size_write hs.wfWriting]
    exact le_rfl
  exact ⟨c, hr, capacity_bounded h₀ hr⟩

theorem rounds (n : Nat) :
    ∃ es c, Runs step (fun _ _ c' => c'.backlog ≤ 1)
        (handedOver "conn" .kIncoming (some 0) none .removeConn) es c ∧
      Sound c ∧ c.isOpen = true ∧ c.writing = none ∧ c.idle = true ∧
      n ≤ c.writingBuffer.wpos := by
  induction n with
  | zero =>
    refine ⟨_, _, .nil _, sound_initial ⟨_, _, _, _, _, rfl⟩, rfl, rfl, rfl, Nat.zero_le _⟩
  | succ n ih =>
    obtain ⟨es, c, hr, hs, ho, hop, hidle, hn⟩ := ih
    obtain ⟨hr', hs'⟩ := run_round hs ho hop hidle (List.cons_ne_nil 0 [])
    refine ⟨_, _, hr.append hr', hs', ho, rfl, hidle, ?_⟩
    have hw := write_wpos c.writingBuffer [0]
    simp only [rounded, readBytes, hw, List.length_cons, List.length_nil]
    omega

/-- One pending byte at a time is enough to exceed every bound. -/
theorem capacity_unbounded :
    ¬∃ f : Nat → Nat, ∀ (bound : Nat) (c₀ c : TcpConn) (es : List Event), Initial c₀ →
      Runs step (fun _ _ c' => c'.backlog ≤ bound) c₀ es c →
      c.writeBuffer.capacity ≤ f bound ∧ c.writingBuffer.capacity ≤ f bound := by
  rintro ⟨f, hf⟩
  obtain ⟨es, c, hr, hs, -, -, -, hn⟩ := rounds (f 1 + 1)
  have hcap := (hf 1 _ c es ⟨_, _, _, _, _, rfl⟩ hr).2
  have hwpos : c.writingBuffer.wpos ≤ c.writingBuffer.capacity := hs.output.wfWriting.wpos_le
  omega

-- ════════════════════════════════════════════════════════════════════════
-- The high-water mark
-- ════════════════════════════════════════════════════════════════════════

/-- The calls of the high-water callback on the way from `c` to `c'`. -/
def highWaterCalls (c c' : TcpConn) : List Obs :=
  (c'.trace.drop c.trace.length).filter Obs.isHighWater

/-- The call that a backlog above the mark asks for. -/
def highWaterDue (c : TcpConn) : List Obs :=
  match c.highWaterMarkFn with
  | some f => if c.highWaterMark < c.backlog then [.highWaterMarkFn f c.backlog] else []
  | none => []

theorem highWaterCalls_eq {c c' : TcpConn} {t : List Obs} (h : c'.trace = c.trace ++ t) :
    highWaterCalls c c' = t.filter Obs.isHighWater := by
  rw [highWaterCalls, h, List.drop_left]

/-- Behind a write in flight the callback is called when it is due. -/
theorem highWaterCalls_busy {c : TcpConn} (ho : c.isOpen = true) (hw : c.asyncWriting = true)
    (data : Bytes) : highWaterCalls c (c.sendInLoop data) = highWaterDue (c.sendInLoop data) := by
  let d : TcpConn := { c with
    writeBuffer := c.writeBuffer.write data, trace := c.trace ++ [.sendInLoop data true] }
  have hsend : c.sendInLoop data = { d with trace := d.trace ++ highWaterDue d } := by
    simp only [sendInLoop, emit, ho, hw, highWaterDue, backlog, d]
    by_cases hm : c.highWaterMark < (c.writeBuffer.write data).size + c.writingBuffer.size
    · cases c.highWaterMarkFn <;> simp [hm]
    · cases c.highWaterMarkFn <;> simp [hm]
  have hdue : highWaterDue (c.sendInLoop data) = highWaterDue d := by
    rw [hsend]
    rfl
  have htrace : (c.sendInLoop data).trace = c.trace ++ .sendInLoop data true :: highWaterDue d := by
    rw [hsend]
    simp [d]
  have hcalls : (highWaterDue d).filter Obs.isHighWater = highWaterDue d := by
    unfold highWaterDue
    split
    · split <;> rfl
    · rfl
  rw [highWaterCalls_eq htrace, hdue]
  simpa [Obs.isHighWater] using hcalls

/-- With no write in flight the payload is the whole backlog, and nobody is told. -/
theorem highWaterCalls_idle {c : TcpConn} (h : OutputInv c) (ho : c.isOpen = true)
    (hw : c.asyncWriting = false) (data : Bytes) :
    highWaterCalls c (c.sendInLoop data) = [] ∧ (c.sendInLoop data).backlog = data.length ∧
      (c.sendInLoop data).highWaterMark = c.highWaterMark ∧
      (c.sendInLoop data).highWaterMarkFn = c.highWaterMarkFn := by
  have hnone : c.writing = none := by
    have hflag := h.flag
    rw [hw] at hflag
    exact Option.isNone_iff_eq_none.mp (by simpa using hflag.symm)
  obtain ⟨hz, hz'⟩ := h.drained ho hnone
  have hsize : (c.writingBuffer.write data).size = data.length := by
    rw [size_write h.wfWriting, hz, Nat.zero_add]
  by_cases hd : data = []
  · subst hd
    have hsend : c.sendInLoop [] = { c with
        writingBuffer := c.writingBuffer.write []
        trace := c.trace ++ [.sendInLoop [] true] } := by
      simp [sendInLoop, emit, ho, hw, hz', asyncWrite, hsize]
    rw [hsend]
    refine ⟨by rw [highWaterCalls_eq rfl]; rfl, ?_, rfl, rfl⟩
    simp only [backlog, hz', hsize, Nat.zero_add]
  · have hsend := Option.some.inj (step_send_idle h ho hnone hd)
    rw [show c.sendInLoop data = _ from hsend]
    refine ⟨by rw [highWaterCalls_eq rfl]; rfl, ?_, rfl, rfl⟩
    simp only [backlog, hz', hsize, Nat.zero_add]

/-- **High-water notification**: the step that hands a payload to `SendInLoop` on
an open socket calls the callback as the backlog asks for exactly when a write is
in flight already, or the payload alone does not exceed the mark. -/
theorem high_water_notified_iff {c₀ c c' : TcpConn} {es : List Event} {e : Event} {data : Bytes}
    (h₀ : Initial c₀) (hr : Runs step anyStep c₀ es c) (ho : c.isOpen = true)
    (hf : c.highWaterMarkFn ≠ none) (hp : c.payload e = some data) (hc : c.step e = some c') :
    highWaterCalls c c' = highWaterDue c' ↔
      c.asyncWriting = true ∨ data.length ≤ c.highWaterMark := by
  have hs : Sound c := hr.invariant (fun _ _ _ h _ hc => step_sound h hc) (sound_initial h₀)
  obtain ⟨fs, rfl⟩ : ∃ fs, c' = ({ c with posted := fs } : TcpConn).sendInLoop data := by
    obtain ⟨hnone, -⟩ | ⟨fs, data', hp', he⟩ | ⟨region, r, rfl, -⟩ | ⟨rfl, -⟩ := step_output hc
    · rw [hp] at hnone
      cases hnone
    · rw [hp] at hp'
      cases hp'
      exact ⟨fs, he⟩
    · cases hp
    · cases hp
  let b : TcpConn := { c with posted := fs }
  have hb : OutputInv b := ⟨hs.output.wfWriting, hs.output.wfWrite, hs.output.flag,
    hs.output.region, hs.output.fits, hs.output.inFlight, hs.output.drained⟩
  change highWaterCalls b (b.sendInLoop data) = highWaterDue (b.sendInLoop data) ↔ _
  cases hw : c.asyncWriting with
  | true => exact iff_of_true (@highWaterCalls_busy b ho hw data) (.inl rfl)
  | false =>
    obtain ⟨hcalls, hsize, hmark, hfn⟩ := highWaterCalls_idle hb ho hw data
    obtain ⟨f, hf⟩ := Option.ne_none_iff_exists'.mp hf
    have hfn' : (b.sendInLoop data).highWaterMarkFn = some f := hfn.trans hf
    have hmark' : (b.sendInLoop data).highWaterMark = c.highWaterMark := hmark
    rw [hcalls, highWaterDue, hfn', hmark', hsize]
    by_cases hlt : c.highWaterMark < data.length
    · simp [hlt]
    · simp [Nat.le_of_not_lt hlt]

/-- A connection whose owner wants to hear of more than one pending byte. -/
def watched : TcpConn :=
  (handedOver "conn" .kIncoming (some 0) (some 1) .removeConn).setHighWaterMarkCallback (some 2) 1

theorem run_watched : Runs step anyStep (handedOver "conn" .kIncoming (some 0) (some 1) .removeConn)
    [.setHighWaterMarkCallback (some 2) 1] watched := .single rfl trivial

theorem step_send_inLoop (c : TcpConn) (data : Bytes) :
    c.step (.send true data) = some (c.sendInLoop data) := rfl

theorem high_water_notified_one_byte :
    highWaterCalls watched (watched.sendInLoop [1]) = highWaterDue (watched.sendInLoop [1]) :=
  (@high_water_notified_iff _ watched _ _ (.send true [1]) [1] ⟨_, _, _, _, _, rfl⟩ run_watched rfl
    (by simp [watched, setHighWaterMarkCallback]) rfl (step_send_inLoop _ _)).mpr (.inr le_rfl)

/-- Two bytes sent while no write is in flight: the mark is exceeded, and the
callback is not called. -/
theorem high_water_silent_when_idle :
    Runs step anyStep (handedOver "conn" .kIncoming (some 0) (some 1) .removeConn)
      [.setHighWaterMarkCallback (some 2) 1] watched ∧
    watched.isOpen = true ∧ watched.payload (.send true [1, 2]) = some [1, 2] ∧
    watched.step (.send true [1, 2]) = some (watched.sendInLoop [1, 2]) ∧
    highWaterDue (watched.sendInLoop [1, 2]) = [.highWaterMarkFn 2 2] ∧
    highWaterCalls watched (watched.sendInLoop [1, 2]) = [] := by
  have hs : Sound watched := run_watched.invariant (fun _ _ _ h _ hc => step_sound h hc)
    (sound_initial ⟨_, _, _, _, _, rfl⟩)
  obtain ⟨hcalls, hsize, hmark, hfn⟩ := highWaterCalls_idle hs.output rfl rfl [1, 2]
  have hfn' : (watched.sendInLoop [1, 2]).highWaterMarkFn = some 2 := hfn
  have hmark' : (watched.sendInLoop [1, 2]).highWaterMark = 1 := hmark
  refine ⟨run_watched, rfl, rfl, step_send_inLoop _ _, ?_, hcalls⟩
  rw [highWaterDue, hfn', hmark', hsize]
  rfl

end TcpConn

end Libasio
