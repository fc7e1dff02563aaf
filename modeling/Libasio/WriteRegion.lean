import Libasio.Lifecycle
import Libasio.Turns

/-!
# The write in flight

`async_write_some` is given a region of `writing_buffer_`. Until its handler
runs the buffer belongs to the operating system, and `async_writing_` is the
flag that says so.

## Main definitions

- `TcpConn.outstandingWrites` — writes issued minus handlers run, along a trace
- `TcpConn.OneWrite` — the flag counts the outstanding writes

## Main results

- `TcpConn.one_write_in_flight` — never two writes, and their region is stable
- `TcpConn.output_never_stalls` — pending bytes always have a write under way
-/

namespace Libasio

open ByteBuffer Transition

/-- What an observation adds to the number of outstanding writes. -/
def Obs.issued : Obs → Int
  | .asyncWrite _ => 1
  | .handleWrite _ _ => -1
  | _ => 0

theorem Obs.issued_of_not_output {o : Obs} (h : o.isOutput = false) : o.issued = 0 := by
  cases o with
  | sendInLoop | asyncWrite | handleWrite | highWaterMarkFn => cases h
  | asyncRead | handleRead | connFn | msgFn | closeFn => rfl

namespace TcpConn

/-- Writes issued minus write handlers run. -/
def outstandingWrites (trace : List Obs) : Int := (trace.map Obs.issued).sum

/-- At every point of the trace at most one write is outstanding, and at its end
one is exactly when `busy`. -/
structure WritesInTurn (t : List Obs) (busy : Bool) : Prop where
  now : outstandingWrites t = if busy then 1 else 0
  always : ∀ p, p <+: t → outstandingWrites p = 0 ∨ outstandingWrites p = 1

/-- Writes are operations in turn. -/
theorem writesInTurn_iff {t : List Obs} {busy : Bool} :
    WritesInTurn t busy ↔ Turns.InTurn Obs.issued t busy :=
  ⟨fun h => ⟨h.now, h.always⟩, fun h => ⟨h.now, h.always⟩⟩

theorem WritesInTurn.snoc {t : List Obs} {busy busy' : Bool} {o : Obs} (h : WritesInTurn t busy)
    (ho : (if busy then 1 else 0) + o.issued = if busy' then 1 else 0) :
    WritesInTurn (t ++ [o]) busy' :=
  writesInTurn_iff.mpr ((writesInTurn_iff.mp h).snoc ho)

/-- Observations that are no writes. -/
theorem WritesInTurn.append {t u : List Obs} {busy : Bool} (h : WritesInTurn t busy)
    (hu : ∀ o ∈ u, o.issued = 0) : WritesInTurn (t ++ u) busy :=
  writesInTurn_iff.mpr ((writesInTurn_iff.mp h).append hu)

/-- The flag counts the outstanding writes, and none is for an empty region. -/
structure OneWrite (c : TcpConn) : Prop where
  inTurn : WritesInTurn c.trace c.asyncWriting
  nonempty : ∀ op, c.writing = some op → op.region ≠ []

theorem oneWrite_initial {c : TcpConn} (h : Initial c) : OneWrite c := by
  obtain ⟨name, type, connFn, msgFn, closeFn, rfl⟩ := h
  exact ⟨writesInTurn_iff.mpr (Turns.InTurn.nil _), by rintro op ⟨⟩⟩

/-- A step of the rest of the connection does not count. -/
theorem OneWrite.aside {c c' : TcpConn} (h : OneWrite c) (hk : Aside c c') : OneWrite c' := by
  obtain ⟨hk, u, ht, hu⟩ := hk
  refine ⟨?_, ?_⟩
  · rw [ht, hk.asyncWriting]
    exact h.inTurn.append fun o ho => Obs.issued_of_not_output (hu o ho)
  · rcases hk.writing with ⟨-, hop⟩ | ⟨-, hop⟩
    · rw [hop]
      exact h.nonempty
    · intro op he
      rw [hop] at he
      obtain ⟨op', he', rfl⟩ := Option.map_eq_some_iff.mp he
      exact h.nonempty op' he'

/-- `AsyncWrite` with no write outstanding. -/
theorem oneWrite_asyncWrite {c : TcpConn} (hg : c.writingBuffer.WF) (hf : c.asyncWriting = false)
    (hop : c.writing = none) (ht : WritesInTurn c.trace false) : OneWrite c.asyncWrite := by
  rcases asyncWrite_cases hf with ⟨-, he⟩ | ⟨hpos, he⟩
  · rw [he]
    exact ⟨hf ▸ ht, by simp [hop]⟩
  · rw [he]
    refine ⟨ht.snoc rfl, ?_⟩
    rintro op ⟨⟩ hnil
    have hz := (readable_eq_nil_iff hg).mp hnil
    omega

theorem oneWrite_sendInLoop {c : TcpConn} (h : OutputInv c) (hw : OneWrite c) (data : Bytes) :
    OneWrite (c.sendInLoop data) := by
  rcases sendInLoop_cases c data with ⟨-, he⟩ | ⟨ho, hf, he⟩ | ⟨-, hf, tail, htail, he⟩
  · rw [he]
    exact ⟨hw.inTurn.snoc (by simp [Obs.issued]), hw.nonempty⟩
  · have hop : c.writing = none := by simpa [hf] using h.flag
    obtain ⟨-, hz⟩ := h.drained ho hop
    rw [he, if_neg (by omega)]
    refine oneWrite_asyncWrite (wf_write h.wfWriting data) hf hop ?_
    exact (hf ▸ hw.inTurn).snoc rfl
  · rw [he]
    refine ⟨hw.inTurn.append fun o ho => ?_, hw.nonempty⟩
    rcases List.mem_cons.mp ho with rfl | ho
    · rfl
    · rcases htail with rfl | ⟨f, n, rfl⟩
      · cases ho
      · obtain rfl := List.mem_singleton.mp ho
        rfl

/-- The handler of a write takes it off the count before it issues another one. -/
theorem oneWrite_handleWrite {c : TcpConn} {region : Bytes} {r : WriteResult} (h : OutputInv c)
    (hw : OneWrite c) (hop : c.writing = some ⟨region, some r⟩) :
    OneWrite (({ c with writing := none, trace := c.trace ++ [.handleWrite region r] } :
      TcpConn).handleWrite r) := by
  have hf : c.asyncWriting = true := h.flag.trans (by rw [hop]; rfl)
  have ht : WritesInTurn (c.trace ++ [.handleWrite region r]) false := (hf ▸ hw.inTurn).snoc rfl
  cases r with
  | error =>
    let c₁ : TcpConn := { c with
      writing := none, trace := c.trace ++ [.handleWrite region .error], asyncWriting := false }
    have hw₁ : OneWrite c₁ := ⟨ht, by rintro op ⟨⟩⟩
    exact hw₁.aside (aside_handleError c₁)
  | ok n =>
    have hn : n ≤ c.writingBuffer.size := by
      rw [← length_readable h.wfWriting, ← h.region _ hop]
      exact h.fits _ n hop rfl
    have hg : (c.writingBuffer.readBytes n).WF := wf_readBytes h.wfWriting hn
    simp only [handleWrite]
    split
    · exact oneWrite_asyncWrite hg rfl rfl ht
    · split
      · exact oneWrite_asyncWrite h.wfWrite rfl rfl ht
      · exact ⟨ht, by rintro op ⟨⟩⟩

theorem step_oneWrite {c c' : TcpConn} {e : Event} (h : OutputInv c) (hw : OneWrite c)
    (hc : c.step e = some c') : OneWrite c' := by
  rcases step_output hc with ⟨-, hk⟩ | ⟨fs, data, -, rfl⟩ | ⟨region, r, -, hop, -, rfl⟩ |
    ⟨-, region, r, hop, rfl⟩
  · exact hw.aside hk
  · have hk : Aside c { c with posted := fs } := aside_same rfl rfl rfl (Or.inl rfl) rfl rfl
    exact oneWrite_sendInLoop (hk.kept.inv h) (hw.aside hk) data
  · refine ⟨hw.inTurn, ?_⟩
    rintro op ⟨⟩
    exact hw.nonempty ⟨region, none⟩ hop
  · exact oneWrite_handleWrite h hw hop

-- ════════════════════════════════════════════════════════════════════════
-- The region
-- ════════════════════════════════════════════════════════════════════════

theorem run_oneWrite {c₀ c : TcpConn} {es : List Event} (h₀ : Initial c₀)
    (hr : Runs step anyStep c₀ es c) : OneWrite c := by
  have hkeep : ∀ s e t, OneWrite s → (Sound s ∧ anyStep s e t) → s.step e = some t → OneWrite t :=
    fun s e t hw hs hc => step_oneWrite hs.1.output hw hc
  exact (run_sound h₀ hr).invariant hkeep (oneWrite_initial h₀)

/-- Bytes are pending on an open connection only while a write is outstanding. -/
theorem writing_of_pending {c : TcpConn} (h : OutputInv c) (ho : c.isOpen = true)
    (hp : c.pending ≠ []) : ∃ op, c.writing = some op := by
  by_contra hn
  have hop : c.writing = none := by
    cases hop : c.writing with
    | none => rfl
    | some op => exact absurd ⟨op, hop⟩ hn
  obtain ⟨hz, hz'⟩ := h.drained ho hop
  apply hp
  rw [pending, (readable_eq_nil_iff h.wfWriting).mpr hz, (readable_eq_nil_iff h.wfWrite).mpr hz']
  rfl

/-- The handler of a write of `n` bytes consumes them, and no others. -/
theorem pending_handleWrite {c c' : TcpConn} {op : WriteOp} {n : Nat} (h : Sound c)
    (hop : c.writing = some op) (hn : op.result = some (.ok n))
    (hc : c.step .handleWrite = some c') :
    c'.isOpen = c.isOpen ∧ c'.pending = c.pending.drop n := by
  obtain ⟨ch, hs⟩ := h.stream
  obtain ⟨region, r, hop', -, rfl⟩ := startWrite_cases hc
  obtain rfl : op = ⟨region, some r⟩ := Option.some.inj (hop.symm.trans hop')
  obtain rfl : r = .ok n := Option.some.inj hn
  have hpop := (handleWrite_pop h.output hs hop').2
  obtain ⟨_, _, _, _, _, he, -⟩ := outputOnly_handleWrite
    { c with writing := none, trace := c.trace ++ [.handleWrite region (.ok n)] } n
  refine ⟨by rw [he], ?_⟩
  rw [← hpop.pending, ← hs.pending]
  rfl

/-- **Output never stalls**: on an open connection without an outstanding write both
buffers are empty. Where bytes are pending, the outstanding write is for a non-empty
front of them, and a completion with `n` bytes goes on with what is left. -/
theorem output_never_stalls {c₀ c : TcpConn} {es : List Event} (h₀ : Initial c₀)
    (hr : Runs step anyStep c₀ es c) (hopen : c.isOpen = true) :
    (c.asyncWriting = false → c.writeBuffer.size = 0 ∧ c.writingBuffer.size = 0) ∧
    (c.pending ≠ [] → c.asyncWriting = true ∧
      ∃ op, c.writing = some op ∧ op.region ≠ [] ∧ op.region <+: c.pending ∧
        ∀ n c', op.result = some (.ok n) → c.step .handleWrite = some c' →
          c'.isOpen = true ∧ c'.pending = c.pending.drop n ∧
            (c'.pending ≠ [] → c'.asyncWriting = true)) := by
  have hw := run_oneWrite h₀ hr
  have hs : Sound c := (run_sound h₀ hr).invariant
    (fun _ _ _ h _ hc => step_sound h hc) (sound_initial h₀)
  have ho := hs.output
  refine ⟨fun hf => ?_, fun hp => ?_⟩
  · have hop : c.writing = none := by simpa [hf] using ho.flag
    exact (ho.drained hopen hop).symm
  · obtain ⟨op, hop⟩ := writing_of_pending ho hopen hp
    refine ⟨ho.flag.trans (by rw [hop]; rfl), op, hop, hw.nonempty op hop, ?_, ?_⟩
    · rw [ho.region op hop]
      exact List.prefix_append _ _
    · intro n c' hn hc
      obtain ⟨hopen', hdrop⟩ := pending_handleWrite hs hop hn hc
      refine ⟨hopen'.trans hopen, hdrop, fun hp' => ?_⟩
      have ho' := (step_sound hs hc).output
      obtain ⟨op', hop'⟩ := writing_of_pending ho' (hopen'.trans hopen) hp'
      exact ho'.flag.trans (by rw [hop']; rfl)

theorem output_never_stalls_zero_bytes :
    ∃ c, Runs step anyStep (handedOver "conn" .kIncoming none none .removeConn)
      [.send true [1, 2], .writeReady (.ok 0), .handleWrite] c ∧ c.isOpen = true ∧
      (c.asyncWriting = false → c.writeBuffer.size = 0 ∧ c.writingBuffer.size = 0) := by
  have h₀ : Initial (handedOver "conn" .kIncoming none none .removeConn) := ⟨_, _, _, _, _, rfl⟩
  let c₁ : TcpConn := { handedOver "conn" .kIncoming none none .removeConn with
    asyncWriting := true
    writingBuffer := ByteBuffer.new.write [1, 2]
    writing := some ⟨[1, 2], none⟩
    trace := [.sendInLoop [1, 2] true, .asyncWrite [1, 2]] }
  let c₂ : TcpConn := { c₁ with writing := some ⟨[1, 2], some (.ok 0)⟩ }
  have hsend : (handedOver "conn" .kIncoming none none .removeConn).step (.send true [1, 2]) =
      some c₁ := step_send_idle (outputInv_initial h₀).1 rfl rfl (List.cons_ne_nil 1 [2])
  have hready : c₁.step (.writeReady (.ok 0)) = some c₂ :=
    step_writeReady rfl (decide_eq_true (Nat.zero_le 2))
  have hr₂ : Runs step anyStep (handedOver "conn" .kIncoming none none .removeConn)
      [.send true [1, 2], .writeReady (.ok 0)] c₂ :=
    .cons hsend trivial (.single hready trivial)
  have hs₂ : Sound c₂ := hr₂.invariant (fun _ _ _ h _ hc => step_sound h hc) (sound_initial h₀)
  obtain ⟨c₃, hc⟩ : ∃ c₃, c₂.step .handleWrite = some c₃ := ⟨_, rfl⟩
  have ho : c₃.isOpen = true := (pending_handleWrite hs₂ rfl rfl hc).1
  have hr : Runs step anyStep (handedOver "conn" .kIncoming none none .removeConn)
      [.send true [1, 2], .writeReady (.ok 0), .handleWrite] c₃ := hr₂.snoc hc trivial
  exact ⟨c₃, hr, ho, (output_never_stalls h₀ hr ho).1⟩

end TcpConn

end Libasio
