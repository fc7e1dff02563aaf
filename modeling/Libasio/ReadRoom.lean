import Libasio.Lifecycle

/-!
# Room for the next read

The receive buffer keeps its first capacity for ever: nothing calls
`EnsureValidSize`. Whether a read is issued with room depends on what the
message callback leaves behind the position of its last `Normalize`.

## Main definitions

- `Load`, `Load.next` — the bytes in the buffer, counted from the inputs
- `TcpConn.WindsBack` — the callback always returns with less than a full load

## Main results

- `TcpConn.read_has_room_iff` — every read has room exactly under that condition
-/

namespace Libasio

open ByteBuffer Transition

def Obs.isRead : Obs → Bool
  | .asyncRead _ => true
  | _ => false

theorem Obs.isRead_of_isOutput {o : Obs} (h : o.isOutput = true) : o.isRead = false := by
  cases o <;> simp_all [isOutput, isRead]

/-- What the peer and the message callback have done so far: the bytes not
consumed yet, and the bytes left at the last `Normalize` or received since. -/
structure Load where
  unread : Nat
  tail : Nat

open TcpConn in
def Load.next (l : Load) : Event → Load
  | .readReady (.ok data) => ⟨l.unread + data.length, l.tail + data.length⟩
  | .editRecv (.consume k true) => ⟨l.unread - k, l.unread - k⟩
  | .editRecv (.consume k false) => ⟨l.unread - k, l.tail⟩
  | _ => l

namespace TcpConn

/-- The message callback only consumes, and not more than there is. -/
def Feeds (c : TcpConn) (e : Event) (_ : TcpConn) : Prop :=
  ∀ edit, e = .editRecv edit →
    ∃ k normalize, edit = .consume k normalize ∧ k ≤ c.recvBuffer.size

/-- The message callback returns with less than a full buffer since its last
`Normalize`. -/
def Returns (l : Load) (c : TcpConn) (e : Event) : Prop :=
  e = .resume → c.frame = some .message → l.tail < defaultSize

/-- It does so throughout the run over `es`. -/
def WindsBack (l : Load) (c : TcpConn) : List Event → Prop
  | [] => True
  | e :: es => Returns l c e ∧ ∀ c', c.step e = some c' → WindsBack (l.next e) c' es

/-- Every read was issued with room. -/
def Roomy (trace : List Obs) : Prop := ∀ room, .asyncRead room ∈ trace → 0 < room

/-- The data of a read that waits for its handler. -/
def queued (c : TcpConn) : Bytes :=
  match c.reading with
  | some ⟨_, some (.ok data)⟩ => data
  | _ => []

/-- The load is what the buffer and the read that waits hold. -/
structure Fed (l : Load) (c : TcpConn) : Prop where
  wf : c.recvBuffer.WF
  capacity : c.recvBuffer.capacity = defaultSize
  tail : c.recvBuffer.wpos + c.queued.length = l.tail
  unread : c.recvBuffer.size + c.queued.length = l.unread
  room : ∀ op, c.reading = some op → op.room = c.recvBuffer.validSize
  fits : ∀ room data, c.reading = some ⟨room, some (.ok data)⟩ → data.length ≤ room

/-- The input side is as before, except that a read in flight may have failed. -/
structure InputKept (c c' : TcpConn) : Prop where
  recvBuffer : c'.recvBuffer = c.recvBuffer
  reading : c'.reading = c.reading ∨ c'.reading = c.reading.map .abort
  spares : Spares Obs.isRead c c'

theorem roomy_spares {c c' : TcpConn} (h : Spares Obs.isRead c c') :
    Roomy c'.trace ↔ Roomy c.trace := by
  obtain ⟨t, ht, hn⟩ := h
  have hmem : ∀ room, Obs.asyncRead room ∈ c'.trace ↔ Obs.asyncRead room ∈ c.trace := by
    intro room
    rw [ht, List.mem_append]
    constructor
    · rintro (h | h)
      · exact h
      · exact absurd (hn _ h) (by simp [Obs.isRead])
    · exact Or.inl
  simp only [Roomy, hmem]

theorem queued_abort {c c' : TcpConn} (h : c'.reading = c.reading.map .abort) :
    c'.queued = c.queued := by
  rcases hr : c.reading with _ | ⟨room, _ | _ | _ | _⟩ <;> simp [queued, h, hr, ReadOp.abort]

theorem InputKept.fed {c c' : TcpConn} {l : Load} (h : Fed l c) (hk : InputKept c c') :
    Fed l c' := by
  obtain ⟨hb, hr, -⟩ := hk
  rcases hr with hr | hr
  · have hq : c'.queued = c.queued := by rw [queued, queued, hr]
    refine ⟨hb ▸ h.wf, by rw [hb, h.capacity], by rw [hb, hq, h.tail], by rw [hb, hq, h.unread],
      ?_, ?_⟩
    · rw [hr, hb]
      exact h.room
    · rw [hr]
      exact h.fits
  · have hq := queued_abort hr
    refine ⟨hb ▸ h.wf, by rw [hb, h.capacity], by rw [hb, hq, h.tail], by rw [hb, hq, h.unread],
      ?_, ?_⟩
    · intro op hop
      rw [hr, Option.map_eq_some_iff] at hop
      obtain ⟨op', hop', rfl⟩ := hop
      rw [hb]
      exact h.room op' hop'
    · intro room data hop
      rw [hr, Option.map_eq_some_iff] at hop
      obtain ⟨⟨room', r⟩, hop', he⟩ := hop
      rcases r with _ | _ | _ | _
      · cases he
      · cases he
        exact h.fits _ _ hop'
      · cases he
      · cases he

theorem inputKept_one {c c' : TcpConn} {o : Obs} (hb : c'.recvBuffer = c.recvBuffer)
    (hr : c'.reading = c.reading ∨ c'.reading = c.reading.map .abort)
    (ht : c'.trace = c.trace ++ [o]) (ho : o.isRead = false) : InputKept c c' :=
  ⟨hb, hr, spares_one ht ho⟩

theorem inputKept_same {c c' : TcpConn} (hb : c'.recvBuffer = c.recvBuffer)
    (hr : c'.reading = c.reading ∨ c'.reading = c.reading.map .abort)
    (ht : c'.trace = c.trace) : InputKept c c' :=
  ⟨hb, hr, spares_same ht⟩

theorem OutputOnly.inputKept {c c' : TcpConn} (h : OutputOnly c c') : InputKept c c' := by
  refine ⟨?_, Or.inl ?_, h.spares fun _ => Obs.isRead_of_isOutput⟩
  all_goals
    obtain ⟨_, _, _, _, _, rfl, -⟩ := h
    rfl

theorem inputKept_handleError (c : TcpConn) : InputKept c c.handleError := by
  obtain ⟨status, frame, tail, he, -, -, htail⟩ := handleError_eq c
  rw [he]
  refine ⟨rfl, Or.inr rfl, tail, rfl, fun o ho => ?_⟩
  rcases htail o ho with ⟨f, rfl⟩ | ⟨f, rfl⟩ <;> rfl

theorem inputKept_callCloseFn (c : TcpConn) : InputKept c c.callCloseFn := by
  simp only [callCloseFn]
  cases c.closeFn with
  | some f => exact inputKept_one rfl (Or.inl rfl) rfl rfl
  | none => exact inputKept_same rfl (Or.inl rfl) rfl

theorem inputKept_onAttachedToLoop (c : TcpConn) : InputKept c c.onAttachedToLoop := by
  simp only [onAttachedToLoop]
  cases c.connFn with
  | some f => exact inputKept_one rfl (Or.inl rfl) rfl rfl
  | none => exact inputKept_same rfl (Or.inl rfl) rfl

theorem inputKept_handleRead (c : TcpConn) (data : Bytes) :
    InputKept { c with recvBuffer := (c.recvBuffer.copyIn data).writeBytes data.length }
      (c.handleRead (.ok data)) := by
  simp only [handleRead]
  cases c.msgFn with
  | some f => exact inputKept_one rfl (Or.inl rfl) rfl rfl
  | none => exact inputKept_same rfl (Or.inl rfl) rfl

/-- A read is issued on what the last message callback left. -/
theorem asyncRead_fed {c : TcpConn} {l : Load} (h : Fed l c) (hr : c.reading = none) :
    Fed l c.asyncRead ∧
      (Roomy c.asyncRead.trace ↔ Roomy c.trace ∧ 0 < c.recvBuffer.validSize) := by
  have hq : c.queued = [] := by rw [queued, hr]
  have hq' : c.asyncRead.queued = [] := by
    simp only [queued, asyncRead, emit]
    by_cases hz : c.recvBuffer.validSize = 0
    · simp [hz]
    · cases ho : c.isOpen <;> simp [hz]
  refine ⟨⟨h.wf, h.capacity, ?_, ?_, ?_, ?_⟩, ?_⟩
  · rw [hq', ← hq]
    exact h.tail
  · rw [hq', ← hq]
    exact h.unread
  · rintro op ⟨⟩
    rfl
  · intro room data hop
    have hdata : c.asyncRead.queued = data := by rw [queued, hop]
    rw [← hdata, hq']
    exact Nat.zero_le _
  · simp only [Roomy, asyncRead, emit, List.mem_append, List.mem_singleton, Obs.asyncRead.injEq]
    constructor
    · intro hroom
      exact ⟨fun room hm => hroom room (Or.inl hm), hroom _ (Or.inr rfl)⟩
    · rintro ⟨hroom, hpos⟩ room (hm | rfl)
      · exact hroom room hm
      · exact hpos

/-- The bytes read are appended before the message callback sees them. -/
theorem fed_handleRead {c : TcpConn} {l : Load} {room : Nat} {data : Bytes} (h : Fed l c)
    (hr : c.reading = some ⟨room, some (.ok data)⟩) :
    Fed l (({ c with reading := none, trace := c.trace ++ [.handleRead (.ok data)] } :
      TcpConn).handleRead (.ok data)) := by
  have hroom : room = c.recvBuffer.validSize := h.room _ hr
  have hfits : data.length ≤ c.recvBuffer.validSize := hroom ▸ h.fits room data hr
  have hq : c.queued = data := by rw [queued, hr]
  obtain ⟨hwf, hcap, htail, hunread, -, -⟩ := h
  obtain ⟨hle, hle'⟩ := hwf
  rw [hq] at htail hunread
  simp only [validSize] at hfits
  have hlen : (overwrite c.recvBuffer.storage c.recvBuffer.wpos data).length =
      c.recvBuffer.storage.length := length_overwrite (by omega)
  have hfed : Fed l { c with
      reading := none, trace := c.trace ++ [.handleRead (.ok data)]
      recvBuffer := (c.recvBuffer.copyIn data).writeBytes data.length } := by
    refine ⟨⟨?_, ?_⟩, ?_, ?_, ?_, by simp, by simp⟩
    · simp only [writeBytes, copyIn]
      omega
    · simp only [writeBytes, copyIn, hlen]
      omega
    · exact hlen.trans hcap
    · exact htail
    · simp only [writeBytes, copyIn, size, queued, List.length_nil] at hunread ⊢
      omega
  exact (inputKept_handleRead
    { c with reading := none, trace := c.trace ++ [.handleRead (.ok data)] } data).fed hfed

theorem fed_consume {c : TcpConn} {l : Load} {k : Nat} {normalize : Bool} (h : Fed l c)
    (hr : c.reading = none) (hk : k ≤ c.recvBuffer.size) :
    Fed (l.next (.editRecv (.consume k normalize)))
      { c with recvBuffer := (Edit.consume k normalize).apply c.recvBuffer } := by
  have hq : c.queued = [] := by rw [queued, hr]
  obtain ⟨hwf, hcap, htail, hunread, -, -⟩ := h
  rw [hq, List.length_nil, Nat.add_zero] at htail hunread
  have hq' : ∀ b, ({ c with recvBuffer := b } : TcpConn).queued = [] := fun _ => hq
  have hwf' := wf_readBytes hwf hk
  have hsize : (c.recvBuffer.readBytes k).size = l.unread - k := by
    simp only [readBytes, size] at hunread ⊢
    omega
  cases normalize with
  | true =>
    refine ⟨wf_normalize hwf', (capacity_normalize hwf').trans hcap, ?_, ?_, ?_, ?_⟩
    · rw [hq']
      exact (normalize_wpos _).trans hsize
    · rw [hq']
      exact (size_normalize _).trans hsize
    · simp [hr]
    · simp [hr]
  | false =>
    refine ⟨hwf', hcap, ?_, ?_, ?_, ?_⟩
    · rw [hq']
      exact htail
    · rw [hq']
      exact hsize
    · simp [hr]
    · simp [hr]

/-- What a read delivers counts as unread before its handler runs. -/
theorem fed_readReady {c : TcpConn} {l : Load} {room : Nat} {r : ReadResult} (h : Fed l c)
    (hr : c.reading = some ⟨room, none⟩) (hfits : r.fits room = true) :
    Fed (l.next (.readReady r)) { c with reading := some ⟨room, some r⟩ } := by
  have hq : c.queued = [] := by rw [queued, hr]
  have hroom : room = c.recvBuffer.validSize := h.room _ hr
  have htail := h.tail
  have hunread := h.unread
  rw [hq, List.length_nil, Nat.add_zero] at htail hunread
  cases r with
  | ok data =>
    simp only [ReadResult.fits, decide_eq_true_eq] at hfits
    refine ⟨h.wf, h.capacity, ?_, ?_, ?_, ?_⟩
    · exact congrArg (· + data.length) htail
    · exact congrArg (· + data.length) hunread
    · rintro op ⟨⟩
      exact hroom
    · rintro room' data' ⟨⟩
      exact hfits.2
  | eof | error =>
    refine ⟨h.wf, h.capacity, htail, hunread, ?_, by simp⟩
    rintro op ⟨⟩
    exact hroom

/-- The end of a callback: only a message callback can leave a full buffer. -/
theorem fed_resume {c : TcpConn} {f : Frame} {l : Load} (hl : LiveInv c) (h : Fed l c)
    (hf : c.frame = some f) :
    Fed l (c.resume f) ∧ (Roomy (c.resume f).trace ↔ Returns l c .resume ∧ Roomy c.trace) := by
  have h₁ : Fed l { c with frame := none } := ⟨h.wf, h.capacity, h.tail, h.unread, h.room, h.fits⟩
  have other : f ≠ .message → ∀ {c'}, InputKept c c' →
      Fed l c' ∧ (Roomy c'.trace ↔ Returns l c .resume ∧ Roomy c.trace) := by
    intro hm c' hk
    refine ⟨hk.fed h, ?_⟩
    rw [roomy_spares hk.spares]
    refine ⟨fun hroom => ⟨fun _ hfm => ?_, hroom⟩, And.right⟩
    rw [hf] at hfm
    exact absurd (Option.some.inj hfm) hm
  cases f with
  | attached =>
    have hroom : 0 < c.recvBuffer.validSize := by
      rw [hl.fresh (Or.inr hf), validSize_new]
      decide
    obtain ⟨hfed, hiff⟩ := asyncRead_fed h₁ (hl.attached (Or.inl hf)).2
    refine ⟨hfed, hiff.trans ⟨fun hr => ⟨fun _ hfm => ?_, hr.1⟩, fun hr => ⟨hr.2, hroom⟩⟩⟩
    rw [hf] at hfm
    cases hfm
  | message =>
    have hr := (hl.attached (Or.inr hf)).2
    obtain ⟨hfed, hiff⟩ := asyncRead_fed h₁ hr
    have htail := h.tail
    rw [show c.queued = [] by rw [queued, hr], List.length_nil, Nat.add_zero] at htail
    have hiff' : 0 < c.recvBuffer.validSize ↔ l.tail < defaultSize := by
      rw [← h.capacity, ← htail, validSize, capacity]
      omega
    refine ⟨hfed, hiff.trans ⟨fun hr => ⟨fun _ _ => hiff'.mp hr.2, hr.1⟩, fun hr => ⟨hr.2, ?_⟩⟩⟩
    exact hiff'.mpr (hr.1 rfl hf)
  | closing =>
    have hk : InputKept c { c with frame := none } := inputKept_same rfl (Or.inl rfl) rfl
    obtain ⟨hb, hr, hs⟩ := inputKept_callCloseFn { c with frame := none }
    exact other (by simp) ⟨hb, hr, hk.spares.trans hs⟩
  | removing => exact other (by simp) (inputKept_same rfl (Or.inl rfl) rfl)

/-- What one step does to the load and to the room of the reads. -/
theorem step_fed {c c' : TcpConn} {e : Event} {l : Load} (hl : LiveInv c) (h : Fed l c)
    (hg : Feeds c e c') (hc : c.step e = some c') :
    Fed (l.next e) c' ∧ (Roomy c'.trace ↔ Returns l c e ∧ Roomy c.trace) := by
  have kept : ∀ {c'}, l.next e = l → e ≠ .resume → InputKept c c' →
      Fed (l.next e) c' ∧ (Roomy c'.trace ↔ Returns l c e ∧ Roomy c.trace) := by
    intro c' hn he hk
    refine ⟨by rw [hn]; exact hk.fed h, ?_⟩
    rw [roomy_spares hk.spares]
    exact ⟨fun hroom => ⟨fun he' => absurd he' he, hroom⟩, And.right⟩
  cases e with
  | send inLoop data =>
    cases hc
    cases inLoop with
    | true => exact kept rfl (by simp) (outputOnly_sendInLoop c data).inputKept
    | false => exact kept rfl (by simp) (inputKept_same rfl (Or.inl rfl) rfl)
  | close | setConnCallback _ | setMessageCallback _ | setHighWaterMarkCallback _ _
  | setCloseCallback _ =>
    cases hc
    exact kept rfl (by simp) (inputKept_same rfl (Or.inl rfl) rfl)
  | editRecv edit =>
    obtain ⟨hf, ⟨⟩⟩ := Option.ite_none_right_eq_some.mp hc
    obtain ⟨k, normalize, rfl, hk⟩ := hg edit rfl
    refine ⟨fed_consume h (hl.attached (Or.inr hf)).2 hk, ?_⟩
    exact ⟨fun hroom => ⟨by rintro ⟨⟩, hroom⟩, And.right⟩
  | readReady r =>
    obtain ⟨room, hr, hfits, rfl⟩ := readReady_cases hc
    exact ⟨fed_readReady h hr hfits, fun hroom => ⟨by rintro ⟨⟩, hroom⟩, And.right⟩
  | writeReady r =>
    obtain ⟨region, -, -, rfl⟩ := writeReady_cases hc
    exact kept rfl (by simp) (inputKept_same rfl (Or.inl rfl) rfl)
  | runPosted =>
    obtain ⟨f, fs, -, -, rfl⟩ := runPosted_cases hc
    have hfs : InputKept c { c with posted := fs } := inputKept_same rfl (Or.inl rfl) rfl
    cases f with
    | onAttachedToLoop =>
      obtain ⟨hb, hr, hs⟩ := inputKept_onAttachedToLoop { c with posted := fs }
      exact kept rfl (by simp) ⟨hb, hr, hfs.spares.trans hs⟩
    | closeSocket => exact kept rfl (by simp) (inputKept_same rfl (Or.inr rfl) rfl)
    | sendStringInLoop message =>
      obtain ⟨hb, hr, hs⟩ := (outputOnly_sendInLoop { c with posted := fs } message).inputKept
      exact kept rfl (by simp) ⟨hb, hr, hfs.spares.trans hs⟩
  | handleRead =>
    obtain ⟨room, r, hr, -, rfl⟩ := startRead_cases hc
    let c₁ : TcpConn := { c with reading := none, trace := c.trace ++ [.handleRead r] }
    have hone : Spares Obs.isRead c c₁ := spares_one rfl rfl
    have hroomy : ∀ {c'}, Spares Obs.isRead c₁ c' →
        (Roomy c'.trace ↔ Returns l c .handleRead ∧ Roomy c.trace) := by
      intro c' hs
      rw [roomy_spares (hone.trans hs)]
      exact ⟨fun hroom => ⟨by rintro ⟨⟩, hroom⟩, And.right⟩
    cases r with
    | ok data => exact ⟨fed_handleRead h hr, hroomy (inputKept_handleRead c₁ data).spares⟩
    | eof | error =>
      have hq : c.queued = [] := by rw [queued, hr]
      have h₁ : Fed l c₁ := by
        refine ⟨h.wf, h.capacity, ?_, ?_, by simp [c₁], by simp [c₁]⟩
        · rw [← h.tail, hq]
          rfl
        · rw [← h.unread, hq]
          rfl
      exact ⟨(inputKept_handleError c₁).fed h₁, hroomy (inputKept_handleError c₁).spares⟩
  | handleWrite =>
    obtain ⟨region, r, -, -, rfl⟩ := startWrite_cases hc
    have ho : InputKept c { c with writing := none, trace := c.trace ++ [.handleWrite region r] } :=
      inputKept_one rfl (Or.inl rfl) rfl rfl
    cases r with
    | ok n =>
      obtain ⟨hb, hr, hs⟩ := (outputOnly_handleWrite { c with
        writing := none, trace := c.trace ++ [.handleWrite region (.ok n)] } n).inputKept
      exact kept rfl (by simp) ⟨hb, hr, ho.spares.trans hs⟩
    | error =>
      obtain ⟨hb, hr, hs⟩ := inputKept_handleError { c with
        writing := none, trace := c.trace ++ [.handleWrite region .error], asyncWriting := false }
      exact kept rfl (by simp) ⟨hb, hr, ho.spares.trans hs⟩
  | resume =>
    obtain ⟨f, hf, rfl⟩ := Option.map_eq_some_iff.mp hc
    exact fed_resume hl h hf
  | throw =>
    obtain ⟨f, -, rfl⟩ := Option.map_eq_some_iff.mp hc
    exact kept rfl (by simp) (inputKept_same rfl (Or.inl rfl) rfl)

theorem run_fed {c c' : TcpConn} {es : List Event} {l : Load}
    (hr : Runs step (fun s e t => Sound s ∧ Feeds s e t) c es c') (h : Fed l c) :
    Roomy c'.trace ↔ WindsBack l c es ∧ Roomy c.trace := by
  induction hr generalizing l with
  | nil => exact ⟨fun hroom => ⟨trivial, hroom⟩, And.right⟩
  | @cons s t u e es hs hg hr ih =>
    obtain ⟨hfed, hroomy⟩ := step_fed hg.1.live h hg.2 hs
    rw [ih hfed, hroomy]
    constructor
    · rintro ⟨hw, hret, hroom⟩
      refine ⟨⟨hret, fun t' ht' => ?_⟩, hroom⟩
      rw [hs] at ht'
      cases ht'
      exact hw
    · rintro ⟨⟨hret, hw⟩, hroom⟩
      exact ⟨hw t hs, hret, hroom⟩

/-- **Room for the next read**: every read is issued with room exactly when the
message callback always returns with fewer bytes than the first capacity, left
at its last `Normalize` or received since. -/
theorem read_has_room_iff {c₀ c : TcpConn} {es : List Event} (h₀ : Initial c₀)
    (hr : Runs step Feeds c₀ es c) : Roomy c.trace ↔ WindsBack ⟨0, 0⟩ c₀ es := by
  have hinit : Fed ⟨0, 0⟩ c₀ ∧ Roomy c₀.trace := by
    obtain ⟨name, type, connFn, msgFn, closeFn, rfl⟩ := h₀
    refine ⟨⟨wf_new, capacity_ofSize _, rfl, rfl, ?_, ?_⟩, ?_⟩
    · rintro op ⟨⟩
    · rintro room data ⟨⟩
    · exact fun room hm => absurd hm List.not_mem_nil
  rw [run_fed (run_sound h₀ hr) hinit.1]
  exact and_iff_left hinit.2

theorem read_has_room_iff_consumed :
    ∃ c, Runs step Feeds (handedOver "conn" .kIncoming (some 0) (some 1) .removeConn)
      [.runPosted, .resume, .readReady (.ok [7]), .handleRead, .editRecv (.consume 1 true),
        .resume] c ∧
      (Roomy c.trace ↔ WindsBack ⟨0, 0⟩ (handedOver "conn" .kIncoming (some 0) (some 1) .removeConn)
        [.runPosted, .resume, .readReady (.ok [7]), .handleRead, .editRecv (.consume 1 true),
          .resume]) := by
  have h₀ : Initial (handedOver "conn" .kIncoming (some 0) (some 1) .removeConn) :=
    ⟨_, _, _, _, _, rfl⟩
  have other : ∀ {c c' e}, (∀ edit, e ≠ .editRecv edit) → Feeds c e c' :=
    fun h edit he => absurd he (h edit)
  have hrun := @run_established Feeds "conn" .kIncoming 0 (some 1) .removeConn
    (fun _ _ => other (by simp)) fun _ _ => other (by simp)
  have hfits : (ReadResult.ok [7]).fits defaultSize = true := by
    simp [ReadResult.fits, defaultSize]
  have hfeeds : ∀ {c c' : TcpConn} {k normalize}, k ≤ c.recvBuffer.size →
      Feeds c (.editRecv (.consume k normalize)) c' := by
    rintro c c' k normalize hk edit ⟨⟩
    exact ⟨k, normalize, rfl, hk⟩
  have hsize : 1 ≤ ((ByteBuffer.new.copyIn [7]).writeBytes 1).size := le_rfl
  obtain ⟨c, hr⟩ : ∃ c, Runs step Feeds (handedOver "conn" .kIncoming (some 0) (some 1) .removeConn)
      ([.runPosted, .resume] ++ [.readReady (.ok [7]), .handleRead,
        .editRecv (.consume 1 true), .resume]) c :=
    ⟨_, hrun.append (.cons (step_readReady rfl hfits) (other (by simp))
      (.cons rfl (other (by simp)) (.cons rfl (hfeeds hsize)
      (.cons rfl (other (by simp)) (.nil _)))))⟩
  exact ⟨c, hr, read_has_room_iff h₀ hr⟩

/-- A buffer filled to the last byte. -/
theorem validSize_filled {n : Nat} {data : Bytes} (h : data.length = n) :
    (((ofSize n).copyIn data).writeBytes data.length).validSize = 0 := by
  have hroom : (ofSize n).wpos + data.length ≤ (ofSize n).storage.length := by
    simp only [ofSize, List.length_replicate]
    omega
  simp only [validSize, writeBytes, copyIn, length_overwrite hroom]
  simp only [ofSize, List.length_replicate]
  omega

/-- One chunk that fills the buffer, of which the callback takes nothing: the next
read is issued into an empty region, and completes at once, for ever. -/
theorem read_without_room :
    ∃ c, Runs step Feeds (handedOver "conn" .kIncoming (some 0) (some 1) .removeConn)
      [.runPosted, .resume, .readReady (.ok (List.replicate defaultSize 7)), .handleRead,
        .editRecv (.consume 0 false), .resume] c ∧ Obs.asyncRead 0 ∈ c.trace := by
  have other : ∀ {c c' e}, (∀ edit, e ≠ .editRecv edit) → Feeds c e c' :=
    fun h edit he => absurd he (h edit)
  have hrun := @run_established Feeds "conn" .kIncoming 0 (some 1) .removeConn
    (fun _ _ => other (by simp)) fun _ _ => other (by simp)
  have hlen : (List.replicate defaultSize (7 : UInt8)).length = defaultSize := List.length_replicate
  generalize List.replicate defaultSize (7 : UInt8) = data at hlen
  have hfits : (ReadResult.ok data).fits defaultSize = true := by
    simp only [ReadResult.fits, hlen, decide_eq_true_eq]
    exact ⟨by decide, le_rfl⟩
  have hfeeds : ∀ {c c' : TcpConn}, Feeds c (.editRecv (.consume 0 false)) c' := by
    rintro c c' edit ⟨⟩
    exact ⟨0, false, rfl, Nat.zero_le _⟩
  refine ⟨_, hrun.append (.cons (step_readReady rfl hfits) (other (by simp))
    (.cons rfl (other (by simp)) (.cons rfl hfeeds (.cons rfl (other (by simp)) (.nil _))))), ?_⟩
  exact List.mem_append_right _
    (List.mem_singleton.mpr (congrArg Obs.asyncRead (validSize_filled hlen).symm))

end TcpConn

end Libasio
