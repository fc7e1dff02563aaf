import Libasio.BufferInvariant
import Mathlib.Logic.Function.Iterate

/-!
# Room in a full buffer

`EnsureValidSize` asks for half as much again as there is. Half of nothing is nothing,
and half of one byte is rounded down to nothing: a storage of less than two bytes never
grows, and a loop that fills the buffer stands still.

## Main definitions

- `SizeT.ByteBuffer.EnsuresRoom` — what `EnsureValidSize` is to do
- `SizeT.Filling` — a loop of `EnsureValidSize` and filling in bytes
- `SizeT.ByteBuffer.Appends` — what the loop is to do
- `SizeT.ByteBuffer.CanGrow` — the buffers and lengths for which it does

## Main results

- `SizeT.ByteBuffer.ensuresRoom_iff` — when `EnsureValidSize` makes room
- `SizeT.ByteBuffer.appends_iff` — when the loop appends the data
-/

namespace Libasio

namespace SizeT

open Transition

/-- The capacity after `EnsureValidSize` of a full buffer. -/
def grow (c : Nat) : Nat := c * 3 / 2

namespace ByteBuffer

variable {w : Nat}

/-- When `EnsureValidSize` returns, there is room behind `wpos_`. -/
def EnsuresRoom (b : ByteBuffer w) : Prop :=
  ∀ alloc b', b.ensureValidSize alloc = .returns b' → b'.WF ∧ 0 < b'.validSize

/-- `n` bytes fit; or the storage has two bytes at least, and the formula does not wrap at
any of the capacities that have to be left behind. -/
def CanGrow (b : ByteBuffer w) (n : Nat) : Prop :=
  n ≤ b.validSize.toNat ∨
    2 ≤ b.capacity.toNat ∧ ∀ i, grow^[i] b.capacity.toNat < b.wpos.toNat + n →
      3 * grow^[i] b.capacity.toNat < 2 ^ w

end ByteBuffer

/-- A loop that appends `rest`. -/
structure Filling (w : Nat) where
  buffer : ByteBuffer w
  rest : Bytes
  deriving DecidableEq

/-- One round: `EnsureValidSize()`, and the next `k` bytes are filled in. There is none
after an exception, and none that fills in nothing or more than there is room for. -/
def Filling.step {w : Nat} (s : Filling w) : Bool × Nat → Option (Filling w)
  | (alloc, k) =>
    match s.buffer.ensureValidSize alloc with
    | .returns b =>
      if 0 < k ∧ k ≤ s.rest.length ∧ k ≤ b.validSize.toNat then
        match b.fill (s.rest.take k) with
        | .returns b' => some ⟨b', s.rest.drop k⟩
        | _ => none
      else none
    | _ => none

namespace ByteBuffer

variable {w : Nat}

/-- In every round of the loop there is room; it can be finished; and it ends with the
data behind what could be read before. -/
structure Appends (b : ByteBuffer w) (data : Bytes) : Prop where
  room : ∀ es s, Runs Filling.step anyStep ⟨b, data⟩ es s → s.rest ≠ [] → s.buffer.EnsuresRoom
  finishes : ∃ es b', Runs Filling.step anyStep ⟨b, data⟩ es ⟨b', []⟩
  appended : ∀ es b', Runs Filling.step anyStep ⟨b, data⟩ es ⟨b', []⟩ →
    b'.WF ∧ b'.readable = b.readable ++ data

-- ════════════════════════════════════════════════════════════════════════
-- `EnsureValidSize`
-- ════════════════════════════════════════════════════════════════════════

variable {b b' : ByteBuffer w}

theorem validSize_pos_iff (h : b.WF) : 0 < b.validSize ↔ b.wpos < b.capacity := by
  rw [BitVec.lt_def, BitVec.lt_def, toNat_validSize h, toNat_capacity, BitVec.ofNat_eq_ofNat,
    BitVec.toNat_zero]
  omega

/-- A change of the length leaves room if the storage ends behind `wpos_`. -/
theorem room_resized_iff {n : Nat} (h : b.WF) (hi : b'.ideal = b.ideal.resize n) :
    b'.WF ∧ 0 < b'.validSize ↔ b.wpos.toNat < n := by
  obtain ⟨hwpos, -, hitems⟩ := eq_of_ideal_resize hi
  have hlen : b'.storage.items.length = n := by rw [hitems, length_resizeStorage]
  have hwf := wf_of_resized h hi
  constructor
  · rintro ⟨hwf', hpos⟩
    rwa [validSize_pos_iff hwf', BitVec.lt_def, toNat_capacity, hlen, hwpos] at hpos
  · intro hlt
    have hwf' := hwf.mpr hlt.le
    refine ⟨hwf', ?_⟩
    rwa [validSize_pos_iff hwf', BitVec.lt_def, toNat_capacity, hlen, hwpos]

/-- When `EnsureValidSize` has returned, the buffer was not full, or its storage has the
length that the formula gives. -/
theorem ensureValidSize_returns (hw : 2 ≤ w) (h : b.WF) {alloc : Bool}
    (he : b.ensureValidSize alloc = .returns b') :
    b.wpos.toNat < b.storage.items.length ∧ b' = b ∨
      b.wpos.toNat = b.storage.items.length ∧
        b'.ideal = b.ideal.resize (growth w b.storage.items.length) := by
  obtain ⟨hroom, he'⟩ | ⟨hfull, ⟨he', -⟩ | ⟨b₁, he', hi, -⟩⟩ := ensureValidSize_cases hw h alloc
  · cases he.symm.trans he'
    exact .inl ⟨hroom, rfl⟩
  · cases he.symm.trans he'
  · cases he.symm.trans he'
    exact .inr ⟨hfull, hi⟩

/-- It returns if there is memory. -/
theorem exists_ensureValidSize (hw : 2 ≤ w) (h : b.WF) :
    ∃ b', b.ensureValidSize true = .returns b' := by
  obtain ⟨-, he⟩ | ⟨-, ⟨-, -, halloc⟩ | ⟨b', he, -⟩⟩ := ensureValidSize_cases hw h true
  · exact ⟨b, he⟩
  · cases halloc
  · exact ⟨b', he⟩

/-- `EnsureValidSize` makes room exactly in a buffer that is not full, or whose storage can
grow. -/
theorem ensuresRoom_iff (hw : 2 ≤ w) (h : b.WF) : b.EnsuresRoom ↔
    b.wpos < b.capacity ∨ 2 ≤ b.capacity.toNat ∧ 3 * b.capacity.toNat < 2 ^ w := by
  have hgrow := lt_growth_self_iff hw b.storage.length_le
  rw [BitVec.lt_def, toNat_capacity, ← hgrow]
  constructor
  · intro hensures
    obtain ⟨b', he⟩ := exists_ensureValidSize hw h
    obtain ⟨hroom, -⟩ | ⟨hfull, hi⟩ := ensureValidSize_returns hw h he
    · exact .inl hroom
    · have hlt := (room_resized_iff h hi).mp (hensures true b' he)
      exact .inr (by rwa [hfull] at hlt)
  · intro hroom alloc b' he
    obtain ⟨hlt, rfl⟩ | ⟨hfull, hi⟩ := ensureValidSize_returns hw h he
    · refine ⟨h, ?_⟩
      rwa [validSize_pos_iff h, BitVec.lt_def, toNat_capacity]
    · refine (room_resized_iff h hi).mpr ?_
      rw [hfull] at hroom ⊢
      exact (or_iff_right (Nat.lt_irrefl _)).mp hroom

-- ════════════════════════════════════════════════════════════════════════
-- One round
-- ════════════════════════════════════════════════════════════════════════

theorem CanGrow.ensuresRoom {n : Nat} (hw : 2 ≤ w) (h : b.WF) (hg : b.CanGrow n) (hn : 0 < n) :
    b.EnsuresRoom := by
  have hp := h.wpos_toNat_le
  rw [ensuresRoom_iff hw h]
  by_cases hfull : b.wpos < b.capacity
  · exact .inl hfull
  · rw [BitVec.lt_def, toNat_capacity] at hfull
    obtain hfit | ⟨htwo, hno⟩ := hg
    · rw [toNat_validSize h] at hfit
      omega
    · refine .inr ⟨htwo, hno 0 ?_⟩
      rw [Function.iterate_zero, id, toNat_capacity]
      omega

/-- A storage that grows can grow as far as before. -/
theorem CanGrow.ensureValidSize {n : Nat} (hw : 2 ≤ w) (h : b.WF) (hg : b.CanGrow n)
    (hn : 0 < n) {alloc : Bool} (he : b.ensureValidSize alloc = .returns b') :
    b'.CanGrow n ∧ b'.readable = b.readable := by
  have hp := h.wpos_toNat_le
  obtain ⟨-, rfl⟩ | ⟨hfull, hi⟩ := ensureValidSize_returns hw h he
  · exact ⟨hg, rfl⟩
  obtain hfit | ⟨htwo, hno⟩ := hg
  · rw [toNat_validSize h] at hfit
    omega
  obtain ⟨hwpos, -, hitems⟩ := eq_of_ideal_resize hi
  obtain ⟨hwf', -⟩ := CanGrow.ensuresRoom hw h (.inr ⟨htwo, hno⟩) hn alloc b' he
  have hle := (wf_of_resized h hi).mp hwf'
  have hlt : 3 * b.storage.items.length < 2 ^ w := by
    have hzero := hno 0
    rw [Function.iterate_zero, id, toNat_capacity] at hzero
    exact hzero (by omega)
  have hcap : b'.capacity.toNat = grow b.capacity.toNat := by
    rw [toNat_capacity, hitems, length_resizeStorage, growth_of_lt hlt, toNat_capacity, grow]
  refine ⟨.inr ⟨?_, fun i hi => ?_⟩, ?_⟩
  · rw [hcap, grow]
    omega
  · rw [hcap, ← Function.iterate_succ_apply] at hi ⊢
    exact hno (i + 1) (hwpos ▸ hi)
  · rw [← readable_ideal hwf', hi, ← readable_ideal h]
    exact Libasio.ByteBuffer.readable_resize (wf_iff.mp h) hle

/-- Bytes that are filled in need not be made room for any more. -/
theorem CanGrow.fill {n : Nat} {data : Bytes} (h : b.WF) (hg : b.CanGrow n)
    (hroom : data.length ≤ b.validSize.toNat) (hn : data.length ≤ n)
    (hi : b'.ideal = b.ideal.fill data) :
    b'.WF ∧ b'.readable = b.readable ++ data ∧ b'.CanGrow (n - data.length) := by
  have hvalid : data.length ≤ b.ideal.validSize := by
    rwa [toNat_validSize h] at hroom
  have hwf' : b'.WF := wf_iff.mpr (hi ▸ Libasio.ByteBuffer.wf_fill (wf_iff.mp h) hvalid)
  have hwpos : b'.wpos.toNat = b.wpos.toNat + data.length :=
    congrArg Libasio.ByteBuffer.wpos hi
  have hlen : b'.storage.items.length = b.storage.items.length := by
    have hp := h.wpos_toNat_le
    rw [toNat_validSize h] at hroom
    have hitems : b'.storage.items = overwrite b.storage.items b.wpos.toNat data :=
      congrArg Libasio.ByteBuffer.storage hi
    rw [hitems, length_overwrite (by omega)]
  refine ⟨hwf', ?_, ?_⟩
  · rw [← readable_ideal hwf', hi, ← readable_ideal h]
    exact Libasio.ByteBuffer.readable_fill (wf_iff.mp h) data
  · obtain hfit | ⟨htwo, hno⟩ := hg
    · rw [toNat_validSize h] at hfit
      left
      rw [toNat_validSize hwf', hwpos, hlen]
      omega
    · rw [toNat_capacity] at htwo hno
      refine .inr ?_
      rw [toNat_capacity, hwpos, hlen]
      exact ⟨htwo, fun i hi => hno i (by omega)⟩

end ByteBuffer

namespace Filling

variable {w : Nat} {s s' : Filling w}

theorem step_of_room {alloc : Bool} {k : Nat} {b : ByteBuffer w}
    (he : s.buffer.ensureValidSize alloc = .returns b) (h : b.WF) (hk : 0 < k)
    (hrest : k ≤ s.rest.length) (hroom : k ≤ b.validSize.toNat) :
    ∃ b', s.step (alloc, k) = some ⟨b', s.rest.drop k⟩ ∧
      b'.ideal = b.ideal.fill (s.rest.take k) := by
  have hlen : (s.rest.take k).length = k := List.length_take_of_le hrest
  have hp := h.wpos_toNat_le
  have hin : b.wpos.toNat + (s.rest.take k).length ≤ b.storage.items.length := by
    rw [ByteBuffer.toNat_validSize h] at hroom
    omega
  obtain ⟨b', hf, hi⟩ := ByteBuffer.fill_of_le hin
  refine ⟨b', ?_, hi⟩
  simp only [step, he, hf]
  exact if_pos ⟨hk, hrest, hroom⟩

theorem step_cases {alloc : Bool} {k : Nat} (hs : s.step (alloc, k) = some s') :
    ∃ b, s.buffer.ensureValidSize alloc = .returns b ∧ 0 < k ∧ k ≤ s.rest.length ∧
      k ≤ b.validSize.toNat := by
  simp only [step] at hs
  split at hs
  · next b he =>
    obtain ⟨hroom, -⟩ := Option.ite_none_right_eq_some.mp hs
    exact ⟨b, he, hroom⟩
  · cases hs

/-- The data is in the buffer or still to come, and the loop can go on. -/
structure Good (s : Filling w) (content : Bytes) : Prop where
  wf : s.buffer.WF
  content : s.buffer.readable ++ s.rest = content
  grows : s.buffer.CanGrow s.rest.length

theorem Good.step {content : Bytes} {e : Bool × Nat} (hw : 2 ≤ w) (h : s.Good content)
    (hs : s.step e = some s') : s'.Good content := by
  obtain ⟨alloc, k⟩ := e
  obtain ⟨b, he, hk, hrest, hroom⟩ := step_cases hs
  have hpos : 0 < s.rest.length := by omega
  obtain ⟨hwf, -⟩ := h.grows.ensuresRoom hw h.wf hpos alloc b he
  obtain ⟨hgrows, hread⟩ := h.grows.ensureValidSize hw h.wf hpos he
  obtain ⟨b', hs', hi⟩ := step_of_room he hwf hk hrest hroom
  cases hs.symm.trans hs'
  have hlen : (s.rest.take k).length = k := List.length_take_of_le hrest
  obtain ⟨hwf', hread', hgrows'⟩ :=
    hgrows.fill hwf (by rwa [hlen]) (by rwa [hlen]) hi
  refine ⟨hwf', ?_, ?_⟩
  · rw [hread', hread, List.append_assoc, List.take_append_drop]
    exact h.content
  · rw [hlen] at hgrows'
    rwa [List.length_drop]

/-- A good loop can be finished, one byte a round. -/
theorem Good.finishes {content : Bytes} (hw : 2 ≤ w) (h : s.Good content) :
    ∃ es b', Runs Filling.step anyStep s es ⟨b', []⟩ := by
  generalize hn : s.rest.length = n
  induction n generalizing s with
  | zero =>
    obtain ⟨b, rest⟩ := s
    cases List.length_eq_zero_iff.mp hn
    exact ⟨[], b, .nil _⟩
  | succ n ih =>
    have hpos : 0 < s.rest.length := by omega
    obtain ⟨b, he⟩ := ByteBuffer.exists_ensureValidSize hw h.wf
    obtain ⟨hwf, hroom⟩ := h.grows.ensuresRoom hw h.wf hpos true b he
    obtain ⟨b', hs, -⟩ := step_of_room he hwf Nat.one_pos hpos (BitVec.lt_def.mp hroom)
    obtain ⟨es, b'', hr⟩ := ih (h.step hw hs) (by rw [List.length_drop]; omega)
    exact ⟨_, b'', .cons hs trivial hr⟩

-- ════════════════════════════════════════════════════════════════════════
-- As far as the loop comes
-- ════════════════════════════════════════════════════════════════════════

/-- The buffer is full, with `c` bytes of `total`. -/
structure Full (s : Filling w) (c total : Nat) : Prop where
  wf : s.buffer.WF
  wpos : s.buffer.wpos.toNat = c
  capacity : s.buffer.capacity.toNat = c
  total : c + s.rest.length = total

/-- A round can use up all the room. -/
theorem exists_full_step {b : ByteBuffer w} {c : Nat}
    (he : s.buffer.ensureValidSize true = .returns b) (h : b.WF)
    (hc : b.capacity.toNat = c) (hlt : b.wpos.toNat < c)
    (hrest : c < b.wpos.toNat + s.rest.length) :
    ∃ e s', s.step e = some s' ∧ s'.Full c (b.wpos.toNat + s.rest.length) := by
  have hroom := ByteBuffer.toNat_validSize h
  rw [ByteBuffer.toNat_capacity] at hc
  have hk : c - b.wpos.toNat ≤ s.rest.length := by omega
  obtain ⟨b', hs, hi⟩ := step_of_room he h (Nat.sub_pos_of_lt hlt) hk (by omega)
  have hlen : (s.rest.take (c - b.wpos.toNat)).length = c - b.wpos.toNat :=
    List.length_take_of_le hk
  obtain ⟨hwf', -, -⟩ := ByteBuffer.CanGrow.fill h
    (.inl (Nat.le_refl _)) (by omega) (by omega) hi
  have hwpos : b'.wpos.toNat = b.wpos.toNat + (s.rest.take (c - b.wpos.toNat)).length :=
    congrArg Libasio.ByteBuffer.wpos hi
  have hitems : b'.storage.items =
      overwrite b.storage.items b.wpos.toNat (s.rest.take (c - b.wpos.toNat)) :=
    congrArg Libasio.ByteBuffer.storage hi
  refine ⟨_, _, hs, hwf', ?_, ?_, ?_⟩
  · show b'.wpos.toNat = c
    omega
  · show b'.capacity.toNat = c
    rw [ByteBuffer.toNat_capacity, hitems, length_overwrite (by omega), hc]
  · rw [List.length_drop]
    omega

/-- If there is room for more in a full buffer, its storage can grow. -/
theorem Full.can_grow {c total : Nat} (hw : 2 ≤ w) (h : s.Full c total)
    (hensures : s.buffer.EnsuresRoom) : 2 ≤ c ∧ 3 * c < 2 ^ w := by
  obtain hlt | hgrow := (ByteBuffer.ensuresRoom_iff hw h.wf).mp hensures
  · rw [BitVec.lt_def, h.wpos, h.capacity] at hlt
    exact absurd hlt (Nat.lt_irrefl c)
  · rwa [h.capacity] at hgrow

theorem Full.exists_step {c total : Nat} (hw : 2 ≤ w) (h : s.Full c total)
    (hensures : s.buffer.EnsuresRoom) (hlt : grow c < total) :
    ∃ e s', s.step e = some s' ∧ s'.Full (grow c) total := by
  obtain ⟨htwo, hno⟩ := h.can_grow hw hensures
  obtain ⟨b, he⟩ := ByteBuffer.exists_ensureValidSize hw h.wf
  obtain ⟨hwf, -⟩ := hensures true b he
  have hlen : s.buffer.storage.items.length = c := by rw [← ByteBuffer.toNat_capacity, h.capacity]
  obtain ⟨hroom, -⟩ | ⟨-, hi⟩ := ByteBuffer.ensureValidSize_returns hw h.wf he
  · rw [h.wpos, hlen] at hroom
    exact absurd hroom (Nat.lt_irrefl c)
  · rw [hlen, growth_of_lt hno] at hi
    obtain ⟨hwpos, -, hitems⟩ := ByteBuffer.eq_of_ideal_resize hi
    have hcap : b.capacity.toNat = grow c := by
      rw [ByteBuffer.toNat_capacity, hitems, length_resizeStorage, grow]
    have hpos : b.wpos.toNat = c := by rw [hwpos, h.wpos]
    have hmore : b.wpos.toNat < grow c := by
      rw [hpos, grow]
      omega
    have hrest : grow c < b.wpos.toNat + s.rest.length := by rwa [hpos, h.total]
    have hstep := exists_full_step he hwf hcap hmore hrest
    rwa [hpos, h.total] at hstep

/-- While there has been room in every round, the loop comes to every capacity below the
total: by a round that fills the buffer, and then one for each time the storage grows. -/
theorem exists_full (hw : 2 ≤ w) (h : s.buffer.WF)
    (hroom : ∀ es s', Runs Filling.step anyStep s es s' → s'.rest ≠ [] → s'.buffer.EnsuresRoom)
    (i : Nat) (hi : grow^[i] s.buffer.capacity.toNat < s.buffer.wpos.toNat + s.rest.length) :
    ∃ es s', Runs Filling.step anyStep s es s' ∧
      s'.Full (grow^[i] s.buffer.capacity.toNat) (s.buffer.wpos.toNat + s.rest.length) := by
  have hp := h.wpos_toNat_le
  induction i with
  | zero =>
    rw [Function.iterate_zero, id] at hi ⊢
    by_cases hfull : s.buffer.wpos.toNat = s.buffer.capacity.toNat
    · exact ⟨[], s, .nil s, h, hfull, rfl, by rw [hfull]⟩
    · obtain ⟨b, he⟩ := ByteBuffer.exists_ensureValidSize hw h
      rw [ByteBuffer.toNat_capacity] at hi hfull ⊢
      obtain ⟨hlt, rfl⟩ | ⟨heq, -⟩ := ByteBuffer.ensureValidSize_returns hw h he
      · obtain ⟨e, s', hs, hfull'⟩ :=
          exists_full_step he h (ByteBuffer.toNat_capacity _) hlt hi
        exact ⟨_, s', .single hs trivial, hfull'⟩
      · exact absurd heq hfull
  | succ i ih =>
    rw [Function.iterate_succ_apply'] at hi ⊢
    have hgrow : grow^[i] s.buffer.capacity.toNat ≤ grow (grow^[i] s.buffer.capacity.toNat) := by
      rw [grow]
      omega
    obtain ⟨es, s', hr, hfull⟩ := ih (by omega)
    have hne : s'.rest ≠ [] := fun hnil => by
      have htotal := hfull.total
      rw [hnil, List.length_nil] at htotal
      omega
    obtain ⟨e, s'', hs, hfull'⟩ := hfull.exists_step hw (hroom es s' hr hne) hi
    exact ⟨_, s'', hr.snoc hs trivial, hfull'⟩

end Filling

namespace ByteBuffer

variable {w : Nat} {b : ByteBuffer w}

/-- The loop appends the data exactly when it fits, or the storage can grow that far. -/
theorem appends_iff (hw : 2 ≤ w) (h : b.WF) (data : Bytes) :
    b.Appends data ↔ b.CanGrow data.length := by
  constructor
  · intro happends
    by_cases hfit : data.length ≤ b.validSize.toNat
    · exact .inl hfit
    · have hreach : ∀ i, grow^[i] b.capacity.toNat < b.wpos.toNat + data.length →
          2 ≤ grow^[i] b.capacity.toNat ∧ 3 * grow^[i] b.capacity.toNat < 2 ^ w := by
        intro i hi
        obtain ⟨es, s, hr, hfull⟩ := Filling.exists_full hw h happends.room i hi
        have hne : s.rest ≠ [] := fun hnil => by
          have htotal := hfull.total
          rw [hnil, List.length_nil] at htotal
          exact absurd htotal hi.ne
        exact hfull.can_grow hw (happends.room es s hr hne)
      have hp := h.wpos_toNat_le
      rw [toNat_validSize h] at hfit
      refine .inr ⟨?_, fun i hi => (hreach i hi).2⟩
      refine (hreach 0 ?_).1
      rw [Function.iterate_zero, id, toNat_capacity]
      omega
  · intro hgrows
    have hgood : (⟨b, data⟩ : Filling w).Good (b.readable ++ data) := ⟨h, rfl, hgrows⟩
    have hall : ∀ es s, Runs Filling.step anyStep ⟨b, data⟩ es s →
        s.Good (b.readable ++ data) :=
      fun es s hr => hr.invariant
        (fun s _ _ (hs : s.Good (b.readable ++ data)) _ hstep => hs.step hw hstep) hgood
    refine ⟨fun es s hr hne => ?_, hgood.finishes hw, fun es b' hr => ?_⟩
    · have hs := hall es s hr
      exact hs.grows.ensuresRoom hw hs.wf (List.length_pos_iff.mpr hne)
    · have hs := hall es _ hr
      exact ⟨hs.wf, (List.append_nil _).symm.trans hs.content⟩

/-- `EnsureValidSize` and the loop do what they are to do exactly for the buffers that are
not full or whose storage can grow, as far as it has to. -/
theorem room_and_appends_iff (hw : 2 ≤ w) (h : b.WF) (data : Bytes) :
    (b.EnsuresRoom ↔
      b.wpos < b.capacity ∨ 2 ≤ b.capacity.toNat ∧ 3 * b.capacity.toNat < 2 ^ w) ∧
    (b.Appends data ↔ b.CanGrow data.length) :=
  ⟨ensuresRoom_iff hw h, appends_iff hw h data⟩

/-- Far from the largest `size_t` only the first capacity matters. -/
theorem canGrow_iff_of_small {n : Nat} (hsmall : 3 * (b.wpos.toNat + n) ≤ 2 ^ w) :
    b.CanGrow n ↔ n ≤ b.validSize.toNat ∨ 2 ≤ b.capacity.toNat := by
  refine or_congr_right (and_iff_left fun i hi => ?_)
  omega

theorem room_and_appends_full :
    (full 2 (by decide) : ByteBuffer 64).EnsuresRoom ∧
      (full 2 (by decide) : ByteBuffer 64).Appends [1, 2, 3] := by
  have hiff := room_and_appends_iff (by decide) (wf_full (w := 64) 2 (by decide)) [1, 2, 3]
  exact ⟨hiff.1.mpr (.inr (by decide)),
    hiff.2.mpr ((canGrow_iff_of_small (by decide)).mpr (.inr (by decide)))⟩

/-- A buffer that has been moved from has no storage, and gets none. -/
theorem moved_from_stands_still : ∃ s : Store 64,
    Runs Store.step anyStep Store.init [.ofSize 4 true, .move 0] s ∧
      ∃ b ∈ s.buffers, b.WF ∧ b.ensureValidSize true = .returns b ∧ b.validSize = 0 ∧
        ¬b.Appends [1] := by
  refine ⟨_, exec_eq_some_iff.mp rfl, _, List.mem_cons_self, ⟨by decide, by decide⟩, rfl,
    rfl, fun h => ?_⟩
  exact absurd (h.room [] _ (.nil _) (by decide) true _ rfl).2 (by decide)

end ByteBuffer

end SizeT

end Libasio
