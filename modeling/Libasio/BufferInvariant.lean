import Libasio.Queues
import Libasio.Transition
import Libasio.WriteRange

/-!
# The invariant of the byte buffers

Any number of `ByteBuffer` objects, and every sequence of the public operations on them.
`Resize` does not look at the positions, so the storage can end in front of them; the
growth formulas do so when they wrap.

## Main definitions

- `SizeT.BufferOp` — the public operations, with the objects they are called on
- `SizeT.Store` — the objects made so far
- `SizeT.Store.Safe` — what every operation is to keep
- `SizeT.Store.Keeps` — the condition under which it does

## Main results

- `SizeT.Store.step_safe_iff` — one operation keeps it exactly under that condition
- `SizeT.Store.safe_runs_iff` — and so does a sequence of operations
- `SizeT.Store.reachable_of_wf` — every buffer in order can be made
-/

namespace Libasio

namespace SizeT

open Transition

/-- An operation on the buffers made so far, which have numbers. A constructor that
returns makes the next one; `alloc` says whether there is memory for a longer vector. -/
inductive BufferOp (w : Nat)
  | new (alloc : Bool)                                     -- `ByteBuffer()`
  | ofSize (size : BitVec w) (alloc : Bool)                -- `ByteBuffer(size)`
  | copy (i : Nat) (alloc : Bool)                          -- `ByteBuffer(b_i)`
  | move (i : Nat)                                         -- `ByteBuffer(std::move(b_i))`
  | assign (i j : Nat) (alloc : Bool) (left : Storage w)   -- `b_i = b_j`
  | moveAssign (i j : Nat) (rest : Storage w)              -- `b_i = std::move(b_j)`
  | reset (i : Nat)
  | resize (i : Nat) (bytes : BitVec w) (alloc : Bool)
  | readBytes (i : Nat) (k : BitVec w)
  | writeBytes (i : Nat) (k : BitVec w)
  | copyIn (i : Nat) (data : Bytes)                        -- to `WriteBegin()`
  | normalize (i : Nat)
  | ensureValidSize (i : Nat) (alloc : Bool)
  | estimateSize (i : Nat) (size : BitVec w) (alloc : Bool)
  | write (i : Nat) (data : Bytes) (alloc : Bool)
  | swap (i j : Nat)                                       -- `b_i.Swap(b_j)`

structure Store (w : Nat) where
  buffers : List (ByteBuffer w)
  undefined : Bool                 -- memory outside of a storage has been touched
  deriving DecidableEq

namespace Store

variable {w : Nat}

/-- An operation on the collection of the objects. -/
def act (s : Store w) (op : Slots.Op (ByteBuffer w)) : Option (Store w) :=
  (Slots.step s.buffers op).map fun buffers => { s with buffers := buffers }

/-- A constructor that throws makes no object. -/
def construct (s : Store w) : Option (ByteBuffer w) → Option (Store w)
  | some b => s.act (.create b)
  | none => some s

/-- A member function of object `i`. -/
def call (s : Store w) (i : Nat) (f : ByteBuffer w → Exit w) : Option (Store w) :=
  match s.buffers[i]? with
  | some b =>
    match f b with
    | .returns b' | .throws b' => s.act (.update i fun _ => some b')
    | .undefined => some { s with undefined := true }
  | none => none

/-- The moves of the positions stay within `Size()` and `ValidSize()`, and the length of
data is a `size_t`. -/
def allowed (s : Store w) : BufferOp w → Bool
  | .readBytes i k => s.buffers[i]?.all fun b => k ≤ b.size
  | .writeBytes i k => s.buffers[i]?.all fun b => k ≤ b.validSize
  | .copyIn i data => s.buffers[i]?.all fun b => data.length ≤ b.validSize.toNat
  | .write _ data _ => data.length < 2 ^ w
  | _ => true

def perform (s : Store w) : BufferOp w → Option (Store w)
  | .new alloc => s.construct (ByteBuffer.new alloc)
  | .ofSize size alloc => s.construct (ByteBuffer.ofSize size alloc)
  | .copy i alloc => s.act (if alloc then .derive i fun b => (b.copy, b) else .update i some)
  | .move i => s.act (.derive i fun b => b.moveFrom .empty)
  | .assign i j alloc left =>
    s.act (.pair i j fun _ rhs => (if alloc then rhs.copy else rhs.copyFailed left, rhs))
  | .moveAssign i j rest => s.act (.pair i j fun _ rhs => rhs.moveFrom rest)
  | .reset i => s.call i fun b => .returns b.reset
  | .resize i bytes alloc => s.call i fun b => b.resize bytes alloc
  | .readBytes i k => s.call i fun b => .returns (b.readBytes k)
  | .writeBytes i k => s.call i fun b => .returns (b.writeBytes k)
  | .copyIn i data => s.call i fun b => b.copyIn data
  | .normalize i => s.call i fun b => b.normalize
  | .ensureValidSize i alloc => s.call i fun b => b.ensureValidSize alloc
  | .estimateSize i size alloc => s.call i fun b => b.estimateSize size alloc
  | .write i data alloc => s.call i fun b => b.write data alloc
  | .swap i j => s.act (.pair i j ByteBuffer.swap)

/-- Nothing is said about what comes after an access outside of a storage. -/
def step (s : Store w) (op : BufferOp w) : Option (Store w) :=
  if s.undefined = false ∧ s.allowed op = true then s.perform op else none

/-- No object has been made. -/
def init : Store w := ⟨[], false⟩

end Store

variable {w : Nat}

/-- The positions are in order, and the differences of them do not wrap. -/
structure ByteBuffer.Sound (b : ByteBuffer w) : Prop where
  wf : b.WF
  size : b.size.toNat + b.rpos.toNat = b.wpos.toNat
  validSize : b.validSize.toNat + b.wpos.toNat = b.capacity.toNat

/-- All objects are sound, and nothing outside of a storage has been touched. -/
structure Store.Safe (s : Store w) : Prop where
  inside : s.undefined = false
  sound : ∀ b ∈ s.buffers, b.Sound

/-- The same for the end of a call. -/
def Exit.Safe : Exit w → Prop
  | .returns b | .throws b => b.WF
  | .undefined => False

/-- The condition on an operation: a storage is not made shorter than `wpos_`, be it by
`Resize`, by a growth formula that wraps, or by an assignment that fails. -/
def Store.Keeps (s : Store w) : BufferOp w → Prop
  | .assign i j alloc left =>
    i = j ∨ alloc = true ∨ ∀ rhs ∈ s.buffers[j]?, rhs.wpos.toNat ≤ left.items.length
  | .resize i bytes _ => ∀ b ∈ s.buffers[i]?, b.wpos ≤ bytes
  | .ensureValidSize i _ =>
    ∀ b ∈ s.buffers[i]?, b.wpos < b.capacity ∨ 3 * b.capacity.toNat < 2 ^ w
  | .estimateSize i size _ =>
    ∀ b ∈ s.buffers[i]?, b.wpos.toNat + size.toNat ≤ b.capacity.toNat ∨
      2 * b.wpos.toNat ≤ 3 * (b.capacity.toNat + size.toNat) % 2 ^ w
  | .write i data alloc => ∀ b ∈ s.buffers[i]?, b.Fits data.length alloc
  | _ => True

-- ════════════════════════════════════════════════════════════════════════
-- The member functions
-- ════════════════════════════════════════════════════════════════════════

namespace ByteBuffer

variable {b : ByteBuffer w}

theorem sound_iff : b.Sound ↔ b.WF := by
  refine ⟨Sound.wf, fun h => ⟨h, ?_, ?_⟩⟩
  · rw [toNat_size h]
    exact Nat.sub_add_cancel h.rpos_toNat_le
  · rw [toNat_validSize h, toNat_capacity]
    exact Nat.sub_add_cancel h.wpos_toNat_le

/-- A change of the length keeps the order of the positions if `wpos_` stays inside. -/
theorem wf_of_resized {b' : ByteBuffer w} {n : Nat} (h : b.WF)
    (hi : b'.ideal = b.ideal.resize n) : b'.WF ↔ b.wpos.toNat ≤ n := by
  rw [wf_iff, hi]
  constructor
  · intro hwf
    have hp := hwf.wpos_le
    rwa [Libasio.ByteBuffer.resize, length_resizeStorage] at hp
  · exact Libasio.ByteBuffer.wf_resize (wf_iff.mp h)

theorem resize_safe_iff (h : b.WF) (bytes : BitVec w) (alloc : Bool) :
    (b.resize bytes alloc).Safe ↔ b.wpos ≤ bytes := by
  have hp := h.wpos_toNat_le
  have hmax := b.storage.length_le
  obtain ⟨he, hmore⟩ | ⟨b', he, hi, -⟩ := b.resize_cases bytes alloc
  · rw [he]
    refine iff_of_true h (BitVec.le_def.mpr ?_)
    omega
  · rw [he]
    exact wf_of_resized h hi

theorem ensureValidSize_safe_iff (hw : 2 ≤ w) (h : b.WF) (alloc : Bool) :
    (b.ensureValidSize alloc).Safe ↔ b.wpos < b.capacity ∨ 3 * b.capacity.toNat < 2 ^ w := by
  rw [BitVec.lt_def, toNat_capacity]
  obtain ⟨hroom, he⟩ | ⟨hfull, ⟨he, hmore, -⟩ | ⟨b', he, hi, -⟩⟩ :=
    ensureValidSize_cases hw h alloc
  · rw [he]
    exact iff_of_true h (.inl hroom)
  · rw [he]
    exact iff_of_true h (.inr ((lt_growth_self_iff hw b.storage.length_le).mp hmore).2)
  · rw [he]
    refine (wf_of_resized h hi).trans ?_
    rw [hfull, le_growth_self_iff hw b.storage.length_le]
    exact (or_iff_right (Nat.lt_irrefl _)).symm

theorem estimateSize_safe_iff (hw : 2 ≤ w) (h : b.WF) (size : BitVec w) (alloc : Bool) :
    (b.estimateSize size alloc).Safe ↔ b.wpos.toNat + size.toNat ≤ b.capacity.toNat ∨
      2 * b.wpos.toNat ≤ 3 * (b.capacity.toNat + size.toNat) % 2 ^ w := by
  have hp := h.wpos_toNat_le
  rw [toNat_capacity]
  obtain ⟨hroom, he⟩ | ⟨hroom, ⟨he, hmore, -⟩ | ⟨b', he, hi, -⟩⟩ :=
    estimateSize_cases hw h size alloc
  · rw [he]
    exact iff_of_true h (.inl hroom)
  · rw [he]
    rw [growth] at hmore
    exact iff_of_true h (.inr (by omega))
  · rw [he]
    refine (wf_of_resized h hi).trans ?_
    rw [growth, Nat.le_div_iff_mul_le Nat.two_pos, Nat.mul_comm, or_iff_right]
    exact Nat.not_le_of_lt hroom

theorem StaysInside.safe {data : Bytes} {e : Exit w} (h : b.WF) (hs : StaysInside b data e) :
    e.Safe := by
  cases e with
  | returns b' => exact hs.wf
  | throws b' => exact hs ▸ h
  | undefined => exact hs

theorem write_safe_iff (hw : 2 ≤ w) (h : b.WF) {data : Bytes} (hd : data.length < 2 ^ w)
    (alloc : Bool) : (b.write data alloc).Safe ↔ b.Fits data.length alloc := by
  obtain ⟨hfits, hinside⟩ | ⟨hnot, hundefined⟩ := write_ends hw h hd alloc
  · exact iff_of_true (hinside.safe h) hfits
  · rw [hundefined]
    exact iff_of_false id hnot

theorem normalize_safe (h : b.WF) : b.normalize.Safe := by
  obtain ⟨b', he, hi⟩ := ideal_normalize h
  rw [he]
  exact wf_iff.mpr (hi ▸ Libasio.ByteBuffer.wf_normalize (wf_iff.mp h))

theorem wf_readBytes {k : BitVec w} (h : b.WF) (hk : k ≤ b.size) : (b.readBytes k).WF := by
  rw [wf_iff, ideal_readBytes h hk]
  refine Libasio.ByteBuffer.wf_readBytes (wf_iff.mp h) ?_
  rwa [BitVec.le_def, toNat_size h] at hk

theorem wf_writeBytes {k : BitVec w} (h : b.WF) (hk : k ≤ b.validSize) :
    (b.writeBytes k).WF := by
  have hr := h.rpos_toNat_le
  have hp := h.wpos_toNat_le
  rw [BitVec.le_def, toNat_validSize h] at hk
  rw [wf_iff, ideal_writeBytes h (by rwa [BitVec.le_def, toNat_validSize h])]
  refine ⟨?_, ?_⟩
  · simp only [ideal, Libasio.ByteBuffer.writeBytes]
    omega
  · simp only [ideal, Libasio.ByteBuffer.writeBytes]
    omega

theorem copyIn_safe {data : Bytes} (h : b.WF) (hk : data.length ≤ b.validSize.toNat) :
    (b.copyIn data).Safe := by
  have hp := h.wpos_toNat_le
  rw [toNat_validSize h] at hk
  have hroom : b.wpos.toNat + data.length ≤ b.storage.items.length := by omega
  rw [copyIn, dif_pos hroom]
  refine wf_iff.mpr ⟨h.rpos_toNat_le, ?_⟩
  simpa only [ideal, length_overwrite hroom] using hp

/-- A buffer with both positions at the start. -/
theorem wf_start (storage : Storage w) : (⟨0, 0, storage⟩ : ByteBuffer w).WF :=
  wf_iff.mpr (Libasio.ByteBuffer.wf_empty _)

theorem wf_ofSize {size : BitVec w} {alloc : Bool} (h : ofSize size alloc = some b) : b.WF := by
  unfold ofSize at h
  have hsafe := (resize_safe_iff (wf_start .empty) size alloc).mpr (BitVec.le_def.mpr (Nat.zero_le _))
  split at h
  · next b' he =>
    cases h
    rwa [he] at hsafe
  · cases h

/-- A storage as long as that of another buffer can be made. -/
theorem exists_ofSize (b : ByteBuffer w) : ∃ storage : Storage w,
    ofSize b.capacity true = some ⟨0, 0, storage⟩ ∧
      storage.items.length = b.storage.items.length := by
  have hmax : b.capacity.toNat ≤ maxSize w := toNat_capacity b ▸ b.storage.length_le
  rw [ofSize, resize, StdVector.resize, dif_pos hmax, if_neg fun h => Bool.noConfusion h.2]
  exact ⟨_, rfl, (StdVector.length_resized _ _ _).trans (toNat_capacity b)⟩

/-- A copy as long as the storage replaces it. -/
theorem copyIn_all {storage storage' : Storage w}
    (h : storage.items.length = storage'.items.length) :
    (⟨0, 0, storage'⟩ : ByteBuffer w).copyIn storage.items = .returns ⟨0, 0, storage⟩ := by
  have hroom : (0 : BitVec w).toNat + storage.items.length ≤ storage'.items.length := by
    rw [BitVec.ofNat_eq_ofNat, BitVec.toNat_zero]
    omega
  rw [copyIn, dif_pos hroom]
  refine congrArg (fun s => Exit.returns ⟨0, 0, s⟩) (StdVector.ext ?_)
  simp only [overwrite, BitVec.ofNat_eq_ofNat, BitVec.toNat_zero, List.take_zero, List.nil_append,
    Nat.zero_add, h, List.drop_length, List.append_nil]

end ByteBuffer

-- ════════════════════════════════════════════════════════════════════════
-- Sequences of operations
-- ════════════════════════════════════════════════════════════════════════

namespace Store

variable {s s' : Store w} {op : BufferOp w}

theorem safe_iff : s.Safe ↔ s.undefined = false ∧ ∀ b ∈ s.buffers, b.WF := by
  constructor
  · exact fun ⟨hin, hs⟩ => ⟨hin, fun b hb => (hs b hb).wf⟩
  · exact fun ⟨hin, hs⟩ => ⟨hin, fun b hb => ByteBuffer.sound_iff.mpr (hs b hb)⟩

theorem Safe.wf (h : s.Safe) {i : Nat} {b : ByteBuffer w} (hb : b ∈ s.buffers[i]?) : b.WF :=
  (h.sound b (List.mem_of_getElem? hb)).wf

theorem act_safe_iff {o : Slots.Op (ByteBuffer w)} (h : s.Safe) (ha : s.act o = some s') :
    s'.Safe ↔ Slots.Puts (·.WF) s.buffers o := by
  obtain ⟨hin, hwf⟩ := safe_iff.mp h
  obtain ⟨buffers, hstep, rfl⟩ := Option.map_eq_some_iff.mp ha
  rw [safe_iff, ← Slots.forall_step_iff hwf hstep]
  exact and_iff_right hin

theorem construct_safe {made : Option (ByteBuffer w)} (h : s.Safe)
    (hmade : ∀ b ∈ made, b.WF) (hc : s.construct made = some s') : s'.Safe := by
  cases made with
  | none =>
    cases hc
    exact h
  | some b => exact (act_safe_iff h hc).mpr (hmade b rfl)

theorem call_safe_iff {i : Nat} {f : ByteBuffer w → Exit w} (h : s.Safe)
    (hc : s.call i f = some s') : s'.Safe ↔ ∀ b ∈ s.buffers[i]?, (f b).Safe := by
  unfold call at hc
  cases hb : s.buffers[i]? with
  | none =>
    rw [hb] at hc
    cases hc
  | some b =>
    simp only [hb] at hc
    simp only [Option.mem_some_iff, forall_eq']
    cases hf : f b with
    | undefined =>
      simp only [hf] at hc
      cases hc
      exact iff_of_false (fun hsafe => Bool.noConfusion hsafe.inside) id
    | returns b' | throws b' =>
      simp only [hf] at hc
      rw [act_safe_iff h hc]
      simp only [Slots.Puts, hb, Option.mem_some_iff, forall_eq', Exit.Safe]

/-- An assignment that fails has taken over the positions, but not the storage. -/
theorem assign_safe_iff {i j : Nat} {alloc : Bool} {left : Storage w} (h : s.Safe)
    (ha : s.act (.pair i j fun _ rhs =>
      (if alloc then rhs.copy else rhs.copyFailed left, rhs)) = some s') :
    Slots.Puts (·.WF) s.buffers (.pair i j fun _ rhs =>
      (if alloc then rhs.copy else rhs.copyFailed left, rhs)) ↔
        s.Keeps (.assign i j alloc left) := by
  by_cases hij : i = j
  · exact iff_of_true (fun hne => absurd hij hne) (.inl hij)
  cases alloc with
  | true => exact iff_of_true (fun _ _ _ b hb => ⟨h.wf hb, h.wf hb⟩) (.inr (.inl rfl))
  | false =>
    cases hi : s.buffers[i]? with
    | none =>
      simp only [act, Slots.step, hi, Option.map_none] at ha
      cases ha
    | some a =>
      constructor
      · intro hputs
        exact .inr (.inr fun rhs hj => (hputs hij a hi rhs hj).1.wpos_toNat_le)
      · rintro (heq | htrue | hleft)
        · exact absurd heq hij
        · cases htrue
        · intro _ _ _ rhs hj
          exact ⟨ByteBuffer.wf_iff.mpr ⟨(h.wf hj).rpos_toNat_le, hleft rhs hj⟩, h.wf hj⟩

/-- An operation on safe objects keeps them safe exactly under its condition. -/
theorem step_safe_iff (hw : 2 ≤ w) (h : s.Safe) (hs : s.step op = some s') :
    s'.Safe ↔ s.Keeps op := by
  obtain ⟨⟨-, hallowed⟩, hp⟩ := Option.ite_none_right_eq_some.mp hs
  cases op with simp only [perform] at hp
  | new alloc => exact iff_of_true (construct_safe h (fun b => ByteBuffer.wf_ofSize) hp) trivial
  | ofSize size alloc =>
    exact iff_of_true (construct_safe h (fun b => ByteBuffer.wf_ofSize) hp) trivial
  | copy i alloc =>
    refine iff_of_true ?_ trivial
    cases alloc with
    | true => exact (act_safe_iff h hp).mpr fun b hb => ⟨h.wf hb, h.wf hb⟩
    | false =>
      refine (act_safe_iff h hp).mpr fun b hb b' hb' => ?_
      cases hb'
      exact h.wf hb
  | move i =>
    exact iff_of_true
      ((act_safe_iff h hp).mpr fun b hb => ⟨h.wf hb, ByteBuffer.wf_start _⟩) trivial
  | assign i j alloc left => exact (act_safe_iff h hp).trans (assign_safe_iff h hp)
  | moveAssign i j rest =>
    exact iff_of_true
      ((act_safe_iff h hp).mpr fun _ _ _ b hb => ⟨h.wf hb, ByteBuffer.wf_start rest⟩) trivial
  | reset i =>
    exact iff_of_true ((call_safe_iff h hp).mpr fun b _ => ByteBuffer.wf_start b.storage) trivial
  | resize i bytes alloc =>
    exact (call_safe_iff h hp).trans
      (forall₂_congr fun b hb => ByteBuffer.resize_safe_iff (h.wf hb) bytes alloc)
  | readBytes i k =>
    refine iff_of_true ((call_safe_iff h hp).mpr fun b hb => ?_) trivial
    have hk : k ≤ b.size := by simpa [allowed, Option.mem_def.mp hb] using hallowed
    exact ByteBuffer.wf_readBytes (h.wf hb) hk
  | writeBytes i k =>
    refine iff_of_true ((call_safe_iff h hp).mpr fun b hb => ?_) trivial
    have hk : k ≤ b.validSize := by simpa [allowed, Option.mem_def.mp hb] using hallowed
    exact ByteBuffer.wf_writeBytes (h.wf hb) hk
  | copyIn i data =>
    refine iff_of_true ((call_safe_iff h hp).mpr fun b hb => ?_) trivial
    have hk : data.length ≤ b.validSize.toNat := by
      simpa [allowed, Option.mem_def.mp hb] using hallowed
    exact ByteBuffer.copyIn_safe (h.wf hb) hk
  | normalize i =>
    exact iff_of_true
      ((call_safe_iff h hp).mpr fun b hb => ByteBuffer.normalize_safe (h.wf hb)) trivial
  | ensureValidSize i alloc =>
    exact (call_safe_iff h hp).trans
      (forall₂_congr fun b hb => ByteBuffer.ensureValidSize_safe_iff hw (h.wf hb) alloc)
  | estimateSize i size alloc =>
    exact (call_safe_iff h hp).trans
      (forall₂_congr fun b hb => ByteBuffer.estimateSize_safe_iff hw (h.wf hb) size alloc)
  | write i data alloc =>
    have hd : data.length < 2 ^ w := by simpa [allowed] using hallowed
    exact (call_safe_iff h hp).trans
      (forall₂_congr fun b hb => ByteBuffer.write_safe_iff hw (h.wf hb) hd alloc)
  | swap i j =>
    exact iff_of_true
      ((act_safe_iff h hp).mpr fun _ a ha b hb => ⟨h.wf hb, h.wf ha⟩) trivial

theorem safe_init : (init : Store w).Safe := ⟨rfl, fun _ hb => absurd hb List.not_mem_nil⟩

/-- The positions of all objects stay in order in every sequence of operations in which
no storage is made shorter than `wpos_`, and in no other. -/
theorem safe_runs_iff (hw : 2 ≤ w) (ops : List (BufferOp w)) (s : Store w) :
    Runs step (fun _ _ s' => s'.Safe) init ops s ↔
      Runs step (fun s op _ => s.Keeps op) init ops s :=
  Runs.invariant_iff (fun _ _ _ h hs => step_safe_iff hw h hs) safe_init

/-- A buffer is filled, cut behind its bytes, and grown again. -/
theorem safe_runs_three : ∃ s : Store 64, Runs step (fun _ _ s' => s'.Safe) init
    [.ofSize 4 true, .write 0 [1, 2] true, .resize 0 2 true, .ensureValidSize 0 true] s := by
  refine ⟨_, (safe_runs_iff (by decide) _ _).mpr (.cons rfl trivial
    (.cons rfl ?_ (.cons rfl ?_ (.cons rfl ?_ (.nil _)))))⟩
  · rintro b ⟨⟩
    exact .inl (by decide)
  · rintro b ⟨⟩
    decide
  · rintro b ⟨⟩
    exact .inr (by decide)

/-- `Resize` can put the end of the storage in front of `wpos_`; the next `Write` finds
the difference large enough and writes outside. -/
theorem resize_forgets_positions : ∃ s s' : Store 64,
    Runs step anyStep init [.ofSize 4 true, .write 0 [1, 2] true, .resize 0 1 true] s ∧
      (∃ b ∈ s.buffers, b.capacity < b.wpos ∧ b.validSize = BitVec.allOnes 64) ∧
      s.step (.write 0 [3] true) = some s' ∧ s'.undefined = true := by
  refine ⟨_, _, exec_eq_some_iff.mp rfl, ⟨_, List.mem_singleton.mpr rfl, ?_⟩, rfl, rfl⟩
  decide

-- ════════════════════════════════════════════════════════════════════════
-- The buffers that can be made
-- ════════════════════════════════════════════════════════════════════════

/-- A call on the only object. -/
theorem step_single {b b' : ByteBuffer w} {f : ByteBuffer w → Exit w}
    (hp : perform ⟨[b], false⟩ op = call ⟨[b], false⟩ 0 f)
    (hallowed : allowed ⟨[b], false⟩ op = true) (hf : f b = .returns b') :
    step ⟨[b], false⟩ op = some ⟨[b'], false⟩ := by
  rw [step, if_pos ⟨rfl, hallowed⟩, hp]
  simp only [call, List.getElem?_cons_zero, hf]
  rfl

/-- Every buffer in order can be made: by a constructor with its capacity, a copy of its
bytes, and moves of its positions. -/
theorem reachable_of_wf {b : ByteBuffer w} (h : b.WF) :
    ∃ ops, Runs step (fun s op _ => s.Keeps op) init ops ⟨[b], false⟩ := by
  obtain ⟨storage, hmake, hlen⟩ := b.exists_ofSize
  have hcopy := ByteBuffer.copyIn_all hlen.symm
  refine ⟨[.ofSize b.capacity true, .copyIn 0 b.storage.items, .writeBytes 0 b.wpos,
    .readBytes 0 b.rpos], .cons (t := ⟨[⟨0, 0, storage⟩], false⟩) ?_ trivial
    (.cons (t := ⟨[⟨0, 0, b.storage⟩], false⟩) ?_ trivial
      (.cons (t := ⟨[⟨b.wpos, 0, b.storage⟩], false⟩) ?_ trivial
        (.single ?_ trivial)))⟩
  · simp only [step, init, allowed, perform, hmake, and_self, if_true]
    rfl
  · have hroom : b.storage.items.length ≤
        (⟨0, 0, storage⟩ : ByteBuffer w).validSize.toNat := by
      rw [ByteBuffer.toNat_validSize (ByteBuffer.wf_start storage), hlen]
      exact Nat.le_refl _
    exact step_single (f := fun c => c.copyIn b.storage.items) rfl (decide_eq_true hroom) hcopy
  · have hroom : b.wpos ≤ (⟨0, 0, b.storage⟩ : ByteBuffer w).validSize := by
      rw [BitVec.le_def, ByteBuffer.toNat_validSize (ByteBuffer.wf_start b.storage)]
      exact h.wpos_toNat_le
    refine step_single (f := fun c => .returns (c.writeBytes b.wpos)) rfl (decide_eq_true hroom)
      (congrArg Exit.returns ?_)
    simp only [ByteBuffer.writeBytes, BitVec.zero_add, BitVec.ofNat_eq_ofNat]
  · have hroom : b.rpos ≤ (⟨b.wpos, 0, b.storage⟩ : ByteBuffer w).size := by
      have hzero : b.wpos - 0 = b.wpos := BitVec.sub_zero b.wpos
      rw [ByteBuffer.size, hzero]
      exact h.rpos_le
    refine step_single (f := fun c => .returns (c.readBytes b.rpos)) rfl (decide_eq_true hroom)
      (congrArg Exit.returns ?_)
    simp only [ByteBuffer.readBytes, BitVec.zero_add, BitVec.ofNat_eq_ofNat]

end Store

end SizeT

end Libasio
