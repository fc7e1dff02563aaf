import Libasio.ByteBuffer
import Libasio.StdVector
import Mathlib.Data.BitVec

/-!
# The byte buffer in machine arithmetic

`ByteBuffer` (`bytebuffer.h`) once more, with positions that are a `size_t` of `w` bits
and a storage that has a largest size. Every sum, difference and product is taken modulo
`2 ^ w`; a member function returns, throws, or touches memory outside of the storage.

## Main definitions

- `SizeT.ByteBuffer` — the buffer
- `SizeT.Exit` — how a call of a member function ends
- `SizeT.ByteBuffer.WF` — `rpos_ <= wpos_ <= Capacity()`
- `SizeT.ByteBuffer.ideal` — the same buffer with natural numbers

## Main results

- `SizeT.toNat_growth` — what the growth formula computes
- `SizeT.ByteBuffer.ensureValidSize_cases`, `SizeT.ByteBuffer.estimateSize_cases` — the
  ways in which the functions that grow the storage end
-/

namespace Libasio

namespace SizeT

/-- `max_size()` of a vector of characters. -/
def maxSize (w : Nat) : Nat := 2 ^ (w - 1) - 1

abbrev Storage (w : Nat) := StdVector UInt8 (maxSize w)

structure ByteBuffer (w : Nat) where
  wpos : BitVec w
  rpos : BitVec w
  storage : Storage w
  deriving DecidableEq

/-- The end of a call that changes a buffer. -/
inductive Exit (w : Nat)
  | returns (b : ByteBuffer w)
  | throws (b : ByteBuffer w)
  | undefined                    -- memory outside of the storage has been touched
  deriving DecidableEq

/-- Go on after a call that has returned. -/
def Exit.andThen {w : Nat} : Exit w → (ByteBuffer w → Exit w) → Exit w
  | .returns b, f => f b
  | e, _ => e

namespace ByteBuffer

variable {w : Nat}

def capacity (b : ByteBuffer w) : BitVec w := BitVec.ofNat w b.storage.items.length

def size (b : ByteBuffer w) : BitVec w := b.wpos - b.rpos

def validSize (b : ByteBuffer w) : BitVec w := b.capacity - b.wpos

def reset (b : ByteBuffer w) : ByteBuffer w := { b with wpos := 0, rpos := 0 }

def readBytes (b : ByteBuffer w) (bytes : BitVec w) : ByteBuffer w :=
  { b with rpos := b.rpos + bytes }

def writeBytes (b : ByteBuffer w) (bytes : BitVec w) : ByteBuffer w :=
  { b with wpos := b.wpos + bytes }

def resize (b : ByteBuffer w) (bytes : BitVec w) (alloc : Bool) : Exit w :=
  match b.storage.resize bytes.toNat 0 alloc with
  | .ok storage => .returns { b with storage := storage }
  | .error _ => .throws b

/-- `ByteBuffer(size)`; `none` when the constructor throws. -/
def ofSize (size : BitVec w) (alloc : Bool) : Option (ByteBuffer w) :=
  match (⟨0, 0, .empty⟩ : ByteBuffer w).resize size alloc with
  | .returns b => some b
  | _ => none

/-- `ByteBuffer()`. -/
def new (alloc : Bool) : Option (ByteBuffer w) := ofSize (8 * 1024) alloc

/-- `size` bytes from `ReadBegin()`. -/
def readable (b : ByteBuffer w) : Bytes := (b.storage.items.drop b.rpos.toNat).take b.size.toNat

/-- `memmove(Data(), ReadBegin(), Size())`. -/
def moveToFront (b : ByteBuffer w) : Exit w :=
  if h : b.rpos.toNat + b.size.toNat ≤ b.storage.items.length then
    .returns { b with storage := ⟨overwrite b.storage.items 0 b.readable, by
      rw [length_overwrite]
      · exact b.storage.length_le
      · simp only [readable, List.length_take, List.length_drop]
        omega⟩ }
  else .undefined

def normalize (b : ByteBuffer w) : Exit w :=
  if 0 < b.rpos then
    (if b.rpos ≠ b.wpos then b.moveToFront else .returns b).andThen fun b =>
      .returns { b with wpos := b.wpos - b.rpos, rpos := 0 }
  else .returns b

def ensureValidSize (b : ByteBuffer w) (alloc : Bool) : Exit w :=
  if b.validSize = 0 then b.resize (b.capacity * 3 / 2) alloc else .returns b

def estimateSize (b : ByteBuffer w) (size : BitVec w) (alloc : Bool) : Exit w :=
  if b.validSize < size then b.resize ((b.capacity + size) * 3 / 2) alloc else .returns b

/-- `memcpy(WriteBegin(), data, size)`. -/
def copyIn (b : ByteBuffer w) (data : Bytes) : Exit w :=
  if h : b.wpos.toNat + data.length ≤ b.storage.items.length then
    .returns { b with storage := ⟨overwrite b.storage.items b.wpos.toNat data, by
      rw [length_overwrite h]
      exact b.storage.length_le⟩ }
  else .undefined

/-- `Write(data, size)`, where `size` is the length of `data`. -/
def write (b : ByteBuffer w) (data : Bytes) (alloc : Bool) : Exit w :=
  let size := BitVec.ofNat w data.length
  if 0 < size then
    (b.estimateSize size alloc).andThen fun b =>
      (b.copyIn data).andThen fun b => .returns (b.writeBytes size)
  else .returns b

/-- `data` is filled in at `WriteBegin()`, followed by `WriteBytes`. -/
def fill (b : ByteBuffer w) (data : Bytes) : Exit w :=
  (b.copyIn data).andThen fun b => .returns (b.writeBytes (BitVec.ofNat w data.length))

/-- `ByteBuffer(rhs)`, and `operator=(rhs)` for another object, when `storage_` has been
copied. -/
def copy (rhs : ByteBuffer w) : ByteBuffer w := ⟨rhs.wpos, rhs.rpos, rhs.storage⟩

/-- `operator=(rhs)` when the copy of `storage_` throws: the positions have been assigned,
and the vector holds whatever its own assignment has left. -/
def copyFailed (rhs : ByteBuffer w) (left : Storage w) : ByteBuffer w :=
  ⟨rhs.wpos, rhs.rpos, left⟩

/-- `Move()` gives the storage away and resets the positions. -/
def move (b : ByteBuffer w) (rest : Storage w) : Storage w × ByteBuffer w :=
  (b.storage, ⟨0, 0, rest⟩)

/-- `ByteBuffer(std::move(rhs))`, and `operator=(std::move(rhs))` for another object,
give the new object and what is left of `rhs`. -/
def moveFrom (rhs : ByteBuffer w) (rest : Storage w) : ByteBuffer w × ByteBuffer w :=
  let (storage, rhs') := rhs.move rest
  (⟨rhs.wpos, rhs.rpos, storage⟩, rhs')

/-- `a.Swap(b)` gives the new `a` and the new `b`. -/
def swap (a b : ByteBuffer w) : ByteBuffer w × ByteBuffer w := (b, a)

/-- The invariant of the representation. -/
structure WF (b : ByteBuffer w) : Prop where
  rpos_le : b.rpos ≤ b.wpos
  wpos_le : b.wpos ≤ b.capacity

/-- The buffer with natural numbers for positions. -/
def ideal (b : ByteBuffer w) : Libasio.ByteBuffer :=
  ⟨b.wpos.toNat, b.rpos.toNat, b.storage.items⟩

end ByteBuffer

-- ════════════════════════════════════════════════════════════════════════
-- Arithmetic modulo `2 ^ w`
-- ════════════════════════════════════════════════════════════════════════

variable {w : Nat}

theorem maxSize_lt (w : Nat) : maxSize w < 2 ^ w := by
  have hle : 2 ^ (w - 1) ≤ 2 ^ w := Nat.pow_le_pow_right (by omega) (by omega)
  have hpos : 0 < 2 ^ (w - 1) := Nat.two_pow_pos _
  unfold maxSize
  omega

theorem two_pow_eq (hw : 2 ≤ w) : 2 ^ w = 2 * maxSize w + 2 := by
  have hpos : 0 < 2 ^ (w - 1) := Nat.two_pow_pos _
  have hsucc : 2 ^ w = 2 ^ (w - 1) * 2 := by
    rw [← Nat.pow_succ]
    congr 1
    omega
  unfold maxSize
  omega

/-- What `n * 3 / 2` computes: the product may wrap. -/
def growth (w n : Nat) : Nat := 3 * n % 2 ^ w / 2

theorem toNat_growth (hw : 2 ≤ w) (n : BitVec w) : (n * 3 / 2).toNat = growth w n.toNat := by
  have hfour : 4 ≤ 2 ^ w := Nat.pow_le_pow_right (n := 2) (by omega) hw
  have hthree : (3 : BitVec w).toNat = 3 := BitVec.toNat_ofNat 3 w ▸ Nat.mod_eq_of_lt (by omega)
  have htwo : (2 : BitVec w).toNat = 2 := BitVec.toNat_ofNat 2 w ▸ Nat.mod_eq_of_lt (by omega)
  rw [BitVec.toNat_udiv, BitVec.toNat_mul, hthree, htwo, Nat.mul_comm, growth]

/-- A wrap of the sum before that of the product makes no difference. -/
theorem toNat_growth_add (hw : 2 ≤ w) (m n : BitVec w) :
    ((m + n) * 3 / 2).toNat = growth w (m.toNat + n.toNat) := by
  rw [toNat_growth hw, BitVec.toNat_add, growth, growth, Nat.mul_mod_mod]

/-- No request of the growth formula is refused for its size. -/
theorem growth_le (hw : 2 ≤ w) (n : Nat) : growth w n ≤ maxSize w := by
  have hlt : 3 * n % 2 ^ w < 2 ^ w := Nat.mod_lt _ (Nat.two_pow_pos w)
  have heq := two_pow_eq hw
  unfold growth
  omega

/-- A storage with `c` bytes does not become shorter if the formula does not wrap. -/
theorem le_growth_self_iff (hw : 2 ≤ w) {c : Nat} (hc : c ≤ maxSize w) :
    c ≤ growth w c ↔ 3 * c < 2 ^ w := by
  have heq := two_pow_eq hw
  by_cases hno : 3 * c < 2 ^ w
  · rw [growth, Nat.mod_eq_of_lt hno]
    omega
  · have hone : 3 * c - 2 ^ w < 2 ^ w := by omega
    rw [growth, Nat.mod_eq_sub_mod (Nat.le_of_not_lt hno), Nat.mod_eq_of_lt hone]
    omega

/-- It becomes longer if it has two bytes at least. -/
theorem lt_growth_self_iff (hw : 2 ≤ w) {c : Nat} (hc : c ≤ maxSize w) :
    c < growth w c ↔ 2 ≤ c ∧ 3 * c < 2 ^ w := by
  have hle := le_growth_self_iff hw hc
  constructor
  · intro hlt
    have hno := hle.mp hlt.le
    rw [growth, Nat.mod_eq_of_lt hno] at hlt
    omega
  · rintro ⟨htwo, hno⟩
    rw [growth, Nat.mod_eq_of_lt hno]
    omega

theorem growth_of_lt {n : Nat} (h : 3 * n < 2 ^ w) : growth w n = n * 3 / 2 := by
  rw [growth, Nat.mod_eq_of_lt h, Nat.mul_comm]

namespace ByteBuffer

variable {b : ByteBuffer w}

-- ════════════════════════════════════════════════════════════════════════
-- Positions
-- ════════════════════════════════════════════════════════════════════════

theorem length_lt (b : ByteBuffer w) : b.storage.items.length < 2 ^ w :=
  Nat.lt_of_le_of_lt b.storage.length_le (maxSize_lt w)

@[simp] theorem toNat_capacity (b : ByteBuffer w) :
    b.capacity.toNat = b.storage.items.length := by
  rw [capacity, BitVec.toNat_ofNat, Nat.mod_eq_of_lt b.length_lt]

theorem wf_iff : b.WF ↔ b.ideal.WF := by
  constructor
  · exact fun ⟨hr, hp⟩ => ⟨hr, (toNat_capacity b) ▸ hp⟩
  · exact fun ⟨hr, hp⟩ => ⟨hr, BitVec.le_def.mpr ((toNat_capacity b).symm ▸ hp)⟩

theorem WF.rpos_toNat_le (h : b.WF) : b.rpos.toNat ≤ b.wpos.toNat := (wf_iff.mp h).rpos_le

theorem WF.wpos_toNat_le (h : b.WF) : b.wpos.toNat ≤ b.storage.items.length :=
  (wf_iff.mp h).wpos_le

/-- While the positions are in order, the differences do not wrap. -/
theorem toNat_size (h : b.WF) : b.size.toNat = b.wpos.toNat - b.rpos.toNat :=
  BitVec.toNat_sub_of_le h.rpos_le

theorem toNat_validSize (h : b.WF) :
    b.validSize.toNat = b.storage.items.length - b.wpos.toNat := by
  rw [validSize, BitVec.toNat_sub_of_le h.wpos_le, toNat_capacity]

theorem readable_ideal (h : b.WF) : b.ideal.readable = b.readable := by
  rw [readable, toNat_size h]
  rfl

theorem validSize_eq_zero_iff (h : b.WF) :
    b.validSize = 0 ↔ b.wpos.toNat = b.storage.items.length := by
  have hle := h.wpos_toNat_le
  rw [← BitVec.toNat_inj, toNat_validSize h, BitVec.ofNat_eq_ofNat, BitVec.toNat_zero]
  omega

-- ════════════════════════════════════════════════════════════════════════
-- Moving the positions
-- ════════════════════════════════════════════════════════════════════════

theorem ideal_readBytes {k : BitVec w} (h : b.WF) (hk : k ≤ b.size) :
    (b.readBytes k).ideal = b.ideal.readBytes k.toNat := by
  have hr := h.rpos_toNat_le
  have hlt := b.wpos.isLt
  rw [BitVec.le_def, toNat_size h] at hk
  simp only [ideal, readBytes, Libasio.ByteBuffer.readBytes, BitVec.toNat_add]
  rw [Nat.mod_eq_of_lt (by omega)]

theorem ideal_writeBytes {k : BitVec w} (h : b.WF) (hk : k ≤ b.validSize) :
    (b.writeBytes k).ideal = b.ideal.writeBytes k.toNat := by
  have hp := h.wpos_toNat_le
  have hlen := b.length_lt
  rw [BitVec.le_def, toNat_validSize h] at hk
  simp only [ideal, writeBytes, Libasio.ByteBuffer.writeBytes, BitVec.toNat_add]
  rw [Nat.mod_eq_of_lt (by omega)]

/-- `Normalize` of a buffer in order stays inside of its storage. -/
theorem ideal_normalize (h : b.WF) :
    ∃ b', b.normalize = .returns b' ∧ b'.ideal = b.ideal.normalize := by
  have hr := h.rpos_toNat_le
  have hp := h.wpos_toNat_le
  have hsub : (b.wpos - b.rpos).toNat = b.wpos.toNat - b.rpos.toNat := toNat_size h
  have hread := readable_ideal h
  by_cases hpos : 0 < b.rpos
  · have hpos' : 0 < b.ideal.rpos := BitVec.lt_def.mp hpos
    by_cases hne : b.rpos = b.wpos
    · have hne' : b.ideal.rpos = b.ideal.wpos := congrArg BitVec.toNat hne
      rw [normalize, if_pos hpos, if_neg (not_not.mpr hne)]
      refine ⟨_, rfl, ?_⟩
      rw [Libasio.ByteBuffer.normalize, if_pos hpos', if_neg (not_not.mpr hne')]
      simp only [ideal, hsub]
      rfl
    · have hne' : b.ideal.rpos ≠ b.ideal.wpos := mt BitVec.eq_of_toNat_eq hne
      have hin : b.rpos.toNat + b.size.toNat ≤ b.storage.items.length := by
        rw [toNat_size h]
        omega
      rw [normalize, if_pos hpos, if_pos hne, moveToFront, dif_pos hin]
      refine ⟨_, rfl, ?_⟩
      rw [Libasio.ByteBuffer.normalize, if_pos hpos', if_pos hne', hread]
      simp only [ideal, hsub]
      rfl
  · have hpos' : ¬0 < b.ideal.rpos := fun hlt => hpos (BitVec.lt_def.mpr hlt)
    rw [normalize, if_neg hpos, Libasio.ByteBuffer.normalize, if_neg hpos']
    exact ⟨b, rfl, rfl⟩

-- ════════════════════════════════════════════════════════════════════════
-- Growing
-- ════════════════════════════════════════════════════════════════════════

theorem resize_cases (b : ByteBuffer w) (bytes : BitVec w) (alloc : Bool) :
    (b.resize bytes alloc = .throws b ∧ (maxSize w < bytes.toNat ∨
      b.storage.items.length < bytes.toNat ∧ alloc = false)) ∨
    ∃ b', b.resize bytes alloc = .returns b' ∧ b'.ideal = b.ideal.resize bytes.toNat ∧
      ¬(b.storage.items.length < bytes.toNat ∧ alloc = false) := by
  unfold resize
  obtain ⟨e, he, hfail⟩ | ⟨v, hv, hitems, -, hmem⟩ := b.storage.resize_cases bytes.toNat 0 alloc
  · rw [he]
    exact .inl ⟨rfl, hfail⟩
  · rw [hv]
    refine .inr ⟨_, rfl, ?_, hmem⟩
    simp only [ideal, Libasio.ByteBuffer.resize, hitems]
    rfl

/-- What a change of the length leaves as it was. -/
theorem eq_of_ideal_resize {b' : ByteBuffer w} {n : Nat} (hi : b'.ideal = b.ideal.resize n) :
    b'.wpos = b.wpos ∧ b'.rpos = b.rpos ∧
      b'.storage.items = resizeStorage b.storage.items n :=
  ⟨BitVec.eq_of_toNat_eq (congrArg Libasio.ByteBuffer.wpos hi),
    BitVec.eq_of_toNat_eq (congrArg Libasio.ByteBuffer.rpos hi),
    congrArg Libasio.ByteBuffer.storage hi⟩

/-- A request of the growth formula. -/
theorem grow_cases (hw : 2 ≤ w) (b : ByteBuffer w) {bytes : BitVec w} {n : Nat} (alloc : Bool)
    (hn : bytes.toNat = growth w n) :
    (b.resize bytes alloc = .throws b ∧
      b.storage.items.length < growth w n ∧ alloc = false) ∨
    ∃ b', b.resize bytes alloc = .returns b' ∧ b'.ideal = b.ideal.resize (growth w n) ∧
      ¬(b.storage.items.length < growth w n ∧ alloc = false) := by
  have hle := growth_le hw n
  obtain ⟨he, hmax | hmem⟩ | hret := b.resize_cases bytes alloc
  · omega
  · exact .inl ⟨he, hn ▸ hmem⟩
  · exact .inr (hn ▸ hret)

/-- The ways in which `EnsureValidSize` ends. -/
theorem ensureValidSize_cases (hw : 2 ≤ w) (h : b.WF) (alloc : Bool) :
    (b.wpos.toNat < b.storage.items.length ∧ b.ensureValidSize alloc = .returns b) ∨
    b.wpos.toNat = b.storage.items.length ∧
      ((b.ensureValidSize alloc = .throws b ∧
        b.storage.items.length < growth w b.storage.items.length ∧ alloc = false) ∨
      ∃ b', b.ensureValidSize alloc = .returns b' ∧
        b'.ideal = b.ideal.resize (growth w b.storage.items.length) ∧
        ¬(b.storage.items.length < growth w b.storage.items.length ∧ alloc = false)) := by
  have hle := h.wpos_toNat_le
  unfold ensureValidSize
  by_cases hfull : b.validSize = 0
  · rw [if_pos hfull]
    refine .inr ⟨(validSize_eq_zero_iff h).mp hfull, grow_cases hw b alloc ?_⟩
    rw [toNat_growth hw, toNat_capacity]
  · rw [if_neg hfull]
    have hne := mt (validSize_eq_zero_iff h).mpr hfull
    exact .inl ⟨by omega, rfl⟩

/-- The ways in which `EstimateSize` ends. -/
theorem estimateSize_cases (hw : 2 ≤ w) (h : b.WF) (size : BitVec w) (alloc : Bool) :
    (b.wpos.toNat + size.toNat ≤ b.storage.items.length ∧
      b.estimateSize size alloc = .returns b) ∨
    b.storage.items.length < b.wpos.toNat + size.toNat ∧
      ((b.estimateSize size alloc = .throws b ∧ b.storage.items.length <
        growth w (b.storage.items.length + size.toNat) ∧ alloc = false) ∨
      ∃ b', b.estimateSize size alloc = .returns b' ∧
        b'.ideal = b.ideal.resize (growth w (b.storage.items.length + size.toNat)) ∧
        ¬(b.storage.items.length < growth w (b.storage.items.length + size.toNat) ∧
          alloc = false)) := by
  have hle := h.wpos_toNat_le
  have hvalid := toNat_validSize h
  unfold estimateSize
  by_cases hroom : b.validSize < size
  · rw [if_pos hroom]
    rw [BitVec.lt_def, hvalid] at hroom
    refine .inr ⟨by omega, grow_cases hw b alloc ?_⟩
    rw [toNat_growth_add hw, toNat_capacity]
  · rw [if_neg hroom]
    rw [BitVec.lt_def, hvalid] at hroom
    exact .inl ⟨by omega, rfl⟩

-- ════════════════════════════════════════════════════════════════════════
-- Writing
-- ════════════════════════════════════════════════════════════════════════

theorem fill_of_le {data : Bytes} (hroom : b.wpos.toNat + data.length ≤ b.storage.items.length) :
    ∃ b', b.fill data = .returns b' ∧ b'.ideal = b.ideal.fill data := by
  have hlen := b.length_lt
  have hadd : (b.wpos + BitVec.ofNat w data.length).toNat = b.wpos.toNat + data.length := by
    rw [BitVec.toNat_add, BitVec.toNat_ofNat, Nat.mod_eq_of_lt (by omega : data.length < 2 ^ w),
      Nat.mod_eq_of_lt (by omega)]
  rw [fill, copyIn, dif_pos hroom]
  refine ⟨_, rfl, ?_⟩
  simp only [ideal, writeBytes, hadd]
  rfl

theorem fill_undefined {data : Bytes}
    (hroom : ¬b.wpos.toNat + data.length ≤ b.storage.items.length) :
    b.fill data = .undefined := by
  rw [fill, copyIn, dif_neg hroom]
  rfl

/-- `Write` of something is `EstimateSize` and a fill. -/
theorem write_eq {data : Bytes} (hne : data ≠ []) (hd : data.length < 2 ^ w) (alloc : Bool) :
    b.write data alloc =
      (b.estimateSize (BitVec.ofNat w data.length) alloc).andThen fun b => b.fill data := by
  have hpos : 0 < BitVec.ofNat w data.length := by
    rw [BitVec.lt_def, BitVec.toNat_ofNat, Nat.mod_eq_of_lt hd, BitVec.ofNat_eq_ofNat,
      BitVec.toNat_zero]
    exact List.length_pos_iff.mpr hne
  rw [write, if_pos hpos]
  rfl

theorem fill_nil (b : Libasio.ByteBuffer) : b.fill [] = b := by
  simp [Libasio.ByteBuffer.fill, Libasio.ByteBuffer.copyIn, Libasio.ByteBuffer.writeBytes, overwrite]

/-- The ways in which `Write` ends, but for the copy behind a request. -/
theorem write_cases (hw : 2 ≤ w) (h : b.WF) (data : Bytes) (hd : data.length < 2 ^ w)
    (alloc : Bool) :
    (b.wpos.toNat + data.length ≤ b.storage.items.length ∧
      ∃ b', b.write data alloc = .returns b' ∧ b'.ideal = b.ideal.fill data) ∨
    b.storage.items.length < b.wpos.toNat + data.length ∧
      ((b.write data alloc = .throws b ∧
        b.storage.items.length < growth w (b.storage.items.length + data.length) ∧
        alloc = false) ∨
      ∃ b₁ : ByteBuffer w, b.write data alloc = b₁.fill data ∧
        b₁.ideal = b.ideal.resize (growth w (b.storage.items.length + data.length)) ∧
        ¬(b.storage.items.length < growth w (b.storage.items.length + data.length) ∧
          alloc = false)) := by
  by_cases hne : data = []
  · subst hne
    exact .inl ⟨h.wpos_toNat_le, b, by simp [write], (fill_nil _).symm⟩
  have hsize : (BitVec.ofNat w data.length).toNat = data.length := by
    rw [BitVec.toNat_ofNat, Nat.mod_eq_of_lt hd]
  have hcases := estimateSize_cases hw h (BitVec.ofNat w data.length) alloc
  rw [hsize] at hcases
  rw [write_eq hne hd]
  obtain ⟨hroom, he⟩ | ⟨hroom, ⟨he, hgrow⟩ | ⟨b₁, he, hi, hmem⟩⟩ := hcases
  · rw [he]
    exact .inl ⟨hroom, fill_of_le hroom⟩
  · rw [he]
    exact .inr ⟨hroom, .inl ⟨rfl, hgrow⟩⟩
  · rw [he]
    exact .inr ⟨hroom, .inr ⟨b₁, rfl, hi, hmem⟩⟩

end ByteBuffer

end SizeT

end Libasio
