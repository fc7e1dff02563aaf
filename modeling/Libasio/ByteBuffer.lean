import Mathlib.Data.List.Basic
import Mathlib.Data.UInt

/-!
# The byte buffer

`ByteBuffer` (`bytebuffer.h`): a growable array with a read and a write
position. Sizes are unbounded naturals, so the differences `Size` and
`ValidSize` agree with the `size_t` ones as long as the positions are ordered
(`ByteBuffer.WF`); nothing here wraps.

## Main definitions

- `ByteBuffer.WF` — `rpos ≤ wpos ≤ storage.length`
- `ByteBuffer.readable` — the unread content, `ReadBegin()[0 .. Size())`

## Main results

- `ByteBuffer.readable_write`, `ByteBuffer.readable_readBytes` — `Write`
  appends to the unread content, `ReadBytes` drops from its front
-/

namespace Libasio

/-- Characters of the stream. -/
abbrev Bytes := List UInt8

/-- `memcpy(base + pos, data, size)` on an array. -/
def overwrite (l : Bytes) (pos : Nat) (data : Bytes) : Bytes :=
  l.take pos ++ data ++ l.drop (pos + data.length)

/-- `std::vector::resize`: cut, or fill up with zeros. -/
def resizeStorage (l : Bytes) (n : Nat) : Bytes := l.take n ++ List.replicate (n - l.length) 0

structure ByteBuffer where
  wpos : Nat
  rpos : Nat
  storage : Bytes
  deriving DecidableEq

namespace ByteBuffer

/-- The size of a default constructed buffer. -/
def defaultSize : Nat := 8 * 1024

/-- `ByteBuffer(size)`. -/
def ofSize (size : Nat) : ByteBuffer := ⟨0, 0, List.replicate size 0⟩

/-- `ByteBuffer()`. -/
def new : ByteBuffer := ofSize defaultSize

def reset (b : ByteBuffer) : ByteBuffer := { b with wpos := 0, rpos := 0 }

def resize (b : ByteBuffer) (n : Nat) : ByteBuffer :=
  { b with storage := resizeStorage b.storage n }

def readBytes (b : ByteBuffer) (n : Nat) : ByteBuffer := { b with rpos := b.rpos + n }

def writeBytes (b : ByteBuffer) (n : Nat) : ByteBuffer := { b with wpos := b.wpos + n }

def size (b : ByteBuffer) : Nat := b.wpos - b.rpos

def validSize (b : ByteBuffer) : Nat := b.storage.length - b.wpos

def capacity (b : ByteBuffer) : Nat := b.storage.length

/-- `size` bytes from `ReadBegin()`. -/
def readable (b : ByteBuffer) : Bytes := (b.storage.drop b.rpos).take b.size

/-- `Normalize`: move the unread bytes to the front. -/
def normalize (b : ByteBuffer) : ByteBuffer :=
  if 0 < b.rpos then
    let storage := if b.rpos ≠ b.wpos then overwrite b.storage 0 b.readable else b.storage
    ⟨b.wpos - b.rpos, 0, storage⟩
  else b

/-- `EnsureValidSize`: grow a buffer that is full. -/
def ensureValidSize (b : ByteBuffer) : ByteBuffer :=
  if b.validSize = 0 then b.resize (b.storage.length * 3 / 2) else b

/-- `EstimateSize`: grow when fewer than `n` bytes fit behind the write position. -/
def estimateSize (b : ByteBuffer) (n : Nat) : ByteBuffer :=
  if b.validSize < n then b.resize ((b.storage.length + n) * 3 / 2) else b

/-- Bytes copied to `WriteBegin()`; the write position stays. -/
def copyIn (b : ByteBuffer) (data : Bytes) : ByteBuffer :=
  { b with storage := overwrite b.storage b.wpos data }

def write (b : ByteBuffer) (data : Bytes) : ByteBuffer :=
  if 0 < data.length then ((b.estimateSize data.length).copyIn data).writeBytes data.length else b

/-- `ByteBuffer(rhs)`, and `operator=(rhs)` for another object. -/
def copy (rhs : ByteBuffer) : ByteBuffer := ⟨rhs.wpos, rhs.rpos, rhs.storage⟩

/-- `Move()` gives the storage away and resets the positions. What a moved-from
vector holds is for the library to choose. -/
def move (b : ByteBuffer) (rest : Bytes) : Bytes × ByteBuffer := (b.storage, ⟨0, 0, rest⟩)

/-- `ByteBuffer(std::move(rhs))`, and `operator=(std::move(rhs))` for another object,
give the new object and what is left of `rhs`. -/
def moveFrom (rhs : ByteBuffer) (rest : Bytes) : ByteBuffer × ByteBuffer :=
  let (storage, rhs') := rhs.move rest
  (⟨rhs.wpos, rhs.rpos, storage⟩, rhs')

/-- `data` is filled in at `WriteBegin()`, followed by `WriteBytes`. -/
def fill (b : ByteBuffer) (data : Bytes) : ByteBuffer := (b.copyIn data).writeBytes data.length

/-- `a.Swap(b)` gives the new `a` and the new `b`. -/
def swap (a b : ByteBuffer) : ByteBuffer × ByteBuffer := (b, a)

/-- The order of the positions that every operation relies on. -/
structure WF (b : ByteBuffer) : Prop where
  rpos_le : b.rpos ≤ b.wpos
  wpos_le : b.wpos ≤ b.storage.length

end ByteBuffer

-- ════════════════════════════════════════════════════════════════════════
-- Array operations
-- ════════════════════════════════════════════════════════════════════════

theorem length_overwrite {l data : Bytes} {pos : Nat} (h : pos + data.length ≤ l.length) :
    (overwrite l pos data).length = l.length := by
  simp only [overwrite, List.length_append, List.length_take, List.length_drop]
  omega

@[simp] theorem length_resizeStorage (l : Bytes) (n : Nat) : (resizeStorage l n).length = n := by
  simp only [resizeStorage, List.length_append, List.length_take, List.length_replicate]
  omega

/-- Growing keeps the bytes that were there. -/
theorem take_resizeStorage {l : Bytes} {n k : Nat} (hk : k ≤ l.length) (hn : k ≤ n) :
    (resizeStorage l n).take k = l.take k := by
  have hlen : k ≤ (l.take n).length := by simp only [List.length_take]; omega
  rw [resizeStorage, List.take_append_of_le_length hlen, List.take_take, Nat.min_eq_left hn]

/-- What is read back from a window that ends with freshly written bytes. -/
theorem take_drop_overwrite {l data : Bytes} {r w : Nat} (hr : r ≤ w) (hw : w ≤ l.length) :
    ((overwrite l w data).drop r).take (w + data.length - r) = (l.drop r).take (w - r) ++ data := by
  have hlen : (l.take w).length = w := by simp only [List.length_take]; omega
  have hd : (overwrite l w data).drop r =
      (l.take w).drop r ++ (data ++ l.drop (w + data.length)) := by
    rw [overwrite, List.append_assoc, List.drop_append_of_le_length (by omega)]
  have hk : w + data.length - r = ((l.take w).drop r).length + data.length := by
    rw [List.length_drop]
    omega
  rw [hd, hk, List.take_length_add_append, List.take_left, List.drop_take]

namespace ByteBuffer

-- ════════════════════════════════════════════════════════════════════════
-- Positions and content
-- ════════════════════════════════════════════════════════════════════════

@[simp] theorem capacity_ofSize (n : Nat) : (ofSize n).capacity = n := by
  simp [ofSize, capacity]

@[simp] theorem validSize_new : new.validSize = defaultSize := by
  simp [new, ofSize, validSize]

@[simp] theorem readable_new : new.readable = [] := by
  simp [new, ofSize, readable, size]

theorem wf_new : new.WF := ⟨le_rfl, by simp [new, ofSize]⟩

theorem length_readable {b : ByteBuffer} (h : b.WF) : b.readable.length = b.size := by
  have := h.rpos_le
  have := h.wpos_le
  simp only [readable, size, List.length_take, List.length_drop]
  omega

theorem readable_eq_nil_iff {b : ByteBuffer} (h : b.WF) : b.readable = [] ↔ b.size = 0 := by
  rw [← List.length_eq_zero_iff, length_readable h]

theorem wf_readBytes {b : ByteBuffer} {n : Nat} (h : b.WF) (hn : n ≤ b.size) :
    (b.readBytes n).WF := by
  have := h.rpos_le
  simp only [size] at hn
  exact ⟨by simp only [readBytes]; omega, h.wpos_le⟩

/-- Consuming bytes drops them from the front of the unread content. -/
theorem readable_readBytes (b : ByteBuffer) (n : Nat) :
    (b.readBytes n).readable = b.readable.drop n := by
  simp only [readable, readBytes, size, List.drop_take, List.drop_drop, Nat.sub_sub]

-- ════════════════════════════════════════════════════════════════════════
-- Growing and writing
-- ════════════════════════════════════════════════════════════════════════

@[simp] theorem estimateSize_rpos (b : ByteBuffer) (n : Nat) :
    (b.estimateSize n).rpos = b.rpos := by
  simp only [estimateSize]
  split <;> rfl

@[simp] theorem estimateSize_wpos (b : ByteBuffer) (n : Nat) :
    (b.estimateSize n).wpos = b.wpos := by
  simp only [estimateSize]
  split <;> rfl

/-- `EstimateSize` makes room, in a buffer whose positions are in order. -/
theorem room_estimateSize {b : ByteBuffer} (h : b.WF) (n : Nat) :
    b.wpos + n ≤ (b.estimateSize n).storage.length := by
  have := h.wpos_le
  simp only [estimateSize]
  split
  · simp only [resize, length_resizeStorage]
    omega
  · next hroom =>
    simp only [validSize] at hroom
    omega

/-- Behind the write position the storage can be cut or grown. -/
theorem wf_resize {b : ByteBuffer} {n : Nat} (h : b.WF) (hn : b.wpos ≤ n) : (b.resize n).WF :=
  ⟨h.rpos_le, by simpa only [resize, length_resizeStorage] using hn⟩

theorem readable_resize {b : ByteBuffer} {n : Nat} (h : b.WF) (hn : b.wpos ≤ n) :
    (b.resize n).readable = b.readable := by
  have hw := h.wpos_le
  simp only [readable, size, resize, ← List.drop_take]
  congr 1
  exact take_resizeStorage (by omega) (by omega)

theorem readable_estimateSize {b : ByteBuffer} (h : b.WF) (n : Nat) :
    (b.estimateSize n).readable = b.readable := by
  have hw := h.wpos_le
  unfold estimateSize
  split
  · exact readable_resize h (by omega)
  · rfl

theorem wf_write {b : ByteBuffer} (h : b.WF) (data : Bytes) : (b.write data).WF := by
  simp only [write]
  split
  · have hroom := room_estimateSize h data.length
    have := h.rpos_le
    constructor
    · simp only [writeBytes, copyIn, estimateSize_rpos, estimateSize_wpos]
      omega
    · simp only [writeBytes, copyIn, estimateSize_wpos]
      rw [length_overwrite hroom]
      exact hroom
  · exact h

/-- Writing appends to the unread content. -/
theorem readable_write {b : ByteBuffer} (h : b.WF) (data : Bytes) :
    (b.write data).readable = b.readable ++ data := by
  simp only [write]
  split
  · have hroom := room_estimateSize h data.length
    have hw : b.wpos ≤ (b.estimateSize data.length).storage.length := by omega
    rw [← readable_estimateSize h data.length]
    simp only [readable, size, writeBytes, copyIn, estimateSize_rpos, estimateSize_wpos]
    exact take_drop_overwrite h.rpos_le hw
  · next hz =>
    have : data = [] := List.length_eq_zero_iff.mp (by omega)
    simp [this]

@[simp] theorem write_rpos (b : ByteBuffer) (data : Bytes) : (b.write data).rpos = b.rpos := by
  simp only [write]
  split
  · simp only [writeBytes, copyIn, estimateSize_rpos]
  · rfl

@[simp] theorem write_wpos (b : ByteBuffer) (data : Bytes) :
    (b.write data).wpos = b.wpos + data.length := by
  simp only [write]
  split
  · simp only [writeBytes, copyIn, estimateSize_wpos]
  · omega

theorem size_write {b : ByteBuffer} (h : b.WF) (data : Bytes) :
    (b.write data).size = b.size + data.length := by
  have := h.rpos_le
  simp only [size, write_rpos, write_wpos]
  omega

-- ════════════════════════════════════════════════════════════════════════
-- Moving the unread bytes to the front
-- ════════════════════════════════════════════════════════════════════════

theorem capacity_normalize {b : ByteBuffer} (h : b.WF) : b.normalize.capacity = b.capacity := by
  have := h.wpos_le
  have hlen := length_readable h
  simp only [normalize, capacity]
  split
  · split
    · refine length_overwrite ?_
      rw [hlen, size]
      omega
    · rfl
  · rfl

theorem normalize_rpos (b : ByteBuffer) : b.normalize.rpos = 0 := by
  simp only [normalize]
  split
  · rfl
  · omega

theorem normalize_wpos (b : ByteBuffer) : b.normalize.wpos = b.size := by
  simp only [normalize, size]
  split
  · rfl
  · omega

theorem size_normalize (b : ByteBuffer) : b.normalize.size = b.size := by
  rw [size, normalize_rpos, normalize_wpos, Nat.sub_zero]

theorem wf_normalize {b : ByteBuffer} (h : b.WF) : b.normalize.WF := by
  have hcap : b.normalize.storage.length = b.storage.length := capacity_normalize h
  have := h.wpos_le
  constructor
  · rw [normalize_rpos]
    exact Nat.zero_le _
  · rw [normalize_wpos, hcap, size]
    omega

/-- Moving the unread bytes does not change them, although source and target overlap. -/
theorem readable_normalize {b : ByteBuffer} (h : b.WF) : b.normalize.readable = b.readable := by
  have hlen := length_readable h
  rw [readable, size_normalize, normalize_rpos, List.drop_zero]
  simp only [normalize]
  split
  · split
    · rw [overwrite, List.take_zero, List.nil_append, ← hlen, List.take_left]
    · next heq =>
      have hzero : b.size = 0 := by
        rw [size, not_not.mp heq, Nat.sub_self]
      rw [hzero, List.take_zero, (readable_eq_nil_iff h).mpr hzero]
  · next hz =>
    have hr : b.rpos = 0 := by omega
    rw [readable, hr, List.drop_zero]

-- ════════════════════════════════════════════════════════════════════════
-- The other operations
-- ════════════════════════════════════════════════════════════════════════

theorem wf_estimateSize {b : ByteBuffer} (h : b.WF) (n : Nat) : (b.estimateSize n).WF := by
  have := h.wpos_le
  unfold estimateSize
  split
  · exact wf_resize h (by omega)
  · exact h

theorem wf_ensureValidSize {b : ByteBuffer} (h : b.WF) : b.ensureValidSize.WF := by
  have := h.wpos_le
  unfold ensureValidSize
  split
  · exact wf_resize h (by omega)
  · exact h

theorem readable_ensureValidSize {b : ByteBuffer} (h : b.WF) :
    b.ensureValidSize.readable = b.readable := by
  have := h.wpos_le
  unfold ensureValidSize
  split
  · exact readable_resize h (by omega)
  · rfl

theorem wf_fill {b : ByteBuffer} {data : Bytes} (h : b.WF) (hk : data.length ≤ b.validSize) :
    (b.fill data).WF := by
  have := h.rpos_le
  have := h.wpos_le
  simp only [validSize] at hk
  have hlen : (overwrite b.storage b.wpos data).length = b.storage.length :=
    length_overwrite (by omega)
  refine ⟨?_, ?_⟩
  · simp only [fill, writeBytes, copyIn]
    omega
  · simp only [fill, writeBytes, copyIn, hlen]
    omega

/-- Filling in bytes appends them to the unread content. -/
theorem readable_fill {b : ByteBuffer} (h : b.WF) (data : Bytes) :
    (b.fill data).readable = b.readable ++ data :=
  take_drop_overwrite h.rpos_le h.wpos_le

theorem fill_nil (b : ByteBuffer) : b.fill [] = b := by
  simp [fill, copyIn, writeBytes, overwrite]

/-- A buffer whose positions are both zero holds nothing. -/
theorem wf_empty (storage : Bytes) : WF ⟨0, 0, storage⟩ := ⟨Nat.le_refl 0, Nat.zero_le _⟩

theorem readable_empty (storage : Bytes) : readable ⟨0, 0, storage⟩ = [] := rfl

end ByteBuffer

end Libasio
