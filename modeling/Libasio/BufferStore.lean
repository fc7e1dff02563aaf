import Libasio.ByteBuffer
import Libasio.Queues
import Libasio.Transition

/-!
# Byte buffers as queues

Any number of `ByteBuffer` objects and all that is done with them, against the same
number of first-in-first-out queues of bytes.

## Main definitions

- `BufferOp` — the operations on buffers, with the objects they are called on
- `BufferOp.act`, `BufferOp.spec` — what they do to the buffers, and to the queues

## Main results

- `ByteBuffer.follows_act` — each operation does to a buffer what it does to the queue
- `ByteBuffer.buffers_are_queues` — and so does every sequence of operations
-/

namespace Libasio

open Transition

/-- An operation on the buffers made so far, which have numbers. A constructor makes
the next one. -/
inductive BufferOp
  | new                                        -- `ByteBuffer()`
  | ofSize (size : Nat)                        -- `ByteBuffer(size)`
  | copy (i : Nat)                             -- `ByteBuffer(b_i)`
  | move (i : Nat)                             -- `ByteBuffer(std::move(b_i))`
  | assign (i j : Nat)                         -- `b_i = b_j`
  | moveAssign (i j : Nat) (rest : Bytes)      -- `b_i = std::move(b_j)`
  | reset (i : Nat)
  | readBytes (i k : Nat)                      -- of at most `Size()` bytes
  | fill (i : Nat) (data : Bytes)              -- at most `ValidSize()` bytes, and `WriteBytes`
  | normalize (i : Nat)
  | ensureValidSize (i : Nat)
  | estimateSize (i size : Nat)
  | write (i : Nat) (data : Bytes)
  | swap (i j : Nat)                           -- `b_i.Swap(b_j)`

namespace BufferOp

/-- The effect on the buffers. The vector is empty after its move constructor has been
used on it; after a move assignment it holds anything. -/
def act : BufferOp → Slots.Op ByteBuffer
  | new => .create .new
  | ofSize size => .create (.ofSize size)
  | copy i => .derive i fun b => (b.copy, b)
  | move i => .derive i fun b => b.moveFrom []
  | assign i j => .pair i j fun _ rhs => (rhs.copy, rhs)
  | moveAssign i j rest => .pair i j fun _ rhs => rhs.moveFrom rest
  | reset i => .update i fun b => some b.reset
  | readBytes i k => .update i fun b => if k ≤ b.size then some (b.readBytes k) else none
  | fill i data => .update i fun b => if data.length ≤ b.validSize then some (b.fill data) else none
  | normalize i => .update i fun b => some b.normalize
  | ensureValidSize i => .update i fun b => some b.ensureValidSize
  | estimateSize i size => .update i fun b => some (b.estimateSize size)
  | write i data => .update i fun b => some (b.write data)
  | swap i j => .pair i j ByteBuffer.swap

/-- The effect on the queues. -/
def spec : BufferOp → Fifo.Op UInt8
  | new | ofSize _ => .create
  | copy i => .copy i
  | move i => .move i
  | assign i j => .assign i j
  | moveAssign i j _ => .moveAssign i j
  | reset i => .clear i
  | readBytes i k => .drop i k
  | fill i data | write i data => .append i data
  | normalize i | ensureValidSize i | estimateSize i _ => .keep i
  | swap i j => .exchange i j

end BufferOp

namespace ByteBuffer

/-- One operation on the buffers. -/
def storeStep (bs : List ByteBuffer) (op : BufferOp) : Option (List ByteBuffer) :=
  Slots.step bs op.act

/-- The buffer is in order and holds the queue. -/
def Holds (b : ByteBuffer) (q : Bytes) : Prop := b.WF ∧ b.readable = q

theorem holds_empty (storage : Bytes) : Holds ⟨0, 0, storage⟩ [] :=
  ⟨wf_empty storage, readable_empty storage⟩

/-- A buffer that is changed alone, as its queue is. -/
theorem follows_update {i : Nat} {f : ByteBuffer → ByteBuffer} {g : Bytes → Bytes}
    (hwf : ∀ b, b.WF → (f b).WF) (hread : ∀ b, b.WF → (f b).readable = g b.readable) :
    Slots.Follows Holds (.update i fun b => some (f b)) (.update i fun q => some (g q)) := by
  refine .update ?_
  rintro b q b' ⟨hb, rfl⟩ ⟨⟩
  exact ⟨_, rfl, hwf b hb, hread b hb⟩

/-- Each operation does to the buffers what it does to the queues. -/
theorem follows_act (op : BufferOp) : Slots.Follows Holds op.act op.spec.act := by
  cases op with
  | new => exact .create ⟨wf_new, readable_new⟩
  | ofSize size => exact .create (holds_empty _)
  | copy i => exact .derive fun b q h => ⟨h, h⟩
  | move i => exact .derive fun b q h => ⟨h, holds_empty _⟩
  | assign i j => exact .pair fun _ b _ q _ h => ⟨h, h⟩
  | moveAssign i j rest => exact .pair fun _ b _ q _ h => ⟨h, holds_empty rest⟩
  | reset i =>
    exact follows_update (fun b _ => wf_empty b.storage) fun b _ => readable_empty b.storage
  | readBytes i k =>
    refine .update ?_
    rintro b q b' ⟨hb, rfl⟩ hs
    obtain ⟨hk, ⟨⟩⟩ := Option.ite_none_right_eq_some.mp hs
    rw [if_pos (by rwa [length_readable hb])]
    exact ⟨_, rfl, wf_readBytes hb hk, readable_readBytes b k⟩
  | fill i data =>
    refine .update ?_
    rintro b q b' ⟨hb, rfl⟩ hs
    obtain ⟨hk, ⟨⟩⟩ := Option.ite_none_right_eq_some.mp hs
    exact ⟨_, rfl, wf_fill hb hk, readable_fill hb data⟩
  | normalize i =>
    exact follows_update (g := id) (fun b => wf_normalize) fun b => readable_normalize
  | ensureValidSize i =>
    exact follows_update (g := id) (fun b => wf_ensureValidSize) fun b => readable_ensureValidSize
  | estimateSize i size =>
    exact follows_update (g := id) (fun b h => wf_estimateSize h size)
      fun b h => readable_estimateSize h size
  | write i data =>
    exact follows_update (fun b h => wf_write h data) fun b h => readable_write h data
  | swap i j => exact .pair fun a b p q h h' => ⟨h', h⟩

theorem related_holds {bs : List ByteBuffer} {qs : List Bytes} (h : Slots.Related Holds bs qs) :
    (∀ b ∈ bs, b.WF) ∧ qs = bs.map readable := by
  refine ⟨fun b hb => ?_, ?_⟩
  · obtain ⟨i, hi⟩ := List.getElem?_of_mem hb
    obtain ⟨q, -, hwf, -⟩ := h.get hi
    exact hwf
  · refine List.ext_getElem? fun i => ?_
    rw [List.getElem?_map]
    cases hb : bs[i]? with
    | none =>
      rw [List.getElem?_eq_none_iff] at hb
      exact List.getElem?_eq_none (h.length ▸ hb)
    | some b =>
      obtain ⟨q, hq, -, rfl⟩ := h.get hb
      exact hq

/-- In every sequence of operations on any number of buffers the positions of each
stay in order, and its readable bytes are the content of a queue on which the same
operations are carried out. -/
theorem buffers_are_queues {ops : List BufferOp} {bs : List ByteBuffer}
    (hr : Runs storeStep anyStep [] ops bs) :
    (∀ b ∈ bs, b.rpos ≤ b.wpos ∧ b.wpos ≤ b.capacity) ∧
      Runs Fifo.step anyStep [] (ops.map BufferOp.spec) (bs.map readable) := by
  have hstep : ∀ (bs : List ByteBuffer) (op : BufferOp) (bs' : List ByteBuffer) (qs : List Bytes),
      Slots.Related Holds bs qs → storeStep bs op = some bs' →
      ∃ qs', Fifo.step qs op.spec = some qs' ∧ Slots.Related Holds bs' qs' :=
    fun _ op _ _ h hs => Slots.step_follows h (follows_act op) hs
  obtain ⟨qs, hq, hrel⟩ := hr.simulates hstep .nil
  obtain ⟨hwf, rfl⟩ := related_holds hrel
  exact ⟨fun b hb => ⟨(hwf b hb).rpos_le, (hwf b hb).wpos_le⟩, hq⟩

/-- Two small buffers: one is written, copied, read from, and moved over the other. -/
theorem buffers_are_queues_two :
    ∃ bs, Runs storeStep anyStep []
      [.ofSize 2, .write 0 [1, 2, 3], .copy 0, .readBytes 0 1, .normalize 0, .fill 1 [4],
        .swap 0 1, .moveAssign 1 0 [9]] bs ∧ bs.map readable = [[], [1, 2, 3, 4]] ∧
      ∀ b ∈ bs, b.rpos ≤ b.wpos ∧ b.wpos ≤ b.capacity := by
  obtain ⟨bs, hr, hread⟩ : ∃ bs, Runs storeStep anyStep []
      [.ofSize 2, .write 0 [1, 2, 3], .copy 0, .readBytes 0 1, .normalize 0, .fill 1 [4],
        .swap 0 1, .moveAssign 1 0 [9]] bs ∧ bs.map readable = [[], [1, 2, 3, 4]] :=
    ⟨_, exec_eq_some_iff.mp rfl, by decide⟩
  exact ⟨bs, hr, hread, (buffers_are_queues hr).1⟩

end ByteBuffer

end Libasio
