import Libasio.BufferInvariant

/-!
# Buffers in machine arithmetic as queues

Any number of `ByteBuffer` objects whose positions are a `size_t` and whose memory can run
out, against the same number of first-in-first-out queues. A call that throws leaves the
queues as they are, but for an assignment: that has taken over the positions by then.

## Main definitions

- `SizeT.Store.queues` — what is readable in the objects
- `SizeT.Store.spec` — what an operation does to the queues

## Main results

- `SizeT.Store.step_queues` — each operation does that
- `SizeT.Store.machine_buffers_are_queues` — and so does every sequence of operations in
  which no storage is made shorter than `wpos_`
-/

namespace Libasio

namespace SizeT

open Transition

variable {w : Nat}

namespace Exit

/-- The call ends with these bytes readable. -/
def Leaves (q : Bytes) : Exit w → Prop
  | .returns b | .throws b => b.readable = q
  | .undefined => False

def threw : Exit w → Bool
  | .throws _ => true
  | _ => false

end Exit

namespace Store

def queues (s : Store w) : List Bytes := s.buffers.map ByteBuffer.readable

/-- A constructor makes an empty queue, unless it throws. -/
def creation : Option (ByteBuffer w) → List (Fifo.Op UInt8)
  | some _ => [.create]
  | none => []

/-- What stands behind `wpos_` in object `i`. -/
def behind (s : Store w) (i : Nat) (k : BitVec w) : Bytes :=
  s.buffers[i]?.elim [] fun b => (b.storage.items.drop b.wpos.toNat).take k.toNat

/-- What the positions of object `j` cut out of another storage. -/
def remainder (s : Store w) (j : Nat) (left : Storage w) : Bytes :=
  s.buffers[j]?.elim [] fun rhs => (rhs.copyFailed left).readable

/-- The effect of an operation on the queues. -/
def spec (s : Store w) : BufferOp w → List (Fifo.Op UInt8)
  | .new alloc => creation (ByteBuffer.new (w := w) alloc)
  | .ofSize size alloc => creation (ByteBuffer.ofSize size alloc)
  | .copy i alloc => if alloc then [.copy i] else [.keep i]
  | .move i => [.move i]
  | .assign i j alloc left =>
    if alloc = true ∨ i = j then [.assign i j] else [.clear i, .append i (s.remainder j left)]
  | .moveAssign i j _ => [.moveAssign i j]
  | .reset i => [.clear i]
  | .readBytes i k => [.drop i k.toNat]
  | .writeBytes i k => [.append i (s.behind i k)]
  | .write i data alloc =>
    if s.buffers[i]?.any fun b => (b.write data alloc).threw then [.keep i] else [.append i data]
  | .resize i _ _ | .copyIn i _ | .normalize i | .ensureValidSize i _ | .estimateSize i _ _ =>
    [.keep i]
  | .swap i j => [.exchange i j]

end Store

-- ════════════════════════════════════════════════════════════════════════
-- The member functions
-- ════════════════════════════════════════════════════════════════════════

namespace ByteBuffer

variable {b b' : ByteBuffer w}

theorem readable_eq (h : b.WF) :
    b.readable = (b.storage.items.take b.wpos.toNat).drop b.rpos.toNat := by
  rw [readable, toNat_size h, List.drop_take]

theorem length_readable (h : b.WF) : b.readable.length = b.size.toNat := by
  have hp := h.wpos_toNat_le
  rw [readable_eq h, toNat_size h, List.length_drop, List.length_take, Nat.min_eq_left hp]

theorem rpos_le_length (h : b.WF) {l : Bytes} :
    b.rpos.toNat ≤ (b.storage.items.take b.wpos.toNat ++ l).length := by
  have hr := h.rpos_toNat_le
  have hp := h.wpos_toNat_le
  rw [List.length_append, List.length_take, Nat.min_eq_left hp]
  omega

/-- What stands in front of `wpos_` stays, and something is added. -/
theorem readable_of_append (h : b.WF) (h' : b'.WF) {l : Bytes} (hr : b'.rpos = b.rpos)
    (hitems : b'.storage.items.take b'.wpos.toNat = b.storage.items.take b.wpos.toNat ++ l) :
    b'.readable = b.readable ++ l := by
  have hle : b.rpos.toNat ≤ (b.storage.items.take b.wpos.toNat).length := by
    simpa using rpos_le_length h (l := [])
  rw [readable_eq h', hitems, hr, List.drop_append_of_le_length hle, readable_eq h]

theorem readable_readBytes {k : BitVec w} (h : b.WF) (hk : k ≤ b.size) :
    (b.readBytes k).readable = b.readable.drop k.toNat := by
  rw [← readable_ideal (wf_readBytes h hk), ideal_readBytes h hk,
    Libasio.ByteBuffer.readable_readBytes, readable_ideal h]

theorem readable_writeBytes {k : BitVec w} (h : b.WF) (hk : k ≤ b.validSize) :
    (b.writeBytes k).readable =
      b.readable ++ (b.storage.items.drop b.wpos.toNat).take k.toNat := by
  have hwpos : (b.writeBytes k).wpos.toNat = b.wpos.toNat + k.toNat :=
    congrArg Libasio.ByteBuffer.wpos (ideal_writeBytes h hk)
  refine readable_of_append h (wf_writeBytes h hk) rfl ?_
  rw [hwpos]
  exact List.take_add

theorem copyIn_leaves {data : Bytes} (h : b.WF) (hsafe : (b.copyIn data).Safe) :
    (b.copyIn data).Leaves b.readable := by
  have hlen : (b.storage.items.take b.wpos.toNat).length = b.wpos.toNat :=
    List.length_take_of_le h.wpos_toNat_le
  by_cases hroom : b.wpos.toNat + data.length ≤ b.storage.items.length
  · rw [copyIn, dif_pos hroom] at hsafe ⊢
    refine (readable_of_append h hsafe rfl (l := []) ?_).trans (List.append_nil _)
    have htake (l : Bytes) : (b.storage.items.take b.wpos.toNat ++ l).take b.wpos.toNat =
        b.storage.items.take b.wpos.toNat :=
      List.take_left' hlen
    rw [List.append_nil]
    simpa only [overwrite, List.append_assoc] using htake _
  · rw [copyIn, dif_neg hroom] at hsafe
    exact hsafe.elim

/-- A change of the length shows nothing as long as `wpos_` stays inside. -/
theorem readable_resized {n : Nat} (h : b.WF) (hi : b'.ideal = b.ideal.resize n) (h' : b'.WF) :
    b'.readable = b.readable := by
  rw [← readable_ideal h', hi, ← readable_ideal h]
  exact Libasio.ByteBuffer.readable_resize (wf_iff.mp h) ((wf_of_resized h hi).mp h')

theorem resize_leaves {bytes : BitVec w} {alloc : Bool} (h : b.WF)
    (hsafe : (b.resize bytes alloc).Safe) : (b.resize bytes alloc).Leaves b.readable := by
  obtain ⟨he, -⟩ | ⟨b', he, hi, -⟩ := b.resize_cases bytes alloc
  · rw [he]
    rfl
  · rw [he] at hsafe ⊢
    exact readable_resized h hi hsafe

theorem ensureValidSize_leaves {alloc : Bool} (hw : 2 ≤ w) (h : b.WF)
    (hsafe : (b.ensureValidSize alloc).Safe) :
    (b.ensureValidSize alloc).Leaves b.readable := by
  obtain ⟨-, he⟩ | ⟨-, ⟨he, -⟩ | ⟨b', he, hi, -⟩⟩ := ensureValidSize_cases hw h alloc
  · rw [he]
    rfl
  · rw [he]
    rfl
  · rw [he] at hsafe ⊢
    exact readable_resized h hi hsafe

theorem estimateSize_leaves {size : BitVec w} {alloc : Bool} (hw : 2 ≤ w) (h : b.WF)
    (hsafe : (b.estimateSize size alloc).Safe) :
    (b.estimateSize size alloc).Leaves b.readable := by
  obtain ⟨-, he⟩ | ⟨-, ⟨he, -⟩ | ⟨b', he, hi, -⟩⟩ := estimateSize_cases hw h size alloc
  · rw [he]
    rfl
  · rw [he]
    rfl
  · rw [he] at hsafe ⊢
    exact readable_resized h hi hsafe

theorem normalize_leaves (h : b.WF) : b.normalize.Leaves b.readable := by
  obtain ⟨b', he, hi⟩ := ideal_normalize h
  have hsafe := normalize_safe h
  rw [he] at hsafe ⊢
  show b'.readable = b.readable
  rw [← readable_ideal hsafe, hi, Libasio.ByteBuffer.readable_normalize (wf_iff.mp h),
    readable_ideal h]

theorem readable_written {data : Bytes} (h : b.WF) (hd : Written b b' data) :
    b'.readable = b.readable ++ data := by
  refine readable_of_append h hd.wf hd.rpos ?_
  rw [hd.wpos, List.take_add, hd.below, hd.copied]

/-- `Write` appends, or it throws and leaves everything as it was. -/
theorem write_leaves {data : Bytes} {alloc : Bool} (hw : 2 ≤ w) (h : b.WF)
    (hd : data.length < 2 ^ w) (hsafe : (b.write data alloc).Safe) :
    (b.write data alloc).Leaves
      (if (b.write data alloc).threw then b.readable else b.readable ++ data) := by
  obtain ⟨-, hinside⟩ | ⟨-, hundefined⟩ := write_ends hw h hd alloc
  · cases he : b.write data alloc with
    | returns b' =>
      rw [he] at hinside
      exact readable_written h hinside
    | throws b' =>
      rw [he] at hinside
      exact congrArg readable hinside
    | undefined =>
      rw [he] at hinside
      exact hinside
  · rw [hundefined] at hsafe
    exact hsafe.elim

theorem readable_start (storage : Storage w) : (⟨0, 0, storage⟩ : ByteBuffer w).readable = [] := by
  rw [readable_eq (wf_start storage)]
  simp

theorem readable_ofSize {size : BitVec w} {alloc : Bool} (h : ofSize size alloc = some b) :
    b.readable = [] := by
  unfold ofSize at h
  obtain ⟨he, -⟩ | ⟨b', he, hi, -⟩ := resize_cases (⟨0, 0, .empty⟩ : ByteBuffer w) size alloc
  · rw [he] at h
    cases h
  · rw [he] at h
    cases h
    have hmade : ofSize size alloc = some b := by rw [ofSize, he]
    exact (readable_resized (wf_start .empty) hi (wf_ofSize hmade)).trans (readable_start .empty)

end ByteBuffer

-- ════════════════════════════════════════════════════════════════════════
-- Sequences of operations
-- ════════════════════════════════════════════════════════════════════════

namespace Store

variable {s s' : Store w} {op : BufferOp w} {i j : Nat}

theorem act_queues {o : Slots.Op (ByteBuffer w)} {p : Fifo.Op UInt8}
    (ho : Slots.Shows ByteBuffer.readable s.buffers o p.act) (ha : s.act o = some s') :
    Runs Fifo.step anyStep s.queues [p] s'.queues := by
  obtain ⟨buffers, hstep, rfl⟩ := Option.map_eq_some_iff.mp ha
  exact .single (Slots.step_shows ho hstep) trivial

/-- A call that ends with these bytes readable, returned or not. -/
theorem call_queues {f : ByteBuffer w → Exit w} {o : Fifo.Op UInt8} {q : ByteBuffer w → Bytes}
    {g : Bytes → Option Bytes} (ho : o.act = .update i g)
    (hq : ∀ b ∈ s.buffers[i]?, (f b).Leaves (q b) ∧ g b.readable = some (q b))
    (hc : s.call i f = some s') : Runs Fifo.step anyStep s.queues [o] s'.queues := by
  unfold call at hc
  cases hb : s.buffers[i]? with
  | none =>
    rw [hb] at hc
    cases hc
  | some b =>
    obtain ⟨hleaves, hg⟩ := hq b hb
    simp only [hb] at hc
    cases hf : f b with
    | undefined =>
      rw [hf] at hleaves
      exact hleaves.elim
    | returns b' | throws b' =>
      rw [hf] at hleaves
      simp only [hf] at hc
      refine act_queues (ho ▸ .update fun a ha a' ha' => ?_) hc
      cases hb.symm.trans ha
      cases ha'
      rw [hg, ← hleaves]

/-- A call that leaves the readable bytes alone. -/
theorem call_keeps {f : ByteBuffer w → Exit w}
    (hq : ∀ b ∈ s.buffers[i]?, (f b).Leaves b.readable) (hc : s.call i f = some s') :
    Runs Fifo.step anyStep s.queues [.keep i] s'.queues :=
  call_queues rfl (fun b hb => ⟨hq b hb, rfl⟩) hc

theorem construct_queues {made : Option (ByteBuffer w)} (hmade : ∀ b ∈ made, b.readable = [])
    (hc : s.construct made = some s') :
    Runs Fifo.step anyStep s.queues (creation made) s'.queues := by
  cases made with
  | none =>
    cases hc
    exact .nil _
  | some b =>
    have hshows : Slots.Shows ByteBuffer.readable s.buffers (.create b) (.create b.readable) :=
      .create
    rw [hmade b rfl] at hshows
    exact act_queues (p := .create) hshows hc

/-- An assignment that fails leaves a part of the storage. -/
theorem assign_fails_queues {left : Storage w} (hij : i ≠ j)
    (ha : s.act (.pair i j fun _ rhs => (rhs.copyFailed left, rhs)) = some s') :
    Runs Fifo.step anyStep s.queues [.clear i, .append i (s.remainder j left)] s'.queues := by
  obtain ⟨buffers, hstep, rfl⟩ := Option.map_eq_some_iff.mp ha
  simp only [Slots.step] at hstep
  split at hstep
  · next a rhs hi hj =>
    rw [if_neg hij] at hstep
    cases hstep
    have hget : s.queues[i]? = some a.readable := by
      rw [queues, List.getElem?_map, hi, Option.map_some]
    have hcleared : (s.queues.set i [])[i]? = some [] :=
      List.getElem?_set_self (List.getElem?_eq_some_iff.mp hget).1
    have hremainder : s.remainder j left = (rhs.copyFailed left).readable := by
      rw [remainder, hj]
      rfl
    have hsame : (s.buffers.set i (rhs.copyFailed left)).set j rhs =
        s.buffers.set i (rhs.copyFailed left) := by
      obtain ⟨hlt, rfl⟩ := List.getElem?_eq_some_iff.mp hj
      rw [List.set_comm _ _ hij, List.set_getElem_self]
    refine .cons (t := s.queues.set i []) ?_ trivial (.single ?_ trivial)
    · simp only [Fifo.step, Fifo.Op.act, Slots.step, hget, Option.map_some]
    · simp only [Fifo.step, Fifo.Op.act, Slots.step, hcleared, Option.map_some, List.nil_append,
        List.set_set, hremainder]
      rw [queues, queues, hsame, List.map_set]
  · cases hstep

theorem assign_queues {alloc : Bool} {left : Storage w}
    (ha : s.act (.pair i j fun _ rhs =>
      (if alloc then rhs.copy else rhs.copyFailed left, rhs)) = some s') :
    Runs Fifo.step anyStep s.queues (s.spec (.assign i j alloc left)) s'.queues := by
  by_cases hcopied : alloc = true ∨ i = j
  · rw [spec, if_pos hcopied]
    refine act_queues (.pair fun hij a ha b hb => ?_) ha
    rw [if_pos (hcopied.resolve_right hij)]
    rfl
  · obtain ⟨hfailed, hij⟩ := not_or.mp hcopied
    rw [spec, if_neg hcopied]
    refine assign_fails_queues hij ?_
    simpa only [if_neg hfailed] using ha

/-- Every operation that keeps the objects safe does to the queues what is said. -/
theorem step_queues (hw : 2 ≤ w) (h : s.Safe) (h' : s'.Safe) (hs : s.step op = some s') :
    Runs Fifo.step anyStep s.queues (s.spec op) s'.queues := by
  obtain ⟨⟨-, hallowed⟩, hp⟩ := Option.ite_none_right_eq_some.mp hs
  cases op with simp only [perform] at hp
  | new alloc => exact construct_queues (fun b => ByteBuffer.readable_ofSize) hp
  | ofSize size alloc => exact construct_queues (fun b => ByteBuffer.readable_ofSize) hp
  | copy i alloc =>
    cases alloc with
    | true => exact act_queues (.derive fun _ _ => rfl) hp
    | false =>
      refine act_queues (p := .keep i) (.update fun a _ a' ha' => ?_) hp
      cases ha'
      rfl
  | move i =>
    refine act_queues (p := .move i) (.derive fun b _ => ?_) hp
    exact congrArg (Prod.mk b.readable) (ByteBuffer.readable_start _).symm
  | assign i j alloc left => exact assign_queues hp
  | moveAssign i j rest =>
    refine act_queues (p := .moveAssign i j) (.pair fun _ _ _ b _ => ?_) hp
    exact congrArg (Prod.mk b.readable) (ByteBuffer.readable_start rest).symm
  | reset i =>
    refine call_queues (q := fun _ => []) rfl (fun b _ => ⟨?_, rfl⟩) hp
    exact ByteBuffer.readable_start b.storage
  | resize i bytes alloc =>
    have hsafe := (call_safe_iff h hp).mp h'
    exact call_keeps (fun b hb => ByteBuffer.resize_leaves (h.wf hb) (hsafe b hb)) hp
  | readBytes i k =>
    refine call_queues (q := fun b => b.readable.drop k.toNat) rfl (fun b hb => ?_) hp
    have hk : k ≤ b.size := by simpa [allowed, Option.mem_def.mp hb] using hallowed
    refine ⟨ByteBuffer.readable_readBytes (h.wf hb) hk, if_pos ?_⟩
    rw [ByteBuffer.length_readable (h.wf hb)]
    exact hk
  | writeBytes i k =>
    refine call_queues (q := fun b => b.readable ++ s.behind i k) rfl (fun b hb => ⟨?_, rfl⟩) hp
    have hk : k ≤ b.validSize := by simpa [allowed, Option.mem_def.mp hb] using hallowed
    rw [behind, hb]
    exact ByteBuffer.readable_writeBytes (h.wf hb) hk
  | copyIn i data =>
    have hsafe := (call_safe_iff h hp).mp h'
    exact call_keeps (fun b hb => ByteBuffer.copyIn_leaves (h.wf hb) (hsafe b hb)) hp
  | normalize i => exact call_keeps (fun b hb => ByteBuffer.normalize_leaves (h.wf hb)) hp
  | ensureValidSize i alloc =>
    have hsafe := (call_safe_iff h hp).mp h'
    exact call_keeps (fun b hb => ByteBuffer.ensureValidSize_leaves hw (h.wf hb) (hsafe b hb)) hp
  | estimateSize i size alloc =>
    have hsafe := (call_safe_iff h hp).mp h'
    exact call_keeps (fun b hb => ByteBuffer.estimateSize_leaves hw (h.wf hb) (hsafe b hb)) hp
  | write i data alloc =>
    have hsafe := (call_safe_iff h hp).mp h'
    have hd : data.length < 2 ^ w := by simpa [allowed] using hallowed
    have hleaves (b) (hb : b ∈ s.buffers[i]?) := ByteBuffer.write_leaves hw (h.wf hb) hd (hsafe b hb)
    cases hthrew : s.buffers[i]?.any fun b => (b.write data alloc).threw with
    | true =>
      rw [spec, if_pos hthrew]
      refine call_keeps (fun b hb => ?_) hp
      have hb' : (b.write data alloc).threw = true := by simpa [Option.mem_def.mp hb] using hthrew
      simpa only [hb', if_true] using hleaves b hb
    | false =>
      rw [spec, hthrew]
      refine call_queues (q := fun b => b.readable ++ data) rfl (fun b hb => ⟨?_, rfl⟩) hp
      have hb' : (b.write data alloc).threw = false := by simpa [Option.mem_def.mp hb] using hthrew
      simpa [hb'] using hleaves b hb
  | swap i j => exact act_queues (.pair fun _ _ _ _ _ => rfl) hp

/-- In every sequence of operations in which no storage is made shorter than `wpos_`, what
is readable in the buffers is the content of queues: the calls that return do to them what
they are for, and those that throw do nothing, but for an assignment, after which the
positions of the other buffer are in a storage that need not be its copy. -/
theorem machine_buffers_are_queues (hw : 2 ≤ w) {ops : List (BufferOp w)}
    (hr : Runs step (fun s op _ => s.Keeps op) init ops s) :
    Runs Fifo.step anyStep [] (outputs step spec init ops) s.queues ∧
      ∀ b ∈ s.buffers, b.size.toNat = b.readable.length := by
  have hruns : s.Safe ∧ Runs step anyStep init ops s ∧
      Runs Fifo.step anyStep [] (outputs step spec init ops) s.queues := by
    refine hr.invariant_history (I := fun ops s => s.Safe ∧ Runs step anyStep init ops s ∧
      Runs Fifo.step anyStep [] (outputs step spec init ops) s.queues) ?_
      ⟨safe_init, .nil _, .nil _⟩
    rintro ops s op t ⟨hsafe, hplain, hqueues⟩ hkeeps hs
    have hsafe' := (step_safe_iff hw hsafe hs).mpr hkeeps
    refine ⟨hsafe', hplain.snoc hs trivial, ?_⟩
    rw [hplain.outputs_snoc]
    exact hqueues.append (step_queues hw hsafe hsafe' hs)
  exact ⟨hruns.2.2, fun b hb => (ByteBuffer.length_readable (hruns.1.sound b hb).wf).symm⟩

/-- The second `Write` finds no memory, and the assignment none either. -/
theorem machine_buffers_are_queues_out_of_memory : ∃ s : Store 64,
    Runs Fifo.step anyStep [] [.create, .append 0 [1, 2], .keep 0, .drop 0 1, .create, .clear 1,
      .append 1 [9]] s.queues ∧ ∀ b ∈ s.buffers, b.size.toNat = b.readable.length := by
  have hr : Runs step (fun s op _ => s.Keeps op) (init : Store 64)
      [.ofSize 4 true, .write 0 [1, 2] true, .write 0 [3, 4, 5] false, .readBytes 0 1,
        .ofSize 0 true, .assign 1 0 false ⟨[8, 9, 7], by decide⟩]
      ⟨[⟨2, 1, ⟨[1, 2, 0, 0], by decide⟩⟩, ⟨2, 1, ⟨[8, 9, 7], by decide⟩⟩], false⟩ := by
    refine .cons rfl trivial (.cons rfl ?_ (.cons rfl ?_ (.cons rfl trivial (.cons rfl trivial
      (.single rfl ?_)))))
    · rintro b ⟨⟩
      exact .inl (by decide)
    · rintro b ⟨⟩
      exact .inr (.inl (by decide))
    · refine .inr (.inr ?_)
      rintro b ⟨⟩
      decide
  exact ⟨_, machine_buffers_are_queues (by decide) hr⟩

end Store

end SizeT

end Libasio
