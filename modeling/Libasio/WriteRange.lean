import Libasio.SizeT

/-!
# Where `Write` writes

`Write` asks for room with a formula that is computed modulo `2 ^ w`. A request that has
wrapped is accepted, also when it makes the storage shorter, and `memcpy` goes on with
the length of the data.

## Main definitions

- `SizeT.ByteBuffer.StaysInside` — what a call of `Write` is to do
- `SizeT.ByteBuffer.Fits` — the lengths for which it does

## Main results

- `SizeT.growth_covers_iff` — when the request is large enough
- `SizeT.ByteBuffer.write_ends` — the two ways in which `Write` ends
- `SizeT.ByteBuffer.write_stays_inside_iff` — when `Write` stays inside of the storage
-/

namespace Libasio

namespace SizeT

variable {w : Nat}

/-- A request is large enough when it has not wrapped, or has wrapped once and is large
enough all the same. -/
theorem growth_covers_iff {c p n : Nat} (hp : p ≤ c) (hc : 2 * c + 2 ≤ 2 ^ w) (hn : n < 2 ^ w)
    (hroom : c < p + n) : p + n ≤ growth w (c + n) ↔
      3 * (c + n) < 2 ^ w ∨ 3 * (c + n) < 2 * 2 ^ w ∧ 2 ^ w + 2 * p ≤ 3 * c + n := by
  have hsum := Nat.mod_add_div' (3 * (c + n)) (2 ^ w)
  have hrem : 3 * (c + n) % 2 ^ w < 2 ^ w := Nat.mod_lt _ (Nat.two_pow_pos w)
  have hfew : 3 * (c + n) / 2 ^ w < 5 := Nat.div_lt_of_lt_mul (by omega)
  rw [growth]
  generalize 3 * (c + n) % 2 ^ w = r at *
  generalize 3 * (c + n) / 2 ^ w = k at *
  obtain rfl | rfl | rfl | rfl | rfl : k = 0 ∨ k = 1 ∨ k = 2 ∨ k = 3 ∨ k = 4 := by omega
  all_goals omega

/-- A longer storage is requested, by the number of wraps. -/
theorem lt_growth_iff (c n : Nat) :
    c < growth w (c + n) ↔ 3 * (c + n) / 2 ^ w * 2 ^ w + 2 ≤ c + 3 * n := by
  have hsum := Nat.mod_add_div' (3 * (c + n)) (2 ^ w)
  rw [growth]
  omega

namespace ByteBuffer

/-- The call has copied `data` to a range behind the old `wpos_` that lies inside of the
storage. -/
structure Written (b b' : ByteBuffer w) (data : Bytes) : Prop where
  range : b.wpos.toNat + data.length ≤ b'.storage.items.length
  below : b'.storage.items.take b.wpos.toNat = b.storage.items.take b.wpos.toNat
  copied : (b'.storage.items.drop b.wpos.toNat).take data.length = data
  wpos : b'.wpos.toNat = b.wpos.toNat + data.length
  rpos : b'.rpos = b.rpos
  wf : b'.WF

/-- The call has copied `data`, or it has thrown and left the buffer as it was. -/
def StaysInside (b : ByteBuffer w) (data : Bytes) : Exit w → Prop
  | .returns b' => Written b b' data
  | .throws b' => b' = b
  | .undefined => False

/-- There is room for `n` bytes; or the growth formula does not wrap, or wraps once and
requests enough all the same; or it requests more than there is memory for. -/
def Fits (b : ByteBuffer w) (n : Nat) (alloc : Bool) : Prop :=
  b.wpos.toNat + n ≤ b.storage.items.length ∨
  3 * (b.storage.items.length + n) < 2 ^ w ∨
  (3 * (b.storage.items.length + n) < 2 * 2 ^ w ∧
    2 ^ w + 2 * b.wpos.toNat ≤ 3 * b.storage.items.length + n) ∨
  (alloc = false ∧
    3 * (b.storage.items.length + n) / 2 ^ w * 2 ^ w + 2 ≤ b.storage.items.length + 3 * n)

variable {b b' : ByteBuffer w}

theorem Written.of_ideal {data : Bytes} (h : b.WF) {storage : Bytes}
    (hi : b'.ideal = Libasio.ByteBuffer.fill ⟨b.wpos.toNat, b.rpos.toNat, storage⟩ data)
    (hbelow : storage.take b.wpos.toNat = b.storage.items.take b.wpos.toNat)
    (hroom : b.wpos.toNat + data.length ≤ storage.length) : Written b b' data := by
  have hitems : b'.storage.items = overwrite storage b.wpos.toNat data :=
    congrArg Libasio.ByteBuffer.storage hi
  have hlen : b'.storage.items.length = storage.length := by
    rw [hitems, length_overwrite hroom]
  have hpos : (storage.take b.wpos.toNat).length = b.wpos.toNat := by
    rw [List.length_take]
    omega
  have hwf : Libasio.ByteBuffer.WF ⟨b.wpos.toNat, b.rpos.toNat, storage⟩ :=
    ⟨h.rpos_toNat_le, Nat.le_trans (Nat.le_add_right _ _) hroom⟩
  refine ⟨by rwa [hlen], ?_, ?_, congrArg Libasio.ByteBuffer.wpos hi,
    BitVec.eq_of_toNat_eq (congrArg Libasio.ByteBuffer.rpos hi), ?_⟩
  · rw [hitems, ← hbelow, overwrite, List.append_assoc, List.take_append_of_le_length hpos.ge]
    exact List.take_of_length_le hpos.le
  · have hread : ((overwrite storage b.wpos.toNat data).drop b.wpos.toNat).take
        (b.wpos.toNat + data.length - b.wpos.toNat) =
          (storage.drop b.wpos.toNat).take (b.wpos.toNat - b.wpos.toNat) ++ data :=
      take_drop_overwrite (Nat.le_refl _) (by omega)
    rw [hitems]
    simpa using hread
  · rw [wf_iff, hi]
    exact Libasio.ByteBuffer.wf_fill hwf (Nat.le_sub_of_add_le' hroom)

/-- The copy into a storage that has been resized stays inside when that is long enough,
and runs over its end when it is not. -/
theorem fill_resized {b₁ : ByteBuffer w} {n : Nat} (h : b.WF)
    (hi : b₁.ideal = b.ideal.resize n) (data : Bytes) :
    (b.wpos.toNat + data.length ≤ n ∧ ∃ b', b₁.fill data = .returns b' ∧ Written b b' data) ∨
      n < b.wpos.toNat + data.length ∧ b₁.fill data = .undefined := by
  obtain ⟨hwpos, -, hitems⟩ := eq_of_ideal_resize hi
  have hlen : b₁.storage.items.length = n := by rw [hitems, length_resizeStorage]
  by_cases hin : b.wpos.toNat + data.length ≤ n
  · have hroom : b₁.wpos.toNat + data.length ≤ b₁.storage.items.length := by rwa [hwpos, hlen]
    have hbelow : b₁.storage.items.take b.wpos.toNat = b.storage.items.take b.wpos.toNat := by
      rw [hitems]
      exact take_resizeStorage h.wpos_toNat_le (by omega)
    obtain ⟨b', hf, hi'⟩ := fill_of_le hroom
    refine .inl ⟨hin, b', hf, Written.of_ideal h ?_ hbelow (by rwa [hlen])⟩
    rw [hi', hi, ideal, Libasio.ByteBuffer.resize, hitems]
  · exact .inr ⟨Nat.lt_of_not_le hin, fill_undefined (by rwa [hwpos, hlen])⟩

/-- A length that fits is written, or refused; any other is written over the end. -/
theorem write_ends (hw : 2 ≤ w) (h : b.WF) {data : Bytes} (hd : data.length < 2 ^ w)
    (alloc : Bool) :
    (b.Fits data.length alloc ∧ StaysInside b data (b.write data alloc)) ∨
      ¬b.Fits data.length alloc ∧ b.write data alloc = .undefined := by
  have hp := h.wpos_toNat_le
  have hc : 2 * b.storage.items.length + 2 ≤ 2 ^ w := by
    have hmax := b.storage.length_le
    have heq := two_pow_eq hw
    omega
  obtain ⟨hroom, b', he, hi⟩ | ⟨hroom, ⟨he, hgrow, halloc⟩ | ⟨b₁, he, hi, hmem⟩⟩ :=
    write_cases hw h data hd alloc
  · rw [he]
    exact .inl ⟨.inl hroom, Written.of_ideal h hi rfl hroom⟩
  · rw [he]
    exact .inl ⟨.inr (.inr (.inr ⟨halloc, (lt_growth_iff _ _).mp hgrow⟩)), rfl⟩
  · have hcover := growth_covers_iff hp hc hd hroom
    rw [he]
    obtain ⟨hin, b', hf, hwritten⟩ | ⟨hout, hf⟩ := fill_resized h hi data
    · rw [hf]
      refine .inl ⟨?_, hwritten⟩
      obtain hno | hone := hcover.mp hin
      · exact .inr (.inl hno)
      · exact .inr (.inr (.inl hone))
    · rw [hf]
      refine .inr ⟨?_, rfl⟩
      rintro (hfit | hno | hone | ⟨halloc, hmore⟩)
      · omega
      · exact absurd (hcover.mpr (.inl hno)) (Nat.not_le_of_lt hout)
      · exact absurd (hcover.mpr (.inr hone)) (Nat.not_le_of_lt hout)
      · exact hmem ⟨(lt_growth_iff _ _).mpr hmore, halloc⟩

/-- `Write` stays inside of the storage exactly for the lengths that fit. -/
theorem write_stays_inside_iff (hw : 2 ≤ w) (h : b.WF) {data : Bytes} (hd : data.length < 2 ^ w)
    (alloc : Bool) : StaysInside b data (b.write data alloc) ↔ b.Fits data.length alloc := by
  obtain ⟨hfits, hinside⟩ | ⟨hnot, hundefined⟩ := write_ends hw h hd alloc
  · exact iff_of_true hinside hfits
  · rw [hundefined]
    exact iff_of_false id hnot

/-- A full buffer of `n` bytes. -/
def full (n : Nat) (h : n ≤ maxSize w) : ByteBuffer w :=
  ⟨BitVec.ofNat w n, 0, ⟨List.replicate n 0, by rwa [List.length_replicate]⟩⟩

theorem write_stays_inside_full :
    StaysInside (full 2 (by decide) : ByteBuffer 64) [1, 2, 3]
      ((full 2 (by decide)).write [1, 2, 3] true) :=
  (write_stays_inside_iff (by decide) ⟨by decide, by decide⟩ (by decide) true).mpr
    (.inr (.inl (by decide)))

theorem wf_full (n : Nat) (h : n ≤ maxSize w) : (full n h).WF := by
  refine wf_iff.mpr ⟨?_, ?_⟩
  · simp [full, ideal]
  · have hlt := Nat.lt_of_le_of_lt h (maxSize_lt w)
    simp [full, ideal, Nat.mod_eq_of_lt hlt]

/-- With 32 bits, half a gibibyte behind a full one makes the storage shorter. -/
theorem write_runs_over :
    (full (2 ^ 30) (by decide) : ByteBuffer 32).WF ∧
      ¬StaysInside (full (2 ^ 30) (by decide) : ByteBuffer 32) (List.replicate (2 ^ 29) 1)
        ((full (2 ^ 30) (by decide)).write (List.replicate (2 ^ 29) 1) true) := by
  have hwf := wf_full (w := 32) (2 ^ 30) (by decide)
  have hlen : (full (2 ^ 30) (by decide) : ByteBuffer 32).storage.items.length = 2 ^ 30 :=
    List.length_replicate
  have hdata : (List.replicate (2 ^ 29) (1 : UInt8)).length = 2 ^ 29 := List.length_replicate
  have hwpos : (full (2 ^ 30) (by decide) : ByteBuffer 32).wpos.toNat = 2 ^ 30 := by decide
  have hgrowth : growth 32 (2 ^ 30 + 2 ^ 29) = 2 ^ 28 := by decide
  refine ⟨hwf, ?_⟩
  have hcases := write_cases (by decide) hwf (List.replicate (2 ^ 29) 1)
    (by rw [hdata]; decide) true
  rw [hlen, hdata, hwpos, hgrowth] at hcases
  obtain ⟨hroom, -⟩ | ⟨-, ⟨-, -, hfalse⟩ | ⟨b₁, he, hi, -⟩⟩ := hcases
  · omega
  · cases hfalse
  · rw [he]
    obtain ⟨hin, -⟩ | ⟨-, hf⟩ := fill_resized hwf hi (List.replicate (2 ^ 29) 1)
    · rw [hwpos, hdata] at hin
      omega
    · rw [hf]
      exact id

end ByteBuffer

end SizeT

end Libasio
