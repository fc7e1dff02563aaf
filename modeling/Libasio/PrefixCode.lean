import Mathlib.Data.List.Basic
import Mathlib.Data.List.Infix

/-!
# Prefix codes without framing

Codewords sent back to back over a byte stream, and a receiver that is handed
the stream in pieces. If the receiver looks at each piece on its own and takes at
most one codeword from its front, it gets every codeword exactly when the
pieces are the codewords.

## Main definitions

- `PrefixCode.Decodes` — a decoder that ignores what follows a codeword, and
  rejects a codeword that was cut off
- `PrefixCode.canonical` — the decoder that accepts nothing else
- `PrefixCode.Covers` — one codeword at the front of each piece that has one

## Main results

- `PrefixCode.eq_map_of_covers` — pieces that cover the stream are its codewords
- `PrefixCode.Decodes.prefix_of_flatten` — a stream determines its codewords
-/

namespace PrefixCode

variable {P α : Type*} {enc : P → List α} {dec : List α → Option P}

structure Decodes (enc : P → List α) (dec : List α → Option P) : Prop where
  whole : ∀ p rest, dec (enc p ++ rest) = some p
  cut : ∀ p s, s <+: enc p → s ≠ enc p → dec s = none

/-- A code that can be decoded is prefix free. -/
theorem Decodes.eq_of_prefix (h : Decodes enc dec) {p q : P} (hpq : enc p <+: enc q) : p = q := by
  obtain ⟨rest, hrest⟩ := hpq
  have hq := h.whole q []
  rw [List.append_nil, ← hrest, h.whole p rest] at hq
  exact Option.some.inj hq

open Classical in
/-- Accept a list that starts with a codeword, and no other. -/
noncomputable def canonical (enc : P → List α) (s : List α) : Option P :=
  if h : ∃ p, enc p <+: s then some h.choose else none

theorem prefix_of_canonical {s : List α} {p : P} (h : canonical enc s = some p) : enc p <+: s := by
  unfold canonical at h
  split at h
  · next hex =>
    obtain rfl := Option.some.inj h
    exact hex.choose_spec
  · cases h

theorem canonical_decodes (h : Decodes enc dec) : Decodes enc (canonical enc) := by
  constructor
  · intro p rest
    have hex : ∃ q, enc q <+: enc p ++ rest := ⟨p, List.prefix_append _ _⟩
    rw [canonical, dif_pos hex]
    congr 1
    -- two codewords at the front of one list: one is a prefix of the other
    rcases List.prefix_or_prefix_of_prefix hex.choose_spec (List.prefix_append (enc p) rest) with
      hpre | hpre
    · exact h.eq_of_prefix hpre
    · exact (h.eq_of_prefix hpre).symm
  · intro p s hs hne
    rw [canonical, dif_neg]
    rintro ⟨q, hq⟩
    obtain rfl := h.eq_of_prefix (hq.trans hs)
    exact hne (hs.eq_of_length_le hq.length_le)

/-- The receiver took `ps` from the fronts of the pieces, at most one from each. -/
inductive Covers (enc : P → List α) : List (List α) → List P → Prop
  | nil : Covers enc [] []
  | skip {piece pieces ps} (h : Covers enc pieces ps) : Covers enc (piece :: pieces) ps
  | take {piece pieces p ps} (hp : enc p <+: piece) (h : Covers enc pieces ps) :
      Covers enc (piece :: pieces) (p :: ps)

theorem covers_nil (pieces : List (List α)) : Covers enc pieces [] := by
  induction pieces with
  | nil => exact .nil
  | cons piece pieces ih => exact .skip ih

/-- Covered pieces are at least as long as the codewords, and no longer only if
they are the codewords. -/
theorem Covers.length_le {pieces : List (List α)} {ps : List P} (h : Covers enc pieces ps)
    (hne : ∀ piece ∈ pieces, piece ≠ []) :
    (ps.map enc).flatten.length ≤ pieces.flatten.length ∧
      (pieces.flatten.length ≤ (ps.map enc).flatten.length → pieces = ps.map enc) := by
  induction h with
  | nil => exact ⟨le_rfl, fun _ => rfl⟩
  | @skip piece pieces ps _ ih =>
    obtain ⟨hle, -⟩ := ih fun q hq => hne q (List.mem_cons_of_mem _ hq)
    have hpos := List.length_pos_iff.mpr (hne piece List.mem_cons_self)
    simp only [List.flatten_cons, List.length_append]
    exact ⟨by omega, fun _ => by omega⟩
  | @take piece pieces p ps hp _ ih =>
    obtain ⟨hle, heq⟩ := ih fun q hq => hne q (List.mem_cons_of_mem _ hq)
    have hlen := hp.length_le
    simp only [List.flatten_cons, List.map_cons, List.length_append]
    refine ⟨by omega, fun hge => ?_⟩
    rw [← hp.eq_of_length_le (by omega), heq (by omega)]

theorem eq_map_of_covers {pieces : List (List α)} {ps : List P} (h : Covers enc pieces ps)
    (hne : ∀ piece ∈ pieces, piece ≠ []) (hcut : pieces.flatten = (ps.map enc).flatten) :
    pieces = ps.map enc :=
  (h.length_le hne).2 (by rw [hcut])

/-- A stream of codewords that begins another one is one of its beginnings. -/
theorem Decodes.prefix_of_flatten (h : Decodes enc dec) (hne : ∀ p, enc p ≠ []) {ps qs : List P}
    (hpre : (ps.map enc).flatten <+: (qs.map enc).flatten) : ps <+: qs := by
  induction ps generalizing qs with
  | nil => exact List.nil_prefix
  | cons p ps ih =>
    cases qs with
    | nil =>
      have hnil := (List.append_eq_nil_iff.mp (List.prefix_nil.mp hpre)).1
      exact absurd hnil (hne p)
    | cons q qs =>
      simp only [List.map_cons, List.flatten_cons] at hpre
      have hp : enc p <+: enc q ++ (qs.map enc).flatten := (List.prefix_append _ _).trans hpre
      obtain rfl : p = q := by
        rcases List.prefix_or_prefix_of_prefix hp (List.prefix_append _ _) with hpq | hpq
        · exact h.eq_of_prefix hpq
        · exact (h.eq_of_prefix hpq).symm
      exact List.cons_prefix_cons.mpr ⟨rfl, ih ((List.prefix_append_right_inj _).mp hpre)⟩

end PrefixCode
