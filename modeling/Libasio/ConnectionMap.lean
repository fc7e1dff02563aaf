import Libasio.CloseSequence
import Libasio.Registry
import Libasio.ServerSteps

/-!
# The connection map of a server

`conns_` lists the connections that `HandleNewConn` has inserted and no functor of
`RemoveConn` has erased. A connection on a worker loop may report its end before
it is inserted; the functor that erases it runs on the listening loop and comes
after the insertion. On the listening loop the close sequence itself comes after.

## Main definitions

- `ServerLoop.Listed` — inserted and not erased
- `ServerLoop.Roster` — what holds of the map in every state
- `ServerLoop.Accounted` — every call of the close callback erases, or will

## Main results

- `ServerLoop.connection_map_exact` — `conns_` is exact after every insertion
-/

namespace Libasio

open Transition Registry

theorem connName_injective {name : String} {i j : Nat} (hi : i < 2 ^ 64) (hj : j < 2 ^ 64)
    (h : connName name (.ofNat 64 i) = connName name (.ofNat 64 j)) : i = j := by
  have hrepr : Nat.repr (BitVec.ofNat 64 i).toNat = Nat.repr (BitVec.ofNat 64 j).toNat :=
    (String.append_right_inj _).mp h
  have hdigits := congrArg String.toList hrepr
  rw [Nat.toList_repr, Nat.toList_repr] at hdigits
  have hnat := congrArg (Nat.ofDigitChars 10 · 0) hdigits
  simp only [Nat.ofDigitChars_toDigits (by decide : 1 < 10) (by decide : 10 ≤ 10)] at hnat
  rwa [BitVec.toNat_ofNat, BitVec.toNat_ofNat, Nat.mod_eq_of_lt hi, Nat.mod_eq_of_lt hj] at hnat

namespace ServerLoop

/-- The connections for which a functor of `RemoveConn` has been executed. -/
def erased (trace : List ServerObs) : List Nat :=
  trace.filterMap fun
    | .erased i _ => some i
    | _ => none

/-- `HandleNewConn` has inserted connection `i`, and no functor has erased it. -/
def Listed (w : ServerLoop) (i : Nat) : Prop :=
  i < w.conns.length ∧ w.accepting ≠ some i ∧ i ∉ erased w.trace

/-- The name that connection `i` is given. -/
def nameOf (w : ServerLoop) (i : Nat) : String := connName w.server.name (.ofNat 64 i)

/-- Every erasure comes after the insertion of its connection, and erases nothing else. -/
def Ordered (trace : List ServerObs) : Prop :=
  ∀ pre i entry post, trace = pre ++ .erased i entry :: post →
    .inserted i ∈ pre ∧ (entry = none ∨ entry = some i)

structure Roster (w : ServerLoop) : Prop where
  names : ∀ (i : Nat) c, w.conns[i]? = some c → c.tcp.name = w.nameOf i
  counter : w.escaped = false → w.server.nextConnId = .ofNat 64 w.conns.length
  accepting : ∀ i, w.accepting = some i → i + 1 = w.conns.length
  pending : ∀ i ∈ w.removals, i < w.conns.length
  done : ∀ i ∈ erased w.trace, i < w.conns.length ∧ w.accepting ≠ some i
  lists : Lists w.nameOf w.server.conns {i | w.Listed i}
  waiting : w.accepting ≠ none → ∀ (i : Nat) c, w.conns[i]? = some c → c.loop = none →
    c.tcp.frame = none ∨ c.tcp.frame = some .attached
  settled : ∀ (i : Nat) c, w.conns[i]? = some c → c.tcp.frame ≠ some .removing
  inserted : ∀ i < w.conns.length, w.accepting ≠ some i → .inserted i ∈ w.trace
  ordered : Ordered w.trace

/-- The close callback of a connection has been called as often as functors for it
have been executed or are posted. -/
def Accounted (w : ServerLoop) : Prop :=
  ∀ (i : Nat) c, w.conns[i]? = some c →
    TcpConn.closeCalls c.tcp.trace = w.removals.count i + (erased w.trace).count i

theorem snoc_eq_append_cons {α : Type} {t pre post : List α} {a o : α}
    (h : t ++ [o] = pre ++ a :: post) :
    (∃ post', t = pre ++ a :: post' ∧ post = post' ++ [o]) ∨ (t = pre ∧ o = a ∧ post = []) := by
  obtain rfl | ⟨post', b, rfl⟩ := List.eq_nil_or_concat post
  · right
    obtain ⟨ht, ho⟩ := List.append_inj' h rfl
    exact ⟨ht, by simpa using ho, rfl⟩
  · left
    have h' : t ++ [o] = (pre ++ a :: post') ++ [b] := by simpa using h
    obtain ⟨ht, ho⟩ := List.append_inj' h' rfl
    obtain rfl : o = b := by simpa using ho
    exact ⟨post', ht, by simp⟩

theorem Ordered.snoc {trace : List ServerObs} {o : ServerObs} (h : Ordered trace)
    (ho : ∀ i entry, o = .erased i entry →
      .inserted i ∈ trace ∧ (entry = none ∨ entry = some i)) : Ordered (trace ++ [o]) := by
  intro pre i entry post heq
  obtain ⟨post', ht, -⟩ | ⟨rfl, ho', -⟩ := snoc_eq_append_cons heq
  · exact h pre i entry post' ht
  · exact ho i entry ho'

theorem Roster.distinct {w : ServerLoop} (hn : w.conns.length ≤ 2 ^ 64) {i : Nat}
    (hi : i < w.conns.length) : Distinct w.nameOf {i | w.Listed i} i := by
  intro j hj hname
  exact connName_injective (Nat.lt_of_lt_of_le hj.1 hn) (Nat.lt_of_lt_of_le hi hn) hname

-- ════════════════════════════════════════════════════════════════════════
-- The effects of a step
-- ════════════════════════════════════════════════════════════════════════

/-- The trace has grown by observations that are no erasures. -/
def Grows (t t' : List ServerObs) : Prop :=
  ∃ u, t' = t ++ u ∧ ∀ o ∈ u, ∀ i entry, o ≠ .erased i entry

theorem grows_same (t : List ServerObs) : Grows t t := ⟨[], by simp, by simp⟩

theorem grows_one {t : List ServerObs} {o : ServerObs} (ho : ∀ i entry, o ≠ .erased i entry) :
    Grows t (t ++ [o]) := ⟨[o], rfl, by simpa using ho⟩

theorem Grows.erased {t t' : List ServerObs} (h : Grows t t') : erased t' = erased t := by
  obtain ⟨u, rfl, hu⟩ := h
  have hnil : ServerLoop.erased u = [] := by
    refine List.filterMap_eq_nil_iff.mpr fun o ho => ?_
    cases o with
    | erased i entry => exact absurd rfl (hu _ ho i entry)
    | _ => rfl
  rw [ServerLoop.erased, List.filterMap_append]
  change ServerLoop.erased t ++ ServerLoop.erased u = ServerLoop.erased t
  rw [hnil, List.append_nil]

theorem Grows.subset {t t' : List ServerObs} (h : Grows t t') {o : ServerObs} (ho : o ∈ t) :
    o ∈ t' := by
  obtain ⟨u, rfl, -⟩ := h
  exact List.mem_append_left u ho

theorem Grows.ordered {t t' : List ServerObs} (h : Grows t t') (ht : Ordered t) : Ordered t' := by
  obtain ⟨u, rfl, hu⟩ := h
  induction u generalizing t with
  | nil => simpa using ht
  | cons o u ih =>
    rw [List.append_cons]
    refine ih (ht.snoc fun i entry he => ?_) fun a ha => hu a (List.mem_cons_of_mem o ha)
    exact absurd he (hu o List.mem_cons_self i entry)

/-- What a step does to a connection, apart from the count of its close calls. -/
structure Reshapes (w : ServerLoop) (i : Nat) (c' : ServedConn) : Prop where
  old : ∃ c, w.conns[i]? = some c ∧ c'.tcp.name = c.tcp.name ∧ c'.loop = c.loop ∧
    (w.accepting ≠ none → c.loop = none → c'.tcp.frame = c.tcp.frame ∨ c'.tcp.frame = none)
  settled : c'.tcp.frame ≠ some .removing

/-- Steps that leave the map and the numbers of the connections alone. -/
theorem Roster.update {w w' : ServerLoop} (h : Roster w) (hname : w'.server.name = w.server.name)
    (hcounter : w'.escaped = false →
      w.escaped = false ∧ w'.server.nextConnId = w.server.nextConnId)
    (hmap : w'.server.conns = w.server.conns) (hacc : w'.accepting = w.accepting)
    (hpending : ∀ i ∈ w'.removals, i < w.conns.length)
    (hlen : w'.conns.length = w.conns.length)
    (hconns : ∀ i c', w'.conns[i]? = some c' → Reshapes w i c')
    (htrace : Grows w.trace w'.trace) : Roster w' := by
  have hof : w'.nameOf = w.nameOf := by
    funext i
    simp only [nameOf, hname]
  refine ⟨fun i c hc => ?_, fun hx => ?_, ?_, ?_, ?_, ?_, fun ha i c hc hl => ?_,
    fun i c hc => (hconns i c hc).settled, fun i hi ha => ?_, htrace.ordered h.ordered⟩
  · obtain ⟨⟨d, hd, hn, -⟩, -⟩ := hconns i c hc
    rw [hof, hn]
    exact h.names i d hd
  · obtain ⟨hx₀, hid⟩ := hcounter hx
    rw [hid, hlen]
    exact h.counter hx₀
  · rw [hacc, hlen]
    exact h.accepting
  · rw [hlen]
    exact hpending
  · rw [htrace.erased, hlen, hacc]
    exact h.done
  · rw [hof, hmap]
    refine h.lists.congr fun i => ?_
    simp only [Set.mem_ofPred_eq, Listed, hlen, hacc, htrace.erased]
  · obtain ⟨⟨d, hd, -, hloop, hframe⟩, -⟩ := hconns i c hc
    rw [hacc] at ha
    obtain hf | hf := hframe ha (hloop ▸ hl)
    · rw [hf]
      exact h.waiting ha i d hd (hloop ▸ hl)
    · exact .inl hf
  · rw [hlen] at hi
    rw [hacc] at ha
    exact htrace.subset (h.inserted i hi ha)

/-- The rest of `HandleNewConn`. -/
theorem Roster.insert {w : ServerLoop} (h : Roster w) (hn : w.conns.length ≤ 2 ^ 64) {i : Nat}
    {c : ServedConn} (ha : w.accepting = some i) (hc : w.conns[i]? = some c) :
    Roster ({ w with
      server.conns := w.server.conns.insert c.tcp.name i
      accepting := none }.emit (.inserted i)) := by
  have hlt : i < w.conns.length := (List.getElem?_eq_some_iff.mp hc).1
  have hgrows : Grows w.trace (w.trace ++ [.inserted i]) := grows_one (by simp)
  refine ⟨h.names, h.counter, by simp [emit], h.pending, ?_, ?_, by simp [emit], h.settled, ?_,
    hgrows.ordered h.ordered⟩
  · intro j hj
    change j ∈ erased (w.trace ++ [.inserted i]) at hj
    rw [hgrows.erased] at hj
    exact ⟨(h.done j hj).1, by simp [emit]⟩
  · have hins := h.lists.insert (Roster.distinct hn hlt)
    rw [← h.names i c hc] at hins
    refine hins.congr fun j => ?_
    simp only [Set.mem_insert_iff, Set.mem_ofPred_eq, Listed, emit, hgrows.erased, ha]
    constructor
    · rintro (rfl | ⟨hj, hne, hd⟩)
      · exact ⟨hlt, by simp, fun hd => (h.done j hd).2 ha⟩
      · exact ⟨hj, by simp, hd⟩
    · rintro ⟨hj, -, hd⟩
      by_cases hij : j = i
      · exact .inl hij
      · exact .inr ⟨hj, by simpa using Ne.symm hij, hd⟩
  · intro j hj _
    by_cases hij : j = i
    · subst hij
      exact List.mem_append_right _ List.mem_cons_self
    · refine List.mem_append_left _ (h.inserted j hj ?_)
      rw [ha]
      simpa using Ne.symm hij

/-- The functor of `RemoveConn`, posted or run at once. -/
theorem Roster.erase {w : ServerLoop} (h : Roster w) (hn : w.conns.length ≤ 2 ^ 64) {i : Nat}
    {c : ServedConn} (hi : i < w.conns.length) (ha : w.accepting ≠ some i)
    (hc : c.tcp.name = w.nameOf i) : Roster (w.erase i c) := by
  have hdistinct : Distinct w.nameOf {i | w.Listed i} i := Roster.distinct hn hi
  have herased : ∀ entry, erased (w.trace ++ [.erased i entry]) = erased w.trace ++ [i] := by
    intro entry
    simp [ServerLoop.erased, List.filterMap_append]
  refine ⟨h.names, h.counter, h.accepting, h.pending, ?_, ?_, h.waiting, h.settled, ?_, ?_⟩
  · intro j hj
    change j ∈ erased (w.trace ++ [.erased i _]) at hj
    rw [herased, List.mem_append, List.mem_singleton] at hj
    obtain hj | rfl := hj
    · exact h.done j hj
    · exact ⟨hi, ha⟩
  · have hers := h.lists.erase hdistinct
    rw [← hc] at hers
    refine hers.congr fun j => ?_
    simp only [Set.mem_sdiff, Set.mem_singleton_iff, Set.mem_ofPred_eq, Listed, ServerLoop.erase,
      emit, herased, List.mem_append, List.mem_singleton, not_or, and_assoc]
  · intro j hj haj
    exact List.mem_append_left _ (h.inserted j hj haj)
  · refine h.ordered.snoc fun j entry he => ?_
    obtain ⟨rfl, rfl⟩ : i = j ∧ w.server.conns.lookup c.tcp.name = entry := by simpa using he
    refine ⟨h.inserted i hi ha, ?_⟩
    rw [hc]
    exact h.lists.lookup_name_eq hdistinct

theorem newConn_name (w : ServerLoop) (loop : Option Nat) :
    (w.newConn loop).name = connName w.server.name w.server.nextConnId := by
  cases loop with
  | some k => rfl
  | none =>
    simp only [newConn, TcpConn.onAttachedToLoop]
    split <;> rfl

theorem newConn_frame (w : ServerLoop) (loop : Option Nat) :
    (w.newConn loop).frame = none ∨ (w.newConn loop).frame = some .attached := by
  cases loop with
  | some k => exact .inl rfl
  | none =>
    simp only [newConn, TcpConn.onAttachedToLoop]
    split
    · exact .inr rfl
    · exact .inl rfl

theorem idle_of_free {w : ServerLoop} (h : w.free = true) {i : Nat} {c : ServedConn}
    (hc : w.conns[i]? = some c) (hl : c.loop = none) : c.tcp.idle = true := by
  have hall : (w.allOn none TcpConn.idle) = true := (Bool.and_eq_true_iff.mp h).2
  have := List.all_eq_true.mp hall c (List.mem_of_getElem? hc)
  simpa [hl] using this

theorem escaped_of_free {w : ServerLoop} (h : w.free = true) : w.escaped = false := by
  have hx := (Bool.and_eq_true_iff.mp (Bool.and_eq_true_iff.mp h).1).1
  simpa using hx

/-- `HandleNewConn` up to the insertion. -/
theorem Roster.accept {w w' : ServerLoop} {loop : Option Nat} (h : Roster w) (hi : w.idle = true)
    (hname : w'.server.name = w.server.name)
    (hid : w'.server.nextConnId = w.server.nextConnId + 1)
    (hmap : w'.server.conns = w.server.conns) (hacc : w'.accepting = some w.conns.length)
    (hremovals : w'.removals = w.removals)
    (hconns : w'.conns = w.conns ++ [⟨loop, w.newConn loop⟩]) (htrace : Grows w.trace w'.trace) :
    Roster w' := by
  have hfree := free_of_idle hi
  have hnone := accepting_of_idle hi
  have hcounter := h.counter (escaped_of_free hfree)
  have hlen : w'.conns.length = w.conns.length + 1 := by rw [hconns, List.length_append]; rfl
  have hof : w'.nameOf = w.nameOf := by
    funext i
    simp only [nameOf, hname]
  refine ⟨fun i c hc => ?_, fun _ => ?_, ?_, ?_, ?_, ?_, fun _ i c hc hl => ?_, fun i c hc => ?_,
    fun i hlt ha => ?_, htrace.ordered h.ordered⟩
  · rw [hconns] at hc
    rw [hof]
    obtain hold | ⟨rfl, rfl⟩ := getElem?_snoc_cases hc
    · exact h.names i c hold
    · rw [nameOf, ← hcounter]
      exact newConn_name w loop
  · rw [hid, hcounter, hlen, BitVec.ofNat_add]
    rfl
  · intro i hi'
    rw [hacc] at hi'
    cases hi'
    exact hlen.symm
  · intro i hi'
    rw [hremovals] at hi'
    rw [hlen]
    exact Nat.lt_succ_of_lt (h.pending i hi')
  · intro i hi'
    rw [htrace.erased] at hi'
    have hlt := (h.done i hi').1
    rw [hlen, hacc]
    exact ⟨Nat.lt_succ_of_lt hlt, by simpa using Nat.ne_of_gt hlt⟩
  · rw [hof, hmap]
    refine h.lists.congr fun i => ?_
    simp only [Set.mem_ofPred_eq, Listed, hlen, hacc, htrace.erased, hnone]
    constructor
    · rintro ⟨hlt, -, hd⟩
      exact ⟨Nat.lt_succ_of_lt hlt, by simpa using Nat.ne_of_gt hlt, hd⟩
    · rintro ⟨hlt, hne, hd⟩
      have hne' : w.conns.length ≠ i := by simpa using hne
      exact ⟨by omega, by simp, hd⟩
  · rw [hconns] at hc
    obtain hold | ⟨-, rfl⟩ := getElem?_snoc_cases hc
    · exact .inl (TcpConn.idle_iff.mp (idle_of_free hfree hold hl)).1
    · exact newConn_frame w loop
  · rw [hconns] at hc
    obtain hold | ⟨-, rfl⟩ := getElem?_snoc_cases hc
    · exact h.settled i c hold
    · obtain hf | hf := newConn_frame w loop <;> simp [hf]
  · rw [hlen] at hlt
    rw [hacc] at ha
    have hne : w.conns.length ≠ i := by simpa using ha
    exact htrace.subset (h.inserted i (by omega) (by simp [hnone]))

/-- `Close()` leaves the name, the frame and the trace of a connection alone. -/
theorem closed_cases {w : ServerLoop} {i : Nat} {c' : ServedConn} (h : w.closed[i]? = some c') :
    ∃ c, w.conns[i]? = some c ∧ c'.loop = c.loop ∧ c'.tcp.name = c.tcp.name ∧
      c'.tcp.frame = c.tcp.frame ∧ c'.tcp.trace = c.tcp.trace := by
  rw [closed_getElem?] at h
  obtain ⟨c, hc, rfl⟩ := Option.map_eq_some_iff.mp h
  refine ⟨c, hc, rfl, ?_⟩
  change (TcpConn.close^[w.entryCount i] c.tcp).name = _ ∧ _
  induction w.entryCount i with
  | zero => exact ⟨rfl, rfl, rfl⟩
  | succ n ih =>
    simp only [Function.iterate_succ_apply']
    exact ih

/-- While a connection waits to be inserted, none of the listening loop enters a callback. -/
theorem frame_of_accepting {w : ServerLoop} {i : Nat} {e : TcpConn.Event} {c : ServedConn}
    {tcp : TcpConn} (h : Roster w) (hc : w.conns[i]? = some c) (ha : w.allows c.loop e = true)
    (hs : c.tcp.step e = some tcp) (hacc : w.accepting ≠ none) (hl : c.loop = none) :
    tcp.frame = c.tcp.frame ∨ tcp.frame = none := by
  have hbusy : w.idle ≠ true := fun hi => hacc (accepting_of_idle hi)
  cases hloop : e.isLoop with
  | false => exact .inl (TcpConn.step_outside hloop hs).1
  | true =>
    cases e with
    | runPosted | handleRead | handleWrite =>
      rw [hl] at ha
      exact absurd ha hbusy
    | resume =>
      obtain ⟨f, hf, rfl⟩ := Option.map_eq_some_iff.mp hs
      obtain hnone | hattached := h.waiting hacc i c hc hl
      · rw [hf] at hnone
        cases hnone
      · cases hf.symm.trans hattached
        exact .inr rfl
    | throw =>
      obtain ⟨f, -, rfl⟩ := Option.map_eq_some_iff.mp hs
      exact .inr rfl
    | _ => cases hloop

theorem setConn_cases {w : ServerLoop} {i j : Nat} {c' d : ServedConn}
    (h : (w.setConn i c').conns[j]? = some d) : (j = i ∧ d = c') ∨ w.conns[j]? = some d := by
  simp only [setConn, List.getElem?_set] at h
  split at h
  · next hij =>
    split at h
    · cases h
      exact .inl ⟨hij.symm, rfl⟩
    · cases h
  · exact .inr h

theorem Roster.setConn {w : ServerLoop} (h : Roster w) {i : Nat} {c c' : ServedConn}
    (hc : w.conns[i]? = some c) (hname : c'.tcp.name = c.tcp.name) (hloop : c'.loop = c.loop)
    (hframe : w.accepting ≠ none → c.loop = none →
      c'.tcp.frame = c.tcp.frame ∨ c'.tcp.frame = none)
    (hsettled : c'.tcp.frame ≠ some .removing) : Roster (w.setConn i c') := by
  refine h.update rfl (fun hx => ⟨hx, rfl⟩) rfl rfl h.pending (List.length_set ..) (fun j d hd => ?_)
    (grows_same _)
  obtain ⟨rfl, rfl⟩ | hold := setConn_cases hd
  · exact ⟨⟨c, hc, hname, hloop, hframe⟩, hsettled⟩
  · exact ⟨⟨d, hold, rfl, rfl, fun _ _ => .inl rfl⟩, h.settled j d hold⟩

/-- The connections as they are. -/
theorem Roster.reshapes {w : ServerLoop} (h : Roster w) (i : Nat) (c : ServedConn)
    (hc : w.conns[i]? = some c) : Reshapes w i c :=
  ⟨⟨c, hc, rfl, rfl, fun _ _ => .inl rfl⟩, h.settled i c hc⟩

/-- A step of a connection, with the close callback that it may call. -/
theorem Roster.afterConn {w : ServerLoop} (h : Roster w) (hn : w.conns.length ≤ 2 ^ 64)
    (hl : w.alive = true) {i : Nat} {c : ServedConn} {tcp : TcpConn} (hc : w.conns[i]? = some c)
    (hname : tcp.name = c.tcp.name)
    (hframe : w.accepting ≠ none → c.loop = none → tcp.frame = c.tcp.frame ∨ tcp.frame = none) :
    Roster (w.afterConn i { c with tcp := tcp }) := by
  unfold ServerLoop.afterConn
  by_cases hr : tcp.frame = some .removing
  · have hcalm : w.accepting ≠ none → c.loop ≠ none := by
      intro hacc hloop
      obtain hf | hf := hframe hacc hloop
      · exact h.settled i c hc (hf.symm.trans hr)
      · rw [hr] at hf
        cases hf
    simp only [if_pos hr, if_pos hl, removeConn]
    cases hloop : c.loop with
    | none =>
      have hacc : w.accepting = none := by
        by_contra hacc
        exact hcalm hacc hloop
      have hof : ({ c with tcp := tcp } : ServedConn).tcp.name = w.nameOf i :=
        hname.trans (h.names i c hc)
      have herased := h.erase hn (List.getElem?_eq_some_iff.mp hc).1 (by simp [hacc]) hof
      exact herased.setConn hc hname hloop.symm (fun _ _ => .inr rfl) (by simp [TcpConn.resume])
    | some k =>
      have hposted : Roster { w with removals := w.removals ++ [i] } := by
        refine h.update rfl (fun hx => ⟨hx, rfl⟩) rfl rfl (fun j hj => ?_) rfl h.reshapes
          (grows_same _)
        obtain hj | hj := List.mem_append.mp hj
        · exact h.pending j hj
        · rw [List.mem_singleton.mp hj]
          exact (List.getElem?_eq_some_iff.mp hc).1
      exact @Roster.setConn { w with removals := w.removals ++ [i] } hposted i c
        ⟨some k, tcp.resume .removing⟩ hc hname hloop.symm (fun _ _ => .inr rfl)
        (by simp [TcpConn.resume])
  · simp only [if_neg hr]
    exact h.setConn hc hname rfl hframe hr

theorem step_roster {w w' : ServerLoop} {e : Event} (h : Roster w) (hl : w.alive = true)
    (hn : w.conns.length ≤ 2 ^ 64) (hs : w.step e = some w') : Roster w' := by
  obtain ⟨v, hv, hq⟩ := step_acts hs
  suffices hroster : Roster v by
    refine hroster.update hq.name (fun hx => ⟨hq.escaped ▸ hx, hq.nextConnId⟩) hq.map hq.accepting
      ?_ (congrArg _ hq.conns) ?_ (hq.trace ▸ grows_same _)
    · rw [hq.removals]
      exact hroster.pending
    · rw [hq.conns]
      exact hroster.reshapes
  cases hv with
  | nothing => exact h
  | destroy =>
    exact h.update rfl (fun hx => ⟨hx, rfl⟩) rfl rfl h.pending rfl h.reshapes (grows_same _)
  | stop =>
    refine h.update rfl (fun hx => ⟨hx, rfl⟩) rfl rfl h.pending (length_closed w) (fun i c' hc' => ?_)
      (grows_one (by simp))
    obtain ⟨c, hc, hloop, hname, hframe, -⟩ := closed_cases hc'
    exact ⟨⟨c, hc, hname, hloop, fun _ _ => .inl hframe⟩, hframe ▸ h.settled i c hc⟩
  | refuse =>
    exact h.update rfl (fun hx => by cases hx) rfl rfl h.pending rfl h.reshapes (grows_same _)
  | accept _ hi hop =>
    refine h.accept hi rfl rfl rfl rfl rfl rfl ⟨_, rfl, ?_⟩
    split <;> simp
  | insert _ _ ha hc => exact h.insert hn ha hc
  | @erase i is c _ hi hr hc =>
    have hpopped : Roster { w with removals := is } := by
      refine h.update rfl (fun hx => ⟨hx, rfl⟩) rfl rfl (fun j hj => ?_) rfl h.reshapes
        (grows_same _)
      exact h.pending j (hr ▸ List.mem_cons_of_mem i hj)
    exact hpopped.erase hn (List.getElem?_eq_some_iff.mp hc).1 (by simp [accepting_of_idle hi])
      (h.names i c hc)
  | late _ hd =>
    rw [hl] at hd
    cases hd
  | @conn i e c tcp hc ha hs' =>
    have hmarked : Roster (if attaches c.tcp e then w.emit (.attached i) else w) := by
      split
      · exact h.update rfl (fun hx => ⟨hx, rfl⟩) rfl rfl h.pending rfl h.reshapes
          (grows_one (by simp))
      · exact h
    have hframe := frame_of_accepting h hc ha hs'
    have hname := TcpConn.step_name hs'
    split
    · next hat =>
      rw [if_pos hat] at hmarked
      exact hmarked.afterConn hn hl hc hname hframe
    · exact h.afterConn hn hl hc hname hframe

-- ════════════════════════════════════════════════════════════════════════
-- The calls of the close callback
-- ════════════════════════════════════════════════════════════════════════

theorem newConn_closeCalls (w : ServerLoop) (loop : Option Nat) :
    TcpConn.closeCalls (w.newConn loop).trace = 0 := by
  cases loop with
  | some k => rfl
  | none =>
    simp only [newConn, TcpConn.onAttachedToLoop]
    split <;> rfl

theorem erased_snoc (t : List ServerObs) (i : Nat) (entry : Option Nat) :
    erased (t ++ [.erased i entry]) = erased t ++ [i] := by
  simp [erased, List.filterMap_append]

theorem Accounted.update {w w' : ServerLoop} (h : Accounted w) (hremovals : w'.removals = w.removals)
    (htrace : erased w'.trace = erased w.trace)
    (hconns : ∀ (i : Nat) c', w'.conns[i]? = some c' →
      ∃ c, w.conns[i]? = some c ∧ c'.tcp.trace = c.tcp.trace) : Accounted w' := by
  intro i c' hc'
  obtain ⟨c, hc, ht⟩ := hconns i c' hc'
  rw [ht, hremovals, htrace]
  exact h i c hc

theorem Accounted.setConn {w v : ServerLoop} (h : Accounted w) {i : Nat} {c' : ServedConn}
    (hv : v.conns = w.conns) (hlt : i < w.conns.length)
    (hself : TcpConn.closeCalls c'.tcp.trace = v.removals.count i + (erased v.trace).count i)
    (hother : ∀ j, j ≠ i → v.removals.count j + (erased v.trace).count j =
      w.removals.count j + (erased w.trace).count j) : Accounted (v.setConn i c') := by
  intro j d hd
  simp only [ServerLoop.setConn, hv, List.getElem?_set, if_pos hlt] at hd
  by_cases hij : i = j
  · subst hij
    rw [if_pos rfl] at hd
    cases hd
    exact hself
  · rw [if_neg hij] at hd
    have := h j d hd
    exact this.trans (hother j (Ne.symm hij)).symm

theorem accounted_afterConn {w : ServerLoop} (h : Accounted w) (hl : w.alive = true) {i : Nat}
    {c : ServedConn} {tcp : TcpConn} (hc : w.conns[i]? = some c)
    (hcalls : TcpConn.closeCalls tcp.trace =
      TcpConn.closeCalls c.tcp.trace + if tcp.frame = some .removing then 1 else 0) :
    Accounted (w.afterConn i { c with tcp := tcp }) := by
  have hlt : i < w.conns.length := (List.getElem?_eq_some_iff.mp hc).1
  have hold := h i c hc
  unfold ServerLoop.afterConn
  by_cases hr : tcp.frame = some .removing
  · rw [if_pos hr] at hcalls
    simp only [if_pos hr, if_pos hl, removeConn]
    cases c.loop with
    | none =>
      refine h.setConn rfl hlt ?_ fun j hj => ?_
      · simp only [erase, emit, erased_snoc, List.count_append, List.count_singleton_self]
        change TcpConn.closeCalls tcp.trace = _
        omega
      · simp [erase, emit, erased_snoc, List.count_append, Ne.symm hj]
    | some k =>
      refine h.setConn rfl hlt ?_ fun j hj => ?_
      · simp only [List.count_append, List.count_singleton_self]
        change TcpConn.closeCalls tcp.trace = _
        omega
      · simp [List.count_append, Ne.symm hj]
  · rw [if_neg hr, Nat.add_zero] at hcalls
    simp only [if_neg hr]
    exact h.setConn rfl hlt (hcalls.trans hold) fun _ _ => rfl

theorem step_accounted {w w' : ServerLoop} {e : Event} (h : Roster w) (hk : Accounted w)
    (hl : w.alive = true) (hs : w.step e = some w') : Accounted w' := by
  obtain ⟨v, hv, hq⟩ := step_acts hs
  have same : ∀ (i : Nat) c, w.conns[i]? = some c →
      ∃ d, w.conns[i]? = some d ∧ c.tcp.trace = d.tcp.trace := fun i c hc => ⟨c, hc, rfl⟩
  suffices hacc : Accounted v by
    refine hacc.update hq.removals (congrArg _ hq.trace) fun i c hc => ⟨c, ?_, rfl⟩
    rwa [hq.conns] at hc
  cases hv with
  | nothing => exact hk
  | destroy | refuse => exact hk.update rfl rfl same
  | stop =>
    refine hk.update rfl ((grows_one (by simp)).erased) fun i c' hc' => ?_
    obtain ⟨c, hc, -, -, -, ht⟩ := closed_cases hc'
    exact ⟨c, hc, ht⟩
  | @accept j socket loop _ hi hop =>
    have hgrows : Grows w.trace (w.trace ++ (.accepted w.conns.length ::
        if loop = none then [.attached w.conns.length] else [])) := by
      refine ⟨_, rfl, ?_⟩
      split <;> simp
    intro i c hc
    rw [hgrows.erased]
    obtain hold | ⟨rfl, rfl⟩ := getElem?_snoc_cases hc
    · exact hk i c hold
    · have hrem : w.conns.length ∉ w.removals := fun hm => Nat.lt_irrefl _ (h.pending _ hm)
      have hdone : w.conns.length ∉ erased w.trace := fun hm => Nat.lt_irrefl _ (h.done _ hm).1
      rw [List.count_eq_zero_of_not_mem hrem, List.count_eq_zero_of_not_mem hdone]
      exact newConn_closeCalls w loop
  | insert => exact hk.update rfl ((grows_one (by simp)).erased) same
  | @erase i is c _ _ hr hc =>
    intro j d hd
    have hold := hk j d hd
    rw [hr, List.count_cons] at hold
    simp only [erase, emit, erased_snoc, List.count_append, List.count_singleton]
    omega
  | late _ hd =>
    rw [hl] at hd
    cases hd
  | @conn i e c tcp hc _ hs' =>
    have hcalls := TcpConn.step_closeCalls (h.settled i c hc) hs'
    split
    · have hmarked : Accounted (w.emit (.attached i)) :=
        hk.update rfl ((grows_one (by simp)).erased) same
      exact accounted_afterConn hmarked hl hc hcalls
    · exact accounted_afterConn hk hl hc hcalls

/-- What holds of the map as long as the names do not repeat. -/
def Exact (w : ServerLoop) : Prop :=
  w.alive = true → w.conns.length ≤ 2 ^ 64 → Roster w ∧ Accounted w

theorem step_exact {w w' : ServerLoop} {e : Event} (h : Exact w) (hs : w.step e = some w') :
    Exact w' := by
  intro hl hn
  have hl₀ : w.alive = true := by
    obtain hsame | ⟨-, hdead⟩ := step_alive hs
    · exact hsame.symm.trans hl
    · rw [hl] at hdead
      cases hdead
  have hn₀ : w.conns.length ≤ 2 ^ 64 := Nat.le_trans (step_length hs) hn
  obtain ⟨hroster, hacc⟩ := h hl₀ hn₀
  exact ⟨step_roster hroster hl₀ hn₀ hs, step_accounted hroster hacc hl₀ hs⟩

theorem roster_create (name : String) (n : Nat) : Roster (create name n) where
  names := by simp [create]
  counter _ := rfl
  accepting := by simp [create]
  pending := by simp [create]
  done := by simp [create, erased]
  lists := lists_empty.congr fun i => by simp [create, Listed]
  waiting := by simp [create]
  settled := by simp [create]
  inserted := by simp [create]
  ordered := by
    intro pre i entry post h
    simp [create] at h

theorem run_exact {name : String} {n : Nat} {es : List Event} {w : ServerLoop}
    {G : ServerLoop → Event → ServerLoop → Prop} (hr : Runs step G (create name n) es w) :
    Exact w := by
  have hinit : Exact (create name n) :=
    fun _ _ => ⟨roster_create name n, by rintro i c ⟨⟩⟩
  exact hr.invariant (fun _ _ _ h _ hs => step_exact h hs) hinit

/-- **The connection map is exact**: names differ, a connection that has been
inserted is listed until a functor of `RemoveConn` for it has been executed,
every functor comes after the insertion and erases nothing else, and when none is
posted the map lists the connections whose close callback has not been called. -/
theorem connection_map_exact {name : String} {n : Nat} {es : List Event} {w : ServerLoop}
    (hr : Runs step anyStep (create name n) es w) (hl : w.alive = true)
    (hn : w.conns.length < 2 ^ 64) :
    (∀ (i j : Nat) c d, w.conns[i]? = some c → w.conns[j]? = some d →
      c.tcp.name = d.tcp.name → i = j) ∧
    (∀ (i : Nat) c, w.conns[i]? = some c → w.accepting ≠ some i →
      (w.server.conns.lookup c.tcp.name = some i ↔ i ∉ erased w.trace)) ∧
    (∀ k i, w.server.conns.lookup k = some i → ∃ c, w.conns[i]? = some c ∧ c.tcp.name = k) ∧
    Ordered w.trace ∧
    (w.removals = [] → ∀ (i : Nat) c, w.conns[i]? = some c → w.accepting ≠ some i →
      (w.server.conns.lookup c.tcp.name = some i ↔ TcpConn.closeCalls c.tcp.trace = 0)) := by
  obtain ⟨h, hacc⟩ := run_exact hr hl (Nat.le_of_lt hn)
  have hlisted : ∀ (i : Nat) c, w.conns[i]? = some c → w.accepting ≠ some i →
      (w.server.conns.lookup c.tcp.name = some i ↔ i ∉ erased w.trace) := by
    intro i c hc ha
    rw [h.names i c hc, h.lists.lookup_name]
    exact ⟨fun hi => hi.2.2, fun hd => ⟨(List.getElem?_eq_some_iff.mp hc).1, ha, hd⟩⟩
  refine ⟨fun i j c d hc hd hname => ?_, hlisted, fun k i hk => ?_, h.ordered, fun hrem i c hc ha => ?_⟩
  · rw [h.names i c hc, h.names j d hd] at hname
    exact connName_injective (Nat.lt_trans (List.getElem?_eq_some_iff.mp hc).1 hn)
      (Nat.lt_trans (List.getElem?_eq_some_iff.mp hd).1 hn) hname
  · obtain ⟨⟨hi, -⟩, rfl⟩ := (h.lists k i).mp hk
    have hc := List.getElem?_eq_getElem hi
    exact ⟨_, hc, h.names i _ hc⟩
  · rw [hlisted i c hc ha, hacc i c hc, hrem, List.count_nil, Nat.zero_add, List.count_eq_zero]

/-- A connection runs on its worker loop before it is inserted. -/
theorem connection_map_exact_attached :
    ∃ w, Runs step anyStep (create "server" 1)
      [.setConnectionCallback (some 0), .start, .advance, .thread 0 .begin, .thread 0 .run, .advance,
        .advance, .advance, .acceptReady 0 (some ⟨true, true⟩), .handleAccept 0, .conn 0 .runPosted,
        .insert] w ∧
      ∃ c, w.conns[0]? = some c ∧ w.server.conns.lookup c.tcp.name = some 0 := by
  obtain ⟨w, hr, hl, hn, ha, he⟩ : ∃ w, Runs step anyStep (create "server" 1)
      [.setConnectionCallback (some 0), .start, .advance, .thread 0 .begin, .thread 0 .run, .advance,
        .advance, .advance, .acceptReady 0 (some ⟨true, true⟩), .handleAccept 0, .conn 0 .runPosted,
        .insert] w ∧
      w.alive = true ∧ w.conns.length = 1 ∧ w.accepting = none ∧ erased w.trace = [] :=
    ⟨_, .cons rfl trivial (.cons rfl trivial (.cons rfl trivial (.cons rfl trivial
      (.cons rfl trivial (.cons rfl trivial (.cons rfl trivial (.cons rfl trivial
      (.cons rfl trivial (.cons rfl trivial (.cons rfl trivial (.cons rfl trivial
      (.nil _)))))))))))), rfl, rfl, rfl, rfl⟩
  have hc := List.getElem?_eq_getElem (hn ▸ Nat.zero_lt_one : 0 < w.conns.length)
  have hexact := (connection_map_exact hr hl (by rw [hn]; decide)).2.1 0 _ hc (by simp [ha])
  exact ⟨w, hr, _, hc, hexact.mpr (by simp [he])⟩

-- ════════════════════════════════════════════════════════════════════════
-- A server with one connection
-- ════════════════════════════════════════════════════════════════════════

/-- A server without worker loops that has one connection, which waits for its first
read, and an accept in flight. -/
def serving : ServerLoop :=
  { create "server" 0 with
    server := { (create "server" 0).server with
      tpool := { EventLoopThreadPool.create 0 with started := true }
      connFn := some 0
      nextConnId := 1
      conns := AList.insert "server-conn#0" 0 ∅ }
    accepts := [⟨none, none⟩]
    conns := [⟨none, .established "server-conn#0" .kIncoming 0 none .removeConn⟩]
    trace := [.accepted 0, .attached 0, .inserted 0] }

theorem run_serving {G : ServerLoop → Event → ServerLoop → Prop}
    (hg : ∀ w e w', e ∈ [Event.setConnectionCallback (some 0), .start, .advance,
      .acceptReady 0 (some ⟨true, true⟩), .handleAccept 0, .conn 0 .resume, .insert] → G w e w') :
    Runs step G (create "server" 0) [.setConnectionCallback (some 0), .start, .advance, .advance,
      .acceptReady 0 (some ⟨true, true⟩), .handleAccept 0, .conn 0 .resume, .insert] serving := by
  let c : TcpConn := .established "server-conn#0" .kIncoming 0 none .removeConn
  let a : TcpConn := .attaching "server-conn#0" .kIncoming 0 none .removeConn
  let w₁ : ServerLoop := { create "server" 0 with
    server := { (create "server" 0).server with
      tpool := { EventLoopThreadPool.create 0 with started := true }
      connFn := some 0
      nextConnId := 1 }
    accepting := some 0
    conns := [⟨none, a⟩]
    trace := [.accepted 0, .attached 0] }
  have hr : Runs step G (create "server" 0) [.setConnectionCallback (some 0), .start, .advance,
      .advance, .acceptReady 0 (some ⟨true, true⟩), .handleAccept 0] w₁ :=
    .cons rfl (hg _ _ _ (by simp)) (.cons rfl (hg _ _ _ (by simp)) (.cons rfl (hg _ _ _ (by simp))
      (.cons rfl (hg _ _ _ (by simp)) (.cons rfl (hg _ _ _ (by simp))
      (.single rfl (hg _ _ _ (by simp)))))))
  have hresume : w₁.step (.conn 0 .resume) = some { w₁ with conns := [⟨none, c⟩] } :=
    congrArg (Option.map fun tcp => w₁.afterConn 0 ⟨none, tcp⟩)
      (TcpConn.step_established "server-conn#0" .kIncoming 0 none .removeConn)
  have hinsert : ({ w₁ with conns := [⟨none, c⟩] } : ServerLoop).step .insert = some serving := rfl
  exact (hr.snoc hresume (hg _ _ _ (by simp))).snoc hinsert (hg _ _ _ (by simp))

end ServerLoop

end Libasio
