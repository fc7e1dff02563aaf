import Libasio.Hosting

/-!
# Packets over a link

One end of the packet protocol in any run, and two of them with the network
between: what `OnRecvData_` is called with, what it delivers, and what becomes of
the packets that the other end has sent.

## Main definitions

- `PacketImpl.strings` — the strings that `OnRecvData_` was called with
- `PacketImpl.Receives` — what holds between any two steps of an end
- `PacketImpl.encode` — packets sent back to back

## Main results

- `PacketImpl.reads_delivered` — each string is one successful read
- `PacketImpl.first_of_each_read` — what arrives over a link when no read ends within a packet
-/

namespace Libasio

open ByteBuffer Transition TcpConn

namespace PacketImpl

variable {P : Type*} {cereal : Cereal P}

/-- `OnRecvData_` does not fail on the string. -/
def Takes (cereal : Cereal P) (s : Bytes) : Prop :=
  s.headD 0 = 1 → cereal.deserialize s ≠ none

theorem deliveries_append {xs : List Bytes} (h : ∀ s ∈ xs, Takes cereal s) (ys : List Bytes) :
    deliveries cereal (xs ++ ys) = deliveries cereal xs ++ deliveries cereal ys := by
  induction xs with
  | nil => rfl
  | cons s xs ih =>
    have hs := h s List.mem_cons_self
    have ih := ih fun s' hs' => h s' (List.mem_cons_of_mem _ hs')
    rw [List.cons_append, deliveries, deliveries]
    split
    · exact ih
    · next hh =>
      cases hd : cereal.deserialize s with
      | none => exact absurd hd (hs (not_not.mp hh))
      | some p => simp only [ih, List.cons_append]

/-- The string that `OnRecvData_` has yet to be called for. -/
def waiting (r : PacketImpl P) : List Bytes := if r.waits then [r.ss] else []

theorem waiting_of_waits {r : PacketImpl P} (h : r.waits = true) : r.waiting = [r.ss] := if_pos h

theorem waiting_of_not {r : PacketImpl P} (h : r.waits = false) : r.waiting = [] := by
  rw [waiting, h, if_neg Bool.false_ne_true]

/-- The string of a call of `OnRecvData_`. -/
def called (r : PacketImpl P) : Event → List Bytes
  | .onRecvData_ => [r.ss]
  | .conn _ => []

/-- The strings that `OnRecvData_` was called with. -/
def strings (cereal : Cereal P) (r : PacketImpl P) (es : List Event) : List Bytes :=
  outputs (step cereal) called r es

/-- `OnRecvData_` has been run for all reads but the last one, and has decoded them one by
one. -/
structure Handed (cereal : Cereal P) (r : PacketImpl P) (taken : List Bytes) : Prop where
  reads : reads r.conn.trace = taken ++ r.waiting
  received : r.received = deliveries cereal taken
  takes : r.conn.escaped = false → ∀ s ∈ taken, Takes cereal s

/-- Between two callbacks the buffer is empty. -/
structure Receives (cereal : Cereal P) (r : PacketImpl P) (taken : List Bytes) : Prop where
  live : LiveInv r.conn
  fed : ∃ l, Fed l r.conn
  solid : Solid r.conn
  callbacks : CallbacksSet r.conn
  left : r.conn.escaped = true → r.conn.frame = none
  entered : r.entered = true → r.conn.frame = some .message
  rpos : r.conn.recvBuffer.rpos = 0
  wpos : r.waits = false → r.conn.recvBuffer.wpos = 0
  pieces : ∀ s ∈ TcpConn.reads r.conn.trace, s ≠ [] ∧ s.length ≤ defaultSize
  handed : Handed cereal r taken

/-- User code leaves both callbacks set. -/
def Wired (_ : PacketImpl P) (e : Event) (_ : PacketImpl P) : Prop :=
  e ≠ .conn (.setConnCallback none) ∧ e ≠ .conn (.setMessageCallback none)

theorem waits_iff {r : PacketImpl P} :
    r.waits = true ↔ r.conn.frame = some .message ∧ r.entered = false := by
  simp [waits]

/-- A step of the connection that is no handler of a read neither calls the message
callback nor leaves one in which `OnRecvData_` has yet to run. -/
theorem waits_conn {r : PacketImpl P} {e : TcpConn.Event} {c : TcpConn}
    (hb : r.blocks e = false) (hr : e ≠ .handleRead) (hc : r.conn.step e = some c) :
    (⟨c, r.entered && c.frame == some .message, r.received⟩ : PacketImpl P).waits = r.waits := by
  by_cases hf : c.frame = some .message
  · have hf₀ := ((step_message hc hf).resolve_left hr).1
    simp [waits, hf, hf₀]
  · have hw : r.waits = false := by
      by_contra hne
      have hw : r.waits = true := by simpa using hne
      have hmsg := (waits_iff.mp hw).1
      rcases step_frame hc with ⟨hsame, -⟩ | ⟨hi, -⟩ | ⟨f, -, ⟨he, -⟩ | ⟨he, -⟩⟩
      · exact hf (hsame.trans hmsg)
      · cases (idle_iff.mp hi).1.symm.trans hmsg
      · rw [he, blocks, hw] at hb
        cases hb
      · rw [he, blocks, hw] at hb
        cases hb
    have hne : (c.frame == some .message) = false := beq_eq_false_iff_ne.mpr hf
    rw [hw, waits, hne, Bool.false_and]

/-- An exception that is under way has left the handler. -/
theorem left_conn {c c' : TcpConn} {e : TcpConn.Event} (h : CallbacksSet c)
    (hl : c.escaped = true → c.frame = none) (hcf : e ≠ .setConnCallback none)
    (hmf : e ≠ .setMessageCallback none) (hc : c.step e = some c') (hx : c'.escaped = true) :
    c'.frame = none := by
  by_cases ht : e = .throw
  · subst ht
    obtain ⟨f, -, rfl⟩ := Option.map_eq_some_iff.mp hc
    rfl
  · have hx₀ : c.escaped = true := (step_callbacksSet h ht hcf hmf hc).2.symm.trans hx
    have hnone := hl hx₀
    rcases step_frame hc with ⟨hsame, -⟩ | ⟨hi, -⟩ | ⟨f, hf, -⟩
    · exact hsame.trans hnone
    · cases (idle_iff.mp hi).2.symm.trans hx₀
    · cases hnone.symm.trans hf

theorem step_conn_eq {r r' : PacketImpl P} {e : TcpConn.Event}
    (hs : step cereal r (.conn e) = some r') : ∃ c, r.blocks e = false ∧ r.conn.step e = some c ∧
      r' = ⟨c, r.entered && c.frame == some .message, r.received⟩ := by
  obtain ⟨hb, hc, -⟩ := step_conn hs
  exact ⟨r'.conn, hb, hc, Option.some.inj (hs.symm.trans (step_of_conn hb hc))⟩

/-- A step of the connection that hands over nothing. -/
theorem Receives.quiet {r r' : PacketImpl P} {taken : List Bytes} {e : TcpConn.Event}
    (h : Receives cereal r taken) (hg : Wired r (.conn e) r') (hr : e ≠ .handleRead)
    (hs : step cereal r (.conn e) = some r') : Receives cereal r' taken := by
  obtain ⟨c, hb, hc, rfl⟩ := step_conn_eq hs
  obtain ⟨hcf, hmf⟩ : e ≠ .setConnCallback none ∧ e ≠ .setMessageCallback none :=
    ⟨fun he => hg.1 (by rw [he]), fun he => hg.2 (by rw [he])⟩
  have hedit : ∀ edit, e ≠ .editRecv edit := by
    rintro edit rfl
    cases hb
  obtain ⟨hbuf, hreads⟩ := step_input_same h.live hr hedit hc
  have hwaits := waits_conn hb hr hc
  obtain ⟨l, hfed⟩ := h.fed
  obtain ⟨hread, hrec, htakes⟩ := h.handed
  have hset : CallbacksSet c := by
    by_cases ht : e = .throw
    · subst ht
      obtain ⟨f, -, he⟩ := Option.map_eq_some_iff.mp hc
      rw [← he]
      exact h.callbacks
    · exact (step_callbacksSet h.callbacks ht hcf hmf hc).1
  exact {
    live := step_live h.live hc
    fed := ⟨_, (step_fed h.live hfed (fun edit he => absurd he (hedit edit)) hc).1⟩
    solid := step_solid h.solid hc
    callbacks := hset
    left := left_conn h.callbacks h.left hcf hmf hc
    entered := fun he => by simpa using (Bool.and_eq_true_iff.mp he).2
    rpos := by rw [hbuf]; exact h.rpos
    wpos := fun hw => by rw [hbuf]; exact h.wpos (hwaits ▸ hw)
    pieces := by rw [hreads]; exact h.pieces
    handed := by
      refine ⟨?_, hrec, fun hx => htakes ?_⟩
      · rw [hreads, hread, waiting, waiting, hwaits, ss, ss, hbuf]
      · by_contra hne
        have hesc := TcpConn.step_escaped (Bool.not_eq_false _ |>.mp hne) hc
        cases hesc.symm.trans hx }

/-- The handler of a read that failed hands over nothing either. -/
theorem Receives.failed {r r' : PacketImpl P} {taken : List Bytes} {room : Nat} {res : ReadResult}
    (h : Receives cereal r taken) (hread : r.conn.reading = some ⟨room, some res⟩)
    (hne : ∀ data, res ≠ .ok data) (hs : step cereal r (.conn .handleRead) = some r') :
    Receives cereal r' taken := by
  obtain ⟨c, hb, hc, rfl⟩ := step_conn_eq hs
  obtain ⟨l, hfed⟩ := h.fed
  obtain ⟨room', res', hr', hidle, he⟩ := startRead_cases hc
  cases hread.symm.trans hr'
  obtain ⟨hf, hx⟩ := idle_iff.mp hidle
  have hclosed : c = ({ r.conn with
      reading := none, trace := r.conn.trace ++ [.handleRead res] } : TcpConn).handleError := by
    cases res with
    | ok data => exact absurd rfl (hne data)
    | eof | error => exact he
  have hframe : (c.frame == some .message) = false := by
    rw [hclosed]
    exact beq_eq_false_iff_ne.mpr (handleError_frame _)
  obtain ⟨hset, hesc⟩ := step_callbacksSet h.callbacks (by simp) (by simp) (by simp) hc
  obtain ⟨hbuf, -, t, ht, hn⟩ := handled_input hread he
  have hq : r.conn.queued = [] := by
    rw [queued, hread]
    cases res with
    | ok data => exact absurd rfl (hne data)
    | eof | error => rfl
  rw [hq, fill_nil] at hbuf
  have hreads : TcpConn.reads c.trace = TcpConn.reads r.conn.trace := by
    rw [ht, reads_append]
    have hcons : TcpConn.reads (.handleRead res :: t) = TcpConn.reads t := by
      cases res with
      | ok data => exact absurd rfl (hne data)
      | eof | error => rfl
    rw [hcons, reads_eq_nil hn, List.append_nil]
  have hwaits : r.waits = false := by rw [waits, hf]; rfl
  have hwaits' : (⟨c, r.entered && c.frame == some .message, r.received⟩ : PacketImpl P).waits =
      false := by simp only [waits, hframe, Bool.false_and]
  obtain ⟨hhanded, hrec, htakes⟩ := h.handed
  exact {
    live := step_live h.live hc
    fed := ⟨_, (step_fed h.live hfed (by rintro edit ⟨⟩) hc).1⟩
    solid := step_solid h.solid hc
    callbacks := hset
    left := left_conn h.callbacks h.left (by simp) (by simp) hc
    entered := fun he => by rw [hframe, Bool.and_false] at he; cases he
    rpos := by rw [hbuf]; exact h.rpos
    wpos := fun _ => by rw [hbuf]; exact h.wpos hwaits
    pieces := by rw [hreads]; exact h.pieces
    handed := ⟨by rw [hreads, hhanded, waiting_of_not hwaits, waiting_of_not hwaits'], hrec,
      fun _ => htakes hx⟩ }

/-- The handler of a read that succeeded fills the empty buffer, and calls `OnRecvData_`. -/
theorem Receives.succeeded {r r' : PacketImpl P} {taken : List Bytes} {room : Nat} {data : Bytes}
    (h : Receives cereal r taken) (hread : r.conn.reading = some ⟨room, some (.ok data)⟩)
    (hs : step cereal r (.conn .handleRead) = some r') : Receives cereal r' taken := by
  obtain ⟨c, hb, hc, rfl⟩ := step_conn_eq hs
  obtain ⟨l, hfed⟩ := h.fed
  obtain ⟨room', res', hr', hidle, he⟩ := startRead_cases hc
  cases hread.symm.trans hr'
  obtain ⟨hf, hx⟩ := idle_iff.mp hidle
  have hwaits : r.waits = false := by rw [waits, hf]; rfl
  have hroom : room = defaultSize := by
    rw [show room = r.conn.recvBuffer.validSize from hfed.room _ hread, validSize, h.wpos hwaits,
      Nat.sub_zero]
    exact hfed.capacity
  have hlen : data.length ≤ defaultSize := hroom ▸ hfed.fits room data hread
  have hne : data ≠ [] := h.solid room data hread (by simp [hroom, defaultSize])
  obtain ⟨hss, -⟩ := filled_ss h.rpos (h.wpos hwaits) (hlen.trans hfed.capacity.ge)
  obtain ⟨hbuf, -, t, ht, hn⟩ := handled_input hread he
  have hq : r.conn.queued = data := by rw [queued, hread]
  rw [hq] at hbuf
  obtain ⟨f, hmf⟩ := Option.ne_none_iff_exists'.mp h.callbacks.2
  have hframe : c.frame = some .message := by
    rw [he]
    simp only [handleRead, hmf, emit]
  have hentered : r.entered = false := by
    by_contra hne
    cases hf.symm.trans (h.entered (by simpa using hne))
  obtain ⟨hset, -⟩ := step_callbacksSet h.callbacks (by simp) (by simp) (by simp) hc
  have hreads : TcpConn.reads c.trace = TcpConn.reads r.conn.trace ++ [data] := by
    have hcons : TcpConn.reads (.handleRead (.ok data) :: t) = data :: TcpConn.reads t := rfl
    rw [ht, reads_append, hcons, reads_eq_nil hn]
  have hwaits' : (⟨c, r.entered && c.frame == some .message, r.received⟩ : PacketImpl P).waits =
      true := waits_iff.mpr ⟨hframe, by simp [hentered]⟩
  obtain ⟨hhanded, hrec, htakes⟩ := h.handed
  rw [waiting_of_not hwaits, List.append_nil] at hhanded
  exact {
    live := step_live h.live hc
    fed := ⟨_, (step_fed h.live hfed (by rintro edit ⟨⟩) hc).1⟩
    solid := step_solid h.solid hc
    callbacks := hset
    left := left_conn h.callbacks h.left (by simp) (by simp) hc
    entered := fun _ => hframe
    rpos := by rw [hbuf]; exact h.rpos
    wpos := fun hw => by cases hwaits'.symm.trans hw
    pieces := by
      intro s hsm
      rw [hreads, List.mem_append, List.mem_singleton] at hsm
      rcases hsm with hsm | rfl
      · exact h.pieces s hsm
      · exact ⟨hne, hlen⟩
    handed := by
      refine ⟨?_, hrec, fun _ => htakes hx⟩
      rw [hreads, hhanded, waiting_of_waits hwaits', ss, hbuf]
      exact congrArg (fun s => taken ++ [s]) hss.symm }

/-- While the message callback is under way, no exception is. -/
theorem Receives.running {r : PacketImpl P} {taken : List Bytes} (h : Receives cereal r taken)
    (hf : r.conn.frame = some .message) : r.conn.escaped = false := by
  by_contra hne
  cases hf.symm.trans (h.left (by simpa using hne))

/-- What `OnRecvData_` leaves, whatever it makes of the string. -/
theorem Receives.consumed {r r' : PacketImpl P} {taken : List Bytes} (h : Receives cereal r taken)
    (hw : r.waits = true)
    (hc : r'.conn = r.emptied ∧ r'.entered = true ∨ r'.conn = r.emptied.throw ∧ r'.entered = false)
    (hrec : r'.received = r.received ++ deliveries cereal [r.ss])
    (htake : r'.conn.escaped = false → Takes cereal r.ss) :
    Receives cereal r' (taken ++ [r.ss]) := by
  obtain ⟨hf, -⟩ := waits_iff.mp hw
  obtain ⟨l, hfed⟩ := h.fed
  obtain ⟨hhanded, hrec₀, htakes⟩ := h.handed
  have hx := h.running hf
  have hedit := step_emptied hf
  have hfeeds : Feeds r.conn (.editRecv (.consume r.conn.recvBuffer.size true)) r.emptied := by
    rintro edit ⟨⟩
    exact ⟨_, true, rfl, le_rfl⟩
  have hlive := step_live h.live hedit
  have hsolid := step_solid h.solid hedit
  have hfed' := (step_fed h.live hfed hfeeds hedit).1
  have hwpos : r.emptied.recvBuffer.wpos = 0 := by
    show (r.conn.recvBuffer.readBytes r.conn.recvBuffer.size).normalize.wpos = 0
    rw [normalize_wpos]
    simp only [size, readBytes]
    omega
  have hwaits' : r'.waits = false := by
    rcases hc with ⟨-, he⟩ | ⟨hc, -⟩
    · simp [waits, he]
    · rw [waits, hc]
      rfl
  have hhanded' : Handed cereal r' (taken ++ [r.ss]) := by
    refine ⟨?_, ?_, fun hx' => List.forall_mem_append.mpr ⟨htakes hx, ?_⟩⟩
    · rw [waiting_of_not hwaits', List.append_nil, ← waiting_of_waits hw, ← hhanded]
      rcases hc with ⟨hc, -⟩ | ⟨hc, -⟩
      · rw [hc]
        rfl
      · rw [hc]
        rfl
    · rw [hrec, hrec₀, deliveries_append (htakes hx)]
    · intro s hs
      rw [List.mem_singleton.mp hs]
      exact htake hx'
  rcases hc with ⟨hc, he⟩ | ⟨hc, he⟩
  · exact {
      live := hc ▸ hlive
      fed := ⟨_, hc ▸ hfed'⟩
      solid := hc ▸ hsolid
      callbacks := hc ▸ h.callbacks
      left := fun hx' => by
        rw [hc] at hx'
        cases hx.symm.trans hx'
      entered := fun _ => by rw [hc]; exact hf
      rpos := by rw [hc]; exact normalize_rpos _
      wpos := fun _ => by rw [hc]; exact hwpos
      pieces := by rw [hc]; exact h.pieces
      handed := hhanded' }
  · have hthrow := step_emptied_throw hf
    exact {
      live := hc ▸ step_live hlive hthrow
      fed := ⟨_, hc ▸ (step_fed hlive hfed' (by rintro edit ⟨⟩) hthrow).1⟩
      solid := hc ▸ step_solid hsolid hthrow
      callbacks := hc ▸ h.callbacks
      left := fun _ => by rw [hc]; rfl
      entered := fun he' => by cases he.symm.trans he'
      rpos := by rw [hc]; exact normalize_rpos _
      wpos := fun _ => by rw [hc]; exact hwpos
      pieces := by rw [hc]; exact h.pieces
      handed := hhanded' }

/-- `OnRecvData_` takes the string that was read last. -/
theorem Receives.onRecvData_ {r r' : PacketImpl P} {taken : List Bytes}
    (h : Receives cereal r taken) (hs : step cereal r .onRecvData_ = some r') :
    Receives cereal r' (taken ++ [r.ss]) := by
  have hw : r.waits = true := (Option.ite_none_right_eq_some.mp hs).1
  obtain ⟨-, rfl⟩ := step_onRecvData_ hs
  rcases onRecvData_cases cereal r with ⟨hh, he⟩ | ⟨hh, hd, he⟩ | ⟨pPkt, hh, hd, he⟩
  · refine h.consumed hw (Or.inl (by rw [he]; exact ⟨rfl, rfl⟩)) ?_ fun _ h1 => absurd h1 hh
    rw [he, deliveries, if_pos hh]
    exact (List.append_nil _).symm
  · refine h.consumed hw (Or.inr (by rw [he]; exact ⟨rfl, (waits_iff.mp hw).2⟩)) ?_ ?_
    · rw [he, deliveries, if_neg (not_not.mpr hh), hd]
      exact (List.append_nil _).symm
    · rw [he]
      rintro ⟨⟩
  · refine h.consumed hw (Or.inl (by rw [he]; exact ⟨rfl, rfl⟩)) ?_ fun _ _ => by simp [hd]
    rw [he, deliveries, if_neg (not_not.mpr hh), hd]
    rfl

theorem step_receives {r r' : PacketImpl P} {taken : List Bytes} {e : Event}
    (h : Receives cereal r taken) (hg : Wired r e r') (hs : step cereal r e = some r') :
    Receives cereal r' (taken ++ r.called e) := by
  cases e with
  | onRecvData_ => exact h.onRecvData_ hs
  | conn e =>
    rw [called, List.append_nil]
    by_cases he : e = .handleRead
    · subst he
      obtain ⟨c, -, hc, -⟩ := step_conn_eq hs
      obtain ⟨room, res, hr, -⟩ := startRead_cases hc
      by_cases hok : ∃ data, res = .ok data
      · obtain ⟨data, rfl⟩ := hok
        exact h.succeeded hr hs
      · exact h.failed hr (fun data hd => hok ⟨data, hd⟩) hs
    · exact h.quiet hg he hs

theorem receives_initial {r : PacketImpl P} (hi : Initial r) : Receives cereal r [] := by
  obtain ⟨⟨name, type, connFn, msgFn, closeFn, hc⟩, hentered, hrec⟩ := hi
  obtain ⟨c, entered, received⟩ := r
  obtain rfl : c = _ := hc
  obtain rfl : entered = false := hentered
  obtain rfl : received = [] := hrec
  have h₀ : TcpConn.Initial (handedOver name type (some connFn) (some msgFn) closeFn) :=
    ⟨_, _, _, _, _, rfl⟩
  exact {
    live := liveInv_initial h₀
    fed := ⟨_, (consumes_initial h₀).1⟩
    solid := solid_none rfl
    callbacks := ⟨Option.some_ne_none _, Option.some_ne_none _⟩
    left := by rintro ⟨⟩
    entered := by rintro ⟨⟩
    rpos := rfl
    wpos := fun _ => rfl
    pieces := by simp [handedOver, create, TcpConn.reads]
    handed := ⟨rfl, rfl, by simp⟩ }

theorem run_receives {r₀ r : PacketImpl P} {es : List Event} (hi : Initial r₀)
    (hr : Runs (step cereal) Wired r₀ es r) : Receives cereal r (strings cereal r₀ es) := by
  have hkeep : ∀ es s e t, (Runs (step cereal) Wired r₀ es s ∧
      Receives cereal s (strings cereal r₀ es)) → Wired s e t → step cereal s e = some t →
      Runs (step cereal) Wired r₀ (es ++ [e]) t ∧
        Receives cereal t (strings cereal r₀ (es ++ [e])) := by
    rintro es s e t ⟨hrun, h⟩ hg hs
    refine ⟨hrun.snoc hs hg, ?_⟩
    rw [strings, hrun.outputs_snoc]
    exact step_receives h hg hs
  exact (hr.invariant_history (I := fun es s => Runs (step cereal) Wired r₀ es s ∧
    Receives cereal s (strings cereal r₀ es)) hkeep ⟨.nil r₀, receives_initial hi⟩).2

/-- **One read, one string**: in every run the strings that `OnRecvData_` is called with
are the successful reads, one by one, none of them empty or longer than the buffer; the
packets delivered are what these strings, each taken by itself, decode to. -/
theorem reads_delivered {r₀ r : PacketImpl P} {es : List Event} (hi : Initial r₀)
    (hr : Runs (step cereal) Wired r₀ es r) :
    TcpConn.reads r.conn.trace = strings cereal r₀ es ++ r.waiting ∧
    (∀ s ∈ TcpConn.reads r.conn.trace, s ≠ [] ∧ s.length ≤ defaultSize) ∧
    r.received = deliveries cereal (strings cereal r₀ es) := by
  have h := run_receives hi hr
  exact ⟨h.handed.reads, h.pieces, h.handed.received⟩

theorem reads_delivered_packet : ∃ es r, Runs (step byteCereal) Wired
      ⟨handedOver "conn" .kIncoming (some 0) (some 1) .removeConn, false, []⟩ es r ∧
    TcpConn.reads r.conn.trace = strings byteCereal
      ⟨handedOver "conn" .kIncoming (some 0) (some 1) .removeConn, false, []⟩ es ++ r.waiting ∧
    (∀ s ∈ TcpConn.reads r.conn.trace, s ≠ [] ∧ s.length ≤ defaultSize) ∧
    r.received = deliveries byteCereal (strings byteCereal
      ⟨handedOver "conn" .kIncoming (some 0) (some 1) .removeConn, false, []⟩ es) := by
  have hi : Initial
      (⟨handedOver "conn" .kIncoming (some 0) (some 1) .removeConn, false, []⟩ : PacketImpl UInt8) :=
    ⟨⟨_, _, _, _, _, rfl⟩, rfl, rfl⟩
  obtain ⟨r, hr, -⟩ := @run_chunk UInt8 byteCereal [1, 0, 0, 128, 7] (by simp)
    (by simp [defaultSize])
  have hwired := hr.mono (H := Wired) fun _ _ _ _ hp => hp.2
  exact ⟨_, _, hwired, reads_delivered hi hwired⟩

-- ════════════════════════════════════════════════════════════════════════
-- Two ends
-- ════════════════════════════════════════════════════════════════════════

/-- Packets sent back to back. -/
def encode (cereal : Cereal P) (packets : List P) : Bytes :=
  (packets.map fun p => cereal.serialize (some p)).flatten

theorem encode_flatten (groups : List (List P)) :
    (groups.map (encode cereal)).flatten = encode cereal groups.flatten := by
  induction groups with
  | nil => rfl
  | cons g groups ih =>
    simp only [List.map_cons, List.flatten_cons, ih, encode, List.map_append, List.flatten_append]

/-- Of the packets in one read the first one is delivered, the others are lost. -/
theorem deliveries_encode (h : cereal.Lawful) {groups : List (List P)} (hne : [] ∉ groups) :
    deliveries cereal (groups.map (encode cereal)) = groups.map List.head? := by
  induction groups with
  | nil => rfl
  | cons g groups ih =>
    have ih := ih fun hg => hne (List.mem_cons_of_mem _ hg)
    cases g with
    | nil => exact absurd List.mem_cons_self hne
    | cons p g =>
      have hcons : encode cereal (p :: g) = cereal.serialize (some p) ++ encode cereal g := rfl
      have hhead : (encode cereal (p :: g)).headD 0 = 1 := by
        rw [hcons, List.headD_eq_head?_getD, List.head?_append, h.head p]
        rfl
      have hd : cereal.deserialize (encode cereal (p :: g)) = some (some p) := by
        rw [hcons]
        exact h.whole p _
      rw [List.map_cons, deliveries, if_neg (not_not.mpr hhead), hd, ih]
      rfl

/-- The first elements of some lists, one after the other in what the lists make up. -/
theorem heads_sublist {α : Type*} {groups : List (List α)} (hne : [] ∉ groups) :
    (groups.map List.head?).Sublist (groups.flatten.map some) := by
  induction groups with
  | nil => exact .slnil
  | cons g groups ih =>
    obtain ⟨hg, hrest⟩ := not_or.mp (mt List.mem_cons.mpr hne)
    cases g with
    | nil => exact absurd rfl hg
    | cons x g =>
      rw [List.map_cons, List.flatten_cons, List.cons_append, List.map_cons, List.map_append]
      exact ((ih hrest).trans (List.sublist_append_right _ _)).cons_cons _

/-- The first elements are all there is only if every list has one element. -/
theorem eq_singletons {α : Type*} {groups : List (List α)} {xs : List α} (hne : [] ∉ groups)
    (h : groups.map List.head? = xs.map some) (hpre : groups.flatten <+: xs) :
    groups = xs.map fun x => [x] := by
  induction groups generalizing xs with
  | nil =>
    cases xs with
    | nil => rfl
    | cons => cases h
  | cons g groups ih =>
    obtain ⟨-, hrestne⟩ := not_or.mp (mt List.mem_cons.mpr hne)
    cases xs with
    | nil => cases h
    | cons x xs =>
      obtain ⟨hg, hrest⟩ := List.cons.inj h
      obtain ⟨g, rfl⟩ := List.head?_eq_some_iff.mp hg
      have hlen := hpre.length_le
      have hcount : groups.length = xs.length := by simpa using congrArg List.length hrest
      have hle : groups.length ≤ groups.flatten.length := by
        have hsub := (heads_sublist hrestne).length_le
        rwa [List.length_map, List.length_map] at hsub
      obtain rfl : g = [] := by
        rw [← List.length_eq_zero_iff]
        simp only [List.flatten_cons, List.cons_append, List.length_cons, List.length_append] at hlen
        omega
      rw [List.map_cons, ih hrestne hrest (List.cons_prefix_cons.mp hpre).2]

/-- User code of the end on the right leaves both callbacks set. -/
def WiredRight (l : Link (PacketImpl P) (PacketImpl P)) (e : Link.Event Event Event)
    (l' : Link (PacketImpl P) (PacketImpl P)) : Prop :=
  ∀ e', e = .right e' → Wired l.right e' l'.right

/-- **First of each read**: two ends with the network between them. Wherever no read on the
right ends within a packet, the first packet of each read is delivered, and the others in
it are lost: all packets of the left arrive exactly when each is read by itself. -/
theorem first_of_each_read (h : cereal.Lawful) {l₀ l : Link (PacketImpl P) (PacketImpl P)}
    {es : List (Link.Event Event Event)}
    (h₀ : Link.Initial (host cereal) (host cereal) l₀) (hi : Initial l₀.right)
    (hr : Runs (Link.step (host cereal) (host cereal)) WiredRight l₀ es l) {packets : List P}
    (hsent : payloads l.left.conn.trace = packets.map fun p => cereal.serialize (some p))
    {groups : List (List P)} (hne : [] ∉ groups)
    (hcut : TcpConn.reads l.right.conn.trace = groups.map (encode cereal))
    (hw : l.right.waits = false) :
    l.right.received = groups.map List.head? ∧
    l.right.received.Sublist (packets.map some) ∧
    (l.right.received = packets.map some ↔
      TcpConn.reads l.right.conn.trace = packets.map fun p => cereal.serialize (some p)) := by
  -- what was read on the right is the front of what the left has accepted
  have hsound := Link.run_sound h₀ hr
  have hacc : Accounted l.left.conn l.right.conn l.toRight :=
    hsound.toRight.accounted (hsound.left _ rfl)
  have hstream : encode cereal groups.flatten <+: encode cereal packets := by
    refine ⟨l.right.conn.queued ++ l.toRight.pending ++ l.left.conn.unshipped, ?_⟩
    have hsent' : accepted l.left.conn.trace = encode cereal packets := by
      rw [← flatten_payloads, hsent, encode]
    have hread : TcpConn.received l.right.conn.trace = encode cereal groups.flatten := by
      rw [← flatten_reads, hcut, encode_flatten]
    rw [Accounted, hsent', hread] at hacc
    rw [← hacc, List.append_assoc, List.append_assoc, List.append_assoc]
  have hser : ∀ p, cereal.serialize (some p) ≠ [] := by
    intro p hnil
    have hhead := h.head p
    rw [hnil] at hhead
    cases hhead
  have hpre : groups.flatten <+: packets :=
    (decodes_of_lawful h).prefix_of_flatten hser hstream
  -- and every read was one string
  obtain ⟨fs, hright⟩ := Link.run_of_right hr fun _ e _ hg => hg e rfl
  obtain ⟨hreads, -, hrec⟩ := reads_delivered hi hright
  rw [waiting_of_not hw, List.append_nil] at hreads
  have hfirsts : l.right.received = groups.map List.head? := by
    rw [hrec, ← hreads, hcut, deliveries_encode h hne]
  have hsub := (heads_sublist hne).trans (hpre.sublist.map some)
  refine ⟨hfirsts, hfirsts ▸ hsub, ?_, ?_⟩
  · intro hall
    rw [hcut, eq_singletons hne (hfirsts.symm.trans hall) hpre, List.map_map]
    refine List.map_congr_left fun p _ => ?_
    simp [encode]
  · intro hall
    rw [hrec, ← hreads, hall, deliveries_whole h]

theorem waits_onRecvData_ (cereal : Cereal P) (r : PacketImpl P) :
    (r.onRecvData_ cereal).waits = false := by
  rcases onRecvData_cases cereal r with ⟨-, he⟩ | ⟨-, -, he⟩ | ⟨pPkt, -, -, he⟩
  · simp [he, waits]
  · rw [he]
    rfl
  · simp [he, waits]

theorem trace_onRecvData_ (cereal : Cereal P) (r : PacketImpl P) :
    (r.onRecvData_ cereal).conn.trace = r.conn.trace := by
  rcases onRecvData_cases cereal r with ⟨-, he⟩ | ⟨-, -, he⟩ | ⟨pPkt, -, -, he⟩
  · rw [he]
    rfl
  · rw [he]
    rfl
  · rw [he]
    rfl

/-- One packet is sent, and taken by the socket. -/
theorem steps_sender : ∃ a b : PacketImpl UInt8,
    step byteCereal ⟨handedOver "client" .kOutgoing (some 0) (some 1) .onRemoveConn, false, []⟩
      (.conn (sendPkt byteCereal true (some 7))) = some a ∧
    step byteCereal a (.conn (.writeReady (.ok 5))) = some b ∧
    a.conn.departure (some (.write (.ok 5))) = byteCereal.serialize (some 7) ∧
    payloads b.conn.trace = [byteCereal.serialize (some 7)] := by
  have hsend := step_send_idle (outputInv_initial ⟨"client", .kOutgoing, some 0, some 1,
    .onRemoveConn, rfl⟩).1 rfl rfl (List.cons_ne_nil 1 [0, 0, 128, 7])
  exact ⟨_, _, step_of_conn rfl hsend, step_of_conn rfl (step_writeReady rfl rfl), rfl, rfl⟩

/-- The other end is attached to its loop. -/
theorem steps_receiver : ∃ a b c d : PacketImpl UInt8,
    step byteCereal ⟨handedOver "server-conn#0" .kIncoming (some 0) (some 1) .removeConn, false, []⟩
      (.conn .runPosted) = some a ∧
    step byteCereal a (.conn .resume) = some b ∧
    step byteCereal b (.conn (.readReady (.ok (byteCereal.serialize (some 7))))) = some c ∧
    step byteCereal c (.conn .handleRead) = some d ∧
    d.waits = true ∧
    TcpConn.reads d.conn.trace = [byteCereal.serialize (some 7)] := by
  have hfits : (ReadResult.ok (byteCereal.serialize (some 7))).fits defaultSize = true := by
    simp [ReadResult.fits, byteCereal, defaultSize]
  refine ⟨_, _, _, _, step_of_conn rfl (step_attaching _ _ _ _ _),
    step_of_conn rfl (step_established _ _ _ _ _), step_of_conn rfl (step_readReady rfl hfits),
    step_of_conn rfl (step_handleRead rfl rfl), rfl, rfl⟩

/-- One packet is sent, written and read. -/
theorem first_of_each_read_one : ∃ es l, Runs (Link.step (host byteCereal) (host byteCereal))
      WiredRight
      ⟨⟨handedOver "client" .kOutgoing (some 0) (some 1) .onRemoveConn, false, []⟩,
        ⟨handedOver "server-conn#0" .kIncoming (some 0) (some 1) .removeConn, false, []⟩,
        .empty, .empty⟩ es l ∧
    l.right.received = [[7]].map List.head? ∧
    l.right.received.Sublist ([7].map some) ∧
    (l.right.received = [7].map some ↔ TcpConn.reads l.right.conn.trace =
      [7].map fun p => byteCereal.serialize (some p)) := by
  obtain ⟨a, b, hsend, hwrite, hdep, hsent⟩ := steps_sender
  obtain ⟨c, d, e, f, hattach, hresume, hread, hhandle, hwaits, hreads⟩ := steps_receiver
  let l₀ : Link (PacketImpl UInt8) (PacketImpl UInt8) :=
    ⟨⟨handedOver "client" .kOutgoing (some 0) (some 1) .onRemoveConn, false, []⟩,
      ⟨handedOver "server-conn#0" .kIncoming (some 0) (some 1) .removeConn, false, []⟩,
      .empty, .empty⟩
  have h₀ : Link.Initial (host byteCereal) (host byteCereal) l₀ := by
    refine ⟨?_, ?_, rfl, rfl⟩
    · rintro c' ⟨⟩
      exact ⟨_, _, _, _, _, rfl⟩
    · rintro d' ⟨⟩
      exact ⟨_, _, _, _, _, rfl⟩
  let l₁ : Link (PacketImpl UInt8) (PacketImpl UInt8) := { l₀ with left := a }
  let l₂ : Link (PacketImpl UInt8) (PacketImpl UInt8) := { l₁ with
    left := b
    toRight := l₁.toRight.push (a.conn.departure (some (.write (.ok 5))))
    toLeft := l₁.toLeft.pop 0 }
  let l₃ : Link (PacketImpl UInt8) (PacketImpl UInt8) := { l₂ with right := c }
  let l₄ : Link (PacketImpl UInt8) (PacketImpl UInt8) := { l₃ with right := d }
  let l₅ : Link (PacketImpl UInt8) (PacketImpl UInt8) := { l₄ with
    right := e
    toLeft := l₄.toLeft.push []
    toRight := l₄.toRight.pop 5 }
  let l₆ : Link (PacketImpl UInt8) (PacketImpl UInt8) := { l₅ with right := f }
  let l₇ : Link (PacketImpl UInt8) (PacketImpl UInt8) := { l₆ with right := f.onRecvData_ byteCereal }
  have hnet : reportable (some b.conn) l₄.toRight
      (some (.read (.ok (byteCereal.serialize (some 7))))) = true := by
    have hpending : l₄.toRight.pending = byteCereal.serialize (some 7) := hdep
    rw [reportable, hpending]
    rfl
  have h₁ : Link.step (host byteCereal) (host byteCereal) l₀
      (.left (.conn (sendPkt byteCereal true (some 7)))) = some l₁ :=
    Link.step_left_quiet rfl hsend
  have h₂ : Link.step (host byteCereal) (host byteCereal) l₁
      (.left (.conn (.writeReady (.ok 5)))) = some l₂ :=
    Link.step_left rfl hwrite
  have h₃ : Link.step (host byteCereal) (host byteCereal) l₂
      (.right (.conn .runPosted)) = some l₃ :=
    Link.step_right_quiet rfl hattach
  have h₄ : Link.step (host byteCereal) (host byteCereal) l₃
      (.right (.conn .resume)) = some l₄ :=
    Link.step_right_quiet rfl hresume
  have h₅ : Link.step (host byteCereal) (host byteCereal) l₄
      (.right (.conn (.readReady (.ok (byteCereal.serialize (some 7)))))) = some l₅ :=
    Link.step_right hnet hread
  have h₆ : Link.step (host byteCereal) (host byteCereal) l₅
      (.right (.conn .handleRead)) = some l₆ :=
    Link.step_right_quiet rfl hhandle
  have h₇ : Link.step (host byteCereal) (host byteCereal) l₆
      (.right .onRecvData_) = some l₇ :=
    Link.step_right_quiet rfl (if_pos hwaits : step byteCereal f .onRecvData_ = _)
  have left : ∀ {l e l'}, WiredRight (P := UInt8) l (.left e) l' := by
    rintro l e l' e' ⟨⟩
  have right : ∀ {l l' : Link (PacketImpl UInt8) (PacketImpl UInt8)} {e},
      e ≠ .conn (.setConnCallback none) ∧ e ≠ .conn (.setMessageCallback none) →
      WiredRight l (.right e) l' := by
    rintro l l' e hg e' ⟨⟩
    exact hg
  have hr : Runs (Link.step (host byteCereal) (host byteCereal)) WiredRight l₀ _ l₇ :=
    .cons h₁ left (.cons h₂ left (.cons h₃ (right (by simp)) (.cons h₄ (right (by simp))
      (.cons h₅ (right (by simp)) (.cons h₆ (right (by simp)) (.single h₇ (right (by simp))))))))
  have hreads' : TcpConn.reads l₇.right.conn.trace = [[7]].map (encode byteCereal) :=
    (congrArg TcpConn.reads (trace_onRecvData_ byteCereal f)).trans hreads
  have hall := @first_of_each_read _ _ byteCereal_lawful _ _ _ h₀ ⟨⟨_, _, _, _, _, rfl⟩, rfl, rfl⟩ hr
    [7] hsent [[7]] (by simp) hreads' (waits_onRecvData_ byteCereal f)
  exact ⟨_, _, hr, hall⟩

end PacketImpl

end Libasio
