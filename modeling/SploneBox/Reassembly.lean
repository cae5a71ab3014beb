/-
# SploneBox.Reassembly — where the reassembly loop writes.

`parse_cb` counts the bytes it may still take in `read`, which `inputstream_get_read` set to the bytes up
to the end of the ring, and sizes the packet block and the unpacker's space by the larger of that number
and the first packet's length. `inputstream_read` does not stop at the end of the ring. As long as no turn
of the loop reaches over it, `read` stays the number of contiguous unread bytes (`LoopBounds`), and every
write stays in its block, however many packets follow the first one and whatever an earlier callback left
behind; the first turn that reaches over it makes `read` wrap.

`turns_in_bounds_iff`: on every run, all turns are in bounds exactly if none reaches over the end.
-/
import SploneBox.Client

namespace SploneBox

open Lib.Machine Lib.Memory

/-! ## §1 One turn -/

/-- **The bounds of a turn**: `read -= packet.start` does not wrap, the copy stays in the packet block,
the plaintext stays in the reserved space. -/
def Turn.InBounds (τ : Turn) : Prop :=
  τ.start ≤ τ.read ∧ τ.pos + τ.start ≤ τ.room ∧ τ.consumedlen + τ.plaintextlen ≤ τ.room

/-- The bytes the turn takes reach over the end of the ring. -/
def Turn.Straddles (τ : Turn) : Prop := τ.contiguous < min τ.end_ τ.pending

instance (τ : Turn) : Decidable τ.InBounds := by
  unfold Turn.InBounds
  infer_instance

instance (τ : Turn) : Decidable τ.Straddles := by
  unfold Turn.Straddles
  infer_instance

variable {S : Server}

/-- The counters of the loop while no turn has reached over the end of the ring. -/
structure LoopBounds (l : Loop) : Prop where
  wf : l.Wf
  small : l.istream.capacity < 2 ^ 64
  read : l.read = min l.istream.size (l.istream.capacity - l.istream.readPos)
  block : l.packet.pos + l.read ≤ l.room
  consumed : l.plain.length ≤ l.packet.pos
  plain : l.plain.length + l.packet.length ≤ l.packet.pos + l.packet.end_

theorem nextHeader_turns (l : Loop) : (nextHeader S l).1.turns = l.turns := by
  rcases nextHeader_cases (S := S) l with hq | ⟨_, _, _, _, _, ⟨_, hq⟩ | ⟨_, hq⟩⟩ <;> rw [hq]

/-- The record of a turn: it takes the bytes still missing or all unread bytes, and writes at most the
packet without its 56 bytes of overhead, and that only if it does not leave an incomplete packet. -/
theorem parseTurn_turns {l : Loop} (hw : l.istream.Wf) {d : Nat → UInt8} (hd : l.packet.data = some d)
    (alloc : Bool) :
    ∃ n, (parseTurn S l alloc).1.turns = l.turns ++ [l.turn (min l.packet.end_ l.istream.size) n] ∧
      (n = 0 ∨ (n ≤ l.packet.length - 56 ∧ (l.istream.size < l.packet.end_ →
        (l.read + 2 ^ 64 - min l.packet.end_ l.istream.size) % 2 ^ 64 ≠ 0))) := by
  obtain ⟨l₁, d₁, h₁, ht⟩ := takeBytes_spec hw d
  have hstart : l₁.packet.start = min l.packet.end_ l.istream.size := by rw [ht.frame]
  have hend : l₁.packet.end_ = l.packet.end_ - min l.packet.end_ l.istream.size := by rw [ht.frame]
  have hread : l₁.read = (l.read + 2 ^ 64 - min l.packet.end_ l.istream.size) % 2 ^ 64 := by
    rw [ht.frame]
  have hm : ∀ cc m, readPacket S l₁.cc l₁.packet d₁ alloc = some (cc, m) →
      m.length ≤ l.packet.length - 56 := by
    intro cc m hopen
    have hlength : l₁.packet.length = l.packet.length := by rw [ht.frame]
    rw [← hlength]
    exact (cryptoRead_some hopen).2.1
  rcases parseTurn_cases (S := S) hd alloc h₁ with
    ⟨_, hp⟩ | ⟨_, _, hp⟩ | ⟨cc, m, hopen, ⟨_, he, hp⟩ | ⟨hiff, hp⟩⟩
  · exact ⟨0, by rw [hp, ← hstart]; rfl, Or.inl rfl⟩
  · exact ⟨0, by rw [hp, ← hstart]; rfl, Or.inl rfl⟩
  · exact ⟨m.length, by rw [hp, nextHeader_turns, ← hstart]; rfl,
      Or.inr ⟨hm cc m hopen, fun hlt => by omega⟩⟩
  · exact ⟨m.length, by rw [hp, ← hstart]; rfl, Or.inr ⟨hm cc m hopen, fun hlt => by omega⟩⟩

/-- **A turn is in bounds exactly if it does not reach over the end of the ring.** -/
theorem turn_inBounds_iff {l : Loop} (h : LoopBounds l) {d : Nat → UInt8}
    (hd : l.packet.data = some d) {n : Nat}
    (hn : n = 0 ∨ (n ≤ l.packet.length - 56 ∧ (l.istream.size < l.packet.end_ →
      (l.read + 2 ^ 64 - min l.packet.end_ l.istream.size) % 2 ^ 64 ≠ 0))) :
    (l.turn (min l.packet.end_ l.istream.size) n).InBounds ↔
      ¬ (l.turn (min l.packet.end_ l.istream.size) n).Straddles := by
  obtain ⟨⟨hring, hlive⟩, hsmall, hread, hblock, hconsumed, hplain⟩ := h
  obtain ⟨hend, hsize⟩ := hlive d hd
  have hrp := hring.readPos_lt
  simp only [Turn.InBounds, Turn.Straddles, Loop.turn, not_lt]
  constructor
  · rintro ⟨hstart, _, _⟩
    omega
  · intro hfit
    have hstart : min l.packet.end_ l.istream.size ≤ l.read := by omega
    refine ⟨hstart, by omega, ?_⟩
    rcases hn with rfl | ⟨hle, hpart⟩
    · omega
    · -- the packet is complete, for an incomplete one has emptied the ring and `read` with it
      have hwhole : l.packet.end_ ≤ l.istream.size := by
        by_contra hlt
        refine hpart (by omega) ?_
        have hzero : l.read + 2 ^ 64 - min l.packet.end_ l.istream.size = 2 ^ 64 := by omega
        rw [hzero, Nat.mod_self]
      omega

/-- A turn that stays in front of the end keeps the counters right, as long as the loop goes on. -/
theorem parseTurn_bounds {l : Loop} (h : LoopBounds l) {d : Nat → UInt8}
    (hd : l.packet.data = some d) (alloc : Bool)
    (hfit : min l.packet.end_ l.istream.size ≤ l.istream.capacity - l.istream.readPos)
    (hagain : (parseTurn S l alloc).2 = .again) :
    (parseTurn S l alloc).1.read = 0 ∨ LoopBounds (parseTurn S l alloc).1 := by
  obtain ⟨hend, hsize⟩ := h.wf.live d hd
  obtain ⟨l₁, d₁, h₁, ht⟩ := takeBytes_spec h.wf.ring d
  have hwf := ((parseTurn_wf (S := S) h.wf alloc).2.2 hagain).1
  have hrp := h.wf.ring.readPos_lt
  have hsmall := h.small
  have hread := h.read
  have hlread : l₁.read = l.read - min l.packet.end_ l.istream.size := by
    have hmod : l₁.read = (l.read + 2 ^ 64 - min l.packet.end_ l.istream.size) % 2 ^ 64 := by
      rw [ht.frame]
    rw [hmod]
    have hle : min l.packet.end_ l.istream.size ≤ l.read := by omega
    have hlt : l.read < 2 ^ 64 := by omega
    rw [Nat.sub_add_comm hle, Nat.add_mod_right, Nat.mod_eq_of_lt (by omega)]
  have hlend : l₁.packet.end_ = l.packet.end_ - min l.packet.end_ l.istream.size := by rw [ht.frame]
  rcases parseTurn_cases (S := S) hd alloc h₁ with
    ⟨_, hp⟩ | ⟨_, _, hp⟩ | ⟨cc, m, hopen, ⟨hpos, he, hp⟩ | ⟨hiff, hp⟩⟩
  · rw [hp] at hagain
    cases hagain
  · rw [hp] at hagain
    cases hagain
  · -- a complete packet with more bytes behind it: the next header gives the new length
    have hm : m.length ≤ l.packet.length := by
      have hle := (cryptoRead_some hopen).2.1
      have hlength : l₁.packet.length = l.packet.length := by rw [ht.frame]
      omega
    have hfields : l₁.packet.pos = l.packet.pos + min l.packet.end_ l.istream.size ∧
        l₁.plain = l.plain ∧ l₁.room = l.room := by
      rw [ht.frame]
      exact ⟨rfl, rfl, rfl⟩
    have hreadPos : l₁.istream.readPos
        = l.istream.readPos + min l.packet.end_ l.istream.size := by
      rw [ht.readPos, Nat.mod_eq_of_lt (by omega)]
    have hlsize := ht.size
    have hlcap := ht.capacity
    have hblock := h.block
    have hplain := h.plain
    rw [hp] at hagain hwf ⊢
    rcases nextHeader_cases (S := S) (l.opened l₁ d₁ cc m) with
      hq | ⟨_, r, _, _, _, ⟨_, hq⟩ | ⟨_, hq⟩⟩
    · rw [hq] at hagain
      cases hagain
    · rw [hq] at hagain
      cases hagain
    · rw [hq] at hwf ⊢
      refine Or.inr ⟨hwf, ?_, ?_, ?_, ?_, ?_⟩
      · simpa only [Loop.opened, Loop.copied, hlcap] using hsmall
      · simp only [Loop.opened, Loop.copied]
        omega
      · simp only [Loop.opened, Loop.copied, store_pos]
        omega
      · simp only [Loop.opened, Loop.copied, store_pos, List.length_append, hfields.2.1]
        omega
      · simp only [Loop.opened, Loop.copied, store_pos, List.length_append, hfields.2.1]
        omega
  · rw [hp]
    left
    simp only [Loop.opened, Loop.copied]
    omega

/-! ## §2 The loop -/

/-- Two properties of turns that hold together of a whole list. -/
def BoundsIff (turns : List Turn) : Prop :=
  (∀ τ ∈ turns, τ.InBounds) ↔ ∀ τ ∈ turns, ¬ τ.Straddles

theorem BoundsIff.nil : BoundsIff [] := by simp [BoundsIff]

theorem BoundsIff.append {a b : List Turn} (ha : BoundsIff a) (hb : BoundsIff b) :
    BoundsIff (a ++ b) := by
  simp only [BoundsIff, List.forall_mem_append] at ha hb ⊢
  rw [ha, hb]

/-- A turn that reaches over the end of the ring is out of bounds, so what follows it does not matter. -/
theorem BoundsIff.of_straddles {τ : Turn} (hiff : τ.InBounds ↔ ¬ τ.Straddles) (hs : τ.Straddles)
    (rest : List Turn) : BoundsIff (τ :: rest) := by
  simp only [BoundsIff, List.forall_mem_cons]
  constructor
  · exact fun h => absurd hs (hiff.mp h.1)
  · exact fun h => absurd hs h.1

/-- The loop only adds to the record. -/
theorem parseLoop_turns {l : Loop} (h : l.Wf) (alloc : Nat → Bool) (fuel : Nat) :
    ∃ new, (parseLoop S alloc fuel l).1.turns = l.turns ++ new := by
  have hturn : ∀ l' a, l'.Wf → ∃ new, (parseTurn S l' a).1.turns = l'.turns ++ new := by
    intro l' a h'
    cases hd : l'.packet.data with
    | none =>
        refine ⟨[], ?_⟩
        unfold parseTurn
        rw [hd, List.append_nil]
    | some d =>
        obtain ⟨n, hn, _⟩ := parseTurn_turns (S := S) h'.ring hd a
        exact ⟨_, hn⟩
  refine parseLoop_rule (I := fun l' => l'.Wf ∧ ∃ new, l'.turns = l.turns ++ new)
    (Q := fun x => ∃ new, x.1.turns = l.turns ++ new) ?_ ?_ ?_ fuel l ⟨h, [], by simp⟩
  · exact fun l' h' => h'.2
  · rintro l' a ⟨hw, new, hnew⟩ hagain
    obtain ⟨new', hnew'⟩ := hturn l' a hw
    exact ⟨((parseTurn_wf (S := S) hw a).2.2 hagain).1, new ++ new',
      by rw [hnew', hnew, List.append_assoc]⟩
  · rintro l' a ⟨hw, new, hnew⟩ _
    obtain ⟨new', hnew'⟩ := hturn l' a hw
    exact ⟨new ++ new', by rw [hnew', hnew, List.append_assoc]⟩

/-- **The turns of a loop are in bounds exactly if none reaches over the end of the ring.** -/
theorem parseLoop_bounds (alloc : Nat → Bool) :
    ∀ (fuel : Nat) (l : Loop), l.read = 0 ∨ LoopBounds l →
      ∃ new, (parseLoop S alloc fuel l).1.turns = l.turns ++ new ∧ BoundsIff new
  | 0, l, _ => ⟨[], by simp [parseLoop], BoundsIff.nil⟩
  | fuel + 1, l, h => by
      unfold parseLoop
      split
      · exact ⟨[], by simp, BoundsIff.nil⟩
      rename_i h0
      have hb : LoopBounds l := h.resolve_left h0
      cases hd : l.packet.data with
      | none =>
          have hturn : parseTurn S l (alloc fuel) = (l, .aborted) := by
            unfold parseTurn
            rw [hd]
          rw [hturn]
          exact ⟨[], by simp, BoundsIff.nil⟩
      | some d =>
          obtain ⟨n, hrec, hn⟩ := parseTurn_turns (S := S) hb.wf.ring hd (alloc fuel)
          have hiff := turn_inBounds_iff hb hd hn
          have hwf := parseTurn_wf (S := S) hb.wf (alloc fuel)
          have hnext := parseTurn_bounds (S := S) hb hd (alloc fuel)
          rcases hp : parseTurn S l (alloc fuel) with ⟨l', next⟩
          rw [hp] at hrec hwf hnext
          have hone : BoundsIff [l.turn (min l.packet.end_ l.istream.size) n] := by
            simpa only [BoundsIff, List.forall_mem_singleton] using hiff
          cases next with
          | ended => exact ⟨_, hrec, hone⟩
          | aborted => exact ⟨_, hrec, hone⟩
          | again =>
              by_cases hs : (l.turn (min l.packet.end_ l.istream.size) n).Straddles
              · obtain ⟨new, hnew⟩ := parseLoop_turns (S := S) (hwf.2.2 rfl).1 alloc fuel
                refine ⟨_, ?_, BoundsIff.of_straddles hiff hs new⟩
                rw [hnew, hrec, List.append_assoc]
                rfl
              · have hfit := not_lt.mp hs
                obtain ⟨new, hnew, hbounds⟩ := parseLoop_bounds alloc fuel l' (hnext hfit rfl)
                refine ⟨_, ?_, hone.append hbounds⟩
                rw [hnew, hrec, List.append_assoc]

/-! ## §3 Runs -/

theorem firstTurn_bounds {t : Tunnel} {data : Bytes} {r : HeaderResult} (env : ReadEnv)
    (h : t.istream.Wf) (hcap : t.istream.capacity = 0xffff) (hsize : t.istream.size ≠ 0)
    (hr : r = cryptoVerifyHeader S t.cc data) (hok : r.ok = true) (hpos : t.packet.pos = 0) :
    LoopBounds (firstTurn t env data r (inputstreamGetRead t.istream).2) where
  wf := firstTurn_wf env _ h hsize hr hok
  small := by
    simp only [firstTurn]
    omega
  read := inputstreamGetRead_count h
  block := by
    simp only [firstTurn, store_pos, hpos]
    omega
  consumed := by simp [firstTurn]
  plain := by
    simp only [firstTurn, store_pos, hpos, List.length_nil]
    omega

/-- What a run keeps: a well-formed ring, a packet that is quiet between callbacks, and the bounds. -/
structure ReassemblyInv (t : Tunnel) : Prop where
  ring : t.istream.Wf ∧ t.istream.capacity = 0xffff
  quiet : t.packet.Quiet
  bounds : BoundsIff t.history.turns

theorem reassembly_closed : Closed S ReassemblyInv where
  segment :=
    fun t seg behind h hfit => ⟨ring_closed.segment (S := S) t seg behind h.ring hfit, h.quiet, h.bounds⟩
  hello := fun t env h hst => ⟨ring_closed.hello (S := S) t env h.ring hst, h.quiet, h.bounds⟩
  initiate := fun t env h hst => ⟨ring_closed.initiate (S := S) t env h.ring hst, h.quiet, h.bounds⟩
  messages := by
    intro t env h
    have hring := ring_closed.messages (S := S) t env h.ring
    rcases parseMessages_cases (S := S) t env with
      ⟨hp, _⟩ | ⟨hp, _⟩ | ⟨data, r, _, hr, hsize, _, hend, ⟨packet, hq, _, hp⟩ | ⟨hok, _, _, hp⟩⟩
    · rw [hp]
      exact h
    · rw [hp]
      exact h
    · rw [hp]
      exact ⟨h.ring, hq, h.bounds⟩
    · have hfirst := firstTurn_bounds env h.ring.1 h.ring.2 hsize hr hok (h.quiet hend)
      obtain ⟨new, hnew, hbounds⟩ := parseLoop_bounds (S := S) env.readAlloc
        (t.istream.size + 2) _ (Or.inr hfirst)
      rw [hp] at hring ⊢
      refine ⟨hring, ?_, ?_⟩
      · rw [finishLoop_packet]
        refine parseLoop_quiet (quiet_of_pos ?_) _ _
        have hlen := store_length_of_ok hr hok t.packet
        simp only [firstTurn]
        omega
      · rw [finishLoop_history, hnew]
        exact h.bounds.append hbounds
  clearKey := fun _ h => ⟨h.ring, h.quiet, h.bounds⟩
  close := fun _ h => ⟨h.ring, h.quiet, h.bounds⟩
  halt := fun _ h => ⟨h.ring, h.quiet, h.bounds⟩
  tick := fun _ _ h => ⟨h.ring, h.quiet, h.bounds⟩
  write := fun _ _ _ h _ => ⟨h.ring, h.quiet, h.bounds⟩

theorem connectionCreate_reassembly (env : CreateEnv) : ReassemblyInv (connectionCreate env) :=
  ⟨connectionCreate_ring env, fun _ => rfl, BoundsIff.nil⟩

/-- **Reassembly stays in bounds exactly in front of the end of the ring.** For every connection, every
byte stream and every segmentation of it: in every turn of the reassembly loop `read` does not wrap, the
packet block and the unpacker's space are not overrun, if and only if no turn takes bytes from both sides
of the end of the ring. -/
theorem turns_in_bounds_iff (env : CreateEnv) (es : List Event) (t : Tunnel)
    (h : exec (step S) (connectionCreate env) es = some t) :
    (∀ τ ∈ t.history.turns, τ.InBounds) ↔ ∀ τ ∈ t.history.turns, ¬ τ.Straddles := by
  have hstep : ∀ s e s', ReassemblyInv s → step S s e = some s' → ReassemblyInv s' :=
    fun s e s' hs => reassembly_closed.step hs
  exact ((always_of_step hstep (connectionCreate_reassembly env)).exec h).bounds

/-- A connection that receives one message packet: the condition holds, and so do the bounds. -/
theorem turns_in_bounds_sample :
    ∃ t, exec (step Sample.server) (connectionCreate Sample.create)
        (Sample.handshake ++
          [.read (messagePacket Sample.server Sample.session 5 [42]) Sample.env]) = some t ∧
      t.history.turns.length = 1 ∧ ∀ τ ∈ t.history.turns, τ.InBounds := by
  have hrun : (exec (step Sample.server) (connectionCreate Sample.create)
      (Sample.handshake ++
        [.read (messagePacket Sample.server Sample.session 5 [42]) Sample.env])).any
      (fun t => decide (t.history.turns.length = 1 ∧ ∀ τ ∈ t.history.turns, ¬ τ.Straddles)) = true := by
    rw [exec_append_of Sample.exec_handshake]
    decide +kernel
  obtain ⟨t, hex, ht⟩ := (Option.any_eq_true _ _).mp hrun
  obtain ⟨hlen, hfit⟩ := of_decide_eq_true ht
  exact ⟨t, hex, hlen, (turns_in_bounds_iff _ _ t hex).mpr hfit⟩

/-! ## §4 A packet over the end of the ring -/

namespace Sample

/-- The new connection with its empty ring at position `p`. -/
def parked (p : Nat) : Tunnel :=
  { connectionCreate create with istream := ⟨fun _ => 0, 0xffff, p, p, 0, true⟩ }

theorem store_zeros (p n : Nat) : store (fun _ => (0 : UInt8)) p (zeros n) = fun _ => 0 := by
  funext i
  unfold store
  split
  · simp only [zeros, List.getElem?_replicate]
    split <;> rfl
  · rfl

theorem slice_zeros (i n : Nat) : slice (fun _ => (0 : UInt8)) i n = zeros n := by
  simp [slice, zeros]

/-- A segment of zeros is read as a hello packet and refused: it moves the ring and nothing else. -/
theorem parked_step {p n : Nat} (hn : 0 < n) (hn' : n ≤ 192) (hp : p + n < 0xffff) :
    step server (parked p) (.read (zeros n) env) = some (parked (p + n)) := by
  have halloc : inputstreamAllocCb (parked p).istream = 0xffff - p := by
    simp [inputstreamAllocCb, parked]
  have hseg : zeros n ≠ [] := by
    intro h
    have := congrArg List.length h
    simp at this
    omega
  have hcb : (inputstreamReadCb (parked p).istream (zeros n)).withBehind env.behind
      = ⟨fun _ => 0, 0xffff, p, p + n, n, true⟩ := by
    have hfull : 0xffff - (0 + n) ≠ 0 := by omega
    have hwrap : ¬ p + n ≥ 0xffff := by omega
    simp only [inputstreamReadCb, parked, store_zeros, zeros_length, hwrap, if_neg hfull, if_false,
      Inputstream.withBehind, env, ite_self]
    rw [Nat.zero_add]
  have hread : inputstreamRead ⟨fun _ => 0, 0xffff, p, p + n, n, true⟩ 192
      = (⟨fun _ => 0, 0xffff, p + n, p + n, 0, true⟩, zeros n) := by
    have hget : (inputstreamGetRead ⟨fun _ => 0, 0xffff, p, p + n, n, true⟩).2 = n := by
      have hn0 : n ≠ 0 := by omega
      have hlt : p < p + n := by omega
      simp [inputstreamGetRead, inputstreamPending, hn0, hlt]
    have hadv : inputstreamAdvance ⟨fun _ => 0, 0xffff, p, p + n, n, true⟩ n
        = ⟨fun _ => 0, 0xffff, p + n, p + n, 0, true⟩ := by
      have hwrap : ¬ p + n ≥ 0xffff := by omega
      simp only [inputstreamAdvance, hwrap, if_false, Nat.sub_self, Bool.true_or]
    unfold inputstreamRead inputstreamReadLoop
    rw [if_neg (by dsimp only; omega)]
    dsimp only
    rw [hget, Nat.min_eq_right hn', slice_zeros, hadv]
    split
    · rfl
    · obtain ⟨k, rfl⟩ := Nat.exists_eq_succ_of_ne_zero (by omega : n ≠ 0)
      simp [inputstreamReadLoop]
  have hpacket : stackBuffer 192 (zeros n) env.stale = zeros 192 := by
    simp only [stackBuffer, Buffer.copy, env, List.drop_nil, List.append_nil, zeros,
      List.replicate_append_replicate, List.take_replicate]
    congr 1
  have hrun : parseHello server ((parked p).arrived (zeros n) env) env = parked (p + n) := by
    have hno : cryptoRecvHelloSendCookie server (parked p).cc (zeros 192) env.hello
        = ⟨(parked p).cc, none, none, false⟩ := by
      unfold cryptoRecvHelloSendCookie
      rw [if_pos (by decide)]
    simp only [parseHello, Tunnel.arrived, hcb, hread, hpacket, hno]
    simp [parked, connectionCreate]
  have hguard : ¬ ((parked p).halted = true ∨ (parked p).closed = true ∨ zeros n = [] ∨
      inputstreamAllocCb (parked p).istream < (zeros n).length) := by
    rw [halloc, zeros_length]
    simp [parked, connectionCreate, hseg]
    omega
  simp only [step]
  rw [if_neg hguard]
  exact congrArg some hrun

/-- Any number of them. -/
theorem parked_run (k : Nat) : ∀ p, p + 192 * k < 0xffff →
    exec (step server) (parked p) (List.replicate k (.read (zeros 192) env))
      = some (parked (p + 192 * k)) := by
  induction k with
  | zero => exact fun p _ => rfl
  | succ k ih =>
      intro p hp
      refine exec_cons.mpr ⟨_, parked_step (by omega) (by omega) (by omega), ?_⟩
      rw [ih (p + 192) (by omega)]
      congr 2
      omega

/-- A packet with a forged payload, 150 bytes in front of the end of the ring. The loop leaves behind it
what has arrived of the next packet. -/
def forgedPacket : Bytes := messageHeader server session 5 56 ++ zeros 16

/-- The next packet, of 100 bytes: 94 of them are in front of the end. -/
def nextPacket : Bytes := messagePacket server session 7 (zeros 44)

/-- Refused hellos that bring the ring to position 64937, the handshake, and the two packets. -/
def overTheEnd : List Event :=
  List.replicate 338 (.read (zeros 192) env) ++ (.read (zeros 41) env ::
    (handshake ++ [.read (forgedPacket ++ nextPacket.take 94) env, .read (nextPacket.drop 94) env]))

end Sample

/-- The turn that collects a packet from both sides of the end of the ring takes 100 bytes while `read`
is 94. -/
theorem read_wraps_over_the_end :
    ∃ t, exec (step Sample.server) (connectionCreate Sample.create) Sample.overTheEnd = some t ∧
      ∃ τ ∈ t.history.turns, τ.read = 94 ∧ τ.start = 100 ∧ ¬ τ.InBounds := by
  have hrun : (exec (step Sample.server) (Sample.parked 64937) (Sample.handshake ++
      [.read (Sample.forgedPacket ++ Sample.nextPacket.take 94) Sample.env,
        .read (Sample.nextPacket.drop 94) Sample.env])).any
      (fun t => decide (∃ τ ∈ t.history.turns, τ.read = 94 ∧ τ.start = 100 ∧ ¬ τ.InBounds)) = true := by
    decide +kernel
  obtain ⟨t, hex, ht⟩ := (Option.any_eq_true _ _).mp hrun
  refine ⟨t, exec_append.mpr ⟨_, Sample.parked_run 338 0 (by decide), exec_cons.mpr ⟨_, ?_, hex⟩⟩,
    of_decide_eq_true ht⟩
  exact Sample.parked_step (by decide) (by decide) (by decide)

end SploneBox
