/-
# SploneBox.Uninitialised — what decisions can see of memory that was never written.

Two runs of a connection get the same segments, the same answers from outside and the same random bytes, and
differ in the contents of uninitialised memory: the two stack buffers, the ring before it is filled, the heap
behind the ring, the block for a packet, and the fields that `connection_create` does not set. `SameTunnel` is
what they have in common. In the initial state the short-term keys may differ, until the session is
established the session key and the plugin key may, and of the ring and of the packet block only what was
received is the same.

The readers of the source ask for a fixed number of bytes and use as many whether they came or not. So the two
runs stay together as long as what is read was received (`Whole`): 192 bytes for a hello, 256 for an initiate
packet that is then accepted, 40 in one piece for every header, and every byte of a packet that is opened. A
rejected initiate packet is followed by a lookup of the plugin key that nobody has written.
-/
import SploneBox.Reassembly
import SploneBox.Replay

namespace SploneBox

open Lib.Machine Lib.Memory

variable {S : Server}

/-! ## §1 Rings and packets -/

/-- The same queue at the same place. -/
structure SameRing (s s' : Inputstream) : Prop where
  capacity : s'.capacity = s.capacity
  readPos : s'.readPos = s.readPos
  size : s'.size = s.size
  wf : s.Wf
  wf' : s'.Wf
  unread : s'.unread = s.unread

theorem SameRing.writePos {s s' : Inputstream} (h : SameRing s s') : s'.writePos = s.writePos := by
  rw [h.wf.writePos_eq, h.wf'.writePos_eq, h.readPos, h.size, h.capacity]

theorem SameRing.allocCb {s s' : Inputstream} (h : SameRing s s') :
    inputstreamAllocCb s' = inputstreamAllocCb s := by
  unfold inputstreamAllocCb
  rw [h.size, h.capacity, h.writePos, h.readPos]

theorem SameRing.getRead {s s' : Inputstream} (h : SameRing s s') :
    inputstreamGetRead s' = inputstreamGetRead s := by
  unfold inputstreamGetRead inputstreamPending
  rw [h.size, h.capacity, h.writePos, h.readPos]

theorem SameRing.readCb {s s' : Inputstream} (h : SameRing s s') {seg : Bytes}
    (hfit : seg.length ≤ inputstreamAllocCb s) :
    SameRing (inputstreamReadCb s seg) (inputstreamReadCb s' seg) := by
  obtain ⟨hwf, hunread⟩ := inputstreamReadCb_spec h.wf hfit
  obtain ⟨hwf', hunread'⟩ := inputstreamReadCb_spec h.wf' (h.allocCb ▸ hfit)
  refine ⟨h.capacity, h.readPos, ?_, hwf, hwf', ?_⟩
  · simp only [inputstreamReadCb]
    rw [h.size]
  · rw [hunread, hunread', h.unread]

theorem SameRing.withBehind {s s' : Inputstream} (h : SameRing s s') (behind behind' : Nat → UInt8) :
    SameRing (s.withBehind behind) (s'.withBehind behind') := by
  refine ⟨h.capacity, h.readPos, h.size, withBehind_wf h.wf behind, withBehind_wf h.wf' behind', ?_⟩
  rw [withBehind_unread h.wf, withBehind_unread h.wf', h.unread]

/-- Both runs take the same bytes from the ring. -/
theorem SameRing.read {s s' : Inputstream} (h : SameRing s s') (count : Nat) :
    (inputstreamRead s' count).2 = (inputstreamRead s count).2 ∧
      SameRing (inputstreamRead s count).1 (inputstreamRead s' count).1 := by
  have hspec := inputstreamRead_spec h.wf count
  have hspec' := inputstreamRead_spec h.wf' count
  refine ⟨?_, ?_, ?_, ?_, hspec.wf, hspec'.wf, ?_⟩
  · rw [hspec.bytes, hspec'.bytes, h.unread]
  · rw [hspec.capacity, hspec'.capacity, h.capacity]
  · rw [hspec.readPos, hspec'.readPos, h.readPos, h.size, h.capacity]
  · rw [hspec.size, hspec'.size, h.size]
  · rw [hspec.unread, hspec'.unread, h.unread]

/-- The 40 bytes of a header have been received, in one piece. -/
def WholeHeader (s : Inputstream) : Prop := s.size = 0 ∨ 40 ≤ s.size ∧ s.readPos + 40 ≤ s.capacity

theorem SameRing.header {s s' : Inputstream} (h : SameRing s s') (hw : WholeHeader s) (hne : s.size ≠ 0) :
    slice s'.mem s'.readPos 40 = slice s.mem s.readPos 40 := by
  obtain ⟨hsize, hend⟩ := hw.resolve_left hne
  have htake : ∀ r : Inputstream, 40 ≤ r.size → r.readPos + 40 ≤ r.capacity →
      slice r.mem r.readPos 40 = r.unread.take 40 := by
    intro r hr hrend
    rw [Inputstream.unread, window_take _ _ _ _ _ hr, window_eq_slice hrend]
  rw [htake s hsize hend, htake s' (by rw [h.size]; exact hsize) (by rw [h.readPos, h.capacity]; exact hend),
    h.unread]

/-- The stack buffer holds nothing but what was received. -/
theorem stackBuffer_whole {n : Nat} {got : Bytes} (h : n ≤ got.length) (stale stale' : Bytes) :
    stackBuffer n got stale' = stackBuffer n got stale := by
  unfold stackBuffer
  rw [Buffer.copy_bytes (by simp; omega), Buffer.copy_bytes (by simp; omega),
    List.take_append_of_le_length h, List.take_append_of_le_length h]

/-- The same packet: the counters, and of the block what has been copied into it. -/
structure SamePacket (p p' : Packet) : Prop where
  start : p'.start = p.start
  end_ : p'.end_ = p.end_
  pos : p'.pos = p.pos
  data : p.data = none ∧ p'.data = none ∨ ∃ d d', p.data = some d ∧ p'.data = some d' ∧
    slice d' 0 p.pos = slice d 0 p.pos ∧ p'.length = p.length

theorem samePacket_reset {p p' : Packet} : SamePacket (resetParser p) (resetParser p') :=
  ⟨rfl, rfl, rfl, Or.inl ⟨rfl, rfl⟩⟩

theorem SamePacket.resetPacket {p p' : Packet} (h : SamePacket p p') :
    SamePacket (resetPacket p) (resetPacket p') := by
  refine ⟨rfl, rfl, rfl, ?_⟩
  rcases h.data with hnone | ⟨d, d', hd, hd', _, hlen⟩
  · exact Or.inl hnone
  · exact Or.inr ⟨d, d', hd, hd', rfl, hlen⟩

/-- A header that is stored gives both packets its length. -/
theorem SamePacket.store {p p' : Packet} (h : SamePacket p p') (r : HeaderResult) :
    SamePacket (p.store r) (p'.store r) := by
  unfold Packet.store
  split
  · refine ⟨h.start, h.end_, h.pos, ?_⟩
    rcases h.data with hnone | ⟨d, d', hd, hd', hslice, _⟩
    · exact Or.inl hnone
    · exact Or.inr ⟨d, d', hd, hd', hslice, rfl⟩
  · exact h

/-- A header that is accepted has stored a length, whatever was there before. -/
theorem store_length_eq {cc : CryptoContext} {data : Bytes} {r : HeaderResult}
    (hr : r = cryptoVerifyHeader S cc data) (hok : r.ok = true) (p p' : Packet) :
    (p'.store r).length = (p.store r).length := by
  rcases cryptoVerifyHeader_cases (S := S) cc data with h | ⟨length, _, _, h⟩
  · rw [hr, h] at hok
    cases hok
  · rw [hr, h]
    rfl

/-- The next packet is expected, with the length that was stored. -/
theorem SamePacket.expect {p p' : Packet} (h : SamePacket p p') (hlen : p'.length = p.length) :
    SamePacket { p with end_ := p.length } { p' with end_ := p'.length } :=
  ⟨h.start, hlen, h.pos, h.data⟩

/-! ## §2 The reassembly loop -/

/-- The loop variables of two runs. -/
structure SameLoop (l l' : Loop) : Prop where
  cc : l'.cc = l.cc
  ring : SameRing l.istream l'.istream
  packet : SamePacket l.packet l'.packet
  read : l'.read = l.read
  plain : l'.plain = l.plain
  room : l'.room = l.room
  accepted : l'.accepted = l.accepted
  turns : l'.turns = l.turns

/-- A packet from which nothing is missing has been copied to its end. -/
def Packet.Filled (p : Packet) : Prop := p.data ≠ none → p.length ≤ p.pos + p.end_

theorem slice_store_front (d : Nat → UInt8) (p : Nat) (xs : Bytes) :
    slice (store d p xs) 0 (p + xs.length) = slice d 0 p ++ xs := by
  rw [slice_add, slice_store_of_le (by omega), Nat.zero_add, slice_store_same]

/-- **The copy at the top of a turn** keeps the runs together. -/
theorem sameLoop_takeBytes {l l' : Loop} {d d' : Nat → UInt8} (h : SameLoop l l')
    (hd : l.packet.data = some d) (hd' : l'.packet.data = some d') :
    SameLoop (takeBytes l d).1 (takeBytes l' d').1 := by
  obtain ⟨hgot, hring⟩ := h.ring.read l.packet.end_
  have hgot' : (inputstreamRead l'.istream l'.packet.end_).2 = (inputstreamRead l.istream l.packet.end_).2 := by
    rw [h.packet.end_]
    exact hgot
  have hring' : SameRing (inputstreamRead l.istream l.packet.end_).1
      (inputstreamRead l'.istream l'.packet.end_).1 := by
    rw [h.packet.end_]
    exact hring
  obtain ⟨hslice, hlen⟩ : slice d' 0 l.packet.pos = slice d 0 l.packet.pos ∧
      l'.packet.length = l.packet.length := by
    rcases h.packet.data with ⟨hnone, _⟩ | ⟨e, e', he, he', hslice, hlen⟩
    · rw [hd] at hnone
      cases hnone
    · rw [hd] at he
      rw [hd'] at he'
      cases he
      cases he'
      exact ⟨hslice, hlen⟩
  unfold takeBytes
  refine ⟨h.cc, hring', ⟨?_, ?_, ?_, Or.inr ⟨_, _, rfl, rfl, ?_, hlen⟩⟩, ?_, h.plain, h.room, h.accepted,
    h.turns⟩
  · simp only [hgot']
  · simp only [hgot']
    rw [h.packet.end_]
  · simp only [hgot', h.packet.pos]
  · simp only [hgot', h.packet.pos]
    rw [slice_store_front, slice_store_front, hslice]
  · simp only [hgot', h.read]

theorem takeBytes_filled {l : Loop} {d : Nat → UInt8} (h : l.packet.Filled) (hd : l.packet.data = some d) :
    (takeBytes l d).1.packet.Filled := by
  intro _
  have hlen := h (by rw [hd]; nofun)
  simp only [takeBytes]
  omega

/-- **What is opened of a complete packet** is the same in both runs. -/
theorem sameLoop_opened {l l' : Loop} {d d' : Nat → UInt8} (h : SameLoop l l')
    (hd : l.packet.data = some d) (hd' : l'.packet.data = some d') (hfill : l.packet.Filled)
    (hend : l.packet.end_ = 0) (alloc : Bool) :
    readPacket S l'.cc l'.packet d' alloc = readPacket S l.cc l.packet d alloc ∧
      payloadAccepted l'.cc l'.packet d' = payloadAccepted l.cc l.packet d := by
  have hlen := hfill (by rw [hd]; nofun)
  rw [hend, Nat.add_zero] at hlen
  rcases h.packet.data with ⟨hnone, _⟩ | ⟨e, e', he, he', hslice, hlength⟩
  · rw [hd] at hnone
    cases hnone
  rw [hd] at he
  rw [hd'] at he'
  cases he
  cases he'
  have hpacket : slice d' 0 l.packet.length = slice d 0 l.packet.length := by
    rw [← slice_take d' 0 _ _ hlen, ← slice_take d 0 _ _ hlen, hslice]
  refine ⟨?_, ?_⟩
  · unfold readPacket
    rw [h.cc, hlength, hpacket]
  · have hbox : slice d' 40 (l.packet.length - 40) = slice d 40 (l.packet.length - 40) := by
      by_cases h40 : 40 ≤ l.packet.length
      · have hdrop' := slice_drop d' 0 l.packet.length 40 h40
        have hdrop := slice_drop d 0 l.packet.length 40 h40
        rw [Nat.zero_add] at hdrop hdrop'
        rw [← hdrop', ← hdrop, hpacket]
      · rw [Nat.sub_eq_zero_of_le (by omega), slice_zero, slice_zero]
    unfold payloadAccepted
    rw [h.cc, hlength, hbox]

/-- The header behind a packet. -/
theorem sameLoop_nextHeader {l l' : Loop} (h : SameLoop l l') (hw : WholeHeader l.istream) :
    (nextHeader S l').2 = (nextHeader S l).2 ∧ SameLoop (nextHeader S l).1 (nextHeader S l').1 ∧
      ((nextHeader S l).2 = .again → (nextHeader S l).1.packet.Filled) := by
  unfold nextHeader
  rw [h.ring.getRead]
  by_cases h0 : l.istream.size = 0
  · have hnone : (inputstreamGetRead l.istream).1 = none := by
      simp [inputstreamGetRead, inputstreamPending, h0]
    rw [hnone]
    refine ⟨rfl, ⟨h.cc, h.ring, samePacket_reset, h.read, h.plain, h.room, h.accepted, h.turns⟩, ?_⟩
    intro hagain
    cases hagain
  · have hbytes : slice l'.istream.mem l.istream.readPos 40 = slice l.istream.mem l.istream.readPos 40 := by
      rw [← h.ring.header hw h0, h.ring.readPos]
    rw [inputstreamGetRead_pointer h0]
    dsimp only
    rw [hbytes, h.cc]
    generalize hr : cryptoVerifyHeader S l.cc (slice l.istream.mem l.istream.readPos 40) = r
    have hacc : l'.accepted ++ headerAccepted l.cc (slice l.istream.mem l.istream.readPos 40) r =
        l.accepted ++ headerAccepted l.cc (slice l.istream.mem l.istream.readPos 40) r := by
      rw [h.accepted]
    cases hok : r.ok with
    | false =>
        refine ⟨rfl, ⟨rfl, h.ring, samePacket_reset, h.read, h.plain, h.room, hacc, h.turns⟩, ?_⟩
        intro hagain
        cases hagain
    | true =>
        have hpacket := (h.packet.store r).expect (store_length_eq hr.symm hok l.packet l'.packet)
        exact ⟨rfl, ⟨rfl, h.ring, hpacket, h.read, h.plain, h.room, hacc, h.turns⟩,
          fun _ _ => Nat.le_add_left _ _⟩

/-- What a turn looks at has been received: the packet that it opens is complete, and so is the header behind
it. -/
def WholeTurn (S : Server) (l : Loop) (alloc : Bool) : Prop :=
  ∀ data ∈ l.packet.data, 0 < (takeBytes l data).1.read → (takeBytes l data).1.packet.end_ = 0 ∧
    ((readPacket S (takeBytes l data).1.cc (takeBytes l data).1.packet (takeBytes l data).2 alloc).isSome =
      true →
      WholeHeader (takeBytes l data).1.istream)

theorem takeBytes_data (l : Loop) (d : Nat → UInt8) :
    (takeBytes l d).1.packet.data = some (takeBytes l d).2 := rfl

/-- **A turn keeps the runs together.** -/
theorem sameLoop_parseTurn {l l' : Loop} (h : SameLoop l l') (hfill : l.packet.Filled) (alloc : Bool)
    (hw : WholeTurn S l alloc) :
    (parseTurn S l' alloc).2 = (parseTurn S l alloc).2 ∧
      SameLoop (parseTurn S l alloc).1 (parseTurn S l' alloc).1 ∧
      ((parseTurn S l alloc).2 = .again → (parseTurn S l alloc).1.packet.Filled) := by
  rcases h.packet.data with ⟨hd, hd'⟩ | ⟨d, d', hd, hd', _, _⟩
  · unfold parseTurn
    rw [hd, hd']
    exact ⟨rfl, h, nofun⟩
  have hsame := sameLoop_takeBytes h hd hd'
  have hfilled := takeBytes_filled hfill hd
  have hwhole := hw d hd
  have hdata := takeBytes_data l d
  have hdata' := takeBytes_data l' d'
  unfold parseTurn
  rw [hd, hd']
  dsimp only
  generalize takeBytes l d = x at hsame hfilled hwhole hdata ⊢
  generalize takeBytes l' d' = x' at hsame hdata' ⊢
  obtain ⟨l₁, d₁⟩ := x
  obtain ⟨l₁', d₁'⟩ := x'
  dsimp only at hsame hfilled hwhole hdata hdata' ⊢
  -- the loop variables after the copy, with the record of the turn
  have hcopied : ∀ n, l'.turns ++ [l'.turn l₁'.packet.start n] = l.turns ++ [l.turn l₁.packet.start n] := by
    intro n
    unfold Loop.turn
    rw [h.turns, h.read, h.packet.end_, h.packet.pos, h.ring.size, h.ring.capacity, h.ring.readPos, h.room,
      h.plain, hsame.packet.start]
  rw [hsame.read, hsame.packet.end_]
  by_cases hmore : l₁.read > 0 ∧ l₁.packet.end_ = 0
  · rw [if_pos hmore, if_pos hmore]
    obtain ⟨hopened, hacc⟩ := sameLoop_opened (S := S) hsame hdata hdata' hfilled hmore.2 alloc
    rw [hopened]
    cases hopen : readPacket S l₁.cc l₁.packet d₁ alloc with
    | none =>
        exact ⟨rfl, ⟨hsame.cc, hsame.ring, samePacket_reset, rfl, hsame.plain, hsame.room, hsame.accepted,
          hcopied 0⟩, nofun⟩
    | some x =>
        obtain ⟨cc, m⟩ := x
        have hheader := (hwhole hmore.1).2 (by rw [hopen]; rfl)
        refine sameLoop_nextHeader ⟨rfl, hsame.ring, hsame.packet, rfl, ?_, hsame.room, ?_,
          hcopied m.length⟩ hheader
        · simp only [hsame.plain]
        · simp only [hsame.accepted, hacc]
  · rw [if_neg hmore, if_neg hmore]
    by_cases hpart : l₁.packet.end_ > 0 ∧ l₁.read = 0
    · rw [if_pos hpart, if_pos hpart]
      exact ⟨rfl, ⟨hsame.cc, hsame.ring, hsame.packet, rfl, hsame.plain, hsame.room, hsame.accepted,
        hcopied 0⟩, nofun⟩
    · -- the packet is complete: what is left of the ring was not asked for
      have hend : l₁.packet.end_ = 0 := by
        by_cases hread : l₁.read = 0
        · omega
        · exact (hwhole (Nat.pos_of_ne_zero hread)).1
      rw [if_neg hpart, if_neg hpart]
      obtain ⟨hopened, hacc⟩ := sameLoop_opened (S := S) hsame hdata hdata' hfilled hend alloc
      rw [hopened]
      cases readPacket S l₁.cc l₁.packet d₁ alloc with
      | none =>
          exact ⟨rfl, ⟨hsame.cc, hsame.ring, samePacket_reset, rfl, hsame.plain, hsame.room, hsame.accepted,
            hcopied 0⟩, nofun⟩
      | some x =>
          obtain ⟨cc, m⟩ := x
          refine ⟨rfl, ⟨rfl, hsame.ring, samePacket_reset, rfl, ?_, hsame.room, ?_, hcopied m.length⟩,
            fun _ hnone => absurd rfl hnone⟩
          · simp only [hsame.plain]
          · simp only [hsame.accepted, hacc]

/-- What the turns of a loop look at has been received. -/
def WholeLoop (S : Server) (alloc : Nat → Bool) : Nat → Loop → Prop
  | 0, _ => True
  | fuel + 1, l => l.read ≠ 0 → WholeTurn S l (alloc fuel) ∧
      ((parseTurn S l (alloc fuel)).2 = .again → WholeLoop S alloc fuel (parseTurn S l (alloc fuel)).1)

/-- **The loop keeps the runs together.** -/
theorem sameLoop_parseLoop {alloc : Nat → Bool} : ∀ (fuel : Nat) {l l' : Loop}, SameLoop l l' →
    l.packet.Filled → WholeLoop S alloc fuel l →
    (parseLoop S alloc fuel l').2 = (parseLoop S alloc fuel l).2 ∧
      SameLoop (parseLoop S alloc fuel l).1 (parseLoop S alloc fuel l').1
  | 0, _, _, h, _, _ => ⟨rfl, h⟩
  | fuel + 1, l, l', h, hfill, hw => by
      unfold parseLoop
      rw [h.read]
      by_cases h0 : l.read = 0
      · rw [if_pos h0, if_pos h0]
        exact ⟨rfl, h⟩
      · rw [if_neg h0, if_neg h0]
        obtain ⟨hturn, hrest⟩ := hw h0
        obtain ⟨hnext, hsame, hfill'⟩ := sameLoop_parseTurn h hfill (alloc fuel) hturn
        rcases hp : parseTurn S l (alloc fuel) with ⟨l₁, next⟩
        rcases hp' : parseTurn S l' (alloc fuel) with ⟨l₁', next'⟩
        rw [hp] at hnext hsame hfill' hrest
        rw [hp'] at hnext hsame
        dsimp only at hnext hsame hfill' hrest
        subst hnext
        cases next' with
        | again => exact sameLoop_parseLoop fuel hsame (hfill' rfl) (hrest rfl)
        | ended => exact ⟨rfl, hsame⟩
        | aborted => exact ⟨rfl, hsame⟩

/-! ## §3 The handshake -/

/-- The same context, as far as it has been written. -/
structure SameContext (cc cc' : CryptoContext) : Prop where
  state : cc'.state = cc.state
  nonce : cc'.nonce = cc.nonce
  receivednonce : cc'.receivednonce = cc.receivednonce
  minutekey : cc'.minutekey = cc.minutekey
  lastminutekey : cc'.lastminutekey = cc.lastminutekey
  shortterm : cc.state ≠ .initial → cc'.clientshorttermpk = cc.clientshorttermpk ∧
    cc'.servershorttermpk = cc.servershorttermpk ∧ cc'.servershorttermsk = cc.servershorttermsk
  session : cc.state = .established → cc'.clientshortservershort = cc.clientshortservershort ∧
    cc'.pluginkeystring = cc.pluginkeystring

theorem SameContext.refl (cc : CryptoContext) : SameContext cc cc :=
  ⟨rfl, rfl, rfl, rfl, rfl, fun _ => ⟨rfl, rfl, rfl⟩, fun _ => ⟨rfl, rfl⟩⟩

/-- An established context has been written. -/
theorem SameContext.eq {cc cc' : CryptoContext} (h : SameContext cc cc') (hst : cc.state = .established) :
    cc' = cc := by
  obtain ⟨hcpk, hspk, hssk⟩ := h.shortterm (by rw [hst]; nofun)
  obtain ⟨hsession, hkey⟩ := h.session hst
  cases cc
  cases cc'
  simp only [CryptoContext.mk.injEq]
  exact ⟨h.state, h.nonce, h.receivednonce, hsession, hcpk, hspk, hssk, h.minutekey, h.lastminutekey, hkey⟩

theorem sameContext_initial {cc cc' : CryptoContext} (hst : cc.state = .initial) (hstate : cc'.state = cc.state)
    (hnonce : cc'.nonce = cc.nonce) (hreceived : cc'.receivednonce = cc.receivednonce)
    (hmk : cc'.minutekey = cc.minutekey) (hlk : cc'.lastminutekey = cc.lastminutekey) : SameContext cc cc' :=
  ⟨hstate, hnonce, hreceived, hmk, hlk, fun hne => absurd hst hne, fun hest => by
    rw [hst] at hest
    cases hest⟩

/-- **A hello does not look at the keys it replaces.** -/
theorem sameContext_hello {cc cc' : CryptoContext} (h : SameContext cc cc') (hst : cc.state = .initial)
    (data : Bytes) (env : HelloEnv) :
    SameContext (cryptoRecvHelloSendCookie S cc data env).cc (cryptoRecvHelloSendCookie S cc' data env).cc ∧
      (cryptoRecvHelloSendCookie S cc' data env).ok = (cryptoRecvHelloSendCookie S cc data env).ok ∧
      (cryptoRecvHelloSendCookie S cc' data env).cookie = (cryptoRecvHelloSendCookie S cc data env).cookie ∧
      (cryptoRecvHelloSendCookie S cc' data env).packet = (cryptoRecvHelloSendCookie S cc data env).packet := by
  have hfresh : ∀ n, nonceFresh cc' n = nonceFresh cc n := by
    intro n
    unfold nonceFresh
    rw [h.receivednonce]
  unfold cryptoRecvHelloSendCookie
  simp only [hfresh, h.minutekey]
  split
  · exact ⟨h, rfl, rfl, rfl⟩
  split
  · exact ⟨h, rfl, rfl, rfl⟩
  split
  · exact ⟨sameContext_initial hst h.state h.nonce h.receivednonce rfl h.lastminutekey, rfl, rfl, rfl⟩
  split
  · exact ⟨sameContext_initial hst h.state h.nonce h.receivednonce rfl h.lastminutekey, rfl, rfl, rfl⟩
  split
  · exact ⟨sameContext_initial hst h.state h.nonce h.receivednonce rfl h.lastminutekey, rfl, rfl, rfl⟩
  split
  · exact ⟨sameContext_initial hst h.state h.nonce h.receivednonce rfl h.lastminutekey, rfl, rfl, rfl⟩
  split
  · exact ⟨⟨rfl, h.nonce, h.receivednonce, rfl, h.lastminutekey, fun _ => ⟨rfl, rfl, rfl⟩, nofun⟩,
      rfl, rfl, rfl⟩
  · exact ⟨sameContext_initial hst h.state h.nonce h.receivednonce rfl h.lastminutekey, rfl, rfl, rfl⟩

/-- An initiate packet that is accepted replaces what had not been written. -/
theorem sameContext_initiate {cc cc' d : CryptoContext} (h : SameContext cc cc') (hst : cc.state = .cookieSent)
    {data : Bytes} {db : Authorized} (hr : cryptoRecvInitiate S cc data db = (d, true)) :
    cryptoRecvInitiate S cc' data db = (d, true) := by
  obtain ⟨hcpk, hspk, hssk⟩ := h.shortterm (by rw [hst]; nofun)
  obtain ⟨session, key, rfl⟩ : ∃ session key, cc' = { cc with
      clientshortservershort := session
      pluginkeystring := key } := by
    refine ⟨cc'.clientshortservershort, cc'.pluginkeystring, ?_⟩
    cases cc
    cases cc'
    simp only [CryptoContext.mk.injEq]
    exact ⟨h.state, h.nonce, h.receivednonce, trivial, hcpk, hspk, hssk, h.minutekey, h.lastminutekey, trivial⟩
  have hopen : ∀ nonce box, openCookie S { cc with
      clientshortservershort := session
      pluginkeystring := key } nonce box = openCookie S cc nonce box := fun _ _ => rfl
  have hfresh : ∀ (k : Key) (n : UInt64), nonceFresh { cc with
      clientshortservershort := k
      pluginkeystring := key } n = nonceFresh { cc with clientshortservershort := k } n := fun _ _ => rfl
  revert hr
  unfold cryptoRecvInitiate
  simp only [hopen, hfresh]
  -- the packets that are refused are those that are refused with the other context
  split
  · nofun
  split
  · nofun
  split
  · nofun
  split
  · nofun
  split
  · nofun
  split
  · nofun
  split
  · nofun
  split
  · nofun
  split
  · nofun
  · exact id

/-! ## §4 Two runs -/

/-- **What two runs have in common.** -/
structure SameTunnel (t t' : Tunnel) : Prop where
  context : SameContext t.cc t'.cc
  ring : SameRing t.istream t'.istream
  packet : SamePacket t.packet t'.packet
  quiet : t.packet.Quiet
  committed : t'.committed = t.committed
  closed : t'.closed = t.closed
  halted : t'.halted = t.halted
  history : t'.history = t.history

/-- The same answers from outside; the uninitialised memory may differ. -/
def SameEnv (env env' : ReadEnv) : Prop :=
  env' = { env with stale := env'.stale, heap := env'.heap, behind := env'.behind }

/-- The same input. -/
inductive SameInput : Event → Event → Prop
  | read (seg : Bytes) {env env' : ReadEnv} (h : SameEnv env env') : SameInput (.read seg env) (.read seg env')
  | eof : SameInput .eof .eof
  | tick (fresh : Key) : SameInput (.tick fresh) (.tick fresh)
  | write (data : Bytes) (env : WriteEnv) : SameInput (.write data env) (.write data env)

/-- The same random bytes; the memory that `connection_create` does not write may differ. -/
def SameCreate (env env' : CreateEnv) : Prop :=
  env' = { env with garbage := env'.garbage, length := env'.length, ring := env'.ring }

/-- What the message part of `parse_cb` looks at has been received. -/
def WholeMessages (S : Server) (t : Tunnel) (env : ReadEnv) : Prop :=
  t.istream.size ≠ 0 → t.cc.state = .established → t.packet.end_ = 0 → WholeHeader t.istream ∧
    ((cryptoVerifyHeader S t.cc (slice t.istream.mem t.istream.readPos 40)).ok = true →
      env.packetAlloc = true → env.reserve = true →
      WholeLoop S env.readAlloc (t.istream.size + 2) (firstTurn t env (slice t.istream.mem t.istream.readPos 40)
        (cryptoVerifyHeader S t.cc (slice t.istream.mem t.istream.readPos 40))
        (inputstreamGetRead t.istream).2))

/-- The bytes that `crypto_recv_initiate` is given. -/
def initiateBuffer (t : Tunnel) (env : ReadEnv) : Bytes :=
  stackBuffer 256 (inputstreamRead t.istream 256).2 env.stale

/-- **The callbacks that look only at what has been received or written.** -/
def Whole (S : Server) (t : Tunnel) : Event → Prop
  | .read seg env =>
      match t.cc.state with
      | .initial => 192 ≤ (t.arrived seg env).istream.size
      | .cookieSent => 256 ≤ (t.arrived seg env).istream.size ∧
          (cryptoRecvInitiate S t.cc (initiateBuffer (t.arrived seg env) env) env.db).2 = true ∧
          WholeMessages S (parseInitiate S (t.arrived seg env) env) env
      | .established => WholeMessages S (t.arrived seg env) env
  | .write _ _ => t.cc.state = .established
  | _ => True

/-- What a callback shows: how `parse_cb` left its receiving half, the key that was registered, and the packet
that was handed to the output stream. -/
structure Observation where
  outcome : Outcome
  registered : Option Bytes
  output : Option Bytes
deriving DecidableEq

def observe (S : Server) (t : Tunnel) : Event → Observation
  | .read seg env =>
      let r := parseCb S { t with istream := inputstreamReadCb t.istream seg } env
      { outcome := r.outcome
        registered := if r.register then some (cstr r.tunnel.cc.pluginkeystring) else none
        output := match t.cc.state with
          | .initial => (cryptoRecvHelloSendCookie S t.cc
              (stackBuffer 192 (inputstreamRead (t.arrived seg env).istream 192).2 env.stale) env.hello).packet
          | _ => none }
  | .write data env =>
      { outcome := .ended
        registered := none
        output := match (cryptoWrite S t.cc data env).outcome with
          | .sent packet => some packet
          | _ => none }
  | _ => ⟨.ended, none, none⟩

theorem sameTunnel_arrived {t t' : Tunnel} (h : SameTunnel t t') {seg : Bytes} (env env' : ReadEnv)
    (hfit : seg.length ≤ inputstreamAllocCb t.istream) :
    SameTunnel (t.arrived seg env) (t'.arrived seg env') :=
  ⟨h.context, (h.ring.readCb hfit).withBehind _ _, h.packet, h.quiet, h.committed, h.closed,
    h.halted, h.history⟩

/-- **The hello**, when all of it is there. -/
theorem sameTunnel_hello {t t' : Tunnel} {env env' : ReadEnv} (h : SameTunnel t t') (he : SameEnv env env')
    (hst : t.cc.state = .initial) (hw : 192 ≤ t.istream.size) :
    SameTunnel (parseHello S t env) (parseHello S t' env') ∧
      (cryptoRecvHelloSendCookie S t'.cc (stackBuffer 192 (inputstreamRead t'.istream 192).2 env'.stale)
          env'.hello).packet =
        (cryptoRecvHelloSendCookie S t.cc (stackBuffer 192 (inputstreamRead t.istream 192).2 env.stale)
          env.hello).packet := by
  obtain ⟨hgot, hring⟩ := h.ring.read 192
  have hlen : 192 ≤ (inputstreamRead t.istream 192).2.length := by
    rw [(inputstreamRead_spec h.ring.wf 192).bytes, List.length_take, Inputstream.unread_length]
    omega
  have hbuffer : stackBuffer 192 (inputstreamRead t'.istream 192).2 env'.stale =
      stackBuffer 192 (inputstreamRead t.istream 192).2 env.stale := by
    rw [hgot]
    exact stackBuffer_whole hlen _ _
  have hhello : env'.hello = env.hello := by rw [he]
  rw [hbuffer, hhello]
  obtain ⟨hcc, hok, hcookie, hpacket⟩ := sameContext_hello (S := S) h.context hst
    (stackBuffer 192 (inputstreamRead t.istream 192).2 env.stale) env.hello
  refine ⟨⟨?_, hring, h.packet, h.quiet, h.committed, h.closed, h.halted, ?_⟩, hpacket⟩
  · show SameContext (cryptoRecvHelloSendCookie S t.cc _ _).cc (cryptoRecvHelloSendCookie S t'.cc _ _).cc
    rw [hbuffer, hhello]
    exact hcc
  · simp only [parseHello]
    rw [hbuffer, hhello, hok, hcookie, h.history]

/-- **The initiate packet**, when all of it is there and it is accepted. -/
theorem sameTunnel_initiate {t t' : Tunnel} {env env' : ReadEnv} (h : SameTunnel t t') (he : SameEnv env env')
    (hst : t.cc.state = .cookieSent) (hw : 256 ≤ t.istream.size)
    (hok : (cryptoRecvInitiate S t.cc (initiateBuffer t env) env.db).2 = true) :
    SameTunnel (parseInitiate S t env) (parseInitiate S t' env') ∧
      (parseInitiate S t env).cc.state = .established := by
  obtain ⟨hgot, hring⟩ := h.ring.read 256
  have hlen : 256 ≤ (inputstreamRead t.istream 256).2.length := by
    rw [(inputstreamRead_spec h.ring.wf 256).bytes, List.length_take, Inputstream.unread_length]
    omega
  have hbuffer : stackBuffer 256 (inputstreamRead t'.istream 256).2 env'.stale = initiateBuffer t env := by
    rw [hgot]
    exact stackBuffer_whole hlen _ _
  have hdb : env'.db = env.db := by rw [he]
  rcases hr : cryptoRecvInitiate S t.cc (initiateBuffer t env) env.db with ⟨cc, ok⟩
  rw [hr] at hok
  dsimp only at hok
  subst hok
  have hr' := sameContext_initiate h.context hst hr
  have hcc : (parseInitiate S t env).cc = cc := by
    have hinit : cryptoRecvInitiate S t.cc (stackBuffer 256 (inputstreamRead t.istream 256).2 env.stale) env.db
        = (cc, true) := hr
    simp only [parseInitiate, hinit, if_true]
  have hcc' : (parseInitiate S t' env').cc = cc := by
    simp only [parseInitiate, hbuffer, hdb, hr', if_true]
  obtain ⟨_, _, _, _, hspec⟩ :=
    cryptoRecvInitiate_established (by simp [initiateBuffer, stackBuffer, Buffer.length_eq]) hr
  refine ⟨⟨?_, hring, h.packet, h.quiet, h.committed, h.closed, h.halted, ?_⟩, ?_⟩
  · rw [hcc, hcc']
    exact SameContext.refl cc
  · have hinit : cryptoRecvInitiate S t.cc (stackBuffer 256 (inputstreamRead t.istream 256).2 env.stale) env.db
        = (cc, true) := hr
    simp only [parseInitiate]
    rw [hbuffer, hdb, hr', hinit, h.history, h.context.receivednonce]
    rfl
  · rw [hcc, hspec.context]

/-- What the loop has done enters both connections. -/
theorem sameTunnel_finishLoop {t t' : Tunnel} {x x' : Loop × Next} (h : SameTunnel t t') (hnext : x'.2 = x.2)
    (hl : SameLoop x.1 x'.1) (hq : x.1.packet.Quiet) :
    (finishLoop t' x').outcome = (finishLoop t x).outcome ∧
      SameTunnel (finishLoop t x).tunnel (finishLoop t' x').tunnel := by
  have hcc : SameContext x.1.cc x'.1.cc := by
    rw [hl.cc]
    exact SameContext.refl _
  have hhistory : { t'.history with
      accepted := t'.history.accepted ++ x'.1.accepted
      turns := t'.history.turns ++ x'.1.turns } = { t.history with
      accepted := t.history.accepted ++ x.1.accepted
      turns := t.history.turns ++ x.1.turns } := by
    rw [h.history, hl.accepted, hl.turns]
  unfold finishLoop
  rw [hnext]
  cases x.2 with
  | again =>
      refine ⟨congrArg Outcome.decode hl.plain, hcc, hl.ring, hl.packet, hq, ?_, h.closed, h.halted, hhistory⟩
      show t'.committed ++ x'.1.plain = t.committed ++ x.1.plain
      rw [h.committed, hl.plain]
  | ended => exact ⟨rfl, hcc, hl.ring, hl.packet, hq, h.committed, h.closed, h.halted, hhistory⟩
  | aborted => exact ⟨rfl, hcc, hl.ring, hl.packet, hq, h.committed, h.closed, h.halted, hhistory⟩

/-- The message part behind the bytes `data` of a header, whose check gave `r`. -/
def afterHeader (S : Server) (t : Tunnel) (env : ReadEnv) (data : Bytes) (r : HeaderResult) (read : Nat) :
    ParseResult :=
  let packet := t.packet.store r
  let seen := { t with
    cc := r.cc
    history := { t.history with
      accepted := t.history.accepted ++ headerAccepted t.cc data r } }
  if !r.ok then ⟨{ seen with packet := resetPacket packet }, false, .ended⟩
  else if !env.packetAlloc then
    ⟨{ seen with packet := { packet with end_ := packet.length, data := none } }, false, .ended⟩
  else if !env.reserve then
    ⟨{ seen with packet := { packet with end_ := packet.length, data := some env.heap } },
      false, .ended⟩
  else
    finishLoop t (parseLoop S env.readAlloc (t.istream.size + 2) (firstTurn t env data r read))

theorem parseMessages_header {t : Tunnel} (env : ReadEnv) (hsize : t.istream.size ≠ 0)
    (hest : t.cc.state = .established) (hend : t.packet.end_ = 0) :
    parseMessages S t env = afterHeader S t env (slice t.istream.mem t.istream.readPos 40)
      (cryptoVerifyHeader S t.cc (slice t.istream.mem t.istream.readPos 40))
      (inputstreamGetRead t.istream).2 := by
  have hptr := inputstreamGetRead_pointer hsize
  have hnone : ¬(inputstreamPending t.istream = 0 ∨ t.cc.state ≠ .established) :=
    not_or.mpr ⟨hsize, not_not.mpr hest⟩
  unfold parseMessages
  rw [if_neg hnone, if_pos hend]
  rcases hget : inputstreamGetRead t.istream with ⟨ptr, read⟩
  rw [hget] at hptr
  cases hptr
  unfold afterHeader
  rfl

/-- The connection behind a header that is not followed by the loop, with the packet that is left. -/
def Tunnel.seen (t : Tunnel) (data : Bytes) (r : HeaderResult) (packet : Packet) : Tunnel :=
  { t with
    cc := r.cc
    packet := packet
    history := { t.history with
      accepted := t.history.accepted ++ headerAccepted t.cc data r } }

theorem sameTunnel_seen {t t' : Tunnel} (h : SameTunnel t t') (hcc : t'.cc = t.cc) (data : Bytes)
    (r : HeaderResult) {packet packet' : Packet} (hp : SamePacket packet packet') (hq : packet.Quiet) :
    SameTunnel (t.seen data r packet) (t'.seen data r packet') := by
  refine ⟨SameContext.refl _, h.ring, hp, hq, h.committed, h.closed, h.halted, ?_⟩
  simp only [Tunnel.seen]
  rw [h.history, hcc]

theorem afterHeader_cases (S : Server) (t : Tunnel) (env : ReadEnv) (data : Bytes) (r : HeaderResult)
    (read : Nat) :
    (r.ok = false → afterHeader S t env data r read =
        ⟨t.seen data r (resetPacket (t.packet.store r)), false, .ended⟩) ∧
      (r.ok = true → env.packetAlloc = false → afterHeader S t env data r read =
        ⟨t.seen data r { t.packet.store r with end_ := (t.packet.store r).length, data := none },
          false, .ended⟩) ∧
      (r.ok = true → env.packetAlloc = true → env.reserve = false → afterHeader S t env data r read =
        ⟨t.seen data r { t.packet.store r with end_ := (t.packet.store r).length, data := some env.heap },
          false, .ended⟩) ∧
      (r.ok = true → env.packetAlloc = true → env.reserve = true → afterHeader S t env data r read =
        finishLoop t (parseLoop S env.readAlloc (t.istream.size + 2) (firstTurn t env data r read))) := by
  unfold afterHeader Tunnel.seen
  generalize finishLoop t (parseLoop S env.readAlloc (t.istream.size + 2) (firstTurn t env data r read)) = x
  refine ⟨?_, ?_, ?_, ?_⟩
  · intro hok
    simp only [hok, Bool.not_false, if_true]
  · intro hok hp
    simp only [hok, hp, Bool.not_false, Bool.not_true, Bool.false_eq_true, if_true, if_false]
  · intro hok hp hs
    simp only [hok, hp, hs, Bool.not_false, Bool.not_true, Bool.false_eq_true, if_true, if_false]
  · intro hok hp hs
    simp only [hok, hp, hs, Bool.not_true, Bool.false_eq_true, if_false]

theorem sameLoop_firstTurn {t t' : Tunnel} {env env' : ReadEnv} {data : Bytes} {r : HeaderResult}
    (h : SameTunnel t t') (hcc : t'.cc = t.cc)
    (hlength : (t'.packet.store r).length = (t.packet.store r).length) (hpacket : SamePacket
      { t.packet.store r with end_ := (t.packet.store r).length, data := some env.heap }
      { t'.packet.store r with end_ := (t'.packet.store r).length, data := some env'.heap }) (read : Nat) :
    SameLoop (firstTurn t env data r read) (firstTurn t' env' data r read) := by
  refine ⟨rfl, h.ring, hpacket, rfl, rfl, ?_, ?_, rfl⟩
  · simp only [firstTurn]
    rw [hlength]
  · simp only [firstTurn]
    rw [hcc]

theorem firstTurn_filled (t : Tunnel) (env : ReadEnv) (data : Bytes) (r : HeaderResult) (read : Nat) :
    (firstTurn t env data r read).packet.Filled := by
  intro _
  simp only [firstTurn]
  omega

/-- **What follows a header** that has been received. -/
theorem sameTunnel_afterHeader {t t' : Tunnel} {env env' : ReadEnv} {data : Bytes} {r : HeaderResult}
    (h : SameTunnel t t') (he : SameEnv env env') (hcc : t'.cc = t.cc) (hend : t.packet.end_ = 0)
    (hr : r = cryptoVerifyHeader S t.cc data) (read : Nat)
    (hloop : r.ok = true → env.packetAlloc = true → env.reserve = true →
      WholeLoop S env.readAlloc (t.istream.size + 2) (firstTurn t env data r read)) :
    (afterHeader S t' env' data r read).outcome = (afterHeader S t env data r read).outcome ∧
      SameTunnel (afterHeader S t env data r read).tunnel (afterHeader S t' env' data r read).tunnel := by
  have hpa : env'.packetAlloc = env.packetAlloc := by rw [he]
  have hre : env'.reserve = env.reserve := by rw [he]
  have hra : env'.readAlloc = env.readAlloc := by rw [he]
  obtain ⟨hrefused, hnoblock, hnoroom, hturns⟩ := afterHeader_cases S t env data r read
  obtain ⟨hrefused', hnoblock', hnoroom', hturns'⟩ := afterHeader_cases S t' env' data r read
  cases hok : r.ok with
  | false =>
      rw [hrefused hok, hrefused' hok]
      exact ⟨rfl, sameTunnel_seen h hcc data r (h.packet.store r).resetPacket (resetPacket_quiet _)⟩
  | true =>
      have hlength := store_length_eq hr hok t.packet t'.packet
      have hstored := (h.packet.store r).expect hlength
      have hlen := store_length_of_ok hr hok t.packet
      have hpos : (t.packet.store r).pos = 0 := by
        rw [store_pos]
        exact h.quiet hend
      have hquiet : ∀ block, Packet.Quiet
          { t.packet.store r with end_ := (t.packet.store r).length, data := block } :=
        fun block => quiet_of_pos (show 0 < (t.packet.store r).length by omega)
      cases hp : env.packetAlloc with
      | false =>
          rw [hnoblock hok hp, hnoblock' hok (hpa.trans hp)]
          exact ⟨rfl, sameTunnel_seen h hcc data r ⟨hstored.start, hlength, hstored.pos, Or.inl ⟨rfl, rfl⟩⟩
            (hquiet none)⟩
      | true =>
          -- nothing has been copied into the new block
          have hblock : slice env'.heap 0 (t.packet.store r).pos = slice env.heap 0 (t.packet.store r).pos := by
            rw [hpos, slice_zero, slice_zero]
          have hpacket : SamePacket
              { t.packet.store r with end_ := (t.packet.store r).length, data := some env.heap }
              { t'.packet.store r with end_ := (t'.packet.store r).length, data := some env'.heap } :=
            ⟨hstored.start, hlength, hstored.pos, Or.inr ⟨_, _, rfl, rfl, hblock, hlength⟩⟩
          cases hs : env.reserve with
          | false =>
              rw [hnoroom hok hp hs, hnoroom' hok (hpa.trans hp) (hre.trans hs)]
              exact ⟨rfl, sameTunnel_seen h hcc data r hpacket (hquiet (some env.heap))⟩
          | true =>
              rw [hturns hok hp hs, hturns' hok (hpa.trans hp) (hre.trans hs), hra, h.ring.size]
              obtain ⟨hnext, hl⟩ := sameLoop_parseLoop (t.istream.size + 2)
                (sameLoop_firstTurn h hcc hlength hpacket read) (firstTurn_filled t env data r read)
                (hloop hok hp hs)
              have hq : (firstTurn t env data r read).packet.Quiet := hquiet (some env.heap)
              exact sameTunnel_finishLoop h hnext hl (parseLoop_quiet hq _ _)

/-- **The message part.** -/
theorem sameTunnel_messages {t t' : Tunnel} {env env' : ReadEnv} (h : SameTunnel t t') (he : SameEnv env env')
    (hw : WholeMessages S t env) :
    (parseMessages S t' env').outcome = (parseMessages S t env).outcome ∧
      SameTunnel (parseMessages S t env).tunnel (parseMessages S t' env').tunnel := by
  by_cases hnone : inputstreamPending t.istream = 0 ∨ t.cc.state ≠ .established
  · have hnone' : inputstreamPending t'.istream = 0 ∨ t'.cc.state ≠ .established := by
      rw [h.context.state]
      exact hnone.imp_left fun h0 => h.ring.size.trans h0
    unfold parseMessages
    rw [if_pos hnone, if_pos hnone']
    exact ⟨rfl, h⟩
  obtain ⟨hsize, hstate⟩ := not_or.mp hnone
  have hest : t.cc.state = .established := not_not.mp hstate
  have hsize' : t'.istream.size ≠ 0 := by
    rw [h.ring.size]
    exact hsize
  have hest' : t'.cc.state = .established := h.context.state.trans hest
  by_cases hend : t.packet.end_ = 0
  · obtain ⟨hheader, hloop⟩ := hw hsize hest hend
    have hcc := h.context.eq hest
    rw [parseMessages_header env hsize hest hend,
      parseMessages_header env' hsize' hest' (h.packet.end_.trans hend), h.ring.header hheader hsize, hcc,
      h.ring.getRead]
    exact sameTunnel_afterHeader h he hcc hend rfl _ hloop
  · have hnone' : ¬(inputstreamPending t'.istream = 0 ∨ t'.cc.state ≠ .established) :=
      not_or.mpr ⟨hsize', not_not.mpr hest'⟩
    have hend' : t'.packet.end_ ≠ 0 := by
      rw [h.packet.end_]
      exact hend
    unfold parseMessages
    rw [if_neg hnone, if_neg hnone', if_neg hend, if_neg hend']
    exact ⟨rfl, h⟩

theorem parseCb_arrived (t : Tunnel) (seg : Bytes) (env : ReadEnv) :
    parseCb S { t with istream := inputstreamReadCb t.istream seg } env =
      match t.cc.state with
      | .initial => ⟨parseHello S (t.arrived seg env) env, false, .ended⟩
      | .cookieSent =>
          if env.registered (cstr (parseInitiate S (t.arrived seg env) env).cc.pluginkeystring) then
            ⟨{ parseInitiate S (t.arrived seg env) env with
                cc := { (parseInitiate S (t.arrived seg env) env).cc with
                  pluginkeystring := zeros 17 } }, false, .duplicate⟩
          else { parseMessages S (parseInitiate S (t.arrived seg env) env) env with register := true }
      | .established => parseMessages S (t.arrived seg env) env := by
  unfold parseCb Tunnel.arrived
  dsimp only
  all_goals (cases t.cc.state <;> rfl)

/-- What two runs of the receiving half have in common. -/
structure SameResult (r r' : ParseResult) : Prop where
  outcome : r'.outcome = r.outcome
  register : r'.register = r.register
  tunnel : SameTunnel r.tunnel r'.tunnel
  key : r.register = true → r'.tunnel.cc.pluginkeystring = r.tunnel.cc.pluginkeystring

theorem sameTunnel_afterRead {r r' : ParseResult} (h : SameResult r r') :
    SameTunnel (afterRead r) (afterRead r') := by
  obtain ⟨hcontext, hring, hpacket, hquiet, hcommitted, hclosed, hhalted, hhistory⟩ := h.tunnel
  unfold afterRead
  rw [h.outcome]
  cases r.outcome with
  | ended => exact h.tunnel
  | duplicate => exact ⟨hcontext, hring, hpacket, hquiet, hcommitted, rfl, hhalted, hhistory⟩
  | decode plain => exact h.tunnel
  | aborted => exact ⟨hcontext, hring, hpacket, hquiet, hcommitted, hclosed, rfl, hhistory⟩

/-- A connection whose key is already registered. -/
theorem sameTunnel_clearKey {t t' : Tunnel} (h : SameTunnel t t') (hst : t.cc.state = .established) :
    SameTunnel { t with cc := { t.cc with pluginkeystring := zeros 17 } }
      { t' with cc := { t'.cc with pluginkeystring := zeros 17 } } := by
  refine ⟨?_, h.ring, h.packet, h.quiet, h.committed, h.closed, h.halted, h.history⟩
  rw [h.context.eq hst]
  exact SameContext.refl _

/-- **A read callback** that looks only at what has been received. -/
theorem sameResult_read {t t' : Tunnel} {seg : Bytes} {env env' : ReadEnv} (h : SameTunnel t t')
    (he : SameEnv env env') (hfit : seg.length ≤ inputstreamAllocCb t.istream)
    (hw : Whole S t (.read seg env)) :
    SameResult (parseCb S { t with istream := inputstreamReadCb t.istream seg } env)
      (parseCb S { t' with istream := inputstreamReadCb t'.istream seg } env') := by
  have harr := sameTunnel_arrived h env env' hfit
  have hregistered : env'.registered = env.registered := by rw [he]
  rw [parseCb_arrived, parseCb_arrived, h.context.state]
  unfold Whole at hw
  cases hst : t.cc.state with
  | initial =>
      rw [hst] at hw
      exact ⟨rfl, rfl, (sameTunnel_hello harr he hst hw).1, nofun⟩
  | cookieSent =>
      rw [hst] at hw
      obtain ⟨hsize, hok, hmessages⟩ := hw
      obtain ⟨hinit, hest⟩ := sameTunnel_initiate harr he hst hsize hok
      obtain ⟨houtcome, htunnel⟩ := sameTunnel_messages hinit he hmessages
      dsimp only
      rw [hregistered, (hinit.context.session hest).2]
      split
      · exact ⟨rfl, rfl, sameTunnel_clearKey hinit hest, nofun⟩
      · -- the messages behind the initiate packet do not change the key
        have hstate := (parseMessages_key (S := S) (parseInitiate S (t.arrived seg env) env) env).1.trans hest
        exact ⟨houtcome, rfl, htunnel, fun _ => (htunnel.context.session hstate).2⟩
  | established =>
      rw [hst] at hw
      obtain ⟨houtcome, htunnel⟩ := sameTunnel_messages harr he hw
      have hreg := (parseMessages_outcome (S := S) (t.arrived seg env) env).2
      have hreg' := (parseMessages_outcome (S := S) (t'.arrived seg env') env').2
      refine ⟨houtcome, hreg'.trans hreg.symm, htunnel, ?_⟩
      intro hregister
      exact absurd (hreg.symm.trans hregister) Bool.false_ne_true

/-! ## §5 Whole runs -/

/-- The same input is taken in both runs or in neither. -/
theorem sameTunnel_enabled {t t' : Tunnel} {e e' : Event} (h : SameTunnel t t') (hin : SameInput e e') :
    step S t e = none ↔ step S t' e' = none := by
  cases hin with
  | read seg he =>
      simp only [step]
      rw [h.halted, h.closed, h.ring.allocCb]
      split <;> simp
  | eof =>
      simp only [step]
      rw [h.halted, h.closed]
      split <;> simp
  | tick fresh =>
      simp only [step]
      rw [h.halted, h.closed]
      split <;> simp
  | write data env =>
      simp only [step]
      rw [h.halted]
      split <;> simp

/-- The rotation of the minute key. -/
theorem sameTunnel_tick {t t' : Tunnel} (h : SameTunnel t t') (fresh : Key) :
    SameTunnel
      { t with
        cc := cryptoUpdateMinutekey t.cc fresh
        history := { t.history with minutekeys := fresh :: t.history.minutekeys } }
      { t' with
        cc := cryptoUpdateMinutekey t'.cc fresh
        history := { t'.history with minutekeys := fresh :: t'.history.minutekeys } } := by
  obtain ⟨hstate, hnonce, hreceived, hmk, _, hshort, hsession⟩ := h.context
  refine ⟨⟨hstate, hnonce, hreceived, rfl, hmk, hshort, hsession⟩, h.ring, h.packet, h.quiet, h.committed,
    h.closed, h.halted, ?_⟩
  dsimp only
  rw [h.history]

/-- `crypto_write` on an established connection. -/
theorem sameTunnel_write {t t' : Tunnel} (h : SameTunnel t t') (hst : t.cc.state = .established) (data : Bytes)
    (env : WriteEnv) :
    SameTunnel (afterWrite t (cryptoWrite S t.cc data env)) (afterWrite t' (cryptoWrite S t'.cc data env)) := by
  rw [h.context.eq hst]
  refine ⟨SameContext.refl _, h.ring, h.packet, h.quiet, h.committed, h.closed, rfl, ?_⟩
  simp only [afterWrite]
  rw [h.history]

/-- **What a callback shows** is the same in both runs. -/
theorem observe_eq {t t' : Tunnel} {e e' : Event} (h : SameTunnel t t') (hin : SameInput e e')
    (hfit : ∀ seg env, e = .read seg env → seg.length ≤ inputstreamAllocCb t.istream) (hw : Whole S t e) :
    observe S t' e' = observe S t e := by
  cases hin with
  | @read seg env env' he =>
      have hres := sameResult_read h he (hfit seg env rfl) hw
      have harr := sameTunnel_arrived h env env' (hfit seg env rfl)
      simp only [observe, Observation.mk.injEq]
      refine ⟨hres.outcome, ?_, ?_⟩
      · rw [hres.register]
        split
        · rename_i hreg
          rw [hres.key hreg]
        · rfl
      · rw [h.context.state]
        cases hst : t.cc.state with
        | initial =>
            unfold Whole at hw
            rw [hst] at hw
            exact (sameTunnel_hello harr he hst hw).2
        | cookieSent => rfl
        | established => rfl
  | eof => rfl
  | tick fresh => rfl
  | write data env =>
      have hst : t.cc.state = .established := hw
      simp only [observe]
      rw [h.context.eq hst]

/-- **A step keeps the runs together.** -/
theorem sameTunnel_step {t t' u u' : Tunnel} {e e' : Event} (h : SameTunnel t t') (hin : SameInput e e')
    (hs : step S t e = some u) (hs' : step S t' e' = some u') (hw : Whole S t e) : SameTunnel u u' := by
  cases hin with
  | @read seg env env' he =>
      obtain ⟨_, hfit, _⟩ := step_read hs
      simp only [step] at hs hs'
      split at hs
      · cases hs
      split at hs'
      · cases hs'
      cases hs
      cases hs'
      exact sameTunnel_afterRead (sameResult_read h he hfit hw)
  | eof =>
      simp only [step] at hs hs'
      split at hs
      · cases hs
      split at hs'
      · cases hs'
      cases hs
      cases hs'
      exact ⟨h.context, h.ring, h.packet, h.quiet, h.committed, rfl, h.halted, h.history⟩
  | tick fresh =>
      simp only [step] at hs hs'
      split at hs
      · cases hs
      split at hs'
      · cases hs'
      cases hs
      cases hs'
      exact sameTunnel_tick h fresh
  | write data env =>
      simp only [step] at hs hs'
      split at hs
      · cases hs
      split at hs'
      · cases hs'
      cases hs
      cases hs'
      exact sameTunnel_write h hw data env

/-- Two new connections. -/
theorem sameTunnel_create {env env' : CreateEnv} (h : SameCreate env env') :
    SameTunnel (connectionCreate env) (connectionCreate env') := by
  have hrandom : env'.random = env.random := by rw [h]
  have hmk : env'.minutekey = env.minutekey := by rw [h]
  have hlk : env'.lastminutekey = env.lastminutekey := by rw [h]
  refine ⟨sameContext_initial rfl rfl ?_ rfl hmk hlk,
    ⟨rfl, rfl, rfl, (connectionCreate_ring env).1, (connectionCreate_ring env').1, rfl⟩,
    ⟨rfl, rfl, rfl, Or.inl ⟨rfl, rfl⟩⟩, fun _ => rfl, rfl, rfl, rfl, ?_⟩
  · simp only [connectionCreate]
    rw [hrandom]
  · simp only [connectionCreate]
    rw [hmk]

/-- What can be seen of a connection: its tunnel state, its counters, whether it is open, what its unpacker has
been given, and everything that was accepted, sealed and sent. -/
structure SameVerdict (t t' : Tunnel) : Prop where
  state : t'.cc.state = t.cc.state
  nonce : t'.cc.nonce = t.cc.nonce
  receivednonce : t'.cc.receivednonce = t.cc.receivednonce
  committed : t'.committed = t.committed
  closed : t'.closed = t.closed
  halted : t'.halted = t.halted
  history : t'.history = t.history

/-- **Decisions depend only on received bytes** in every run whose callbacks look only at what was received:
whatever the uninitialised memory holds, each callback is taken or not, shows the same, and leaves the same
verdict. -/
theorem decisions_of_received {env env' : CreateEnv} (hc : SameCreate env env') (es : List (Event × Event))
    (hin : ∀ e ∈ es, SameInput e.1 e.2)
    (hw : Along (step S) (fun t e _ => Whole S t e) (connectionCreate env) (es.map Prod.fst)) :
    Abreast (step S) (fun t e u => observe S t.2 e.2 = observe S t.1 e.1 ∧ SameVerdict u.1 u.2)
      (connectionCreate env, connectionCreate env') es := by
  refine abreast_of_relation (I := fun t => SameTunnel t.1 t.2) (E := fun e => SameInput e.1 e.2)
    (G := fun t e _ => Whole S t e) ?_ ?_ (sameTunnel_create hc) hin hw
  · intro t e h he
    exact sameTunnel_enabled h he
  · intro t e u h he hs hs' hwhole
    have hu := sameTunnel_step h he hs hs' hwhole
    refine ⟨hu, observe_eq h he ?_ hwhole, hu.context.state, hu.context.nonce, hu.context.receivednonce,
      hu.committed, hu.closed, hu.halted, hu.history⟩
    intro seg env₀ heq
    rw [heq] at hs
    exact (step_read hs).2.1

instance (s : Inputstream) : Decidable (WholeHeader s) := inferInstanceAs (Decidable (_ ∨ _ ∧ _))

instance (S : Server) (l : Loop) (alloc : Bool) : Decidable (WholeTurn S l alloc) :=
  inferInstanceAs (Decidable (∀ data ∈ l.packet.data, _))

instance decidableWholeLoop (S : Server) (alloc : Nat → Bool) : ∀ (fuel : Nat) (l : Loop),
    Decidable (WholeLoop S alloc fuel l)
  | 0, _ => .isTrue trivial
  | fuel + 1, l =>
      have := decidableWholeLoop S alloc fuel (parseTurn S l (alloc fuel)).1
      inferInstanceAs (Decidable (l.read ≠ 0 → _))

instance (S : Server) (t : Tunnel) (env : ReadEnv) : Decidable (WholeMessages S t env) :=
  inferInstanceAs (Decidable (_ → _ → _ → _))

instance (S : Server) (t : Tunnel) : ∀ e : Event, Decidable (Whole S t e)
  | .read seg env =>
      match h : t.cc.state with
      | .initial => decidable_of_iff (192 ≤ (t.arrived seg env).istream.size) (by simp only [Whole, h])
      | .cookieSent =>
          decidable_of_iff (256 ≤ (t.arrived seg env).istream.size ∧
            (cryptoRecvInitiate S t.cc (initiateBuffer (t.arrived seg env) env) env.db).2 = true ∧
            WholeMessages S (parseInitiate S (t.arrived seg env) env) env) (by simp only [Whole, h])
      | .established => decidable_of_iff (WholeMessages S (t.arrived seg env) env) (by simp only [Whole, h])
  | .write _ _ => inferInstanceAs (Decidable (_ = _))
  | .eof => .isTrue trivial
  | .tick _ => .isTrue trivial

namespace Sample

/-- The sample environment with other bytes in all the memory that is not initialised. -/
def otherEnv : ReadEnv := { env with
  stale := List.replicate 256 170
  heap := fun _ => 170
  behind := fun _ => 170 }

def otherCreate : CreateEnv := { create with
  garbage := ⟨.established, 7, 9, fill 32 6, fill 32 6, fill 32 6, fill 32 6, fill 32 6, fill 32 6, [170]⟩
  length := 170
  ring := fun _ => 170 }

/-- The handshake and a message, in both runs. -/
def twoRuns : List (Event × Event) :=
  [(.read hello env, .read hello otherEnv),
    (.read (initiate (fill 32 3)) env, .read (initiate (fill 32 3)) otherEnv),
    (.read (messagePacket server session 5 [42]) env, .read (messagePacket server session 5 [42]) otherEnv)]

end Sample

/-- The handshake of the sample client and a message: all of it has been received. -/
theorem decisions_of_received_sample :
    Abreast (step Sample.server)
      (fun t e u => observe Sample.server t.2 e.2 = observe Sample.server t.1 e.1 ∧ SameVerdict u.1 u.2)
      (connectionCreate Sample.create, connectionCreate Sample.otherCreate) Sample.twoRuns ∧
    (exec (step Sample.server) (connectionCreate Sample.create) (Sample.twoRuns.map Prod.fst)).any
      (fun t => decide (t.committed = [42])) = true := by
  have hc : SameCreate Sample.create Sample.otherCreate := rfl
  have hrun : (exec (step Sample.server) (connectionCreate Sample.create) (Sample.twoRuns.map Prod.fst)).any
      (fun t => decide (t.committed = [42])) = true := by
    have hevents : Sample.twoRuns.map Prod.fst =
        Sample.handshake ++ [.read (messagePacket Sample.server Sample.session 5 [42]) Sample.env] := rfl
    rw [hevents, exec_append_of Sample.exec_handshake]
    decide +kernel
  refine ⟨decisions_of_received hc Sample.twoRuns ?_ (by decide +kernel), hrun⟩
  intro e he
  simp only [Sample.twoRuns, List.mem_cons, List.not_mem_nil, or_false] at he
  rcases he with rfl | rfl | rfl <;> exact SameInput.read _ rfl

/-- The first 100 bytes of a hello, in a stack buffer that holds the rest of it. -/
def Sample.staleEnv : ReadEnv := { Sample.env with stale := Sample.hello }

/-- **A short hello is completed with stale bytes.** The same 100 bytes are refused over one stack and answered
with a cookie over another. -/
theorem short_hello_completed :
    SameInput (.read (Sample.hello.take 100) Sample.env) (.read (Sample.hello.take 100) Sample.staleEnv) ∧
    ¬ Abreast (step Sample.server)
      (fun t e u => observe Sample.server t.2 e.2 = observe Sample.server t.1 e.1 ∧ SameVerdict u.1 u.2)
      (connectionCreate Sample.create, connectionCreate Sample.create)
      [(.read (Sample.hello.take 100) Sample.env, .read (Sample.hello.take 100) Sample.staleEnv)] := by
  refine ⟨SameInput.read _ rfl, ?_⟩
  intro habreast
  have hrun : (step Sample.server (connectionCreate Sample.create)
      (.read (Sample.hello.take 100) Sample.env)).any (fun t => decide (t.cc.state = .initial)) = true := by
    decide +kernel
  have hstale : (step Sample.server (connectionCreate Sample.create)
      (.read (Sample.hello.take 100) Sample.staleEnv)).any (fun t =>
          decide (t.cc.state = .cookieSent)) = true := by
    decide +kernel
  obtain ⟨t, hs, ht⟩ := (Option.any_eq_true _ _).mp hrun
  obtain ⟨t', hs', ht'⟩ := (Option.any_eq_true _ _).mp hstale
  have hstate := (habreast.2 (t, t') hs hs').1.2.state
  dsimp only at hstate
  rw [of_decide_eq_true ht, of_decide_eq_true ht'] at hstate
  cases hstate

end SploneBox
