/-
# SploneBox.Tunnel — one connection's end of the crypto tunnel: `parse_cb` up to the decoder.

A `Tunnel` is the part of `struct connection` that the receiving half of `parse_cb`, the minute-key
timer and `crypto_write` touch: the crypto context, the input ring, and the packet being reassembled.
It is a machine (`step`) over the callbacks of the event loop:

* `read` — libuv has delivered a segment; `inputstream_read_cb` and then `parse_cb` run;
* `eof` — the peer has closed;
* `tick` — the minute-key timer;
* `write` — some part of the core calls `crypto_write` on this connection.

Everything the code takes from outside is in the event: allocation results, fresh keys, the database,
the registry's answer for a plugin key, and the contents of memory that was never written — the stack
buffers of the handshake packets, a new heap block, the heap behind the ring.

The machine keeps a record (`History`) that no function reads: the boxes accepted, the nonces sealed
under, one `Turn` for every turn of the reassembly loop, the minute keys and the cookies. The claims
about whole runs are statements about it.
-/
import SploneBox.Crypto
import SploneBox.Inputstream
import SploneBox.Lib.Machine

namespace SploneBox

open Lib.Memory

/-! ## §1 State -/

/-- `con->packet`. `end_` is the number of bytes still missing, `data` the block being filled (`none`
for `NULL`), seen from its first byte on. -/
structure Packet where
  start : Nat
  end_ : Nat
  pos : Nat
  length : Nat
  data : Option (Nat → UInt8)

/-- The three kinds of boxes a client seals with a counter nonce. -/
inductive BoxKind where
  | initiate
  | header
  | payload
deriving DecidableEq

/-- A box that was accepted: the nonce and the box, and `receivednonce` when it was looked at. -/
structure Accepted where
  kind : BoxKind
  receivednonce : UInt64
  nonce : UInt64
  box : Bytes
deriving DecidableEq

/-- One turn of the `while (read > 0)` loop of `parse_cb`: the counters as the turn finds them, the
number of unread bytes and the distance to the end of the ring, the bytes it copies, and the plaintext
it writes behind `consumedlen`. `room` is `MAX(packet.end, read)` of the first header: the size of
`packet.data`, and the space reserved in the unpacker. -/
structure Turn where
  read : Nat
  end_ : Nat
  pos : Nat
  pending : Nat
  contiguous : Nat
  start : Nat
  room : Nat
  consumedlen : Nat
  plaintextlen : Nat
deriving DecidableEq

/-- What happened on the connection so far. `minutekeys` has the newest key first. -/
structure History where
  accepted : List Accepted
  sealed : List UInt64
  turns : List Turn
  minutekeys : List Key
  cookies : List Cookie
  hello : Option Key

structure Tunnel where
  cc : CryptoContext
  istream : Inputstream
  packet : Packet
  /-- The bytes given to the unpacker with `msgpack_unpacker_buffer_consumed`. -/
  committed : Bytes
  closed : Bool
  /-- The process has ended, in `exit(1)` or in `abort()`. -/
  halted : Bool
  history : History

/-! ## §2 The reassembly loop -/

/-- What a read callback takes from outside. `stale` are the bytes of the uninitialised stack buffer,
`heap` those of the new packet block, `behind` those of the heap from the end of the ring on;
`packetAlloc`, `reserve` and `readAlloc` are the results of the allocations, the last one of
`crypto_read` in each turn. -/
structure ReadEnv where
  stale : Bytes
  heap : Nat → UInt8
  behind : Nat → UInt8
  packetAlloc : Bool
  reserve : Bool
  readAlloc : Nat → Bool
  hello : HelloEnv
  db : Authorized
  registered : Bytes → Bool

/-- `reset_packet`. -/
def resetPacket (p : Packet) : Packet := { p with start := 0, end_ := 0, pos := 0 }

/-- `reset_parser`. -/
def resetParser (p : Packet) : Packet := resetPacket { p with data := none }

/-- The variables of the loop. `plain` is what has been written from `unpackbuf` on; its length is
`consumedlen`. -/
structure Loop where
  cc : CryptoContext
  istream : Inputstream
  packet : Packet
  read : Nat
  plain : Bytes
  room : Nat
  accepted : List Accepted
  turns : List Turn

/-- How a turn is left: back to the loop condition, `goto end`, or a failed assertion. -/
inductive Next where
  | again
  | ended
  | aborted
deriving DecidableEq

variable (S : Server)

/-- `crypto_read` of the packet collected at `packet.data`. -/
def readPacket (cc : CryptoContext) (p : Packet) (data : Nat → UInt8) (alloc : Bool) :
    Option (CryptoContext × Bytes) :=
  cryptoRead S cc (slice data 0 p.length) p.length alloc

/-- The record of a payload accepted from the packet at `data`. -/
def payloadAccepted (cc : CryptoContext) (p : Packet) (data : Nat → UInt8) : Accepted where
  kind := .payload
  receivednonce := cc.receivednonce
  nonce := cc.receivednonce + 2
  box := slice data 40 (p.length - 40)

/-- The record of a header whose length box was opened. -/
def headerAccepted (cc : CryptoContext) (data : Bytes) (r : HeaderResult) : List Accepted :=
  if r.length.isSome then
    [⟨.header, cc.receivednonce, uint64Unpack (data.drop 8), field data 16 24⟩]
  else []

/-- `packet.length` after `crypto_verify_header` has been given its address. -/
def Packet.store (p : Packet) (r : HeaderResult) : Packet :=
  match r.length with
  | some length => { p with length := length.toNat }
  | none => p

/-- The copy at the top of a turn: `inputstream_read` into `packet.data + packet.pos` and the three
counter updates, the last of them modulo `2 ^ 64`. -/
def takeBytes (l : Loop) (data : Nat → UInt8) : Loop × (Nat → UInt8) :=
  let got := inputstreamRead l.istream l.packet.end_
  let start := got.2.length
  let data := store data l.packet.pos got.2
  ({ l with
      istream := got.1
      packet := { l.packet with
        start := start
        pos := l.packet.pos + start
        end_ := l.packet.end_ - start
        data := some data }
      read := (l.read + 2 ^ 64 - start) % 2 ^ 64 }, data)

/-- The record of a turn that copies `start` bytes and then writes `plaintextlen` bytes of plaintext. -/
def Loop.turn (l : Loop) (start plaintextlen : Nat) : Turn where
  read := l.read
  end_ := l.packet.end_
  pos := l.packet.pos
  pending := l.istream.size
  contiguous := l.istream.capacity - l.istream.readPos
  start := start
  room := l.room
  consumedlen := l.plain.length
  plaintextlen := plaintextlen

/-- The header of the next packet, after a packet that was followed by more bytes. -/
def nextHeader (l : Loop) : Loop × Next :=
  match (inputstreamGetRead l.istream).1 with
  | none => ({ l with packet := resetParser l.packet }, .ended)
  | some ptr =>
      let data := slice l.istream.mem ptr 40
      let r := cryptoVerifyHeader S l.cc data
      let packet := l.packet.store r
      let l := { l with cc := r.cc, accepted := l.accepted ++ headerAccepted l.cc data r }
      if !r.ok then ({ l with packet := resetParser packet }, .ended)
      else ({ l with packet := { packet with end_ := packet.length } }, .again)

/-- One turn of the loop. -/
def parseTurn (l : Loop) (alloc : Bool) : Loop × Next :=
  match l.packet.data with
  | none => (l, .aborted)
  | some data =>
      let (l₁, data) := takeBytes l data
      let opened := readPacket S l₁.cc l₁.packet data alloc
      let done (n : Nat) : Loop := { l₁ with turns := l.turns ++ [l.turn l₁.packet.start n] }
      if l₁.read > 0 ∧ l₁.packet.end_ = 0 then
        match opened with
        | none => ({ done 0 with packet := resetParser l₁.packet }, .ended)
        | some (cc, m) =>
            nextHeader S { done m.length with
              cc := cc
              plain := l₁.plain ++ m
              accepted := l₁.accepted ++ [payloadAccepted l₁.cc l₁.packet data] }
      else if l₁.packet.end_ > 0 ∧ l₁.read = 0 then (done 0, .ended)
      else
        match opened with
        | none => ({ done 0 with packet := resetParser l₁.packet }, .ended)
        | some (cc, m) =>
            ({ done m.length with
                cc := cc
                plain := l₁.plain ++ m
                accepted := l₁.accepted ++ [payloadAccepted l₁.cc l₁.packet data]
                packet := resetParser l₁.packet }, .again)

/-- The loop. `again` with a non-zero `read` is returned only when the turns run out, which `size + 2`
turns never do (`parseLoop_exit`). -/
def parseLoop (alloc : Nat → Bool) : Nat → Loop → Loop × Next
  | 0, l => (l, .again)
  | fuel + 1, l =>
      if l.read = 0 then (l, .again)
      else
        match parseTurn S l (alloc fuel) with
        | (l', .again) => parseLoop alloc fuel l'
        | (l', next) => (l', next)

/-! ## §3 `parse_cb` -/

/-- How `parse_cb` leaves its receiving half: `goto end`, the close of a connection whose key is
already registered, the decode loop with the bytes just committed, or a failed assertion. -/
inductive Outcome where
  | ended
  | duplicate
  | decode (plain : Bytes)
  | aborted
deriving DecidableEq

/-- The effect of the receiving half. `register` is whether the connection was entered into
`pluginkeys` under its `pluginkeystring`. -/
structure ParseResult where
  tunnel : Tunnel
  register : Bool
  outcome : Outcome

/-- A stack buffer of `n` bytes after `inputstream_read` has copied `got` to its front. -/
def stackBuffer (n : Nat) (got stale : Bytes) : Bytes :=
  (Buffer.copy n (got ++ stale.drop got.length)).bytes

/-- The branch for `TUNNEL_INITIAL`. -/
def parseHello (t : Tunnel) (env : ReadEnv) : Tunnel :=
  let got := inputstreamRead t.istream 192
  let hellopacket := stackBuffer 192 got.2 env.stale
  let r := cryptoRecvHelloSendCookie S t.cc hellopacket env.hello
  { t with
    cc := r.cc
    istream := got.1
    history := { t.history with
      cookies := t.history.cookies ++ r.cookie.toList
      hello := if r.ok then some (Buffer.copy 32 (hellopacket.drop 8)) else t.history.hello } }

/-- The call of `crypto_recv_initiate` in the branch for `TUNNEL_COOKIE_SENT`. -/
def parseInitiate (t : Tunnel) (env : ReadEnv) : Tunnel :=
  let got := inputstreamRead t.istream 256
  let initiatepacket := stackBuffer 256 got.2 env.stale
  let r := cryptoRecvInitiate S t.cc initiatepacket env.db
  { t with
    cc := if r.2 then r.1 else { r.1 with state := .initial }
    istream := got.1
    history := { t.history with
      accepted := t.history.accepted ++
        if r.2 then
          [⟨.initiate, t.cc.receivednonce, uint64Unpack (initiatepacket.drop 104),
            field initiatepacket 112 144⟩]
        else [] } }

/-- The loop's variables before the first turn, once the header at the read position is verified and
the block for the packet is allocated. -/
def firstTurn (t : Tunnel) (env : ReadEnv) (data : Bytes) (r : HeaderResult) (read : Nat) : Loop :=
  let packet := t.packet.store r
  { cc := r.cc
    istream := t.istream
    packet := { packet with end_ := packet.length, data := some env.heap }
    read := read
    plain := []
    room := max packet.length read
    accepted := headerAccepted t.cc data r
    turns := [] }

/-- The end of the loop: what it has done is in the connection, and its plaintext is committed if it
was left through its condition. -/
def finishLoop (t : Tunnel) (x : Loop × Next) : ParseResult :=
  let t := { t with
    cc := x.1.cc
    istream := x.1.istream
    packet := x.1.packet
    history := { t.history with
      accepted := t.history.accepted ++ x.1.accepted
      turns := t.history.turns ++ x.1.turns } }
  match x.2 with
  | .again => ⟨{ t with committed := t.committed ++ x.1.plain }, false, .decode x.1.plain⟩
  | .ended => ⟨t, false, .ended⟩
  | .aborted => ⟨t, false, .aborted⟩

@[simp] theorem finishLoop_cc (t : Tunnel) (x : Loop × Next) :
    (finishLoop t x).tunnel.cc = x.1.cc := by
  unfold finishLoop
  dsimp only
  split <;> rfl

@[simp] theorem finishLoop_istream (t : Tunnel) (x : Loop × Next) :
    (finishLoop t x).tunnel.istream = x.1.istream := by
  unfold finishLoop
  dsimp only
  split <;> rfl

@[simp] theorem finishLoop_packet (t : Tunnel) (x : Loop × Next) :
    (finishLoop t x).tunnel.packet = x.1.packet := by
  unfold finishLoop
  dsimp only
  split <;> rfl

@[simp] theorem finishLoop_flags (t : Tunnel) (x : Loop × Next) :
    (finishLoop t x).tunnel.halted = t.halted ∧ (finishLoop t x).tunnel.closed = t.closed := by
  unfold finishLoop
  dsimp only
  split <;> exact ⟨rfl, rfl⟩

@[simp] theorem finishLoop_history (t : Tunnel) (x : Loop × Next) :
    (finishLoop t x).tunnel.history = { t.history with
      accepted := t.history.accepted ++ x.1.accepted
      turns := t.history.turns ++ x.1.turns } := by
  unfold finishLoop
  dsimp only
  split <;> rfl

/-- Lines 431 to 509: the message packets. A callback that finds a packet incomplete leaves `read` at 0
and goes straight to the decoder. -/
def parseMessages (t : Tunnel) (env : ReadEnv) : ParseResult :=
  if inputstreamPending t.istream = 0 ∨ t.cc.state ≠ .established then ⟨t, false, .ended⟩
  else if t.packet.end_ = 0 then
    match inputstreamGetRead t.istream with
    | (none, _) => ⟨t, false, .aborted⟩
    | (some ptr, read) =>
        let data := slice t.istream.mem ptr 40
        let r := cryptoVerifyHeader S t.cc data
        let packet := t.packet.store r
        let seen := { t with
          cc := r.cc
          history := { t.history with
            accepted := t.history.accepted ++ headerAccepted t.cc data r } }
        if !r.ok then ⟨{ seen with packet := resetPacket packet }, false, .ended⟩
        else if !env.packetAlloc then
          ⟨{ seen with packet := { packet with end_ := packet.length, data := none } }, false, .ended⟩
        else if !env.reserve then
          ⟨{ seen with packet := { packet with end_ := packet.length, data := some env.heap } },
            false, .ended⟩
        else
          finishLoop t (parseLoop S env.readAlloc (t.istream.size + 2) (firstTurn t env data r read))
  else ⟨t, false, .decode []⟩

/-- The ring with the heap behind it as it is at the moment. -/
def Inputstream.withBehind (s : Inputstream) (behind : Nat → UInt8) : Inputstream :=
  { s with mem := fun i => if i < s.capacity then s.mem i else behind i }

/-- `parse_cb` with `eof = false`, up to the decode loop. -/
def parseCb (t : Tunnel) (env : ReadEnv) : ParseResult :=
  let t := { t with istream := t.istream.withBehind env.behind }
  match t.cc.state with
  | .initial => ⟨parseHello S t env, false, .ended⟩
  | .cookieSent =>
      let t := parseInitiate S t env
      if env.registered (cstr t.cc.pluginkeystring) then
        ⟨{ t with cc := { t.cc with pluginkeystring := zeros 17 } }, false, .duplicate⟩
      else { parseMessages S t env with register := true }
  | .established => parseMessages S t env

/-! ## §4 The machine -/

/-- What the event loop can do to one connection. -/
inductive Event where
  | read (seg : Bytes) (env : ReadEnv)
  | eof
  | tick (fresh : Key)
  | write (data : Bytes) (env : WriteEnv)

/-- The tunnel after a read callback: a duplicate key closes the connection, a failed assertion ends
the process. -/
def afterRead (r : ParseResult) : Tunnel :=
  match r.outcome with
  | .duplicate => { r.tunnel with closed := true }
  | .aborted => { r.tunnel with halted := true }
  | _ => r.tunnel

@[simp] theorem afterRead_cc (r : ParseResult) : (afterRead r).cc = r.tunnel.cc := by
  unfold afterRead
  split <;> rfl

/-- `crypto_write` on the connection. -/
def afterWrite (t : Tunnel) (r : WriteResult) : Tunnel :=
  { t with
    cc := r.cc
    halted := r.outcome == .exited
    history := { t.history with sealed := t.history.sealed ++ r.sealed } }

/-- One callback. libuv delivers between one byte and the length it was offered, and nothing after the
stream was closed. -/
def step (t : Tunnel) : Event → Option Tunnel
  | .read seg env =>
      if t.halted ∨ t.closed ∨ seg = [] ∨ inputstreamAllocCb t.istream < seg.length then none
      else some (afterRead (parseCb S { t with istream := inputstreamReadCb t.istream seg } env))
  | .eof => if t.halted ∨ t.closed then none else some { t with closed := true }
  | .tick fresh =>
      if t.halted ∨ t.closed then none
      else some { t with
        cc := cryptoUpdateMinutekey t.cc fresh
        history := { t.history with minutekeys := fresh :: t.history.minutekeys } }
  | .write data env => if t.halted then none else some (afterWrite t (cryptoWrite S t.cc data env))

/-- What `connection_create` takes from outside: the bytes of `randommod`, the two fresh keys, and the
contents of the memory it gets from `MALLOC`. -/
structure CreateEnv where
  random : Bytes
  minutekey : Key
  lastminutekey : Key
  garbage : CryptoContext
  length : Nat
  ring : Nat → UInt8

/-- The initial server nonce: `randommod(281474976710656LL)`, rounded up to an even number. -/
def initialNonce (random : Bytes) : UInt64 :=
  let nonce := UInt64.ofInt (randommod 281474976710656 random)
  if isOdd nonce then nonce + 1 else nonce

/-- `connection_create`: the fields it does not write keep the contents of the new block. -/
def connectionCreate (env : CreateEnv) : Tunnel where
  cc := { env.garbage with
    nonce := initialNonce env.random
    receivednonce := 0
    state := .initial
    minutekey := env.minutekey
    lastminutekey := env.lastminutekey }
  istream := inputstreamNew env.ring 0xffff
  packet := ⟨0, 0, 0, env.length, none⟩
  committed := []
  closed := false
  halted := false
  history := ⟨[], [], [], [env.minutekey], [], none⟩

/-! ## §5 What one turn and the whole loop do -/

variable {S}

/-- A turn record with the loop variables after the copy. -/
def Loop.copied (l l₁ : Loop) (plaintextlen : Nat) : Loop :=
  { l₁ with turns := l.turns ++ [l.turn l₁.packet.start plaintextlen] }

/-- The loop variables after an accepted payload. -/
def Loop.opened (l l₁ : Loop) (data : Nat → UInt8) (cc : CryptoContext) (m : Bytes) : Loop :=
  { l.copied l₁ m.length with
    cc := cc
    plain := l₁.plain ++ m
    accepted := l₁.accepted ++ [payloadAccepted l₁.cc l₁.packet data] }

/-- **The ways through a turn.** The packet is refused; it is still incomplete; or its payload is
accepted, and then either the header behind it is looked at or the parser is reset. -/
theorem parseTurn_cases {l : Loop} {data : Nat → UInt8} (hd : l.packet.data = some data)
    (alloc : Bool) {l₁ : Loop} {data₁ : Nat → UInt8} (h₁ : takeBytes l data = (l₁, data₁)) :
    (readPacket S l₁.cc l₁.packet data₁ alloc = none ∧
      parseTurn S l alloc = ({ l.copied l₁ 0 with packet := resetParser l₁.packet }, .ended)) ∨
    (l₁.read = 0 ∧ 0 < l₁.packet.end_ ∧ parseTurn S l alloc = (l.copied l₁ 0, .ended)) ∨
    ∃ cc m, readPacket S l₁.cc l₁.packet data₁ alloc = some (cc, m) ∧
      ((0 < l₁.read ∧ l₁.packet.end_ = 0 ∧
          parseTurn S l alloc = nextHeader S (l.opened l₁ data₁ cc m)) ∨
        ((l₁.read = 0 ↔ l₁.packet.end_ = 0) ∧
          parseTurn S l alloc =
            ({ l.opened l₁ data₁ cc m with packet := resetParser l₁.packet }, .again))) := by
  unfold parseTurn
  rw [hd]
  simp only [h₁]
  split
  · rename_i hmore
    split
    · rename_i hnone
      exact Or.inl ⟨hnone, rfl⟩
    · rename_i cc m hopen
      exact Or.inr (Or.inr ⟨cc, m, hopen, Or.inl ⟨hmore.1, hmore.2, rfl⟩⟩)
  · rename_i hmore
    split
    · rename_i hpart
      exact Or.inr (Or.inl ⟨hpart.2, hpart.1, rfl⟩)
    · rename_i hpart
      split
      · rename_i hnone
        exact Or.inl ⟨hnone, rfl⟩
      · rename_i cc m hopen
        exact Or.inr (Or.inr ⟨cc, m, hopen, Or.inr ⟨by omega, rfl⟩⟩)

/-- The header behind a packet is missing, refused, or gives the length of the next packet. -/
theorem nextHeader_cases (l : Loop) :
    nextHeader S l = ({ l with packet := resetParser l.packet }, .ended) ∨
    ∃ data r, data = slice l.istream.mem l.istream.readPos 40 ∧ r = cryptoVerifyHeader S l.cc data ∧
      l.istream.size ≠ 0 ∧
      ((r.ok = false ∧ nextHeader S l =
          ({ l with
              cc := r.cc
              accepted := l.accepted ++ headerAccepted l.cc data r
              packet := resetParser (l.packet.store r) }, .ended)) ∨
        (r.ok = true ∧ nextHeader S l =
          ({ l with
              cc := r.cc
              accepted := l.accepted ++ headerAccepted l.cc data r
              packet := { l.packet.store r with end_ := (l.packet.store r).length } }, .again))) := by
  unfold nextHeader
  by_cases h0 : l.istream.size = 0
  · have hnone : (inputstreamGetRead l.istream).1 = none := by
      simp [inputstreamGetRead, inputstreamPending, h0]
    rw [hnone]
    exact Or.inl rfl
  · rw [inputstreamGetRead_pointer h0]
    refine Or.inr ⟨_, _, rfl, rfl, h0, ?_⟩
    dsimp only
    cases hok : (cryptoVerifyHeader S l.cc (slice l.istream.mem l.istream.readPos 40)).ok with
    | false => exact Or.inl ⟨rfl, rfl⟩
    | true => exact Or.inr ⟨rfl, rfl⟩

/-- A verified header has stored a length of at least 40. -/
theorem store_length_of_ok {cc : CryptoContext} {data : Bytes} {r : HeaderResult}
    (hr : r = cryptoVerifyHeader S cc data) (hok : r.ok = true) (p : Packet) :
    40 ≤ (p.store r).length := by
  rcases cryptoVerifyHeader_cases (S := S) cc data with h | ⟨length, _, _, h⟩
  · rw [hr, h] at hok
    cases hok
  · rw [hr, h] at hok ⊢
    have hlen : ¬ length < 40 := by simpa using hok
    simpa [Packet.store, UInt64.lt_iff_toNat_lt] using hlen

@[simp] theorem store_pos (p : Packet) (r : HeaderResult) : (p.store r).pos = p.pos := by
  unfold Packet.store
  split <;> rfl

/-- What the copy at the top of a turn does on a well-formed ring: `min end size` bytes move from the
ring to the packet. -/
structure TakeSpec (l : Loop) (data : Nat → UInt8) (l₁ : Loop) (data₁ : Nat → UInt8) : Prop where
  wf : l₁.istream.Wf
  mem : l₁.istream.mem = l.istream.mem
  capacity : l₁.istream.capacity = l.istream.capacity
  readPos : l₁.istream.readPos =
    (l.istream.readPos + min l.packet.end_ l.istream.size) % l.istream.capacity
  size : l₁.istream.size = l.istream.size - l.packet.end_
  unread : l₁.istream.unread = l.istream.unread.drop l.packet.end_
  data : data₁ = Lib.Memory.store data l.packet.pos (l.istream.unread.take l.packet.end_)
  frame : l₁ = { l with
    istream := l₁.istream
    packet := { l.packet with
      start := min l.packet.end_ l.istream.size
      pos := l.packet.pos + min l.packet.end_ l.istream.size
      end_ := l.packet.end_ - min l.packet.end_ l.istream.size
      data := some data₁ }
    read := (l.read + 2 ^ 64 - min l.packet.end_ l.istream.size) % 2 ^ 64 }

theorem takeBytes_spec {l : Loop} (hw : l.istream.Wf) (data : Nat → UInt8) :
    ∃ l₁ data₁, takeBytes l data = (l₁, data₁) ∧ TakeSpec l data l₁ data₁ := by
  have hread := inputstreamRead_spec hw l.packet.end_
  have hstart : (inputstreamRead l.istream l.packet.end_).2.length
      = min l.packet.end_ l.istream.size := by
    rw [hread.bytes, List.length_take, Inputstream.unread_length]
  refine ⟨_, _, rfl, hread.wf, hread.mem, hread.capacity, hread.readPos, hread.size, hread.unread,
    ?_, ?_⟩
  · simp only [hread.bytes]
  · simp only [hstart]

/-- **The rule for the loop.** What every turn that goes back to the loop condition keeps, and what
every turn that leaves the loop turns into `Q`, gives `Q` of the loop. -/
theorem parseLoop_rule {I : Loop → Prop} {Q : Loop × Next → Prop} {alloc : Nat → Bool}
    (hexit : ∀ l, I l → Q (l, .again))
    (hagain : ∀ l a, I l → (parseTurn S l a).2 = .again → I (parseTurn S l a).1)
    (hleave : ∀ l a, I l → (parseTurn S l a).2 ≠ .again → Q (parseTurn S l a)) :
    ∀ (fuel : Nat) (l : Loop), I l → Q (parseLoop S alloc fuel l)
  | 0, l, hI => hexit l hI
  | fuel + 1, l, hI => by
      unfold parseLoop
      split
      · exact hexit l hI
      · rcases hturn : parseTurn S l (alloc fuel) with ⟨l', next⟩
        have hI' := hagain l (alloc fuel) hI
        have hQ := hleave l (alloc fuel) hI
        rw [hturn] at hI' hQ
        cases next with
        | again => exact parseLoop_rule hexit hagain hleave fuel l' (hI' rfl)
        | ended => exact hQ (by simp)
        | aborted => exact hQ (by simp)

/-- The loop invariant of the ring: it is well formed, and while a packet is being collected there is
something left to collect and something to take it from. -/
structure Loop.Wf (l : Loop) : Prop where
  ring : l.istream.Wf
  live : ∀ d, l.packet.data = some d → 0 < l.packet.end_ ∧ 0 < l.istream.size

/-- **A turn keeps the ring well formed**, and one that goes back to the loop condition has either
taken a byte from the ring or given the packet block back. -/
theorem parseTurn_wf {l : Loop} (h : l.Wf) (alloc : Bool) :
    (parseTurn S l alloc).1.istream.Wf ∧
      ((parseTurn S l alloc).1.istream.capacity = l.istream.capacity) ∧
      ((parseTurn S l alloc).2 = .again → (parseTurn S l alloc).1.Wf ∧
        l.packet.data ≠ none ∧ (parseTurn S l alloc).1.istream.size < l.istream.size) := by
  cases hd : l.packet.data with
  | none =>
      have hturn : parseTurn S l alloc = (l, .aborted) := by
        unfold parseTurn
        rw [hd]
      rw [hturn]
      exact ⟨h.ring, rfl, fun hn => by cases hn⟩
  | some data =>
      obtain ⟨hend, hsize⟩ := h.live data hd
      obtain ⟨l₁, data₁, h₁, ht⟩ := takeBytes_spec h.ring data
      have hlt : l₁.istream.size < l.istream.size := by
        rw [ht.size]
        omega
      have hnone : ∀ p : Packet, ∀ d, (resetParser p).data = some d → False := by
        intro p d hp
        cases hp
      rcases parseTurn_cases (S := S) hd alloc h₁ with
        ⟨_, hp⟩ | ⟨_, _, hp⟩ | ⟨cc, m, _, ⟨_, _, hp⟩ | ⟨_, hp⟩⟩
      · rw [hp]
        exact ⟨ht.wf, ht.capacity, fun hn => by cases hn⟩
      · rw [hp]
        exact ⟨ht.wf, ht.capacity, fun hn => by cases hn⟩
      · rw [hp]
        rcases nextHeader_cases (S := S) (l.opened l₁ data₁ cc m) with
          hq | ⟨bytes, r, _, hr, hne, ⟨_, hq⟩ | ⟨hok, hq⟩⟩
        · rw [hq]
          exact ⟨ht.wf, ht.capacity, fun hn => by cases hn⟩
        · rw [hq]
          exact ⟨ht.wf, ht.capacity, fun hn => by cases hn⟩
        · rw [hq]
          refine ⟨ht.wf, ht.capacity, fun _ => ⟨⟨ht.wf, fun d _ => ⟨?_, ?_⟩⟩, by simp, hlt⟩⟩
          · have hlen := store_length_of_ok hr hok (l.opened l₁ data₁ cc m).packet
            dsimp only
            omega
          · exact Nat.pos_of_ne_zero hne
      · rw [hp]
        exact ⟨ht.wf, ht.capacity, fun _ => ⟨⟨ht.wf, fun d hq => (hnone _ d hq).elim⟩, by simp, hlt⟩⟩

theorem parseLoop_wf {l : Loop} (h : l.Wf) (alloc : Nat → Bool) (fuel : Nat) :
    (parseLoop S alloc fuel l).1.istream.Wf ∧
      (parseLoop S alloc fuel l).1.istream.capacity = l.istream.capacity := by
  refine parseLoop_rule (I := fun l' => l'.Wf ∧ l'.istream.capacity = l.istream.capacity)
    (Q := fun x => x.1.istream.Wf ∧ x.1.istream.capacity = l.istream.capacity)
    ?_ ?_ ?_ fuel l ⟨h, rfl⟩
  · exact fun l' h' => ⟨h'.1.ring, h'.2⟩
  · intro l' a h' hn
    obtain ⟨_, hc, hwf⟩ := parseTurn_wf (S := S) h'.1 a
    exact ⟨(hwf hn).1, hc.trans h'.2⟩
  · intro l' a h' _
    obtain ⟨hw, hc, _⟩ := parseTurn_wf (S := S) h'.1 a
    exact ⟨hw, hc.trans h'.2⟩

/-- **The loop ends**: with more turns than there are bytes in the ring, and one for the assertion, it
is left through its condition, through `goto end` or through the assertion. -/
theorem parseLoop_exit {alloc : Nat → Bool} :
    ∀ (fuel : Nat) (l : Loop), l.Wf → l.istream.size + 1 < fuel →
      (parseLoop S alloc fuel l).2 = .again → (parseLoop S alloc fuel l).1.read = 0
  | 0, _, _, hf, _ => absurd hf (Nat.not_lt_zero _)
  | fuel + 1, l, h, hf, hn => by
      unfold parseLoop at hn ⊢
      split
      · rename_i h0
        exact h0
      · rename_i h0
        rw [if_neg h0] at hn
        have hturn := parseTurn_wf (S := S) h (alloc fuel)
        rcases hp : parseTurn S l (alloc fuel) with ⟨l', next⟩
        rw [hp] at hturn hn
        cases next with
        | again =>
            obtain ⟨hw', _, hlt⟩ := hturn.2.2 rfl
            exact parseLoop_exit fuel l' hw' (by dsimp only at hlt; omega) hn
        | ended => cases hn
        | aborted => cases hn

/-! ## §6 What a step is made of -/

theorem withBehind_wf {s : Inputstream} (h : s.Wf) (behind : Nat → UInt8) : (s.withBehind behind).Wf :=
  ⟨h.capacity_pos, h.readPos_lt, h.size_le, h.writePos_eq⟩

/-- The heap behind the ring is not part of the queue. -/
theorem withBehind_unread {s : Inputstream} (h : s.Wf) (behind : Nat → UInt8) :
    (s.withBehind behind).unread = s.unread := by
  unfold Inputstream.unread window
  refine List.map_congr_left fun j _ => ?_
  have hlt : (s.readPos + j) % s.capacity < s.capacity := Nat.mod_lt _ h.capacity_pos
  simp only [Inputstream.withBehind, if_pos hlt]

theorem firstTurn_wf {t : Tunnel} {data : Bytes} {r : HeaderResult} (env : ReadEnv) (read : Nat)
    (h : t.istream.Wf) (hsize : t.istream.size ≠ 0) (hr : r = cryptoVerifyHeader S t.cc data)
    (hok : r.ok = true) : (firstTurn t env data r read).Wf := by
  have hlen := store_length_of_ok hr hok t.packet
  refine ⟨h, fun d _ => ⟨?_, Nat.pos_of_ne_zero hsize⟩⟩
  simp only [firstTurn]
  omega

/-- Between callbacks a packet that has nothing missing has nothing collected. -/
def Packet.Quiet (p : Packet) : Prop := p.end_ = 0 → p.pos = 0

theorem resetPacket_quiet (p : Packet) : (resetPacket p).Quiet := fun _ => rfl

theorem quiet_of_pos {p : Packet} (h : 0 < p.end_) : p.Quiet := fun h0 => by omega

/-- A turn leaves the packet reset or with bytes missing. -/
theorem parseTurn_quiet {l : Loop} (h : l.packet.Quiet) (alloc : Bool) :
    (parseTurn S l alloc).1.packet.Quiet := by
  cases hd : l.packet.data with
  | none =>
      unfold parseTurn
      rw [hd]
      exact h
  | some data =>
      rcases h₁ : takeBytes l data with ⟨l₁, data₁⟩
      rcases parseTurn_cases (S := S) hd alloc h₁ with
        ⟨_, hp⟩ | ⟨_, he, hp⟩ | ⟨cc, m, _, ⟨_, _, hp⟩ | ⟨_, hp⟩⟩
      · rw [hp]
        exact resetPacket_quiet _
      · rw [hp]
        exact quiet_of_pos he
      · rw [hp]
        rcases nextHeader_cases (S := S) (l.opened l₁ data₁ cc m) with
          hq | ⟨bytes, r, _, hr, _, ⟨_, hq⟩ | ⟨hok, hq⟩⟩
        · rw [hq]
          exact resetPacket_quiet _
        · rw [hq]
          exact resetPacket_quiet _
        · rw [hq]
          have hlen := store_length_of_ok hr hok (l.opened l₁ data₁ cc m).packet
          exact quiet_of_pos (by dsimp only; omega)
      · rw [hp]
        exact resetPacket_quiet _

theorem parseLoop_quiet {l : Loop} (h : l.packet.Quiet) (alloc : Nat → Bool) (fuel : Nat) :
    (parseLoop S alloc fuel l).1.packet.Quiet :=
  parseLoop_rule (I := fun l' => l'.packet.Quiet) (Q := fun x => x.1.packet.Quiet)
    (fun _ h' => h') (fun _ a h' _ => parseTurn_quiet h' a) (fun _ a h' _ => parseTurn_quiet h' a)
    fuel l h

/-- **The ways through the message part**: nothing to do, a refused header, a packet that cannot be
stored, an incomplete packet, or the loop. -/
theorem parseMessages_cases (t : Tunnel) (env : ReadEnv) :
    (parseMessages S t env = ⟨t, false, .ended⟩ ∧
      (t.istream.size = 0 ∨ t.cc.state ≠ .established)) ∨
    (parseMessages S t env = ⟨t, false, .decode []⟩ ∧ t.packet.end_ ≠ 0) ∨
    ∃ data r, data = slice t.istream.mem t.istream.readPos 40 ∧ r = cryptoVerifyHeader S t.cc data ∧
      t.istream.size ≠ 0 ∧ t.cc.state = .established ∧ t.packet.end_ = 0 ∧
      ((∃ packet, packet.Quiet ∧ (r.ok = false ∨ env.packetAlloc = false ∨ env.reserve = false) ∧
          parseMessages S t env =
            ⟨{ t with
                cc := r.cc
                packet := packet
                history := { t.history with
                  accepted := t.history.accepted ++ headerAccepted t.cc data r } }, false, .ended⟩) ∨
        (r.ok = true ∧ env.packetAlloc = true ∧ env.reserve = true ∧
          parseMessages S t env =
            finishLoop t (parseLoop S env.readAlloc (t.istream.size + 2)
              (firstTurn t env data r (inputstreamGetRead t.istream).2)))) := by
  unfold parseMessages
  split
  · rename_i h
    exact Or.inl ⟨rfl, h⟩
  rename_i h
  obtain ⟨hsize, hstate⟩ := not_or.mp h
  split
  · rename_i hend
    refine Or.inr (Or.inr ⟨_, _, rfl, rfl, hsize, not_not.mp hstate, hend, ?_⟩)
    have hptr := inputstreamGetRead_pointer hsize
    rcases hget : inputstreamGetRead t.istream with ⟨ptr, read⟩
    rw [hget] at hptr
    cases hptr
    dsimp only
    cases hok : (cryptoVerifyHeader S t.cc (slice t.istream.mem t.istream.readPos 40)).ok with
    | false => exact Or.inl ⟨_, resetPacket_quiet _, Or.inl rfl, rfl⟩
    | true =>
        have hlen := store_length_of_ok rfl hok t.packet
        cases hpa : env.packetAlloc with
        | false =>
            exact Or.inl ⟨_, quiet_of_pos (by dsimp only; omega), Or.inr (Or.inl rfl), rfl⟩
        | true =>
            cases hre : env.reserve with
            | false =>
                exact Or.inl ⟨_, quiet_of_pos (by dsimp only; omega), Or.inr (Or.inr rfl), rfl⟩
            | true => exact Or.inr ⟨rfl, rfl, rfl, rfl⟩
  · rename_i hend
    exact Or.inr (Or.inl ⟨rfl, hend⟩)

/-- **The operations a step is made of**, as the closure conditions of a predicate: the segment enters
the ring, one of the three branches of `parse_cb` runs, a duplicate key is cleared, a flag is set, the
minute key rotates, or `crypto_write` runs. -/
structure Closed (S : Server) (I : Tunnel → Prop) : Prop where
  segment : ∀ t seg behind, I t → seg.length ≤ inputstreamAllocCb t.istream →
    I { t with istream := (inputstreamReadCb t.istream seg).withBehind behind }
  hello : ∀ t env, I t → t.cc.state = .initial → I (parseHello S t env)
  initiate : ∀ t env, I t → t.cc.state = .cookieSent → I (parseInitiate S t env)
  messages : ∀ t env, I t → I (parseMessages S t env).tunnel
  clearKey : ∀ t, I t → I { t with cc := { t.cc with pluginkeystring := zeros 17 } }
  close : ∀ t, I t → I { t with closed := true }
  halt : ∀ t, I t → I { t with halted := true }
  tick : ∀ t fresh, I t → I { t with
    cc := cryptoUpdateMinutekey t.cc fresh
    history := { t.history with minutekeys := fresh :: t.history.minutekeys } }
  write : ∀ t data env, I t → t.halted = false → I (afterWrite t (cryptoWrite S t.cc data env))

theorem Closed.afterRead {I : Tunnel → Prop} (hI : Closed S I) {r : ParseResult} (h : I r.tunnel) :
    I (afterRead r) := by
  unfold SploneBox.afterRead
  split
  · exact hI.close _ h
  · exact hI.halt _ h
  · exact h

/-- The tunnel `parse_cb` starts with when a segment has arrived. -/
def Tunnel.arrived (t : Tunnel) (seg : Bytes) (env : ReadEnv) : Tunnel :=
  { t with istream := (inputstreamReadCb t.istream seg).withBehind env.behind }

/-- A read step is one of the three branches of `parse_cb` on a segment that fits. -/
theorem step_read {t t' : Tunnel} {seg : Bytes} {env : ReadEnv}
    (h : step S t (.read seg env) = some t') :
    seg ≠ [] ∧ seg.length ≤ inputstreamAllocCb t.istream ∧
      ((t.cc.state = .initial ∧ t' = parseHello S (t.arrived seg env) env) ∨
        (t.cc.state = .cookieSent ∧
          ((env.registered (cstr (parseInitiate S (t.arrived seg env) env).cc.pluginkeystring) = true ∧
              t' = { parseInitiate S (t.arrived seg env) env with
                cc := { (parseInitiate S (t.arrived seg env) env).cc with
                  pluginkeystring := zeros 17 }
                closed := true }) ∨
            (env.registered (cstr (parseInitiate S (t.arrived seg env) env).cc.pluginkeystring) = false ∧
              t' = afterRead (parseMessages S (parseInitiate S (t.arrived seg env) env) env)))) ∨
        (t.cc.state = .established ∧ t' = afterRead (parseMessages S (t.arrived seg env) env))) := by
  simp only [SploneBox.step] at h
  split at h
  · cases h
  rename_i hok
  simp only [not_or, not_lt] at hok
  cases h
  refine ⟨hok.2.2.1, hok.2.2.2, ?_⟩
  unfold parseCb
  dsimp only
  split
  · rename_i hst
    exact Or.inl ⟨hst, rfl⟩
  · rename_i hst
    refine Or.inr (Or.inl ⟨hst, ?_⟩)
    split
    · rename_i hreg
      exact Or.inl ⟨hreg, rfl⟩
    · rename_i hreg
      exact Or.inr ⟨Bool.eq_false_of_not_eq_true hreg, rfl⟩
  · rename_i hst
    exact Or.inr (Or.inr ⟨hst, rfl⟩)

/-- A closed predicate is kept by every step. -/
theorem Closed.step {I : Tunnel → Prop} (hI : Closed S I) {t t' : Tunnel} {e : Event} (h : I t)
    (hs : step S t e = some t') : I t' := by
  cases e with
  | read seg env =>
      obtain ⟨_, hfit, hcases⟩ := step_read hs
      have h₀ : I (t.arrived seg env) := hI.segment t seg env.behind h hfit
      rcases hcases with ⟨hst, rfl⟩ | ⟨hst, ⟨_, rfl⟩ | ⟨_, rfl⟩⟩ | ⟨_, rfl⟩
      · exact hI.hello _ env h₀ hst
      · exact hI.close _ (hI.clearKey _ (hI.initiate _ env h₀ hst))
      · exact hI.afterRead (hI.messages _ env (hI.initiate _ env h₀ hst))
      · exact hI.afterRead (hI.messages _ env h₀)
  | eof =>
      simp only [SploneBox.step] at hs
      split at hs
      · cases hs
      · cases hs
        exact hI.close t h
  | tick fresh =>
      simp only [SploneBox.step] at hs
      split at hs
      · cases hs
      · cases hs
        exact hI.tick t fresh h
  | write data env =>
      simp only [SploneBox.step] at hs
      split at hs
      · cases hs
      · rename_i hhalt
        cases hs
        exact hI.write t data env h (by simpa using hhalt)

/-- The ring is well formed in every state of every run. -/
theorem ring_closed : Closed S fun t => t.istream.Wf ∧ t.istream.capacity = 0xffff where
  segment := fun t seg behind h hfit =>
    ⟨withBehind_wf (inputstreamReadCb_spec h.1 hfit).1 behind, h.2⟩
  hello := fun t _ h _ =>
    have hr := inputstreamRead_spec h.1 192
    ⟨hr.wf, hr.capacity.trans h.2⟩
  initiate := fun t _ h _ =>
    have hr := inputstreamRead_spec h.1 256
    ⟨hr.wf, hr.capacity.trans h.2⟩
  messages := by
    intro t env h
    rcases parseMessages_cases (S := S) t env with
      ⟨hp, _⟩ | ⟨hp, _⟩ | ⟨data, r, _, hr, hsize, _, _, ⟨packet, _, _, hp⟩ | ⟨hok, _, _, hp⟩⟩
    · rw [hp]
      exact h
    · rw [hp]
      exact h
    · rw [hp]
      exact h
    · rw [hp]
      have hfirst := firstTurn_wf env (inputstreamGetRead t.istream).2 h.1 hsize hr hok
      obtain ⟨hw, hc⟩ := parseLoop_wf (S := S) hfirst env.readAlloc (t.istream.size + 2)
      rw [finishLoop_istream]
      exact ⟨hw, hc.trans h.2⟩
  clearKey := fun _ h => h
  close := fun _ h => h
  halt := fun _ h => h
  tick := fun _ _ h => h
  write := fun _ _ _ h _ => h

theorem connectionCreate_ring (env : CreateEnv) :
    (connectionCreate env).istream.Wf ∧ (connectionCreate env).istream.capacity = 0xffff :=
  ⟨inputstreamNew_wf env.ring (by decide), rfl⟩

end SploneBox
