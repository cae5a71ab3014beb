/-
# SploneBox.Client — the other end of the tunnel: the packets a client builds.

The layouts are the ones the receiving functions of `crypto.c` take apart. `messagePacket` is
`crypto_write`'s with the client's identifier and nonce prefix, one nonce for the length box and the
next odd number for the payload; `cryptoVerifyHeader_message` and `cryptoRead_message` say that the
server reads it back. `Sample` is a server with a client that has shaken hands with it, on which the
statements about runs can be evaluated.
-/
import SploneBox.Tunnel

namespace SploneBox

open Lib.Machine Lib.Memory

variable (S : Server)

/-- The nonce of a client box: the prefix and the counter. -/
def clientNonce (n : UInt64) : Bytes := prefixSploneboxclient ++ uint64Pack n

/-- A hello packet of the short-term key `C'`. -/
def helloPacket (clientshorttermpk : Key) (n : UInt64) : Bytes :=
  idHelloClient ++ (clientshorttermpk.bytes ++ (zeros 64 ++ (uint64Pack n ++
    S.nacl.box (zeros 64) (clientNonce n)
      (cryptoBoxBeforenm S clientshorttermpk.bytes S.serverlongtermsk).bytes)))

/-- The box of a cookie for the short-term keys `C'` and `s'`. -/
def cookieBox (minutekey : Key) (nonce : Buffer 16) (clientshorttermpk servershorttermsk : Key) :
    Bytes :=
  S.nacl.box (clientshorttermpk.bytes ++ servershorttermsk.bytes) (cryptoMinuteKey ++ nonce.bytes)
    minutekey.bytes

/-- The vouch of the long-term key `L` for the short-term keys `C'` and `S'`. -/
def vouchBox (clientlongtermpk clientshorttermpk servershorttermpk : Key) (nonce : Buffer 16) : Bytes :=
  S.nacl.box (clientshorttermpk.bytes ++ servershorttermpk.bytes) (prefixVnonce ++ nonce.bytes)
    (cryptoBoxBeforenm S clientlongtermpk.bytes S.serverlongtermsk).bytes

/-- An initiate packet: a cookie, and under the session key the long-term key with its vouch. -/
def initiatePacket (cookienonce : Buffer 16) (cookie : Bytes) (n : UInt64) (session : Key)
    (clientlongtermpk : Key) (vouchnonce : Buffer 16) (vouch : Bytes) : Bytes :=
  idInitiateClient ++ (cookienonce.bytes ++ (cookie ++ (uint64Pack n ++
    S.nacl.box (clientlongtermpk.bytes ++ (vouchnonce.bytes ++ vouch)) (clientNonce n) session.bytes)))

/-- The 40 bytes in front of a payload: the identifier, the nonce and the boxed length. -/
def messageHeader (session : Key) (n length : UInt64) : Bytes :=
  idMessageClient ++ (uint64Pack n ++
    S.nacl.box (uint64Pack length) (clientNonce n) session.bytes)

/-- A message packet under the session key. -/
def messagePacket (session : Key) (n : UInt64) (m : Bytes) : Bytes :=
  messageHeader S session n (UInt64.ofNat (m.length + 56)) ++
    S.nacl.box m (clientNonce (n + 2)) session.bytes

@[simp] theorem messageHeader_length (session : Key) (n length : UInt64) :
    (messageHeader S session n length).length = 40 := by
  simp [messageHeader, S.nacl.box_length, idMessageClient, ascii]

@[simp] theorem messagePacket_length (session : Key) (n : UInt64) (m : Bytes) :
    (messagePacket S session n m).length = m.length + 56 := by
  simp only [messagePacket, List.length_append, messageHeader_length, S.nacl.box_length]
  omega

variable {S}

/-- **The header of a message packet is read back**: under a fresh odd nonce the box opens, and the
length stored is the one that was sealed. -/
theorem cryptoVerifyHeader_message {cc : CryptoContext} {n : UInt64} (length : UInt64)
    (hfresh : nonceFresh cc n = true) :
    cryptoVerifyHeader S cc (messageHeader S cc.clientshortservershort n length) =
      ⟨{ cc with receivednonce := n }, some length, !(length < 40)⟩ := by
  have hid : ¬ byteIsequal (messageHeader S cc.clientshortservershort n length) 8 idMessageClient
      = 0 := by
    rw [← ne_eq, byteIsequal_ne_zero_iff (by simp) (by decide)]
    rfl
  have hdrop8 : (messageHeader S cc.clientshortservershort n length).drop 8 = uint64Pack n ++
      S.nacl.box (uint64Pack length) (clientNonce n) cc.clientshortservershort.bytes :=
    List.drop_left' rfl
  have hdrop16 : (messageHeader S cc.clientshortservershort n length).drop 16 =
      S.nacl.box (uint64Pack length) (clientNonce n) cc.clientshortservershort.bytes := by
    rw [show (16 : Nat) = 8 + 8 from rfl, ← List.drop_drop, hdrop8,
      List.drop_left' (uint64Pack_length n)]
  have hnonce : field (messageHeader S cc.clientshortservershort n length) 8 8 = uint64Pack n := by
    rw [field, hdrop8, List.take_left' (uint64Pack_length n)]
  have hbox : field (messageHeader S cc.clientshortservershort n length) 16 24 =
      S.nacl.box (uint64Pack length) (clientNonce n) cc.clientshortservershort.bytes := by
    rw [field, hdrop16, List.take_of_length_le (by simp [S.nacl.box_length])]
  unfold cryptoVerifyHeader
  rw [if_neg hid, hdrop8, uint64Unpack_uint64Pack, hnonce, hbox]
  simp only [hfresh, Bool.not_true, Bool.false_eq_true, if_false]
  have hopen := cryptoBoxOpenAfternm_box (N := S.nacl) (uint64Pack length) (clientNonce n)
    cc.clientshortservershort.bytes
  rw [clientNonce] at hopen ⊢
  rw [hopen]
  have hlen : uint64Unpack ((zeros 32 ++ uint64Pack length).drop 32) = length := by
    rw [List.drop_left' (zeros_length 32), ← List.append_nil (uint64Pack length)]
    exact uint64Unpack_uint64Pack length []
  simp only [hlen]

/-- **The payload of a message packet is read back** once its header has been accepted. -/
theorem cryptoRead_message {cc : CryptoContext} (m : Bytes) :
    cryptoRead S cc (messagePacket S cc.clientshortservershort cc.receivednonce m) (m.length + 56)
      true = some ({ cc with receivednonce := cc.receivednonce + 2 }, m) := by
  have hbox : field (messagePacket S cc.clientshortservershort cc.receivednonce m) 40
      (m.length + 56 - 40) =
      S.nacl.box m (clientNonce (cc.receivednonce + 2)) cc.clientshortservershort.bytes := by
    rw [field, messagePacket, List.drop_left' (messageHeader_length S _ _ _),
      List.take_of_length_le (by rw [S.nacl.box_length]; omega)]
  have hopen := cryptoBoxOpenAfternm_box (N := S.nacl) m (clientNonce (cc.receivednonce + 2))
    cc.clientshortservershort.bytes
  unfold cryptoRead
  simp only [Bool.not_true, Bool.false_eq_true, if_false]
  rw [hbox]
  rw [clientNonce] at hopen ⊢
  rw [hopen]
  have hplain : field (zeros 32 ++ m) 32 (m.length + 56 - 56) = m := by
    rw [field, List.drop_left' (zeros_length 32), List.take_of_length_le (by omega)]
  simp only [hplain]

/-! ## §2 A client that has shaken hands -/

namespace Sample

/-- A buffer filled with one byte. -/
def fill (n : Nat) (b : UInt8) : Buffer n := ⟨List.replicate n b, by simp⟩

def server : Server := ⟨Nacl.tagging, zeros 32⟩

/-- All allocations and writes succeed, every long-term key is authorized and none is registered. -/
def env : ReadEnv where
  stale := []
  heap := fun _ => 0
  behind := fun _ => 0
  packetAlloc := true
  reserve := true
  readAlloc := fun _ => true
  hello := ⟨fill 32 2, some (fill 16 7), true⟩
  db := ⟨false, fun _ => true⟩
  registered := fun _ => false

def create : CreateEnv where
  random := []
  minutekey := fill 32 4
  lastminutekey := fill 32 5
  garbage := ⟨.initial, 0, 0, fill 32 0, fill 32 0, fill 32 0, fill 32 0, fill 32 0, fill 32 0, []⟩
  length := 0
  ring := fun _ => 0

/-- The session key of the client's and the server's short-term keys. -/
def session : Key := cryptoBoxBeforenm server (fill 32 1).bytes (fill 32 2).bytes

def hello : Bytes := helloPacket server (fill 32 1) 1

/-- The initiate packet of the client with the long-term key `L`. -/
def initiate (clientlongtermpk : Key) : Bytes :=
  initiatePacket server (fill 16 7)
    (cookieBox server (fill 32 4) (fill 16 7) (fill 32 1) (fill 32 2)) 3 session clientlongtermpk
    (fill 16 8) (vouchBox server clientlongtermpk (fill 32 1) (fill 32 2) (fill 16 8))

def handshake : List Event := [.read hello env, .read (initiate (fill 32 3)) env]

/-! ## §3 After the handshake

What the handshake leads to, without the ring that the packets have gone through: the samples start from here.
-/

/-- The tunnel of a new connection. -/
def opened : Tunnel := connectionCreate create

/-- The ring with a segment in it, as `parse_cb` finds it. -/
def ringWith (t : Tunnel) (seg : Bytes) : Inputstream := (inputstreamReadCb t.istream seg).withBehind env.behind

/-- The tunnel that has answered the hello packet. -/
def greeted : Tunnel :=
  let r := cryptoRecvHelloSendCookie server opened.cc hello env.hello
  { opened with
    cc := r.cc
    istream := (inputstreamRead (ringWith opened hello) 192).1
    history := { opened.history with
      cookies := opened.history.cookies ++ r.cookie.toList
      hello := if r.ok then some (Buffer.copy 32 (hello.drop 8)) else opened.history.hello } }

/-- The tunnel that has taken the initiate packet. -/
def established : Tunnel :=
  let r := cryptoRecvInitiate server greeted.cc (initiate (fill 32 3)) env.db
  { greeted with
    cc := if r.2 then r.1 else { r.1 with state := .initial }
    istream := (inputstreamRead (ringWith greeted (initiate (fill 32 3))) 256).1
    history := { greeted.history with
      accepted := greeted.history.accepted ++
        if r.2 then
          [⟨.initiate, greeted.cc.receivednonce, uint64Unpack ((initiate (fill 32 3)).drop 104),
            field (initiate (fill 32 3)) 112 144⟩]
        else [] } }

theorem hello_received : stackBuffer 192 (inputstreamRead (ringWith opened hello) 192).2 env.stale = hello := by
  decide +kernel

theorem initiate_received :
    stackBuffer 256 (inputstreamRead (ringWith greeted (initiate (fill 32 3))) 256).2 env.stale =
      initiate (fill 32 3) := by
  decide +kernel

theorem greeted_state : greeted.cc.state = .cookieSent := by decide +kernel

theorem established_pending : inputstreamPending established.istream = 0 := by decide +kernel

/-- The hello packet, whatever is registered. -/
theorem parseCb_hello (registered : Bytes → Bool) :
    parseCb server { opened with istream := inputstreamReadCb opened.istream hello } { env with registered } =
      ⟨greeted, false, .ended⟩ := by
  show (⟨parseHello server { opened with istream := ringWith opened hello } { env with registered }, false,
      .ended⟩ : ParseResult) = _
  unfold parseHello
  dsimp only
  rw [hello_received]
  rfl

/-- The initiate packet of a client whose key is not registered. -/
theorem parseCb_initiate {registered : Bytes → Bool}
    (hnew : registered (cstr established.cc.pluginkeystring) = false) :
    parseCb server { greeted with istream := inputstreamReadCb greeted.istream (initiate (fill 32 3)) }
      { env with registered } =
      ⟨established, true, .ended⟩ := by
  have hparse : parseInitiate server { greeted with istream := ringWith greeted (initiate (fill 32 3)) }
      { env with registered } =
      established := by
    unfold parseInitiate
    dsimp only
    rw [initiate_received]
    rfl
  unfold parseCb
  dsimp only
  rw [greeted_state]
  dsimp only
  rw [← ringWith, hparse, if_neg (by simp [hnew])]
  unfold parseMessages
  rw [if_pos (Or.inl established_pending)]

/-- A segment that is taken. -/
theorem step_taken {t : Tunnel} {seg : Bytes} (hopen : t.halted = false ∧ t.closed = false) (hseg : seg ≠ [])
    (hfits : seg.length ≤ inputstreamAllocCb t.istream) :
    step server t (.read seg env) =
      some (afterRead (parseCb server { t with istream := inputstreamReadCb t.istream seg } env)) := by
  apply if_neg
  simp only [hopen.1, hopen.2, hseg, Bool.false_eq_true, false_or]
  exact Nat.not_lt.mpr hfits

theorem step_hello : step server opened (.read hello env) = some greeted := by
  rw [step_taken (by decide) (by decide) (by decide +kernel)]
  exact congrArg (fun r => some (afterRead r)) (parseCb_hello env.registered)

theorem step_initiate : step server greeted (.read (initiate (fill 32 3)) env) = some established := by
  rw [step_taken (by decide) (by decide) (by decide +kernel)]
  have hnew : env.registered (cstr established.cc.pluginkeystring) = false := by
    unfold env
    rfl
  have hparse :
      parseCb server { greeted with istream := inputstreamReadCb greeted.istream (initiate (fill 32 3)) } env =
      ⟨established, true, .ended⟩ := parseCb_initiate hnew
  rw [hparse]
  rfl

theorem exec_handshake : exec (step server) (connectionCreate create) handshake = some established := by
  unfold handshake
  rw [exec_cons]
  exact ⟨greeted, step_hello, exec_singleton.mpr step_initiate⟩

end Sample

end SploneBox
