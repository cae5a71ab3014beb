/-
# SploneBox.Crypto — the tunnel functions of `crypto.c` over one connection's `crypto_context`.

Every function takes the context and returns the new one together with what its caller can see: the
result code, the bytes written, and, for the functions that seal, the nonces and cookies they sealed.
The updates stand where the source has them, also on the paths that fail later: `crypto_verify_header`
has stored the nonce before it looks at the length, `crypto_recv_initiate` has replaced the session key
before it looks at the nonce, `crypto_recv_hello_send_cookie` has replaced the short-term keys before it
can fail.

What the rest of the development uses of each function is one inversion lemma:
`cryptoVerifyHeader_cases`, `cryptoRead_some`, `cryptoRecvHelloSendCookie_cases`,
`cryptoRecvInitiate_established`, `cryptoRecvInitiate_rejected`, `cryptoWrite_cases`.
-/
import SploneBox.Nacl

namespace SploneBox

/-! ## §1 The context -/

/-- `unsigned char b[n]`: a buffer of exactly `n` bytes. -/
structure Buffer (n : Nat) where
  bytes : Bytes
  length_eq : bytes.length = n
deriving DecidableEq

namespace Buffer

/-- `memcpy(b, src, n)`. -/
def copy (n : Nat) (src : Bytes) : Buffer n where
  bytes := (src ++ zeros n).take n
  length_eq := by simp

/-- `sbmemzero(b, n)`. -/
def zero (n : Nat) : Buffer n := ⟨zeros n, zeros_length n⟩

theorem copy_bytes {n : Nat} {src : Bytes} (h : n ≤ src.length) : (copy n src).bytes = src.take n :=
  List.take_append_of_le_length h

theorem ext_bytes {n : Nat} {a b : Buffer n} (h : a.bytes = b.bytes) : a = b := by
  cases a
  cases b
  cases h
  rfl

end Buffer

/-- A 32-byte key. -/
abbrev Key := Buffer 32

/-- `crypto_state`. -/
inductive CryptoState where
  | initial
  | cookieSent
  | established
deriving DecidableEq

/-- `struct crypto_context`. `pluginkeystring` stands for the field and the padding behind it: a
string function that meets no NUL there stops at `packet.start`, which is 0 until the field has been
written. -/
structure CryptoContext where
  state : CryptoState
  nonce : UInt64
  receivednonce : UInt64
  clientshortservershort : Key
  clientshorttermpk : Key
  servershorttermpk : Key
  servershorttermsk : Key
  minutekey : Key
  lastminutekey : Key
  pluginkeystring : Bytes
deriving DecidableEq

/-- `CRYPTO_PREFIX_SPLONEBOXCLIENT`. -/
def prefixSploneboxclient : Bytes :=
  ascii ['s', 'p', 'l', 'o', 'n', 'e', 'b', 'o', 'x', '-', 'c', 'l', 'i', 'e', 'n', 't']

/-- `CRYPTO_PREFIX_SPLONEBOXSERVER`. -/
def prefixSploneboxserver : Bytes :=
  ascii ['s', 'p', 'l', 'o', 'n', 'e', 'b', 'o', 'x', '-', 's', 'e', 'r', 'v', 'e', 'r']

/-- `CRYPTO_PREFIX_KNONCE`. -/
def prefixKnonce : Bytes := ascii ['s', 'p', 'l', 'o', 'n', 'e', 'P', 'K']

/-- `CRYPTO_PREFIX_VNONCE`. -/
def prefixVnonce : Bytes := ascii ['s', 'p', 'l', 'o', 'n', 'e', 'P', 'V']

/-- `CRYPTO_MINUTE_KEY`. -/
def cryptoMinuteKey : Bytes := ascii ['m', 'i', 'n', 'u', 't', 'e', '-', 'k']

/-- `CRYPTO_ID_MESSAGE_SERVER`. -/
def idMessageServer : Bytes := ascii ['r', 'Z', 'Q', 'T', 'd', '2', 'n', 'M']

/-- `CRYPTO_ID_MESSAGE_CLIENT`. -/
def idMessageClient : Bytes := ascii ['o', 'q', 'Q', 'N', '2', 'k', 'a', 'M']

/-- `CRYPTO_ID_COOKIE_SERVER`. -/
def idCookieServer : Bytes := ascii ['r', 'Z', 'Q', 'T', 'd', '2', 'n', 'C']

/-- `CRYPTO_ID_HELLO_CLIENT`. -/
def idHelloClient : Bytes := ascii ['o', 'q', 'Q', 'N', '2', 'k', 'a', 'H']

/-- `CRYPTO_ID_INITIATE_CLIENT`. -/
def idInitiateClient : Bytes := ascii ['o', 'q', 'Q', 'N', '2', 'k', 'a', 'I']

/-- What the functions of this file read besides their arguments: the NaCl primitives and
`serverlongtermsk`. -/
structure Server where
  nacl : Nacl
  serverlongtermsk : Bytes

variable (S : Server)

/-- `crypto_box_beforenm`. -/
def cryptoBoxBeforenm (pk sk : Bytes) : Key := Buffer.copy 32 (S.nacl.beforenm pk sk)

/-- `count` bytes of a packet from an offset on. -/
def field (data : Bytes) (offset count : Nat) : Bytes := (data.drop offset).take count

/-- The nonce test of the three receiving functions: `packetnonce <= cc->receivednonce ||
!ISODD(packetnonce)` is refused. -/
def nonceFresh (cc : CryptoContext) (packetnonce : UInt64) : Bool :=
  cc.receivednonce < packetnonce && isOdd packetnonce

/-! ## §2 Receiving -/

/-- The effect of `crypto_verify_header`: the value stored through `length`, if the length box was
opened, and whether 0 is returned. -/
structure HeaderResult where
  cc : CryptoContext
  length : Option UInt64
  ok : Bool

/-- `crypto_verify_header` on the 40 bytes at `data`. -/
def cryptoVerifyHeader (cc : CryptoContext) (data : Bytes) : HeaderResult :=
  if byteIsequal data 8 idMessageClient = 0 then ⟨cc, none, false⟩
  else
    let packetnonce := uint64Unpack (data.drop 8)
    if !nonceFresh cc packetnonce then ⟨cc, none, false⟩
    else
      let nonce := prefixSploneboxclient ++ field data 8 8
      match cryptoBoxOpenAfternm S.nacl (zeros 16 ++ field data 16 24) nonce
          cc.clientshortservershort.bytes with
      | none => ⟨cc, none, false⟩
      | some lengthpacked =>
          let length := uint64Unpack (lengthpacked.drop 32)
          ⟨{ cc with receivednonce := packetnonce }, some length, !(length < 40)⟩

/-- `crypto_read` on a packet of `length` bytes at `in`: the new context and the plaintext, `none` for
the result -1. `alloc` is whether both allocations succeed. -/
def cryptoRead (cc : CryptoContext) (packet : Bytes) (length : Nat) (alloc : Bool) :
    Option (CryptoContext × Bytes) :=
  if !alloc then none
  else
    let nonce := prefixSploneboxclient ++ uint64Pack (cc.receivednonce + 2)
    match cryptoBoxOpenAfternm S.nacl (zeros 16 ++ field packet 40 (length - 40)) nonce
        cc.clientshortservershort.bytes with
    | none => none
    | some block => some ({ cc with receivednonce := cc.receivednonce + 2 }, field block 32 (length - 56))

/-- What `crypto_recv_hello_send_cookie` gets from outside: the fresh secret key, the nonce of
`safenonce` (`none` if it fails) and whether `outputstream_write` accepts the packet. -/
structure HelloEnv where
  keypair : Key
  safenonce : Option (Buffer 16)
  written : Bool

/-- A cookie: the key and the 16 random nonce bytes it was sealed under, its two halves, and the box. -/
structure Cookie where
  minutekey : Key
  nonce : Buffer 16
  clientshorttermpk : Key
  servershorttermsk : Key
  box : Bytes
deriving DecidableEq

/-- The effect of `crypto_recv_hello_send_cookie`: the cookie it sealed, if it came that far, the
cookie packet it handed to the output stream, and whether 0 is returned. -/
structure HelloResult where
  cc : CryptoContext
  cookie : Option Cookie
  packet : Option Bytes
  ok : Bool

/-- The exit at `fail:`. -/
def helloFail (cc : CryptoContext) (cookie : Option Cookie) (packet : Option Bytes) : HelloResult where
  cc := { cc with servershorttermpk := Buffer.zero 32, clientshorttermpk := Buffer.zero 32 }
  cookie := cookie
  packet := packet
  ok := false

/-- `crypto_recv_hello_send_cookie` on the 192 bytes at `data`. -/
def cryptoRecvHelloSendCookie (cc : CryptoContext) (data : Bytes) (env : HelloEnv) : HelloResult :=
  if byteIsequal data 8 idHelloClient = 0 then ⟨cc, none, none, false⟩
  else
    let packetnonce := uint64Unpack (data.drop 104)
    if !nonceFresh cc packetnonce then ⟨cc, none, none, false⟩
    else
      let cc := { cc with clientshorttermpk := Buffer.copy 32 (data.drop 8) }
      let clientshortserverlong := cryptoBoxBeforenm S cc.clientshorttermpk.bytes S.serverlongtermsk
      let nonce := prefixSploneboxclient ++ field data 104 8
      match cryptoBoxOpenAfternm S.nacl (zeros 16 ++ field data 112 80) nonce
          clientshortserverlong.bytes with
      | none => helloFail cc none none
      | some _ =>
          let cc := { cc with
            servershorttermpk := Buffer.copy 32 (S.nacl.scalarmultBase env.keypair.bytes)
            servershorttermsk := env.keypair }
          match env.safenonce with
          | none => helloFail cc none none
          | some random =>
              match cryptoSecretbox S.nacl
                  (zeros 32 ++ (cc.clientshorttermpk.bytes ++ cc.servershorttermsk.bytes))
                  (cryptoMinuteKey ++ random.bytes) cc.minutekey.bytes with
              | none => helloFail cc none none
              | some boxed =>
                  let cookie : Cookie := ⟨cc.minutekey, random, cc.clientshorttermpk,
                    cc.servershorttermsk, boxed.drop 16⟩
                  match cryptoBoxAfternm S.nacl
                      (zeros 32 ++ (cc.servershorttermpk.bytes ++ (random.bytes ++ cookie.box)))
                      (prefixKnonce ++ random.bytes) clientshortserverlong.bytes with
                  | none => helloFail cc (some cookie) none
                  | some cookiebox =>
                      let cookiepacket := idCookieServer ++ (random.bytes ++ field cookiebox 16 144)
                      if env.written then
                        ⟨{ cc with state := .cookieSent }, some cookie, some cookiepacket, true⟩
                      else helloFail cc (some cookie) (some cookiepacket)

/-- The database as `crypto_recv_initiate` asks it: `db_authorized_whitelist_all_is_set` and
`db_authorized_verify`. -/
structure Authorized where
  whitelistAll : Bool
  verify : Bytes → Bool

/-- The secretbox of the cookie, tried under the current and then under the previous minute key. -/
def openCookie (cc : CryptoContext) (nonce box : Bytes) : Option Bytes :=
  match cryptoSecretboxOpen S.nacl (zeros 16 ++ box) nonce cc.minutekey.bytes with
  | some cookie => some cookie
  | none => cryptoSecretboxOpen S.nacl (zeros 16 ++ box) nonce cc.lastminutekey.bytes

/-- `crypto_recv_initiate` on the 256 bytes at `data`: the new context and whether 0 is returned. -/
def cryptoRecvInitiate (cc : CryptoContext) (data : Bytes) (db : Authorized) : CryptoContext × Bool :=
  if byteIsequal data 8 idInitiateClient = 0 then (cc, false)
  else
    match openCookie S cc (cryptoMinuteKey ++ field data 8 16) (field data 24 80) with
    | none => (cc, false)
    | some cookie =>
        if byteIsequal cc.clientshorttermpk.bytes 32 (cookie.drop 32) = 0 then (cc, false)
        else
          let servershorttermsk := field cookie 64 32
          let cc := { cc with
            clientshortservershort := cryptoBoxBeforenm S cc.clientshorttermpk.bytes servershorttermsk }
          let packetnonce := uint64Unpack (data.drop 104)
          if !nonceFresh cc packetnonce then (cc, false)
          else
            match cryptoBoxOpenAfternm S.nacl (zeros 16 ++ field data 112 144)
                (prefixSploneboxclient ++ field data 104 8) cc.clientshortservershort.bytes with
            | none => (cc, false)
            | some initiatebox =>
                let clientlongtermpk := field initiatebox 32 32
                if !db.whitelistAll && !db.verify clientlongtermpk then (cc, false)
                else
                  let clientlongserverlong := cryptoBoxBeforenm S clientlongtermpk S.serverlongtermsk
                  match cryptoBoxOpenAfternm S.nacl (zeros 16 ++ field initiatebox 80 80)
                      (prefixVnonce ++ field initiatebox 64 16) clientlongserverlong.bytes with
                  | none => (cc, false)
                  | some vouch =>
                      if byteIsequal (vouch.drop 32) 32 cc.clientshorttermpk.bytes = 0 then (cc, false)
                      else if byteIsequal (vouch.drop 64) 32 cc.servershorttermpk.bytes = 0 then
                        (cc, false)
                      else
                        ({ cc with
                          receivednonce := packetnonce
                          state := .established
                          pluginkeystring := base16Encode 17 (clientlongtermpk.drop 24) }, true)

/-- `crypto_update_minutekey` with the random bytes of the new key. -/
def cryptoUpdateMinutekey (cc : CryptoContext) (fresh : Key) : CryptoContext :=
  { cc with lastminutekey := cc.minutekey, minutekey := fresh }

/-! ## §3 Sending -/

/-- `nonce_update`: the new context and whether `exit(1)` is called. -/
def nonceUpdate (cc : CryptoContext) : CryptoContext × Bool :=
  let cc := { cc with nonce := cc.nonce + 2 }
  (cc, cc.nonce == 0)

/-- What `crypto_write` gets from outside: whether the packet is allocated, whether the two blocks
are, and whether `outputstream_write` accepts the packet. -/
structure WriteEnv where
  packetAlloc : Bool
  blockAlloc : Bool
  written : Bool

/-- How a call of `crypto_write` ends: 0 with the packet written, -1, or `exit(1)`. -/
inductive WriteOutcome where
  | sent (packet : Bytes)
  | failed
  | exited
deriving DecidableEq

/-- The effect of `crypto_write`: `sealed` lists the nonces passed to `crypto_box_afternm`. -/
structure WriteResult where
  cc : CryptoContext
  sealed : List UInt64
  outcome : WriteOutcome

/-- `crypto_write` of the bytes `data`. -/
def cryptoWrite (cc : CryptoContext) (data : Bytes) (env : WriteEnv) : WriteResult :=
  if !env.packetAlloc then ⟨cc, [], .failed⟩
  else
    let first := nonceUpdate cc
    if first.2 then ⟨first.1, [], .exited⟩
    else
      let headernonce := uint64Pack first.1.nonce
      match cryptoBoxAfternm S.nacl (zeros 32 ++ uint64Pack (UInt64.ofNat (data.length + 56)))
          (prefixSploneboxserver ++ headernonce) first.1.clientshortservershort.bytes with
      | none => ⟨first.1, [first.1.nonce], .failed⟩
      | some lengthbox =>
          if !env.blockAlloc then ⟨first.1, [first.1.nonce], .failed⟩
          else
            let second := nonceUpdate first.1
            if second.2 then ⟨second.1, [first.1.nonce], .exited⟩
            else
              match cryptoBoxAfternm S.nacl (zeros 32 ++ data)
                  (prefixSploneboxserver ++ uint64Pack second.1.nonce)
                  second.1.clientshortservershort.bytes with
              | none => ⟨second.1, [first.1.nonce, second.1.nonce], .failed⟩
              | some ciphertext =>
                  let packet := idMessageServer ++ (headernonce ++
                    (field lengthbox 16 24 ++ ciphertext.drop 16))
                  ⟨second.1, [first.1.nonce, second.1.nonce],
                    if env.written then .sent packet else .failed⟩

/-! ## §4 What a call can have done -/

variable {S}

/-- The part of a padded plaintext behind its 32 zero bytes. -/
theorem field_zeros_append (p : Bytes) (offset count : Nat) :
    field (zeros 32 ++ p) (32 + offset) count = field p offset count := by
  rw [field, field, ← List.drop_drop, List.drop_left' (zeros_length 32)]

theorem nonceFresh_iff (cc : CryptoContext) (packetnonce : UInt64) :
    nonceFresh cc packetnonce = true ↔ cc.receivednonce < packetnonce ∧ isOdd packetnonce = true := by
  simp [nonceFresh]

/-- **A header is opened under a fresh odd nonce, or nothing happens**: `receivednonce` becomes the
packet's nonce as soon as the length box opens, whatever the length. -/
theorem cryptoVerifyHeader_cases (cc : CryptoContext) (data : Bytes) :
    cryptoVerifyHeader S cc data = ⟨cc, none, false⟩ ∨
      ∃ length, cc.receivednonce < uint64Unpack (data.drop 8) ∧
        isOdd (uint64Unpack (data.drop 8)) = true ∧
        cryptoVerifyHeader S cc data =
          ⟨{ cc with receivednonce := uint64Unpack (data.drop 8) }, some length, !(length < 40)⟩ := by
  unfold cryptoVerifyHeader
  split
  · exact Or.inl rfl
  · dsimp only
    split
    · exact Or.inl rfl
    · next hfresh =>
        split
        · exact Or.inl rfl
        · have h := (nonceFresh_iff cc _).mp (by simpa using hfresh)
          exact Or.inr ⟨_, h.1, h.2, rfl⟩

/-- **`crypto_read` opens the payload under `receivednonce + 2`** and moves `receivednonce` there; the
plaintext is 56 bytes shorter than the packet. -/
theorem cryptoRead_some {cc cc' : CryptoContext} {packet m : Bytes} {length : Nat} {alloc : Bool}
    (h : cryptoRead S cc packet length alloc = some (cc', m)) :
    cc' = { cc with receivednonce := cc.receivednonce + 2 } ∧ m.length ≤ length - 56 ∧
      ∃ block, cryptoBoxOpenAfternm S.nacl (zeros 16 ++ field packet 40 (length - 40))
        (prefixSploneboxclient ++ uint64Pack (cc.receivednonce + 2)) cc.clientshortservershort.bytes
          = some block ∧ m = field block 32 (length - 56) := by
  unfold cryptoRead at h
  split at h
  · cases h
  · dsimp only at h
    split at h
    · cases h
    · next block hopen =>
        simp only [Option.some.injEq, Prod.mk.injEq] at h
        obtain ⟨rfl, rfl⟩ := h
        exact ⟨rfl, by simp [field], block, hopen, rfl⟩

/-- What `crypto_recv_hello_send_cookie` does to the context and to the cookies. -/
structure HelloSpec (cc : CryptoContext) (data : Bytes) (r : HelloResult) : Prop where
  frame : r.cc = { cc with
    state := r.cc.state
    clientshorttermpk := r.cc.clientshorttermpk
    servershorttermpk := r.cc.servershorttermpk
    servershorttermsk := r.cc.servershorttermsk }
  rejected : r.ok = false → r.cc.state = cc.state
  accepted : r.ok = true →
    r.cc.state = .cookieSent ∧ r.cc.clientshorttermpk = Buffer.copy 32 (data.drop 8)
  cookie : ∀ c, r.cookie = some c → c.minutekey = cc.minutekey

theorem helloFail_spec {cc cc₁ : CryptoContext} {data : Bytes} {c : Option Cookie} {p : Option Bytes}
    (hcc : cc₁ = { cc with
      clientshorttermpk := cc₁.clientshorttermpk
      servershorttermpk := cc₁.servershorttermpk
      servershorttermsk := cc₁.servershorttermsk })
    (hc : ∀ k, c = some k → k.minutekey = cc.minutekey) :
    HelloSpec cc data (helloFail cc₁ c p) := by
  have hstate : cc₁.state = cc.state := by rw [hcc]
  refine ⟨?_, fun _ => hstate, fun h => absurd h Bool.false_ne_true, hc⟩
  simp only [helloFail]
  rw [hcc]

theorem cryptoRecvHelloSendCookie_cases (cc : CryptoContext) (data : Bytes) (env : HelloEnv) :
    HelloSpec cc data (cryptoRecvHelloSendCookie S cc data env) := by
  have hno : HelloSpec cc data ⟨cc, none, none, false⟩ :=
    ⟨rfl, fun _ => rfl, fun h => absurd h Bool.false_ne_true, fun c h => by cases h⟩
  unfold cryptoRecvHelloSendCookie
  split
  · exact hno
  · dsimp only
    split
    · exact hno
    · split
      · exact helloFail_spec rfl (fun k h => by cases h)
      · split
        · exact helloFail_spec rfl (fun k h => by cases h)
        · split
          · exact helloFail_spec rfl (fun k h => by cases h)
          · -- from here on the cookie is sealed, under the current minute key
            split
            · exact helloFail_spec rfl (fun k h => by cases h; rfl)
            · split
              · exact ⟨rfl, fun h => absurd h.symm Bool.false_ne_true, fun _ => ⟨rfl, rfl⟩,
                  fun k h => by cases h; rfl⟩
              · exact helloFail_spec rfl (fun k h => by cases h; rfl)

/-- The checks an initiate packet has passed when `crypto_recv_initiate` returns 0: `k` is the minute
key its cookie opened under, `cookie`, `initiate` and `vouch` are the three plaintexts. -/
structure InitiateSpec (cc : CryptoContext) (data : Bytes) (db : Authorized) (k : Key)
    (cookie initiate vouch : Bytes) (cc' : CryptoContext) : Prop where
  minutekey : k = cc.minutekey ∨ k = cc.lastminutekey
  cookie_opens : S.nacl.boxOpen (field data 24 80) (cryptoMinuteKey ++ field data 8 16) k.bytes
    = some cookie
  cookie_client : field cookie 0 32 = cc.clientshorttermpk.bytes
  nonce_gt : cc.receivednonce < uint64Unpack (data.drop 104)
  nonce_odd : isOdd (uint64Unpack (data.drop 104)) = true
  initiate_opens : S.nacl.boxOpen (field data 112 144) (prefixSploneboxclient ++ field data 104 8)
    (cryptoBoxBeforenm S cc.clientshorttermpk.bytes (field cookie 32 32)).bytes = some initiate
  authorized : db.whitelistAll = true ∨ db.verify (field initiate 0 32) = true
  vouch_opens : S.nacl.boxOpen (field initiate 48 80) (prefixVnonce ++ field initiate 32 16)
    (cryptoBoxBeforenm S (field initiate 0 32) S.serverlongtermsk).bytes = some vouch
  vouch_client : field vouch 0 32 = cc.clientshorttermpk.bytes
  vouch_server : field vouch 32 32 = cc.servershorttermpk.bytes
  context : cc' = { cc with
    clientshortservershort := cryptoBoxBeforenm S cc.clientshorttermpk.bytes (field cookie 32 32)
    receivednonce := uint64Unpack (data.drop 104)
    state := .established
    pluginkeystring := base16Encode 17 (field initiate 24 8) }

/-- A cookie opens under the current minute key or under the previous one. -/
theorem openCookie_some {cc : CryptoContext} {nonce box m : Bytes}
    (h : openCookie S cc nonce box = some m) :
    ∃ k, (k = cc.minutekey ∨ k = cc.lastminutekey) ∧
      ∃ p, S.nacl.boxOpen box nonce k.bytes = some p ∧ m = zeros 32 ++ p ∧
        box.length = p.length + 16 := by
  unfold openCookie at h
  split at h
  · next cookie hopen =>
      cases h
      exact ⟨cc.minutekey, Or.inl rfl, cryptoSecretboxOpen_some hopen⟩
  · exact ⟨cc.lastminutekey, Or.inr rfl, cryptoSecretboxOpen_some h⟩

theorem key_take (k : Key) : k.bytes.take 32 = k.bytes :=
  List.take_of_length_le (by rw [k.length_eq])

/-- **Every path to the established state passes all checks.** -/
theorem cryptoRecvInitiate_established {cc cc' : CryptoContext} {data : Bytes} {db : Authorized}
    (hdata : data.length = 256) (h : cryptoRecvInitiate S cc data db = (cc', true)) :
    ∃ k cookie initiate vouch, InitiateSpec (S := S) cc data db k cookie initiate vouch cc' := by
  have hfalse : ∀ c : CryptoContext, ¬ (c, false) = (cc', true) := by simp
  unfold cryptoRecvInitiate at h
  split at h
  · exact absurd h (hfalse _)
  split at h
  · exact absurd h (hfalse _)
  rename_i m hcookie
  obtain ⟨k, hk, cookie, hopen, rfl, hlen⟩ := openCookie_some hcookie
  split at h
  · exact absurd h (hfalse _)
  rename_i hclient
  dsimp only at h
  split at h
  · exact absurd h (hfalse _)
  rename_i hnonce
  split at h
  · exact absurd h (hfalse _)
  rename_i m hinit
  obtain ⟨initiate, hinitiate, rfl, hilen⟩ := cryptoSecretboxOpen_some hinit
  split at h
  · exact absurd h (hfalse _)
  rename_i hauth
  split at h
  · exact absurd h (hfalse _)
  rename_i m hv
  obtain ⟨vouch, hvouch, rfl, hvlen⟩ := cryptoSecretboxOpen_some hv
  split at h
  · exact absurd h (hfalse _)
  rename_i hvc
  split at h
  · exact absurd h (hfalse _)
  rename_i hvs
  -- the fields of the padded buffers are fields of the plaintexts
  have hsk : field (zeros 32 ++ cookie) 64 32 = field cookie 32 32 := field_zeros_append cookie 32 32
  have hpk : field (zeros 32 ++ initiate) 32 32 = field initiate 0 32 :=
    field_zeros_append initiate 0 32
  have hvn : field (zeros 32 ++ initiate) 64 16 = field initiate 32 16 :=
    field_zeros_append initiate 32 16
  have hvb : field (zeros 32 ++ initiate) 80 80 = field initiate 48 80 :=
    field_zeros_append initiate 48 80
  rw [hsk] at hinitiate
  rw [hpk] at hauth
  rw [hpk, hvn, hvb] at hvouch
  rw [hvb] at hvlen
  -- the lengths of the three plaintexts, which make the comparisons equalities of 32 bytes
  have hcl : cookie.length = 64 := by
    have hbox : (field data 24 80).length = 80 := by simp [field, hdata]
    omega
  have hil : initiate.length = 128 := by
    have hbox : (field data 112 144).length = 144 := by simp [field, hdata]
    omega
  have hvl : vouch.length = 64 := by
    have hbox : (field initiate 48 80).length = 80 := by simp [field, hil]
    omega
  have hzc : (zeros 32 ++ cookie).drop 32 = cookie := List.drop_left' (zeros_length 32)
  have hzv : (zeros 32 ++ vouch).drop 32 = vouch := List.drop_left' (zeros_length 32)
  have hzv' : (zeros 32 ++ vouch).drop 64 = vouch.drop 32 := by
    rw [show (64 : Nat) = 32 + 32 from rfl, ← List.drop_drop, hzv]
  rw [hzc] at hclient
  rw [hzv] at hvc
  rw [hzv'] at hvs
  have hclient := (byteIsequal_ne_zero_iff (by rw [Buffer.length_eq]) (by omega)).mp hclient
  have hvc := (byteIsequal_ne_zero_iff (by omega) (by rw [Buffer.length_eq])).mp hvc
  have hvs := (byteIsequal_ne_zero_iff (by simp [hvl]) (by rw [Buffer.length_eq])).mp hvs
  rw [key_take] at hclient hvc hvs
  obtain ⟨hgt, hodd⟩ := (nonceFresh_iff _ _).mp (by simpa using hnonce)
  simp only [Prod.mk.injEq, and_true] at h
  have hkey : (field initiate 0 32).drop 24 = field initiate 24 8 := by
    simp [field, List.drop_take]
  refine ⟨k, cookie, initiate, vouch, hk, hopen, hclient.symm, hgt, hodd, hinitiate, ?_, hvouch,
    hvc, hvs, ?_⟩
  · cases hw : db.whitelistAll with
    | true => exact Or.inl rfl
    | false => exact Or.inr (by simpa [hw] using hauth)
  · rw [← h, hsk, hpk, hkey]

/-- A rejected initiate packet changes at most the session key. -/
theorem cryptoRecvInitiate_rejected {cc cc' : CryptoContext} {data : Bytes} {db : Authorized}
    (h : cryptoRecvInitiate S cc data db = (cc', false)) :
    cc' = { cc with clientshortservershort := cc'.clientshortservershort } := by
  unfold cryptoRecvInitiate at h
  split at h
  · cases h; rfl
  split at h
  · cases h; rfl
  split at h
  · cases h; rfl
  dsimp only at h
  split at h
  · cases h; rfl
  split at h
  · cases h; rfl
  split at h
  · cases h; rfl
  split at h
  · cases h; rfl
  split at h
  · cases h; rfl
  split at h
  · cases h; rfl
  cases h

/-! ## §5 The server nonce -/

/-- What a call of `crypto_write` does to the counter: it is advanced by 2 at most twice, every value
sealed under is one of the values reached, and `exit(1)` is called exactly where a value is 0. -/
inductive WriteSpec (cc : CryptoContext) : WriteResult → Prop where
  | unchanged : WriteSpec cc ⟨cc, [], .failed⟩
  | exitFirst (h : cc.nonce + 2 = 0) : WriteSpec cc ⟨{ cc with nonce := cc.nonce + 2 }, [], .exited⟩
  | headerOnly (h : cc.nonce + 2 ≠ 0) :
      WriteSpec cc ⟨{ cc with nonce := cc.nonce + 2 }, [cc.nonce + 2], .failed⟩
  | exitSecond (h : cc.nonce + 2 ≠ 0) (h₂ : cc.nonce + 2 + 2 = 0) :
      WriteSpec cc ⟨{ cc with nonce := cc.nonce + 2 + 2 }, [cc.nonce + 2], .exited⟩
  | both (h : cc.nonce + 2 ≠ 0) (h₂ : cc.nonce + 2 + 2 ≠ 0) (o : WriteOutcome) (ho : o ≠ .exited) :
      WriteSpec cc
        ⟨{ cc with nonce := cc.nonce + 2 + 2 }, [cc.nonce + 2, cc.nonce + 2 + 2], o⟩

theorem cryptoWrite_cases (cc : CryptoContext) (data : Bytes) (env : WriteEnv) :
    WriteSpec cc (cryptoWrite S cc data env) := by
  unfold cryptoWrite nonceUpdate
  split
  · exact .unchanged
  dsimp only
  split
  · rename_i h
    exact .exitFirst (by simpa using h)
  rename_i h
  have h : cc.nonce + 2 ≠ 0 := by simpa using h
  split
  · exact .headerOnly h
  split
  · exact .headerOnly h
  split
  · rename_i h₂
    exact .exitSecond h (by simpa using h₂)
  rename_i h₂
  have h₂ : cc.nonce + 2 + 2 ≠ 0 := by simpa using h₂
  split
  · exact .both h h₂ _ (by simp)
  · exact .both h h₂ _ (by split <;> simp)

/-- `crypto_write` changes nothing in the context but the counter. -/
theorem cryptoWrite_frame (cc : CryptoContext) (data : Bytes) (env : WriteEnv) :
    (cryptoWrite S cc data env).cc = { cc with nonce := (cryptoWrite S cc data env).cc.nonce } ∧
      (cryptoWrite S cc data env).cc.receivednonce = cc.receivednonce ∧
      (cryptoWrite S cc data env).cc.state = cc.state := by
  have h := cryptoWrite_cases (S := S) cc data env
  generalize cryptoWrite S cc data env = r at h ⊢
  cases h <;> exact ⟨rfl, rfl, rfl⟩

end SploneBox
