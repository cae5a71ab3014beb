/-
# SploneBox.Wipes — the working buffers of the tunnel functions, and what is left in them.

The four functions of `Crypto` once more, each now with the buffers that a key, a cookie or a plaintext stands
in, up to the return or, for a block on the heap, up to its `free`. What each of them returns is what it
returned there (`cryptoRecvInitiateBuffers_fst` and the like). `crypto_recv_hello_send_cookie` leaves nothing
behind; `crypto_recv_initiate` has one exit that does not pass the label `fail:`, and of the blocks of
`crypto_write` and `crypto_read` only as many bytes are cleared as a pointer has (`secrets_wiped_iff`).
-/
import SploneBox.Lib.Wiping
import SploneBox.Client

namespace SploneBox

open Lib.Wiping

variable (S : Server)

/-! ## §1 The buffers -/

/-- Whatever stands in memory that is given out. -/
abbrev Garbage := Nat → UInt8

/-- The buffers of `crypto_recv_hello_send_cookie`. -/
structure HelloBuffers where
  clientshortserverlong : Scratch
  cookiebox : Scratch

/-- The buffers of `crypto_recv_initiate`. -/
structure InitiateBuffers where
  cookie : Scratch
  servershorttermsk : Scratch
  initiatebox : Scratch
  clientlongserverlong : Scratch

/-- `unsigned char b[n] = { 0 }` and `CALLOC`. -/
def zeroBuffer (n : Nat) : Scratch := Scratch.uninit (fun _ => 0) n

/-- What an opened box leaves behind: 32 bytes of zeros, and the plaintext. -/
def openInto (b : Scratch) (offset : Nat) (opened : Bytes) : Scratch :=
  (b.clear offset 32).store (offset + 32) (opened.drop 32)

/-- The `sbmemzero` calls of `crypto_recv_hello_send_cookie`, the same at both of its ends. -/
def HelloBuffers.clear (b : HelloBuffers) : HelloBuffers :=
  ⟨b.clientshortserverlong.clear 0 32, b.cookiebox.clear 0 160⟩

/-- Those of `crypto_recv_initiate`, the same at both of its ends. -/
def InitiateBuffers.clear (b : InitiateBuffers) : InitiateBuffers where
  cookie := b.cookie.clear 0 96
  servershorttermsk := b.servershorttermsk.clear 0 32
  initiatebox := b.initiatebox.clear 0 160
  clientlongserverlong := b.clientlongserverlong.clear 0 32

/-- `sizeof` of a pointer. -/
def pointerSize : Nat := 8

/-! ## §2 Receiving -/

/-- `crypto_recv_hello_send_cookie` with its buffers. -/
def cryptoRecvHelloSendCookieBuffers (cc : CryptoContext) (data : Bytes) (env : HelloEnv) (garbage : Garbage) :
    HelloResult × HelloBuffers :=
  let b : HelloBuffers := ⟨Scratch.uninit garbage 32, zeroBuffer 160⟩
  if byteIsequal data 8 idHelloClient = 0 then (⟨cc, none, none, false⟩, b)
  else
    let packetnonce := uint64Unpack (data.drop 104)
    if !nonceFresh cc packetnonce then (⟨cc, none, none, false⟩, b)
    else
      let cc := { cc with clientshorttermpk := Buffer.copy 32 (data.drop 8) }
      let clientshortserverlong := cryptoBoxBeforenm S cc.clientshorttermpk.bytes S.serverlongtermsk
      let b := { b with clientshortserverlong := b.clientshortserverlong.store 0 clientshortserverlong.bytes }
      let nonce := prefixSploneboxclient ++ field data 104 8
      match cryptoBoxOpenAfternm S.nacl (zeros 16 ++ field data 112 80) nonce
          clientshortserverlong.bytes with
      | none => (helloFail cc none none, b.clear)
      | some _ =>
          let cc := { cc with
            servershorttermpk := Buffer.copy 32 (S.nacl.scalarmultBase env.keypair.bytes)
            servershorttermsk := env.keypair }
          let b := { b with
            cookiebox :=
              (b.cookiebox.store 96 cc.clientshorttermpk.bytes).store 128 cc.servershorttermsk.bytes }
          match env.safenonce with
          | none => (helloFail cc none none, b.clear)
          | some random =>
              match cryptoSecretbox S.nacl
                  (zeros 32 ++ (cc.clientshorttermpk.bytes ++ cc.servershorttermsk.bytes))
                  (cryptoMinuteKey ++ random.bytes) cc.minutekey.bytes with
              | none => (helloFail cc none none, b.clear)
              | some boxed =>
                  let cookie : Cookie := ⟨cc.minutekey, random, cc.clientshorttermpk,
                    cc.servershorttermsk, boxed.drop 16⟩
                  let b := { b with
                    cookiebox := ((b.cookiebox.store 64 boxed).store 64 random.bytes).store 32
                      cc.servershorttermpk.bytes }
                  match cryptoBoxAfternm S.nacl
                      (zeros 32 ++ (cc.servershorttermpk.bytes ++ (random.bytes ++ cookie.box)))
                      (prefixKnonce ++ random.bytes) clientshortserverlong.bytes with
                  | none => (helloFail cc (some cookie) none, b.clear)
                  | some cookiebox =>
                      let b := { b with cookiebox := b.cookiebox.store 0 cookiebox }
                      let cookiepacket := idCookieServer ++ (random.bytes ++ field cookiebox 16 144)
                      if env.written then
                        (⟨{ cc with state := .cookieSent }, some cookie, some cookiepacket, true⟩, b.clear)
                      else (helloFail cc (some cookie) (some cookiepacket), b.clear)

/-- `crypto_recv_initiate` with its buffers. -/
def cryptoRecvInitiateBuffers (cc : CryptoContext) (data : Bytes) (db : Authorized) (garbage : Garbage) :
    (CryptoContext × Bool) × InitiateBuffers :=
  let b : InitiateBuffers :=
    ⟨zeroBuffer 96, Scratch.uninit garbage 32, zeroBuffer 160, Scratch.uninit garbage 32⟩
  if byteIsequal data 8 idInitiateClient = 0 then ((cc, false), b)
  else
    let b := { b with cookie := b.cookie.store 16 (field data 24 80) }
    match openCookie S cc (cryptoMinuteKey ++ field data 8 16) (field data 24 80) with
    | none => ((cc, false), b.clear)
    | some cookie =>
        let b := { b with cookie := openInto b.cookie 0 cookie }
        if byteIsequal cc.clientshorttermpk.bytes 32 (cookie.drop 32) = 0 then ((cc, false), b.clear)
        else
          let servershorttermsk := field cookie 64 32
          let b := { b with
            servershorttermsk := b.servershorttermsk.store 0 (Buffer.copy 32 servershorttermsk).bytes }
          let cc := { cc with
            clientshortservershort := cryptoBoxBeforenm S cc.clientshorttermpk.bytes servershorttermsk }
          let packetnonce := uint64Unpack (data.drop 104)
          -- the one return between the first secret and the label fail
          if !nonceFresh cc packetnonce then ((cc, false), b)
          else
            let b := { b with initiatebox := b.initiatebox.store 16 (field data 112 144) }
            match cryptoBoxOpenAfternm S.nacl (zeros 16 ++ field data 112 144)
                (prefixSploneboxclient ++ field data 104 8) cc.clientshortservershort.bytes with
            | none => ((cc, false), b.clear)
            | some initiatebox =>
                let b := { b with initiatebox := openInto b.initiatebox 0 initiatebox }
                let clientlongtermpk := field initiatebox 32 32
                if !db.whitelistAll && !db.verify clientlongtermpk then ((cc, false), b.clear)
                else
                  let clientlongserverlong := cryptoBoxBeforenm S clientlongtermpk S.serverlongtermsk
                  let b := { b with
                    clientlongserverlong := b.clientlongserverlong.store 0 clientlongserverlong.bytes
                    initiatebox := b.initiatebox.clear 64 16 }
                  match cryptoBoxOpenAfternm S.nacl (zeros 16 ++ field initiatebox 80 80)
                      (prefixVnonce ++ field initiatebox 64 16) clientlongserverlong.bytes with
                  | none => ((cc, false), b.clear)
                  | some vouch =>
                      let b := { b with initiatebox := openInto b.initiatebox 64 vouch }
                      if byteIsequal (vouch.drop 32) 32 cc.clientshorttermpk.bytes = 0 then
                        ((cc, false), b.clear)
                      else if byteIsequal (vouch.drop 64) 32 cc.servershorttermpk.bytes = 0 then
                        ((cc, false), b.clear)
                      else
                        (({ cc with
                          receivednonce := packetnonce
                          state := .established
                          pluginkeystring := base16Encode 17 (clientlongtermpk.drop 24) }, true), b.clear)

/-! ## §3 Messages -/

/-- `crypto_write` with its block as it is when it is freed, or when the function returns without freeing it;
`none` when no block was allocated, or the function does not return. -/
def cryptoWriteBuffers (cc : CryptoContext) (data : Bytes) (env : WriteEnv) : WriteResult × Option Scratch :=
  if !env.packetAlloc then (⟨cc, [], .failed⟩, none)
  else
    let first := nonceUpdate cc
    if first.2 then (⟨first.1, [], .exited⟩, none)
    else
      let headernonce := uint64Pack first.1.nonce
      match cryptoBoxAfternm S.nacl (zeros 32 ++ uint64Pack (UInt64.ofNat (data.length + 56)))
          (prefixSploneboxserver ++ headernonce) first.1.clientshortservershort.bytes with
      | none => (⟨first.1, [first.1.nonce], .failed⟩, none)
      | some lengthbox =>
          if !env.blockAlloc then (⟨first.1, [first.1.nonce], .failed⟩, none)
          else
            let block := (zeroBuffer (data.length + 32)).store 32 data
            let second := nonceUpdate first.1
            if second.2 then (⟨second.1, [first.1.nonce], .exited⟩, none)
            else
              match cryptoBoxAfternm S.nacl (zeros 32 ++ data)
                  (prefixSploneboxserver ++ uint64Pack second.1.nonce)
                  second.1.clientshortservershort.bytes with
              | none => (⟨second.1, [first.1.nonce, second.1.nonce], .failed⟩, some (block.clear 0 pointerSize))
              | some ciphertext =>
                  let packet := idMessageServer ++ (headernonce ++
                    (field lengthbox 16 24 ++ ciphertext.drop 16))
                  (⟨second.1, [first.1.nonce, second.1.nonce],
                    if env.written then .sent packet else .failed⟩, some (block.clear 0 pointerSize))

/-- `crypto_read` with its block, likewise. -/
def cryptoReadBuffers (cc : CryptoContext) (packet : Bytes) (length : Nat) (alloc : Bool) (garbage : Garbage) :
    Option (CryptoContext × Bytes) × Option Scratch :=
  if !alloc then (none, none)
  else
    let block := Scratch.uninit garbage (length - 24)
    let nonce := prefixSploneboxclient ++ uint64Pack (cc.receivednonce + 2)
    match cryptoBoxOpenAfternm S.nacl (zeros 16 ++ field packet 40 (length - 40)) nonce
        cc.clientshortservershort.bytes with
    | none => (none, some (block.clear 0 pointerSize))
    | some opened =>
        (some ({ cc with receivednonce := cc.receivednonce + 2 }, field opened 32 (length - 56)),
          some ((openInto block 0 opened).clear 0 pointerSize))

/-! ## §4 What is returned -/

section
variable {S}

theorem cryptoRecvHelloSendCookieBuffers_fst {cc : CryptoContext} {data : Bytes} {env : HelloEnv}
    {garbage : Garbage} :
    (cryptoRecvHelloSendCookieBuffers S cc data env garbage).1 = cryptoRecvHelloSendCookie S cc data env := by
  unfold cryptoRecvHelloSendCookieBuffers cryptoRecvHelloSendCookie
  dsimp only
  split
  · rfl
  split
  · rfl
  -- a split that has decided both sides leaves nothing to rewrite
  split
  · next h => simp only [h]
  next h =>
  try simp only [h]
  split
  · next h => simp only [h]
  next h =>
  try simp only [h]
  split
  · next h => simp only [h]
  next h =>
  try simp only [h]
  split
  · next h => simp only [h]
  next h =>
  try simp only [h]
  split <;> rfl

theorem cryptoRecvInitiateBuffers_fst {cc : CryptoContext} {data : Bytes} {db : Authorized}
    {garbage : Garbage} :
    (cryptoRecvInitiateBuffers S cc data db garbage).1 = cryptoRecvInitiate S cc data db := by
  unfold cryptoRecvInitiateBuffers cryptoRecvInitiate
  dsimp only
  split
  · rfl
  split
  · next h => simp only [h]
  next h =>
  try simp only [h]
  split
  · rfl
  split
  · rfl
  split
  · next h => simp only [h]
  next h =>
  try simp only [h]
  split
  · rfl
  split
  · next h => simp only [h]
  next h =>
  try simp only [h]
  split
  · rfl
  split <;> rfl

theorem cryptoWriteBuffers_fst {cc : CryptoContext} {data : Bytes} {env : WriteEnv} :
    (cryptoWriteBuffers S cc data env).1 = cryptoWrite S cc data env := by
  unfold cryptoWriteBuffers cryptoWrite
  dsimp only
  split
  · rfl
  split
  · rfl
  split
  · next h => simp only [h]
  next h =>
  try simp only [h]
  split
  · rfl
  split
  · rfl
  split
  · next h => simp only [h]
  next h => simp only [h]

theorem cryptoReadBuffers_fst {cc : CryptoContext} {packet : Bytes} {length : Nat} {alloc : Bool}
    {garbage : Garbage} :
    (cryptoReadBuffers S cc packet length alloc garbage).1 = cryptoRead S cc packet length alloc := by
  unfold cryptoReadBuffers cryptoRead
  dsimp only
  split
  · rfl
  split
  · next h => simp only [h]
  next h => simp only [h]

/-! ## §5 Lengths -/

theorem cryptoSecretbox_length {N : Nacl} {m n k c : Bytes} (h : cryptoSecretbox N m n k = some c) :
    c.length = m.length := by
  unfold cryptoSecretbox at h
  split at h
  · cases h
  · obtain rfl := Option.some.inj h
    rw [List.length_append, zeros_length, N.box_length, List.length_drop]
    omega

/-- The plaintext of a box is 16 bytes shorter than the box. -/
theorem opened_length {N : Nacl} {c n k m : Bytes} (h : cryptoSecretboxOpen N (zeros 16 ++ c) n k = some m) :
    (m.drop 32).length + 16 = c.length := by
  obtain ⟨p, -, rfl, hlen⟩ := cryptoSecretboxOpen_some h
  rw [List.drop_left' (zeros_length 32), hlen]

theorem openCookie_length {cc : CryptoContext} {nonce box m : Bytes} (h : openCookie S cc nonce box = some m) :
    (m.drop 32).length + 16 = box.length := by
  obtain ⟨k, -, p, -, rfl, hlen⟩ := openCookie_some h
  rw [List.drop_left' (zeros_length 32), hlen]

theorem field_length_le {data : Bytes} {offset count : Nat} : (field data offset count).length ≤ count := by
  simp [field]

@[simp] theorem zeroBuffer_length {n : Nat} : (zeroBuffer n).length = n := by simp [zeroBuffer]

theorem openInto_length {b : Scratch} {offset : Nat} {opened : Bytes}
    (h : offset + 32 + (opened.drop 32).length ≤ b.length) :
    (openInto b offset opened).length = b.length := by
  rw [openInto, Scratch.length_store (by rwa [Scratch.length_clear]), Scratch.length_clear]

/-! ## §6 Buffers that are wiped -/

/-- The buffers have their sizes. -/
structure HelloBuffers.Sized (b : HelloBuffers) : Prop where
  clientshortserverlong : b.clientshortserverlong.length = 32
  cookiebox : b.cookiebox.length = 160

structure InitiateBuffers.Sized (b : InitiateBuffers) : Prop where
  cookie : b.cookie.length = 96
  servershorttermsk : b.servershorttermsk.length = 32
  initiatebox : b.initiatebox.length = 160
  clientlongserverlong : b.clientlongserverlong.length = 32

/-- Nothing secret is left in the buffers. -/
def HelloBuffers.Wiped (b : HelloBuffers) : Prop := b.clientshortserverlong.Wiped ∧ b.cookiebox.Wiped

def InitiateBuffers.Wiped (b : InitiateBuffers) : Prop :=
  b.cookie.Wiped ∧ b.servershorttermsk.Wiped ∧ b.initiatebox.Wiped ∧ b.clientlongserverlong.Wiped

theorem HelloBuffers.wiped_clear {b : HelloBuffers} (h : b.Sized) : b.clear.Wiped :=
  ⟨Scratch.wiped_clear_all h.clientshortserverlong.le, Scratch.wiped_clear_all h.cookiebox.le⟩

theorem InitiateBuffers.wiped_clear {b : InitiateBuffers} (h : b.Sized) : b.clear.Wiped :=
  ⟨Scratch.wiped_clear_all h.cookie.le, Scratch.wiped_clear_all h.servershorttermsk.le,
    Scratch.wiped_clear_all h.initiatebox.le, Scratch.wiped_clear_all h.clientlongserverlong.le⟩

/-- **`crypto_recv_hello_send_cookie` leaves nothing secret behind.** -/
theorem hello_wiped {cc : CryptoContext} {data : Bytes} {env : HelloEnv} {garbage : Garbage} :
    (cryptoRecvHelloSendCookieBuffers S cc data env garbage).2.Wiped := by
  have hempty : HelloBuffers.Wiped ⟨Scratch.uninit garbage 32, zeroBuffer 160⟩ :=
    ⟨Scratch.wiped_uninit, Scratch.wiped_uninit⟩
  have hkey : ∀ k : Key, ((Scratch.uninit garbage 32).store 0 k.bytes).length = 32 := by
    intro k
    rw [Scratch.length_store (by simp [k.length_eq]), Scratch.length_uninit]
  -- the cookie box after the two keys, after the cookie, and after the box around it
  have hkeys : ∀ pk sk : Key, (((zeroBuffer 160).store 96 pk.bytes).store 128 sk.bytes).length = 160 := by
    intro pk sk
    have hpk : ((zeroBuffer 160).store 96 pk.bytes).length = 160 := by
      rw [Scratch.length_store (by simp [pk.length_eq]), zeroBuffer_length]
    rw [Scratch.length_store (by rw [hpk, sk.length_eq]), hpk]
  have hcookie : ∀ (b : Scratch) (boxed : Bytes) (random : Buffer 16) (pk : Key), b.length = 160 →
      boxed.length = 96 →
      (((b.store 64 boxed).store 64 random.bytes).store 32 pk.bytes).length = 160 := by
    intro b boxed random pk hb hboxed
    have h₁ : (b.store 64 boxed).length = 160 := by rw [Scratch.length_store (by omega), hb]
    have h₂ : ((b.store 64 boxed).store 64 random.bytes).length = 160 := by
      rw [Scratch.length_store (by rw [h₁, random.length_eq]; omega), h₁]
    rw [Scratch.length_store (by rw [h₂, pk.length_eq]; omega), h₂]
  unfold cryptoRecvHelloSendCookieBuffers
  dsimp only
  split
  · exact hempty
  split
  · exact hempty
  split
  · exact HelloBuffers.wiped_clear ⟨hkey _, zeroBuffer_length⟩
  split
  · exact HelloBuffers.wiped_clear ⟨hkey _, hkeys _ _⟩
  split
  · exact HelloBuffers.wiped_clear ⟨hkey _, hkeys _ _⟩
  next boxed hboxed =>
  have hlen : boxed.length = 96 := by
    rw [cryptoSecretbox_length hboxed]
    simp [zeros_length, Buffer.length_eq]
  split
  · exact HelloBuffers.wiped_clear ⟨hkey _, hcookie _ _ _ _ (hkeys _ _) hlen⟩
  next box hbox =>
  have hlen' : box.length = 160 := by
    rw [cryptoSecretbox_length hbox]
    simp [zeros_length, Buffer.length_eq, hlen]
  have hstore : ∀ b : Scratch, b.length = 160 → (b.store 0 box).length = 160 := by
    intro b hb
    rw [Scratch.length_store (by omega), hb]
  split
  · exact HelloBuffers.wiped_clear ⟨hkey _, hstore _ (hcookie _ _ _ _ (hkeys _ _) hlen)⟩
  · exact HelloBuffers.wiped_clear ⟨hkey _, hstore _ (hcookie _ _ _ _ (hkeys _ _) hlen)⟩

/-- **The exit of `crypto_recv_initiate` that does not pass the label `fail:`**: the cookie opens and is that
of the client, and the nonce of the packet is not fresh. -/
def StaleInitiate (S : Server) (cc : CryptoContext) (data : Bytes) : Prop :=
  byteIsequal data 8 idInitiateClient ≠ 0 ∧
    ∃ cookie, openCookie S cc (cryptoMinuteKey ++ field data 8 16) (field data 24 80) = some cookie ∧
      byteIsequal cc.clientshorttermpk.bytes 32 (cookie.drop 32) ≠ 0 ∧
      nonceFresh cc (uint64Unpack (data.drop 104)) = false

/-- **`crypto_recv_initiate` leaves nothing secret behind, except at the exit for a nonce that is not fresh.** -/
theorem initiate_wiped_iff {cc : CryptoContext} {data : Bytes} {db : Authorized} {garbage : Garbage} :
    (cryptoRecvInitiateBuffers S cc data db garbage).2.Wiped ↔ ¬ StaleInitiate S cc data := by
  have hkey : ∀ k : Key, ((Scratch.uninit garbage 32).store 0 k.bytes).length = 32 := by
    intro k
    rw [Scratch.length_store (by simp [k.length_eq]), Scratch.length_uninit]
  have hcookie : ((zeroBuffer 96).store 16 (field data 24 80)).length = 96 := by
    have hle : (field data 24 80).length ≤ 80 := field_length_le
    rw [Scratch.length_store (by rw [zeroBuffer_length]; omega), zeroBuffer_length]
  have hbox : ((zeroBuffer 160).store 16 (field data 112 144)).length = 160 := by
    have hle : (field data 112 144).length ≤ 144 := field_length_le
    rw [Scratch.length_store (by rw [zeroBuffer_length]; omega), zeroBuffer_length]
  unfold cryptoRecvInitiateBuffers
  dsimp only
  split
  · next hid =>
      refine iff_of_true ⟨Scratch.wiped_uninit, Scratch.wiped_uninit, Scratch.wiped_uninit,
        Scratch.wiped_uninit⟩ ?_
      rintro ⟨hid', -⟩
      exact hid' hid
  next hid =>
  split
  · next hopen =>
      refine iff_of_true (InitiateBuffers.wiped_clear
        ⟨hcookie, Scratch.length_uninit, zeroBuffer_length, Scratch.length_uninit⟩) ?_
      rintro ⟨-, cookie, hopen', -⟩
      exact absurd (hopen.symm.trans hopen') (by simp)
  next cookie hopen =>
  have hcookie' : (openInto ((zeroBuffer 96).store 16 (field data 24 80)) 0 cookie).length = 96 := by
    have hle : (field data 24 80).length ≤ 80 := field_length_le
    rw [openInto_length (by rw [hcookie]; have := openCookie_length hopen; omega), hcookie]
  split
  · next hclient =>
      refine iff_of_true (InitiateBuffers.wiped_clear
        ⟨hcookie', Scratch.length_uninit, zeroBuffer_length, Scratch.length_uninit⟩) ?_
      rintro ⟨-, cookie', hopen', hclient', -⟩
      obtain rfl := Option.some.inj (hopen.symm.trans hopen')
      exact hclient' hclient
  next hclient =>
  split
  · next hnonce =>
      have hstale : nonceFresh cc (uint64Unpack (data.drop 104)) = false := by
        rw [Bool.not_eq_true'] at hnonce
        exact hnonce
      refine iff_of_false ?_ (not_not_intro ⟨hid, cookie, hopen, hclient, hstale⟩)
      rintro ⟨-, hsk, -⟩
      have hne : (Buffer.copy 32 (field cookie 64 32)).bytes ≠ [] := by
        rw [← List.length_pos_iff, Buffer.length_eq]
        decide
      obtain ⟨b, hb⟩ := List.exists_mem_of_ne_nil _ hne
      exact Scratch.not_wiped (Scratch.mem_store hb) hsk
  next hnonce =>
  have hfresh : ¬ StaleInitiate S cc data := by
    rintro ⟨-, -, -, -, hstale⟩
    exact hnonce ((Bool.not_eq_true' _).mpr hstale)
  refine iff_of_true ?_ hfresh
  -- from here on every exit passes the same calls of `sbmemzero`
  split
  · exact InitiateBuffers.wiped_clear ⟨hcookie', hkey _, hbox, Scratch.length_uninit⟩
  next initiatebox hinitiate =>
  have hbox' : (openInto ((zeroBuffer 160).store 16 (field data 112 144)) 0 initiatebox).length = 160 := by
    have hle : (field data 112 144).length ≤ 144 := field_length_le
    rw [openInto_length (by rw [hbox]; have := opened_length hinitiate; omega), hbox]
  split
  · exact InitiateBuffers.wiped_clear ⟨hcookie', hkey _, hbox', Scratch.length_uninit⟩
  have hcut :
      ((openInto ((zeroBuffer 160).store 16 (field data 112 144)) 0 initiatebox).clear 64 16).length = 160 := by
    rw [Scratch.length_clear, hbox']
  split
  · exact InitiateBuffers.wiped_clear ⟨hcookie', hkey _, hcut, hkey _⟩
  next vouch hvouch =>
  have hbox'' : ∀ b : Scratch, b.length = 160 → (openInto b 64 vouch).length = 160 := by
    intro b hb
    have hle : (field initiatebox 80 80).length ≤ 80 := field_length_le
    rw [openInto_length (by have := opened_length hvouch; omega), hb]
  split
  · exact InitiateBuffers.wiped_clear ⟨hcookie', hkey _, hbox'' _ hcut, hkey _⟩
  split
  · exact InitiateBuffers.wiped_clear ⟨hcookie', hkey _, hbox'' _ hcut, hkey _⟩
  · exact InitiateBuffers.wiped_clear ⟨hcookie', hkey _, hbox'' _ hcut, hkey _⟩

/-- The block that a message function gives back. -/
def BlockWiped (block : Option Scratch) : Prop := ∀ b, block = some b → b.Wiped

/-- **`crypto_write` leaves the message in its block**, when there is one and it comes to the block. -/
theorem write_wiped_iff {cc : CryptoContext} {data : Bytes} {env : WriteEnv} :
    BlockWiped (cryptoWriteBuffers S cc data env).2 ↔
      data = [] ∨ env.packetAlloc = false ∨ env.blockAlloc = false ∨ cc.nonce + 2 = 0 ∨
      cc.nonce + 2 + 2 = 0 := by
  have hnone : BlockWiped none := fun b hb => absurd hb (by simp)
  have hblock : BlockWiped (some (((zeroBuffer (data.length + 32)).store 32 data).clear 0 pointerSize)) ↔
      data = [] := by
    constructor
    · intro h
      by_contra hne
      exact Scratch.not_wiped_clear_store (by simp) (by decide) hne (h _ rfl)
    · rintro rfl b hb
      obtain rfl := Option.some.inj hb
      have hzero : (zeroBuffer 32).Wiped := Scratch.wiped_uninit
      apply Scratch.Wiped.clear
      simpa [Scratch.store] using hzero
  unfold cryptoWriteBuffers nonceUpdate
  dsimp only
  split
  · next h => exact iff_of_true hnone (Or.inr (Or.inl (by simpa using h)))
  next hpacket =>
  split
  · next h => exact iff_of_true hnone (Or.inr (Or.inr (Or.inr (Or.inl (by simpa using h)))))
  next hfirst =>
  split
  · next h => exact absurd h (by simp [cryptoBoxAfternm, cryptoSecretbox])
  split
  · next h => exact iff_of_true hnone (Or.inr (Or.inr (Or.inl (by simpa using h))))
  next halloc =>
  split
  · next h => exact iff_of_true hnone (Or.inr (Or.inr (Or.inr (Or.inr (by simpa using h)))))
  next hsecond =>
  have hrest :
      ¬ (env.packetAlloc = false ∨ env.blockAlloc = false ∨ cc.nonce + 2 = 0 ∨ cc.nonce + 2 + 2 = 0) := by
    simp only [Bool.not_eq_true', Bool.not_eq_false, beq_iff_eq] at hpacket hfirst halloc hsecond
    simp [hpacket, hfirst, halloc, hsecond]
  rw [or_iff_left hrest]
  split
  · exact hblock
  · exact hblock

/-- **`crypto_read` leaves the message in its block**, when the box opens and has one in it. -/
theorem read_wiped_iff {cc : CryptoContext} {packet : Bytes} {length : Nat} {alloc : Bool} {garbage : Garbage} :
    BlockWiped (cryptoReadBuffers S cc packet length alloc garbage).2 ↔
      alloc = false ∨ (field packet 40 (length - 40)).length ≤ 16 ∨
        cryptoBoxOpenAfternm S.nacl (zeros 16 ++ field packet 40 (length - 40))
          (prefixSploneboxclient ++ uint64Pack (cc.receivednonce + 2)) cc.clientshortservershort.bytes =
          none := by
  unfold cryptoReadBuffers
  dsimp only
  split
  · next h => exact iff_of_true (fun b hb => absurd hb (by simp)) (Or.inl (by simpa using h))
  next halloc =>
  split
  · next hopen =>
      refine iff_of_true ?_ (Or.inr (Or.inr hopen))
      intro b hb
      obtain rfl := Option.some.inj hb
      exact Scratch.wiped_uninit.clear _ _
  next opened hopen =>
  have hlen := opened_length hopen
  have hle : (field packet 40 (length - 40)).length ≤ length - 40 := field_length_le
  simp only [Bool.not_eq_true', Bool.not_eq_false] at halloc
  simp only [halloc, hopen, Bool.true_eq_false, reduceCtorEq, false_or, or_false]
  constructor
  · intro h
    by_contra hgt
    have hne : opened.drop 32 ≠ [] := by
      rw [← List.length_pos_iff]
      omega
    refine Scratch.not_wiped_clear_store ?_ (by decide) hne (h _ rfl)
    rw [Scratch.length_clear, Scratch.length_uninit]
    omega
  · intro hshort b hb
    obtain rfl := Option.some.inj hb
    have hnil : opened.drop 32 = [] := by
      rw [← List.length_eq_zero_iff]
      omega
    rw [openInto, hnil]
    apply Scratch.Wiped.clear
    simpa [Scratch.store] using Scratch.wiped_uninit.clear 0 32

/-! ## §7 The four functions -/

/-- **When the working buffers are wiped**: always in `crypto_recv_hello_send_cookie`; in
`crypto_recv_initiate` unless the nonce of a packet with a good cookie is not fresh; in `crypto_write` and
`crypto_read` when no message gets into the block. -/
theorem secrets_wiped_iff :
    (∀ cc data env garbage, (cryptoRecvHelloSendCookieBuffers S cc data env garbage).2.Wiped) ∧
    (∀ cc data db garbage, (cryptoRecvInitiateBuffers S cc data db garbage).2.Wiped ↔
      ¬ StaleInitiate S cc data) ∧
    (∀ cc data env, BlockWiped (cryptoWriteBuffers S cc data env).2 ↔
      data = [] ∨ env.packetAlloc = false ∨ env.blockAlloc = false ∨ cc.nonce + 2 = 0 ∨ cc.nonce + 2 + 2 = 0) ∧
    (∀ cc packet length alloc garbage, BlockWiped (cryptoReadBuffers S cc packet length alloc garbage).2 ↔
      alloc = false ∨ (field packet 40 (length - 40)).length ≤ 16 ∨
        cryptoBoxOpenAfternm S.nacl (zeros 16 ++ field packet 40 (length - 40))
          (prefixSploneboxclient ++ uint64Pack (cc.receivednonce + 2)) cc.clientshortservershort.bytes =
          none) :=
  ⟨fun _ _ _ _ => hello_wiped, fun _ _ _ _ => initiate_wiped_iff, fun _ _ _ => write_wiped_iff,
    fun _ _ _ _ _ => read_wiped_iff⟩

/-- A message of one byte is in the block of `crypto_write` when the block is freed, and an initiate packet
that comes twice leaves the short-term key of the server on the stack. -/
theorem message_left_in_block :
    ¬ BlockWiped (cryptoWriteBuffers Sample.server Sample.create.garbage [1] ⟨true, true, true⟩).2 ∧
    ¬ (cryptoRecvInitiateBuffers Sample.server
        { Sample.create.garbage with
          receivednonce := 3, minutekey := Sample.fill 32 4, clientshorttermpk := Sample.fill 32 1 }
        (Sample.initiate (Sample.fill 32 3)) ⟨true, fun _ => true⟩ fun _ => 0).2.Wiped := by
  constructor
  · rw [write_wiped_iff]
    decide
  · rw [initiate_wiped_iff, not_not]
    refine ⟨by decide +kernel, zeros 32 ++ ((Sample.fill 32 1).bytes ++ (Sample.fill 32 2).bytes), ?_, ?_, ?_⟩
    · decide +kernel
    · decide +kernel
    · decide +kernel

end

end SploneBox
