/-
# SploneBox.Wire — the message packet, written and read.

`crypto_write`, `crypto_verify_header` and `crypto_read` each have the layout of a message packet in
their offsets: identifier, compressed nonce, 24 bytes of boxed length, the boxed payload under the next
nonce. `sealPacket` is that layout once, over the identifier and the nonce prefix; `crypto_write` produces
it with the server's (`cryptoWrite_packet`), a client with its own (`messagePacket_eq`).

`crypto_read` computes three differences of a 64-bit length. `cryptoReadAt` keeps them as they are in the
source, on the memory at `in`, with the two copies that a wrapped difference would send out of bounds;
behind an accepted header none of them wraps and it is `cryptoRead` (`cryptoReadAt_eq`). On top of the
two sits `acceptPacket`: what it accepts are the packets (`acceptPacket_message`, `acceptPacket_some`),
and a stream of them is accepted in order (`acceptPackets_stream`).
-/
import SploneBox.Client
import SploneBox.Msgpack

namespace SploneBox

open Lib.Memory

variable (S : Server)

/-! ## §1 The layout -/

/-- A packet of the message `m`, header nonce `n`. -/
def sealPacket (id pre : Bytes) (session : Key) (n : UInt64) (m : Bytes) : Bytes :=
  id ++ (uint64Pack n ++
    (S.nacl.box (uint64Pack (UInt64.ofNat (m.length + 56))) (pre ++ uint64Pack n) session.bytes ++
      S.nacl.box m (pre ++ uint64Pack (n + 2)) session.bytes))

variable {S}

/-- The packets of `SploneBox.Client` have the layout, with the client's identifier and prefix. -/
theorem messagePacket_eq (session : Key) (n : UInt64) (m : Bytes) :
    messagePacket S session n m = sealPacket S idMessageClient prefixSploneboxclient session n m := by
  simp only [messagePacket, messageHeader, sealPacket, clientNonce, List.append_assoc]

/-- Sealing a padded plaintext and dropping the padding of the result. -/
theorem cryptoBoxAfternm_zeros (m n k : Bytes) :
    cryptoBoxAfternm S.nacl (zeros 32 ++ m) n k = some (zeros 16 ++ S.nacl.box m n k) := by
  have hlen : ¬ (zeros 32 ++ m).length < 32 := by
    rw [List.length_append, zeros_length]
    omega
  rw [cryptoBoxAfternm, cryptoSecretbox, if_neg hlen, List.drop_left' (zeros_length 32)]

/-- **Every packet `crypto_write` hands out has the layout**, with the server's identifier and prefix and
the two values the counter takes. -/
theorem cryptoWrite_packet {cc : CryptoContext} {data packet : Bytes} {env : WriteEnv}
    (h : (cryptoWrite S cc data env).outcome = .sent packet) :
    packet = sealPacket S idMessageServer prefixSploneboxserver cc.clientshortservershort
        (cc.nonce + 2) data ∧
      (cryptoWrite S cc data env).cc = { cc with nonce := cc.nonce + 4 } := by
  have hfour : cc.nonce + 2 + 2 = cc.nonce + 4 := by
    rw [UInt64.add_assoc]
    rfl
  have hfield : ∀ b : Bytes, b.length = 24 → field (zeros 16 ++ b) 16 24 = b := by
    intro b hb
    rw [field, List.drop_left' (zeros_length 16), ← hb, List.take_length]
  have hbody : ∀ b : Bytes, (zeros 16 ++ b).drop 16 = b := fun b => List.drop_left' (zeros_length 16)
  unfold cryptoWrite nonceUpdate at h ⊢
  split at h
  · cases h
  next hp =>
  rw [if_neg hp]
  dsimp only at h ⊢
  split at h
  · cases h
  next hfirst =>
  rw [if_neg hfirst]
  rw [cryptoBoxAfternm_zeros] at h ⊢
  dsimp only at h ⊢
  split at h
  · cases h
  next hb =>
  rw [if_neg hb]
  split at h
  · cases h
  next hsecond =>
  rw [if_neg hsecond]
  rw [cryptoBoxAfternm_zeros] at h ⊢
  dsimp only at h ⊢
  split at h
  · cases h
    refine ⟨?_, by rw [hfour]⟩
    rw [hfield _ (by rw [S.nacl.box_length, uint64Pack_length]), hbody]
    rfl
  · cases h

/-! ## §2 `crypto_read` with 64-bit lengths -/

variable (S)

/-- `crypto_read(cc, in, out, length, &plaintextlen)` on the memory at `in`. The copies go into buffers
of `ciphertextlen` bytes. -/
def cryptoReadAt (cc : CryptoContext) (mem : Nat → UInt8) (length : UInt64) (alloc : Bool) :
    Except Fault (Option (CryptoContext × Bytes)) :=
  let nonce := prefixSploneboxclient ++ uint64Pack (cc.receivednonce + 2)
  let blocklen := length - 40
  let ciphertextlen := length - 24
  if !alloc then .ok none
  else if ciphertextlen.toNat < 16 + blocklen.toNat then .error .outOfBounds
  else
    match cryptoBoxOpenAfternm S.nacl (zeros 16 ++ slice mem 40 blocklen.toNat) nonce
        cc.clientshortservershort.bytes with
    | none => .ok none
    | some block =>
        let plaintextlen := length - 56
        if ciphertextlen.toNat < 32 + plaintextlen.toNat then .error .outOfBounds
        else .ok (some ({ cc with receivednonce := cc.receivednonce + 2 },
          field block 32 plaintextlen.toNat))

variable {S}

theorem toNat_sub_const {length k : UInt64} (h : k.toNat ≤ length.toNat) :
    (length - k).toNat = length.toNat - k.toNat :=
  UInt64.toNat_sub_of_le _ _ (UInt64.le_iff_toNat_le.mpr h)

theorem field_slice (mem : Nat → UInt8) {length : Nat} (h : 40 ≤ length) :
    field (slice mem 0 length) 40 (length - 40) = slice mem 40 (length - 40) := by
  rw [field, slice_drop mem 0 length 40 h, Nat.zero_add]
  exact List.take_of_length_le (by rw [slice_length])

/-- A ciphertext of less than 32 padded bytes does not open. -/
theorem open_short {c n k : Bytes} (h : c.length < 16) :
    cryptoBoxOpenAfternm S.nacl (zeros 16 ++ c) n k = none := by
  rw [cryptoBoxOpenAfternm, cryptoSecretboxOpen, if_pos]
  rw [List.length_append, zeros_length]
  omega

/-- **No difference wraps from 40 on**, as far as it is used. -/
theorem cryptoReadAt_eq {cc : CryptoContext} {mem : Nat → UInt8} {length : UInt64} {alloc : Bool}
    (h : 40 ≤ length.toNat) :
    cryptoReadAt S cc mem length alloc =
      .ok (cryptoRead S cc (slice mem 0 length.toNat) length.toNat alloc) := by
  have hblock : (length - 40).toNat = length.toNat - 40 := toNat_sub_const h
  have hcipher : (length - 24).toNat = length.toNat - 24 :=
    toNat_sub_const (Nat.le_trans (by decide) h)
  unfold cryptoReadAt cryptoRead
  dsimp only
  rw [hblock, hcipher, field_slice mem h]
  cases alloc with
  | false => rfl
  | true =>
      have hroom : ¬ length.toNat - 24 < 16 + (length.toNat - 40) := by omega
      simp only [Bool.not_true, Bool.false_eq_true, if_false, if_neg hroom]
      by_cases hlen : length.toNat < 56
      · rw [open_short (by rw [slice_length]; omega)]
      · have hplain : (length - 56).toNat = length.toNat - 56 := by
          refine toNat_sub_const ?_
          show 56 ≤ _
          omega
        have hroom' : ¬ length.toNat - 24 < 32 + (length.toNat - 56) := by omega
        rw [hplain]
        generalize cryptoBoxOpenAfternm S.nacl _ _ _ = opened
        cases opened with
        | none => rfl
        | some block => simp only [if_neg hroom']

/-- Lengths from 40 to 55 leave less than a tag. -/
theorem cryptoReadAt_short {cc : CryptoContext} {mem : Nat → UInt8} {length : UInt64} {alloc : Bool}
    (hlow : 40 ≤ length.toNat) (hhigh : length.toNat < 56) :
    cryptoReadAt S cc mem length alloc = .ok none := by
  have hnone : ∀ n k, cryptoBoxOpenAfternm S.nacl (zeros 16 ++ slice mem 40 (length.toNat - 40)) n k
      = none := fun n k => open_short (by rw [slice_length]; omega)
  rw [cryptoReadAt_eq hlow, cryptoRead, field_slice mem hlow]
  dsimp only
  rw [hnone]
  cases alloc <;> rfl

/-! ## §3 One packet -/

variable (S)

/-- `crypto_verify_header` on the packet at the memory, then `crypto_read` with the length it stored:
the new context, the length and the plaintext. -/
def acceptPacket (cc : CryptoContext) (mem : Nat → UInt8) (alloc : Bool) :
    Except Fault (Option (CryptoContext × UInt64 × Bytes)) :=
  match cryptoVerifyHeader S cc (slice mem 0 40) with
  | ⟨cc, some length, true⟩ =>
      (cryptoReadAt S cc mem length alloc).map fun r => r.map fun x => (x.1, length, x.2)
  | _ => .ok none

/-- A message whose packet has a 64-bit length. -/
structure Plaintext where
  bytes : Bytes
  fits : bytes.length + 56 < 2 ^ 64

variable {S}

theorem Plaintext.toNat_length (m : Plaintext) :
    (UInt64.ofNat (m.bytes.length + 56)).toNat = m.bytes.length + 56 := by
  rw [UInt64.toNat_ofNat']
  exact Nat.mod_eq_of_lt m.fits

/-- **A packet is accepted**: a fresh odd nonce, whatever stands behind the packet in memory. -/
theorem acceptPacket_message {cc : CryptoContext} {mem : Nat → UInt8} {n : UInt64} (m : Plaintext)
    (hfresh : nonceFresh cc n = true)
    (hmem : slice mem 0 (m.bytes.length + 56) =
      messagePacket S cc.clientshortservershort n m.bytes) :
    acceptPacket S cc mem true =
      .ok (some ({ cc with receivednonce := n + 2 }, UInt64.ofNat (m.bytes.length + 56), m.bytes)) := by
  have hheader : slice mem 0 40 = messageHeader S cc.clientshortservershort n
      (UInt64.ofNat (m.bytes.length + 56)) := by
    rw [← slice_take mem 0 (m.bytes.length + 56) 40 (by omega), hmem, messagePacket]
    exact List.take_left' (messageHeader_length S _ _ _)
  have hlong : ¬ UInt64.ofNat (m.bytes.length + 56) < 40 := by
    rw [UInt64.lt_iff_toNat_lt, m.toNat_length]
    show ¬ _ < 40
    omega
  have hread : cryptoReadAt S { cc with receivednonce := n } mem
      (UInt64.ofNat (m.bytes.length + 56)) true =
        .ok (some ({ cc with receivednonce := n + 2 }, m.bytes)) := by
    rw [cryptoReadAt_eq (by rw [m.toNat_length]; omega), m.toNat_length, hmem]
    exact congrArg Except.ok (@cryptoRead_message S { cc with receivednonce := n } m.bytes)
  unfold acceptPacket
  rw [hheader, cryptoVerifyHeader_message _ hfresh]
  simp only [hlong, decide_false, Bool.not_false]
  rw [hread]
  rfl

/-- **An accepted header is the header of a packet** under a fresh odd nonce, with a length of at least
40. -/
theorem cryptoVerifyHeader_ok {cc cc' : CryptoContext} {data : Bytes} {length : UInt64}
    (hdata : data.length = 40)
    (h : cryptoVerifyHeader S cc data = ⟨cc', some length, true⟩) :
    ∃ n, isOdd n = true ∧ cc.receivednonce < n ∧ 40 ≤ length.toNat ∧
      data = messageHeader S cc.clientshortservershort n length ∧
      cc' = { cc with receivednonce := n } := by
  unfold cryptoVerifyHeader at h
  split at h
  · cases h
  next hid =>
  dsimp only at h
  split at h
  · cases h
  next hfresh =>
  split at h
  · cases h
  next lengthpacked hopen =>
  obtain ⟨p, hp, rfl, hplen⟩ := cryptoSecretboxOpen_some hopen
  have hdrop : (zeros 32 ++ p).drop 32 = p := List.drop_left' (zeros_length 32)
  rw [hdrop] at h
  simp only [HeaderResult.mk.injEq, Option.some.injEq] at h
  obtain ⟨rfl, rfl, hok⟩ := h
  obtain ⟨hgt, hodd⟩ := (nonceFresh_iff cc _).mp (by simpa using hfresh)
  have hid' : data.take 8 = idMessageClient := by
    have htake := (byteIsequal_ne_zero_iff (by omega) (by decide)).mp hid
    rw [htake]
    rfl
  have hp8 : p.length = 8 := by
    have hfield : (field data 16 24).length = 24 := by simp [field, hdata]
    omega
  have hnonce : uint64Pack (uint64Unpack (data.drop 8)) = field data 8 8 := by
    have hwhole : uint64Unpack (data.drop 8) = uint64Unpack (field data 8 8) := by
      rw [uint64Unpack, uint64Unpack, field, List.take_take, Nat.min_self]
    rw [hwhole]
    exact uint64Pack_uint64Unpack (by simp [field, hdata])
  have hbox : field data 16 24 = S.nacl.box (uint64Pack (uint64Unpack p))
      (clientNonce (uint64Unpack (data.drop 8))) cc.clientshortservershort.bytes := by
    rw [uint64Pack_uint64Unpack hp8, clientNonce, hnonce]
    exact (S.nacl.open_iff _ _ _ _).mp hp
  have hparts : data = data.take 8 ++ (field data 8 8 ++ field data 16 24) := by
    have hrest : field data 16 24 = data.drop 16 :=
      List.take_of_length_le (by rw [List.length_drop, hdata])
    have hsplit : data.drop 16 = (data.drop 8).drop 8 := by rw [List.drop_drop]
    rw [hrest, hsplit, field, List.take_append_drop, List.take_append_drop]
  refine ⟨_, hodd, hgt, ?_, ?_, rfl⟩
  · have hlen : ¬ uint64Unpack p < 40 := by simpa using hok
    exact Nat.le_of_not_lt fun hlt => hlen (UInt64.lt_iff_toNat_lt.mpr hlt)
  · rw [messageHeader, hnonce, ← hbox, ← hid']
    exact hparts

/-- What an accepted packet is: the nonce it was sealed under, the bytes, the length without a wrap, and
that nothing behind it was looked at. -/
structure Encoded (S : Server) (cc : CryptoContext) (mem : Nat → UInt8) (cc' : CryptoContext)
    (length : UInt64) (m : Bytes) (n : UInt64) : Prop where
  odd : isOdd n = true
  above : cc.receivednonce < n
  bytes : slice mem 0 length.toNat =
    sealPacket S idMessageClient prefixSploneboxclient cc.clientshortservershort n m
  context : cc' = { cc with receivednonce := n + 2 }
  length_eq : length.toNat = m.length + 56
  blocklen : (length - 40).toNat = length.toNat - 40
  ciphertextlen : (length - 24).toNat = length.toNat - 24
  plaintextlen : (length - 56).toNat = length.toNat - 56

/-- **Whatever is accepted is a packet.** -/
theorem acceptPacket_some {cc cc' : CryptoContext} {mem : Nat → UInt8} {alloc : Bool} {length : UInt64}
    {m : Bytes} (h : acceptPacket S cc mem alloc = .ok (some (cc', length, m))) :
    ∃ n, Encoded S cc mem cc' length m n := by
  unfold acceptPacket at h
  split at h
  next cc₁ len hheader =>
    obtain ⟨n, hodd, hgt, hlen, hdata, rfl⟩ := cryptoVerifyHeader_ok (slice_length mem 0 40) hheader
    rw [cryptoReadAt_eq hlen] at h
    obtain ⟨x, hread, hx⟩ := Option.map_eq_some_iff.mp (Except.ok.inj h)
    obtain ⟨ccr, mr⟩ := x
    simp only [Prod.mk.injEq] at hx
    obtain ⟨rfl, rfl, rfl⟩ := hx
    obtain ⟨rfl, -, block, hopen, rfl⟩ := cryptoRead_some hread
    rw [field_slice mem hlen] at hopen
    obtain ⟨p, hp, rfl, hplen⟩ := cryptoSecretboxOpen_some hopen
    rw [slice_length] at hplen
    -- the payload is all that the box holds
    have hm : field (zeros 32 ++ p) 32 (len.toNat - 56) = p := by
      have hfield := field_zeros_append p 0 (len.toNat - 56)
      rw [Nat.add_zero] at hfield
      rw [hfield, field, List.drop_zero]
      exact List.take_of_length_le (by omega)
    have hsize : len.toNat = p.length + 56 := by omega
    have hofNat : UInt64.ofNat (p.length + 56) = len := by
      rw [← hsize]
      exact UInt64.ofNat_toNat
    rw [hm]
    refine ⟨n, hodd, hgt, ?_, rfl, hsize, toNat_sub_const hlen,
      toNat_sub_const (Nat.le_trans (by decide) hlen), toNat_sub_const ?_⟩
    · rw [← messagePacket_eq, messagePacket, hofNat, ← hdata, clientNonce,
        ← (S.nacl.open_iff _ _ _ _).mp hp]
      have hsplit := slice_add mem 0 40 (len.toNat - 40)
      rw [Nat.add_sub_cancel' hlen, Nat.zero_add] at hsplit
      exact hsplit
    · show 56 ≤ _
      omega
  next => cases h

/-- Packets that agree below the length give the same result. -/
theorem acceptPacket_congr {cc cc' : CryptoContext} {mem mem' : Nat → UInt8} {alloc : Bool}
    {length : UInt64} {m : Bytes} (h : acceptPacket S cc mem alloc = .ok (some (cc', length, m)))
    (hmem : ∀ i < length.toNat, mem' i = mem i) :
    acceptPacket S cc mem' alloc = .ok (some (cc', length, m)) := by
  obtain ⟨n, hn⟩ := acceptPacket_some h
  have hsame : ∀ i k, i + k ≤ length.toNat → slice mem' i k = slice mem i k := fun i k hik =>
    slice_congr fun j hj => hmem (i + j) (by omega)
  have hlen := hn.length_eq
  unfold acceptPacket at h ⊢
  rw [hsame 0 40 (by omega)]
  split at h
  next cc₁ len hheader =>
    obtain ⟨-, -, -, hlen₁, -, -⟩ := cryptoVerifyHeader_ok (slice_length mem 0 40) hheader
    have hlength : len = length := by
      rw [cryptoReadAt_eq hlen₁] at h
      obtain ⟨x, -, hx⟩ := Option.map_eq_some_iff.mp (Except.ok.inj h)
      simp only [Prod.mk.injEq] at hx
      exact hx.2.1
    subst hlength
    rw [cryptoReadAt_eq hlen₁] at h ⊢
    rw [hsame 0 len.toNat (by omega)]
    exact h
  next => cases h

/-! ## §4 Streams -/

variable (S)

/-- The packets of a list of messages, sealed in order. -/
def clientStream (session : Key) : UInt64 → List Plaintext → List Bytes
  | _, [] => []
  | n, m :: ms =>
      sealPacket S idMessageClient prefixSploneboxclient session n m.bytes ::
        clientStream session (n + 4) ms

/-- Accepting packets one after another: the length, the plaintext and the `receivednonce` of each. -/
def acceptPackets : CryptoContext → List (Nat → UInt8) →
    Except Fault (Option (List (UInt64 × Bytes × UInt64)))
  | _, [] => .ok (some [])
  | cc, mem :: mems =>
      match acceptPacket S cc mem true with
      | .ok (some (cc, length, m)) =>
          (acceptPackets cc mems).map fun r => r.map fun rest => (length, m, cc.receivednonce) :: rest
      | .ok none => .ok none
      | .error f => .error f

/-- What the packets of `clientStream` are to give. -/
def acceptedStream : UInt64 → List Plaintext → List (UInt64 × Bytes × UInt64)
  | _, [] => []
  | n, m :: ms => (UInt64.ofNat (m.bytes.length + 56), m.bytes, n + 2) :: acceptedStream (n + 4) ms

variable {S}

/-- The nonces of a stream below `2 ^ 64 - 2`. -/
def NoncesBelow (n : UInt64) (ms : List Plaintext) : Prop :=
  ∀ i < ms.length, n.toNat + 4 * i < 2 ^ 64 - 2

theorem isOdd_add_four (n : UInt64) : isOdd (n + 4) = isOdd n := by
  have h4 : n + 4 = n + 2 + 2 := by
    rw [UInt64.add_assoc]
    rfl
  rw [h4, isOdd_add_two, isOdd_add_two]

theorem NoncesBelow.tail {n : UInt64} {m : Plaintext} {ms : List Plaintext}
    (h : NoncesBelow n (m :: ms)) : NoncesBelow (n + 4) ms := by
  intro i hi
  have hnext := h (i + 1) (by simp only [List.length_cons]; omega)
  have hadd : (n + 4).toNat = n.toNat + 4 := by
    rw [UInt64.toNat_add]
    show (n.toNat + 4) % 2 ^ 64 = _
    omega
  omega

/-- **A stream is accepted in order.** The induction is on the messages; what is carried is that the next
header nonce is odd and above `receivednonce`, which the payload nonce of the packet before it is. -/
theorem acceptPackets_stream : ∀ (ms : List Plaintext) (cc : CryptoContext) {n : UInt64}
    {mems : List (Nat → UInt8)}, isOdd n = true → (ms ≠ [] → cc.receivednonce < n) →
    NoncesBelow n ms →
    List.Forall₂ (fun mem p => slice mem 0 p.length = p) mems
      (clientStream S cc.clientshortservershort n ms) →
    acceptPackets S cc mems = .ok (some (acceptedStream n ms))
  | [], cc, n, mems, _, _, _, hmems => by
      cases hmems
      rfl
  | m :: ms, cc, n, mems, hodd, hgt, hbelow, hmems => by
      cases hmems with
      | cons hmem hrest =>
      rw [← messagePacket_eq, messagePacket_length] at hmem
      have hfresh := (nonceFresh_iff cc n).mpr ⟨hgt (List.cons_ne_nil m ms), hodd⟩
      have hfirst := acceptPacket_message m hfresh hmem
      have hnext : ms ≠ [] → n + 2 < n + 4 := by
        intro hne
        have hpos : 0 < ms.length := List.length_pos_iff.mpr hne
        have hroom := hbelow 1 (by simp only [List.length_cons]; omega)
        rw [UInt64.lt_iff_toNat_lt, UInt64.toNat_add, UInt64.toNat_add]
        show (n.toNat + 2) % 2 ^ 64 < (n.toNat + 4) % 2 ^ 64
        omega
      have htail := acceptPackets_stream ms { cc with receivednonce := n + 2 }
        ((isOdd_add_four n).trans hodd) hnext hbelow.tail hrest
      simp only [acceptPackets, hfirst, htail]
      rfl

/-- **The packet format, both ways.** `crypto_write` produces the layout; a stream sealed in it with the
client's identifier and prefix is accepted in order, each packet with its length, its plaintext and the
nonce of its payload; whatever header check and read accept is such a packet, and only its own bytes have
been looked at; a length from 40 to 55 is always refused. -/
theorem message_format :
    (∀ (S : Server) (cc : CryptoContext) (data packet : Bytes) (env : WriteEnv),
      (cryptoWrite S cc data env).outcome = .sent packet →
      packet = sealPacket S idMessageServer prefixSploneboxserver cc.clientshortservershort
          (cc.nonce + 2) data ∧
        (cryptoWrite S cc data env).cc = { cc with nonce := cc.nonce + 4 }) ∧
    (∀ (S : Server) (cc : CryptoContext) (n : UInt64) (ms : List Plaintext)
      (mems : List (Nat → UInt8)), isOdd n = true → cc.receivednonce < n → NoncesBelow n ms →
      List.Forall₂ (fun mem p => slice mem 0 p.length = p) mems
        (clientStream S cc.clientshortservershort n ms) →
      acceptPackets S cc mems = .ok (some (acceptedStream n ms))) ∧
    (∀ (S : Server) (cc cc' : CryptoContext) (mem : Nat → UInt8) (alloc : Bool) (length : UInt64)
      (m : Bytes), acceptPacket S cc mem alloc = .ok (some (cc', length, m)) →
      (∃ n, Encoded S cc mem cc' length m n) ∧
        ∀ mem' : Nat → UInt8, (∀ i < length.toNat, mem' i = mem i) →
          acceptPacket S cc mem' alloc = .ok (some (cc', length, m))) ∧
    (∀ (S : Server) (cc : CryptoContext) (mem : Nat → UInt8) (alloc : Bool) (length : UInt64),
      40 ≤ length.toNat → length.toNat < 56 → cryptoReadAt S cc mem length alloc = .ok none) := by
  refine ⟨?_, ?_, ?_, ?_⟩
  · intro S cc data packet env h
    exact cryptoWrite_packet h
  · intro S cc n ms mems hodd hgt hbelow hmems
    exact acceptPackets_stream ms cc hodd (fun _ => hgt) hbelow hmems
  · intro S cc cc' mem alloc length m h
    exact ⟨acceptPacket_some h, fun mem' hmem => acceptPacket_congr h hmem⟩
  · intro S cc mem alloc length hlow hhigh
    exact cryptoReadAt_short hlow hhigh

/-- Two messages, the second one empty. -/
theorem message_format_sample :
    acceptPackets Sample.server { Sample.create.garbage with clientshortservershort := Sample.session }
      ((clientStream Sample.server Sample.session 1 [⟨[1, 2], by decide⟩, ⟨[], by decide⟩]).map
        (store (fun _ => 0) 0)) = .ok (some [(58, [1, 2], 3), (56, [], 7)]) :=
  message_format.2.1 Sample.server
    { Sample.create.garbage with clientshortservershort := Sample.session } 1
    [⟨[1, 2], by decide⟩, ⟨[], by decide⟩] _ (by decide) (by decide)
    (by
      show ∀ i < 2, 1 + 4 * i < 2 ^ 64 - 2
      decide)
    (.cons (slice_store_same _ _ _) (.cons (slice_store_same _ _ _) .nil))

end SploneBox
