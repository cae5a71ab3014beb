/-
# SploneBox.Segmentation — which segmentations of a message stream reach the decoder.

A peer seals messages as packets, the transport cuts the bytes as it likes. `parse_cb` is written to
collect a packet over several callbacks and to take several packets in one, but does neither: a callback
that finds a packet incomplete starts with `read = 0` and never enters the loop again, and the second
packet of a callback is read from the start of the block that still holds the first. What does work is a
callback that finds exactly one packet, in one piece, and one that finds less than a header and refuses
it without touching it (`CutOk`).

`committed_of_whole_packets`: on every run of an established connection whose callbacks are all of these
two kinds, the bytes committed to the unpacker are the messages, in order, none lost or repeated.
-/
import SploneBox.Reassembly
import SploneBox.Replay

namespace SploneBox

open Lib.Machine Lib.Memory

/-! ## §1 The stream -/

variable (S : Server)

/-- The byte stream of a list of messages with their header nonces. -/
def stream (session : Key) (ms : List (UInt64 × Bytes)) : Bytes :=
  ms.flatMap fun nm => messagePacket S session nm.1 nm.2

/-- What the peer seals after the counter `r`: odd nonces, strictly increasing over headers and
payloads, and messages whose packet length is a 64-bit number. -/
def PeerMessages : UInt64 → List (UInt64 × Bytes) → Prop
  | _, [] => True
  | r, (n, m) :: ms =>
      r < n ∧ isOdd n = true ∧ n < n + 2 ∧ m.length + 56 < 2 ^ 64 ∧ PeerMessages (n + 2) ms

/-- The bytes a run delivers. -/
def received (es : List Event) : Bytes :=
  es.flatMap fun
    | .read seg _ => seg
    | _ => []

variable {S}

theorem uint64Pack_inj {x y : UInt64} (h : uint64Pack x = uint64Pack y) : x = y := by
  have hx := uint64Unpack_uint64Pack x []
  rw [h, uint64Unpack_uint64Pack] at hx
  exact hx.symm

/-- A box determines its plaintext. -/
theorem box_inj {m m' n k : Bytes} (h : S.nacl.box m n k = S.nacl.box m' n k) : m = m' := by
  have hopen := (S.nacl.open_iff _ n k m).mpr rfl
  rw [h, (S.nacl.open_iff _ n k m').mpr rfl] at hopen
  exact (Option.some.inj hopen).symm

/-- **Packets are self-delimiting**: a packet in front of a stream that starts with a packet is that
packet. -/
theorem messagePacket_front {session : Key} {n n' : UInt64} {m m' x rest : Bytes}
    (hm : m.length + 56 < 2 ^ 64) (hm' : m'.length + 56 < 2 ^ 64)
    (h : messagePacket S session n m ++ x = messagePacket S session n' m' ++ rest) :
    n = n' ∧ m = m' ∧ x = rest := by
  rw [messagePacket, messagePacket, List.append_assoc, List.append_assoc] at h
  obtain ⟨hhead, hbody⟩ := List.append_inj h (by simp)
  rw [messageHeader, messageHeader] at hhead
  obtain ⟨hn, hbox⟩ := List.append_inj (List.append_cancel_left hhead) (by simp)
  cases uint64Pack_inj hn
  have hlen : m.length = m'.length := by
    have hword := congrArg UInt64.toNat (uint64Pack_inj (box_inj hbox))
    rw [UInt64.toNat_ofNat', UInt64.toNat_ofNat', Nat.mod_eq_of_lt hm, Nat.mod_eq_of_lt hm'] at hword
    omega
  obtain ⟨hpay, hrest⟩ := List.append_inj hbody (by simp [S.nacl.box_length, hlen])
  exact ⟨rfl, box_inj hpay, hrest⟩

/-! ## §2 The two kinds of callbacks that work -/

/-- The 40 bytes at the read position when a segment has arrived. -/
def headerBytes (s : Tunnel) (seg : Bytes) (env : ReadEnv) : Bytes :=
  slice (s.arrived seg env).istream.mem (s.arrived seg env).istream.readPos 40

/-- A read callback with successful allocations that finds exactly one packet, not over the end of the
ring, or less than a header, which `crypto_verify_header` does not open. -/
def CutOk (S : Server) (s : Tunnel) (e : Event) : Prop :=
  ∃ seg env, e = .read seg env ∧ env.packetAlloc = true ∧ env.reserve = true ∧
    (∀ k, env.readAlloc k = true) ∧
    ((∃ n m, s.istream.unread ++ seg = messagePacket S s.cc.clientshortservershort n m ∧
        s.istream.readPos + (s.istream.unread ++ seg).length ≤ s.istream.capacity) ∨
      ((s.istream.unread ++ seg).length < 40 ∧
        (cryptoVerifyHeader S s.cc (headerBytes s seg env)).length = none))

/-- A connection that waits for the next packet. -/
structure Waiting (t : Tunnel) : Prop where
  state : t.cc.state = .established
  ring : t.istream.Wf
  capacity : t.istream.capacity = 0xffff
  packet : t.packet.end_ = 0 ∧ t.packet.pos = 0

/-- The header of a packet that lies whole in the ring is accepted with its own length. -/
theorem verifyHeader_whole {t : Tunnel} {n : UInt64} {m : Bytes} (h : Waiting t)
    (hfresh : nonceFresh t.cc n = true)
    (hunread : t.istream.unread = messagePacket S t.cc.clientshortservershort n m)
    (hfit : t.istream.readPos + t.istream.size ≤ t.istream.capacity) :
    cryptoVerifyHeader S t.cc (slice t.istream.mem t.istream.readPos 40) =
      ⟨{ t.cc with receivednonce := n }, some (UInt64.ofNat (m.length + 56)), true⟩ ∧
    t.istream.size = m.length + 56 ∧ m.length + 56 < 2 ^ 64 := by
  have hsize : t.istream.size = m.length + 56 := by
    have hlen := congrArg List.length hunread
    rwa [Inputstream.unread_length, messagePacket_length] at hlen
  have hcap := h.capacity
  have hsmall : m.length + 56 < 2 ^ 64 := by omega
  have hheader : slice t.istream.mem t.istream.readPos 40
      = messageHeader S t.cc.clientshortservershort n (UInt64.ofNat (m.length + 56)) := by
    rw [← window_eq_slice (by omega : t.istream.readPos + 40 ≤ t.istream.capacity),
      ← window_take _ _ _ t.istream.size 40 (by omega)]
    change t.istream.unread.take 40 = _
    rw [hunread, messagePacket, List.take_left' (messageHeader_length S _ _ _)]
  have hlong : ¬ UInt64.ofNat (m.length + 56) < 40 := by
    rw [UInt64.lt_iff_toNat_lt, UInt64.toNat_ofNat', Nat.mod_eq_of_lt hsmall]
    have h40 : (40 : UInt64).toNat = 40 := rfl
    omega
  refine ⟨?_, hsize, hsmall⟩
  rw [hheader, cryptoVerifyHeader_message _ hfresh, decide_eq_false hlong]
  rfl

/-- The one turn that collects a whole packet: its payload is opened and the parser is reset. -/
theorem parseTurn_whole {l : Loop} {n : UInt64} {m : Bytes} {d : Nat → UInt8}
    (hd : l.packet.data = some d) (hw : l.istream.Wf) (hpos : l.packet.pos = 0)
    (hlength : l.packet.length = m.length + 56) (hend : l.packet.end_ = m.length + 56)
    (hread : l.read = m.length + 56) (hnonce : l.cc.receivednonce = n)
    (hunread : l.istream.unread = messagePacket S l.cc.clientshortservershort n m) :
    ∃ l', parseTurn S l true = (l', .again) ∧ l'.read = 0 ∧ l'.plain = l.plain ++ m ∧
      l'.cc = { l.cc with receivednonce := n + 2 } ∧ l'.istream.Wf ∧
      l'.istream.capacity = l.istream.capacity ∧ l'.istream.size = 0 ∧
      l'.packet.end_ = 0 ∧ l'.packet.pos = 0 := by
  obtain ⟨l₁, d₁, h₁, ht⟩ := takeBytes_spec hw d
  have hsize : l.istream.size = m.length + 56 := by
    have hlen := congrArg List.length hunread
    rwa [Inputstream.unread_length, messagePacket_length] at hlen
  have hmin : min l.packet.end_ l.istream.size = m.length + 56 := by omega
  have hl₁ : l₁.read = 0 ∧ l₁.packet.end_ = 0 := by
    rw [ht.frame]
    dsimp only
    rw [hmin, hend, hread, Nat.sub_self, Nat.add_sub_cancel_left, Nat.mod_self]
    exact ⟨rfl, rfl⟩
  have hopen : readPacket S l₁.cc l₁.packet d₁ true
      = some ({ l.cc with receivednonce := n + 2 }, m) := by
    have hcc : l₁.cc = l.cc := by rw [ht.frame]
    have hlen : l₁.packet.length = m.length + 56 := by
      rw [ht.frame]
      exact hlength
    have hbytes : slice d₁ 0 (m.length + 56)
        = messagePacket S l.cc.clientshortservershort l.cc.receivednonce m := by
      rw [ht.data, hpos, hunread, hend, List.take_of_length_le (by simp), hnonce,
        ← messagePacket_length S l.cc.clientshortservershort n m]
      exact slice_store_same _ _ _
    rw [readPacket, hcc, hlen, hbytes, cryptoRead_message, hnonce]
  rcases parseTurn_cases (S := S) hd true h₁ with
    ⟨hnone, _⟩ | ⟨_, he, _⟩ | ⟨cc, m', hopen', ⟨hr, _, _⟩ | ⟨_, hp⟩⟩
  · rw [hopen] at hnone
    cases hnone
  · omega
  · omega
  · rw [hopen] at hopen'
    cases hopen'
    refine ⟨_, hp, hl₁.1, ?_, rfl, ht.wf, ht.capacity, ?_, rfl, rfl⟩
    · simp only [Loop.opened]
      rw [ht.frame]
    · have hs := ht.size
      simp only [Loop.opened, Loop.copied]
      omega

/-- The loop is not entered with `read = 0`. -/
theorem parseLoop_done {l : Loop} (h : l.read = 0) (alloc : Nat → Bool) (fuel : Nat) :
    parseLoop S alloc fuel l = (l, .again) := by
  cases fuel with
  | zero => rfl
  | succ fuel =>
      unfold parseLoop
      rw [if_pos h]

/-- A loop of one turn. -/
theorem parseLoop_single {l l' : Loop} (alloc : Nat → Bool) (fuel : Nat) (h : l.read ≠ 0)
    (hturn : parseTurn S l (alloc fuel) = (l', .again)) (h' : l'.read = 0) :
    parseLoop S alloc (fuel + 1) l = (l', .again) := by
  unfold parseLoop
  rw [if_neg h, hturn]
  exact parseLoop_done h' alloc fuel

/-- **A callback that finds exactly one packet commits its message.** -/
theorem parseMessages_whole {t : Tunnel} {env : ReadEnv} {n : UInt64} {m : Bytes} (h : Waiting t)
    (halloc : env.packetAlloc = true ∧ env.reserve = true ∧ ∀ k, env.readAlloc k = true)
    (hfresh : nonceFresh t.cc n = true)
    (hunread : t.istream.unread = messagePacket S t.cc.clientshortservershort n m)
    (hfit : t.istream.readPos + t.istream.size ≤ t.istream.capacity) :
    ∃ t', afterRead (parseMessages S t env) = t' ∧ Waiting t' ∧ t'.istream.size = 0 ∧
      t'.cc = { t.cc with receivednonce := n + 2 } ∧ t'.committed = t.committed ++ m := by
  obtain ⟨hheader, hsize, hsmall⟩ := verifyHeader_whole h hfresh hunread hfit
  have hcount := inputstreamGetRead_count h.ring
  rcases parseMessages_cases (S := S) t env with
    ⟨_, hno⟩ | ⟨_, hno⟩ | ⟨data, r, hdata, hr, _, _, _, ⟨_, _, hno, _⟩ | ⟨hok, _, _, hp⟩⟩
  · rcases hno with h0 | hst
    · omega
    · exact absurd h.state hst
  · exact absurd h.packet.1 hno
  · rw [hr, hdata, hheader, halloc.1, halloc.2.1] at hno
    simp at hno
  · rw [hdata, hheader] at hr
    have hword : (UInt64.ofNat (m.length + 56)).toNat = m.length + 56 := by
      rw [UInt64.toNat_ofNat', Nat.mod_eq_of_lt hsmall]
    have hstore : (t.packet.store r).length = m.length + 56 := by
      rw [hr]
      exact hword
    obtain ⟨l', hturn, hread', hplain, hcc, hwf, hcap, hsize', hpacket⟩ :=
      parseTurn_whole (S := S) (l := firstTurn t env data r (inputstreamGetRead t.istream).2)
        (n := n) (m := m) rfl h.ring (by simp [firstTurn, h.packet.2]) hstore hstore
        (by simp only [firstTurn]; omega) (by simp [firstTurn, hr])
        (by simpa only [firstTurn, hr] using hunread)
    have hpos : (firstTurn t env data r (inputstreamGetRead t.istream).2).read ≠ 0 := by
      simp only [firstTurn]
      omega
    have hloop := parseLoop_single env.readAlloc (t.istream.size + 1) hpos (halloc.2.2 _ ▸ hturn) hread'
    refine ⟨_, rfl, ?_⟩
    rw [hp, hloop]
    simp only [finishLoop, afterRead]
    refine ⟨⟨?_, hwf, ?_, hpacket⟩, hsize', ?_, ?_⟩
    · simp only [hcc, firstTurn, hr]
      exact h.state
    · exact hcap.trans h.capacity
    · simp only [hcc, firstTurn, hr]
    · simp only [hplain, firstTurn, List.nil_append]

/-- A callback that finds less than a header and does not open it leaves everything as it is. -/
theorem parseMessages_partial {t : Tunnel} (env : ReadEnv) (h : Waiting t)
    (hnone : (cryptoVerifyHeader S t.cc (slice t.istream.mem t.istream.readPos 40)).length = none) :
    ∃ t', afterRead (parseMessages S t env) = t' ∧ Waiting t' ∧ t'.istream = t.istream ∧
      t'.cc = t.cc ∧ t'.committed = t.committed := by
  have hrefused : cryptoVerifyHeader S t.cc (slice t.istream.mem t.istream.readPos 40)
      = ⟨t.cc, none, false⟩ := by
    rcases cryptoVerifyHeader_cases (S := S) t.cc (slice t.istream.mem t.istream.readPos 40) with
      hh | ⟨length, _, _, hh⟩
    · exact hh
    · rw [hh] at hnone
      cases hnone
  refine ⟨_, rfl, ?_⟩
  by_cases hsize : t.istream.size = 0
  · have hp : parseMessages S t env = ⟨t, false, .ended⟩ := by
      have hc : inputstreamPending t.istream = 0 ∨ t.cc.state ≠ .established := Or.inl hsize
      unfold parseMessages
      rw [if_pos hc]
    rw [hp]
    exact ⟨h, rfl, rfl, rfl⟩
  · have hptr := inputstreamGetRead_pointer hsize
    rcases hget : inputstreamGetRead t.istream with ⟨ptr, read⟩
    rw [hget] at hptr
    cases hptr
    have hp : parseMessages S t env = ⟨{ t with packet := resetPacket t.packet }, false, .ended⟩ := by
      unfold parseMessages
      rw [if_neg (by simp [inputstreamPending, hsize, h.state]), if_pos h.packet.1, hget]
      simp only [hrefused]
      simp [headerAccepted, Packet.store]
    rw [hp]
    exact ⟨⟨h.state, h.ring, h.capacity, rfl, rfl⟩, rfl, rfl, rfl⟩

/-! ## §3 Runs -/

/-- What has arrived of a stream, up to the bytes waiting in the ring, is in front of what is still to
come. -/
theorem committed_run : ∀ (es : List Event) (ms : List (UInt64 × Bytes)) (t t' : Tunnel),
    Waiting t → t.istream.unread.length < 40 → PeerMessages t.cc.receivednonce ms →
    t.istream.unread ++ received es = stream S t.cc.clientshortservershort ms →
    exec (step S) t es = some t' → Along (step S) (fun s e _ => CutOk S s e) t es →
    t'.committed = t.committed ++ (ms.map Prod.snd).flatten
  | [], ms, t, t', _, hshort, _, hstream, hrun, _ => by
      cases hrun
      have hnil : ms = [] := by
        -- a packet that has not been committed would be waiting in the ring, with its 56 bytes
        cases ms with
        | nil => rfl
        | cons nm ms =>
            have hlen := congrArg List.length hstream
            simp only [received, stream, List.flatMap_nil, List.append_nil, List.flatMap_cons,
              List.length_append, messagePacket_length] at hlen
            omega
      rw [hnil]
      simp
  | e :: es, ms, t, t', hwait, hshort, hpeer, hstream, hrun, hcut => by
      obtain ⟨t₁, hs, hrest⟩ := exec_cons.mp hrun
      obtain ⟨⟨seg, env, rfl, hpa, hre, hra, hkind⟩, hcut'⟩ := along_cons hcut hs
      obtain ⟨_, hseg, hcases⟩ := step_read hs
      rcases hcases with ⟨hst, _⟩ | ⟨hst, _⟩ | ⟨_, ht₁⟩
      · rw [hwait.state] at hst
        cases hst
      · rw [hwait.state] at hst
        cases hst
      obtain ⟨hwf, hunread⟩ := inputstreamReadCb_spec hwait.ring hseg
      have harr : Waiting (t.arrived seg env) :=
        ⟨hwait.state, withBehind_wf hwf env.behind, hwait.capacity, hwait.packet⟩
      have hunread' : (t.arrived seg env).istream.unread = t.istream.unread ++ seg := by
        rw [← hunread]
        exact withBehind_unread hwf env.behind
      have hrecv : received (.read seg env :: es) = seg ++ received es := rfl
      rw [hrecv, ← List.append_assoc] at hstream
      rcases hkind with ⟨n, m, hpacket, hfit⟩ | ⟨hless, hnone⟩
      · -- one whole packet: it is the first of the stream
        cases ms with
        | nil =>
            rw [hpacket] at hstream
            have hlen := congrArg List.length hstream
            simp [stream] at hlen
        | cons nm ms =>
            obtain ⟨n', m'⟩ := nm
            obtain ⟨hgt, hodd, _, hlen', hpeer'⟩ := hpeer
            have hcap := hwait.capacity
            have hlen : m.length + 56 < 2 ^ 64 := by
              rw [hpacket, messagePacket_length] at hfit
              omega
            have hcons : stream S t.cc.clientshortservershort ((n', m') :: ms)
                = messagePacket S t.cc.clientshortservershort n' m' ++
                  stream S t.cc.clientshortservershort ms := rfl
            rw [hpacket, hcons] at hstream
            obtain ⟨rfl, rfl, hstream'⟩ := messagePacket_front hlen hlen' hstream
            have hsize : (t.arrived seg env).istream.size = (t.istream.unread ++ seg).length := by
              rw [← hunread', Inputstream.unread_length]
            obtain ⟨t₂, ht₂, hwait₂, hempty, hcc, hcomm⟩ :=
              parseMessages_whole (S := S) harr ⟨hpa, hre, hra⟩
                ((nonceFresh_iff _ _).mpr ⟨hgt, hodd⟩) (hunread'.trans hpacket)
                (by rw [hsize]; exact hfit)
            rw [ht₂] at ht₁
            subst ht₁
            have hnil : t₁.istream.unread = [] := by
              rw [← List.length_eq_zero_iff, Inputstream.unread_length, hempty]
            have hih := committed_run es ms t₁ t' hwait₂ (by rw [hnil]; decide)
              (by rw [hcc]; exact hpeer') (by rw [hnil, hcc]; exact hstream') hrest hcut'
            rw [hih, hcomm, List.map_cons, List.flatten_cons, List.append_assoc]
            rfl
      · obtain ⟨t₂, ht₂, hwait₂, hring, hcc, hcomm⟩ :=
          parseMessages_partial (S := S) env harr hnone
        rw [ht₂] at ht₁
        subst ht₁
        have hih := committed_run es ms t₁ t' hwait₂ (by rw [hring, hunread']; exact hless)
          (by rw [hcc]; exact hpeer) (by rw [hring, hunread', hcc]; exact hstream) hrest hcut'
        rw [hih, hcomm]
        rfl

/-- **Segmentation, where it works.** Let an established connection wait for its next packet, and let
the peer seal any messages. On every run over the stream of their packets whose callbacks each find one
whole packet, in one piece, or an unopened part of a header, the bytes committed to the unpacker are the
messages, in order. -/
theorem committed_of_whole_packets (env : CreateEnv) (before es : List Event) (t t' : Tunnel)
    (ms : List (UInt64 × Bytes)) (hreach : exec (step S) (connectionCreate env) before = some t)
    (hest : t.cc.state = .established) (hempty : t.istream.size = 0) (hquiet : t.packet.end_ = 0)
    (hpeer : PeerMessages t.cc.receivednonce ms)
    (hstream : received es = stream S t.cc.clientshortservershort ms)
    (hrun : exec (step S) t es = some t')
    (hcut : Along (step S) (fun s e _ => CutOk S s e) t es) :
    t'.committed = t.committed ++ (ms.map Prod.snd).flatten := by
  have hstep : ∀ s e s', ReassemblyInv s → step S s e = some s' → ReassemblyInv s' :=
    fun s e s' hs => reassembly_closed.step hs
  have hinv := (always_of_step hstep (connectionCreate_reassembly env)).exec hreach
  have hnil : t.istream.unread = [] := by
    rw [← List.length_eq_zero_iff, Inputstream.unread_length, hempty]
  refine committed_run es ms t t' ⟨hest, hinv.ring.1, hinv.ring.2, hquiet, hinv.quiet hquiet⟩
    ?_ hpeer ?_ hrun hcut
  · rw [hnil]
    decide
  · rw [hnil]
    exact hstream

namespace Sample

/-- Two messages of the sample client. -/
def firstPacket : Bytes := messagePacket server session 5 [42]

def secondPacket : Bytes := messagePacket server session 9 [43]

/-- A callback that finds the packet of `m` and nothing else. -/
def finds (s : Tunnel) (seg : Bytes) (n : UInt64) (m : Bytes) : Bool :=
  decide (s.istream.unread ++ seg = messagePacket server s.cc.clientshortservershort n m ∧
    s.istream.readPos + (s.istream.unread ++ seg).length ≤ s.istream.capacity)

theorem cutOk_of_finds {s : Tunnel} {seg : Bytes} {n : UInt64} {m : Bytes}
    (h : finds s seg n m = true) : CutOk server s (.read seg env) :=
  ⟨seg, env, rfl, rfl, rfl, fun _ => rfl, Or.inl ⟨n, m, of_decide_eq_true h⟩⟩

end Sample

/-- A packet cut after 50 bytes, and two packets in one segment: nothing is committed. -/
theorem cut_packet_not_committed :
    ∃ t t₁ t₂, exec (step Sample.server) (connectionCreate Sample.create) Sample.handshake = some t ∧
      t.cc.state = .established ∧ t.istream.size = 0 ∧ t.packet.end_ = 0 ∧ t.committed = [] ∧
      t.cc.receivednonce = 3 ∧ t.cc.clientshortservershort = Sample.session ∧
      exec (step Sample.server) t [.read (Sample.firstPacket.take 50) Sample.env,
        .read (Sample.firstPacket.drop 50) Sample.env] = some t₁ ∧ t₁.committed = [] ∧
      exec (step Sample.server) t [.read (Sample.firstPacket ++ Sample.secondPacket) Sample.env]
        = some t₂ ∧ t₂.committed = [] := by
  have hrun : (exec (step Sample.server) (connectionCreate Sample.create) Sample.handshake).any
      (fun t : Tunnel => decide (t.cc.state = .established ∧ t.istream.size = 0 ∧ t.packet.end_ = 0 ∧
          t.committed = [] ∧ t.cc.receivednonce = 3 ∧ t.cc.clientshortservershort = Sample.session) &&
        ((exec (step Sample.server) t [.read (Sample.firstPacket.take 50) Sample.env,
            .read (Sample.firstPacket.drop 50) Sample.env]).any fun t₁ => decide (t₁.committed = [])) &&
        (exec (step Sample.server) t
          [.read (Sample.firstPacket ++ Sample.secondPacket) Sample.env]).any
            fun t₂ => decide (t₂.committed = [])) = true := by
    rw [Sample.exec_handshake]
    decide +kernel
  obtain ⟨t, hex, ht⟩ := (Option.any_eq_true _ _).mp hrun
  simp only [Bool.and_eq_true, decide_eq_true_eq] at ht
  obtain ⟨⟨⟨hest, hsize, hend, hcomm, hrn, hkey⟩, hcut⟩, htwo⟩ := ht
  obtain ⟨t₁, hex₁, h₁⟩ := (Option.any_eq_true _ _).mp hcut
  obtain ⟨t₂, hex₂, h₂⟩ := (Option.any_eq_true _ _).mp htwo
  exact ⟨t, t₁, t₂, hex, hest, hsize, hend, hcomm, hrn, hkey, hex₁, of_decide_eq_true h₁, hex₂,
    of_decide_eq_true h₂⟩

/-- One packet in one callback, the next one after a callback with its first 20 bytes. -/
theorem committed_of_whole_packets_sample :
    ∃ t t', exec (step Sample.server) (connectionCreate Sample.create) Sample.handshake = some t ∧
      exec (step Sample.server) t [.read Sample.firstPacket Sample.env,
        .read (Sample.secondPacket.take 20) Sample.env,
        .read (Sample.secondPacket.drop 20) Sample.env] = some t' ∧
      t'.committed = t.committed ++ [42, 43] := by
  have hrun : (exec (step Sample.server) (connectionCreate Sample.create) Sample.handshake).any
      (fun t : Tunnel => decide (t.cc.state = .established ∧ t.istream.size = 0 ∧ t.packet.end_ = 0 ∧
          t.cc.receivednonce = 3 ∧ t.cc.clientshortservershort = Sample.session) &&
        Sample.finds t Sample.firstPacket 5 [42] &&
        (step Sample.server t (.read Sample.firstPacket Sample.env)).any fun s : Tunnel =>
          decide ((s.istream.unread ++ Sample.secondPacket.take 20).length < 40 ∧
            (cryptoVerifyHeader Sample.server s.cc
              (headerBytes s (Sample.secondPacket.take 20) Sample.env)).length = none) &&
          (step Sample.server s (.read (Sample.secondPacket.take 20) Sample.env)).any fun s' : Tunnel =>
            Sample.finds s' (Sample.secondPacket.drop 20) 9 [43] &&
            (step Sample.server s' (.read (Sample.secondPacket.drop 20) Sample.env)).isSome) = true := by
    rw [Sample.exec_handshake]
    decide +kernel
  obtain ⟨t, hex, ht⟩ := (Option.any_eq_true _ _).mp hrun
  simp only [Bool.and_eq_true, decide_eq_true_eq] at ht
  obtain ⟨⟨⟨hest, hsize, hend, hrn, hkey⟩, hfirst⟩, hnext⟩ := ht
  obtain ⟨s, hs, hnext⟩ := (Option.any_eq_true _ _).mp hnext
  simp only [Bool.and_eq_true, decide_eq_true_eq] at hnext
  obtain ⟨hpart, hlast⟩ := hnext
  obtain ⟨s', hs', hlast⟩ := (Option.any_eq_true _ _).mp hlast
  simp only [Bool.and_eq_true] at hlast
  obtain ⟨t', ht'⟩ := Option.isSome_iff_exists.mp hlast.2
  have hrun' : exec (step Sample.server) t [.read Sample.firstPacket Sample.env,
      .read (Sample.secondPacket.take 20) Sample.env,
      .read (Sample.secondPacket.drop 20) Sample.env] = some t' :=
    exec_cons.mpr ⟨s, hs, exec_cons.mpr ⟨s', hs', exec_singleton.mpr ht'⟩⟩
  have hcut : Along (step Sample.server) (fun s e _ => CutOk Sample.server s e) t
      [.read Sample.firstPacket Sample.env, .read (Sample.secondPacket.take 20) Sample.env,
        .read (Sample.secondPacket.drop 20) Sample.env] := by
    refine fun s₁ hs₁ => ⟨Sample.cutOk_of_finds hfirst, fun s₂ hs₂ => ?_⟩
    cases hs.symm.trans hs₁
    refine ⟨⟨_, _, rfl, rfl, rfl, fun _ => rfl, Or.inr hpart⟩, fun s₃ hs₃ => ⟨?_, trivial⟩⟩
    cases hs'.symm.trans hs₂
    exact Sample.cutOk_of_finds hlast.1
  have hpeer : PeerMessages t.cc.receivednonce [(5, [42]), (9, [43])] := by
    rw [hrn]
    simp only [PeerMessages, List.length_cons, List.length_nil]
    decide
  refine ⟨t, t', hex, hrun', ?_⟩
  refine committed_of_whole_packets Sample.create _ _ t t' [(5, [42]), (9, [43])] hex hest hsize hend
    hpeer ?_ hrun' hcut
  rw [hkey]
  decide +kernel

end SploneBox
