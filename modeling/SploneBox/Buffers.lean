/-
# SploneBox.Buffers — the packets of the tunnel and the memory they are sent from.

`uv_write` does not copy: the transport reads what it has not sent yet from the buffer of the caller until the
write is over. The cookie packet stands on the stack of `crypto_recv_hello_send_cookie`, and the packet of
`crypto_write` on the heap; both are cleared and given back right behind `outputstream_write`, before
`write_cb` has run. So a packet goes out as it was just when the transport takes all of it at once
(`packets_intact_iff`).
-/
import SploneBox.Crypto
import SploneBox.Client
import SploneBox.Outputstream

namespace SploneBox

open Lib.Machine

/-! ## §1 Memory and writes -/

/-- A buffer: what stands in it, and whether the function it belongs to still holds it. -/
structure Block where
  bytes : Bytes
  held : Bool
deriving DecidableEq

/-- A write that `uv_write` has taken: the request, the packet at the time of the call, the bytes of it that
have reached the wire, and the status that `write_cb` was called with. -/
structure Sending where
  data : WriteRequestData
  packet : Bytes
  wire : Bytes
  status : Option Int
deriving DecidableEq

/-- One connection with its memory. -/
structure Buffers where
  cc : CryptoContext
  ostream : Outputstream
  memory : Nat → Block
  writes : List Sending

/-- What a call that sends is told: the address of its packet, the replies to `outputstream_write`, and how
many bytes the transport takes at once. -/
structure Sender where
  buffer : Nat
  replies : WriteReplies
  now : Nat

inductive BufferStep where
  | cookie (data : Bytes) (env : HelloEnv) (io : Sender)
  | write (data : Bytes) (env : WriteEnv) (io : Sender)
  | transmit (i count : Nat)
  | complete (i : Nat) (status : Int)
  | reuse (buffer : Nat) (bytes : Bytes)

namespace Buffers

variable (S : Server)

/-- What `outputstream_write` returns for a packet. -/
def handed (s : Buffers) (packet : Bytes) (io : Sender) : Written :=
  outputstreamWrite s.ostream io.buffer (UInt64.ofNat packet.length) io.replies

/-- The packet is written to its buffer and handed to `outputstream_write`, and the transport takes what it
takes at once; then the first `cleared` bytes of the buffer are cleared, and the buffer is given back. -/
def send (s : Buffers) (packet : Bytes) (io : Sender) (cleared : Nat) : Buffers :=
  let held : Nat → Block := Function.update s.memory io.buffer ⟨packet, true⟩
  let w := s.handed packet io
  let writes :=
    s.writes ++ (w.started.map fun data => ⟨data, packet, (held data.buffer).bytes.take io.now, none⟩).toList
  { s with
    ostream := w.ostream
    memory := Function.update held io.buffer ⟨zeros (min cleared packet.length) ++ packet.drop cleared, false⟩
    writes := writes }

/-- The cookie packet that `crypto_recv_hello_send_cookie` hands over, if it comes that far. -/
def cookiePacket (s : Buffers) (data : Bytes) (env : HelloEnv) : Option Bytes :=
  (cryptoRecvHelloSendCookie S s.cc data env).packet

/-- `crypto_recv_hello_send_cookie`; the whole `cookiepacket` is cleared. -/
def cookie (s : Buffers) (data : Bytes) (env : HelloEnv) (io : Sender) : Buffers :=
  match s.cookiePacket S data env with
  | none => { s with cc := (cryptoRecvHelloSendCookie S s.cc data env).cc }
  | some packet =>
      let env := { env with written := (s.handed packet io).rc == 0 }
      { s.send packet io packet.length with cc := (cryptoRecvHelloSendCookie S s.cc data env).cc }

/-- The packet that `crypto_write` hands over, if it comes that far. -/
def messagePacket (s : Buffers) (data : Bytes) (env : WriteEnv) : Option Bytes :=
  match (cryptoWrite S s.cc data { env with written := true }).outcome with
  | .sent packet => some packet
  | .failed => none
  | .exited => none

/-- `crypto_write`; of `packet` as many bytes are cleared as a pointer has. -/
def write (s : Buffers) (data : Bytes) (env : WriteEnv) (io : Sender) : Buffers :=
  let sent := { s with cc := (cryptoWrite S s.cc data env).cc }
  match s.messagePacket S data env with
  | none => sent
  | some packet => sent.send packet io 8

/-- The bytes of a write that the transport has not taken are read from the buffer, as it is now. -/
def transmit (s : Buffers) (f : Sending) (count : Nat) : Sending :=
  let rest := min count (f.packet.length - f.wire.length)
  { f with wire := f.wire ++ ((s.memory f.data.buffer).bytes.drop f.wire.length).take rest }

/-- One step: a call that sends, some more bytes of a write that is not over, the end of one, which is a
success when all its bytes were sent, or another use of memory that nobody holds. -/
def step (s : Buffers) : BufferStep → Option Buffers
  | .cookie data env io => if (s.memory io.buffer).held then none else some (s.cookie S data env io)
  | .write data env io => if (s.memory io.buffer).held then none else some (s.write S data env io)
  | .transmit i count => do
      let f ← s.writes[i]?
      if f.status = none then some { s with writes := s.writes.set i (s.transmit f count) } else none
  | .complete i status => do
      let f ← s.writes[i]?
      if f.status = none ∧ (status < 0 ∨ (status = 0 ∧ f.wire.length = f.packet.length)) then
        some { s with
          ostream := writeCb s.ostream f.data status
          writes := s.writes.set i { f with status := some status } }
      else none
  | .reuse buffer bytes =>
      if (s.memory buffer).held then none
      else some { s with memory := Function.update s.memory buffer ⟨bytes, false⟩ }

/-- A connection that has sent nothing. -/
def init (cc : CryptoContext) (maxmem : UInt32) : Buffers :=
  ⟨cc, outputstreamNew maxmem, fun _ => ⟨[], false⟩, []⟩

/-! ## §2 Packets that go out as they were -/

/-- **A write is intact**: what has reached the wire is the beginning of the packet, all of it when the write
has ended well, and as long as there is more to send, the buffer is held and has the packet in it. -/
def Intact (s : Buffers) : Prop :=
  ∀ f ∈ s.writes, f.wire <+: f.packet ∧ (f.status = some 0 → f.wire = f.packet) ∧
    (f.status = none → f.wire.length < f.packet.length → s.memory f.data.buffer = ⟨f.packet, true⟩)

/-- The buffer of a write is held with the packet in it until `write_cb` has run. -/
def Held (s : Buffers) : Prop :=
  ∀ f ∈ s.writes, f.status = none → s.memory f.data.buffer = ⟨f.packet, true⟩

/-- The packet that a step hands to `outputstream_write`, with the replies to it. -/
def sends (s : Buffers) : BufferStep → Option (Bytes × Sender)
  | .cookie data env io => (s.cookiePacket S data env).map fun packet => (packet, io)
  | .write data env io => (s.messagePacket S data env).map fun packet => (packet, io)
  | _ => none

/-- The write is one that `outputstream_write` accepts: there is room for it, both allocations succeed and
`uv_write` takes it. -/
def accepts (s : Buffers) (packet : Bytes) (io : Sender) : Bool :=
  !s.ostream.full (UInt64.ofNat packet.length) && io.replies.data && io.replies.req && io.replies.uvWrite == 0

/-- The transport takes a packet that is accepted at once, as a whole. -/
def SentAtOnce (s : Buffers) (l : BufferStep) : Prop :=
  ∀ packet io, s.sends S l = some (packet, io) → s.accepts packet io = true → packet.length ≤ io.now

/-- No packet is accepted. -/
def NoneAccepted (s : Buffers) (l : BufferStep) : Prop :=
  ∀ packet io, s.sends S l = some (packet, io) → s.accepts packet io = false

/-! ## §3 The writes behind a step -/

variable {S}

theorem handed_started {s : Buffers} {packet : Bytes} {io : Sender} :
    (s.handed packet io).started =
      if s.accepts packet io = true then some ⟨io.buffer, UInt64.ofNat packet.length⟩ else none := by
  unfold handed accepts
  rcases Stream.outputstreamWrite_cases s.ostream io.buffer (UInt64.ofNat packet.length) io.replies with
    ⟨hquit, hw⟩ | ⟨hfull, hdata, hreq, hw⟩
  · rw [hw]
    rcases hquit with hq | hq | hq <;> simp [hq]
  · by_cases huv : io.replies.uvWrite = 0 <;> simp [hw, hfull, hdata, hreq, huv]

/-- The writes behind a call that sends: those there were, and that of the packet, when it is accepted. -/
theorem mem_send {s : Buffers} {packet : Bytes} {io : Sender} {cleared : Nat} {f : Sending} :
    f ∈ (s.send packet io cleared).writes ↔ f ∈ s.writes ∨
      (s.accepts packet io = true ∧
        f = ⟨⟨io.buffer, UInt64.ofNat packet.length⟩, packet, packet.take io.now, none⟩) := by
  by_cases hacc : s.accepts packet io = true
  · simp [send, handed_started, hacc]
  · simp [send, handed_started, hacc]

/-- A call that sends leaves the other buffers alone, and gives its own back. -/
theorem send_memory_of_ne {s : Buffers} {packet : Bytes} {io : Sender} {cleared buffer : Nat}
    (h : buffer ≠ io.buffer) :
    (s.send packet io cleared).memory buffer = s.memory buffer := by
  simp [send, h]

theorem send_memory_held {s : Buffers} {packet : Bytes} {io : Sender} {cleared : Nat} :
    ((s.send packet io cleared).memory io.buffer).held = false := by
  simp [send]

/-- The writes and the memory behind a step, by what the step does. -/
inductive Moved (s s' : Buffers) (l : BufferStep) : Prop where
  /-- No packet is handed over, and what nobody holds may be overwritten. -/
  | quiet (hsends : s.sends S l = none) (hwrites : s'.writes = s.writes)
      (hmemory : ∀ b, (s.memory b).held = true → s'.memory b = s.memory b)
  | sent (packet : Bytes) (io : Sender) (cleared : Nat) (hsends : s.sends S l = some (packet, io))
      (hfree : (s.memory io.buffer).held = false) (hwrites : s'.writes = (s.send packet io cleared).writes)
      (hmemory : s'.memory = (s.send packet io cleared).memory)
  | transmitted (i count : Nat) (f : Sending) (hsends : s.sends S l = none) (hf : s.writes[i]? = some f)
      (hopen : f.status = none) (hwrites : s'.writes = s.writes.set i (s.transmit f count))
      (hmemory : s'.memory = s.memory)
  | completed (i : Nat) (status : Int) (f : Sending) (hsends : s.sends S l = none) (hf : s.writes[i]? = some f)
      (hdone : status = 0 → f.wire.length = f.packet.length)
      (hwrites : s'.writes = s.writes.set i { f with status := some status }) (hmemory : s'.memory = s.memory)

theorem step_moved {s s' : Buffers} {l : BufferStep} (h : s.step S l = some s') : Moved (S := S) s s' l := by
  cases l with
  | cookie data env io =>
      simp only [step] at h
      split at h
      · cases h
      · next hfree =>
          obtain rfl := Option.some.inj h
          unfold cookie
          -- A packet that could not be made is not sent, and no buffer has changed.
          cases hp : s.cookiePacket S data env with
          | none => exact .quiet (by simp [sends, hp]) rfl (fun b _ => rfl)
          | some packet =>
              exact .sent packet io packet.length (by simp [sends, hp]) (by simpa using hfree) rfl rfl
  | write data env io =>
      simp only [step] at h
      split at h
      · cases h
      · next hfree =>
          obtain rfl := Option.some.inj h
          unfold write
          -- The message goes out of the block that the caller keeps, behind the bytes that the box leaves in
          -- front.
          cases hp : s.messagePacket S data env with
          | none => exact .quiet (by simp [sends, hp]) rfl (fun b _ => rfl)
          | some packet => exact .sent packet io 8 (by simp [sends, hp]) (by simpa using hfree) rfl rfl
  | transmit i count =>
      simp only [step, bind, Option.bind_eq_some_iff] at h
      obtain ⟨f, hf, h⟩ := h
      split_ifs at h with hopen
      obtain rfl := Option.some.inj h
      exact .transmitted i count f rfl hf hopen rfl rfl
  | complete i status =>
      simp only [step, bind, Option.bind_eq_some_iff] at h
      obtain ⟨f, hf, h⟩ := h
      split_ifs at h with hdone
      obtain rfl := Option.some.inj h
      refine .completed i status f rfl hf ?_ rfl rfl
      intro hzero
      rcases hdone.2 with hneg | ⟨-, hlen⟩
      · omega
      · exact hlen
  | reuse buffer bytes =>
      simp only [step] at h
      split at h
      · cases h
      · next hfree =>
          obtain rfl := Option.some.inj h
          refine .quiet rfl rfl ?_
          intro b hb
          have hne : b ≠ buffer := by
            rintro rfl
            exact hfree hb
          simp [hne]

/-- Memory that is held stays as it is. -/
theorem held_memory {s s' : Buffers} {l : BufferStep} (h : Moved (S := S) s s' l) {b : Nat}
    (hb : (s.memory b).held = true) : s'.memory b = s.memory b := by
  cases h with
  | quiet _ _ hmemory => exact hmemory b hb
  | sent packet io cleared _ hfree _ hmemory =>
      rw [hmemory]
      apply send_memory_of_ne
      rintro rfl
      exact absurd hb (by simp [hfree])
  | transmitted _ _ _ _ _ _ _ hmemory => rw [hmemory]
  | completed _ _ _ _ _ _ _ hmemory => rw [hmemory]

/-! ## §4 What a step keeps -/

/-- A write that is intact stays so when its buffer does. -/
theorem intact_of_memory {s s' : Buffers} {l : BufferStep} (hs : s.Intact) (h : Moved (S := S) s s' l)
    {f : Sending} (hf : f ∈ s.writes) : f.wire <+: f.packet ∧ (f.status = some 0 → f.wire = f.packet) ∧
      (f.status = none → f.wire.length < f.packet.length → s'.memory f.data.buffer = ⟨f.packet, true⟩) := by
  obtain ⟨hwire, hdone, hmem⟩ := hs f hf
  refine ⟨hwire, hdone, ?_⟩
  intro hopen hlt
  have hb := hmem hopen hlt
  rw [held_memory h (by rw [hb]), hb]

/-- The transport reads the rest of a packet from a buffer that still has the packet in it. -/
theorem transmit_wire {s : Buffers} {f : Sending} {count : Nat} (hwire : f.wire <+: f.packet)
    (hmem : f.wire.length < f.packet.length → s.memory f.data.buffer = ⟨f.packet, true⟩) :
    (s.transmit f count).wire <+: f.packet ∧ f.wire.length ≤ (s.transmit f count).wire.length := by
  obtain ⟨rest, hrest⟩ := hwire
  by_cases hlt : f.wire.length < f.packet.length
  · have hdrop : f.packet.drop f.wire.length = rest := by rw [← hrest, List.drop_left]
    refine ⟨?_, by simp [transmit]⟩
    simp only [transmit, hmem hlt, hdrop]
    conv_rhs => rw [← hrest]
    exact (List.prefix_append_right_inj _).mpr (List.take_prefix _ _)
  · have hzero : min count (f.packet.length - f.wire.length) = 0 := by omega
    refine ⟨?_, by simp [transmit]⟩
    simp only [transmit, hzero, List.take_zero, List.append_nil]
    exact ⟨rest, hrest⟩

theorem intact_of_moved {s s' : Buffers} {l : BufferStep} (hs : s.Intact) (hl : s.SentAtOnce S l)
    (h : Moved (S := S) s s' l) : s'.Intact := by
  intro f hf
  have hold := fun g hg => intact_of_memory (f := g) hs h hg
  cases h with
  | quiet _ hwrites _ => exact hold f (by rwa [hwrites] at hf)
  | sent packet io cleared hsends _ hwrites _ =>
      rw [hwrites, mem_send] at hf
      rcases hf with hf | ⟨hacc, rfl⟩
      · exact hold f hf
      · have hall : packet.take io.now = packet := List.take_of_length_le (hl packet io hsends hacc)
        simp [hall]
  | transmitted i count g _ hg hopen hwrites _ =>
      rw [hwrites] at hf
      rcases List.mem_or_eq_of_mem_set hf with hf | rfl
      · exact hold f hf
      · have hmem : g ∈ s.writes := List.mem_of_getElem? hg
        obtain ⟨hwire, -, hkeep⟩ := hs g hmem
        obtain ⟨hwire', hle⟩ :
          (s.transmit g count).wire <+: g.packet ∧ g.wire.length ≤ (s.transmit g count).wire.length :=
          transmit_wire hwire (hkeep hopen)
        refine ⟨hwire', ?_, ?_⟩
        · intro hst
          exact absurd (hopen.symm.trans hst) (by simp)
        · intro _ hlt
          exact (hold g hmem).2.2 hopen (Nat.lt_of_le_of_lt hle hlt)
  | completed i status g _ hg hdone hwrites _ =>
      rw [hwrites] at hf
      rcases List.mem_or_eq_of_mem_set hf with hf | rfl
      · exact hold f hf
      · obtain ⟨hwire, -, -⟩ := hs g (List.mem_of_getElem? hg)
        refine ⟨hwire, ?_, fun hst => absurd hst (by simp)⟩
        intro hst
        exact hwire.eq_of_length (hdone (Option.some.inj hst))

/-- A packet that is accepted and not sent at once is left to a buffer that is no longer held. -/
theorem sentAtOnce_of_moved {s s' : Buffers} {l : BufferStep} (hs' : s'.Intact) (h : Moved (S := S) s s' l) :
    s.SentAtOnce S l := by
  intro packet io hsends hacc
  cases h with
  | quiet hquiet _ _ => exact absurd (hquiet.symm.trans hsends) (by simp)
  | sent packet' io' cleared hsends' _ hwrites hmemory =>
      obtain ⟨rfl, rfl⟩ := Prod.mk.inj (Option.some.inj (hsends'.symm.trans hsends))
      by_contra hlt
      have hmem := (hs' _ (by rw [hwrites, mem_send]; exact Or.inr ⟨hacc, rfl⟩)).2.2 rfl (by simp; omega)
      have hheld : ((s.send packet' io' cleared).memory io'.buffer).held = false := send_memory_held
      rw [hmemory] at hmem
      rw [hmem] at hheld
      exact absurd hheld (by simp)
  | transmitted _ _ _ hquiet => exact absurd (hquiet.symm.trans hsends) (by simp)
  | completed _ _ _ hquiet => exact absurd (hquiet.symm.trans hsends) (by simp)

theorem held_of_moved {s s' : Buffers} {l : BufferStep} (hs : s.Held) (hl : s.NoneAccepted S l)
    (h : Moved (S := S) s s' l) : s'.Held := by
  have hold : ∀ f ∈ s.writes, f.status = none → s'.memory f.data.buffer = ⟨f.packet, true⟩ := by
    intro f hf hopen
    have hb := hs f hf hopen
    rw [held_memory h (by rw [hb]), hb]
  intro f hf hopen
  cases h with
  | quiet _ hwrites _ => exact hold f (by rwa [hwrites] at hf) hopen
  | sent packet io cleared hsends _ hwrites _ =>
      rw [hwrites, mem_send] at hf
      rcases hf with hf | ⟨hacc, -⟩
      · exact hold f hf hopen
      · exact absurd ((hl packet io hsends).symm.trans hacc) Bool.false_ne_true
  | transmitted i count g _ hg hgopen hwrites _ =>
      rw [hwrites] at hf
      rcases List.mem_or_eq_of_mem_set hf with hf | rfl
      · exact hold f hf hopen
      · exact hold g (List.mem_of_getElem? hg) hgopen
  | completed i status g _ hg _ hwrites _ =>
      rw [hwrites] at hf
      rcases List.mem_or_eq_of_mem_set hf with hf | rfl
      · exact hold f hf hopen
      · exact absurd hopen (by simp)

theorem noneAccepted_of_moved {s s' : Buffers} {l : BufferStep} (hs' : s'.Held) (h : Moved (S := S) s s' l) :
    s.NoneAccepted S l := by
  intro packet io hsends
  cases h with
  | quiet hquiet _ _ => exact absurd (hquiet.symm.trans hsends) (by simp)
  | sent packet' io' cleared hsends' _ hwrites hmemory =>
      obtain ⟨rfl, rfl⟩ := Prod.mk.inj (Option.some.inj (hsends'.symm.trans hsends))
      by_contra hacc
      have hmem := hs' _ (by rw [hwrites, mem_send]; exact Or.inr ⟨by simpa using hacc, rfl⟩) rfl
      have hheld : ((s.send packet' io' cleared).memory io'.buffer).held = false := send_memory_held
      rw [hmemory] at hmem
      rw [hmem] at hheld
      exact absurd hheld (by simp)
  | transmitted _ _ _ hquiet => exact absurd (hquiet.symm.trans hsends) (by simp)
  | completed _ _ _ hquiet => exact absurd (hquiet.symm.trans hsends) (by simp)

/-! ## §5 Whole runs -/

/-- **The packets of a run go out as they were just when the transport takes each packet that is accepted at
once, as a whole.** No buffer whose packet was accepted is held until `write_cb` runs. -/
theorem packets_intact_iff {cc : CryptoContext} {maxmem : UInt32} {steps : List BufferStep} :
    (Always (step S) Intact (init cc maxmem) steps ↔
      Along (step S) (fun s l _ => s.SentAtOnce S l) (init cc maxmem) steps) ∧
    (Always (step S) Held (init cc maxmem) steps ↔
      Along (step S) (fun s l _ => s.NoneAccepted S l) (init cc maxmem) steps) := by
  constructor
  · apply always_iff_along
    · intro s l s' hs hl hst
      exact intact_of_moved hs hl (step_moved hst)
    · intro s l s' _ hst hs'
      exact sentAtOnce_of_moved hs' (step_moved hst)
    · intro f hf
      exact absurd hf List.not_mem_nil
  · apply always_iff_along
    · intro s l s' hs hl hst
      exact held_of_moved hs hl (step_moved hst)
    · intro s l s' _ hst hs'
      exact noneAccepted_of_moved hs' (step_moved hst)
    · intro f hf
      exact absurd hf List.not_mem_nil

/-- A message of one byte of which the transport takes nothing at once, and eight bytes later. -/
def lateWrite : List BufferStep := [.write [1] ⟨true, true, true⟩ ⟨0, ⟨true, true, 0⟩, 0⟩, .transmit 0 8]

/-- It begins with the identifier of a message, and zeros go out instead. -/
theorem late_write_zeros : (exec (step Sample.server) (init Sample.create.garbage 1048576) lateWrite).any
    (fun s => s.writes.any fun f => f.wire == zeros 8 && f.packet.take 8 == idMessageServer) = true := by
  decide +kernel

/-- The bytes on the wire are not those of the packet. -/
theorem late_packet_cleared :
    ¬ ∀ (S : Server) (cc : CryptoContext) (maxmem : UInt32) (steps : List BufferStep),
      Always (step S) (fun s => ∀ f ∈ s.writes, f.wire <+: f.packet) (init cc maxmem) steps := by
  intro h
  obtain ⟨s, hex, hany⟩ := (Option.any_eq_true _ _).mp late_write_zeros
  obtain ⟨f, hf, hzeros⟩ := List.any_eq_true.mp hany
  rw [Bool.and_eq_true, beq_iff_eq, beq_iff_eq] at hzeros
  obtain ⟨rest, hrest⟩ := (h Sample.server Sample.create.garbage 1048576 lateWrite).exec hex f hf
  have htake : f.packet.take 8 = zeros 8 := by
    rw [← hrest, hzeros.1]
    rfl
  rw [hzeros.2] at htake
  exact absurd htake (by decide)

end Buffers

end SploneBox
