/-
# SploneBox.Inputstream — the circular input buffer of `inputstream.c`.

Pointers into the buffer are offsets from `circbuf_start`. The memory is a total function: the cells
from `capacity` on are the heap behind the allocation, which no function of this file writes but which
a careless reader of `circbuf_read_pos` can see.

* `inputstreamGetRead` — the read pointer and the number of bytes up to the write position or the end
  of the buffer, whichever comes first;
* `inputstreamRead` — the copy loop, which continues across the end of the buffer;
* `inputstreamAllocCb` / `inputstreamReadCb` — the region offered to libuv and the bookkeeping after
  libuv has filled the front of it.

`unread` is what the buffer is for: a queue. `inputstreamRead_spec` and `inputstreamReadCb_spec` say
that the operations take from its front and append to its end, for every state with `Wf`, and that they
keep `Wf`.
-/
import SploneBox.Bytes
import SploneBox.Lib.Memory

namespace SploneBox

open Lib.Memory

/-- `struct inputstream`, without its libuv handles. `started` is whether libuv is watching the
stream (`uv_read_start` / `uv_read_stop`). -/
structure Inputstream where
  mem : Nat → UInt8
  capacity : Nat
  readPos : Nat
  writePos : Nat
  size : Nat
  started : Bool

namespace Inputstream

/-- The bytes waiting in the buffer, oldest first. -/
def unread (s : Inputstream) : Bytes := window s.mem s.capacity s.readPos s.size

/-- The representation invariant: the positions are inside the buffer and `size` is their distance. -/
structure Wf (s : Inputstream) : Prop where
  capacity_pos : 0 < s.capacity
  readPos_lt : s.readPos < s.capacity
  size_le : s.size ≤ s.capacity
  writePos_eq : s.writePos = (s.readPos + s.size) % s.capacity

@[simp] theorem unread_length (s : Inputstream) : s.unread.length = s.size := by simp [unread]

end Inputstream

open Inputstream

/-! ## §1 The functions of `inputstream.c` -/

/-- `inputstream_new`: an empty buffer over whatever the allocator returned. -/
def inputstreamNew (garbage : Nat → UInt8) (bufferSize : Nat) : Inputstream where
  mem := garbage
  capacity := bufferSize
  readPos := 0
  writePos := 0
  size := 0
  started := true

/-- `inputstream_pending`. -/
def inputstreamPending (s : Inputstream) : Nat := s.size

/-- `inputstream_get_read`: the read pointer (`NULL` if nothing is pending) and `*read_count`. -/
def inputstreamGetRead (s : Inputstream) : Option Nat × Nat :=
  if inputstreamPending s = 0 then (none, 0)
  else if s.readPos < s.writePos then (some s.readPos, s.writePos - s.readPos)
  else (some s.readPos, s.capacity - s.readPos)

/-- One turn of the copy loop of `inputstream_read`: `n` bytes leave the buffer, the read position
wraps at the end, and a buffer that was full is watched again. -/
def inputstreamAdvance (s : Inputstream) (n : Nat) : Inputstream :=
  { s with
    readPos := if s.readPos + n ≥ s.capacity then s.readPos + n - s.capacity else s.readPos + n
    size := s.size - n
    started := s.started || s.capacity == s.size }

/-- The copy loop of `inputstream_read` with `dst` bytes still wanted. -/
def inputstreamReadLoop : Nat → Inputstream → Nat → Inputstream × Bytes
  | 0, s, _ => (s, [])
  | fuel + 1, s, dst =>
      if s.size = 0 then (s, [])
      else
        let n := min dst (inputstreamGetRead s).2
        let chunk := slice s.mem s.readPos n
        if dst - n = 0 then (inputstreamAdvance s n, chunk)
        else
          let r := inputstreamReadLoop fuel (inputstreamAdvance s n) (dst - n)
          (r.1, chunk ++ r.2)

/-- `inputstream_read`: the bytes copied to the caller's buffer; their number is the C function's
result. A turn of the loop copies at least one byte or ends it, so `size + 1` turns are enough
(`inputstreamRead_spec`). -/
def inputstreamRead (s : Inputstream) (count : Nat) : Inputstream × Bytes :=
  inputstreamReadLoop (s.size + 1) s count

/-- `inputstream_alloc_cb`: the length of the region offered to libuv at the write position. -/
def inputstreamAllocCb (s : Inputstream) : Nat :=
  if s.size = s.capacity then 0
  else if s.writePos ≥ s.readPos then s.capacity - s.writePos
  else s.readPos - s.writePos

/-- `inputstream_read_cb` for `nread > 0`, up to the call of the callback: libuv has put `seg` at the
write position. -/
def inputstreamReadCb (s : Inputstream) (seg : Bytes) : Inputstream :=
  let size := s.size + seg.length
  { s with
    mem := store s.mem s.writePos seg
    writePos :=
      if s.writePos + seg.length ≥ s.capacity then s.writePos + seg.length - s.capacity
      else s.writePos + seg.length
    size := size
    started := if s.capacity - size = 0 then false else s.started }

/-! ## §2 The buffer is a queue -/

theorem inputstreamNew_wf (garbage : Nat → UInt8) {bufferSize : Nat} (h : 0 < bufferSize) :
    (inputstreamNew garbage bufferSize).Wf where
  capacity_pos := h
  readPos_lt := h
  size_le := Nat.zero_le _
  writePos_eq := by simp [inputstreamNew]

/-- The number of bytes `inputstream_get_read` reports: the unread bytes, or those up to the end of
the buffer. -/
theorem inputstreamGetRead_count {s : Inputstream} (h : s.Wf) :
    (inputstreamGetRead s).2 = min s.size (s.capacity - s.readPos) := by
  obtain ⟨hc, hr, hs, hw⟩ := h
  unfold inputstreamGetRead inputstreamPending
  split
  · omega
  · rcases Nat.lt_or_ge (s.readPos + s.size) s.capacity with hlt | hge
    · rw [Nat.mod_eq_of_lt hlt] at hw
      rw [if_pos (by omega)]
      simp only
      omega
    · have hmod : (s.readPos + s.size) % s.capacity = s.readPos + s.size - s.capacity := by
        rw [Nat.mod_eq_sub_mod hge, Nat.mod_eq_of_lt (by omega)]
      rw [if_neg (by omega)]
      simp only
      omega

theorem inputstreamGetRead_pointer {s : Inputstream} (h : s.size ≠ 0) :
    (inputstreamGetRead s).1 = some s.readPos := by
  unfold inputstreamGetRead inputstreamPending
  rw [if_neg h]
  split <;> rfl

theorem inputstreamAdvance_readPos {s : Inputstream} (h : s.Wf) {n : Nat}
    (hn : s.readPos + n ≤ s.capacity) :
    (inputstreamAdvance s n).readPos = (s.readPos + n) % s.capacity := by
  have hc := h.capacity_pos
  simp only [inputstreamAdvance]
  split
  · have heq : s.readPos + n = s.capacity := by omega
    rw [heq, Nat.sub_self, Nat.mod_self]
  · rw [Nat.mod_eq_of_lt (by omega)]

theorem inputstreamAdvance_wf {s : Inputstream} (h : s.Wf) {n : Nat} (hs : n ≤ s.size)
    (hn : s.readPos + n ≤ s.capacity) : (inputstreamAdvance s n).Wf where
  capacity_pos := h.capacity_pos
  readPos_lt := by
    rw [inputstreamAdvance_readPos h hn]
    exact Nat.mod_lt _ h.capacity_pos
  size_le := by
    have := h.size_le
    simp only [inputstreamAdvance]
    omega
  writePos_eq := by
    rw [inputstreamAdvance_readPos h hn]
    have hsum : s.readPos + n + (s.size - n) = s.readPos + s.size := by omega
    simp only [inputstreamAdvance, Nat.mod_add_mod, hsum, h.writePos_eq]

theorem inputstreamAdvance_unread {s : Inputstream} (h : s.Wf) {n : Nat} (hs : n ≤ s.size)
    (hn : s.readPos + n ≤ s.capacity) : (inputstreamAdvance s n).unread = s.unread.drop n := by
  rw [unread, unread, window_drop _ _ _ _ _ hs, inputstreamAdvance_readPos h hn]
  rfl

/-- What a read of `count` bytes does to a well-formed stream. -/
structure ReadSpec (s : Inputstream) (count : Nat) (r : Inputstream × Bytes) : Prop where
  bytes : r.2 = s.unread.take count
  wf : r.1.Wf
  mem : r.1.mem = s.mem
  capacity : r.1.capacity = s.capacity
  readPos : r.1.readPos = (s.readPos + min count s.size) % s.capacity
  size : r.1.size = s.size - count
  unread : r.1.unread = s.unread.drop count

theorem inputstreamReadLoop_spec :
    ∀ (fuel : Nat) (s : Inputstream) (dst : Nat), s.Wf → s.size < fuel →
      ReadSpec s dst (inputstreamReadLoop fuel s dst)
  | 0, s, _, _, hf => absurd hf (Nat.not_lt_zero _)
  | fuel + 1, s, dst, h, hf => by
      have hcount := inputstreamGetRead_count h
      unfold inputstreamReadLoop
      -- On the fuel: each turn takes a byte at least, so the size says how many turns are left.
      by_cases h0 : s.size = 0
      · have hnil : s.unread = [] := by simp [Inputstream.unread, h0]
        rw [if_pos h0]
        exact ⟨by simp [hnil], h, rfl, rfl,
          by rw [h0, Nat.min_zero, Nat.add_zero, Nat.mod_eq_of_lt h.readPos_lt],
          by simp only [h0, Nat.zero_sub], by simp [hnil]⟩
      · rw [if_neg h0]
        dsimp only
        set n := min dst (inputstreamGetRead s).2 with hn
        have hr := h.readPos_lt
        have hns : n ≤ s.size := by omega
        have hnc : s.readPos + n ≤ s.capacity := by omega
        have hchunk : slice s.mem s.readPos n = s.unread.take n := by
          rw [Inputstream.unread, window_take _ _ _ _ _ hns, window_eq_slice hnc]
        split
        · -- the wanted bytes were all in the contiguous part
          have hdn : n = dst := by omega
          exact ⟨by rw [hchunk, hdn], inputstreamAdvance_wf h hns hnc, rfl, rfl,
            by rw [inputstreamAdvance_readPos h hnc, hdn, Nat.min_eq_left (by omega)],
            by simp only [inputstreamAdvance, hdn],
            by rw [inputstreamAdvance_unread h hns hnc, hdn]⟩
        · -- the copy goes on behind the end of the buffer
          have hpos : 0 < n := by omega
          have ih := inputstreamReadLoop_spec fuel (inputstreamAdvance s n) (dst - n)
            (inputstreamAdvance_wf h hns hnc) (by simp only [inputstreamAdvance]; omega)
          refine ⟨?_, ih.wf, ih.mem, ih.capacity, ?_, ?_, ?_⟩
          · have htake : s.unread.take dst = s.unread.take n ++ (s.unread.drop n).take (dst - n) := by
              rw [← List.take_add]
              congr 1
              omega
            rw [ih.bytes, inputstreamAdvance_unread h hns hnc, hchunk, ← htake]
          · rw [ih.readPos, inputstreamAdvance_readPos h hnc]
            simp only [inputstreamAdvance]
            rw [Nat.mod_add_mod]
            congr 1
            omega
          · rw [ih.size]
            simp only [inputstreamAdvance]
            omega
          · rw [ih.unread, inputstreamAdvance_unread h hns hnc, List.drop_drop]
            congr 1
            omega

/-- **`inputstream_read` takes from the front of the queue**: it returns the `min count size` oldest
bytes and leaves the others. -/
theorem inputstreamRead_spec {s : Inputstream} (h : s.Wf) (count : Nat) :
    ReadSpec s count (inputstreamRead s count) :=
  inputstreamReadLoop_spec _ s count h (Nat.lt_succ_self _)

/-- The region offered to libuv is inside the buffer and inside its free part. -/
theorem inputstreamAllocCb_fits {s : Inputstream} (h : s.Wf) :
    s.size + inputstreamAllocCb s ≤ s.capacity ∧ s.writePos + inputstreamAllocCb s ≤ s.capacity := by
  obtain ⟨hc, hr, hs, hw⟩ := h
  have hwlt : s.writePos < s.capacity := hw ▸ Nat.mod_lt _ hc
  unfold inputstreamAllocCb
  split
  · omega
  · rcases Nat.lt_or_ge (s.readPos + s.size) s.capacity with hlt | hge
    · rw [Nat.mod_eq_of_lt hlt] at hw
      rw [if_pos (by omega)]
      omega
    · have hmod : (s.readPos + s.size) % s.capacity = s.readPos + s.size - s.capacity := by
        rw [Nat.mod_eq_sub_mod hge, Nat.mod_eq_of_lt (by omega)]
      rw [if_neg (by omega)]
      omega

/-- **A read callback appends to the end of the queue.** -/
theorem inputstreamReadCb_spec {s : Inputstream} (h : s.Wf) {seg : Bytes}
    (hseg : seg.length ≤ inputstreamAllocCb s) :
    (inputstreamReadCb s seg).Wf ∧ (inputstreamReadCb s seg).unread = s.unread ++ seg := by
  obtain ⟨hfree, hend⟩ := inputstreamAllocCb_fits h
  have hc := h.capacity_pos
  have hw := h.writePos_eq
  have hwlt : s.writePos < s.capacity := hw ▸ Nat.mod_lt _ hc
  constructor
  · refine ⟨hc, h.readPos_lt, ?_, ?_⟩
    · simp only [inputstreamReadCb]
      omega
    · have hsum : (s.readPos + (s.size + seg.length)) % s.capacity
          = (s.writePos + seg.length) % s.capacity := by
        rw [hw, Nat.mod_add_mod, Nat.add_assoc]
      simp only [inputstreamReadCb, hsum]
      split
      · have heq : s.writePos + seg.length = s.capacity := by omega
        rw [heq, Nat.sub_self, Nat.mod_self]
      · rw [Nat.mod_eq_of_lt (by omega)]
  · simp only [Inputstream.unread, inputstreamReadCb, hw]
    exact window_store (by omega) (by omega)

end SploneBox
