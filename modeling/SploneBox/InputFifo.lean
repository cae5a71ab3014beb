/-
# SploneBox.InputFifo — runs of the input stream.

libuv puts bytes behind the write position and the parser takes them from the read position, in any order of
the two. The stream then is a bounded queue in every state that is reached: what has been taken and what is
unread is what has arrived, in this order (`inputstream_is_fifo`). `inputstream_read_cb` stops reading exactly
when the buffer has become full, and the turn of `inputstream_read` that takes bytes from a full buffer starts
it again, so reading is paused exactly while the buffer is full. A buffer without a byte is full from the
start, and reading is not paused (`empty_buffer_not_paused`).
-/
import SploneBox.Inputstream
import SploneBox.Lib.Machine

namespace SploneBox

open Lib.Memory Lib.Machine Inputstream

/-! ## §1 The loop -/

/-- More turns than there are bytes make no difference: the loop has ended by then. -/
theorem inputstreamReadLoop_fuel (fuel : Nat) :
    ∀ {fuel' : Nat} {s : Inputstream} {dst : Nat}, s.Wf → s.size < fuel → s.size < fuel' →
      inputstreamReadLoop fuel s dst = inputstreamReadLoop fuel' s dst := by
  induction fuel with
  | zero =>
      intro fuel' s dst _ hfuel
      exact absurd hfuel (Nat.not_lt_zero _)
  | succ fuel ih =>
      intro fuel' s dst h hfuel hfuel'
      obtain ⟨fuel', rfl⟩ : ∃ n, fuel' = n + 1 := ⟨fuel' - 1, by omega⟩
      unfold inputstreamReadLoop
      by_cases h0 : s.size = 0
      · rw [if_pos h0, if_pos h0]
      · rw [if_neg h0, if_neg h0]
        have hcount := inputstreamGetRead_count h
        have hr := h.readPos_lt
        dsimp only
        set n := min dst (inputstreamGetRead s).2 with hn
        by_cases hdone : dst - n = 0
        · rw [if_pos hdone, if_pos hdone]
        · rw [if_neg hdone, if_neg hdone]
          have hsize : (inputstreamAdvance s n).size = s.size - n := rfl
          rw [ih (inputstreamAdvance_wf h (by omega) (by omega)) (show _ < fuel by omega)
            (show _ < fuel' by omega)]

/-- What is watched stays watched. -/
theorem inputstreamReadLoop_started (fuel : Nat) :
    ∀ {s : Inputstream} {dst : Nat}, s.started = true → (inputstreamReadLoop fuel s dst).1.started = true := by
  induction fuel with
  | zero =>
      intro s dst h
      exact h
  | succ fuel ih =>
      intro s dst h
      have hadvance : ∀ n, (inputstreamAdvance s n).started = true := by
        intro n
        show (s.started || s.capacity == s.size) = true
        rw [h]
        rfl
      unfold inputstreamReadLoop
      split
      · exact h
      · dsimp only
        split
        · exact hadvance _
        · exact ih (hadvance _)

/-- Reading is paused while the buffer is full. -/
def Paused (s : Inputstream) : Prop := s.started = false ↔ s.size = s.capacity

/-- The turn that takes bytes from a full buffer starts reading again. -/
theorem inputstreamRead_started {s : Inputstream} (hp : Paused s) (count : Nat) (hsize : 0 < s.size) :
    (inputstreamRead s count).1.started = true := by
  have hadvance : ∀ n, (inputstreamAdvance s n).started = true := by
    intro n
    show (s.started || s.capacity == s.size) = true
    cases hstarted : s.started with
    | true => rfl
    | false => simp [hp.mp hstarted]
  unfold inputstreamRead inputstreamReadLoop
  rw [if_neg (by omega)]
  dsimp only
  split
  · exact hadvance _
  · exact inputstreamReadLoop_started _ (hadvance _)

/-! ## §2 Regions -/

/-- `size` is the distance of the positions. -/
theorem Inputstream.Wf.distance {s : Inputstream} (h : s.Wf) :
    s.writePos < s.capacity ∧ (s.size = s.capacity ∧ s.writePos = s.readPos ∨
      s.size < s.capacity ∧ s.size = (s.writePos + s.capacity - s.readPos) % s.capacity) := by
  obtain ⟨hc, hr, hs, hw⟩ := h
  have hwlt : s.writePos < s.capacity := hw ▸ Nat.mod_lt _ hc
  refine ⟨hwlt, ?_⟩
  rcases Nat.lt_or_ge (s.readPos + s.size) s.capacity with hlt | hge
  · rw [Nat.mod_eq_of_lt hlt] at hw
    refine Or.inr ⟨by omega, ?_⟩
    have hsum : s.writePos + s.capacity - s.readPos = s.size + s.capacity := by omega
    rw [hsum, Nat.add_mod_right, Nat.mod_eq_of_lt (by omega)]
  · have hmod : (s.readPos + s.size) % s.capacity = s.readPos + s.size - s.capacity := by
      rw [Nat.mod_eq_sub_mod hge, Nat.mod_eq_of_lt (by omega)]
    rw [hmod] at hw
    rcases Nat.lt_or_ge s.size s.capacity with hsize | hsize
    · refine Or.inr ⟨hsize, ?_⟩
      have hsum : s.writePos + s.capacity - s.readPos = s.size := by omega
      rw [hsum, Nat.mod_eq_of_lt hsize]
    · exact Or.inl ⟨by omega, by omega⟩

/-- The region offered to libuv has no unread byte in it. -/
theorem alloc_disjoint {s : Inputstream} (h : s.Wf) {i j : Nat} (hi : i < s.size)
    (hj : j < inputstreamAllocCb s) :
    (s.readPos + i) % s.capacity ≠ s.writePos + j := by
  obtain ⟨hc, hr, hs, hw⟩ := h
  have hwlt : s.writePos < s.capacity := hw ▸ Nat.mod_lt _ hc
  have hcell : (s.readPos + i) % s.capacity =
      if s.readPos + i < s.capacity then s.readPos + i else s.readPos + i - s.capacity := by
    split
    · next hlt => exact Nat.mod_eq_of_lt hlt
    · next hge => rw [Nat.mod_eq_sub_mod (by omega), Nat.mod_eq_of_lt (by omega)]
  have hpos : (s.readPos + s.size) % s.capacity =
      if s.readPos + s.size < s.capacity then s.readPos + s.size else s.readPos + s.size - s.capacity := by
    split
    · next hlt => exact Nat.mod_eq_of_lt hlt
    · next hge =>
        rw [Nat.mod_eq_sub_mod (by omega)]
        by_cases hfull : s.readPos + s.size - s.capacity < s.capacity
        · exact Nat.mod_eq_of_lt hfull
        · omega
  unfold inputstreamAllocCb at hj
  rw [hcell]
  rw [hpos] at hw
  split at hj
  · omega
  · split at hj <;> split <;> split at hw <;> omega

/-- `inputstream_get_read` gives the front of the queue, without a break. -/
theorem getRead_prefix {s : Inputstream} (h : s.Wf) (hsize : 0 < s.size) :
    (inputstreamGetRead s).1 = some s.readPos ∧ 0 < (inputstreamGetRead s).2 ∧
      (inputstreamGetRead s).2 ≤ s.size ∧
      slice s.mem s.readPos (inputstreamGetRead s).2 = s.unread.take (inputstreamGetRead s).2 := by
  have hcount := inputstreamGetRead_count h
  have hr := h.readPos_lt
  refine ⟨inputstreamGetRead_pointer (by omega), by omega, by omega, ?_⟩
  rw [Inputstream.unread, window_take _ _ _ _ _ (by omega), window_eq_slice (by omega)]

/-! ## §3 Runs -/

/-- What happens to a stream: libuv has filled the front of the region it was offered, or `inputstream_read`
is called. -/
inductive StreamOp where
  | arrive (seg : Bytes)
  | read (count : Nat)

/-- The stream with what has arrived and what has been taken. -/
structure StreamRun where
  stream : Inputstream
  arrived : Bytes
  taken : Bytes

def streamStep (t : StreamRun) : StreamOp → Option StreamRun
  | .arrive seg =>
      if 1 ≤ seg.length ∧ seg.length ≤ inputstreamAllocCb t.stream then
        some ⟨inputstreamReadCb t.stream seg, t.arrived ++ seg, t.taken⟩
      else none
  | .read count =>
      if 0 < count then
        some ⟨(inputstreamRead t.stream count).1, t.arrived, t.taken ++ (inputstreamRead t.stream count).2⟩
      else none

/-- The invariant of a run over a buffer of the given size. -/
structure FifoRun (bufferSize : Nat) (t : StreamRun) : Prop where
  wf : t.stream.Wf
  capacity : t.stream.capacity = bufferSize
  paused : Paused t.stream
  order : t.taken ++ t.stream.unread = t.arrived

theorem fifoRun_init (garbage : Nat → UInt8) {bufferSize : Nat} (h : 0 < bufferSize) :
    FifoRun bufferSize ⟨inputstreamNew garbage bufferSize, [], []⟩ := by
  refine ⟨inputstreamNew_wf garbage h, rfl, ?_, rfl⟩
  show true = false ↔ 0 = bufferSize
  simp [Nat.ne_of_lt h]

/-- **Both operations keep the queue.** -/
theorem fifoRun_step {bufferSize : Nat} (t : StreamRun) (op : StreamOp) (t' : StreamRun)
    (h : FifoRun bufferSize t) (hstep : streamStep t op = some t') : FifoRun bufferSize t' := by
  cases op with
  | arrive seg =>
      rw [streamStep] at hstep
      split at hstep
      · next hseg =>
          cases hstep
          obtain ⟨hwf, hunread⟩ := inputstreamReadCb_spec h.wf hseg.2
          refine ⟨hwf, h.capacity, ?_, ?_⟩
          · -- a buffer that is not full afterwards was not full before
            have hsize : (inputstreamReadCb t.stream seg).size = t.stream.size + seg.length := rfl
            have hle := hwf.size_le
            show (if t.stream.capacity - (t.stream.size + seg.length) = 0 then false
                else t.stream.started) = false ↔
              t.stream.size + seg.length = t.stream.capacity
            change t.stream.size + seg.length ≤ t.stream.capacity at hle
            by_cases hfull : t.stream.capacity - (t.stream.size + seg.length) = 0
            · rw [if_pos hfull]
              exact iff_of_true rfl (by omega)
            · rw [if_neg hfull]
              have hne : ¬ t.stream.size = t.stream.capacity := by omega
              refine iff_of_false (fun hfalse => hne (h.paused.mp hfalse)) (by omega)
          · rw [hunread, ← List.append_assoc, h.order]
      · cases hstep
  | read count =>
      rw [streamStep] at hstep
      split at hstep
      · next hcount =>
          cases hstep
          have hread := inputstreamRead_spec h.wf count
          refine ⟨hread.wf, hread.capacity.trans h.capacity, ?_, ?_⟩
          · rcases Nat.eq_zero_or_pos t.stream.size with h0 | hsize
            · -- nothing to take: the stream is as it was
              have hsame : (inputstreamRead t.stream count).1 = t.stream := by
                unfold inputstreamRead inputstreamReadLoop
                rw [if_pos h0]
              rw [hsame]
              exact h.paused
            · have hstarted := inputstreamRead_started h.paused count hsize
              have hsmaller := hread.size
              have hcap := hread.capacity
              have hle := h.wf.size_le
              refine iff_of_false ?_ ?_
              · rw [hstarted]
                decide
              · show ¬ (inputstreamRead t.stream count).1.size = (inputstreamRead t.stream count).1.capacity
                omega
          · rw [List.append_assoc, hread.bytes, hread.unread, List.take_append_drop]
            exact h.order
      · cases hstep

/-- **The input stream is a bounded FIFO**, for every buffer of at least one byte and every state reached. -/
theorem inputstream_is_fifo (garbage : Nat → UInt8) {bufferSize : Nat} (hsize : 0 < bufferSize)
    (ops : List StreamOp) {t : StreamRun}
    (hrun : exec streamStep ⟨inputstreamNew garbage bufferSize, [], []⟩ ops = some t) :
    t.stream.capacity = bufferSize ∧ t.stream.readPos < bufferSize ∧ t.stream.writePos < bufferSize ∧
    t.stream.size ≤ bufferSize ∧
    (t.stream.size = bufferSize ∧ t.stream.writePos = t.stream.readPos ∨ t.stream.size < bufferSize ∧
      t.stream.size = (t.stream.writePos + bufferSize - t.stream.readPos) % bufferSize) ∧
    (∀ i j, i < t.stream.size → j < inputstreamAllocCb t.stream →
      (t.stream.readPos + i) % bufferSize ≠ t.stream.writePos + j) ∧
    t.taken ++ t.stream.unread = t.arrived ∧
    (∀ count, 0 < count → (inputstreamRead t.stream count).2 = t.stream.unread.take count ∧
      (inputstreamRead t.stream count).2.length = min count t.stream.size ∧
      ∀ fuel, t.stream.size < fuel → inputstreamReadLoop fuel t.stream count = inputstreamRead t.stream count) ∧
    (0 < t.stream.size → (inputstreamGetRead t.stream).1 = some t.stream.readPos ∧
      0 < (inputstreamGetRead t.stream).2 ∧ (inputstreamGetRead t.stream).2 ≤ t.stream.size ∧
      slice t.stream.mem t.stream.readPos (inputstreamGetRead t.stream).2 =
        t.stream.unread.take (inputstreamGetRead t.stream).2) ∧
    (t.stream.started = false ↔ t.stream.size = bufferSize) := by
  -- The one invariant that the run is about; what follows reads its fields.
  have hfifo : FifoRun bufferSize t :=
    (always_of_step (fun t op t' => fifoRun_step t op t') (fifoRun_init garbage hsize)).exec hrun
  have hwf := hfifo.wf
  have hcap := hfifo.capacity
  obtain ⟨hwrite, hdistance⟩ := hwf.distance
  have hpaused := hfifo.paused
  unfold Paused at hpaused
  rw [hcap] at hwrite hdistance hpaused
  refine ⟨hcap, hcap ▸ hwf.readPos_lt, hwrite, hcap ▸ hwf.size_le, hdistance, ?_, hfifo.order, ?_,
    getRead_prefix hwf, hpaused⟩
  · intro i j hi hj
    have hne := alloc_disjoint hwf hi hj
    rw [hcap] at hne
    exact hne
  · intro count _
    have hread := inputstreamRead_spec hwf count
    refine ⟨hread.bytes, ?_, fun fuel hfuel => inputstreamReadLoop_fuel fuel hwf hfuel (Nat.lt_succ_self _)⟩
    rw [hread.bytes, List.length_take, unread_length]

/-- Six bytes through a buffer of four: the bytes that have gone around its end come out behind those before
it, and the full buffer is not read into. -/
def Sample.streamOps : List StreamOp := [.arrive [1, 2, 3], .read 2, .arrive [4], .arrive [5, 6]]

theorem inputstream_is_fifo_sample :
    ∃ t, exec streamStep ⟨inputstreamNew (fun _ => 0) 4, [], []⟩ Sample.streamOps = some t ∧
      t.stream.started = false ∧ (inputstreamRead t.stream 3).2 = [3, 4, 5] := by
  have hrun : ((exec streamStep ⟨inputstreamNew (fun _ => 0) 4, [], []⟩ Sample.streamOps).map fun t =>
      (t.taken, t.arrived, t.stream.size)) = some ([1, 2], [1, 2, 3, 4, 5, 6], 4) := by decide +kernel
  obtain ⟨t, hexec, ht⟩ := Option.map_eq_some_iff.mp hrun
  obtain ⟨-, -, -, -, -, -, horder, hread, -, hpaused⟩ := inputstream_is_fifo (fun _ => 0) (by decide) _ hexec
  simp only [Prod.mk.injEq] at ht
  obtain ⟨htaken, harrived, hsize⟩ := ht
  refine ⟨t, hexec, hpaused.mpr hsize, ?_⟩
  rw [htaken, harrived] at horder
  have hunread : t.stream.unread = [3, 4, 5, 6] :=
    List.append_cancel_left (show [1, 2] ++ t.stream.unread = [1, 2] ++ [3, 4, 5, 6] from horder)
  rw [(hread 3 (by decide)).1, hunread]
  rfl

/-- A buffer of no byte: the positions are at its end, and reading is not paused although the buffer is full. -/
theorem empty_buffer_not_paused :
    ¬ (inputstreamNew (fun _ => 0) 0).readPos < (inputstreamNew (fun _ => 0) 0).capacity ∧
      (inputstreamNew (fun _ => 0) 0).size = (inputstreamNew (fun _ => 0) 0).capacity ∧
      (inputstreamNew (fun _ => 0) 0).started = true := by
  decide

end SploneBox
