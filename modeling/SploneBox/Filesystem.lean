/-
# SploneBox.Filesystem — saving and loading files, `filesystem.c`.

`filesystem_save_sync` and `filesystem_load` move their bytes in turns, each of which the kernel answers: with
some of the bytes asked for, or with an `errno`. How the answers cut the bytes into pieces makes no
difference. A save that succeeds has laid its bytes over the beginning of the file, whose end stays where it
was longer (`O_TRUNC` is not given); a load that succeeds has taken the beginning of the file
(`filesystemSaveSync_ok`, `filesystemLoad_ok`).
-/
import SploneBox.Lib.Transfer
import SploneBox.Bytes

namespace SploneBox.Filesystem

open Lib.Machine Lib.Transfer

/-! ## §1 Answers -/

/-- The values of `errno` that the loops tell apart. -/
inductive Errno where
  | eintr | eagain | ewouldblock | eproto | other
deriving DecidableEq

/-- `errno == EINTR || errno == EAGAIN || errno == EWOULDBLOCK`. -/
def Errno.interrupted (errno : Errno) : Bool := errno == .eintr || errno == .eagain || errno == .ewouldblock

/-- An answer of the kernel to `write` or `read`. The count is what it would like to move. -/
inductive Reply where
  | transferred (count : Nat)
  | failed (errno : Errno)

/-- The answers that ask for another try. -/
def Reply.interruption : Reply → Bool
  | .transferred _ => false
  | .failed errno => errno.interrupted

/-- What `write(fd, x, w)` returns: at least one byte is written, and at most `w`. -/
def Reply.written (w : Nat) : Reply → Except Errno Nat
  | .transferred count => .ok (max 1 (min count w))
  | .failed errno => .error errno

/-- What `read(fd, x, r)` returns: at least one byte is read and at most `r`, but not more than there are
before the end of the file. -/
def Reply.received (r available : Nat) : Reply → Except Errno Nat
  | .transferred count => .ok (min (max 1 (min count r)) available)
  | .failed errno => .error errno

/-- The bytes asked for in a turn, 2^20 at most. -/
def chunk (xlen : Nat) : Nat := if xlen > 1048576 then 1048576 else xlen

/-- An open file: what is in it, and how far the descriptor is. -/
structure OpenFile where
  content : Bytes
  pos : Nat
deriving DecidableEq

/-! ## §2 The loops -/

/-- The variables of a loop: `x` points `offset` bytes into the caller's memory, and `xlen` bytes remain.
`failed` is `return (-1)`. -/
structure Loop where
  fd : OpenFile
  x : Bytes
  offset : Nat
  xlen : Nat
  failed : Bool
deriving DecidableEq

/-- The loop on entry. -/
def Loop.start (fd : OpenFile) (x : Bytes) (xlen : Nat) : Loop := ⟨fd, x, 0, xlen, false⟩

/-- The loop has been left. -/
def Loop.left (s : Loop) : Bool := s.failed || s.xlen == 0

/-- What it returns. -/
def Loop.result (s : Loop) : Int := if s.failed then -1 else 0

/-- What becomes of an `errno`: `continue` or `return (-1)`. -/
def Loop.classify (s : Loop) (errno : Errno) : Loop :=
  if errno.interrupted then s else { s with failed := true }

/-- `res` bytes of the memory written to the file. -/
def Loop.wrote (s : Loop) (res : Nat) : Loop :=
  { s with
    fd := ⟨overwrite 0 s.fd.content s.fd.pos ((s.x.drop s.offset).take res), s.fd.pos + res⟩
    offset := s.offset + res
    xlen := s.xlen - res }

/-- `res` bytes of the file read into the memory. -/
def Loop.got (s : Loop) (res : Nat) : Loop :=
  { s with
    fd := ⟨s.fd.content, s.fd.pos + res⟩
    x := overwrite 0 s.x s.offset ((s.fd.content.drop s.fd.pos).take res)
    offset := s.offset + res
    xlen := s.xlen - res }

/-- A turn of `filesystem_write_all`, inside the memory at `x`. -/
def writeTurn (s : Loop) (reply : Reply) : Option Loop :=
  if s.left then none
  else
    match reply.written (chunk s.xlen) with
    | .error errno => some (s.classify errno)
    | .ok res => if s.offset + res ≤ s.x.length then some (s.wrote res) else none

/-- A turn of `filesystem_read_all`, inside the memory at `x`. Nothing read is `EPROTO`. -/
def readTurn (s : Loop) (reply : Reply) : Option Loop :=
  if s.left then none
  else
    match reply.received (chunk s.xlen) (s.fd.content.length - s.fd.pos) with
    | .error errno => some (s.classify errno)
    | .ok res =>
        if res = 0 then some (s.classify .eproto)
        else if s.offset + res ≤ s.x.length then some (s.got res)
        else none

/-- `filesystem_write_all`, with the file afterwards; `none` where it has not returned. -/
def filesystemWriteAll (fd : OpenFile) (x : Bytes) (xlen : Nat) (replies : List Reply) :
    Option (Int × OpenFile) :=
  (runUntil Loop.left writeTurn (.start fd x xlen) replies).map fun s => (s.result, s.fd)

/-- `filesystem_read_all`, with the memory afterwards. -/
def filesystemReadAll (fd : OpenFile) (x : Bytes) (xlen : Nat) (replies : List Reply) : Option (Int × Bytes) :=
  (runUntil Loop.left readTurn (.start fd x xlen) replies).map fun s => (s.result, s.x)

/-! ## §3 `filesystem_save_sync` and `filesystem_load` -/

/-- The files by their names. -/
abbrev Files := Bytes → Option Bytes

/-- The answers to the calls of a save or a load: whether `open`, `fsync` and `close` succeed, and those to
the loop. -/
structure Replies where
  opened : Bool
  transfers : List Reply
  synced : Bool
  closed : Bool

/-- What `fsync` and `close` return. -/
def status (ok : Bool) : Int := if ok then 0 else -1

/-- `filesystem_open_write`, with the name the file goes by. A file that is not there is made. -/
def filesystemOpenWrite (files : Files) (fn : Option Bytes) (opened : Bool) : Option (Bytes × OpenFile) :=
  fn.bind fun name => if opened then some (name, ⟨(files name).getD [], 0⟩) else none

/-- `filesystem_open_read`. -/
def filesystemOpenRead (files : Files) (fn : Option Bytes) (opened : Bool) : Option OpenFile :=
  fn.bind fun name => if opened then (files name).map (⟨·, 0⟩) else none

/-- `filesystem_save_sync`, with the files afterwards. -/
def filesystemSaveSync (files : Files) (fn x : Option Bytes) (xlen : Nat) (k : Replies) :
    Option (Int × Files) :=
  match x with
  | none => some (-1, files)
  | some x =>
      match filesystemOpenWrite files fn k.opened with
      | none => some (-1, files)
      | some (name, fd) =>
          (filesystemWriteAll fd x xlen k.transfers).map fun (res, fd) =>
            let files := Function.update files name (some fd.content)
            if res = -1 then (-1, files)
            else
              let r := status k.synced
              if status k.closed = -1 then (-1, files) else (r, files)

/-- `filesystem_load`, with the memory afterwards. -/
def filesystemLoad (files : Files) (fn x : Option Bytes) (xlen : Nat) (k : Replies) :
    Option (Int × Option Bytes) :=
  match x with
  | none => some (-1, none)
  | some x =>
      match filesystemOpenRead files fn k.opened with
      | none => some (-1, some x)
      | some fd =>
          (filesystemReadAll fd x xlen k.transfers).map fun (r, x) =>
            if status k.closed = -1 then (-1, some x) else (r, some x)

/-! ## §4 What a turn does -/

variable {s s' : Loop} {reply : Reply}

theorem chunk_le (xlen : Nat) : chunk xlen ≤ xlen := by
  unfold chunk
  split <;> omega

theorem chunk_pos {xlen : Nat} (h : 0 < xlen) : 0 < chunk xlen := by
  unfold chunk
  split <;> omega

theorem Loop.xlen_pos (h : s.left = false) : 0 < s.xlen := by
  unfold Loop.left at h
  rw [Bool.or_eq_false_iff] at h
  exact Nat.pos_of_ne_zero (by simpa using h.2)

theorem Loop.xlen_of_result (h : s.left = true) (hresult : s.result = 0) : s.xlen = 0 := by
  unfold Loop.result at hresult
  split at hresult
  · cases hresult
  · simp_all [Loop.left]

/-- An answer is an interruption, which changes nothing, or ends the loop, or moves a part of what remains. -/
theorem writeTurn_cases (h : writeTurn s reply = some s') :
    s' = s ∨ s' = { s with failed := true } ∨
      ∃ res, 1 ≤ res ∧ res ≤ s.xlen ∧ s.offset + res ≤ s.x.length ∧ s' = s.wrote res := by
  unfold writeTurn at h
  by_cases hleft : s.left = true
  · rw [if_pos hleft] at h
    cases h
  · rw [if_neg hleft] at h
    have hpos := chunk_pos (Loop.xlen_pos (by simpa using hleft))
    have hle := chunk_le s.xlen
    cases reply with
    | failed errno =>
        dsimp only [Reply.written] at h
        unfold Loop.classify at h
        split at h <;> cases h
        · exact Or.inl rfl
        · exact Or.inr (Or.inl rfl)
    | transferred count =>
        dsimp only [Reply.written] at h
        split at h <;> cases h
        refine Or.inr (Or.inr ⟨_, ?_, ?_, by assumption, rfl⟩) <;> omega

/-- The same for reading, where nothing is moved that is not in the file. -/
theorem readTurn_cases (h : readTurn s reply = some s') :
    s' = s ∨ s' = { s with failed := true } ∨
      ∃ res, 1 ≤ res ∧ res ≤ s.xlen ∧ res ≤ s.fd.content.length - s.fd.pos ∧ s.offset + res ≤ s.x.length ∧
      s' = s.got res := by
  unfold readTurn at h
  by_cases hleft : s.left = true
  · rw [if_pos hleft] at h
    cases h
  · rw [if_neg hleft] at h
    have hpos := chunk_pos (Loop.xlen_pos (by simpa using hleft))
    have hle := chunk_le s.xlen
    cases reply with
    | failed errno =>
        dsimp only [Reply.received] at h
        unfold Loop.classify at h
        split at h <;> cases h
        · exact Or.inl rfl
        · exact Or.inr (Or.inl rfl)
    | transferred count =>
        dsimp only [Reply.received] at h
        split at h
        · cases h
          exact Or.inr (Or.inl rfl)
        · split at h <;> cases h
          refine Or.inr (Or.inr ⟨_, ?_, ?_, ?_, by assumption, rfl⟩) <;> omega

/-- **Nothing is skipped and nothing is done twice.** What the loop has moved and what remains make the
length. -/
theorem writeTurn_total {n : Nat} (hs : s.offset + s.xlen = n) (h : writeTurn s reply = some s') :
    s'.offset + s'.xlen = n := by
  obtain rfl | rfl | ⟨res, -, hle, -, rfl⟩ := writeTurn_cases h
  · exact hs
  · exact hs
  · show s.offset + res + (s.xlen - res) = n
    omega

theorem readTurn_total {n : Nat} (hs : s.offset + s.xlen = n) (h : readTurn s reply = some s') :
    s'.offset + s'.xlen = n := by
  obtain rfl | rfl | ⟨res, -, hle, -, -, rfl⟩ := readTurn_cases h
  · exact hs
  · exact hs
  · show s.offset + res + (s.xlen - res) = n
    omega

/-! ## §5 Saving -/

/-- While `x` is written over `old`: what has been moved lies over the beginning of the file. -/
structure Writing (old x : Bytes) (s : Loop) : Prop where
  source : s.x = x
  pos : s.fd.pos = s.offset
  inside : s.offset ≤ x.length
  content : s.fd.content = laidOver (x.take s.offset) old

theorem Writing.start (old x : Bytes) (xlen : Nat) : Writing old x (.start ⟨old, 0⟩ x xlen) :=
  ⟨rfl, rfl, Nat.zero_le _, rfl⟩

theorem Writing.turn {old x : Bytes} (hs : Writing old x s) (h : writeTurn s reply = some s') :
    Writing old x s' := by
  obtain rfl | rfl | ⟨res, -, -, hroom, rfl⟩ := writeTurn_cases h
  · exact hs
  · exact ⟨hs.source, hs.pos, hs.inside, hs.content⟩
  · rw [hs.source] at hroom
    refine ⟨hs.source, congrArg (· + res) hs.pos, hroom, ?_⟩
    have hdone : (x.take s.offset).length = s.offset := List.length_take_of_le hs.inside
    show overwrite 0 s.fd.content s.fd.pos ((s.x.drop s.offset).take res) =
        laidOver (x.take (s.offset + res)) old
    calc overwrite 0 s.fd.content s.fd.pos ((s.x.drop s.offset).take res)
        = overwrite 0 (laidOver (x.take s.offset) old)
            (x.take s.offset).length ((x.drop s.offset).take res) := by
          rw [hs.source, hs.pos, hs.content, hdone]
      _ = laidOver (x.take s.offset ++ (x.drop s.offset).take res) old := overwrite_laidOver _ _ _ _
      _ = laidOver (x.take (s.offset + res)) old := by rw [List.take_add]

/-- **`filesystem_write_all`** puts what it was given over the beginning of the file, whatever it is answered. -/
theorem filesystemWriteAll_ok {old x : Bytes} {replies : List Reply} {res : Int} {fd : OpenFile}
    (h : filesystemWriteAll ⟨old, 0⟩ x x.length replies = some (res, fd)) (hres : res ≠ -1) :
    res = 0 ∧ fd.content = laidOver x old := by
  obtain ⟨t, hrun, hout⟩ := Option.map_eq_some_iff.mp h
  cases hout
  -- The invariant of the turns: what is written is the front of `x`, and `offset + xlen` is the length of `x`.
  have hkeep := fun s reply s' (hs : Writing old x s ∧ s.offset + s.xlen = x.length)
      (hturn : writeTurn s reply = some s') =>
    And.intro (hs.1.turn hturn) (writeTurn_total hs.2 hturn)
  obtain ⟨⟨hwriting, htotal⟩, hleft⟩ := runUntil_spec hkeep ⟨Writing.start old x x.length, Nat.zero_add _⟩ hrun
  have hzero : t.result = 0 := by
    unfold Loop.result at hres ⊢
    split
    · simp_all
    · rfl
  have hall : t.offset = x.length := by
    have hend := Loop.xlen_of_result hleft hzero
    omega
  have hcontent := hwriting.content
  rw [hall, List.take_length] at hcontent
  exact ⟨hzero, hcontent⟩

/-- **`filesystem_save_sync`** that succeeds has the bytes over the beginning of the file, and leaves the
other files alone. -/
theorem filesystemSaveSync_ok {files files' : Files} {fn : Option Bytes} {x : Bytes} {k : Replies}
    (h : filesystemSaveSync files fn (some x) x.length k = some (0, files')) :
    ∃ name, fn = some name ∧
      files' = Function.update files name (some (laidOver x ((files name).getD []))) := by
  unfold filesystemSaveSync at h
  dsimp only at h
  split at h
  · cases h
  · rename_i name fd hopen
    obtain ⟨name', hname, hfd⟩ := Option.bind_eq_some_iff.mp hopen
    -- `fs_open_write` does not truncate, so what was in the file stays behind what is written.
    split at hfd <;> cases hfd
    obtain ⟨⟨res, fd⟩, hwrite, hout⟩ := Option.map_eq_some_iff.mp h
    dsimp only at hout
    split at hout
    · cases hout
    · rename_i hres
      obtain ⟨-, hcontent⟩ := filesystemWriteAll_ok hwrite hres
      split at hout
      · cases hout
      · have hfiles := (Prod.mk.inj hout).2
        exact ⟨name, hname, by rw [← hfiles, hcontent]⟩

/-! ## §6 Loading -/

/-- While `content` is read into `buf`: what has been moved lies over the beginning of the memory. -/
structure Reading (content buf : Bytes) (s : Loop) : Prop where
  source : s.fd.content = content
  pos : s.fd.pos = s.offset
  inside : s.offset ≤ content.length
  stored : s.x = laidOver (content.take s.offset) buf

theorem Reading.start (content buf : Bytes) (xlen : Nat) : Reading content buf (.start ⟨content, 0⟩ buf xlen) :=
  ⟨rfl, rfl, Nat.zero_le _, rfl⟩

theorem Reading.turn {content buf : Bytes} (hs : Reading content buf s) (h : readTurn s reply = some s') :
    Reading content buf s' := by
  obtain rfl | rfl | ⟨res, -, -, hthere, -, rfl⟩ := readTurn_cases h
  · exact hs
  · exact ⟨hs.source, hs.pos, hs.inside, hs.stored⟩
  · rw [hs.source, hs.pos] at hthere
    have hinside := hs.inside
    refine ⟨hs.source, congrArg (· + res) hs.pos, ?_, ?_⟩
    · show s.offset + res ≤ content.length
      omega
    -- What comes in is behind what is there: the front of the file, laid over the buffer.
    · have hdone : (content.take s.offset).length = s.offset := List.length_take_of_le hs.inside
      show overwrite 0 s.x s.offset ((s.fd.content.drop s.fd.pos).take res) =
          laidOver (content.take (s.offset + res)) buf
      calc overwrite 0 s.x s.offset ((s.fd.content.drop s.fd.pos).take res)
          = overwrite 0 (laidOver (content.take s.offset) buf)
              (content.take s.offset).length ((content.drop s.offset).take res) := by
            rw [hs.source, hs.pos, hs.stored, hdone]
        _ = laidOver (content.take s.offset ++ (content.drop s.offset).take res) buf :=
            overwrite_laidOver _ _ _ _
        _ = laidOver (content.take (s.offset + res)) buf := by rw [List.take_add]

/-- **`filesystem_read_all`** that succeeds has read as many bytes as it was asked for, from the beginning of
the file. -/
theorem filesystemReadAll_ok {content buf buf' : Bytes} {xlen : Nat} {replies : List Reply} {res : Int}
    (h : filesystemReadAll ⟨content, 0⟩ buf xlen replies = some (res, buf')) (hres : res ≠ -1) :
    res = 0 ∧ xlen ≤ content.length ∧ buf' = laidOver (content.take xlen) buf := by
  obtain ⟨t, hrun, hout⟩ := Option.map_eq_some_iff.mp h
  cases hout
  have hkeep := fun s reply s' (hs : Reading content buf s ∧ s.offset + s.xlen = xlen)
      (hturn : readTurn s reply = some s') =>
    And.intro (hs.1.turn hturn) (readTurn_total hs.2 hturn)
  obtain ⟨⟨hreading, htotal⟩, hleft⟩ :=
    runUntil_spec hkeep ⟨Reading.start content buf xlen, Nat.zero_add _⟩ hrun
  have hzero : t.result = 0 := by
    unfold Loop.result at hres ⊢
    split
    · simp_all
    · rfl
  have hall : t.offset = xlen := by
    have hend := Loop.xlen_of_result hleft hzero
    omega
  have hinside := hreading.inside
  have hstored := hreading.stored
  rw [hall] at hinside hstored
  exact ⟨hzero, hinside, hstored⟩

theorem Reading.length {content buf : Bytes} (hs : Reading content buf s) (hfits : s.offset ≤ buf.length) :
    s.x.length = buf.length := by
  have hdone : (content.take s.offset).length = s.offset := List.length_take_of_le hs.inside
  rw [hs.stored, length_laidOver (by omega)]

/-- A turn inside the memory is an interruption, or ends the loop, or moves something. -/
theorem readTurn_next (hleft : s.left = false)
    (hroom : s.offset + min s.xlen (s.fd.content.length - s.fd.pos) ≤ s.x.length)
    (reply : Reply) : ∃ s', readTurn s reply = some s' ∧
    (reply.interruption = true ∧ s' = s ∨ s'.left = true ∨ s.offset < s'.offset) := by
  have hopen : ¬ s.left = true := by simp [hleft]
  have hpos := chunk_pos (Loop.xlen_pos hleft)
  have hle := chunk_le s.xlen
  unfold readTurn
  rw [if_neg hopen]
  cases reply with
  | failed errno =>
      refine ⟨_, rfl, ?_⟩
      unfold Loop.classify
      by_cases herrno : errno.interrupted = true
      · exact Or.inl ⟨herrno, if_pos herrno⟩
      · rw [if_neg herrno]
        exact Or.inr (Or.inl rfl)
  | transferred count =>
      dsimp only [Reply.received]
      split
      · exact ⟨_, rfl, Or.inr (Or.inl rfl)⟩
      · rename_i hres
        rw [if_pos (by omega)]
        refine ⟨_, rfl, Or.inr (Or.inr ?_)⟩
        show s.offset < s.offset + _
        omega

/-- The turns that a loop reading the file still has: one for each byte, and one for the end of the file. -/
def Loop.ahead (s : Loop) : Nat := if s.left then 0 else min s.xlen (s.fd.content.length - s.fd.pos + 1)

theorem Loop.ahead_le (s : Loop) : s.ahead ≤ min s.xlen (s.fd.content.length - s.fd.pos + 1) := by
  unfold Loop.ahead
  split <;> omega

theorem Loop.left_of_ahead (h : s.ahead = 0) : s.left = true := by
  unfold Loop.ahead at h
  by_cases hleft : s.left = true
  · exact hleft
  · have hpos := Loop.xlen_pos (by simpa using hleft)
    rw [if_neg hleft] at h
    omega

/-- An answer that is no interruption brings the end of the loop nearer. -/
theorem Reading.progress {content buf : Bytes} {xlen : Nat} (hs : Reading content buf s)
    (htotal : s.offset + s.xlen = xlen) (hroom : min xlen content.length ≤ buf.length) (hleft : s.left = false)
    (reply : Reply) :
    ∃ s', readTurn s reply = some s' ∧
      (s'.ahead < s.ahead ∨ (!reply.interruption) = false ∧ s'.ahead ≤ s.ahead) := by
  have hinside := hs.inside
  have hmem : s.offset + min s.xlen (s.fd.content.length - s.fd.pos) ≤ s.x.length := by
    rw [hs.length (by omega), hs.source, hs.pos]
    omega
  obtain ⟨s', hs', hnext⟩ := readTurn_next hleft hmem reply
  refine ⟨s', hs', ?_⟩
  have hahead : s.ahead = min s.xlen (content.length - s.offset + 1) := by
    rw [Loop.ahead, if_neg (by simp [hleft]), hs.source, hs.pos]
  have hxlen := Loop.xlen_pos hleft
  -- A signal leaves the turn as it was, an error ends the loop, and a count moves the position ahead.
  obtain ⟨hagain, rfl⟩ | hend | hmoved := hnext
  · exact Or.inr ⟨by simp [hagain], Nat.le_refl _⟩
  · left
    have hahead' : s'.ahead = 0 := if_pos hend
    omega
  · left
    have hreading' := hs.turn hs'
    have htotal' := readTurn_total htotal hs'
    have hinside' := hreading'.inside
    have hle := s'.ahead_le
    rw [hreading'.source, hreading'.pos] at hle
    omega

/-- **`filesystem_read_all` returns**, after as many answers that are no interruptions as there are bytes to
read, and one more where the file ends before. -/
theorem filesystemReadAll_returns {content buf : Bytes} {xlen : Nat} {replies : List Reply}
    (hroom : min xlen content.length ≤ buf.length)
    (hcount : min xlen (content.length + 1) ≤ replies.countP fun reply => !reply.interruption) :
    ∃ res buf', filesystemReadAll ⟨content, 0⟩ buf xlen replies = some (res, buf') := by
  have hturn : ∀ s reply, Reading content buf s ∧ s.offset + s.xlen = xlen → s.left = false →
      ∃ s', readTurn s reply = some s' ∧ (Reading content buf s' ∧ s'.offset + s'.xlen = xlen) ∧
        (s'.ahead < s.ahead ∨ (!reply.interruption) = false ∧ s'.ahead ≤ s.ahead) := by
    intro s reply ⟨hreading, htotal⟩ hleft
    obtain ⟨s', hs', hahead⟩ := hreading.progress htotal hroom hleft reply
    exact ⟨s', hs', ⟨hreading.turn hs', readTurn_total htotal hs'⟩, hahead⟩
  have hstart : (Loop.start ⟨content, 0⟩ buf xlen).ahead ≤ replies.countP fun reply => !reply.interruption :=
    (Loop.ahead_le _).trans hcount
  obtain ⟨t, hrun⟩ := runUntil_of_measure Loop.ahead _ (fun s _ => Loop.left_of_ahead) hturn
    ⟨Reading.start content buf xlen, Nat.zero_add _⟩ hstart
  exact ⟨t.result, t.x, by rw [filesystemReadAll, hrun, Option.map_some]⟩

/-- **`filesystem_load`** that succeeds has the beginning of the file over that of the memory. -/
theorem filesystemLoad_ok {files : Files} {fn : Option Bytes} {buf : Bytes} {xlen : Nat} {k : Replies}
    {out : Option Bytes} (h : filesystemLoad files fn (some buf) xlen k = some (0, out)) :
    ∃ name content, fn = some name ∧ files name = some content ∧ xlen ≤ content.length ∧
      out = some (laidOver (content.take xlen) buf) := by
  unfold filesystemLoad at h
  dsimp only at h
  split at h
  · cases h
  · rename_i fd hopen
    obtain ⟨name, hname, hfd⟩ := Option.bind_eq_some_iff.mp hopen
    split at hfd
    · obtain ⟨content, hcontent, rfl⟩ := Option.map_eq_some_iff.mp hfd
      obtain ⟨⟨r, x⟩, hread, hout⟩ := Option.map_eq_some_iff.mp h
      dsimp only at hout
      split at hout <;> cases hout
      obtain ⟨-, hlong, rfl⟩ := filesystemReadAll_ok hread (by decide)
      exact ⟨name, content, hname, hcontent, hlong, rfl⟩
    · cases hfd

/-- A load does not return anything but 0 and -1. -/
theorem filesystemLoad_result {files : Files} {fn x out : Option Bytes} {xlen : Nat} {k : Replies} {r : Int}
    (h : filesystemLoad files fn x xlen k = some (r, out)) : r = 0 ∨ r = -1 := by
  unfold filesystemLoad at h
  split at h
  · cases h
    exact Or.inr rfl
  · split at h
    · cases h
      exact Or.inr rfl
    · obtain ⟨⟨r', x⟩, hread, hout⟩ := Option.map_eq_some_iff.mp h
      obtain ⟨t, -, hresult⟩ := Option.map_eq_some_iff.mp hread
      dsimp only at hout
      split at hout <;> cases hout
      · exact Or.inr rfl
      · cases hresult
        unfold Loop.result
        split
        · exact Or.inr rfl
        · exact Or.inl rfl

/-- **`filesystem_load`** does not find more in a file than there is, and notices. -/
theorem filesystemLoad_long {files : Files} {name content buf : Bytes} {xlen : Nat} {k : Replies}
    (hfile : files name = some content) (hlong : content.length < xlen) :
    (∀ r out, filesystemLoad files (some name) (some buf) xlen k = some (r, out) → r = -1) ∧
      (content.length ≤ buf.length → content.length < k.transfers.countP (fun reply => !reply.interruption) →
        ∃ out, filesystemLoad files (some name) (some buf) xlen k = some (-1, out)) := by
  have hfails : ∀ r out, filesystemLoad files (some name) (some buf) xlen k = some (r, out) → r = -1 := by
    intro r out h
    -- It returns 0 or -1, and 0 only for a file that has the length.
    rcases filesystemLoad_result h with rfl | rfl
    · obtain ⟨_, content', hname, hfile', hle, -⟩ := filesystemLoad_ok h
      cases hname
      rw [hfile] at hfile'
      cases hfile'
      omega
    · rfl
  refine ⟨hfails, ?_⟩
  intro hroom hcount
  suffices hreturns : ∃ r out, filesystemLoad files (some name) (some buf) xlen k = some (r, out) by
    obtain ⟨r, out, h⟩ := hreturns
    exact ⟨out, hfails r out h ▸ h⟩
  unfold filesystemLoad
  dsimp only
  by_cases hopened : k.opened = true
  · have hopen : filesystemOpenRead files (some name) k.opened = some ⟨content, 0⟩ := by
      simp [filesystemOpenRead, hopened, hfile]
    have hreturns : ∃ res buf', filesystemReadAll ⟨content, 0⟩ buf xlen k.transfers = some (res, buf') :=
      filesystemReadAll_returns (by omega) (by omega)
    obtain ⟨res, buf', hread⟩ := hreturns
    rw [hopen]
    dsimp only
    rw [hread, Option.map_some]
    exact ⟨_, _, rfl⟩
  · have hopen : filesystemOpenRead files (some name) k.opened = none := by simp [filesystemOpenRead, hopened]
    rw [hopen]
    exact ⟨_, _, rfl⟩

/-! ## §7 The round trip -/

/-- **What is saved is loaded.** A save of `x` and a load of as many bytes that both return 0 put `x` in the
memory, for all answers to their calls; a load of more bytes than the file has returns -1, and does so once it
is answered often enough; and in each turn of both loops what has been moved and what remains make the length. -/
theorem save_load_round_trip (files : Files) (fn : Option Bytes) :
    (∀ (x buf : Bytes) (ks kl : Replies) (files' : Files) (out : Option Bytes),
        filesystemSaveSync files fn (some x) x.length ks = some (0, files') →
        filesystemLoad files' fn (some buf) x.length kl = some (0, out) → out = some (x ++ buf.drop x.length)) ∧
      (∀ (name content buf : Bytes) (xlen : Nat) (k : Replies), files name = some content →
        content.length < xlen →
        (∀ r out, filesystemLoad files (some name) (some buf) xlen k = some (r, out) → r = -1) ∧
          (content.length ≤ buf.length →
            content.length < k.transfers.countP (fun reply => !reply.interruption) →
            ∃ out, filesystemLoad files (some name) (some buf) xlen k = some (-1, out))) ∧
      (∀ (fd : OpenFile) (x : Bytes) (xlen : Nat) (replies : List Reply),
        Always writeTurn (fun s => s.offset + s.xlen = xlen) (.start fd x xlen) replies ∧
          Always readTurn (fun s => s.offset + s.xlen = xlen) (.start fd x xlen) replies) := by
  refine ⟨?_, ?_, ?_⟩
  · intro x buf ks kl files' out hsave hload
    obtain ⟨name, rfl, rfl⟩ := filesystemSaveSync_ok hsave
    obtain ⟨_, content, hname, hfile, -, rfl⟩ := filesystemLoad_ok hload
    cases hname
    rw [Function.update_self] at hfile
    cases hfile
    rw [take_laidOver]
    rfl
  · intro name content buf xlen k hfile hlong
    exact filesystemLoad_long hfile hlong
  · intro fd x xlen replies
    exact ⟨always_of_step (fun s l s' hs => writeTurn_total hs) (Nat.zero_add xlen),
      always_of_step (fun s l s' hs => readTurn_total hs) (Nat.zero_add xlen)⟩

/-- A file of five bytes. -/
def sampleFiles : Files := fun _ => some [1, 2, 3, 4, 5]

/-- The file after three bytes are saved over them. -/
def sampleSaved : Files := Function.update sampleFiles [47] (some [7, 8, 9, 4, 5])

/-- The answers to a save in two pieces. -/
def sampleSave : Replies := ⟨true, [.transferred 2, .failed .eintr, .transferred 9], true, true⟩

/-- The answers to a load in three pieces. -/
def sampleLoad : Replies :=
  ⟨true, [.transferred 0, .failed .eagain, .transferred 1, .transferred 1], true, true⟩

/-- The three bytes come back; a load of six bytes ends with the file. -/
theorem save_load_round_trip_sample :
    (filesystemSaveSync sampleFiles (some [47]) (some [7, 8, 9]) 3 sampleSave = some (0, sampleSaved) ∧
      filesystemLoad sampleSaved (some [47]) (some [0, 0, 0, 0]) 3 sampleLoad =
      some (0, some ([7, 8, 9] ++ [0]))) ∧
    ∃ out, filesystemLoad sampleFiles (some [47]) (some (zeros 6)) 6 ⟨true, List.replicate 6 (.transferred 4),
      true, true⟩ =
      some (-1, out) := by
  have hsave :
      filesystemSaveSync sampleFiles (some [47]) (some [7, 8, 9]) 3 sampleSave = some (0, sampleSaved) := rfl
  have hload : filesystemLoad sampleSaved (some [47]) (some [0, 0, 0, 0]) 3 sampleLoad =
      some (0, some [7, 8, 9, 0]) := rfl
  have hback := (save_load_round_trip sampleFiles (some [47])).1 [7, 8, 9] [0, 0, 0, 0] _ _ _ _ hsave hload
  have hlong := (save_load_round_trip sampleFiles none).2.1 [47] [1, 2, 3, 4, 5] (zeros 6) 6
    ⟨true, List.replicate 6 (.transferred 4), true, true⟩ rfl (by decide)
  exact ⟨⟨hsave, hload.trans (congrArg (fun out => some (0, out)) hback)⟩, hlong.2 (by decide) (by decide)⟩

end SploneBox.Filesystem
