/-
# SploneBox.Safenonce — `safenonce`: the cookie nonce counters of all processes on one `.keys` directory.

`safenonce` hands out the counters of a block `[counterlow, counterhigh)` and takes a new block from
`.keys/noncecounter` under the lock when its own is used up. A process can stop at every file operation,
each of them can fail, and another process can run in between, so `Pc` is the file operation a process is
at, and one step of `Keys` is one operation of one process, with its outcome in the label. `encrypted` is
a record of the counters that successful calls have encrypted.

A counter belongs to a process (`Process.owns`) while it is in a block whose end has been saved. Owned
counters are below the stored one, no two processes own the same, and none of them has been encrypted
(`Reserved`). The one step that breaks this is the call after a failed save: `counterhigh` has been
assigned before the save, so the process goes on with a block that is not in the file. Without such a call
the counters never repeat (`counters_never_repeat`).
-/
import SploneBox.Bytes
import SploneBox.Lib.Machine

namespace SploneBox

open Lib.Machine

/-! ## §1 The model -/

/-- The file operation a process is at, `pack` for the last lines of `safenonce`. -/
inductive Pc where
  | idle
  | keyLock
  | keyLoad
  | keyClose
  | counterLock
  | counterLoad
  | counterSave
  | counterClose
  | pack
deriving DecidableEq

/-- The static variables of `crypto.c`, the argument of the call that is running, and, as a record, that
the save of the block has failed. -/
structure Process where
  counterlow : UInt64
  counterhigh : UInt64
  flagkeyloaded : Bool
  flaglongterm : Bool
  pc : Pc
  unsaved : Bool

/-- A process that has just started. -/
def Process.start : Process := ⟨0, 0, false, false, .idle, false⟩

/-- The files in `.keys`, the holder of the lock, and the processes. -/
structure Keys where
  noncecounter : Bytes
  lock : Option Nat
  process : Nat → Process
  encrypted : List UInt64

/-- What can happen: a call of `safenonce`, the next file operation of a process with its outcome
(`kept` is whether the lock outlives a `close` that does not succeed), a restart. -/
inductive Action where
  | call (p : Nat) (flaglongterm : Bool)
  | proceed (p : Nat) (ok kept : Bool)
  | restart (p : Nat)

/-- The counter in `.keys/noncecounter`. -/
def Keys.stored (k : Keys) : UInt64 := uint64Unpack k.noncecounter

namespace Keys

/-- The directory with another state of the process `p`. -/
def set (k : Keys) (p : Nat) (q : Process) : Keys :=
  { k with process := fun i => if i = p then q else k.process i }

/-- `close(fdlock)`. -/
def close (k : Keys) (kept : Bool) : Keys := if kept then k else { k with lock := none }

/-- `filesystem_open_lock` of the process `p`: it waits for the others. -/
def openLock (k : Keys) (p : Nat) (ok : Bool) (next failed : Process) : Option Keys :=
  if !ok then some (k.set p failed)
  else if k.lock = none ∨ k.lock = some p then some ({ k with lock := some p }.set p next)
  else none

/-- The test `counterlow >= counterhigh`. -/
def afterKey (q : Process) : Process :=
  { q with pc := if q.counterhigh ≤ q.counterlow then .counterLock else .pack }

/-- The next operation of the process `p`. -/
def proceed (k : Keys) (p : Nat) (ok kept : Bool) : Option Keys :=
  let q := k.process p
  let failed : Process := { q with pc := .idle }
  match q.pc with
  | .idle => none
  | .keyLock => k.openLock p ok { q with pc := .keyLoad } failed
  | .keyLoad =>
      if ok then some (k.set p { q with pc := .keyClose }) else some ((k.close kept).set p failed)
  | .keyClose =>
      if ok then some ((k.close false).set p (afterKey { q with flagkeyloaded := true }))
      else some ((k.close kept).set p failed)
  | .counterLock => k.openLock p ok { q with pc := .counterLoad } failed
  | .counterLoad =>
      if ok then
        some (k.set p { q with
          counterlow := k.stored
          counterhigh := k.stored + (if q.flaglongterm then 1048576 else 1)
          pc := .counterSave })
      else some ((k.close kept).set p failed)
  | .counterSave =>
      if ok then
        some ({ k with noncecounter := uint64Pack q.counterhigh }.set p { q with pc := .counterClose })
      else some ((k.close kept).set p { failed with unsaved := true })
  | .counterClose =>
      if ok then some ((k.close false).set p { q with pc := .pack })
      else some ((k.close kept).set p failed)
  | .pack =>
      some ({ k with encrypted := k.encrypted ++ [q.counterlow] }.set p
        { failed with counterlow := q.counterlow + 1 })

/-- One step. A process that ends gives its lock back. -/
def step (k : Keys) (a : Action) : Option Keys :=
  match a with
  | .call p flaglongterm =>
      let q := { k.process p with flaglongterm := flaglongterm }
      if (k.process p).pc = .idle then
        some (k.set p (if q.flagkeyloaded then afterKey q else { q with pc := .keyLock }))
      else none
  | .proceed p ok kept => k.proceed p ok kept
  | .restart p =>
      some ({ k with lock := if k.lock = some p then none else k.lock }.set p .start)

/-- Every process just started, with any counter in the file. -/
def start (noncecounter : Bytes) : Keys := ⟨noncecounter, none, fun _ => .start, []⟩

/-- **The condition**: the stored counter is below `2 ^ 63`, and a process whose save has failed is not
called again before it is restarted. -/
def Recovers (k : Keys) : Action → Prop
  | .call p _ => k.stored.toNat < 2 ^ 63 ∧ (k.process p).unsaved = false
  | _ => k.stored.toNat < 2 ^ 63

instance (k : Keys) : (a : Action) → Decidable (k.Recovers a)
  | .call _ _ => inferInstanceAs (Decidable (_ ∧ _))
  | .proceed _ _ _ => inferInstanceAs (Decidable (_ < _))
  | .restart _ => inferInstanceAs (Decidable (_ < _))

end Keys

/-! ## §2 The invariant -/

/-- The lock is held between `filesystem_open_lock` and `close`. -/
def Pc.locked : Pc → Bool
  | .keyLoad => true
  | .keyClose => true
  | .counterLoad => true
  | .counterSave => true
  | .counterClose => true
  | _ => false

/-- From the load of a new block to its use the block is not empty. -/
def Pc.filled : Pc → Bool
  | .counterSave => true
  | .counterClose => true
  | .pack => true
  | _ => false

/-- The counter `x` is in a block of the process whose end has been saved. -/
def Process.owns (q : Process) (x : Nat) : Prop :=
  q.pc ≠ .counterSave ∧ q.unsaved = false ∧ q.counterlow.toNat ≤ x ∧ x < q.counterhigh.toNat

/-- Where the processes are, and who has the lock. -/
structure Keys.Control (k : Keys) : Prop where
  lock : ∀ p, (k.process p).pc.locked = true → k.lock = some p
  loaded : ∀ p, (k.process p).pc = .counterSave → (k.process p).counterlow = k.stored
  filled : ∀ p, (k.process p).pc.filled = true →
    (k.process p).counterlow.toNat < (k.process p).counterhigh.toNat
  parked : ∀ p, (k.process p).unsaved = true → (k.process p).pc = .idle

/-- Owned counters are stored, apart and fresh; encrypted counters are stored and distinct. -/
structure Keys.Reserved (k : Keys) : Prop where
  stored : ∀ p x, (k.process p).owns x → x < k.stored.toNat
  apart : ∀ p q x, (k.process p).owns x → (k.process q).owns x → p = q
  fresh : ∀ p x, (k.process p).owns x → ∀ u ∈ k.encrypted, u.toNat ≠ x
  below : ∀ u ∈ k.encrypted, u < k.stored
  distinct : k.encrypted.Nodup

namespace Keys

theorem set_self (k : Keys) (p : Nat) (q : Process) : (k.set p q).process p = q := if_pos rfl

theorem set_ne (k : Keys) {p r : Nat} (q : Process) (h : r ≠ p) :
    (k.set p q).process r = k.process r := if_neg h

theorem close_process (k : Keys) (kept : Bool) : (k.close kept).process = k.process := by
  unfold close
  split <;> rfl

theorem close_stored (k : Keys) (kept : Bool) : (k.close kept).stored = k.stored := by
  unfold close
  split <;> rfl

theorem close_encrypted (k : Keys) (kept : Bool) : (k.close kept).encrypted = k.encrypted := by
  unfold close
  split <;> rfl

end Keys

/-- What a step may do to the process that takes it, for `Control`. -/
structure Placed (k : Keys) (p : Nat) (q : Process) : Prop where
  lock : q.pc.locked = true → k.lock = some p
  loaded : q.pc = .counterSave → q.counterlow = k.stored
  filled : q.pc.filled = true → q.counterlow.toNat < q.counterhigh.toNat
  parked : q.unsaved = true → q.pc = .idle

/-- A process outside `safenonce` can be anywhere. -/
theorem Placed.idle {k : Keys} {p : Nat} {q : Process} (h : q.pc = .idle) : Placed k p q where
  lock := fun hl => by rw [h] at hl; cases hl
  loaded := fun hs => by rw [h] at hs; cases hs
  filled := fun hf => by rw [h] at hf; cases hf
  parked := fun _ => h

namespace Keys.Control

variable {k k' : Keys} {p : Nat} {q : Process}

/-- No two processes are between lock and close. -/
theorem exclusive (h : Control k) {r s : Nat} (hr : (k.process r).pc.locked = true)
    (hs : (k.process s).pc.locked = true) : r = s :=
  Option.some.inj ((h.lock r hr).symm.trans (h.lock s hs))

/-- **A step of one process**: the others keep the lock, and where the file changes none of them is about
to save. -/
theorem set (h : Control k) (hproc : k'.process = k.process)
    (hlock : ∀ r, r ≠ p → (k.process r).pc.locked = true → k'.lock = some r)
    (hstored : k'.stored = k.stored ∨ (k.process p).pc.locked = true)
    (hq : Placed k' p q) : Control (k'.set p q) := by
  have hother : ∀ r, r ≠ p → (k'.set p q).process r = k.process r := by
    intro r hr
    rw [set_ne _ _ hr, hproc]
  refine ⟨?_, ?_, ?_, ?_⟩
  · intro r hl
    by_cases hr : r = p
    · subst hr
      rw [set_self] at hl
      exact hq.lock hl
    · rw [hother r hr] at hl
      exact hlock r hr hl
  · intro r hs
    by_cases hr : r = p
    · subst hr
      rw [set_self] at hs ⊢
      exact hq.loaded hs
    · rw [hother r hr] at hs ⊢
      rcases hstored with hsame | hp
      · show _ = k'.stored
        rw [hsame]
        exact h.loaded r hs
      · -- the process that saves has the lock
        exact absurd (h.exclusive (by rw [hs]; rfl) hp) hr
  · intro r hf
    by_cases hr : r = p
    · subst hr
      rw [set_self] at hf ⊢
      exact hq.filled hf
    · rw [hother r hr] at hf ⊢
      exact h.filled r hf
  · intro r hu
    by_cases hr : r = p
    · subst hr
      rw [set_self] at hu ⊢
      exact hq.parked hu
    · rw [hother r hr] at hu ⊢
      exact h.parked r hu

/-- The lock after the `close` of the process that has it. -/
theorem close_lock (h : Control k) (hp : (k.process p).pc.locked = true) (kept : Bool) {r : Nat}
    (hr : r ≠ p) (hl : (k.process r).pc.locked = true) : (k.close kept).lock = some r :=
  absurd (h.exclusive hl hp) hr

/-- A `close`, by the process that has the lock. -/
theorem setClose (h : Control k) (hp : (k.process p).pc.locked = true) (kept : Bool)
    (hq : Placed (k.close kept) p q) : Control ((k.close kept).set p q) :=
  h.set (k.close_process kept) (fun _ hr hl => h.close_lock hp kept hr hl) (Or.inr hp) hq

/-- A step that leaves the lock and the file as they are. -/
theorem setHere (h : Control k) (hq : Placed k p q) : Control (k.set p q) :=
  h.set rfl (fun r _ hl => h.lock r hl) (Or.inl rfl) hq

/-- `filesystem_open_lock` of a process that does not have a block in hand. -/
theorem openLock {ok : Bool} {next failed : Process} (h : Control k)
    (hs : k.openLock p ok next failed = some k')
    (hnext : next.pc.filled = false ∧ next.unsaved = false) (hfailed : failed.pc = .idle) :
    Control k' := by
  unfold Keys.openLock at hs
  split at hs
  · cases hs
    exact h.setHere (Placed.idle hfailed)
  · split at hs
    next hfree =>
      cases hs
      refine h.set rfl ?_ (Or.inl rfl) ⟨fun _ => rfl, ?_, ?_, ?_⟩
      · intro r hr hl
        have hheld := h.lock r hl
        rcases hfree with hnone | hown
        · rw [hnone] at hheld
          cases hheld
        · rw [hown] at hheld
          exact absurd (Option.some.inj hheld).symm hr
      · intro hsave
        have hfill := hnext.1
        rw [hsave] at hfill
        cases hfill
      · intro hf
        rw [hnext.1] at hf
        cases hf
      · intro hu
        rw [hnext.2] at hu
        cases hu
    next => cases hs

/-- A process that is inside `safenonce` has saved its block. -/
theorem saved (h : Control k) (hpc : (k.process p).pc ≠ .idle) : (k.process p).unsaved = false := by
  cases hu : (k.process p).unsaved with
  | false => rfl
  | true => exact absurd (h.parked p hu) hpc

end Keys.Control

namespace Keys.Reserved

variable {k k' : Keys} {p : Nat} {q : Process}

/-- **A step that gives the process nothing new.** -/
theorem set (h : Reserved k) (hproc : k'.process = k.process) (hstored : k'.stored = k.stored)
    (henc : k'.encrypted = k.encrypted) (hq : ∀ x, q.owns x → (k.process p).owns x) :
    Reserved (k'.set p q) := by
  have hold : ∀ r x, ((k'.set p q).process r).owns x → (k.process r).owns x := by
    intro r x hx
    by_cases hr : r = p
    · subst hr
      rw [set_self] at hx
      exact hq x hx
    · rw [set_ne _ _ hr, hproc] at hx
      exact hx
  refine ⟨?_, ?_, ?_, ?_, ?_⟩
  · intro r x hx
    show x < k'.stored.toNat
    rw [hstored]
    exact h.stored r x (hold r x hx)
  · intro r s x hx hx'
    exact h.apart r s x (hold r x hx) (hold s x hx')
  · intro r x hx u hu
    exact h.fresh r x (hold r x hx) u (henc ▸ hu)
  · intro u hu
    show u < k'.stored
    rw [hstored]
    exact h.below u (henc ▸ hu)
  · show k'.encrypted.Nodup
    rw [henc]
    exact h.distinct

theorem setHere (h : Reserved k) (hq : ∀ x, q.owns x → (k.process p).owns x) : Reserved (k.set p q) :=
  h.set rfl rfl rfl hq

theorem setClose (h : Reserved k) (kept : Bool) (hq : ∀ x, q.owns x → (k.process p).owns x) :
    Reserved ((k.close kept).set p q) :=
  h.set (k.close_process kept) (k.close_stored kept) (k.close_encrypted kept) hq

theorem openLock {ok : Bool} {next failed : Process} (h : Reserved k)
    (hs : k.openLock p ok next failed = some k')
    (hnext : ∀ x, next.owns x → (k.process p).owns x)
    (hfailed : ∀ x, failed.owns x → (k.process p).owns x) : Reserved k' := by
  unfold Keys.openLock at hs
  split at hs
  · cases hs
    exact h.setHere hfailed
  · split at hs
    · cases hs
      exact h.set rfl rfl rfl hnext
    · cases hs

end Keys.Reserved

/-- A move inside `safenonce` gives the process nothing new. -/
theorem Process.owns_of_move {q q' : Process} {x : Nat} (h : q'.owns x) (hpc : q.pc ≠ .counterSave)
    (hlow : q'.counterlow = q.counterlow) (hhigh : q'.counterhigh = q.counterhigh)
    (hunsaved : q'.unsaved = q.unsaved) : q.owns x := by
  obtain ⟨-, hu, hl, hh⟩ := h
  rw [hunsaved] at hu
  rw [hlow] at hl
  rw [hhigh] at hh
  exact ⟨hpc, hu, hl, hh⟩

theorem uint64Unpack_pack (x : UInt64) : uint64Unpack (uint64Pack x) = x := by
  have h := uint64Unpack_uint64Pack x []
  rwa [List.append_nil] at h

namespace Keys.Reserved

variable {k : Keys} {p : Nat}

/-- **A successful save** makes the block the process's own. It starts where the stored counter was, so
nobody owns or has used any of it. -/
theorem save (h : Reserved k) (hlow : (k.process p).counterlow = k.stored)
    (hlt : (k.process p).counterlow.toNat < (k.process p).counterhigh.toNat)
    (hpc : (k.process p).pc = .counterSave) :
    Reserved ({ k with noncecounter := uint64Pack (k.process p).counterhigh }.set p
      { k.process p with pc := .counterClose }) := by
  set k' : Keys := { k with noncecounter := uint64Pack (k.process p).counterhigh } with hk'
  set q : Process := { k.process p with pc := .counterClose } with hq
  have hstored : k'.stored = (k.process p).counterhigh := uint64Unpack_pack _
  have hgrow : k.stored.toNat < (k.process p).counterhigh.toNat := by
    rw [← hlow]
    exact hlt
  have hnew : ∀ x, q.owns x → k.stored.toNat ≤ x ∧ x < (k.process p).counterhigh.toNat := by
    rintro x ⟨-, -, hl, hh⟩
    exact ⟨hlow ▸ hl, hh⟩
  -- an owned counter is an old one of another process, or one of the new block
  have hold : ∀ r x, ((k'.set p q).process r).owns x →
      (r ≠ p ∧ (k.process r).owns x) ∨ (r = p ∧ k.stored.toNat ≤ x ∧
        x < (k.process p).counterhigh.toNat) := by
    intro r x hx
    by_cases hr : r = p
    · subst hr
      rw [set_self] at hx
      exact Or.inr ⟨rfl, hnew x hx⟩
    · rw [set_ne _ _ hr] at hx
      exact Or.inl ⟨hr, hx⟩
  refine ⟨?_, ?_, ?_, ?_, h.distinct⟩
  · intro r x hx
    show x < k'.stored.toNat
    rw [hstored]
    rcases hold r x hx with ⟨-, hx⟩ | ⟨-, -, hx⟩
    · exact Nat.lt_trans (h.stored r x hx) hgrow
    · exact hx
  · intro r s x hx hx'
    rcases hold r x hx with ⟨-, hr⟩ | ⟨rfl, hr, -⟩ <;> rcases hold s x hx' with ⟨-, hs⟩ | ⟨rfl, hs, -⟩
    · exact h.apart r s x hr hs
    · exact absurd (h.stored r x hr) (Nat.not_lt.mpr hs)
    · exact absurd (h.stored s x hs) (Nat.not_lt.mpr hr)
    · rfl
  · intro r x hx u hu
    rcases hold r x hx with ⟨-, hr⟩ | ⟨-, hr, -⟩
    · exact h.fresh r x hr u hu
    · have hlt := UInt64.lt_iff_toNat_lt.mp (h.below u hu)
      omega
  · intro u hu
    show u < k'.stored
    rw [hstored]
    have hbelow := UInt64.lt_iff_toNat_lt.mp (h.below u hu)
    exact UInt64.lt_iff_toNat_lt.mpr (Nat.lt_trans hbelow hgrow)

/-- **A counter is used**: it was the process's own, and is not any more. -/
theorem pack (h : Reserved k) (hpc : (k.process p).pc = .pack) (hu : (k.process p).unsaved = false)
    (hlt : (k.process p).counterlow.toNat < (k.process p).counterhigh.toNat) :
    Reserved ({ k with encrypted := k.encrypted ++ [(k.process p).counterlow] }.set p
      { k.process p with pc := .idle, counterlow := (k.process p).counterlow + 1 }) := by
  set k' : Keys := { k with encrypted := k.encrypted ++ [(k.process p).counterlow] } with hk'
  set q : Process :=
    { k.process p with pc := .idle, counterlow := (k.process p).counterlow + 1 } with hq
  have howned : (k.process p).owns (k.process p).counterlow.toNat :=
    ⟨by rw [hpc]; decide, hu, Nat.le_refl _, hlt⟩
  have hnext : ((k.process p).counterlow + 1).toNat = (k.process p).counterlow.toNat + 1 := by
    have hmax := UInt64.toNat_lt (k.process p).counterhigh
    rw [UInt64.toNat_add]
    show ((k.process p).counterlow.toNat + 1) % 2 ^ 64 = _
    omega
  have hold : ∀ r x, ((k'.set p q).process r).owns x →
      (k.process r).owns x ∧ x ≠ (k.process p).counterlow.toNat := by
    intro r x hx
    by_cases hr : r = p
    · subst hr
      rw [set_self] at hx
      obtain ⟨-, -, hl, hh⟩ := hx
      change ((k.process r).counterlow + 1).toNat ≤ x at hl
      rw [hnext] at hl
      exact ⟨⟨howned.1, hu, by omega, hh⟩, by omega⟩
    · rw [set_ne _ _ hr] at hx
      refine ⟨hx, ?_⟩
      rintro rfl
      exact hr (h.apart r p _ hx howned)
  refine ⟨fun r x hx => h.stored r x (hold r x hx).1,
    fun r s x hx hx' => h.apart r s x (hold r x hx).1 (hold s x hx').1, ?_, ?_, ?_⟩
  · intro r x hx u hu
    obtain ⟨hx, hne⟩ := hold r x hx
    rcases List.mem_append.mp hu with hu | hu
    · exact h.fresh r x hx u hu
    · rw [List.mem_singleton.mp hu]
      exact hne.symm
  · intro u hu
    rcases List.mem_append.mp hu with hu | hu
    · exact h.below u hu
    · rw [List.mem_singleton.mp hu]
      exact UInt64.lt_iff_toNat_lt.mpr (h.stored p _ howned)
  · refine List.nodup_append.mpr ⟨h.distinct, by simp, ?_⟩
    rintro u hu v hv rfl
    exact h.fresh p _ howned u hu (congrArg UInt64.toNat (List.mem_singleton.mp hv))

end Keys.Reserved

/-! ## §3 Runs -/

/-- A process that has just started owns nothing. -/
theorem Process.start_owns (x : Nat) : ¬ Process.start.owns x := by
  rintro ⟨-, -, -, hlt⟩
  exact absurd hlt (Nat.not_lt_zero x)

/-- A block taken from a counter below `2 ^ 63` does not wrap. -/
theorem block_filled {n : UInt64} (h : n.toNat < 2 ^ 63) (long : Bool) :
    n.toNat < (n + if long then 1048576 else 1).toNat := by
  have hadd : (n + if long then 1048576 else 1).toNat = n.toNat + if long then 1048576 else 1 := by
    rw [UInt64.toNat_add]
    cases long
    · show (n.toNat + 1) % 2 ^ 64 = n.toNat + 1
      omega
    · show (n.toNat + 1048576) % 2 ^ 64 = n.toNat + 1048576
      omega
  rw [hadd]
  cases long <;> simp

namespace Keys

/-- The invariant of all runs. -/
def Sound (k : Keys) : Prop := k.Control ∧ k.Reserved

theorem sound_start (noncecounter : Bytes) : Sound (start noncecounter) := by
  refine ⟨⟨?_, ?_, ?_, ?_⟩, ⟨?_, ?_, ?_, ?_, List.nodup_nil⟩⟩
  · intro p hl
    cases hl
  · intro p hs
    cases hs
  · intro p hf
    cases hf
  · intro p _
    rfl
  · intro p x hx
    exact absurd hx (Process.start_owns x)
  · intro p q x hx
    exact absurd hx (Process.start_owns x)
  · intro p x hx
    exact absurd hx (Process.start_owns x)
  · intro u hu
    cases hu

/-- The place after the test `counterlow >= counterhigh`. -/
theorem afterKey_placed {k : Keys} {p : Nat} {q : Process} (hu : q.unsaved = false) :
    Placed k p (afterKey q) := by
  have hnot : (afterKey q).unsaved = true → (afterKey q).pc = .idle := by
    intro hw
    rw [show (afterKey q).unsaved = false from hu] at hw
    cases hw
  by_cases hle : q.counterhigh ≤ q.counterlow
  · have hpc : (afterKey q).pc = .counterLock := if_pos hle
    refine ⟨?_, ?_, ?_, hnot⟩ <;> rw [hpc] <;> intro h <;> cases h
  · have hpc : (afterKey q).pc = .pack := if_neg hle
    refine ⟨?_, ?_, ?_, hnot⟩
    · rw [hpc]
      intro hl
      cases hl
    · rw [hpc]
      intro hs
      cases hs
    · intro _
      exact Nat.lt_of_not_le fun hle' => hle (UInt64.le_iff_toNat_le.mpr hle')

/-- **One operation keeps the invariant**, one case for each place in `safenonce`. -/
theorem proceed_sound {k k' : Keys} {p : Nat} {ok kept : Bool} (h : Sound k)
    (hsmall : k.stored.toNat < 2 ^ 63) (hs : k.proceed p ok kept = some k') : Sound k' := by
  obtain ⟨hc, hr⟩ := h
  have hsaved := hc.saved (p := p)
  -- going on, or back to `idle`, from any place but the save
  have hmove : ∀ pc', (k.process p).pc ≠ .counterSave →
      ∀ x, ({ k.process p with pc := pc' } : Process).owns x → (k.process p).owns x :=
    fun pc' hne x hx => Process.owns_of_move hx hne rfl rfl rfl
  unfold proceed at hs
  cases hpc : (k.process p).pc with
  | idle =>
      simp only [hpc] at hs
      cases hs
  | keyLock =>
      simp only [hpc] at hs
      exact ⟨hc.openLock hs ⟨rfl, hsaved (by rw [hpc]; decide)⟩ rfl,
        hr.openLock hs (hmove _ (by rw [hpc]; decide)) (hmove _ (by rw [hpc]; decide))⟩
  | keyLoad =>
      simp only [hpc] at hs
      split at hs
      · cases hs
        refine ⟨hc.setHere ⟨fun _ => hc.lock p (by rw [hpc]; rfl), ?_, ?_, ?_⟩,
          hr.setHere (hmove _ (by rw [hpc]; decide))⟩
        · intro hsave
          cases hsave
        · intro hf
          cases hf
        · intro hu
          rw [show _ = _ from hsaved (by rw [hpc]; decide)] at hu
          cases hu
      · cases hs
        exact ⟨hc.setClose (by rw [hpc]; rfl) kept (Placed.idle rfl),
          hr.setClose kept (hmove _ (by rw [hpc]; decide))⟩
  | keyClose =>
      simp only [hpc] at hs
      split at hs
      · cases hs
        refine ⟨hc.setClose (by rw [hpc]; rfl) false (afterKey_placed (hsaved (by rw [hpc]; decide))),
          hr.setClose false ?_⟩
        exact fun x hx => Process.owns_of_move hx (by rw [hpc]; decide) rfl rfl rfl
      · cases hs
        exact ⟨hc.setClose (by rw [hpc]; rfl) kept (Placed.idle rfl),
          hr.setClose kept (hmove _ (by rw [hpc]; decide))⟩
  | counterLock =>
      simp only [hpc] at hs
      exact ⟨hc.openLock hs ⟨rfl, hsaved (by rw [hpc]; decide)⟩ rfl,
        hr.openLock hs (hmove _ (by rw [hpc]; decide)) (hmove _ (by rw [hpc]; decide))⟩
  | counterLoad =>
      simp only [hpc] at hs
      split at hs
      · cases hs
        refine ⟨hc.setHere ⟨fun _ => hc.lock p (by rw [hpc]; rfl), fun _ => rfl,
          fun _ => block_filled hsmall _, ?_⟩, hr.setHere ?_⟩
        · intro hu
          rw [show _ = _ from hsaved (by rw [hpc]; decide)] at hu
          cases hu
        · rintro x ⟨hne, -⟩
          exact absurd rfl hne
      · cases hs
        exact ⟨hc.setClose (by rw [hpc]; rfl) kept (Placed.idle rfl),
          hr.setClose kept (hmove _ (by rw [hpc]; decide))⟩
  | counterSave =>
      have hfilled := hc.filled p (by rw [hpc]; rfl)
      simp only [hpc] at hs
      split at hs
      · cases hs
        refine ⟨hc.set rfl (fun r _ hl => hc.lock r hl) (Or.inr (by rw [hpc]; rfl))
          ⟨fun _ => hc.lock p (by rw [hpc]; rfl), ?_, fun _ => hfilled, ?_⟩,
          hr.save (hc.loaded p hpc) hfilled hpc⟩
        · intro hsave
          cases hsave
        · intro hu
          rw [show _ = _ from hsaved (by rw [hpc]; decide)] at hu
          cases hu
      · -- the block is marked, and counts for nothing from here on
        cases hs
        refine ⟨hc.setClose (by rw [hpc]; rfl) kept (Placed.idle rfl), hr.setClose kept ?_⟩
        rintro x ⟨-, hu, -⟩
        cases hu
  | counterClose =>
      have hfilled := hc.filled p (by rw [hpc]; rfl)
      simp only [hpc] at hs
      split at hs
      · cases hs
        refine ⟨hc.setClose (by rw [hpc]; rfl) false ⟨?_, ?_, fun _ => hfilled, ?_⟩,
          hr.setClose false (hmove _ (by rw [hpc]; decide))⟩
        · intro hl
          cases hl
        · intro hsave
          cases hsave
        · intro hu
          rw [show _ = _ from hsaved (by rw [hpc]; decide)] at hu
          cases hu
      · cases hs
        exact ⟨hc.setClose (by rw [hpc]; rfl) kept (Placed.idle rfl),
          hr.setClose kept (hmove _ (by rw [hpc]; decide))⟩
  | pack =>
      simp only [hpc] at hs
      cases hs
      exact ⟨hc.set rfl (fun r _ hl => hc.lock r hl) (Or.inl rfl) (Placed.idle rfl),
        hr.pack hpc (hsaved (by rw [hpc]; decide)) (hc.filled p (by rw [hpc]; rfl))⟩

/-- **One step keeps the invariant.** -/
theorem sound_step {k k' : Keys} {a : Action} (h : Sound k) (hG : k.Recovers a)
    (hs : k.step a = some k') : Sound k' := by
  obtain ⟨hc, hr⟩ := h
  cases a with
  | call p flag =>
      obtain ⟨-, hu⟩ := hG
      simp only [step] at hs
      split at hs
      next hidle =>
        cases hs
        have hne : (k.process p).pc ≠ .counterSave := by
          rw [hidle]
          decide
        by_cases hkey : (k.process p).flagkeyloaded = true
        · rw [if_pos hkey]
          exact ⟨hc.setHere (afterKey_placed hu),
            hr.setHere fun x hx => Process.owns_of_move hx hne rfl rfl rfl⟩
        · rw [if_neg hkey]
          refine ⟨hc.setHere ⟨?_, ?_, ?_, ?_⟩,
            hr.setHere fun x hx => Process.owns_of_move hx hne rfl rfl rfl⟩
          · intro hl
            cases hl
          · intro hsave
            cases hsave
          · intro hf
            cases hf
          · intro hw
            rw [show _ = _ from hu] at hw
            cases hw
      next => cases hs
  | proceed p ok kept => exact proceed_sound ⟨hc, hr⟩ hG hs
  | restart p =>
      cases hs
      refine ⟨hc.set rfl ?_ (Or.inl rfl) (Placed.idle rfl), hr.set rfl rfl rfl ?_⟩
      · intro r hne hl
        have hheld := hc.lock r hl
        show (if k.lock = some p then none else k.lock) = some r
        rw [if_neg (by rw [hheld]; simpa using hne), hheld]
      · intro x hx
        exact absurd hx (Process.start_owns x)

end Keys

/-- **Counters never repeat.** On every run of any processes, restarted at any point and with any file
operation failing, in which no process is called again after a failed save: the counters encrypted are
distinct, and the stored one is above all of them, in every state. -/
theorem counters_never_repeat (noncecounter : Bytes) (as : List Action)
    (h : Along Keys.step (fun k a _ => k.Recovers a) (Keys.start noncecounter) as) :
    Always Keys.step (fun k => k.encrypted.Nodup ∧ ∀ u ∈ k.encrypted, u < k.stored)
      (Keys.start noncecounter) as := by
  have hkeep : ∀ k a k', Keys.Sound k → k.Recovers a → k.step a = some k' → Keys.Sound k' :=
    fun k a k' hk hG hs => Keys.sound_step hk hG hs
  have hsound := always_of_along hkeep (Keys.sound_start noncecounter) h
  refine ⟨⟨hsound.1.2.distinct, hsound.1.2.below⟩, hsound.2.imp ?_⟩
  rintro k a k' ⟨-, hr⟩
  exact ⟨hr.distinct, hr.below⟩

namespace Sample

/-- A first call of the process `p` in which every operation before the save succeeds. -/
def callToSave (p : Nat) : List Action :=
  .call p true :: List.replicate 5 (.proceed p true false)

/-- The rest of a call whose save succeeds. -/
def savedCall (p : Nat) : List Action := List.replicate 3 (.proceed p true false)

/-- Two processes; the save of the first one fails, and it is restarted. -/
def twoProcesses : List Action :=
  callToSave 0 ++ [.proceed 0 false false, .restart 0] ++ callToSave 1 ++ savedCall 1 ++
    callToSave 0 ++ savedCall 0

end Sample

theorem counters_never_repeat_sample :
    (exec Keys.step (Keys.start (zeros 8)) Sample.twoProcesses).map
        (fun k => (k.encrypted, k.stored)) = some ([0, 1048576], 2097152) ∧
      Always Keys.step (fun k => k.encrypted.Nodup ∧ ∀ u ∈ k.encrypted, u < k.stored)
        (Keys.start (zeros 8)) Sample.twoProcesses :=
  ⟨by decide +kernel, counters_never_repeat (zeros 8) Sample.twoProcesses (by decide +kernel)⟩

/-- After a failed save the process encrypts a counter that is still in the file, and after a restart
the same counter again. -/
theorem unsaved_block_reused :
    (exec Keys.step (Keys.start (zeros 8))
        (Sample.callToSave 0 ++ [.proceed 0 false false, .call 0 true, .proceed 0 true false])).map
        (fun k => (k.encrypted, k.stored)) = some ([0], 0) ∧
      (exec Keys.step (Keys.start (zeros 8))
        (Sample.callToSave 0 ++ [.proceed 0 false false, .call 0 true, .proceed 0 true false,
          .restart 0] ++ Sample.callToSave 0 ++ Sample.savedCall 0)).map
        (fun k => (k.encrypted, k.stored)) = some ([0, 0], 1048576) := by
  decide +kernel

end SploneBox
