/-
# SploneBox.Outputstream — the write buffer of a connection and its account.

`outputstream_write` hands a buffer to `uv_write` and counts its length in `curmem`; `write_cb` is called when
the write is over and counts it off. The writes that `uv_write` has taken and whose `write_cb` has not run are
in flight (`Stream`). Both functions have an exit for errors that leaves the length in the count, and the sum
that is compared with `maxmem` is one of 64 bits: `write_account_iff` says along which runs the account is
right.
-/
import Mathlib.Algebra.BigOperators.Group.List.Basic
import Mathlib.Algebra.Ring.Nat
import Mathlib.Data.List.Perm.Basic
import SploneBox.Lib.Machine

namespace SploneBox

open Lib.Machine

/-! ## §1 The code -/

/-- `struct outputstream`. -/
structure Outputstream where
  curmem : UInt64
  maxmem : UInt32
deriving DecidableEq

/-- `struct write_request_data`, with the address of the buffer. -/
structure WriteRequestData where
  buffer : Nat
  len : UInt64
deriving DecidableEq

/-- `outputstream_new`. -/
def outputstreamNew (maxmem : UInt32) : Outputstream := ⟨0, maxmem⟩

/-- What `outputstream_write` is told: whether the two allocations succeed, and what `uv_write` returns. -/
structure WriteReplies where
  data : Bool
  req : Bool
  uvWrite : Int

/-- What `outputstream_write` returns, the stream behind it, and the request that `uv_write` has taken. -/
structure Written where
  rc : Int
  ostream : Outputstream
  started : Option WriteRequestData

/-- The test at the head of `outputstream_write`, in the arithmetic of `size_t`. -/
def Outputstream.full (ostream : Outputstream) (len : UInt64) : Bool :=
  ostream.curmem + len > ostream.maxmem.toUInt64

/-- `outputstream_write`. -/
def outputstreamWrite (ostream : Outputstream) (buffer : Nat) (len : UInt64) (env : WriteReplies) : Written :=
  if ostream.full len then ⟨-1, ostream, none⟩
  else if !env.data then ⟨-1, ostream, none⟩
  else if !env.req then ⟨-1, ostream, none⟩
  else
    let counted := { ostream with curmem := ostream.curmem + len }
    -- the length stays in the count when uv_write refuses the request
    if env.uvWrite ≠ 0 then ⟨-1, counted, none⟩
    else ⟨0, counted, some ⟨buffer, len⟩⟩

/-- `write_cb`. -/
def writeCb (ostream : Outputstream) (data : WriteRequestData) (status : Int) : Outputstream :=
  if status = -1 then ostream else { ostream with curmem := ostream.curmem - data.len }

/-! ## §2 The stream and its writes -/

/-- The stream and the writes that are in flight. -/
structure Stream where
  ostream : Outputstream
  flights : List WriteRequestData

inductive StreamStep where
  | write (buffer : Nat) (len : UInt64) (env : WriteReplies)
  | complete (i : Nat) (status : Int)

namespace Stream

def init (maxmem : UInt32) : Stream := ⟨outputstreamNew maxmem, []⟩

/-- One step: a call of `outputstream_write`, or of `write_cb` for one of the writes in flight. -/
def step (s : Stream) : StreamStep → Option Stream
  | .write buffer len env =>
      let w := outputstreamWrite s.ostream buffer len env
      some ⟨w.ostream, s.flights ++ w.started.toList⟩
  | .complete i status => s.flights[i]?.map fun data => ⟨writeCb s.ostream data status, s.flights.eraseIdx i⟩

/-- The bytes of some writes. -/
def bytes (flights : List WriteRequestData) : Nat := (flights.map fun data => data.len.toNat).sum

/-- **The account is right**: `curmem` is the number of the bytes in flight, no more than `maxmem`, and 0 when
nothing is in flight. -/
def Accounted (s : Stream) : Prop :=
  s.ostream.curmem.toNat = bytes s.flights ∧ s.ostream.curmem.toNat ≤ s.ostream.maxmem.toNat ∧
    (s.flights = [] → s.ostream.curmem = 0)

/-- **When a step keeps the account**: a write that passes the test and the allocations has a sum below 2⁶⁴,
and is taken by `uv_write` unless it is empty; a write does not end with the status -1 unless it is empty. -/
def Kept (s : Stream) : StreamStep → Prop
  | .write _ len env => s.ostream.full len = true ∨ env.data = false ∨ env.req = false ∨
      (s.ostream.curmem.toNat + len.toNat < 2 ^ 64 ∧ (env.uvWrite = 0 ∨ len = 0))
  | .complete i status => status ≠ -1 ∨ ∀ data, s.flights[i]? = some data → data.len = 0

/-! ## §3 One step -/

@[simp] theorem writeCb_maxmem {ostream : Outputstream} {data : WriteRequestData} {status : Int} :
    (writeCb ostream data status).maxmem = ostream.maxmem := by
  unfold writeCb
  split_ifs <;> rfl

/-- What `outputstream_write` does: it leaves the stream as it is, or it counts the length, and then the write
is in flight when `uv_write` takes it. -/
theorem outputstreamWrite_cases (ostream : Outputstream) (buffer : Nat) (len : UInt64) (env : WriteReplies) :
    ((ostream.full len = true ∨ env.data = false ∨ env.req = false) ∧
      outputstreamWrite ostream buffer len env = ⟨-1, ostream, none⟩) ∨
    (ostream.full len = false ∧ env.data = true ∧ env.req = true ∧
      outputstreamWrite ostream buffer len env = ⟨if env.uvWrite = 0 then 0 else -1,
        { ostream with curmem := ostream.curmem + len }, if env.uvWrite = 0 then some ⟨buffer, len⟩
        else none⟩) := by
  by_cases hfull : ostream.full len = true
  · exact Or.inl ⟨Or.inl hfull, by simp [outputstreamWrite, hfull]⟩
  · rw [Bool.not_eq_true] at hfull
    by_cases hdata : env.data = true
    · by_cases hreq : env.req = true
      · refine Or.inr ⟨hfull, hdata, hreq, ?_⟩
        by_cases huv : env.uvWrite = 0 <;> simp [outputstreamWrite, hfull, hdata, hreq, huv]
      · rw [Bool.not_eq_true] at hreq
        exact Or.inl ⟨Or.inr (Or.inr hreq), by simp [outputstreamWrite, hfull, hdata, hreq]⟩
    · rw [Bool.not_eq_true] at hdata
      exact Or.inl ⟨Or.inr (Or.inl hdata), by simp [outputstreamWrite, hfull, hdata]⟩

theorem full_eq_false {ostream : Outputstream} {len : UInt64} :
    ostream.full len = false ↔ (ostream.curmem.toNat + len.toNat) % 2 ^ 64 ≤ ostream.maxmem.toNat := by
  simp [Outputstream.full, UInt64.le_iff_toNat_le]

theorem bytes_append {fs fs' : List WriteRequestData} : bytes (fs ++ fs') = bytes fs + bytes fs' := by
  simp [bytes]

theorem bytes_eraseIdx {fs : List WriteRequestData} {i : Nat} {data : WriteRequestData}
    (h : fs[i]? = some data) :
    data.len.toNat + bytes (fs.eraseIdx i) = bytes fs := by
  obtain ⟨hi, rfl⟩ := List.getElem?_eq_some_iff.mp h
  have hperm := (List.getElem_cons_eraseIdx_perm hi).map fun data => data.len.toNat
  simpa [bytes] using hperm.sum_eq

/-- The third part of the account follows from the first. -/
theorem accounted_iff {s : Stream} :
    s.Accounted ↔ s.ostream.curmem.toNat = bytes s.flights ∧
      s.ostream.curmem.toNat ≤ s.ostream.maxmem.toNat := by
  constructor
  · rintro ⟨hsum, hmax, -⟩
    exact ⟨hsum, hmax⟩
  · rintro ⟨hsum, hmax⟩
    refine ⟨hsum, hmax, ?_⟩
    intro hnil
    apply UInt64.toNat_inj.mp
    rw [hsum, hnil]
    rfl

theorem init_accounted {maxmem : UInt32} : (init maxmem).Accounted :=
  accounted_iff.mpr ⟨rfl, Nat.zero_le _⟩

/-- A write, on a stream whose account is right. -/
theorem write_accounted_iff {s s' : Stream} {buffer : Nat} {len : UInt64} {env : WriteReplies}
    (hs : s.Accounted) (h : s.step (.write buffer len env) = some s') :
    s'.Accounted ↔ s.Kept (.write buffer len env) := by
  obtain ⟨hsum, hmax⟩ := accounted_iff.mp hs
  have hlt := len.toNat_lt
  obtain rfl := Option.some.inj h
  rw [accounted_iff]
  rcases outputstreamWrite_cases s.ostream buffer len env with ⟨hquit, hw⟩ | ⟨hfull, hdata, hreq, hw⟩
  · -- the stream is as it was
    simp only [hw, Option.toList_none, List.append_nil, Kept]
    constructor
    · intro _
      rcases hquit with hq | hq | hq <;> simp [hq]
    · intro _
      exact ⟨hsum, hmax⟩
  · have hle := full_eq_false.mp hfull
    have hmem : (s.ostream.curmem + len).toNat = (s.ostream.curmem.toNat + len.toNat) % 2 ^ 64 :=
      UInt64.toNat_add ..
    have hzero : len = 0 ↔ len.toNat = 0 := by rw [← UInt64.toNat_inj]; rfl
    have hmax32 := s.ostream.maxmem.toNat_lt
    simp only [hw, hfull, hdata, hreq, Kept, hmem, hzero, Bool.false_eq_true, Bool.true_eq_false, false_or]
    by_cases huv : env.uvWrite = 0
    · -- the length is counted and the write is in flight
      have hone : bytes [⟨buffer, len⟩] = len.toNat := by simp [bytes]
      simp only [huv, if_true, Option.toList_some, bytes_append, hone, true_or, and_true]
      omega
    · -- the length is counted and nothing is in flight
      simp only [huv, if_false, Option.toList_none, List.append_nil, false_or]
      omega

/-- The end of a write, on a stream whose account is right. -/
theorem complete_accounted_iff {s s' : Stream} {i : Nat} {status : Int} (hs : s.Accounted)
    (h : s.step (.complete i status) = some s') : s'.Accounted ↔ s.Kept (.complete i status) := by
  obtain ⟨hsum, hmax⟩ := accounted_iff.mp hs
  obtain ⟨data, hdata, rfl⟩ := Option.map_eq_some_iff.mp h
  have herase := bytes_eraseIdx hdata
  have hzero : data.len = 0 ↔ data.len.toNat = 0 := by rw [← UInt64.toNat_inj]; rfl
  simp only [accounted_iff, Kept, hdata, Option.some.injEq, forall_eq', writeCb_maxmem, hzero]
  by_cases hst : status = -1
  · -- `write_cb` returns before it counts the write off
    subst hst
    have hmem : (writeCb s.ostream data (-1)).curmem = s.ostream.curmem := by simp [writeCb]
    simp only [hmem, ne_eq, not_true, false_or]
    omega
  · have hle : data.len ≤ s.ostream.curmem := UInt64.le_iff_toNat_le.mpr (by omega)
    have hmem : (writeCb s.ostream data status).curmem.toNat = s.ostream.curmem.toNat - data.len.toNat := by
      simp only [writeCb, if_neg hst]
      exact UInt64.toNat_sub_of_le _ _ hle
    simp only [hmem, hst, not_false_eq_true, true_or, ne_eq, iff_true]
    omega

/-- A step from a state whose account is right leads to one whose account is right just when it keeps the
account. -/
theorem step_accounted_iff {s s' : Stream} {l : StreamStep} (hs : s.Accounted) (h : s.step l = some s') :
    s'.Accounted ↔ s.Kept l := by
  cases l with
  | write buffer len env => exact write_accounted_iff hs h
  | complete i status => exact complete_accounted_iff hs h

/-! ## §4 Whole runs -/

/-- **The account of a stream is right in every state of a run just when every step of the run keeps it.** -/
theorem write_account_iff {maxmem : UInt32} {steps : List StreamStep} :
    Always step Accounted (init maxmem) steps ↔ Along step (fun s l _ => s.Kept l) (init maxmem) steps := by
  apply always_iff_along
  · intro s l s' hs hkept hst
    exact (step_accounted_iff hs hst).mpr hkept
  · intro s l s' hs hst hs'
    exact (step_accounted_iff hs hst).mp hs'
  · exact init_accounted

/-- A write of 100 bytes that `uv_write` refuses with `EPIPE`: 100 bytes stay in the count, and nothing is in
flight. -/
theorem refused_write_stays_counted :
    ¬ ∀ (maxmem : UInt32) (steps : List StreamStep), Always step Accounted (init maxmem) steps := by
  intro h
  have hacc := (h 1048576 [.write 0 100 ⟨true, true, -32⟩]).2 ⟨⟨100, 1048576⟩, []⟩ rfl
  exact absurd hacc.1.1 (by decide)

end Stream

end SploneBox
