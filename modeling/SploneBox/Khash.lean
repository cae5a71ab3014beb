/-
# SploneBox.Khash — the hash tables of `khash.h`.

A table keeps two bits, a key and a value for each bucket. `kh_get` and `kh_put` walk over the buckets;
`kh_resize` moves the entries within the arrays, and an entry that stands where another one is put goes on
from there. What `malloc` and `realloc` give is an argument. The walks and what they find out are those of
`SploneBox.Lib.OpenAddressing`: `slots` reads a table as one of that library, `WF` is the invariant between
two calls of `hashmap.c`, and `WF.resized` says that moving the entries keeps them all.
-/
import SploneBox.Lib.OpenAddressing
import Mathlib.Algebra.Order.Group.Nat

namespace SploneBox

/-- `kroundup32`. -/
def kroundup32 (x : UInt32) : UInt32 :=
  let x := x - 1
  let x := x ||| (x >>> 1)
  let x := x ||| (x >>> 2)
  let x := x ||| (x >>> 4)
  let x := x ||| (x >>> 8)
  let x := x ||| (x >>> 16)
  x + 1

/-- `(khint_t)(n * __ac_HASH_UPPER + 0.5)`. -/
def upperBound (n : Nat) : Nat := (n * 77 + 50) / 100

namespace Khash

set_option linter.unusedSectionVars false

open Lib.OpenAddressing

/-! ## §1 Tables -/

/-- The two bits of a bucket in `flags`. -/
structure Flag where
  empty : Bool
  del : Bool
deriving DecidableEq

/-- `0xaa` is four of them. -/
def Flag.unused : Flag := ⟨true, false⟩

/-- `kh_##name##_t`; what was never written in an array is `none`. -/
structure Table (K V : Type) where
  nBuckets : Nat
  size : Nat
  nOccupied : Nat
  upperBound : Nat
  flags : List Flag
  keys : List (Option K)
  vals : List (Option V)

/-- What `malloc` and `realloc` give in `kh_resize`. -/
structure Alloc where
  flags : Bool
  keys : Bool
  vals : Bool

variable {K V : Type}

/-- `__ac_isempty`. -/
def isempty (flags : List Flag) (i : Nat) : Bool := (flags.getD i Flag.unused).empty

/-- `__ac_isdel`. -/
def isdel (flags : List Flag) (i : Nat) : Bool := (flags.getD i Flag.unused).del

/-- `__ac_iseither`. -/
def iseither (flags : List Flag) (i : Nat) : Bool := isempty flags i || isdel flags i

/-- `__ac_set_isdel_true`. -/
def setIsdelTrue (flags : List Flag) (i : Nat) : List Flag := flags.modify i fun f => { f with del := true }

/-- `__ac_set_isempty_false`. -/
def setIsemptyFalse (flags : List Flag) (i : Nat) : List Flag :=
  flags.modify i fun f => { f with empty := false }

/-- `__ac_set_isboth_false`. -/
def setIsbothFalse (flags : List Flag) (i : Nat) : List Flag := flags.modify i fun _ => ⟨false, false⟩

/-- `krealloc`. -/
def realloc {α : Type} (l : List (Option α)) (n : Nat) : List (Option α) :=
  l.take n ++ List.replicate (n - l.length) none

/-- `kh_init`. -/
def init : Table K V := ⟨0, 0, 0, 0, [], [], []⟩

/-- `kh_clear`. -/
def clear (h : Table K V) : Table K V :=
  if h.flags = [] then h
  else { h with flags := h.flags.map fun _ => Flag.unused, size := 0, nOccupied := 0 }

section Functions

variable [DecidableEq K]

/-- The condition of the loops of `kh_get` and `kh_put`. -/
def goesOn (h : Table K V) (key : K) (i : Nat) : Bool :=
  !isempty h.flags i && (isdel h.flags i || h.keys.getD i none ≠ some key)

/-- The loop of `kh_get`, and what is returned behind it. -/
def getLoop (h : Table K V) (key : K) (last : Nat) : Nat → Nat → Nat → Nat
  | 0, i, _ => i
  | fuel + 1, i, step =>
      if goesOn h key i then
        let i := (i + (step + 1)) &&& (h.nBuckets - 1)
        if i = last then h.nBuckets else getLoop h key last fuel i (step + 1)
      else if iseither h.flags i then h.nBuckets else i

/-- The loop of `kh_put`: `x`, `i` and `site`. -/
def putLoop (h : Table K V) (key : K) (last : Nat) : Nat → Nat → Nat → Nat → Nat × Nat × Nat
  | 0, i, _, site => (h.nBuckets, i, site)
  | fuel + 1, i, step, site =>
      if goesOn h key i then
        let site := if isdel h.flags i then i else site
        let i := (i + (step + 1)) &&& (h.nBuckets - 1)
        if i = last then (site, i, site) else putLoop h key last fuel i (step + 1) site
      else (h.nBuckets, i, site)

variable (hash : K → UInt32)

/-- `kh_get`. A walk that meets no empty bucket is back at the first one after `2 * n_buckets` steps. -/
def get (h : Table K V) (key : K) : Nat :=
  if h.nBuckets ≠ 0 then
    let i := (hash key).toNat &&& (h.nBuckets - 1)
    getLoop h key i (2 * h.nBuckets) i 0
  else 0

/-- The bucket that `kh_put` takes. -/
def putBucket (h : Table K V) (key : K) : Nat :=
  let i := (hash key).toNat &&& (h.nBuckets - 1)
  if isempty h.flags i then i
  else
    let r := putLoop h key i (2 * h.nBuckets) i 0 h.nBuckets
    if r.1 = h.nBuckets then
      if isempty h.flags r.2.1 && r.2.2 ≠ h.nBuckets then r.2.2 else r.2.1
    else r.1

/-- The state of `kh_resize` while it moves entries. -/
structure Rehash (K V : Type) where
  flags : List Flag
  newFlags : List Flag
  keys : List (Option K)
  vals : List (Option V)

/-- `while (!__ac_isempty(new_flags, i)) i = (i + (++step)) & new_mask;` -/
def emptyBucket (newFlags : List Flag) (mask : Nat) : Nat → Nat → Nat → Nat
  | 0, i, _ => i
  | fuel + 1, i, step => if !isempty newFlags i then
      emptyBucket newFlags mask fuel ((i + (step + 1)) &&& mask) (step + 1) else i

/-- `while (1)`: an entry that is in the way goes on. -/
def kickOut (nBuckets mask : Nat) : Nat → Option K → Option V → Rehash K V → Rehash K V
  | 0, _, _, r => r
  | fuel + 1, key, val, r =>
      let k := (key.map fun key => (hash key).toNat).getD 0
      let i := emptyBucket r.newFlags mask (mask + 1) (k &&& mask) 0
      let newFlags := setIsemptyFalse r.newFlags i
      let keys := r.keys.set i key
      let vals := r.vals.set i val
      if i < nBuckets && !iseither r.flags i then
        kickOut nBuckets mask fuel (r.keys.getD i none) (r.vals.getD i none)
          ⟨setIsdelTrue r.flags i, newFlags, keys, vals⟩
      else { r with newFlags, keys, vals }

/-- One round of the loop over the buckets. -/
def rehashBucket (nBuckets mask : Nat) (r : Rehash K V) (j : Nat) : Rehash K V :=
  if !iseither r.flags j then
    kickOut hash nBuckets mask (nBuckets + 1) (r.keys.getD j none) (r.vals.getD j none)
      { r with flags := setIsdelTrue r.flags j }
  else r

/-- `kroundup32(new_n_buckets); if (new_n_buckets < 4) new_n_buckets = 4;` -/
def roundUp (newNBuckets : Nat) : Nat :=
  let n := (kroundup32 (UInt32.ofNat newNBuckets)).toNat
  if n < 4 then 4 else n

/-- `kh_resize`, with what it returns. -/
def resize (a : Alloc) (h : Table K V) (newNBuckets : Nat) : Table K V × Int :=
  let n := roundUp newNBuckets
  if SploneBox.upperBound n ≤ h.size then (h, 0)
  else if !a.flags then (h, -1)
  else if h.nBuckets < n && !a.keys then (h, -1)
  else
    let keys := if h.nBuckets < n then realloc h.keys n else h.keys
    if h.nBuckets < n && !a.vals then ({ h with keys }, -1)
    else
      let vals := if h.nBuckets < n then realloc h.vals n else h.vals
      let r := (List.range h.nBuckets).foldl (rehashBucket hash h.nBuckets (n - 1))
        ⟨h.flags, List.replicate n Flag.unused, keys, vals⟩
      let keys := if n < h.nBuckets then realloc r.keys n else r.keys
      let vals := if n < h.nBuckets then realloc r.vals n else r.vals
      (⟨n, h.size, h.size, SploneBox.upperBound n, r.newFlags, keys, vals⟩, 0)

/-- `h->size<<1`, in 32 bits. -/
def twice (size : Nat) : Nat := (size * 2) % 2 ^ 32

/-- The first lines of `kh_put`. -/
def grow (a : Alloc) (h : Table K V) : Table K V × Int :=
  if h.upperBound ≤ h.nOccupied then
    if twice h.size < h.nBuckets then resize hash a h (h.nBuckets - 1) else resize hash a h (h.nBuckets + 1)
  else (h, 0)

/-- The rest of `kh_put`: the bucket and `*ret`. -/
def putInto (h : Table K V) (key : K) : Table K V × Nat × Int :=
  let x := putBucket hash h key
  if isempty h.flags x then
    ({ h with
        keys := h.keys.set x (some key)
        flags := setIsbothFalse h.flags x
        size := h.size + 1
        nOccupied := h.nOccupied + 1 }, x, 1)
  else if isdel h.flags x then
    ({ h with keys := h.keys.set x (some key), flags := setIsbothFalse h.flags x, size := h.size + 1 }, x, 2)
  else (h, x, 0)

/-- `kh_put`. -/
def put (a : Alloc) (h : Table K V) (key : K) : Table K V × Nat × Int :=
  let g := grow hash a h
  if g.2 < 0 then (g.1, g.1.nBuckets, -1) else putInto hash g.1 key

/-- `kh_del`. -/
def del (h : Table K V) (x : Nat) : Table K V :=
  if x ≠ h.nBuckets && !iseither h.flags x then
    { h with flags := setIsdelTrue h.flags x, size := h.size - 1 } else h

end Functions

/-! ## §2 Flags and arrays -/

theorem getD_modify {α : Type} (l : List α) (i j : Nat) (f : α → α) (d : α) :
    (l.modify i f).getD j d = if i = j ∧ j < l.length then f (l.getD j d) else l.getD j d := by
  rw [List.getD_eq_getElem?_getD, List.getD_eq_getElem?_getD, List.getElem?_modify]
  by_cases hj : j < l.length
  · rw [List.getElem?_eq_getElem hj]
    by_cases hij : i = j
    · simp [hij, hj]
    · simp [hij]
  · rw [List.getElem?_eq_none (by omega), if_neg (fun h => hj h.2)]
    simp

theorem getD_set {α : Type} (l : List α) (i j : Nat) (x d : α) :
    (l.set i x).getD j d = if i = j ∧ j < l.length then x else l.getD j d := by
  rw [List.getD_eq_getElem?_getD, List.getD_eq_getElem?_getD, List.getElem?_set]
  by_cases hij : i = j
  · subst hij
    by_cases hi : i < l.length
    · simp [hi]
    · simp [hi]
  · simp [hij]

@[simp] theorem isempty_setIsdelTrue (flags : List Flag) (i j : Nat) :
    isempty (setIsdelTrue flags i) j = isempty flags j := by
  unfold isempty setIsdelTrue
  rw [getD_modify]
  split <;> rfl

@[simp] theorem isdel_setIsdelTrue (flags : List Flag) (i j : Nat) :
    isdel (setIsdelTrue flags i) j = (decide (i = j ∧ j < flags.length) || isdel flags j) := by
  unfold isdel setIsdelTrue
  rw [getD_modify]
  by_cases h : i = j ∧ j < flags.length
  · simp [h]
  · rw [if_neg h, decide_eq_false h, Bool.false_or]

@[simp] theorem isempty_setIsemptyFalse (flags : List Flag) (i j : Nat) :
    isempty (setIsemptyFalse flags i) j = (!decide (i = j ∧ j < flags.length) && isempty flags j) := by
  unfold isempty setIsemptyFalse
  rw [getD_modify]
  by_cases h : i = j ∧ j < flags.length
  · simp [h]
  · rw [if_neg h, decide_eq_false h, Bool.not_false, Bool.true_and]

@[simp] theorem isdel_setIsemptyFalse (flags : List Flag) (i j : Nat) :
    isdel (setIsemptyFalse flags i) j = isdel flags j := by
  unfold isdel setIsemptyFalse
  rw [getD_modify]
  split <;> rfl

@[simp] theorem isempty_setIsbothFalse (flags : List Flag) (i j : Nat) :
    isempty (setIsbothFalse flags i) j = (!decide (i = j ∧ j < flags.length) && isempty flags j) := by
  unfold isempty setIsbothFalse
  rw [getD_modify]
  by_cases h : i = j ∧ j < flags.length
  · simp [h]
  · rw [if_neg h, decide_eq_false h, Bool.not_false, Bool.true_and]

@[simp] theorem isdel_setIsbothFalse (flags : List Flag) (i j : Nat) :
    isdel (setIsbothFalse flags i) j = (!decide (i = j ∧ j < flags.length) && isdel flags j) := by
  unfold isdel setIsbothFalse
  rw [getD_modify]
  by_cases h : i = j ∧ j < flags.length
  · simp [h]
  · rw [if_neg h, decide_eq_false h, Bool.not_false, Bool.true_and]

@[simp] theorem setIsdelTrue_length (flags : List Flag) (i : Nat) :
    (setIsdelTrue flags i).length = flags.length := List.length_modify ..

@[simp] theorem setIsemptyFalse_length (flags : List Flag) (i : Nat) :
    (setIsemptyFalse flags i).length = flags.length :=
  List.length_modify ..

@[simp] theorem setIsbothFalse_length (flags : List Flag) (i : Nat) :
    (setIsbothFalse flags i).length = flags.length :=
  List.length_modify ..

theorem isempty_of_length_le {flags : List Flag} {i : Nat} (h : flags.length ≤ i) : isempty flags i = true := by
  rw [isempty, List.getD_eq_getElem?_getD, List.getElem?_eq_none h]
  rfl

@[simp] theorem isempty_unused (n i : Nat) : isempty (List.replicate n Flag.unused) i = true := by
  rw [isempty, List.getD_eq_getElem?_getD, List.getElem?_replicate]
  split <;> rfl

@[simp] theorem isdel_unused (n i : Nat) : isdel (List.replicate n Flag.unused) i = false := by
  rw [isdel, List.getD_eq_getElem?_getD, List.getElem?_replicate]
  split <;> rfl

@[simp] theorem realloc_length {α : Type} (l : List (Option α)) (n : Nat) : (realloc l n).length = n := by
  rw [realloc, List.length_append, List.length_take, List.length_replicate]
  omega

theorem realloc_getD {α : Type} (l : List (Option α)) {n i : Nat} (hi : i < n) :
    (realloc l n).getD i none = l.getD i none := by
  rw [realloc, List.getD_eq_getElem?_getD, List.getD_eq_getElem?_getD, List.getElem?_append]
  split
  · next h => rw [List.getElem?_take_of_lt hi]
  · next h =>
    rw [List.length_take] at h
    rw [List.getElem?_replicate, List.getElem?_eq_none (show l.length ≤ i by omega)]
    split <;> rfl

/-! ## §3 What a table holds -/

/-- A bucket of two arrays. -/
def slotOf (keys : List (Option K)) (vals : List (Option V)) (i : Nat) : Slot K V :=
  match keys.getD i none, vals.getD i none with
  | some k, some v => .entry k v
  | _, _ => .deleted

/-- The table, as a table of `Lib.OpenAddressing`. -/
def slots (h : Table K V) (i : Nat) : Slot K V :=
  if isempty h.flags i then .empty else if isdel h.flags i then .deleted else slotOf h.keys h.vals i

/-- The hash values as numbers. -/
abbrev code (hash : K → UInt32) (k : K) : Nat := (hash k).toNat

variable (hash : K → UInt32)

/-- **The invariant** of the tables of `hashmap.c`. -/
structure WF (h : Table K V) : Prop where
  shape : h.nBuckets = 0 ∨ ∃ m, 2 ≤ m ∧ m ≤ 31 ∧ h.nBuckets = 2 ^ m
  flags_length : h.flags.length = h.nBuckets
  keys_length : h.nBuckets ≤ h.keys.length
  vals_length : h.vals.length = h.nBuckets
  upper : h.upperBound = if h.nBuckets = 0 then 0 else SploneBox.upperBound h.nBuckets
  live : ∀ i, iseither h.flags i = false → ∃ k v, h.keys.getD i none = some k ∧ h.vals.getD i none = some v
  valid : Valid (code hash) h.nBuckets (slots h)
  size : h.size = (entries h.nBuckets (slots h)).length
  occupied : h.nOccupied = occupied h.nBuckets (slots h)
  bounded : h.nOccupied ≤ h.upperBound

variable {hash}

theorem slotOf_eq {keys : List (Option K)} {vals : List (Option V)} {i : Nat} {k : K} {v : V}
    (hk : keys.getD i none = some k) (hv : vals.getD i none = some v) : slotOf keys vals i = .entry k v := by
  rw [slotOf, hk, hv]

theorem slots_empty {h : Table K V} {i : Nat} (he : isempty h.flags i = true) : slots h i = .empty := if_pos he

theorem slots_deleted {h : Table K V} {i : Nat} (he : isempty h.flags i = false) (hd : isdel h.flags i = true) :
    slots h i = .deleted := by
  rw [slots, he, hd]
  rfl

theorem slots_live {h : Table K V} {i : Nat} (hl : iseither h.flags i = false) :
    slots h i = slotOf h.keys h.vals i := by
  rw [iseither, Bool.or_eq_false_iff] at hl
  rw [slots, hl.1, hl.2]
  rfl

/-- The three kinds of buckets. -/
theorem WF.slots_cases {h : Table K V} (hw : WF hash h) (i : Nat) :
    isempty h.flags i = true ∧ slots h i = .empty ∨
      isempty h.flags i = false ∧ isdel h.flags i = true ∧ slots h i = .deleted ∨
      isempty h.flags i = false ∧ isdel h.flags i = false ∧
        ∃ k v, h.keys.getD i none = some k ∧ h.vals.getD i none = some v ∧ slots h i = .entry k v := by
  cases he : isempty h.flags i with
  | true => exact Or.inl ⟨rfl, slots_empty he⟩
  | false =>
      cases hd : isdel h.flags i with
      | true => exact Or.inr (Or.inl ⟨rfl, rfl, slots_deleted he hd⟩)
      | false =>
          have hl : iseither h.flags i = false := by rw [iseither, he, hd, Bool.or_false]
          obtain ⟨k, v, hk, hv⟩ := hw.live i hl
          exact Or.inr (Or.inr ⟨rfl, rfl, k, v, hk, hv, (slots_live hl).trans (slotOf_eq hk hv)⟩)

theorem upperBound_lt {n : Nat} (hn : 4 ≤ n) : SploneBox.upperBound n < n := by
  unfold SploneBox.upperBound
  omega

/-- There is always an empty bucket. -/
theorem WF.hole {h : Table K V} (hw : WF hash h) {m : Nat} (hm : 2 ≤ m) (hn : h.nBuckets = 2 ^ m) :
    ∃ b < 2 ^ m, slots h b = .empty := by
  have hfour : 2 ^ 2 ≤ 2 ^ m := Nat.pow_le_pow_right (by decide) hm
  have hupper := hw.upper
  rw [if_neg (by omega), hn] at hupper
  have hle := hw.bounded
  have hlt := upperBound_lt hfour
  rw [hw.occupied, hupper, hn] at hle
  exact exists_empty (by omega)

theorem WF.init : WF hash (Khash.init : Table K V) where
  shape := Or.inl rfl
  flags_length := rfl
  keys_length := le_rfl
  vals_length := rfl
  upper := rfl
  live := by
    intro i hi
    cases hi
  valid := Valid.of_empty fun b hb => absurd hb (Nat.not_lt_zero b)
  size := rfl
  occupied := rfl
  bounded := le_rfl

/-! ## §4 Walks -/

theorem mask_probe (k m : Nat) : k &&& (2 ^ m - 1) = probe (2 ^ m) k 0 := Nat.and_two_pow_sub_one_eq_mod k m

theorem mask_step (k m s : Nat) : (probe (2 ^ m) k s + (s + 1)) &&& (2 ^ m - 1) = probe (2 ^ m) k (s + 1) := by
  rw [Nat.and_two_pow_sub_one_eq_mod, probe_succ]

variable [DecidableEq K]

/-- The loops go on where a walk does not stop. -/
theorem WF.goesOn_iff {h : Table K V} (hw : WF hash h) (key : K) (i : Nat) :
    goesOn h key i = true ↔ ¬ Stops (slots h) key i := by
  unfold goesOn Stops
  rcases hw.slots_cases i with ⟨he, hs⟩ | ⟨he, hd, hs⟩ | ⟨he, hd, k, v, hk, hv, hs⟩
  · simp [he, hs]
  · simp [he, hd, hs]
  · rw [he, hd, hk, hs]
    simp

/-- The loop of `kh_get` comes to where the walk stops. -/
theorem getLoop_eq {h : Table K V} (hw : WF hash h) {m : Nat} (hn : h.nBuckets = 2 ^ m) {key : K} {s₀ : Nat}
    (hs₀ : s₀ < 2 ^ m) (hstop : Stops (slots h) key (probe (2 ^ m) (code hash key) s₀))
    (hfirst : ∀ r < s₀, ¬ Stops (slots h) key (probe (2 ^ m) (code hash key) r)) :
    ∀ fuel s, s ≤ s₀ → s₀ - s < fuel →
      getLoop h key (probe (2 ^ m) (code hash key) 0) fuel (probe (2 ^ m) (code hash key) s) s =
      if iseither h.flags (probe (2 ^ m) (code hash key) s₀) then h.nBuckets
        else probe (2 ^ m) (code hash key) s₀ := by
  intro fuel
  induction fuel with
  | zero => exact fun s _ hfuel => absurd hfuel (Nat.not_lt_zero _)
  | succ fuel ih =>
      intro s hs hfuel
      rw [getLoop]
      rcases Nat.eq_or_lt_of_le hs with rfl | hlt
      · rw [if_neg fun hon => (hw.goesOn_iff key _).mp hon hstop]
      · have hback : probe (2 ^ m) (code hash key) (s + 1) ≠ probe (2 ^ m) (code hash key) 0 := by
          intro heq
          exact absurd (probe_injective (by omega) (Nat.two_pow_pos m) heq) (Nat.succ_ne_zero s)
        have hstep : (probe (2 ^ m) (code hash key) s + (s + 1)) &&& (h.nBuckets - 1) =
            probe (2 ^ m) (code hash key) (s + 1) := by
          rw [hn, mask_step]
        rw [if_pos ((hw.goesOn_iff key _).mpr (hfirst s hlt)), hstep]
        dsimp only
        rw [if_neg hback]
        exact ih (s + 1) (by omega) (by omega)

/-- **What `kh_get` returns**: the bucket of the key's entry, or `kh_end` where there is none. -/
theorem WF.get_cases {h : Table K V} (hw : WF hash h) (key : K) :
    (∃ v, get hash h key < h.nBuckets ∧ slots h (get hash h key) = .entry key v ∧
      (key, v) ∈ entries h.nBuckets (slots h)) ∨
      get hash h key = h.nBuckets ∧ ∀ v, (key, v) ∉ entries h.nBuckets (slots h) := by
  rcases hw.shape with hzero | ⟨m, hm, -, hn⟩
  · refine Or.inr ⟨?_, fun v hmem => ?_⟩
    · rw [get, if_neg (not_not.mpr hzero), hzero]
    · obtain ⟨b, hb, -⟩ := mem_entries.mp hmem
      omega
  · obtain ⟨s₀, hs₀, hstop, hfirst⟩ := exists_stop (code hash) (hw.hole hm hn) key
    have hpos := Nat.two_pow_pos m
    have hget : get hash h key = if iseither h.flags (probe (2 ^ m) (code hash key) s₀) then h.nBuckets
        else probe (2 ^ m) (code hash key) s₀ := by
      have hstart : (hash key).toNat &&& (h.nBuckets - 1) = probe (2 ^ m) (code hash key) 0 := by
        rw [hn, mask_probe]
      rw [get, if_pos (by omega), hstart]
      exact getLoop_eq hw hn hs₀ hstop hfirst (2 * h.nBuckets) 0 (Nat.zero_le _) (by omega)
    have hlookup := hw.valid.lookup (s := s₀) (k := key) (by omega)
    rw [hn] at hlookup
    rw [hget, hn]
    rcases hlookup hstop hfirst with ⟨v, hv, hmem⟩ | ⟨hempty, hnone⟩
    · have hlive : iseither h.flags (probe (2 ^ m) (code hash key) s₀) = false := by
        rcases hw.slots_cases (probe (2 ^ m) (code hash key) s₀) with ⟨-, hs⟩ | ⟨-, -, hs⟩ | ⟨he, hd, -⟩
        · rw [hs] at hv
          cases hv
        · rw [hs] at hv
          cases hv
        · rw [iseither, he, hd, Bool.or_false]
      rw [hlive, if_neg Bool.false_ne_true]
      exact Or.inl ⟨v, probe_lt hpos _ _, hv, hmem⟩
    · have heither : iseither h.flags (probe (2 ^ m) (code hash key) s₀) = true := by
        rcases hw.slots_cases (probe (2 ^ m) (code hash key) s₀) with ⟨he, -⟩ | ⟨-, -, hs⟩ |
          ⟨-, -, k, v, -, -, hs⟩
        · rw [iseither, he, Bool.true_or]
        · rw [hs] at hempty
          cases hempty
        · rw [hs] at hempty
          cases hempty
      rw [heither, if_pos rfl]
      exact Or.inr ⟨rfl, hnone⟩

/-- What `kh_put` has passed: a bucket without an entry that the walk of the key reaches, or none. -/
def Site (hash : K → UInt32) (h : Table K V) (key : K) (site : Nat) : Prop :=
  site = h.nBuckets ∨
    site < h.nBuckets ∧ slots h site = .deleted ∧ Reaches (code hash) h.nBuckets (slots h) key site

/-- The loop of `kh_put` comes to where the walk stops, with a bucket that was passed. -/
theorem putLoop_eq {h : Table K V} (hw : WF hash h) {m : Nat} (hn : h.nBuckets = 2 ^ m) {key : K} {s₀ : Nat}
    (hs₀ : s₀ < 2 ^ m) (hstop : Stops (slots h) key (probe (2 ^ m) (code hash key) s₀))
    (hfirst : ∀ r < s₀, ¬ Stops (slots h) key (probe (2 ^ m) (code hash key) r)) :
    ∀ fuel s site, s ≤ s₀ → s₀ - s < fuel → Site hash h key site → ∃ site', Site hash h key site' ∧
      putLoop h key (probe (2 ^ m) (code hash key) 0) fuel (probe (2 ^ m) (code hash key) s) s site =
        (h.nBuckets, probe (2 ^ m) (code hash key) s₀, site') := by
  intro fuel
  induction fuel with
  | zero => exact fun s _ _ hfuel => absurd hfuel (Nat.not_lt_zero _)
  | succ fuel ih =>
      intro s site hs hfuel hsite
      rw [putLoop]
      rcases Nat.eq_or_lt_of_le hs with rfl | hlt
      · rw [if_neg fun hon => (hw.goesOn_iff key _).mp hon hstop]
        exact ⟨site, hsite, rfl⟩
      · have hback : probe (2 ^ m) (code hash key) (s + 1) ≠ probe (2 ^ m) (code hash key) 0 := by
          intro heq
          exact absurd (probe_injective (by omega) (Nat.two_pow_pos m) heq) (Nat.succ_ne_zero s)
        have hstep : (probe (2 ^ m) (code hash key) s + (s + 1)) &&& (h.nBuckets - 1) =
            probe (2 ^ m) (code hash key) (s + 1) := by
          rw [hn, mask_step]
        have hpassed : Site hash h key (if isdel h.flags (probe (2 ^ m) (code hash key) s) then
            probe (2 ^ m) (code hash key) s else site) := by
          rcases hw.slots_cases (probe (2 ^ m) (code hash key) s) with ⟨-, hempty⟩ |
            ⟨-, hd, hdeleted⟩ | ⟨-, hd, -⟩
          · exact absurd (Or.inl hempty) (hfirst s hlt)
          · rw [if_pos hd]
            refine Or.inr ⟨by rw [hn]; exact probe_lt (Nat.two_pow_pos m) _ _, hdeleted, s, by rw [hn],
              fun r hr hr' => ?_⟩
            rw [hn] at hr'
            exact hfirst r (hr.trans hlt) (Or.inl hr')
          · rw [if_neg (by simp [hd])]
            exact hsite
        rw [if_pos ((hw.goesOn_iff key _).mpr (hfirst s hlt)), hstep]
        dsimp only
        rw [if_neg hback]
        exact ih (s + 1) _ (by omega) (by omega) hpassed

/-- **The bucket that `kh_put` takes**: that of the key's entry, or one without an entry that the walk of the
key reaches. -/
theorem WF.putBucket_cases {h : Table K V} (hw : WF hash h) {m : Nat} (hm : 2 ≤ m)
    (hn : h.nBuckets = 2 ^ m) (key : K) :
    putBucket hash h key < h.nBuckets ∧
      ((∃ v, slots h (putBucket hash h key) = .entry key v) ∨
        (slots h (putBucket hash h key)).pair? = none ∧
        Reaches (code hash) h.nBuckets (slots h) key (putBucket hash h key) ∧
          ∀ v, (key, v) ∉ entries h.nBuckets (slots h)) := by
  have hpos := Nat.two_pow_pos m
  obtain ⟨s₀, hs₀, hstop, hfirst⟩ := exists_stop (code hash) (hw.hole hm hn) key
  have hlookup := hw.valid.lookup (s := s₀) (k := key) (by omega)
  rw [hn] at hlookup
  have hstart : (hash key).toNat &&& (h.nBuckets - 1) = probe (2 ^ m) (code hash key) 0 := by
    rw [hn, mask_probe]
  obtain ⟨site, hsite, hloop⟩ :=
    putLoop_eq hw hn hs₀ hstop hfirst (2 * h.nBuckets) 0 h.nBuckets (Nat.zero_le _) (by omega) (Or.inl rfl)
  have hreach : Reaches (code hash) h.nBuckets (slots h) key (probe (2 ^ m) (code hash key) s₀) := by
    refine ⟨s₀, by rw [hn], fun r hr hr' => ?_⟩
    rw [hn] at hr'
    exact hfirst r hr (Or.inl hr')
  have hlt : probe (2 ^ m) (code hash key) s₀ < h.nBuckets := by
    rw [hn]
    exact probe_lt hpos _ _
  unfold putBucket
  dsimp only
  rw [hstart]
  cases he : isempty h.flags (probe (2 ^ m) (code hash key) 0) with
  | true =>
      -- the walk stops at its first bucket
      have hzero : s₀ = 0 := by
        by_contra hne
        exact hfirst 0 (Nat.pos_of_ne_zero hne) (Or.inl (slots_empty he))
      subst hzero
      rw [if_pos rfl]
      refine ⟨hlt, ?_⟩
      rcases hlookup hstop hfirst with ⟨v, hv, -⟩ | ⟨hempty, hnone⟩
      · exact Or.inl ⟨v, hv⟩
      · exact Or.inr ⟨by rw [hempty]; rfl, hreach, hn ▸ hnone⟩
  | false =>
      rw [if_neg Bool.false_ne_true, hloop]
      dsimp only
      rw [if_pos rfl]
      rcases hlookup hstop hfirst with ⟨v, hv, -⟩ | ⟨hempty, hnone⟩
      · have hfull : isempty h.flags (probe (2 ^ m) (code hash key) s₀) = false := by
          rcases hw.slots_cases (probe (2 ^ m) (code hash key) s₀) with ⟨-, hs⟩ | ⟨he, -⟩ | ⟨he, -⟩
          · rw [hs] at hv
            cases hv
          · exact he
          · exact he
        rw [hfull, Bool.false_and, if_neg Bool.false_ne_true]
        exact ⟨hlt, Or.inl ⟨v, hv⟩⟩
      · rw [← hn] at hnone
        split
        · next htake =>
          rw [Bool.and_eq_true, decide_eq_true_eq] at htake
          rcases hsite with hnew | ⟨hsitelt, hdeleted, hsitereach⟩
          · exact absurd hnew htake.2
          · exact ⟨hsitelt, Or.inr ⟨by rw [hdeleted]; rfl, hsitereach, hnone⟩⟩
        · exact ⟨hlt, Or.inr ⟨by rw [hempty]; rfl, hreach, hnone⟩⟩

/-! ## §5 Moving the entries -/

/-- The new table, as far as it is filled. -/
def newSlots (r : Rehash K V) (i : Nat) : Slot K V :=
  if isempty r.newFlags i then .empty else slotOf r.keys r.vals i

/-- What is left of the old table. -/
def oldSlots (r : Rehash K V) (i : Nat) : Slot K V :=
  if iseither r.flags i then .empty else slotOf r.keys r.vals i

/-- **The invariant of moving**: the entries of the two tables, which share the arrays without sharing a
bucket, and the one in hand are those there were, and the new table is valid. -/
structure Moving (hash : K → UInt32) (nBuckets n : Nat) (all : List (K × V)) (hand : List (K × V))
    (r : Rehash K V) : Prop where
  flags_length : r.flags.length = nBuckets
  newFlags_length : r.newFlags.length = n
  keys_old : nBuckets ≤ r.keys.length
  keys_new : n ≤ r.keys.length
  vals_length : r.vals.length = max nBuckets n
  clean : ∀ i, isdel r.newFlags i = false
  apart : ∀ i, isempty r.newFlags i = false → iseither r.flags i = true
  filled : ∀ i, isempty r.newFlags i = false → ∃ k v, r.keys.getD i none = some k ∧ r.vals.getD i none = some v
  left : ∀ i, iseither r.flags i = false → ∃ k v, r.keys.getD i none = some k ∧ r.vals.getD i none = some v
  valid : Valid (code hash) n (newSlots r)
  perm : (entries n (newSlots r) ++ entries nBuckets (oldSlots r) ++ hand).Perm all

theorem iseither_of_length_le {flags : List Flag} {i : Nat} (h : flags.length ≤ i) :
    iseither flags i = true := by
  rw [iseither, isempty_of_length_le h, Bool.true_or]

theorem iseither_setIsdelTrue (flags : List Flag) {i : Nat} (hi : i < flags.length) (j : Nat) :
    iseither (setIsdelTrue flags i) j = (decide (i = j) || iseither flags j) := by
  by_cases hij : i = j
  · subst hij
    simp [iseither, hi]
  · simp [iseither, hij]

/-- The loop over the new flags comes to the first empty bucket. -/
theorem emptyBucket_eq {newFlags : List Flag} {m k s₀ : Nat}
    (hempty : isempty newFlags (probe (2 ^ m) k s₀) = true)
    (hfirst : ∀ r < s₀, isempty newFlags (probe (2 ^ m) k r) = false) :
    ∀ fuel s, s ≤ s₀ → s₀ - s < fuel → emptyBucket newFlags (2 ^ m - 1) fuel (probe (2 ^ m) k s) s =
      probe (2 ^ m) k s₀ := by
  intro fuel
  induction fuel with
  | zero => exact fun s _ hfuel => absurd hfuel (Nat.not_lt_zero _)
  | succ fuel ih =>
      intro s hs hfuel
      rw [emptyBucket]
      rcases Nat.eq_or_lt_of_le hs with rfl | hlt
      · rw [hempty]
        rfl
      · rw [hfirst s hlt, if_pos (by rfl), mask_step]
        exact ih (s + 1) (by omega) (by omega)

variable {hash : K → UInt32} {nBuckets n : Nat} {all hand : List (K × V)} {r : Rehash K V}

theorem Moving.vals_new (h : Moving hash nBuckets n all hand r) : n ≤ r.vals.length :=
  (le_max_right _ _).trans_eq h.vals_length.symm

theorem Moving.newSlots_cases (h : Moving hash nBuckets n all hand r) (i : Nat) :
    isempty r.newFlags i = true ∧ newSlots r i = .empty ∨ isempty r.newFlags i = false ∧
      ∃ k v, newSlots r i = .entry k v := by
  cases he : isempty r.newFlags i with
  | true => exact Or.inl ⟨rfl, if_pos he⟩
  | false =>
      obtain ⟨k, v, hk, hv⟩ := h.filled i he
      refine Or.inr ⟨rfl, k, v, ?_⟩
      rw [newSlots, he, if_neg Bool.false_ne_true, slotOf_eq hk hv]

/-- There is room in the new table while it holds fewer entries than buckets. -/
theorem Moving.place {m : Nat} (h : Moving hash nBuckets (2 ^ m) all hand r)
    (hroom : (entries (2 ^ m) (newSlots r)).length < 2 ^ m) (k : K) :
    ∃ i < 2 ^ m, emptyBucket r.newFlags (2 ^ m - 1) (2 ^ m) (code hash k &&& (2 ^ m - 1)) 0 = i ∧
      isempty r.newFlags i = true ∧
      Reaches (code hash) (2 ^ m) (newSlots r) k i := by
  have hnone : ∀ b < 2 ^ m, newSlots r b ≠ .deleted := by
    intro b _ hb
    rcases h.newSlots_cases b with ⟨-, hs⟩ | ⟨-, k, v, hs⟩
    · rw [hs] at hb
      cases hb
    · rw [hs] at hb
      cases hb
  have hopen : ∀ b, newSlots r b = .empty → isempty r.newFlags b = true := by
    intro b hb
    rcases h.newSlots_cases b with ⟨he, -⟩ | ⟨-, k, v, hs⟩
    · exact he
    · rw [hs] at hb
      cases hb
  classical
  obtain ⟨b, hb, hempty⟩ := exists_empty (n := 2 ^ m) (t := newSlots r) (by rwa [occupied_eq_length hnone])
  obtain ⟨s, hs, rfl⟩ := probe_surjective (code hash k) hb
  have hex : ∃ s, isempty r.newFlags (probe (2 ^ m) (code hash k) s) = true := ⟨s, hopen _ hempty⟩
  have hlt : Nat.find hex < 2 ^ m := (Nat.find_min' hex (hopen _ hempty)).trans_lt hs
  refine ⟨probe (2 ^ m) (code hash k) (Nat.find hex), probe_lt (Nat.two_pow_pos m) _ _, ?_, Nat.find_spec hex,
    Nat.find hex, rfl, ?_⟩
  · rw [mask_probe]
    exact emptyBucket_eq (Nat.find_spec hex) (fun r' hr' => Bool.eq_false_iff.mpr (Nat.find_min hex hr'))
      (2 ^ m) 0 (Nat.zero_le _) (by omega)
  · intro r' hr' hclosed
    exact Nat.find_min hex hr' (hopen _ hclosed)

/-- What writing into bucket `i` makes of the two tables. -/
theorem slotOf_set (r : Rehash K V) {i : Nat} (hk : i < r.keys.length) (hv : i < r.vals.length) (k : K)
    (v : V) (j : Nat) :
    slotOf (r.keys.set i (some k)) (r.vals.set i (some v)) j = if i = j then .entry k v
      else slotOf r.keys r.vals j := by
  unfold slotOf
  rw [getD_set, getD_set]
  by_cases hij : i = j
  · subst hij
    simp [hk, hv]
  · simp [hij]

/-- The arrays after an entry was put down in bucket `i`. -/
def putDown (r : Rehash K V) (flags : List Flag) (i : Nat) (k : K) (v : V) : Rehash K V :=
  ⟨flags, setIsemptyFalse r.newFlags i, r.keys.set i (some k), r.vals.set i (some v)⟩

/-- The new table has the entry, and is otherwise as it was. -/
theorem newSlots_putDown {i : Nat} (hi : i < r.newFlags.length) (hk : i < r.keys.length)
    (hv : i < r.vals.length) (flags : List Flag) (k : K) (v : V) :
    newSlots (putDown r flags i k v) = Function.update (newSlots r) i (.entry k v) := by
  funext j
  unfold newSlots putDown
  dsimp only
  rw [isempty_setIsemptyFalse, slotOf_set r hk hv]
  by_cases hij : i = j
  · subst hij
    rw [Function.update_self, decide_eq_true ⟨rfl, hi⟩, if_pos rfl]
    rfl
  · rw [Function.update_of_ne (Ne.symm hij), if_neg hij, decide_eq_false (fun hc => hij hc.1), Bool.not_false,
      Bool.true_and]

/-- The old table has lost the bucket. -/
theorem oldSlots_putDown {i : Nat} (hk : i < r.keys.length) (hv : i < r.vals.length) {flags : List Flag}
    (hflags : ∀ j, iseither flags j = (decide (i = j) || iseither r.flags j)) (k : K) (v : V) :
    oldSlots (putDown r flags i k v) = Function.update (oldSlots r) i .empty := by
  funext j
  unfold oldSlots putDown
  dsimp only
  rw [hflags, slotOf_set r hk hv]
  by_cases hij : i = j
  · subst hij
    rw [Function.update_self, decide_eq_true rfl, Bool.true_or, if_pos rfl]
  · rw [Function.update_of_ne (Ne.symm hij), if_neg hij, decide_eq_false hij, Bool.false_or]

/-- **One turn of `while (1)`**: the entry in hand is put down, and what stood there is in hand. -/
theorem Moving.turn {m i : Nat} {k : K} {v : V} (h : Moving hash nBuckets (2 ^ m) all [(k, v)] r)
    (flags : List Flag) (hi : i < 2 ^ m) (hempty : isempty r.newFlags i = true)
    (hreach : Reaches (code hash) (2 ^ m) (newSlots r) k i) (hall : (all.map Prod.fst).Nodup)
    (hlength : flags.length = nBuckets)
    (hflags : ∀ j, iseither flags j = (decide (i = j) || iseither r.flags j)) :
    Moving hash nBuckets (2 ^ m) all (oldSlots r i).pair?.toList (putDown r flags i k v) := by
  have hik := hi.trans_le h.keys_new
  have hiv := hi.trans_le h.vals_new
  have hnew := newSlots_putDown (r := r) (by rw [h.newFlags_length]; exact hi) hik hiv flags k v
  have hold := oldSlots_putDown (r := r) hik hiv hflags k v
  have hnewkey : ∀ w, (k, w) ∉ entries (2 ^ m) (newSlots r) := by
    intro w hw
    have hnodup := (h.perm.map Prod.fst).nodup_iff.mpr hall
    rw [List.map_append, List.map_append, List.append_assoc, List.nodup_append] at hnodup
    exact hnodup.2.2 k (List.mem_map.mpr ⟨_, hw, rfl⟩) k (by simp) rfl
  have hfree : (newSlots r i).pair? = none := by
    rw [newSlots, hempty, if_pos rfl]
    rfl
  obtain ⟨hvalid, hinsert⟩ := h.valid.insert hi hfree hreach hnewkey v
  have hleave : (entries nBuckets (oldSlots r)).Perm
      ((oldSlots r i).pair?.toList ++ entries nBuckets (Function.update (oldSlots r) i .empty)) := by
    by_cases hib : i < nBuckets
    · exact entries_update hib (oldSlots r) .empty
    · -- a bucket that the old table does not have
      have hnothing : oldSlots r i = .empty := if_pos (iseither_of_length_le (by rw [h.flags_length]; omega))
      rw [← hnothing, Function.update_eq_self, hnothing]
      exact List.Perm.refl _
  refine ⟨hlength, (setIsemptyFalse_length _ _).trans h.newFlags_length,
    h.keys_old.trans_eq List.length_set.symm, h.keys_new.trans_eq List.length_set.symm,
    List.length_set.trans h.vals_length, fun j =>
        (isdel_setIsemptyFalse _ _ _).trans (h.clean j), ?_, ?_, ?_, hnew ▸ hvalid, ?_⟩
  · intro j hj
    rw [putDown, isempty_setIsemptyFalse] at hj
    show iseither flags j = true
    rw [hflags]
    by_cases hij : i = j
    · rw [decide_eq_true hij, Bool.true_or]
    · rw [decide_eq_false (fun hc => hij hc.1), Bool.not_false, Bool.true_and] at hj
      rw [h.apart j hj, Bool.or_true]
  · intro j hj
    rw [putDown] at hj ⊢
    rw [getD_set, getD_set]
    by_cases hij : i = j
    · subst hij
      rw [if_pos ⟨rfl, hik⟩, if_pos ⟨rfl, hiv⟩]
      exact ⟨k, v, rfl, rfl⟩
    · rw [isempty_setIsemptyFalse, decide_eq_false (fun hc => hij hc.1), Bool.not_false, Bool.true_and] at hj
      rw [if_neg fun hc => hij hc.1, if_neg fun hc => hij hc.1]
      exact h.filled j hj
  · intro j hj
    rw [putDown] at hj ⊢
    rw [hflags, Bool.or_eq_false_iff, decide_eq_false_iff_not] at hj
    rw [getD_set, getD_set, if_neg fun hc => hj.1 hc.1, if_neg fun hc => hj.1 hc.1]
    exact h.left j hj.2
  · have hput : (entries (2 ^ m) (newSlots (putDown r flags i k v)) ++
        (entries nBuckets (oldSlots (putDown r flags i k v)) ++ (oldSlots r i).pair?.toList)).Perm
          ((k, v) :: entries (2 ^ m) (newSlots r) ++ entries nBuckets (oldSlots r)) := by
      rw [hnew, hold]
      exact hinsert.append (List.perm_append_comm.trans hleave.symm)
    rw [List.append_assoc]
    exact hput.trans ((List.perm_append_singleton _ _).symm.trans h.perm)

/-- **The loop comes to an end**: with every turn the old table has an entry less, and when none was in the
way there is none in hand. -/
theorem Moving.kickOut {m : Nat} (hroom : all.length ≤ 2 ^ m) (hall : (all.map Prod.fst).Nodup) :
    ∀ fuel (k : K) (v : V) (r : Rehash K V), Moving hash nBuckets (2 ^ m) all [(k, v)] r →
      (entries nBuckets (oldSlots r)).length < fuel →
      Moving hash nBuckets (2 ^ m) all [] (Khash.kickOut hash nBuckets (2 ^ m - 1) fuel (some k) (some v) r) ∧
        ∀ j, iseither r.flags j = true →
        iseither (Khash.kickOut hash nBuckets (2 ^ m - 1) fuel (some k) (some v) r).flags j = true := by
  intro fuel
  induction fuel with
  | zero => exact fun _ _ _ _ hfuel => absurd hfuel (Nat.not_lt_zero _)
  | succ fuel ih =>
      intro k v r h hfuel
      have hpos := Nat.two_pow_pos m
      have hcount := h.perm.length_eq
      rw [List.length_append, List.length_append, List.length_singleton] at hcount
      obtain ⟨i, hi, hbucket, hempty, hreach⟩ := h.place (by omega) k
      have hbucket' : emptyBucket r.newFlags (2 ^ m - 1) (2 ^ m - 1 + 1)
          (((some k).map fun key => (hash key).toNat).getD 0 &&& (2 ^ m - 1)) 0 = i := by
        rw [Nat.sub_add_cancel hpos]
        exact hbucket
      rw [Khash.kickOut, hbucket']
      split
      · next hkick =>
        -- an entry of the old table stands there
        rw [Bool.and_eq_true, decide_eq_true_eq, Bool.not_eq_true'] at hkick
        obtain ⟨hib, hlive⟩ := hkick
        obtain ⟨k', v', hk', hv'⟩ := h.left i hlive
        have hother : oldSlots r i = .entry k' v' := by
          rw [oldSlots, hlive, if_neg Bool.false_ne_true, slotOf_eq hk' hv']
        have hflags := iseither_setIsdelTrue r.flags (i := i) (by rw [h.flags_length]; exact hib)
        have hturn := h.turn _ hi hempty hreach hall ((setIsdelTrue_length _ _).trans h.flags_length) hflags
        rw [hother, Slot.pair?_entry, Option.toList_some] at hturn
        have hless :
            (entries nBuckets (oldSlots (putDown r (setIsdelTrue r.flags i) i k v))).length < fuel := by
          have hleave := (entries_update hib (oldSlots r) .empty).length_eq
          rw [oldSlots_putDown (hi.trans_le h.keys_new) (hi.trans_le h.vals_new) hflags]
          rw [hother, Slot.pair?_entry, Slot.pair?_empty, Option.toList_none, List.nil_append,
            Option.toList_some, List.length_append, List.length_singleton] at hleave
          omega
        obtain ⟨hmoved, hmono⟩ := ih k' v' _ hturn hless
        rw [hk', hv']
        refine ⟨hmoved, fun j hj => hmono j ?_⟩
        show iseither (setIsdelTrue r.flags i) j = true
        rw [hflags, hj, Bool.or_true]
      · next hstay =>
        have heither : iseither r.flags i = true := by
          by_cases hib : i < nBuckets
          · rw [Bool.and_eq_true, decide_eq_true_eq, Bool.not_eq_true'] at hstay
            exact Bool.eq_true_of_not_eq_false fun hlive => hstay ⟨hib, hlive⟩
          · exact iseither_of_length_le (by rw [h.flags_length]; omega)
        have hturn := h.turn r.flags hi hempty hreach hall h.flags_length fun j => by
          by_cases hij : i = j
          · rw [← hij, heither, Bool.or_true]
          · rw [decide_eq_false hij, Bool.false_or]
        rw [oldSlots, heither, if_pos rfl, Slot.pair?_empty, Option.toList_none] at hturn
        exact ⟨hturn, fun j hj => hj⟩

/-- Taking an entry of the old table in hand. -/
theorem Moving.take {j : Nat} (h : Moving hash nBuckets n all [] r) (hj : j < nBuckets)
    (hlive : iseither r.flags j = false) :
    ∃ k v, r.keys.getD j none = some k ∧ r.vals.getD j none = some v ∧
      Moving hash nBuckets n all [(k, v)] { r with flags := setIsdelTrue r.flags j } ∧
        (entries nBuckets (oldSlots { r with flags := setIsdelTrue r.flags j })).length < nBuckets + 1 := by
  obtain ⟨k, v, hk, hv⟩ := h.left j hlive
  have hflags := iseither_setIsdelTrue r.flags (i := j) (by rw [h.flags_length]; exact hj)
  have hold : oldSlots { r with flags := setIsdelTrue r.flags j } = Function.update (oldSlots r) j .empty := by
    funext i
    unfold oldSlots
    dsimp only
    rw [hflags]
    by_cases hij : j = i
    · subst hij
      rw [Function.update_self, decide_eq_true rfl, Bool.true_or, if_pos rfl]
    · rw [Function.update_of_ne (Ne.symm hij), decide_eq_false hij, Bool.false_or]
  have hleave := entries_update hj (oldSlots r) .empty
  have hentry : oldSlots r j = .entry k v := by
    rw [oldSlots, hlive, if_neg Bool.false_ne_true, slotOf_eq hk hv]
  rw [hentry, Slot.pair?_entry, Slot.pair?_empty, Option.toList_none, List.nil_append, Option.toList_some,
    List.singleton_append, ← hold] at hleave
  refine ⟨k, v, hk, hv,
    ⟨(setIsdelTrue_length _ _).trans h.flags_length, h.newFlags_length, h.keys_old, h.keys_new, h.vals_length,
      h.clean, ?_, h.filled, ?_, h.valid, ?_⟩, ?_⟩
  · intro i hi
    show iseither (setIsdelTrue r.flags j) i = true
    rw [hflags, h.apart i hi, Bool.or_true]
  · intro i hi
    rw [hflags, Bool.or_eq_false_iff] at hi
    exact h.left i hi.2
  · have hperm := h.perm
    rw [List.append_nil] at hperm
    rw [List.append_assoc]
    exact (List.Perm.append_left _ ((List.perm_append_singleton _ _).trans hleave.symm)).trans hperm
  · exact Nat.lt_succ_of_le ((List.length_filterMap_le _ _).trans_eq List.length_range)

/-- One round of the loop over the buckets: the entry of bucket `j` is moved, and no bucket of the old table
is filled. -/
theorem Moving.bucket {m j : Nat} (hroom : all.length ≤ 2 ^ m) (hall : (all.map Prod.fst).Nodup)
    (h : Moving hash nBuckets (2 ^ m) all [] r) (hj : j < nBuckets) : Moving hash nBuckets (2 ^ m) all []
    (rehashBucket hash nBuckets (2 ^ m - 1) r j) ∧
      iseither (rehashBucket hash nBuckets (2 ^ m - 1) r j).flags j = true ∧
        ∀ i, iseither r.flags i = true →
        iseither (rehashBucket hash nBuckets (2 ^ m - 1) r j).flags i = true := by
  unfold rehashBucket
  cases hlive : iseither r.flags j with
  | true =>
      rw [Bool.not_true, if_neg Bool.false_ne_true]
      exact ⟨h, hlive, fun i hi => hi⟩
  | false =>
      obtain ⟨k, v, hk, hv, htaken, hfuel⟩ := h.take hj hlive
      have hflags := iseither_setIsdelTrue r.flags (i := j) (by rw [h.flags_length]; exact hj)
      obtain ⟨hmoved, hmono⟩ := Moving.kickOut hroom hall (nBuckets + 1) k v _ htaken hfuel
      rw [Bool.not_false, if_pos rfl, hk, hv]
      refine ⟨hmoved, hmono j ?_, fun i hi => hmono i ?_⟩
      · show iseither (setIsdelTrue r.flags j) j = true
        rw [hflags, decide_eq_true rfl, Bool.true_or]
      · show iseither (setIsdelTrue r.flags j) i = true
        rw [hflags, hi, Bool.or_true]

/-- The loop over the buckets. -/
theorem Moving.buckets {m : Nat} (hroom : all.length ≤ 2 ^ m) (hall : (all.map Prod.fst).Nodup) :
    ∀ (js : List Nat) (r : Rehash K V), (∀ j ∈ js, j < nBuckets) → Moving hash nBuckets (2 ^ m) all [] r →
      Moving hash nBuckets (2 ^ m) all [] (js.foldl (rehashBucket hash nBuckets (2 ^ m - 1)) r) ∧
        (∀ j ∈ js, iseither (js.foldl (rehashBucket hash nBuckets (2 ^ m - 1)) r).flags j = true) ∧
          ∀ i, iseither r.flags i = true →
          iseither (js.foldl (rehashBucket hash nBuckets (2 ^ m - 1)) r).flags i = true := by
  intro js
  induction js with
  | nil => exact fun r _ h => ⟨h, fun j hj => absurd hj List.not_mem_nil, fun i hi => hi⟩
  | cons j js ih =>
      intro r hjs h
      obtain ⟨hmoved, hdone, hmono⟩ := h.bucket hroom hall (hjs j List.mem_cons_self)
      obtain ⟨hrest, hdone', hmono'⟩ := ih _ (fun j' hj' => hjs j' (List.mem_cons_of_mem j hj')) hmoved
      refine ⟨hrest, fun j' hj' => ?_, fun i hi => hmono' i (hmono i hi)⟩
      rcases List.mem_cons.mp hj' with rfl | hj'
      · exact hmono' _ hdone
      · exact hdone' j' hj'

/-- **Moving keeps the entries**: when the loop is through, the new table is valid and has all of them. -/
theorem Moving.done {m : Nat} (hroom : all.length ≤ 2 ^ m) (hall : (all.map Prod.fst).Nodup)
    (h : Moving hash nBuckets (2 ^ m) all [] r) :
    Moving hash nBuckets (2 ^ m) all []
      ((List.range nBuckets).foldl (rehashBucket hash nBuckets (2 ^ m - 1)) r) ∧
      (entries (2 ^ m)
        (newSlots ((List.range nBuckets).foldl (rehashBucket hash nBuckets (2 ^ m - 1)) r))).Perm all := by
  obtain ⟨hmoved, hdone, -⟩ :=
    Moving.buckets hroom hall (List.range nBuckets) r (fun j hj => List.mem_range.mp hj) h
  refine ⟨hmoved, ?_⟩
  have hnothing :
      entries nBuckets (oldSlots ((List.range nBuckets).foldl (rehashBucket hash nBuckets (2 ^ m - 1)) r)) =
        [] := by
    apply List.filterMap_eq_nil_iff.mpr
    intro j hj
    rw [oldSlots, hdone j hj, if_pos rfl]
    rfl
  have hperm := hmoved.perm
  rwa [hnothing, List.append_nil, List.append_nil] at hperm

/-- Before the loop: nothing is in the new table, and the arrays have room for both. -/
theorem WF.start {h : Table K V} (hw : WF hash h) (keys : List (Option K)) (vals : List (Option V))
    (hk : ∀ i < h.nBuckets, keys.getD i none = h.keys.getD i none)
    (hv : ∀ i < h.nBuckets, vals.getD i none = h.vals.getD i none) (hkold : h.nBuckets ≤ keys.length)
    (hknew : n ≤ keys.length) (hvals : vals.length = max h.nBuckets n) :
    Moving hash h.nBuckets n (entries h.nBuckets (slots h)) [] ⟨h.flags, List.replicate n Flag.unused,
      keys, vals⟩ := by
  have hsame : ∀ i, iseither h.flags i = false → keys.getD i none = h.keys.getD i none ∧
      vals.getD i none = h.vals.getD i none := by
    intro i hi
    have hlt : i < h.nBuckets := by
      by_contra hle
      rw [iseither_of_length_le (by rw [hw.flags_length]; omega)] at hi
      cases hi
    exact ⟨hk i hlt, hv i hlt⟩
  have hnothing : ∀ b, newSlots (⟨h.flags, List.replicate n Flag.unused, keys, vals⟩ : Rehash K V) b = .empty :=
    fun b =>
    if_pos (isempty_unused n b)
  have hold : entries h.nBuckets (oldSlots (⟨h.flags, List.replicate n Flag.unused, keys, vals⟩ : Rehash K V)) =
      entries h.nBuckets (slots h) := by
    apply List.filterMap_congr
    intro j _
    unfold oldSlots
    dsimp only
    rcases hw.slots_cases j with ⟨he, hs⟩ | ⟨he, hd, hs⟩ | ⟨he, hd, k, v, hk', hv', hs⟩
    · rw [hs, iseither, he, Bool.true_or, if_pos rfl]
    · rw [hs, iseither, he, hd, Bool.or_true, if_pos rfl]
      rfl
    · have hl : iseither h.flags j = false := by rw [iseither, he, hd, Bool.or_false]
      rw [hs, hl, if_neg Bool.false_ne_true, slotOf_eq ((hsame j hl).1.trans hk') ((hsame j hl).2.trans hv')]
  refine ⟨hw.flags_length, List.length_replicate, hkold, hknew, hvals, isdel_unused n, ?_, ?_, ?_, ?_, ?_⟩
  · intro i hi
    rw [isempty_unused] at hi
    cases hi
  · intro i hi
    rw [isempty_unused] at hi
    cases hi
  · intro i hi
    obtain ⟨k, v, hk', hv'⟩ := hw.live i hi
    exact ⟨k, v, (hsame i hi).1.trans hk', (hsame i hi).2.trans hv'⟩
  · exact Valid.of_empty fun b _ => by rw [hnothing b]; rfl
  · have hnil : entries n (newSlots (⟨h.flags, List.replicate n Flag.unused, keys, vals⟩ : Rehash K V)) = [] :=
      List.filterMap_eq_nil_iff.mpr fun b _ => by rw [hnothing b]; rfl
    rw [hnil, hold, List.nil_append, List.append_nil]

/-- Behind the loop: the new table, with arrays that are no shorter than it. -/
theorem Moving.finish {m size : Nat} (hm : 2 ≤ m) (hm' : m ≤ 31) (h : Moving hash nBuckets (2 ^ m) all [] r)
    (hperm : (entries (2 ^ m) (newSlots r)).Perm all) (hsize : all.length = size)
    (hless : size < SploneBox.upperBound (2 ^ m)) {keys : List (Option K)} {vals : List (Option V)}
    (hk : ∀ i < 2 ^ m, keys.getD i none = r.keys.getD i none)
    (hv : ∀ i < 2 ^ m, vals.getD i none = r.vals.getD i none) (hkeys : 2 ^ m ≤ keys.length)
    (hvals : vals.length = 2 ^ m) :
    WF hash (⟨2 ^ m, size, size, SploneBox.upperBound (2 ^ m), r.newFlags, keys, vals⟩ : Table K V) ∧
      (entries (2 ^ m)
        (slots (⟨2 ^ m, size, size, SploneBox.upperBound (2 ^ m), r.newFlags, keys, vals⟩ : Table K V))).Perm
        all := by
  have hslots : slots (⟨2 ^ m, size, size, SploneBox.upperBound (2 ^ m), r.newFlags, keys, vals⟩ : Table K V) =
      newSlots r := by
    funext i
    unfold slots newSlots
    dsimp only
    rw [h.clean i, if_neg Bool.false_ne_true]
    cases he : isempty r.newFlags i with
    | true => rfl
    | false =>
        have hi : i < 2 ^ m := by
          by_contra hle
          rw [isempty_of_length_le (by rw [h.newFlags_length]; omega)] at he
          cases he
        rw [if_neg Bool.false_ne_true, if_neg Bool.false_ne_true, slotOf, slotOf, hk i hi, hv i hi]
  have hnone : ∀ b < 2 ^ m, newSlots r b ≠ .deleted := by
    intro b _ hb
    rcases h.newSlots_cases b with ⟨-, hs⟩ | ⟨-, k, v, hs⟩
    · rw [hs] at hb
      cases hb
    · rw [hs] at hb
      cases hb
  have hlength := hperm.length_eq.trans hsize
  refine ⟨⟨Or.inr ⟨m, hm, hm', rfl⟩, h.newFlags_length, hkeys, hvals, ?_, ?_, ?_, ?_, ?_, hless.le⟩, ?_⟩
  · exact (if_neg (Nat.two_pow_pos m).ne').symm
  · intro i hi
    rw [iseither, Bool.or_eq_false_iff] at hi
    have hlt : i < 2 ^ m := by
      by_contra hle
      rw [isempty_of_length_le (by rw [h.newFlags_length]; omega)] at hi
      cases hi.1
    obtain ⟨k, v, hk', hv'⟩ := h.filled i hi.1
    exact ⟨k, v, (hk i hlt).trans hk', (hv i hlt).trans hv'⟩
  · rw [hslots]
    exact h.valid
  · rw [hslots]
    exact hlength.symm
  · rw [hslots, occupied_eq_length hnone]
    exact hlength.symm
  · rw [hslots]
    exact hperm

/-- An array of keys that differs behind the buckets only. -/
theorem WF.longer {h : Table K V} (hw : WF hash h) {keys : List (Option K)}
    (hk : ∀ i < h.nBuckets, keys.getD i none = h.keys.getD i none) (hkeys : h.nBuckets ≤ keys.length) :
    WF hash { h with keys } ∧ slots { h with keys } = slots h := by
  have hlt : ∀ i, isempty h.flags i = false → i < h.nBuckets := by
    intro i he
    by_contra hle
    rw [isempty_of_length_le (by rw [hw.flags_length]; omega)] at he
    cases he
  have hslots : slots { h with keys } = slots h := by
    funext i
    unfold slots
    dsimp only
    cases he : isempty h.flags i with
    | true => rfl
    | false => rw [slotOf, slotOf, hk i (hlt i he)]
  refine ⟨⟨hw.shape, hw.flags_length, hkeys, hw.vals_length, hw.upper, ?_, ?_, ?_, ?_, hw.bounded⟩, hslots⟩
  · intro i hi
    obtain ⟨k, v, hk', hv'⟩ := hw.live i hi
    rw [iseither, Bool.or_eq_false_iff] at hi
    exact ⟨k, v, (hk i (hlt i hi.1)).trans hk', hv'⟩
  · rw [hslots]
    exact hw.valid
  · rw [hslots]
    exact hw.size
  · rw [hslots]
    exact hw.occupied

/-- What becomes of a table that is to have `n` buckets: nothing, where its entries would not fit; nothing to
its entries, where there is no memory; and otherwise it has the same entries in `n` buckets, and no mark of
what was taken out. -/
def Resized (hash : K → UInt32) (h : Table K V) (n : Nat) (a : Alloc) (r : Table K V × Int) : Prop :=
  SploneBox.upperBound n ≤ h.size ∧ r = (h, 0) ∨
    (a.flags && a.keys && a.vals) = false ∧ r.2 = -1 ∧ WF hash r.1 ∧ slots r.1 = slots h ∧
    (∃ keys, r.1 = { h with keys }) ∨
    r.2 = 0 ∧ WF hash r.1 ∧ r.1.nBuckets = n ∧ r.1.size = h.size ∧ r.1.nOccupied = h.size ∧
    h.size < SploneBox.upperBound n ∧
      (entries n (slots r.1)).Perm (entries h.nBuckets (slots h))

/-- **`kh_resize` keeps the entries.** -/
theorem WF.resized {h : Table K V} (hw : WF hash h) (a : Alloc) (new : Nat) {m : Nat} (hm : 2 ≤ m)
    (hm' : m ≤ 31) (hn : roundUp new = 2 ^ m) :
    Resized hash h (2 ^ m) a (resize hash a h new) := by
  unfold resize
  dsimp only
  rw [hn]
  by_cases hsmall : SploneBox.upperBound (2 ^ m) ≤ h.size
  · rw [if_pos hsmall]
    exact Or.inl ⟨hsmall, rfl⟩
  rw [if_neg hsmall]
  cases hf : a.flags with
  | false => exact Or.inr (Or.inl ⟨by rw [hf]; rfl, rfl, hw, rfl, h.keys, rfl⟩)
  | true =>
  have hfour : 2 ^ 2 ≤ 2 ^ m := Nat.pow_le_pow_right (by decide) hm
  have hroom : (entries h.nBuckets (slots h)).length ≤ 2 ^ m := by
    have hlt := upperBound_lt hfour
    rw [← hw.size]
    omega
  rw [Bool.not_true, if_neg Bool.false_ne_true]
  by_cases hgrow : h.nBuckets < 2 ^ m
  · -- the arrays grow, and the last lines do not shrink them
    have hkeys : ∀ i < h.nBuckets, (realloc h.keys (2 ^ m)).getD i none = h.keys.getD i none :=
      fun i hi => realloc_getD _ (by omega)
    have hvals : ∀ i < h.nBuckets, (realloc h.vals (2 ^ m)).getD i none = h.vals.getD i none :=
      fun i hi => realloc_getD _ (by omega)
    have hno : ¬ 2 ^ m < h.nBuckets := by omega
    rw [decide_eq_true hgrow, Bool.true_and, Bool.true_and, if_pos hgrow, if_pos hgrow, if_neg hno, if_neg hno]
    cases hk : a.keys with
    | false => exact Or.inr (Or.inl ⟨by rw [hf, hk]; rfl, rfl, hw, rfl, h.keys, rfl⟩)
    | true =>
    rw [Bool.not_true, if_neg Bool.false_ne_true]
    cases hv : a.vals with
    | false =>
        obtain ⟨hlonger, hslots⟩ := hw.longer hkeys (by rw [realloc_length]; omega)
        exact Or.inr (Or.inl ⟨by rw [hf, hk, hv]; rfl, rfl, hlonger, hslots, _, rfl⟩)
    | true =>
    rw [Bool.not_true, if_neg Bool.false_ne_true]
    have hstart := hw.start (n := 2 ^ m) _ _ hkeys hvals (by rw [realloc_length]; omega)
        (realloc_length _ _).ge (by rw [realloc_length]; omega)
    obtain ⟨hmoved, hperm⟩ := hstart.done hroom hw.valid.nodup
    obtain ⟨hfinal, hfinalperm⟩ :=
      hmoved.finish hm hm' hperm hw.size.symm (by omega) (fun _ _ => rfl) (fun _ _ => rfl) hmoved.keys_new
      (by rw [hmoved.vals_length]; omega)
    exact Or.inr (Or.inr ⟨rfl, hfinal, rfl, rfl, rfl, by omega, hfinalperm⟩)
  · rw [decide_eq_false hgrow, Bool.false_and, Bool.false_and, if_neg Bool.false_ne_true,
      if_neg Bool.false_ne_true, if_neg hgrow, if_neg hgrow]
    have hstart := hw.start (n := 2 ^ m) h.keys h.vals (fun _ _ => rfl) (fun _ _ => rfl) hw.keys_length
      ((Nat.le_of_not_lt hgrow).trans hw.keys_length) (by rw [hw.vals_length]; omega)
    obtain ⟨hmoved, hperm⟩ := hstart.done hroom hw.valid.nodup
    by_cases hshrink : 2 ^ m < h.nBuckets
    · rw [if_pos hshrink, if_pos hshrink]
      obtain ⟨hfinal, hfinalperm⟩ :=
        hmoved.finish hm hm' hperm hw.size.symm (by omega) (fun i hi => realloc_getD _ hi)
        (fun i hi => realloc_getD _ hi) (realloc_length _ _).ge (realloc_length _ _)
      exact Or.inr (Or.inr ⟨rfl, hfinal, rfl, rfl, rfl, by omega, hfinalperm⟩)
    · rw [if_neg hshrink, if_neg hshrink]
      obtain ⟨hfinal, hfinalperm⟩ :=
        hmoved.finish hm hm' hperm hw.size.symm (by omega) (fun _ _ => rfl) (fun _ _ => rfl) hmoved.keys_new
        (by rw [hmoved.vals_length]; omega)
      exact Or.inr (Or.inr ⟨rfl, hfinal, rfl, rfl, rfl, by omega, hfinalperm⟩)

/-! ## §6 Growing -/

theorem roundUp_one : roundUp 1 = 2 ^ 2 := by decide +kernel

/-- A table that is to keep its buckets asks for one bucket less. -/
theorem roundUp_pred {m : Nat} (hm : 2 ≤ m) (hm' : m ≤ 31) : roundUp (2 ^ m - 1) = 2 ^ m := by
  have hall : ∀ m < 32, 2 ≤ m → roundUp (2 ^ m - 1) = 2 ^ m := by decide +kernel
  exact hall m (by omega) hm

/-- A table that is to have twice its buckets asks for one bucket more. -/
theorem roundUp_succ {m : Nat} (hm : 2 ≤ m) (hm' : m ≤ 30) : roundUp (2 ^ m + 1) = 2 ^ (m + 1) := by
  have hall : ∀ m < 31, 2 ≤ m → roundUp (2 ^ m + 1) = 2 ^ (m + 1) := by decide +kernel
  exact hall m (by omega) hm

/-- What `grow` leaves, where there is memory: room for one more. -/
structure Grown (hash : K → UInt32) (h g : Table K V) : Prop where
  wf : WF hash g
  shape : ∃ m, 2 ≤ m ∧ g.nBuckets = 2 ^ m
  size : g.size = h.size
  room : g.nOccupied < g.upperBound
  perm : (entries g.nBuckets (slots g)).Perm (entries h.nBuckets (slots h))

/-- And where there is none. -/
structure Stuck (hash : K → UInt32) (h g : Table K V) : Prop where
  full : h.upperBound ≤ h.nOccupied
  wf : WF hash g
  slots_eq : slots g = slots h
  keys : ∃ keys, g = { h with keys }

theorem Grown.of_resized {h : Table K V} {m : Nat} (hm : 2 ≤ m) {a : Alloc} {g : Table K V × Int}
    (hfull : h.upperBound ≤ h.nOccupied) (hfits : h.size < SploneBox.upperBound (2 ^ m))
    (hr : Resized hash h (2 ^ m) a g) :
    g.2 = 0 ∧ Grown hash h g.1 ∨ g.2 = -1 ∧ (a.flags && a.keys && a.vals) = false ∧ Stuck hash h g.1 := by
  rcases hr with ⟨hle, -⟩ | ⟨halloc, hret, hwf, hslots, hkeys⟩ | ⟨hret, hwf, hn, hsize, hocc, hlt, hperm⟩
  · omega
  · exact Or.inr ⟨hret, halloc, hfull, hwf, hslots, hkeys⟩
  · refine Or.inl ⟨hret, hwf, ⟨m, hm, hn⟩, hsize, ?_, ?_⟩
    · rw [hwf.upper, hocc, hn, if_neg (Nat.two_pow_pos m).ne']
      exact hlt
    · rw [hn]
      exact hperm

/-- **There is room for one more**, where there is memory: a table that is full of marks is cleared of them,
and one that is full of entries gets twice the buckets. -/
theorem WF.grow_cases {h : Table K V} (hw : WF hash h) (a : Alloc) (hsize : h.size < 2 ^ 30) :
    (grow hash a h).2 = 0 ∧ Grown hash h (grow hash a h).1 ∨
      (grow hash a h).2 = -1 ∧ (a.flags && a.keys && a.vals) = false ∧ Stuck hash h (grow hash a h).1 := by
  have hupper := hw.upper
  have hbounded := hw.bounded
  have hle : h.size ≤ h.nOccupied := by
    rw [hw.size, hw.occupied]
    exact length_entries_le _ _
  unfold grow
  by_cases hfull : h.upperBound ≤ h.nOccupied
  · rw [if_pos hfull]
    have htwice : twice h.size = h.size * 2 := Nat.mod_eq_of_lt (by omega)
    rw [htwice]
    rcases hw.shape with hzero | ⟨m, hm, hm', hn⟩
    · -- the first buckets
      rw [hzero, if_pos rfl] at hupper
      rw [hzero, if_neg (Nat.not_lt_zero _), Nat.zero_add]
      have hr := hw.resized a 1 (m := 2) le_rfl (by decide) roundUp_one
      exact Grown.of_resized le_rfl hfull (by unfold SploneBox.upperBound; omega) hr
    · have hfour : 2 ^ 2 ≤ 2 ^ m := Nat.pow_le_pow_right (by decide) hm
      rw [if_neg (by omega), hn] at hupper
      by_cases hmarks : h.size * 2 < h.nBuckets
      · rw [if_pos hmarks]
        have hr := hw.resized a (h.nBuckets - 1) hm hm' (by rw [hn]; exact roundUp_pred hm hm')
        exact Grown.of_resized hm hfull (by unfold SploneBox.upperBound; omega) hr
      · rw [if_neg hmarks]
        have hm30 : m ≤ 30 := by
          have hlt : 2 ^ m < 2 ^ 31 := by omega
          exact Nat.le_of_lt_succ ((Nat.pow_lt_pow_iff_right (by decide)).mp hlt)
        have hr := hw.resized a (h.nBuckets + 1) (m := m + 1) (by omega) (by omega)
            (by rw [hn]; exact roundUp_succ hm hm30)
        refine Grown.of_resized (by omega) hfull ?_ hr
        unfold SploneBox.upperBound at hupper ⊢
        rw [pow_succ]
        omega
  · rw [if_neg hfull]
    refine Or.inl ⟨rfl, hw, ?_, rfl, Nat.lt_of_not_le hfull, List.Perm.refl _⟩
    rcases hw.shape with hzero | ⟨m, hm, -, hn⟩
    · rw [hzero, if_pos rfl] at hupper
      omega
    · exact ⟨m, hm, hn⟩

theorem resize_failed (a : Alloc) (h : Table K V) (new : Nat) : (resize hash a h new).2 = -1 ↔
    h.size < SploneBox.upperBound (roundUp new) ∧
    (a.flags = false ∨ h.nBuckets < roundUp new ∧ (a.keys && a.vals) = false) := by
  unfold resize
  dsimp only
  by_cases hsmall : SploneBox.upperBound (roundUp new) ≤ h.size
  · rw [if_pos hsmall]
    exact iff_of_false (by decide : (0 : Int) ≠ -1) fun h => absurd hsmall (Nat.not_le_of_lt h.1)
  · rw [if_neg hsmall]
    have hfits : h.size < SploneBox.upperBound (roundUp new) := Nat.lt_of_not_le hsmall
    by_cases hgrow : h.nBuckets < roundUp new
    · cases hf : a.flags <;> cases hk : a.keys <;> cases hv : a.vals <;> simp [hgrow, hfits]
    · cases hf : a.flags <;> simp [hgrow, hfits]

/-- **When there is no memory**: for the flags, or for the arrays of a table that has to grow. -/
theorem WF.grow_failed {h : Table K V} (hw : WF hash h) (a : Alloc) (hsize : h.size < 2 ^ 30) :
    (grow hash a h).2 = -1 ↔
    h.upperBound ≤ h.nOccupied ∧ (a.flags = false ∨ h.nBuckets ≤ h.size * 2 ∧ (a.keys && a.vals) = false) := by
  have hupper := hw.upper
  unfold grow
  by_cases hfull : h.upperBound ≤ h.nOccupied
  · have htwice : twice h.size = h.size * 2 := Nat.mod_eq_of_lt (by omega)
    rw [if_pos hfull, htwice]
    rcases hw.shape with hzero | ⟨m, hm, hm', hn⟩
    · -- the first buckets
      have hnone : h.size = 0 := by
        rw [hw.size, hzero]
        rfl
      rw [if_neg (by omega), resize_failed, hzero, hnone]
      simp [hfull, roundUp_one, SploneBox.upperBound]
    · have hfour : 2 ^ 2 ≤ 2 ^ m := Nat.pow_le_pow_right (by decide) hm
      by_cases hmarks : h.size * 2 < h.nBuckets
      · have hfits : h.size < SploneBox.upperBound (2 ^ m) := by
          unfold SploneBox.upperBound
          omega
        have hround : roundUp (h.nBuckets - 1) = 2 ^ m := by rw [hn, roundUp_pred hm hm']
        rw [if_pos hmarks, resize_failed, hround, hn]
        simp [hfull, hfits, show ¬ 2 ^ m ≤ h.size * 2 by omega]
      · have hm30 : m ≤ 30 := by
          have hlt : 2 ^ m < 2 ^ 31 := by omega
          exact Nat.le_of_lt_succ ((Nat.pow_lt_pow_iff_right (by decide)).mp hlt)
        have hfits : h.size < SploneBox.upperBound (2 ^ (m + 1)) := by
          have hle := hw.bounded
          have hentries : h.size ≤ h.nOccupied := by
            rw [hw.size, hw.occupied]
            exact length_entries_le _ _
          rw [if_neg (by omega), hn] at hupper
          unfold SploneBox.upperBound at hupper ⊢
          rw [pow_succ]
          omega
        have hround : roundUp (h.nBuckets + 1) = 2 ^ (m + 1) := by rw [hn, roundUp_succ hm hm30]
        rw [if_neg hmarks, resize_failed, hround, hn]
        simp [hfull, hfits, Nat.pow_lt_pow_succ, show 2 ^ m ≤ h.size * 2 by omega]
  · rw [if_neg hfull]
    exact iff_of_false (by decide : (0 : Int) ≠ -1) fun h => absurd h.1 hfull

end Khash

end SploneBox
