/-
# SploneBox.Bitarray — the bit array of the options seen, `confparse.c`.

`confparse_assign` keeps a bit for each option of its table. The words are `unsigned int`, but
`BITARRAY_SHIFT` follows the pointers: where these have eight bytes it takes 64 bits for a word, and the
options from the thirty-third on are shifted out of theirs. What an index names is a place among the words
(`place`), and different indices name different places; `bitarray_acts_iff` says when the places exist.
-/
import SploneBox.Lib.Bitset
import SploneBox.Options

namespace SploneBox

open Lib.Bitset

/-! ## §1 The code -/

/-- Which of `ARCH_32` and `ARCH_64` is defined. -/
inductive Arch where
  | arch32 | arch64
deriving DecidableEq

/-- `#if 8 == 8` in `sb-common.h`. -/
def Arch.configured : Arch := if 8 = 8 then .arch64 else .arch32

/-- `BITARRAY_SHIFT`. -/
def Arch.bitarrayShift : Arch → Nat
  | .arch32 => 5
  | .arch64 => 6

/-- `BITARRAY_MASK`. -/
def Arch.bitarrayMask (a : Arch) : BitVec 32 := (1#32 <<< a.bitarrayShift) - 1#32

/-- `1u << k`. C leaves it undefined from the width of `unsigned int` on. -/
def shiftedOne (k : BitVec 32) : Option (BitVec 32) := if k.toNat < 32 then some (1#32 <<< k.toNat) else none

/-- `b[i]`, inside the words. -/
def wordAt (b : List (BitVec 32)) (i : Int) : Option (BitVec 32) := if 0 ≤ i then b[i.toNat]? else none

/-- `bitarray_init_zero`, where there is memory. -/
def bitarrayInitZero (a : Arch) (nBits : BitVec 32) : List (BitVec 32) :=
  List.replicate ((nBits + a.bitarrayMask) >>> a.bitarrayShift).toNat 0#32

/-- `bitarray_is_set`. The index is an `int`, so that its shift keeps the sign. -/
def bitarrayIsSet (a : Arch) (b : List (BitVec 32)) (bit : BitVec 32) : Option (BitVec 32) := do
  let word ← wordAt b (bit.sshiftRight a.bitarrayShift).toInt
  let one ← shiftedOne (bit &&& a.bitarrayMask)
  return word &&& one

/-- `bitarray_set`. -/
def bitarraySet (a : Arch) (b : List (BitVec 32)) (bit : BitVec 32) : Option (List (BitVec 32)) := do
  let word ← wordAt b (bit.sshiftRight a.bitarrayShift).toInt
  let one ← shiftedOne (bit &&& a.bitarrayMask)
  return b.set (bit.sshiftRight a.bitarrayShift).toInt.toNat (word ||| one)

/-! ## §2 What it is for -/

/-- The indices of `n` options, `int`s. -/
def OptionIndex (n j : BitVec 32) : Prop := 0 ≤ j.toInt ∧ j.toInt < n.toNat

/-- **The array is a set.** After `bitarray_init_zero(n)` and some `bitarray_set`s below `n`,
`bitarray_is_set` tells for every index below `n` whether it was set; no access leaves the words and every
shift is defined. -/
def ActsAsSet (a : Arch) (n : BitVec 32) : Prop :=
  ∀ js : List (BitVec 32), (∀ j ∈ js, OptionIndex n j) →
    ∃ b, js.foldlM (bitarraySet a) (bitarrayInitZero a n) = some b ∧
      ∀ j, OptionIndex n j → ∃ word, bitarrayIsSet a b j = some word ∧ (word ≠ 0#32 ↔ j ∈ js)

/-! ## §3 Places -/

variable {a : Arch} {n j : BitVec 32} {b : List (BitVec 32)}

/-- The word and the bit in it of an index. -/
def place (a : Arch) (j : BitVec 32) : Nat × Nat :=
  (j.toNat / 2 ^ a.bitarrayShift, j.toNat % 2 ^ a.bitarrayShift)

/-- Different indices have different places. -/
theorem place_injective (a : Arch) : Function.Injective (place a) := by
  intro j k h
  obtain ⟨hword, hbit⟩ := Prod.mk.inj h
  apply BitVec.eq_of_toNat_eq
  calc j.toNat = 2 ^ a.bitarrayShift * (j.toNat / 2 ^ a.bitarrayShift) + j.toNat % 2 ^ a.bitarrayShift :=
    (Nat.div_add_mod _ _).symm
    _ = 2 ^ a.bitarrayShift * (k.toNat / 2 ^ a.bitarrayShift) + k.toNat % 2 ^ a.bitarrayShift := by
        rw [hword, hbit]
    _ = k.toNat := Nat.div_add_mod _ _

theorem toNat_bitarrayMask (a : Arch) : a.bitarrayMask.toNat = 2 ^ a.bitarrayShift - 1 := by
  cases a <;> rfl

/-- The mask takes the bit of the place. -/
theorem toNat_and_bitarrayMask (a : Arch) (j : BitVec 32) : (j &&& a.bitarrayMask).toNat = (place a j).2 := by
  rw [BitVec.toNat_and, toNat_bitarrayMask, Nat.and_two_pow_sub_one_eq_mod]
  rfl

/-- The shift takes its word. -/
theorem toInt_sshiftRight_index (a : Arch) (hj : OptionIndex n j) :
    (j.sshiftRight a.bitarrayShift).toInt = ((place a j).1 : Int) := by
  have hcast : j.toInt = (j.toNat : Int) :=
    BitVec.toInt_eq_toNat_of_msb (BitVec.msb_eq_false_iff_two_mul_lt.mpr (by
    have hsign := hj.1
    rw [BitVec.toInt_eq_toNat_cond] at hsign
    have := j.isLt
    split at hsign <;> omega))
  rw [BitVec.toInt_sshiftRight, hcast, Int.shiftRight_eq_div_pow]
  show (j.toNat : Int) / ((2 ^ a.bitarrayShift : Nat) : Int) = ((j.toNat / 2 ^ a.bitarrayShift : Nat) : Int)
  exact (Int.natCast_ediv _ _).symm

theorem toNat_lt_of_index (hj : OptionIndex n j) : j.toNat < n.toNat := by
  obtain ⟨hsign, hlt⟩ := hj
  rw [BitVec.toInt_eq_toNat_cond] at hsign hlt
  have := j.isLt
  split at hsign <;> omega

theorem wordAt_place (hj : OptionIndex n j) :
    wordAt b (j.sshiftRight a.bitarrayShift).toInt = b[(place a j).1]? := by
  rw [toInt_sshiftRight_index a hj]
  simp [wordAt]

theorem shiftedOne_place (hbit : (place a j).2 < 32) :
    shiftedOne (j &&& a.bitarrayMask) = some (BitVec.twoPow 32 (place a j).2) := by
  unfold shiftedOne
  rw [toNat_and_bitarrayMask, if_pos hbit]
  rfl

/-- `bitarray_set` puts the place of its index. -/
theorem bitarraySet_eq (hj : OptionIndex n j) (hword : (place a j).1 < b.length) (hbit : (place a j).2 < 32) :
    bitarraySet a b j = some (put b (place a j)) := by
  unfold bitarraySet put
  rw [wordAt_place hj, shiftedOne_place hbit, List.getElem?_eq_getElem hword, toInt_sshiftRight_index a hj]
  rw [List.modify_eq_set_getElem?, List.getElem?_eq_getElem hword]
  rfl

/-- `bitarray_is_set` reads it. -/
theorem bitarrayIsSet_eq (hj : OptionIndex n j) (hword : (place a j).1 < b.length) (hbit : (place a j).2 < 32) :
    ∃ word, bitarrayIsSet a b j = some word ∧ (word ≠ 0#32 ↔ bit b (place a j) = true) := by
  refine ⟨b[(place a j).1] &&& BitVec.twoPow 32 (place a j).2, ?_, ?_⟩
  · unfold bitarrayIsSet
    rw [wordAt_place hj, shiftedOne_place hbit, List.getElem?_eq_getElem hword]
    rfl
  · rw [and_twoPow_ne_zero _ hbit, bit, List.getElem?_eq_getElem hword]
    rfl

/-- Some sets put the places of their indices. -/
theorem foldlM_bitarraySet (hword : ∀ j, OptionIndex n j → (place a j).1 < b.length)
    (hbit : ∀ j, OptionIndex n j → (place a j).2 < 32) {js : List (BitVec 32)}
    (hjs : ∀ j ∈ js, OptionIndex n j) :
    js.foldlM (bitarraySet a) b = some (putAll (place a) b js) := by
  induction js generalizing b with
  | nil => rfl
  | cons j js ih =>
      have hj := hjs j List.mem_cons_self
      rw [List.foldlM_cons, bitarraySet_eq hj (hword j hj) (hbit j hj)]
      exact ih (fun k hk => by simpa using hword k hk) fun k hk => hjs k (List.mem_cons_of_mem j hk)

/-- **Where every index has its place, the array is a set.** -/
theorem acts_of_places (hword : ∀ j, OptionIndex n j → (place a j).1 < (bitarrayInitZero a n).length)
    (hbit : ∀ j, OptionIndex n j → (place a j).2 < 32) : ActsAsSet a n := by
  intro js hjs
  refine ⟨_, foldlM_bitarraySet hword hbit hjs, ?_⟩
  intro j hj
  have hlen : (place a j).1 < (putAll (place a) (bitarrayInitZero a n) js).length := by simpa using hword j hj
  obtain ⟨word, hread, hset⟩ := bitarrayIsSet_eq hj hlen (hbit j hj)
  refine ⟨word, hread, hset.trans ?_⟩
  rw [bit_putAll (fun k hk => hword k (hjs k hk)) fun k hk => hbit k (hjs k hk)]
  constructor
  · rintro (⟨k, hk, hplace⟩ | hzero)
    · exact place_injective a hplace ▸ hk
    · unfold bitarrayInitZero at hzero
      rw [bit_zero] at hzero
      exact absurd hzero Bool.false_ne_true
  · exact fun h => Or.inl ⟨j, h, rfl⟩

/-! ## §4 When there is a place for every index -/

/-- Rounding up leaves a word for every index, when the sum does not wrap. -/
theorem place_lt_length (hwrap : n.toNat + (2 ^ a.bitarrayShift - 1) < 2 ^ 32) (hj : OptionIndex n j) :
    (place a j).1 < (bitarrayInitZero a n).length := by
  have hlt := toNat_lt_of_index hj
  have hsum : (n + a.bitarrayMask).toNat = n.toNat + (2 ^ a.bitarrayShift - 1) := by
    rw [BitVec.toNat_add, toNat_bitarrayMask, Nat.mod_eq_of_lt hwrap]
  unfold bitarrayInitZero
  rw [List.length_replicate, BitVec.toNat_ushiftRight, hsum, Nat.shiftRight_eq_div_pow]
  show j.toNat / 2 ^ a.bitarrayShift < _
  have hpos : 0 < 2 ^ a.bitarrayShift := Nat.two_pow_pos _
  rw [Nat.lt_iff_add_one_le, Nat.le_div_iff_mul_le hpos, Nat.add_mul, Nat.one_mul]
  have hdiv := Nat.div_mul_le_self j.toNat (2 ^ a.bitarrayShift)
  omega

/-- A shift by five leaves bits that `unsigned int` has. -/
theorem acts_of_arch32 (hn : n.toNat + 31 < 2 ^ 32) : ActsAsSet .arch32 n := by
  apply acts_of_places
  · exact fun j hj => place_lt_length hn hj
  · exact fun j _ => Nat.mod_lt _ (by decide)

/-- One word is enough for both shifts. -/
theorem acts_of_short (a : Arch) (hn : n.toNat ≤ 32) : ActsAsSet a n := by
  apply acts_of_places
  · intro j hj
    apply place_lt_length _ hj
    cases a <;> simp only [Arch.bitarrayShift] <;> omega
  · intro j hj
    have hlt := toNat_lt_of_index hj
    exact (Nat.mod_le _ _).trans_lt (by omega)

/-- The words whose number wraps are none, and the first index has no place. -/
theorem not_acts_of_wrap (hn : 2 ^ 32 ≤ n.toNat + 31) : ¬ ActsAsSet .arch32 n := by
  intro hacts
  have hfirst : OptionIndex n 0#32 := ⟨by decide, by
    show (0 : Int) < n.toNat
    omega⟩
  -- The sum in `bitarray_init_zero` wraps, and the block has no word at all.
  have hnone : bitarrayInitZero .arch32 n = [] := by
    have hsum : (n + Arch.arch32.bitarrayMask).toNat = n.toNat + 31 - 2 ^ 32 := by
      rw [BitVec.toNat_add, toNat_bitarrayMask]
      show (n.toNat + 31) % 2 ^ 32 = _
      have := n.isLt
      omega
    unfold bitarrayInitZero
    rw [List.replicate_eq_nil_iff, BitVec.toNat_ushiftRight, hsum, Nat.shiftRight_eq_div_pow]
    show (n.toNat + 31 - 2 ^ 32) / 2 ^ 5 = 0
    have := n.isLt
    omega
  obtain ⟨b, hrun, hread⟩ := hacts [] (by simp)
  obtain ⟨word, hword, -⟩ := hread 0#32 hfirst
  rw [hnone] at hrun
  cases hrun
  have hread0 : bitarrayIsSet .arch32 [] 0#32 = none := by decide
  rw [hread0] at hword
  cases hword

/-- A shift by six leaves the bits from 32 on, and `1u << 32` is not defined. -/
theorem not_acts_of_long (hn : 32 < n.toNat) : ¬ ActsAsSet .arch64 n := by
  intro hacts
  have hindex : OptionIndex n 32#32 := ⟨by decide, by
    show (32 : Int) < n.toNat
    omega⟩
  obtain ⟨b, hrun, -⟩ := hacts [32#32] (by simpa using hindex)
  -- The position in the word is 32, but the one that is shifted is an `int`.
  have hset : ∀ b, bitarraySet .arch64 b 32#32 = none := by
    intro b
    have hone : shiftedOne (32#32 &&& Arch.arch64.bitarrayMask) = none := by decide
    unfold bitarraySet
    rw [hone]
    cases wordAt b (BitVec.sshiftRight 32#32 Arch.arch64.bitarrayShift).toInt <;> rfl
  rw [List.foldlM_cons, hset] at hrun
  cases hrun

/-- **The bit array is a set** exactly when the shift is the one of `unsigned int` (and rounding up does not
wrap), or when there is only one word. -/
theorem bitarray_acts_iff (a : Arch) (n : BitVec 32) :
    ActsAsSet a n ↔ (a = .arch32 ∧ n.toNat + 31 < 2 ^ 32) ∨ n.toNat ≤ 32 := by
  constructor
  · intro hacts
    by_cases hlong : n.toNat ≤ 32
    · exact Or.inr hlong
    · cases a with
      | arch32 =>
          have hwrap : ¬ 2 ^ 32 ≤ n.toNat + 31 := fun h => not_acts_of_wrap h hacts
          exact Or.inl ⟨rfl, by omega⟩
      | arch64 => exact absurd hacts (not_acts_of_long (by omega))
  · rintro (⟨rfl, hn⟩ | hn)
    · exact acts_of_arch32 hn
    · exact acts_of_short a hn

/-- A table of 33 options is too long for the shift that `sb-common.h` selects. -/
theorem bitarray_thirty_three : ¬ ActsAsSet Arch.configured 33#32 := by
  apply not_acts_of_long
  decide

/-- The table of `options.c` is short enough. -/
theorem options_seen_acts : ActsAsSet Arch.configured (BitVec.ofNat 32 Options.optionsFormat.vars.length) := by
  apply acts_of_short
  decide

end SploneBox
