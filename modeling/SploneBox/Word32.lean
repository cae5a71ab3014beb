/-
# SploneBox.Word32 — the `u32` of `tweetnacl.c`.

`tweetnacl.c` writes `typedef unsigned long u32`. The ciphers that use it are meant for words of 32 bits, and on
many machines an `unsigned long` has 64. `LongWidth` is any width that C allows for it, `U32 w` is an `unsigned
long` of that width, and everything that is said of the ciphers in this development is said for every `w`: what
one machine seals another one opens.

`low32` is what a word of 32 bits holds of a `u32`. Each operation of the code is followed by what it does to
that part:

* sums, differences and exclusive ors keep to it (`low32_add`, `low32_sub`, `low32_xor`), since nothing is
  carried down;
* `L32` masks before it shifts right, so it rotates the 32 bits whatever stands above them (`low32_L32`), and
  leaves rubbish above them, which the next mask takes away;
* `ld32` fills four bytes in from the low end (`low32_ld32`), and `st32` writes four bytes out
  (`st32_low32`), so what is stored never depends on the width.

`vn` is the comparison of `crypto_verify_16`. It subtracts one from the bytes that differ and looks whether the
borrow reaches bit 8; that is a question about a `u32` as a whole, and `vn_eq` answers it for every
width too.
-/
import SploneBox.Bytes
import SploneBox.Lib.Limbs
import Mathlib.Tactic.Linarith

namespace SploneBox

open Lib.Limbs

/-- The bits of an `unsigned long`: at least 32. -/
structure LongWidth where
  bits : Nat
  le : 32 ≤ bits

/-- The `unsigned long` of most machines. -/
def LongWidth.lp64 : LongWidth := ⟨64, by decide⟩

/-- `u32`. -/
abbrev U32 (w : LongWidth) := BitVec w.bits

variable {w : LongWidth}

/-- A `u8` where a `u32` is wanted. -/
def ofU8 (b : UInt8) : U32 w := b.toBitVec.setWidth w.bits

/-- A `u32` where a `u8` is wanted. -/
def toU8 (x : U32 w) : UInt8 := ⟨x.setWidth 8⟩

/-- What a word of 32 bits holds of it. -/
def low32 (x : U32 w) : BitVec 32 := x.setWidth 32

/-- `L32`. -/
def L32 (x : U32 w) (c : Nat) : U32 w := (x <<< c) ||| ((x &&& 0xffffffff) >>> (32 - c))

/-- `ld32(x + i)`. -/
def ld32 (x : Bytes) (i : Nat) : U32 w :=
  let u := ofU8 (x.getD (i + 3) 0)
  let u := (u <<< 8) ||| ofU8 (x.getD (i + 2) 0)
  let u := (u <<< 8) ||| ofU8 (x.getD (i + 1) 0)
  (u <<< 8) ||| ofU8 (x.getD i 0)

/-- The loop of `st32`: `x[i] = u; u >>= 8;`. -/
def st32Loop : Nat → U32 w → Bytes
  | 0, _ => []
  | n + 1, u => toU8 u :: st32Loop n (u >>> 8)

/-- `st32`. -/
def st32 (u : U32 w) : Bytes := st32Loop 4 u

/-- `vn(x, y, n)`. -/
def vn (w : LongWidth) (x y : Bytes) (n : Nat) : Int :=
  let d := (List.range n).foldl (fun (d : U32 w) i => d ||| ofU8 (x.getD i 0 ^^^ y.getD i 0)) 0
  ((((1 : U32 w) &&& ((d - 1) >>> 8)) - 1).setWidth 32).toInt

/-! ## §1 What a word of 32 bits holds -/

theorem toNat_ofU8 (b : UInt8) : (ofU8 b : U32 w).toNat = b.toNat := by
  have hlt : b.toNat < 2 ^ w.bits :=
    (UInt8.toNat_lt b).trans_le (Nat.pow_le_pow_right (by decide) (by have := w.le; omega))
  rw [ofU8, BitVec.toNat_setWidth]
  exact Nat.mod_eq_of_lt hlt

theorem toNat_toU8 (x : U32 w) : (toU8 x).toNat = x.toNat % 256 := BitVec.toNat_setWidth 8 x

@[simp] theorem low32_add (x y : U32 w) : low32 (x + y) = low32 x + low32 y := BitVec.setWidth_add x y w.le

@[simp] theorem low32_xor (x y : U32 w) : low32 (x ^^^ y) = low32 x ^^^ low32 y := BitVec.setWidth_xor

@[simp] theorem low32_sub (x y : U32 w) : low32 (x - y) = low32 x - low32 y := by
  rw [BitVec.sub_eq_add_neg, low32_add, BitVec.sub_eq_add_neg]
  congr 1
  exact BitVec.setWidth_neg_of_le w.le

@[simp] theorem low32_zero : low32 (0 : U32 w) = 0 := BitVec.setWidth_zero _ _

theorem getLsbD_mask32 (i : Nat) : (0xffffffff : U32 w).getLsbD i = decide (i < 32) := by
  have hw := w.le
  show (BitVec.ofNat w.bits (2 ^ 32 - 1)).getLsbD i = decide (i < 32)
  rw [BitVec.getLsbD_ofNat, Nat.testBit_two_pow_sub_one, ← Bool.decide_and]
  exact decide_eq_decide.mpr ⟨fun h => h.2, fun h => ⟨by omega, h⟩⟩

/-- **`L32` rotates** the low 32 bits, whatever is above them. -/
@[simp] theorem low32_L32 (x : U32 w) {c : Nat} (hc : c < 32) : low32 (L32 x c) = (low32 x).rotateLeft c := by
  apply BitVec.eq_of_getLsbD_eq
  intro i hi
  have hw := w.le
  unfold low32 L32
  rw [BitVec.getLsbD_rotateLeft_of_le hc]
  simp only [BitVec.getLsbD_setWidth, BitVec.getLsbD_or, BitVec.getLsbD_shiftLeft, BitVec.getLsbD_ushiftRight,
    BitVec.getLsbD_and, getLsbD_mask32]
  by_cases hlow : i < c
  · -- the bits that come in at the bottom are those that went out at the top
    have hin : 32 - c + i < 32 := by omega
    simp [hlow, hi, hin]
  · have hout : ¬ 32 - c + i < 32 := by omega
    have hbelow : i - c < 32 := by omega
    have hwide : i < w.bits := by omega
    simp [hlow, hi, hout, hbelow, hwide]

/-! ## §2 Words in memory -/

@[simp] theorem st32_length (x : U32 w) : (st32 x).length = 4 := rfl

/-- What is stored does not depend on the width. -/
theorem st32_low32 (x : U32 w) : st32 x = [(low32 x).extractLsb' 0 8, (low32 x).extractLsb' 8 8,
    (low32 x).extractLsb' 16 8, (low32 x).extractLsb' 24 8].map UInt8.ofBitVec := by
  have hbyte : ∀ k ≤ 24, UInt8.ofBitVec ((low32 x).extractLsb' k 8) = toU8 (x >>> k) := by
    intro k hk
    unfold toU8 low32
    congr 1
    apply BitVec.eq_of_getLsbD_eq
    intro i hi
    have hlt : k + i < 32 := by omega
    simp [hi, hlt]
  rw [List.map_cons, List.map_cons, List.map_cons, List.map_cons, List.map_nil, hbyte 0 (by omega),
    hbyte 8 (by omega), hbyte 16 (by omega), hbyte 24 (by omega)]
  unfold st32 st32Loop st32Loop st32Loop st32Loop st32Loop
  simp only [← BitVec.shiftRight_add, BitVec.ushiftRight_zero]

/-- What is loaded is the word that four bytes write, least significant first. -/
theorem low32_ld32 (x : Bytes) (i : Nat) : low32 (ld32 x i : U32 w) =
    (x.getD (i + 3) 0).toBitVec ++ (x.getD (i + 2) 0).toBitVec ++ (x.getD (i + 1) 0).toBitVec ++
    (x.getD i 0).toBitVec := by
  apply BitVec.eq_of_getLsbD_eq
  intro j hj
  have hw := w.le
  have hwide : j < w.bits := by omega
  have hbyte : ∀ b : UInt8, ∀ k, (ofU8 b : U32 w).getLsbD k = b.toBitVec.getLsbD k := by
    intro b k
    unfold ofU8
    rw [BitVec.getLsbD_setWidth]
    by_cases hk : k < w.bits
    · simp [hk]
    · simp [hk, BitVec.getLsbD_of_ge b.toBitVec k (by omega)]
  unfold low32 ld32
  simp only [BitVec.getLsbD_setWidth, BitVec.getLsbD_or, BitVec.getLsbD_shiftLeft, BitVec.getLsbD_append, hbyte]
  have habove : ∀ (b : UInt8) k, 8 ≤ k → b.toBitVec.getLsbD k = false :=
    fun b k hk => BitVec.getLsbD_of_ge _ k hk
  rcases Nat.lt_or_ge j 8 with h8 | h8
  · simp [h8, hj, hwide]
  rcases Nat.lt_or_ge j 16 with h16 | h16
  · have h1 : j - 8 < 8 := by omega
    have h2 : ¬ j < 8 := by omega
    simp [h1, h2, hj, hwide, habove _ j h8]
  rcases Nat.lt_or_ge j 24 with h24 | h24
  · have h1 : j - 8 - 8 < 8 := by omega
    have h2 : ¬ j < 8 := by omega
    have h3 : ¬ j - 8 < 8 := by omega
    have h4 : j - 8 < w.bits := by omega
    simp [h1, h2, h3, h4, hj, hwide, habove _ j h8, habove _ (j - 8) (by omega)]
  · have h1 : ¬ j - 8 - 8 < 8 := by omega
    have h2 : ¬ j < 8 := by omega
    have h3 : ¬ j - 8 < 8 := by omega
    have h4 : j - 8 < w.bits := by omega
    have h5 : j - 8 - 8 < w.bits := by omega
    simp [h1, h2, h3, h4, h5, hj, hwide, habove _ j h8, habove _ (j - 8) (by omega),
      habove _ (j - 8 - 8) (by omega)]

/-- Byte strings of one length are told apart by the numbers they write. -/
theorem bytes_eq_of_value {x y : Bytes} (hlength : x.length = y.length)
    (hvalue : value 256 (x.map UInt8.toNat) = value 256 (y.map UInt8.toNat)) : x = y := by
  have hbyte : ∀ (l : Bytes), ∀ d ∈ l.map UInt8.toNat, d < 256 := by
    intro l d hd
    obtain ⟨c, -, rfl⟩ := List.mem_map.mp hd
    exact UInt8.toNat_lt c
  rw [value_eq_ofDigits, value_eq_ofDigits] at hvalue
  have hlists := Nat.ofDigits_inj_of_len_eq (by decide) (by simp [hlength]) (hbyte x) (hbyte y) hvalue
  exact List.map_injective_iff.mpr (fun _ _ => UInt8.toNat_inj.mp) hlists

/-! ## §3 `vn` -/

theorem ofU8_or (a b : UInt8) : (ofU8 (a ||| b) : U32 w) = ofU8 a ||| ofU8 b := by
  show ((a.toBitVec ||| b.toBitVec).setWidth w.bits) = _
  exact BitVec.setWidth_or

theorem foldl_ofU8 (f : Nat → UInt8) (l : List Nat) (d : UInt8) :
    l.foldl (fun (d : U32 w) i => d ||| ofU8 (f i)) (ofU8 d) = ofU8 (l.foldl (fun d i => d ||| f i) d) := by
  induction l generalizing d with
  | nil => rfl
  | cons i l ih => rw [List.foldl_cons, ← ofU8_or, ih, List.foldl_cons]

/-- The difference that `vn` has collected, as it leaves it. -/
theorem vn_of_difference (d : UInt8) :
    ((((1 : U32 w) &&& ((ofU8 d - 1) >>> 8)) - 1).setWidth 32).toInt = if d = 0 then 0 else -1 := by
  have hw := w.le
  have hpow : 2 ^ 32 ≤ 2 ^ w.bits := Nat.pow_le_pow_right (by decide) hw
  have hone : (1 : U32 w).toNat = 1 := by
    show 1 % 2 ^ w.bits = 1
    exact Nat.mod_eq_of_lt (by omega)
  have hlt := UInt8.toNat_lt d
  have hbit : (1 : U32 w) &&& ((ofU8 d - 1) >>> 8) = if d = 0 then 1 else 0 := by
    apply BitVec.eq_of_toNat_eq
    rw [BitVec.toNat_and, BitVec.toNat_ushiftRight, BitVec.toNat_sub, toNat_ofU8, hone,
      Nat.shiftRight_eq_div_pow, Nat.and_comm, Nat.and_one_is_mod]
    by_cases hd : d = 0
    · -- the subtraction wraps, and the bit above the low byte is set
      subst hd
      have hzero : (0 : UInt8).toNat = 0 := rfl
      have hless : (2 ^ w.bits - 1) % 2 ^ w.bits = 2 ^ w.bits - 1 := Nat.mod_eq_of_lt (by omega)
      obtain ⟨k, hk⟩ := Nat.exists_eq_add_of_le hw
      have hsplit : 2 ^ w.bits = 2 ^ 9 * 2 ^ (23 + k) := by
        rw [hk, ← pow_add]
        congr 1
        omega
      have hpos := Nat.two_pow_pos (23 + k)
      rw [if_pos rfl, hone, hzero, Nat.add_zero, hless, hsplit]
      omega
    · have hpos : 0 < d.toNat := Nat.pos_of_ne_zero fun h => hd (UInt8.toNat_inj.mp h)
      have hless : (d.toNat - 1) % 2 ^ w.bits = d.toNat - 1 := Nat.mod_eq_of_lt (by omega)
      rw [if_neg hd, show 2 ^ w.bits - 1 + d.toNat = d.toNat - 1 + 2 ^ w.bits by omega,
        Nat.add_mod_right, hless]
      show (d.toNat - 1) / 2 ^ 8 % 2 = 0
      omega
  rw [hbit]
  by_cases hd : d = 0
  · rw [if_pos hd, if_pos hd, BitVec.sub_self, BitVec.setWidth_zero]
    rfl
  · have hminus : ((0 : U32 w) - 1).setWidth 32 = -1 := by
      have hsub := low32_sub (0 : U32 w) 1
      have hlow : low32 (1 : U32 w) = 1 := by
        apply BitVec.eq_of_toNat_eq
        rw [low32, BitVec.toNat_setWidth, hone]
        rfl
      rw [hlow, low32_zero] at hsub
      exact hsub
    rw [if_neg hd, if_neg hd, hminus]
    rfl

theorem vn_eq (x y : Bytes) (n : Nat) : vn w x y n = if ∀ i < n, x.getD i 0 = y.getD i 0 then 0 else -1 := by
  have hzero : (List.range n).foldl (fun d i => d ||| (x.getD i 0 ^^^ y.getD i 0)) 0 = 0 ↔
      ∀ i < n, x.getD i 0 = y.getD i 0 := by
    have hpairs := foldl_or_xor_eq_zero ((List.range n).map fun i => (x.getD i 0, y.getD i 0)) 0
    rw [List.foldl_map] at hpairs
    simpa using hpairs
  have hword := foldl_ofU8 (w := w) (fun i => x.getD i 0 ^^^ y.getD i 0) (List.range n) 0
  have hofzero : (ofU8 0 : U32 w) = 0 := BitVec.setWidth_zero _ _
  unfold vn
  rw [← hofzero, hword]
  dsimp only
  rw [vn_of_difference]
  exact if_congr hzero rfl rfl

/-- `crypto_verify_16`. -/
def cryptoVerify16 (w : LongWidth) (x y : Bytes) : Int := vn w x y 16

end SploneBox
