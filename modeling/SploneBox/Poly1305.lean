/-
# SploneBox.Poly1305 — the authenticator of `tweetnacl.c`.

`crypto_onetimeauth` computes modulo 2^130 - 5 with 17 limbs of 8 bits in words as wide as an `unsigned long`.
`Reduced` is what the limbs keep from block to block, and the bounds it gives are what keeps every sum below
2^32 (`squeeze_value`, `mul1305_nats`), so that no width loses a bit. The tag is the polynomial of the message
at the clamped half of the key, plus the other half (`cryptoOnetimeauth_value`).
-/
import SploneBox.Word32
import SploneBox.Lib.Limbs
import Mathlib.Data.ZMod.Basic

namespace SploneBox

open Lib.Limbs

/-! ## §1 `crypto_onetimeauth` -/

section Onetimeauth

variable {w : LongWidth}

/-- The loop of `add1305`. -/
def add1305Loop : U32 w → List (U32 w) → List (U32 w) → List (U32 w)
  | u, h :: hs, c :: cs =>
      let u := u + (h + c)
      (u &&& 255) :: add1305Loop (u >>> 8) hs cs
  | _, _, _ => []

/-- `add1305`. -/
def add1305 (h c : List (U32 w)) : List (U32 w) := add1305Loop 0 h c

/-- The loop that fills `x`. -/
def mul1305 (h r : List (U32 w)) : List (U32 w) :=
  (List.range 17).map fun i =>
    (List.range 17).foldl (fun x j =>
      x + h.getD j 0 * (if j ≤ i then r.getD (i - j) 0 else 320 * r.getD (i + 17 - j) 0)) 0

/-- `u += h[j]; h[j] = u & 255; u >>= 8;` over `h`, with the `u` it ends with. -/
def carryLoop : U32 w → List (U32 w) → List (U32 w) × U32 w
  | u, [] => ([], u)
  | u, h :: hs =>
      let u := u + h
      ((u &&& 255) :: (carryLoop (u >>> 8) hs).1, (carryLoop (u >>> 8) hs).2)

/-- The two passes over the product. -/
def squeeze (h : List (U32 w)) : List (U32 w) :=
  let p := carryLoop 0 (h.take 16)
  let u := p.2 + h.getD 16 0
  let h16 := u &&& 3
  let q := carryLoop ((5 : U32 w) * (u >>> 2)) p.1
  q.1 ++ [q.2 + h16]

/-- The `c` of a block: at most 16 bytes, and a one behind them. -/
def blockLimbs (m : Bytes) : List (U32 w) :=
  let j := min 16 m.length
  (m.take j).map ofU8 ++ 1 :: List.replicate (16 - j) 0

/-- `while (n > 0)`. -/
def authLoop (r h : List (U32 w)) (m : Bytes) : List (U32 w) :=
  if m = [] then h else authLoop r (squeeze (mul1305 (add1305 h (blockLimbs m)) r)) (m.drop 16)
termination_by m.length
decreasing_by
  rename_i hm
  rw [List.length_drop]
  have := List.length_pos_iff.mpr hm
  omega

/-- The `r` of a key. -/
def clamp (k : Bytes) : List (U32 w) :=
  let r := ((List.range 16).map fun j => ofU8 (k.getD j 0)) ++ [0]
  let r := r.modify 3 (· &&& 15)
  let r := r.modify 4 (· &&& 252)
  let r := r.modify 7 (· &&& 15)
  let r := r.modify 8 (· &&& 252)
  let r := r.modify 11 (· &&& 15)
  let r := r.modify 12 (· &&& 252)
  r.modify 15 (· &&& 15)

/-- `minusp`. -/
def minusp : List (U32 w) := [5, 0, 0, 0, 0, 0, 0, 0, 0, 0, 0, 0, 0, 0, 0, 0, 252]

/-- The subtraction of the modulus, undone where it was too much. -/
def freeze (g : List (U32 w)) : List (U32 w) :=
  let h := add1305 g minusp
  let s := -(h.getD 16 0 >>> 7)
  List.zipWith (fun h g => h ^^^ (s &&& (g ^^^ h))) h g

/-- The `c` that is added last: the second half of the key. -/
def pad (k : Bytes) : List (U32 w) := ((List.range 16).map fun j => ofU8 (k.getD (j + 16) 0)) ++ [0]

variable (w)

/-- `crypto_onetimeauth`. -/
def cryptoOnetimeauth (m k : Bytes) : Bytes :=
  let r : List (U32 w) := clamp k
  let h := freeze (authLoop r (List.replicate 17 0) m)
  ((add1305 h (pad k)).take 16).map toU8

/-- `crypto_onetimeauth_verify`. -/
def cryptoOnetimeauthVerify (h m k : Bytes) : Int := cryptoVerify16 w h (cryptoOnetimeauth w m k)

end Onetimeauth

/-! ## §2 What it computes -/

/-- The modulus. -/
def p1305 : ℕ := 2 ^ 130 - 5

instance : NeZero p1305 := ⟨by decide⟩

/-- The numbers of a message: 16 bytes at a time, each with a one behind its bytes. -/
def blockNumbers (m : Bytes) : List ℕ :=
  if m = [] then []
    else (value 256 ((m.take 16).map UInt8.toNat) + 256 ^ (min 16 m.length)) :: blockNumbers (m.drop 16)
termination_by m.length
decreasing_by
  rename_i hm
  rw [List.length_drop]
  have := List.length_pos_iff.mpr hm
  omega

/-- Byte `i` to byte `i + 15` of a key, as a number. -/
def halfKey (k : Bytes) (i : Nat) : ℕ := value 256 ((List.range 16).map fun j => (k.getD (j + i) 0).toNat)

/-- The point of a key: its first half, with 22 bits cleared. -/
def clamped (k : Bytes) : ℕ := halfKey k 0 &&& 0x0ffffffc0ffffffc0ffffffc0fffffff

/-- The number of a tag. -/
def poly1305 (m k : Bytes) : ℕ :=
  (((clamped k : ZMod p1305) * value (clamped k : ZMod p1305) ((blockNumbers m).reverse.map Nat.cast)).val +
    halfKey k 16) % 2 ^ 128

/-! ## §3 Words without overflow -/

variable {w : LongWidth}

/-- The numbers that words stand for. -/
def nats (x : List (U32 w)) : List ℕ := x.map BitVec.toNat

@[simp] theorem nats_length (x : List (U32 w)) : (nats x).length = x.length := List.length_map _

theorem nats_append (x y : List (U32 w)) : nats (x ++ y) = nats x ++ nats y := List.map_append

theorem nats_singleton (x : U32 w) : nats [x] = [x.toNat] := rfl

@[simp] theorem nats_getD (x : List (U32 w)) (i : Nat) : (nats x).getD i 0 = (x.getD i 0).toNat := by
  rw [nats, List.getD_eq_getElem?_getD, List.getD_eq_getElem?_getD, List.getElem?_map]
  cases x[i]? with
  | none => exact BitVec.toNat_zero.symm
  | some y => rfl

theorem two_pow_32_le (w : LongWidth) : 2 ^ 32 ≤ 2 ^ w.bits := Nat.pow_le_pow_right (by decide) w.le

theorem toNat_literal {n : ℕ} (h : n < 2 ^ 32) : (BitVec.ofNat w.bits n).toNat = n := by
  have hpow := two_pow_32_le w
  rw [BitVec.toNat_ofNat]
  exact Nat.mod_eq_of_lt (by omega)

theorem toNat_add_small {x y : U32 w} (h : x.toNat + y.toNat < 2 ^ 32) : (x + y).toNat = x.toNat + y.toNat := by
  have hpow := two_pow_32_le w
  rw [BitVec.toNat_add]
  exact Nat.mod_eq_of_lt (by omega)

theorem toNat_mul_small {x y : U32 w} (h : x.toNat * y.toNat < 2 ^ 32) : (x * y).toNat = x.toNat * y.toNat := by
  have hpow := two_pow_32_le w
  rw [BitVec.toNat_mul]
  exact Nat.mod_eq_of_lt (by omega)

theorem toNat_low_byte (x : U32 w) : (x &&& 255).toNat = x.toNat % 256 := by
  have hlow : (255 : U32 w).toNat = 2 ^ 8 - 1 := toNat_literal (by decide)
  rw [BitVec.toNat_and, hlow, Nat.and_two_pow_sub_one_eq_mod]

theorem toNat_shift (x : U32 w) (k : Nat) : (x >>> k).toNat = x.toNat / 2 ^ k := by
  rw [BitVec.toNat_ushiftRight, Nat.shiftRight_eq_div_pow]

theorem toNat_next_byte (x : U32 w) : (x >>> 8).toNat = x.toNat / 256 := toNat_shift x 8

/-- A sum that a loop forms, where it stays below 2^32. -/
theorem toNat_foldl_add (f : Nat → U32 w) (n : Nat) (h : ∑ j ∈ Finset.range n, (f j).toNat < 2 ^ 32) :
    ((List.range n).foldl (fun x j => x + f j) 0).toNat = ∑ j ∈ Finset.range n, (f j).toNat := by
  induction n with
  | zero => exact toNat_literal (by decide)
  | succ n ih =>
      rw [Finset.sum_range_succ] at h ⊢
      have ih := ih (by omega)
      rw [List.range_succ, List.foldl_append, List.foldl_cons, List.foldl_nil, toNat_add_small (by omega), ih]

/-! ## §4 The loops carry -/

/-- Limbs of 8 bits. -/
def Bytewise (x : List (U32 w)) : Prop := ∀ n ∈ nats x, n < 256

theorem toNat_getD_lt {x : List (U32 w)} {b : ℕ} (hb : 0 < b) (h : ∀ n ∈ nats x, n < b) (i : Nat) :
    (x.getD i 0).toNat < b := by
  rw [← nats_getD, List.getD_eq_getElem?_getD]
  cases hi : (nats x)[i]? with
  | none => exact hb
  | some n => exact h n (List.mem_of_getElem? hi)

theorem Bytewise.getD_lt {x : List (U32 w)} (h : Bytewise x) (i : Nat) : (x.getD i 0).toNat < 256 :=
  toNat_getD_lt (by decide) h i

theorem add1305Loop_nats {u : U32 w} (hu : u.toNat ≤ 1) {h c : List (U32 w)} (hh : Bytewise h)
    (hc : Bytewise c) :
    nats (add1305Loop u h c) = (carry 256 u.toNat (List.zipWith (· + ·) (nats h) (nats c))).1 := by
  induction h generalizing u c with
  | nil => rfl
  | cons x hs ih =>
      cases c with
      | nil => rfl
      | cons y cs =>
          have hx := hh x.toNat List.mem_cons_self
          have hy := hc y.toNat List.mem_cons_self
          have hsum : (u + (x + y)).toNat = u.toNat + (x.toNat + y.toNat) := by
            rw [toNat_add_small, toNat_add_small (by omega)]
            rw [toNat_add_small (by omega)]
            omega
          have hover : ((u + (x + y)) >>> 8).toNat = (u.toNat + (x.toNat + y.toNat)) / 256 := by
            rw [toNat_next_byte, hsum]
          have hrest := ih (u := (u + (x + y)) >>> 8) (by omega) (fun n hn => hh n (List.mem_cons_of_mem _ hn))
            fun n hn => hc n (List.mem_cons_of_mem _ hn)
          show ((u + (x + y)) &&& 255).toNat :: nats (add1305Loop ((u + (x + y)) >>> 8) hs cs) = _
          rw [toNat_low_byte, hsum, hrest, hover]
          rfl

theorem add1305_bytewise {h c : List (U32 w)} (hh : Bytewise h) (hc : Bytewise c) : Bytewise (add1305 h c) := by
  have hzero : (0 : U32 w).toNat = 0 := toNat_literal (by decide)
  unfold Bytewise add1305
  rw [add1305Loop_nats (by omega) hh hc]
  exact carry_lt (by decide) _ _

/-- `add1305` adds modulo 2^136. -/
theorem add1305_value {h c : List (U32 w)} (hh : Bytewise h) (hc : Bytewise c) (hlength : h.length = c.length) :
    value 256 (nats (add1305 h c)) = (value 256 (nats h) + value 256 (nats c)) % 256 ^ h.length := by
  have hzero : (0 : U32 w).toNat = 0 := toNat_literal (by decide)
  unfold add1305
  rw [add1305Loop_nats (by omega) hh hc, value_carry_mod (by decide),
    value_zipWith_add (by simpa using hlength), List.length_zipWith, nats_length, nats_length, ← hlength,
    Nat.min_self, hzero, Nat.zero_add]

theorem add1305_length {h c : List (U32 w)} (hh : Bytewise h) (hc : Bytewise c)
    (hlength : h.length = c.length) :
    (add1305 h c).length = h.length := by
  have hzero : (0 : U32 w).toNat = 0 := toNat_literal (by decide)
  rw [← nats_length, add1305, add1305Loop_nats (by omega) hh hc, length_carry, List.length_zipWith, nats_length,
    nats_length, ← hlength, Nat.min_self]

/-- The loop carries, as long as no limb comes near 2^32. -/
theorem carryLoop_nats {u : U32 w} (hu : u.toNat < 2 ^ 31) {x : List (U32 w)} (hx : ∀ n ∈ nats x, n < 2 ^ 31) :
    nats (carryLoop u x).1 = (carry 256 u.toNat (nats x)).1 ∧
      (carryLoop u x).2.toNat = (carry 256 u.toNat (nats x)).2 := by
  induction x generalizing u with
  | nil => exact ⟨rfl, rfl⟩
  | cons y ys ih =>
      have hy := hx y.toNat List.mem_cons_self
      have hsum : (u + y).toNat = u.toNat + y.toNat := toNat_add_small (by omega)
      have hover : ((u + y) >>> 8).toNat = (u.toNat + y.toNat) / 256 := by
        rw [toNat_next_byte, hsum]
      have hrest := ih (u := (u + y) >>> 8) (by omega) fun n hn => hx n (List.mem_cons_of_mem _ hn)
      rw [hover] at hrest
      constructor
      · show ((u + y) &&& 255).toNat :: nats (carryLoop ((u + y) >>> 8) ys).1 = _
        rw [toNat_low_byte, hsum, hrest.1]
        rfl
      · exact hrest.2

/-- A pass leaves limbs of 8 bits, and the value is theirs and that of what is left over. -/
theorem carryLoop_value {u : U32 w} (hu : u.toNat < 2 ^ 31) {x : List (U32 w)} (hx : ∀ n ∈ nats x, n < 2 ^ 31) :
    Bytewise (carryLoop u x).1 ∧ (carryLoop u x).1.length = x.length ∧ (carryLoop u x).2.toNat ≤ 2 ^ 31 ∧
      value 256 (nats (carryLoop u x).1) + 256 ^ x.length * (carryLoop u x).2.toNat =
      u.toNat + value 256 (nats x) := by
  obtain ⟨hlimbs, hout⟩ := carryLoop_nats hu hx
  unfold Bytewise
  rw [← nats_length (carryLoop u x).1, hlimbs, hout]
  refine ⟨carry_lt (by decide) _ _, ?_, carry_out_le (by decide) hu.le fun n hn => (hx n hn).le, ?_⟩
  · rw [length_carry, nats_length]
  · rw [← nats_length x]
    exact value_carry _ _

/-- How large a limb of the product can be. -/
theorem product_lt {h r : List (U32 w)} (hh : Bytewise h) (hr : Bytewise r) (i : Nat) :
    ∑ j ∈ Finset.range 17, ((nats h).getD j 0 * if j ≤ i then (nats r).getD (i - j) 0
      else 320 * (nats r).getD (i + 17 - j) 0) < 2 ^ 29 := by
  have hbound : ∀ j ∈ Finset.range 17,
      (nats h).getD j 0 * (if j ≤ i then (nats r).getD (i - j) 0 else 320 * (nats r).getD (i + 17 - j) 0) ≤
      255 * (320 * 255) := by
    intro j _
    have hj := hh.getD_lt j
    have hlow := hr.getD_lt (i - j)
    have hwrap := hr.getD_lt (i + 17 - j)
    rw [nats_getD, nats_getD, nats_getD]
    apply Nat.mul_le_mul (by omega)
    split <;> omega
  exact lt_of_le_of_lt (Finset.sum_le_sum hbound) (by decide)

/-- The product that wraps around, with nothing lost. -/
theorem mul1305_nats {h r : List (U32 w)} (hh : Bytewise h) (hr : Bytewise r) : nats (mul1305 h r) =
    (List.range 17).map fun i => ∑ j ∈ Finset.range 17, (nats h).getD j 0 *
      if j ≤ i then (nats r).getD (i - j) 0 else 320 * (nats r).getD (i + 17 - j) 0 := by
  have hterm : ∀ i j, (h.getD j 0 * (if j ≤ i then r.getD (i - j) 0 else 320 * r.getD (i + 17 - j) 0)).toNat =
      (nats h).getD j 0 * if j ≤ i then (nats r).getD (i - j) 0 else 320 * (nats r).getD (i + 17 - j) 0 := by
    intro i j
    have hj := hh.getD_lt j
    have hlow := hr.getD_lt (i - j)
    have hwrap := hr.getD_lt (i + 17 - j)
    have hfactor : (320 : U32 w).toNat = 320 := toNat_literal (by decide)
    rw [nats_getD, nats_getD, nats_getD]
    split
    · exact toNat_mul_small (lt_of_le_of_lt (Nat.mul_le_mul hj.le hlow.le) (by decide))
    · have hmul : (320 * r.getD (i + 17 - j) 0 : U32 w).toNat = 320 * (r.getD (i + 17 - j) 0).toNat := by
        rw [toNat_mul_small, hfactor]
        rw [hfactor]
        omega
      rw [toNat_mul_small, hmul]
      rw [hmul]
      exact lt_of_le_of_lt (Nat.mul_le_mul hj.le (Nat.mul_le_mul_left 320 hwrap.le)) (by decide)
  unfold mul1305
  rw [nats, List.map_map]
  apply List.map_congr_left
  intro i _
  have hsum := Finset.sum_congr rfl fun j (_ : j ∈ Finset.range 17) => hterm i j
  have hlt := product_lt hh hr i
  rw [Function.comp_apply, toNat_foldl_add _ _ (by omega)]
  exact hsum

/-! ## §5 From block to block -/

/-- What the limbs are between two blocks: below 5 * 2^128. -/
structure Reduced (h : List (U32 w)) : Prop where
  length : h.length = 17
  bytewise : Bytewise h
  small : value 256 (nats h) < 5 * 256 ^ 16

/-- The last of 17 limbs, and the others. -/
theorem value_sixteen {x : List (U32 w)} (hx : x.length = 17) :
    value 256 (nats x) = value 256 (nats (x.take 16)) + 256 ^ 16 * (x.getD 16 0).toNat := by
  have hlast : x.drop 16 = [x.getD 16 0] := by
    rw [List.drop_eq_getElem_cons (by omega), List.drop_eq_nil_of_le (by omega), List.getD_eq_getElem?_getD,
      List.getElem?_eq_getElem (by omega), Option.getD_some]
  have htake : (nats (x.take 16)).length = 16 := by
    rw [nats_length, List.length_take]
    omega
  calc value 256 (nats x) = value 256 (nats (x.take 16) ++ nats (x.drop 16)) := by
        rw [← nats_append, List.take_append_drop]
    _ = value 256 (nats (x.take 16)) + 256 ^ 16 * (x.getD 16 0).toNat := by
        rw [value_append, htake, hlast, nats_singleton, value_cons, value_nil, mul_zero, add_zero]

theorem value_bytewise_lt {x : List (U32 w)} (hx : Bytewise x) (hlength : x.length = 16) :
    value 256 (nats x) < 256 ^ 16 := by
  have hlt := value_lt hx
  rwa [nats_length, hlength] at hlt

/-- **The two passes reduce**: they take away a multiple of the modulus, and leave limbs of 8 bits. -/
theorem squeeze_value {x : List (U32 w)} (hlength : x.length = 17) (hx : ∀ n ∈ nats x, n < 2 ^ 29) :
    Reduced (squeeze x) ∧ ∃ q, value 256 (nats x) = value 256 (nats (squeeze x)) + p1305 * q := by
  have hzero : (0 : U32 w).toNat = 0 := toNat_literal (by decide)
  have hthree : (3 : U32 w).toNat = 2 ^ 2 - 1 := toNat_literal (by decide)
  have hfive : (5 : U32 w).toNat = 5 := toNat_literal (by decide)
  have htop : (x.getD 16 0).toNat < 2 ^ 29 := toNat_getD_lt (by decide) hx 16
  have hlow : ∀ n ∈ nats (x.take 16), n < 2 ^ 29 :=
    fun n hn => hx n (List.map_subset _ (List.take_subset 16 x) hn)
  have hsixteen : (x.take 16).length = 16 := by
    rw [List.length_take]
    omega
  have hvalue := value_sixteen hlength
  -- the first pass
  have hout := carry_out_le (B := 256) (by decide) (Nat.zero_le _) fun n hn => (hlow n hn).le
  obtain ⟨hbytes, hlen, -, hpass⟩ := carryLoop_value (u := (0 : U32 w)) (by omega) fun n hn =>
    (hlow n hn).trans (by decide)
  have hcarried := (carryLoop_nats (u := (0 : U32 w)) (by omega) fun n hn => (hlow n hn).trans (by decide)).2
  rw [hzero] at hpass hcarried
  rw [← hcarried] at hout
  rw [hsixteen] at hlen hpass
  unfold squeeze
  dsimp only
  generalize carryLoop (0 : U32 w) (x.take 16) = p at hbytes hlen hpass hout
  have hplow := value_bytewise_lt hbytes hlen
  have hu : (p.2 + x.getD 16 0).toNat = p.2.toNat + (x.getD 16 0).toNat := toNat_add_small (by omega)
  generalize p.2 + x.getD 16 0 = u at hu
  -- what is left over comes back with the factor 5
  have hquarter : (u >>> 2).toNat = u.toNat / 4 := toNat_shift u 2
  have hfactor : ((5 : U32 w) * (u >>> 2)).toNat = 5 * (u.toNat / 4) := by
    have hsmall : (5 : U32 w).toNat * (u >>> 2).toNat < 2 ^ 32 := by
      rw [hfive, hquarter]
      omega
    rw [toNat_mul_small hsmall, hfive, hquarter]
  have hmask : (u &&& 3).toNat = u.toNat % 4 := by
    rw [BitVec.toNat_and, hthree, Nat.and_two_pow_sub_one_eq_mod]
  -- the second pass
  obtain ⟨hbytes', hlen', -, hpass'⟩ := carryLoop_value (u := (5 : U32 w) * (u >>> 2)) (by omega)
    fun n hn => (hbytes n hn).trans (by decide)
  rw [hfactor] at hpass'
  rw [hlen] at hlen' hpass'
  generalize carryLoop ((5 : U32 w) * (u >>> 2)) p.1 = q at hbytes' hlen' hpass'
  have hqlow := value_bytewise_lt hbytes' hlen'
  have hlast : (q.2 + (u &&& 3)).toNat = q.2.toNat + u.toNat % 4 := by
    rw [toNat_add_small, hmask]
    omega
  have hresult : nats (q.1 ++ [q.2 + (u &&& 3)]) = nats q.1 ++ [q.2.toNat + u.toNat % 4] := by
    rw [nats_append, nats_singleton, hlast]
  have hsum : value 256 (nats q.1 ++ [q.2.toNat + u.toNat % 4]) =
      value 256 (nats q.1) + 256 ^ 16 * (q.2.toNat + u.toNat % 4) := by
    rw [value_append, nats_length, hlen', value_cons, value_nil, mul_zero, add_zero]
  refine ⟨⟨?_, ?_, ?_⟩, u.toNat / 4, ?_⟩
  · rw [List.length_append, hlen']
    rfl
  · intro n hn
    rw [hresult] at hn
    rcases List.mem_append.mp hn with hn | hn
    · exact hbytes' n hn
    · rw [List.mem_singleton.mp hn]
      omega
  · rw [hresult, hsum]
    omega
  · rw [hresult, hsum, p1305]
    omega

theorem Reduced.zero : Reduced (List.replicate 17 (0 : U32 w)) := by
  have hzero : nats (List.replicate 17 (0 : U32 w)) = List.replicate 17 0 := by
    rw [nats, List.map_replicate]
    exact congrArg (List.replicate 17) (toNat_literal (by decide))
  refine ⟨List.length_replicate, ?_, ?_⟩
  · intro n hn
    rw [hzero] at hn
    rw [(List.mem_replicate.mp hn).2]
    decide
  · rw [hzero, value_replicate_zero]
    decide

theorem blockLimbs_nats (m : Bytes) : nats (blockLimbs m : List (U32 w)) =
    (m.take 16).map UInt8.toNat ++ 1 :: List.replicate (16 - min 16 m.length) 0 := by
  have hbytes : ∀ b : Bytes, nats (b.map (ofU8 (w := w))) = b.map UInt8.toNat := by
    intro b
    rw [nats, List.map_map]
    exact List.map_congr_left fun c _ => toNat_ofU8 c
  have hone : (1 : U32 w).toNat = 1 := toNat_literal (by decide)
  have hzero : (0 : U32 w).toNat = 0 := toNat_literal (by decide)
  have htake : m.take (min 16 m.length) = m.take 16 := by
    rw [← List.take_take, List.take_length]
  rw [blockLimbs, nats_append, hbytes, htake]
  show _ ++ (1 : U32 w).toNat :: nats (List.replicate (16 - min 16 m.length) 0) = _
  rw [nats, List.map_replicate, hone, hzero]

theorem blockLimbs_length (m : Bytes) : (blockLimbs m : List (U32 w)).length = 17 := by
  rw [← nats_length, blockLimbs_nats, List.length_append, List.length_map, List.length_take, List.length_cons,
    List.length_replicate]
  omega

theorem blockLimbs_bytewise (m : Bytes) : Bytewise (blockLimbs m : List (U32 w)) := by
  intro n hn
  rw [blockLimbs_nats] at hn
  rcases List.mem_append.mp hn with hn | hn
  · obtain ⟨c, -, rfl⟩ := List.mem_map.mp hn
    exact UInt8.toNat_lt c
  · rcases List.mem_cons.mp hn with rfl | hn
    · decide
    · rw [(List.mem_replicate.mp hn).2]
      decide

/-- The limbs of a block are its number. -/
theorem blockLimbs_value (m : Bytes) :
    value 256 (nats (blockLimbs m : List (U32 w))) =
      value 256 ((m.take 16).map UInt8.toNat) + 256 ^ (min 16 m.length) := by
  rw [blockLimbs_nats, value_append, value_cons, value_replicate_zero, List.length_map, List.length_take,
    mul_zero, add_zero, mul_one]

theorem blockNumber_lt (m : Bytes) :
    value 256 ((m.take 16).map UInt8.toNat) + 256 ^ (min 16 m.length) < 2 * 256 ^ 16 + 1 := by
  have hlt : value 256 ((m.take 16).map UInt8.toNat) < 256 ^ min 16 m.length := by
    have hbytes : ∀ n ∈ (m.take 16).map UInt8.toNat, n < 256 := by
      intro n hn
      obtain ⟨c, -, rfl⟩ := List.mem_map.mp hn
      exact UInt8.toNat_lt c
    have hvalue := value_lt hbytes
    rwa [List.length_map, List.length_take] at hvalue
  have hpow : 256 ^ min 16 m.length ≤ 256 ^ 16 := Nat.pow_le_pow_right (by decide) (Nat.min_le_left _ _)
  omega

theorem p1305_eq_zero : ((p1305 : ℕ) : ZMod p1305) = 0 := ZMod.natCast_self _

/-- Where the base comes round. -/
theorem base_wraps : (256 : ZMod p1305) ^ 17 = 320 := by
  have hnat : 256 ^ 17 = 320 + p1305 * 64 := by decide
  have hcast := congrArg (Nat.cast : ℕ → ZMod p1305) hnat
  rwa [Nat.cast_add, Nat.cast_mul, p1305_eq_zero, zero_mul, add_zero, Nat.cast_pow, Nat.cast_ofNat,
    Nat.cast_ofNat] at hcast

/-- The product modulo `p1305`. -/
theorem mul1305_value {h r : List (U32 w)} (hh : Bytewise h) (hr : Bytewise r) (hhlen : h.length = 17)
    (hrlen : r.length = 17) :
    ((value 256 (nats (mul1305 h r)) : ℕ) : ZMod p1305) =
      (value 256 (nats h) : ℕ) * (value 256 (nats r) : ℕ) := by
  rw [mul1305_nats hh hr, value_range_map, value_eq_sum (nats h), value_eq_sum (nats r), nats_length,
    nats_length, hhlen, hrlen]
  push_cast
  exact sum_cyclic base_wraps (fun j => ((nats h).getD j 0 : ZMod p1305)) fun j =>
    ((nats r).getD j 0 : ZMod p1305)

theorem mul1305_lt {h r : List (U32 w)} (hh : Bytewise h) (hr : Bytewise r) :
    ∀ n ∈ nats (mul1305 h r), n < 2 ^ 29 := by
  intro n hn
  rw [mul1305_nats hh hr] at hn
  obtain ⟨i, -, rfl⟩ := List.mem_map.mp hn
  exact product_lt hh hr i

/-- **A block**: what is added is its number, and the sum is multiplied by the point. -/
theorem block_step {h r : List (U32 w)} (hh : Reduced h) (hr : Bytewise r) (hrlen : r.length = 17) (m : Bytes) :
    Reduced (squeeze (mul1305 (add1305 h (blockLimbs m)) r)) ∧
      ((value 256 (nats (squeeze (mul1305 (add1305 h (blockLimbs m)) r))) : ℕ) : ZMod p1305) =
        ((value 256 (nats h) : ℕ) + (value 256 ((m.take 16).map UInt8.toNat) + 256 ^ (min 16 m.length) : ℕ)) *
        (value 256 (nats r) : ℕ) := by
  have hsum := add1305_bytewise hh.bytewise (blockLimbs_bytewise m)
  have hlen : (add1305 h (blockLimbs m)).length = 17 := by
    rw [add1305_length hh.bytewise (blockLimbs_bytewise m) (by rw [hh.length, blockLimbs_length]), hh.length]
  have hvalue : value 256 (nats (add1305 h (blockLimbs m))) =
      value 256 (nats h) + (value 256 ((m.take 16).map UInt8.toNat) + 256 ^ (min 16 m.length)) := by
    have hsmall := hh.small
    have hblock := blockNumber_lt m
    rw [add1305_value hh.bytewise (blockLimbs_bytewise m) (by rw [hh.length, blockLimbs_length]),
      blockLimbs_value, hh.length]
    exact Nat.mod_eq_of_lt (by omega)
  obtain ⟨hreduced, q, hq⟩ :=
    squeeze_value (x := mul1305 (add1305 h (blockLimbs m)) r) (by simp [mul1305]) (mul1305_lt hsum hr)
  refine ⟨hreduced, ?_⟩
  have hcast := congrArg (Nat.cast : ℕ → ZMod p1305) hq
  rw [mul1305_value hsum hr hlen hrlen, Nat.cast_add, Nat.cast_mul p1305, p1305_eq_zero, zero_mul, add_zero,
    hvalue, Nat.cast_add] at hcast
  exact hcast.symm

/-- **The loop evaluates** the polynomial of the message. -/
theorem authLoop_value {r : List (U32 w)} (hr : Bytewise r) (hrlen : r.length = 17) (n : Nat) :
    ∀ m : Bytes, m.length ≤ n → ∀ h : List (U32 w), Reduced h → Reduced (authLoop r h m) ∧
      ((value 256 (nats (authLoop r h m)) : ℕ) : ZMod p1305) =
        ((blockNumbers m).map Nat.cast).foldl (fun a c => (a + c) * ((value 256 (nats r) : ℕ) : ZMod p1305))
        (value 256 (nats h) : ℕ) := by
  induction n with
  | zero =>
      intro m hm h hh
      rw [List.length_eq_zero_iff.mp (Nat.le_zero.mp hm), authLoop, blockNumbers, if_pos rfl, if_pos rfl]
      exact ⟨hh, rfl⟩
  | succ n ih =>
      intro m hm h hh
      rw [authLoop, blockNumbers]
      split
      · exact ⟨hh, rfl⟩
      · next hne =>
        have hpos := List.length_pos_iff.mpr hne
        obtain ⟨hstep, hvalue⟩ := block_step hh hr hrlen m
        have hrest := ih (m.drop 16) (by rw [List.length_drop]; omega) _ hstep
        rw [hvalue] at hrest
        exact hrest

/-! ## §6 The key -/

/-- What the clamping leaves of each limb. -/
def clampMask : List ℕ := [255, 255, 255, 15, 252, 255, 255, 15, 252, 255, 255, 15, 252, 255, 255, 15, 0]

theorem toNat_ofU8_mask (b : UInt8) {n : ℕ} (h : n < 2 ^ 32) :
    ((ofU8 b : U32 w) &&& BitVec.ofNat w.bits n).toNat = b.toNat &&& n := by
  rw [BitVec.toNat_and, toNat_ofU8, toNat_literal h]

theorem clamp_nats (k : Bytes) : nats (clamp k : List (U32 w)) =
    List.zipWith (· &&& ·) (((List.range 16).map fun j => (k.getD j 0).toNat) ++ [0]) clampMask := by
  have hwhole : ∀ b : UInt8, (ofU8 b : U32 w).toNat = b.toNat &&& 255 := by
    intro b
    have hand := Nat.and_two_pow_sub_one_eq_mod b.toNat 8
    rw [toNat_ofU8]
    exact (Nat.mod_eq_of_lt (UInt8.toNat_lt b)).symm.trans hand.symm
  have h15 : ∀ b : UInt8, ((ofU8 b : U32 w) &&& 15).toNat = b.toNat &&& 15 :=
    fun b => toNat_ofU8_mask b (by decide)
  have h252 : ∀ b : UInt8, ((ofU8 b : U32 w) &&& 252).toNat = b.toNat &&& 252 :=
    fun b => toNat_ofU8_mask b (by decide)
  have hzero : (0 : U32 w).toNat = 0 &&& 0 := toNat_literal (by decide)
  have hlist : (clamp k : List (U32 w)) =
      [ofU8 (k.getD 0 0), ofU8 (k.getD 1 0), ofU8 (k.getD 2 0), ofU8 (k.getD 3 0) &&& 15, ofU8 (k.getD 4 0) &&&
        252, ofU8 (k.getD 5 0), ofU8 (k.getD 6 0), ofU8 (k.getD 7 0) &&& 15, ofU8 (k.getD 8 0) &&& 252,
      ofU8 (k.getD 9 0), ofU8 (k.getD 10 0), ofU8 (k.getD 11 0) &&& 15, ofU8 (k.getD 12 0) &&& 252,
      ofU8 (k.getD 13 0), ofU8 (k.getD 14 0), ofU8 (k.getD 15 0) &&& 15, 0] := by
    simp [clamp, List.range_succ]
  rw [hlist]
  simp only [nats, List.range_succ, List.range_zero, List.nil_append, List.cons_append, List.map_cons,
    List.map_nil, clampMask, List.zipWith_cons_cons, List.zipWith_nil_left, hwhole, h15, h252, hzero]

/-- The limbs of the clamped half are the point. -/
theorem clamp_value (k : Bytes) : value 256 (nats (clamp k : List (U32 w))) = clamped k := by
  have hbytes : ∀ n ∈ ((List.range 16).map fun j => (k.getD j 0).toNat) ++ [0], n < 2 ^ 8 := by
    intro n hn
    rcases List.mem_append.mp hn with hn | hn
    · obtain ⟨j, -, rfl⟩ := List.mem_map.mp hn
      exact UInt8.toNat_lt _
    · rw [List.mem_singleton.mp hn]
      decide
  have hmask : value (2 ^ 8) clampMask = 0x0ffffffc0ffffffc0ffffffc0fffffff := by decide
  have hkey : value (2 ^ 8) (((List.range 16).map fun j => (k.getD j 0).toNat) ++ [0]) = halfKey k 0 := by
    rw [value_append, value_cons, value_nil, mul_zero, add_zero, mul_zero, add_zero]
    rfl
  have hland := value_zipWith_land hbytes (show ∀ n ∈ clampMask, n < 2 ^ 8 by decide)
  rw [hmask, hkey] at hland
  rw [clamp_nats]
  exact hland

theorem clamp_bytewise (k : Bytes) : Bytewise (clamp k : List (U32 w)) := by
  intro n hn
  rw [clamp_nats] at hn
  exact zipWith_land_lt (k := 8) _ (by decide) n hn

theorem clamp_length (k : Bytes) : (clamp k : List (U32 w)).length = 17 := by
  simp [clamp]

/-! ## §7 The tag -/

theorem minusp_nats : nats (minusp : List (U32 w)) = [5, 0, 0, 0, 0, 0, 0, 0, 0, 0, 0, 0, 0, 0, 0, 0, 252] := by
  have hzero : (0 : U32 w).toNat = 0 := toNat_literal (by decide)
  have hfive : (5 : U32 w).toNat = 5 := toNat_literal (by decide)
  have h252 : (252 : U32 w).toNat = 252 := toNat_literal (by decide)
  simp only [nats, minusp, List.map_cons, List.map_nil, hzero, hfive, h252]

/-- **Freezing** leaves the residue. -/
theorem freeze_value {g : List (U32 w)} (hg : Reduced g) :
    Bytewise (freeze g) ∧ (freeze g).length = 17 ∧
      value 256 (nats (freeze g)) = value 256 (nats g) % p1305 := by
  have hminusp : Bytewise (minusp : List (U32 w)) := by
    unfold Bytewise
    rw [minusp_nats]
    decide
  have hlen : g.length = (minusp : List (U32 w)).length := hg.length
  have hh := add1305_bytewise hg.bytewise hminusp
  have hhlen := (add1305_length hg.bytewise hminusp hlen).trans hg.length
  have hvalue := add1305_value hg.bytewise hminusp hlen
  have hneg : value 256 (nats (minusp : List (U32 w))) = 256 ^ 17 - p1305 := by
    rw [minusp_nats]
    decide
  rw [hneg, hg.length] at hvalue
  have hsplit := value_sixteen hhlen
  have hsmall := hg.small
  have htop := hh.getD_lt 16
  have hlow : value 256 (nats ((add1305 g minusp).take 16)) < 256 ^ 16 := by
    apply value_bytewise_lt
    · exact fun n hn => hh n (List.map_subset _ (List.take_subset 16 _) hn)
    · rw [List.length_take]
      omega
  have hshift : ((add1305 g minusp).getD 16 0 >>> 7).toNat = ((add1305 g minusp).getD 16 0).toNat / 128 :=
    toNat_shift _ 7
  unfold freeze
  dsimp only
  generalize add1305 g minusp = h at *
  have hchoose : ∀ f : U32 w → U32 w → U32 w, (∀ x y, f x y = y) → List.zipWith f h g = g := by
    intro f hf
    apply List.ext_getElem
    · rw [List.length_zipWith, hhlen, hg.length, Nat.min_self]
    · intro i _ _
      rw [List.getElem_zipWith, hf]
  have hkeep : ∀ f : U32 w → U32 w → U32 w, (∀ x y, f x y = x) → List.zipWith f h g = h := by
    intro f hf
    apply List.ext_getElem
    · rw [List.length_zipWith, hhlen, hg.length, Nat.min_self]
    · intro i _ _
      rw [List.getElem_zipWith, hf]
  by_cases hless : value 256 (nats g) < p1305
  · -- the subtraction has borrowed, and the mask brings back what there was
    have hone : h.getD 16 0 >>> 7 = 1#w.bits := by
      apply BitVec.eq_of_toNat_eq
      rw [hshift, toNat_literal (by decide)]
      rw [Nat.mod_eq_of_lt (by omega)] at hvalue
      unfold p1305 at hless hvalue
      omega
    have hall : ∀ x y : U32 w, x ^^^ (-1#w.bits &&& (y ^^^ x)) = y := by
      intro x y
      rw [BitVec.neg_one_eq_allOnes, BitVec.allOnes_and, BitVec.xor_comm y x, ← BitVec.xor_assoc,
        BitVec.xor_self, BitVec.zero_xor]
    rw [hone, hchoose _ hall, Nat.mod_eq_of_lt hless]
    exact ⟨hg.bytewise, hg.length, rfl⟩
  · have hdiff : value 256 (nats h) = value 256 (nats g) - p1305 := by
      have hp : p1305 < 256 ^ 17 := by decide
      rw [hvalue, show value 256 (nats g) + (256 ^ 17 - p1305) = value 256 (nats g) - p1305 + 256 ^ 17 by omega,
        Nat.add_mod_right]
      exact Nat.mod_eq_of_lt (by omega)
    have hzero : h.getD 16 0 >>> 7 = 0#w.bits := by
      apply BitVec.eq_of_toNat_eq
      rw [hshift, toNat_literal (by decide)]
      omega
    have hnone : ∀ x y : U32 w, x ^^^ (-0#w.bits &&& (y ^^^ x)) = x := by
      intro x y
      rw [BitVec.neg_zero, BitVec.zero_and, BitVec.xor_zero]
    have hmod : value 256 (nats g) % p1305 = value 256 (nats g) - p1305 := by
      rw [Nat.mod_eq_sub_mod (by omega), Nat.mod_eq_of_lt]
      unfold p1305
      omega
    rw [hzero, hkeep _ hnone, hmod, hdiff]
    exact ⟨hh, hhlen, rfl⟩

theorem pad_nats (k : Bytes) :
    nats (pad k : List (U32 w)) = ((List.range 16).map fun j => (k.getD (j + 16) 0).toNat) ++ [0] := by
  have hzero : (0 : U32 w).toNat = 0 := toNat_literal (by decide)
  rw [pad, nats_append, nats_singleton, nats, List.map_map, hzero]
  exact congrArg (· ++ [0]) (List.map_congr_left fun j _ => toNat_ofU8 _)

theorem pad_bytewise (k : Bytes) : Bytewise (pad k : List (U32 w)) := by
  intro n hn
  rw [pad_nats] at hn
  rcases List.mem_append.mp hn with hn | hn
  · obtain ⟨j, -, rfl⟩ := List.mem_map.mp hn
    exact UInt8.toNat_lt _
  · rw [List.mem_singleton.mp hn]
    decide

theorem pad_value (k : Bytes) : value 256 (nats (pad k : List (U32 w))) = halfKey k 16 := by
  rw [pad_nats, value_append, value_cons, value_nil, mul_zero, add_zero, mul_zero, add_zero]
  rfl

/-- What is written out: the number without its last limb. -/
theorem written_value {h : List (U32 w)} (hbytes : Bytewise h) (hlength : h.length = 17) :
    value 256 (((h.take 16).map toU8).map UInt8.toNat) = value 256 (nats h) % 2 ^ 128 := by
  have hfront : Bytewise (h.take 16) := fun n hn => hbytes n (List.map_subset _ (List.take_subset 16 _) hn)
  have hout : ((h.take 16).map toU8).map UInt8.toNat = nats (h.take 16) := by
    rw [List.map_map]
    apply List.map_congr_left
    intro x hx
    rw [Function.comp_apply, toNat_toU8]
    exact Nat.mod_eq_of_lt (hfront _ (List.mem_map_of_mem hx))
  have hlow := value_bytewise_lt hfront (by rw [List.length_take]; omega)
  have hsplit := value_sixteen hlength
  rw [hout]
  omega

/-- **The tag of a message** is the polynomial of its blocks at the clamped half of the key, modulo 2^130 - 5,
plus the other half, modulo 2^128: for every message and key, and however wide an `unsigned long` is. -/
theorem cryptoOnetimeauth_value (w : LongWidth) (m k : Bytes) :
    (cryptoOnetimeauth w m k).length = 16 ∧ value 256 ((cryptoOnetimeauth w m k).map UInt8.toNat) =
      poly1305 m k := by
  have hzeros : value 256 (nats (List.replicate 17 (0 : U32 w))) = 0 := by
    rw [nats, List.map_replicate, show (0 : U32 w).toNat = 0 from toNat_literal (by decide),
      value_replicate_zero]
  obtain ⟨hreduced, hloop⟩ :=
    authLoop_value (w := w) (clamp_bytewise k) (clamp_length k) m.length m le_rfl _ Reduced.zero
  obtain ⟨hbytes, hlen, hvalue⟩ := freeze_value hreduced
  rw [foldl_horner, hzeros, Nat.cast_zero, zero_mul, zero_add, clamp_value, ← List.map_reverse] at hloop
  rw [← ZMod.val_natCast, hloop] at hvalue
  have hpadlen : (freeze (authLoop (clamp k) (List.replicate 17 (0 : U32 w)) m)).length =
      (pad k : List (U32 w)).length := by
    rw [hlen]
    simp [pad]
  have hsum := add1305_value hbytes (pad_bytewise k) hpadlen
  have hsumbytes := add1305_bytewise hbytes (pad_bytewise k)
  have hsumlen := (add1305_length hbytes (pad_bytewise k) hpadlen).trans hlen
  rw [hvalue, pad_value, hlen] at hsum
  unfold cryptoOnetimeauth
  dsimp only
  refine ⟨by rw [List.length_map, List.length_take]; omega, ?_⟩
  rw [written_value hsumbytes hsumlen, hsum, poly1305]
  exact Nat.mod_mod_of_dvd _ (by decide)

/-- **Verifying a tag**: exactly the first 16 bytes of `h` decide, and they are compared with the polynomial. -/
theorem onetimeauth_verify (w : LongWidth) (h m k : Bytes) :
    cryptoOnetimeauthVerify w h m k = if halfKey h 0 = poly1305 m k then 0 else -1 := by
  obtain ⟨hlength, hvalue⟩ := cryptoOnetimeauth_value w m k
  have hbytes : ∀ i < 16, ((List.range 16).map fun j => h.getD (j + 0) 0).getD i 0 = h.getD i 0 := by
    intro i hi
    rw [List.getD_eq_getElem?_getD (l := List.map _ _), List.getElem?_map, List.getElem?_range hi]
    rfl
  have hsame : (∀ i < 16, h.getD i 0 = (cryptoOnetimeauth w m k).getD i 0) ↔ halfKey h 0 = poly1305 m k := by
    rw [← hvalue]
    constructor
    · intro hall
      unfold halfKey
      congr 1
      apply List.ext_getElem
      · rw [List.length_map, List.length_range, List.length_map, hlength]
      · intro i hi hi'
        rw [List.length_map, List.length_range] at hi
        rw [List.getElem_map, List.getElem_map, List.getElem_range, Nat.add_zero, hall i hi,
          List.getD_eq_getElem?_getD, List.getElem?_eq_getElem (by omega), Option.getD_some]
    · intro hnumber i hi
      have hlist : ((List.range 16).map fun j => h.getD (j + 0) 0) = cryptoOnetimeauth w m k := by
        apply bytes_eq_of_value
        · rw [List.length_map, List.length_range, hlength]
        · rw [List.map_map]
          exact hnumber
      rw [← hlist, hbytes i hi]
  rw [cryptoOnetimeauthVerify, cryptoVerify16, vn_eq]
  exact if_congr hsame rfl rfl

end SploneBox
