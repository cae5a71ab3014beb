/-
# SploneBox.Curve25519 — the field and the ladder of `crypto_scalarmult` in `tweetnacl.c`.

A field element is sixteen `i64`s in base 2^16, which may be negative and need not be reduced. The operations
are written as the code has them, over integers, and an operation that leaves `i64` has no result. None does:
carrying around twice makes limbs tight (`car25519_twice`), tight limbs can be added or subtracted once and
multiplied then (`A_spec`, `Z_spec`, `M_spec`), and what they compute is the arithmetic of the field with
2^255 - 19 elements, so that a round of the ladder is that of `SploneBox.Lib.Montgomery` (`ladderArith_spec`).
-/
import SploneBox.Bytes
import SploneBox.Lib.Checked
import SploneBox.Lib.Limbs
import SploneBox.Lib.Montgomery
import Mathlib.FieldTheory.Finite.Basic
import Mathlib.Tactic.NormNum.Prime

namespace SploneBox.Curve25519

open Lib.Checked Lib.Limbs Lib.Powers

/-! ## §1 The functions -/

/-- `i64`. -/
def i64 : IntType := .signed 63

/-- `gf`. -/
abbrev Gf := List Int

/-- `c-1+37*(c-1)*(i==15)`. -/
def carried (c : Int) (i : Nat) : Option Int := do
  let d ← i64.fit (c - 1)
  let m ← i64.fit (37 * d)
  i64.fit (d + m * if i = 15 then 1 else 0)

/-- `(i64)((u64)c << (u64)16)`. -/
def shifted (c : Int) : Int := (BitVec.ofInt 64 c <<< 16).toInt

/-- One round of `car25519`. -/
def carStep (o : Gf) (i : Nat) : Option Gf := do
  let x ← i64.fit (o.getD i 0 + 2 ^ 16)
  let o := o.set i x
  let c := x >>> (16 : Nat)
  let j := (i + 1) * if i < 15 then 1 else 0
  let d ← carried c i
  let y ← i64.fit (o.getD j 0 + d)
  let o := o.set j y
  let z ← i64.fit (o.getD i 0 - shifted c)
  some (o.set i z)

/-- `car25519`. -/
def car25519 (o : Gf) : Option Gf := (List.range 16).foldlM carStep o

/-- `sel25519`: `p` and `q`. -/
def sel25519 (p q : Gf) (b : Int) : Gf × Gf :=
  let c := ~~~ BitVec.ofInt 64 (b - 1)
  let t := fun i => c &&& (BitVec.ofInt 64 (p.getD i 0) ^^^ BitVec.ofInt 64 (q.getD i 0))
  ((List.range 16).map fun i => (BitVec.ofInt 64 (p.getD i 0) ^^^ t i).toInt,
    (List.range 16).map fun i => (BitVec.ofInt 64 (q.getD i 0) ^^^ t i).toInt)

/-- `x & (2^n - 1)`. -/
def lowBits (n : Nat) (x : Int) : Int := x % 2 ^ n

/-- One round of the inner loop of `pack25519`; the limbs of `m` are written one after the other. -/
def packStep (t m : Gf) (i : Nat) : Option Gf := do
  let x ← i64.fit (t.getD i 0 - 0xffff)
  let x ← i64.fit (x - lowBits 1 (m.getD (i - 1) 0 >>> (16 : Nat)))
  some (m.set (i - 1) (lowBits 16 (m.getD (i - 1) 0)) ++ [x])

/-- One round of the outer loop: `t` with the prime taken off, if it is not below it. -/
def packRound (t : Gf) : Option Gf := do
  let x ← i64.fit (t.getD 0 0 - 0xffed)
  let m ← (List.range' 1 14).foldlM (packStep t) [x]
  let x ← i64.fit (t.getD 15 0 - 0x7fff)
  let x ← i64.fit (x - lowBits 1 (m.getD 14 0 >>> (16 : Nat)))
  let b := lowBits 1 (x >>> (16 : Nat))
  let m := m.set 14 (lowBits 16 (m.getD 14 0)) ++ [x]
  some (sel25519 t m (1 - b)).1

/-- `pack25519`. -/
def pack25519 (n : Gf) : Option Bytes := do
  let t ← car25519 n
  let t ← car25519 t
  let t ← car25519 t
  let t ← packRound t
  let t ← packRound t
  some ((List.range 16).flatMap fun i =>
      [UInt8.ofInt (lowBits 8 (t.getD i 0)), UInt8.ofInt (t.getD i 0 >>> (8 : Nat))])

/-- `unpack25519`. -/
def unpack25519 (n : Bytes) : Gf :=
  let o := (List.range 16).map fun i =>
    (((n.getD (2 * i) 0).toNat + (n.getD (2 * i + 1) 0).toNat <<< 8 : Nat) : Int)
  o.set 15 (lowBits 15 (o.getD 15 0))

/-- `A`. -/
def A (a b : Gf) : Option Gf := (List.range 16).mapM fun i => i64.fit (a.getD i 0 + b.getD i 0)

/-- `Z`. -/
def Z (a b : Gf) : Option Gf := (List.range 16).mapM fun i => i64.fit (a.getD i 0 - b.getD i 0)

/-- `t[i+j]+=a[i]*b[j]`. -/
def mulStep (a b : Gf) (i : Nat) (t : Gf) (j : Nat) : Option Gf := do
  let p ← i64.fit (a.getD i 0 * b.getD j 0)
  let s ← i64.fit (t.getD (i + j) 0 + p)
  some (t.set (i + j) s)

/-- `t[i]+=38*t[i+16]`. -/
def foldStep (t : Gf) (i : Nat) : Option Gf := do
  let p ← i64.fit (38 * t.getD (i + 16) 0)
  let s ← i64.fit (t.getD i 0 + p)
  some (t.set i s)

/-- `M`. -/
def M (a b : Gf) : Option Gf := do
  let t := List.replicate 31 0
  let t ← (List.range 16).foldlM (fun t i => (List.range 16).foldlM (mulStep a b i) t) t
  let t ← (List.range 15).foldlM foldStep t
  let o ← car25519 (t.take 16)
  car25519 o

/-- `S`. -/
def S (a : Gf) : Option Gf := M a a

/-- `inv25519`. -/
def inv25519 (i : Gf) : Option Gf :=
  (List.range 254).reverse.foldlM (fun c a => do
    let c ← S c
    if a ≠ 2 ∧ a ≠ 4 then M c i else some c) i

/-- `_121665`. -/
def gf121665 : Gf := [0xDB41, 1, 0, 0, 0, 0, 0, 0, 0, 0, 0, 0, 0, 0, 0, 0]

/-- `a`, `b`, `c` and `d` of `crypto_scalarmult`. -/
structure Ladder where
  a : Gf
  b : Gf
  c : Gf
  d : Gf

/-- The arithmetic of one round of `crypto_scalarmult`. -/
def ladderArith (x a b c d : Gf) : Option Ladder := do
  let e ← A a c
  let a ← Z a c
  let c ← A b d
  let b ← Z b d
  let d ← S e
  let f ← S a
  let a ← M c a
  let c ← M b e
  let e ← A a c
  let a ← Z a c
  let b ← S a
  let c ← Z d f
  let a ← M c gf121665
  let a ← A a d
  let c ← M c a
  let a ← M d f
  let d ← M b x
  let b ← S e
  some ⟨a, b, c, d⟩

/-- One round, with the swaps before and behind it. -/
def ladderRound (x : Gf) (s : Ladder) (r : Int) : Option Ladder := do
  let p := sel25519 s.a s.b r
  let q := sel25519 s.c s.d r
  let s ← ladderArith x p.1 p.2 q.1 q.2
  let p := sel25519 s.a s.b r
  let q := sel25519 s.c s.d r
  some ⟨p.1, p.2, q.1, q.2⟩

/-- The scalar with its lowest three bits and its highest one taken off, and the one below set. -/
def clampScalar (n : Bytes) : Bytes :=
  let z := (List.range 31).map (fun i => n.getD i 0) ++ [(n.getD 31 0 &&& 127) ||| 64]
  z.set 0 (z.getD 0 0 &&& 248)

/-- `r=(z[i>>3]>>(i&7))&1`. -/
def scalarBit (z : Bytes) (i : Nat) : Int := (((z.getD (i >>> 3) 0).toNat >>> (i &&& 7)) &&& 1 : Nat)

/-- `gf1` and `gf0`. -/
def gf1 : Gf := 1 :: List.replicate 15 0

def gf0 : Gf := List.replicate 16 0

/-- `crypto_scalarmult`. -/
def cryptoScalarmult (n p : Bytes) : Option Bytes := do
  let z := clampScalar n
  let x := unpack25519 p
  let s ← (List.range 255).reverse.foldlM (fun s i => ladderRound x s (scalarBit z i)) ⟨gf1, x, gf0, gf1⟩
  let i ← inv25519 s.c
  let y ← M s.a i
  pack25519 y

/-- `crypto_scalarmult_base`. -/
def cryptoScalarmultBase (n : Bytes) : Option Bytes := cryptoScalarmult n (9 :: zeros 31)

/-! ## §2 Carrying -/

theorem i64_fit {x : Int} (hlo : -2 ^ 63 ≤ x) (hhi : x < 2 ^ 63) : i64.fit x = some x :=
  IntType.signed_fit hlo hhi

theorem fit_bind {α : Type} {x : Int} (hlo : -2 ^ 63 ≤ x) (hhi : x < 2 ^ 63) (f : Int → Option α) :
    (i64.fit x).bind f = f x := by
  rw [i64_fit hlo hhi]
  rfl

theorem getD_middle (done rest : Gf) (x : Int) : (done ++ x :: rest).getD done.length 0 = x := by
  rw [List.getD_eq_getElem?_getD, List.getElem?_append_right le_rfl, Nat.sub_self]
  rfl

theorem set_middle (done rest : Gf) (x y : Int) :
    (done ++ x :: rest).set done.length y = done ++ y :: rest := by
  rw [List.set_append_right _ _ le_rfl, Nat.sub_self]
  rfl

theorem shifted_eq {c : Int} (hlo : -2 ^ 47 ≤ c) (hhi : c < 2 ^ 47) : shifted c = c * 2 ^ 16 := by
  have htwo : (BitVec.twoPow 64 16).toInt = 2 ^ 16 := by decide
  rw [shifted, ← BitVec.mul_twoPow_eq_shiftLeft, BitVec.toInt_mul,
    BitVec.toInt_ofInt_eq_self (by decide) (by omega) (by omega), htwo,
    Int.bmod_eq_of_le_mul_two (by omega) (by omega)]

theorem carried_eq {c : Int} (hlo : -2 ^ 56 ≤ c) (hhi : c < 2 ^ 56) (i : Nat) :
    carried (c + 1) i = some (if i = 15 then 38 * c else c) := by
  have hmul : ∀ k : Int, k = 0 ∨ k = 1 → i64.fit (c + 37 * c * k) = some (c + 37 * c * k) := by
    rintro k (rfl | rfl) <;> exact i64_fit (by omega) (by omega)
  unfold carried
  rw [add_sub_cancel_right, i64_fit (by omega) (by omega)]
  show ((i64.fit (37 * c)).bind fun m => i64.fit (c + m * if i = 15 then 1 else 0)) = _
  rw [i64_fit (by omega) (by omega)]
  show i64.fit (c + 37 * c * if i = 15 then 1 else 0) = _
  split
  · rw [hmul 1 (Or.inr rfl), mul_one]
    congr 1
    ring
  · rw [hmul 0 (Or.inl rfl), mul_zero, add_zero]

/-- One round in the middle: the limb keeps its lowest 16 bits, and the next one takes the rest. -/
theorem carStep_middle {done rest : Gf} {x y : Int} (hdone : done.length < 15) (hxlo : -2 ^ 61 ≤ x)
    (hxhi : x < 2 ^ 61) (hylo : -2 ^ 61 ≤ y) (hyhi : y < 2 ^ 61) :
    carStep (done ++ x :: y :: rest) done.length = some (done ++ (x % 2 ^ 16) :: (y + x / 2 ^ 16) :: rest) := by
  have hnext : ∀ z y : Int, done ++ z :: y :: rest = (done ++ [z]) ++ y :: rest := by simp
  have hplace : ∀ z : Int, (done.length + 1) * (if done.length < 15 then 1 else 0) = (done ++ [z]).length := by
    intro z
    rw [if_pos hdone, mul_one, List.length_append, List.length_singleton]
  have hshift : (x + 2 ^ 16) >>> (16 : Nat) = x / 2 ^ 16 + 1 := by
    rw [Int.shiftRight_eq_div_pow]
    omega
  have hread :
      ((done ++ (x + 2 ^ 16) :: y :: rest).getD ((done.length + 1) * if done.length < 15 then 1 else 0) 0) =
        y := by
    rw [hplace (x + 2 ^ 16), hnext, getD_middle]
  have hwrite :
      ∀ y', (done ++ (x + 2 ^ 16) :: y :: rest).set ((done.length + 1) * if done.length < 15 then 1 else 0) y' =
      done ++ (x + 2 ^ 16) :: y' :: rest := by
    intro y'
    rw [hplace (x + 2 ^ 16), hnext, set_middle, ← hnext]
  have hrest : x + 2 ^ 16 - (x / 2 ^ 16 + 1) * 2 ^ 16 = x % 2 ^ 16 := by omega
  unfold carStep
  simp only [getD_middle, Option.bind_eq_bind]
  rw [fit_bind (by omega) (by omega)]
  simp only [set_middle, getD_middle, hshift, hread, hwrite]
  rw [carried_eq (by omega) (by omega), if_neg hdone.ne, Option.bind_some, fit_bind (by omega) (by omega),
    shifted_eq (by omega) (by omega), hrest, fit_bind (by omega) (by omega)]

/-- The last round: what is left over comes back at the first limb, 38 times. -/
theorem carStep_last {done : Gf} {x h : Int} (hdone : done.length = 14) (hxlo : -2 ^ 60 ≤ x) (hxhi : x < 2 ^ 60)
    (hhlo : -2 ^ 61 ≤ h) (hhhi : h < 2 ^ 61) :
    carStep (h :: done ++ [x]) 15 = some ((h + 38 * (x / 2 ^ 16)) :: done ++ [x % 2 ^ 16]) := by
  have hlength : ∀ h : Int, (h :: done).length = 15 := fun h => by rw [List.length_cons, hdone]
  have hread : ∀ h z, (h :: done ++ [z]).getD 15 0 = z := fun h z => hlength h ▸ getD_middle (h :: done) [] z
  have hwrite : ∀ h z z', (h :: done ++ [z]).set 15 z' = h :: done ++ [z'] :=
    fun h z z' => hlength h ▸ set_middle (h :: done) [] z z'
  have hshift : (x + 2 ^ 16) >>> (16 : Nat) = x / 2 ^ 16 + 1 := by
    rw [Int.shiftRight_eq_div_pow]
    omega
  have hrest : x + 2 ^ 16 - (x / 2 ^ 16 + 1) * 2 ^ 16 = x % 2 ^ 16 := by omega
  unfold carStep
  simp only [hread, Option.bind_eq_bind]
  rw [fit_bind (by omega) (by omega)]
  simp only [hwrite, hshift]
  rw [carried_eq (by omega) (by omega), if_pos rfl, Option.bind_some, if_neg (by decide), mul_zero]
  show (i64.fit (h + 38 * (x / 2 ^ 16))).bind _ = _
  rw [fit_bind (by omega) (by omega)]
  show (i64.fit (((h + 38 * (x / 2 ^ 16)) :: done ++ [x + 2 ^ 16]).getD 15 0 - _)).bind _ = _
  rw [hread, shifted_eq (by omega) (by omega), hrest, fit_bind (by omega) (by omega)]
  exact congrArg some (hwrite _ _ _)

/-- The limbs are no larger than `β`. -/
def Within (β : Int) (o : Gf) : Prop := ∀ x ∈ o, -β ≤ x ∧ x ≤ β

/-- The rounds in the middle carry; `u` has been added to the limb that is next. -/
theorem carStep_run {β : Int} (hβ : 1 ≤ β) (hβ' : β ≤ 2 ^ 58) (mid : Gf) :
    ∀ (done : Gf) {u x z : Int}, done.length + mid.length < 15 →
    (-β ≤ u ∧ u ≤ β) → (-β ≤ x ∧ x ≤ β) → Within β mid → (-β ≤ z ∧ z ≤ β) →
    (List.range' done.length (mid.length + 1)).foldlM carStep (done ++ (u + x) :: (mid ++ [z])) =
      some (done ++ (carryInt (2 ^ 16) u (x :: mid)).1 ++ [(carryInt (2 ^ 16) u (x :: mid)).2 + z]) := by
  induction mid with
  | nil =>
      intro done u x z hlength hu hx _ hz
      have hstep : carStep (done ++ (u + x) :: z :: []) done.length =
          some (done ++ ((u + x) % 2 ^ 16) :: (z + (u + x) / 2 ^ 16) :: []) :=
        carStep_middle hlength (by omega) (by omega) (by omega) (by omega)
      rw [List.length_nil, zero_add, List.range'_one, List.foldlM_cons, List.nil_append, hstep, add_comm z]
      simp [carryInt]
  | cons y mid ih =>
      intro done u x z hlength hu hx hmid hz
      rw [List.length_cons] at hlength
      have hy := hmid y List.mem_cons_self
      have hstep : carStep (done ++ (u + x) :: y :: (mid ++ [z])) done.length =
          some (done ++ ((u + x) % 2 ^ 16) :: (y + (u + x) / 2 ^ 16) :: (mid ++ [z])) :=
        carStep_middle (by omega) (by omega) (by omega) (by omega) (by omega)
      have hlength' : (done ++ [(u + x) % 2 ^ 16]).length = done.length + 1 := by
        rw [List.length_append, List.length_singleton]
      have hrest :=
        ih (done ++ [(u + x) % 2 ^ 16]) (u := (u + x) / 2 ^ 16) (x := y) (z := z) (by rw [hlength']; omega)
        (by omega) hy (fun y' hy' => hmid y' (List.mem_cons_of_mem y hy')) hz
      rw [hlength', List.append_assoc, List.singleton_append, add_comm _ y] at hrest
      rw [List.length_cons, List.range'_succ, List.foldlM_cons, List.cons_append, hstep, Option.bind_eq_bind,
        Option.bind_some, hrest]
      simp [carryInt]

/-- **`car25519` carries once around**: what the highest limb leaves over comes back at the lowest, 38 times. -/
theorem car25519_eq {β : Int} (hβ : 1 ≤ β) (hβ' : β ≤ 2 ^ 58) {o : Gf} (hlength : o.length = 16)
    (ho : Within β o) :
    ∃ x xs, (carryInt (2 ^ 16) 0 o).1 = x :: xs ∧
      car25519 o = some ((x + 38 * (carryInt (2 ^ 16) 0 o).2) :: xs) := by
  obtain ⟨h, os, rfl⟩ := List.exists_cons_of_length_pos (l := o) (by omega)
  rw [List.length_cons] at hlength
  obtain ⟨mid, z, rfl⟩ : ∃ mid z, os = mid ++ [z] :=
    ⟨os.dropLast, os.getLast (by rintro rfl; cases hlength), (List.dropLast_append_getLast _).symm⟩
  rw [List.length_append, List.length_singleton] at hlength
  have hh := ho h List.mem_cons_self
  have hz := ho z (List.mem_cons_of_mem h (List.mem_append_right mid (List.mem_singleton_self z)))
  have hmid : Within β mid := fun y hy => ho y (List.mem_cons_of_mem h (List.mem_append_left [z] hy))
  have hfront : Within β (h :: mid) := List.forall_mem_cons.mpr ⟨hh, hmid⟩
  have hout := carryInt_out_within (C := 2 ^ 16) (by decide) hβ (u := 0) ⟨by omega, by omega⟩ hfront
  have hrun :=
    carStep_run hβ hβ' mid [] (u := 0) (z := z) (by rw [List.length_nil]; omega) ⟨by omega, by omega⟩ hh hmid hz
  have hrounds : List.range 16 = List.range' 0 (mid.length + 1) ++ [15] := by
    rw [show mid.length = 14 by omega]
    rfl
  -- the carried limbs but the last are the first one and fourteen behind it
  have hcarried := carryInt_mem (C := 2 ^ 16) (by decide) 0 (h :: mid)
  have hcount := length_carryInt (C := 2 ^ 16) 0 (h :: mid)
  have hsplit := carryInt_append (C := 2 ^ 16) 0 (h :: mid) [z]
  generalize carryInt (2 ^ 16) 0 (h :: mid) = r at hrun hcarried hcount hsplit hout
  obtain ⟨limbs, c⟩ := r
  obtain ⟨x, xs, rfl⟩ := List.exists_cons_of_length_pos (l := limbs) (by rw [hcount]; exact Nat.succ_pos _)
  have hx := hcarried x List.mem_cons_self
  rw [List.length_cons, List.length_cons] at hcount
  have hlast :
      carStep (x :: xs ++ [c + z]) 15 = some ((x + 38 * ((c + z) / 2 ^ 16)) :: xs ++ [(c + z) % 2 ^ 16]) :=
    carStep_last (by omega) (by omega) (by omega) (by omega) (by omega)
  refine ⟨x, xs ++ [(c + z) % 2 ^ 16], ?_, ?_⟩
  · rw [← List.cons_append, hsplit]
    rfl
  · have hone : [15].foldlM carStep (x :: xs ++ [c + z]) = carStep (x :: xs ++ [c + z]) 15 := by simp
    have hc : (carryInt (2 ^ 16) 0 (h :: (mid ++ [z]))).2 = (c + z) / 2 ^ 16 := by
      rw [← List.cons_append, hsplit]
      rfl
    rw [zero_add] at hrun
    have hmiddle :
        (List.range' 0 (mid.length + 1)).foldlM carStep (h :: (mid ++ [z])) = some (x :: xs ++ [c + z]) := hrun
    rw [car25519, hrounds, List.foldlM_append, hmiddle, Option.bind_eq_bind, Option.bind_some, hone, hlast, hc]
    rfl

/-- What `car25519` makes of limbs with the value `v`. -/
def Carried (v : Int) (o : Gf) : Prop :=
  ∃ x xs, o = (x + 38 * (v / 2 ^ 256)) :: xs ∧ xs.length = 15 ∧ (0 ≤ x ∧ x < 2 ^ 16) ∧
    (∀ y ∈ xs, 0 ≤ y ∧ y < 2 ^ 16) ∧
    x + 2 ^ 16 * value (2 ^ 16) xs = v % 2 ^ 256

theorem Carried.length {v : Int} {o : Gf} (h : Carried v o) : o.length = 16 := by
  obtain ⟨x, xs, rfl, hlength, -⟩ := h
  rw [List.length_cons, hlength]

theorem Carried.value_eq {v : Int} {o : Gf} (h : Carried v o) :
    value (2 ^ 16) o = v % 2 ^ 256 + 38 * (v / 2 ^ 256) := by
  obtain ⟨x, xs, rfl, -, -, -, hvalue⟩ := h
  rw [value_cons]
  omega

theorem carried_of_car25519 {β : Int} (hβ : 1 ≤ β) (hβ' : β ≤ 2 ^ 58) {o : Gf} (hlength : o.length = 16)
    (ho : Within β o) :
    (∃ o', car25519 o = some o' ∧ Carried (value (2 ^ 16) o) o') ∧ -β ≤ value (2 ^ 16) o / 2 ^ 256 ∧
      value (2 ^ 16) o / 2 ^ 256 ≤ β := by
  obtain ⟨x, xs, hsplit, hcar⟩ := car25519_eq hβ hβ' hlength ho
  have hquotient := carryInt_out (C := 2 ^ 16) (by decide) 0 o
  have hvalue := value_carryInt (C := 2 ^ 16) 0 o
  have hmem := carryInt_mem (C := 2 ^ 16) (by decide) 0 o
  have hcount := length_carryInt (C := 2 ^ 16) 0 o
  have hout := carryInt_out_within (C := 2 ^ 16) (by decide) hβ (u := 0) ⟨by omega, by omega⟩ ho
  rw [hlength, ← pow_mul, zero_add] at hquotient hvalue
  rw [hsplit, hlength, List.length_cons] at hcount
  rw [hsplit] at hmem
  rw [hsplit, value_cons] at hvalue
  rw [hquotient] at hcar hvalue hout
  refine ⟨⟨_, hcar, x, xs, rfl, by omega, hmem x List.mem_cons_self, fun y hy =>
    hmem y (List.mem_cons_of_mem x hy), ?_⟩, hout⟩
  omega

/-! ## §3 The field -/

/-- `2^255 - 19`. -/
abbrev p25519 : ℕ := 2 ^ 255 - 19

/-- The certificates of the prime and of the large factors, down to numbers that can be tried. -/
theorem prime_p25519 : (2 ^ 255 - 19).Prime := by
  have h₁ : Nat.Prime 2773320623 := by
    apply IsCertificate.prime (show IsCertificate _ 5 32 [2, 2437, 569003] by decide +kernel)
    simp only [List.forall_mem_cons, List.not_mem_nil, false_imp_iff, implies_true, and_true]
    norm_num
  have h₂ : Nat.Prime 72106336199 := by
    apply IsCertificate.prime (show IsCertificate _ 7 37 [2, 13, 2773320623] by decide +kernel)
    simp only [List.forall_mem_cons, List.not_mem_nil, false_imp_iff, implies_true, and_true]
    exact ⟨by norm_num, by norm_num, h₁⟩
  have h₃ : Nat.Prime 1919519569386763 := by
    apply IsCertificate.prime (show IsCertificate _ 2 51 [2, 3, 7, 19, 47, 47, 127, 8574133] by decide +kernel)
    simp only [List.forall_mem_cons, List.not_mem_nil, false_imp_iff, implies_true, and_true]
    norm_num
  have h₄ : Nat.Prime 31757755568855353 := by
    apply IsCertificate.prime
      (show IsCertificate _ 10 55 [2, 2, 2, 3, 31, 107, 223, 4153, 430751] by decide +kernel)
    simp only [List.forall_mem_cons, List.not_mem_nil, false_imp_iff, implies_true, and_true]
    norm_num
  have h₅ : Nat.Prime 75445702479781427272750846543864801 := by
    apply IsCertificate.prime (show IsCertificate _ 7 116 [2, 2, 2, 2, 2, 3, 3, 5, 5, 75707, 72106336199,
      1919519569386763] by decide +kernel)
    simp only [List.forall_mem_cons, List.not_mem_nil, false_imp_iff, implies_true, and_true]
    refine ⟨?_, ?_, ?_, ?_, ?_, ?_, ?_, ?_, ?_, ?_, h₂, h₃⟩ <;> norm_num
  have h₆ : Nat.Prime 74058212732561358302231226437062788676166966415465897661863160754340907 := by
    apply IsCertificate.prime (show IsCertificate _ 2 236 [2, 3, 353, 57467, 132049, 1923133, 31757755568855353,
      75445702479781427272750846543864801] by decide +kernel)
    simp only [List.forall_mem_cons, List.not_mem_nil, false_imp_iff, implies_true, and_true]
    refine ⟨?_, ?_, ?_, ?_, ?_, ?_, h₄, h₅⟩ <;> norm_num
  apply IsCertificate.prime (show IsCertificate _ 2 255 [2, 2, 3, 65147,
    74058212732561358302231226437062788676166966415465897661863160754340907] by decide +kernel)
  simp only [List.forall_mem_cons, List.not_mem_nil, false_imp_iff, implies_true, and_true]
  refine ⟨?_, ?_, ?_, ?_, h₆⟩ <;> norm_num

instance fact_prime_p25519 : Fact p25519.Prime := ⟨prime_p25519⟩

/-- What limbs stand for. -/
def el (o : Gf) : ZMod p25519 := (value (2 ^ 16) o : ℤ)

theorem two_pow_256 : ((2 ^ 256 : ℤ) : ZMod p25519) = (38 : ℤ) :=
  (ZMod.intCast_eq_intCast_iff _ _ _).mpr (by decide)

/-- Carrying around does not change what the limbs stand for. -/
theorem Carried.el_eq {v : Int} {o : Gf} (h : Carried v o) : el o = v := by
  have hv : v = v % 2 ^ 256 + 2 ^ 256 * (v / 2 ^ 256) := (Int.emod_add_mul_ediv v (2 ^ 256)).symm
  rw [el, h.value_eq]
  conv_rhs => rw [hv]
  rw [Int.cast_add, Int.cast_add, Int.cast_mul, Int.cast_mul, two_pow_256]

/-- Limbs that are digits but for the lowest one, which may be 38 more or less. -/
def Tight (o : Gf) : Prop :=
  ∃ x xs, o = x :: xs ∧ xs.length = 15 ∧ (-38 ≤ x ∧ x < 2 ^ 16 + 38) ∧ ∀ y ∈ xs, 0 ≤ y ∧ y < 2 ^ 16

theorem Tight.length {o : Gf} (h : Tight o) : o.length = 16 := by
  obtain ⟨x, xs, rfl, hlength, -⟩ := h
  rw [List.length_cons, hlength]

theorem Tight.within {o : Gf} (h : Tight o) : Within (2 ^ 17 - 1) o := by
  obtain ⟨x, xs, rfl, -, hx, hxs⟩ := h
  refine List.forall_mem_cons.mpr ⟨⟨by omega, by omega⟩, fun y hy => ?_⟩
  have hy := hxs y hy
  omega

/-- **Carrying around twice** leaves hardly anything over. -/
theorem car25519_twice {β : Int} (hβ : 1 ≤ β) (hβ' : β ≤ 2 ^ 50) {o : Gf} (hlength : o.length = 16)
    (ho : Within β o) :
    ∃ o', (car25519 o).bind car25519 = some o' ∧ Tight o' ∧ el o' = el o ∧ ∃ v, Carried v o' ∧
      -1 ≤ v / 2 ^ 256 ∧ v / 2 ^ 256 ≤ 1 := by
  obtain ⟨⟨o₁, hcar₁, h₁⟩, hlo, hhi⟩ := carried_of_car25519 hβ (by omega) hlength ho
  have hwithin : Within (2 ^ 16 + 38 * β) o₁ := by
    obtain ⟨x, xs, rfl, -, hx, hxs, -⟩ := h₁
    refine List.forall_mem_cons.mpr ⟨⟨by omega, by omega⟩, fun y hy => ?_⟩
    have hy := hxs y hy
    omega
  obtain ⟨⟨o₂, hcar₂, h₂⟩, -⟩ :=
    carried_of_car25519 (β := 2 ^ 16 + 38 * β) (by omega) (by omega) h₁.length hwithin
  have hquotient : -1 ≤ value (2 ^ 16) o₁ / 2 ^ 256 ∧ value (2 ^ 16) o₁ / 2 ^ 256 ≤ 1 := by
    rw [h₁.value_eq]
    omega
  refine ⟨o₂, ?_, ?_, ?_, _, h₂, hquotient⟩
  · rw [hcar₁, Option.bind_some, hcar₂]
  · obtain ⟨x, xs, hcons, hcount, hx, hxs, -⟩ := h₂
    exact ⟨_, xs, hcons, hcount, by omega, hxs⟩
  · rw [h₂.el_eq]
    exact h₁.el_eq

/-! ## §4 Adding and multiplying -/

theorem mapM_some {α β : Type} {f : α → Option β} {g : α → β} {l : List α} (h : ∀ x ∈ l, f x = some (g x)) :
    l.mapM f = some (l.map g) := by
  induction l with
  | nil => rfl
  | cons x l ih =>
      rw [List.mapM_cons, h x List.mem_cons_self, ih fun y hy => h y (List.mem_cons_of_mem x hy)]
      rfl

theorem Within.getD {β : Int} (hβ : 0 ≤ β) {o : Gf} (h : Within β o) (i : Nat) :
    -β ≤ o.getD i 0 ∧ o.getD i 0 ≤ β := by
  rw [List.getD_eq_getElem?_getD]
  cases hi : o[i]? with
  | none => exact ⟨by rw [Option.getD_none]; omega, hβ⟩
  | some x => exact h x (List.mem_of_getElem? hi)

/-- The value of sixteen limbs that are computed one by one. -/
theorem el_range (f : Nat → Int) :
    el ((List.range 16).map f) = ∑ i ∈ Finset.range 16, (f i : ZMod p25519) * (2 ^ 16) ^ i := by
  rw [el, value_range_map, Int.cast_sum]
  refine Finset.sum_congr rfl fun i _ => ?_
  push_cast
  rfl

theorem el_eq_sum {o : Gf} (h : o.length = 16) :
    el o = ∑ i ∈ Finset.range 16, (o.getD i 0 : ZMod p25519) * (2 ^ 16) ^ i := by
  rw [el, value_eq_sum, h, Int.cast_sum]
  refine Finset.sum_congr rfl fun i _ => ?_
  push_cast
  rfl

/-- `A` and `Z` compute limb by limb. -/
theorem limbwise {f : Int → Int → Int} {β γ : Int} (hγ : γ < 2 ^ 63) {a b : Gf} (hβ : 0 ≤ β) (ha : Within β a)
    (hb : Within β b) (hf : ∀ x y, (-β ≤ x ∧ x ≤ β) → (-β ≤ y ∧ y ≤ β) → -γ ≤ f x y ∧ f x y ≤ γ) :
    ((List.range 16).mapM fun i => i64.fit (f (a.getD i 0) (b.getD i 0))) =
      some ((List.range 16).map fun i => f (a.getD i 0) (b.getD i 0)) ∧
      Within γ ((List.range 16).map fun i => f (a.getD i 0) (b.getD i 0)) := by
  have hbound : ∀ i, -γ ≤ f (a.getD i 0) (b.getD i 0) ∧ f (a.getD i 0) (b.getD i 0) ≤ γ :=
    fun i => hf _ _ (ha.getD hβ i) (hb.getD hβ i)
  constructor
  · apply mapM_some
    intro i _
    have h := hbound i
    exact i64_fit (by omega) (by omega)
  · intro x hx
    obtain ⟨i, -, rfl⟩ := List.mem_map.mp hx
    exact hbound i

theorem A_spec {a b : Gf} (ha : Tight a) (hb : Tight b) :
    ∃ o, A a b = some o ∧ o.length = 16 ∧ Within (2 ^ 18) o ∧ el o = el a + el b := by
  obtain ⟨hsome, hwithin⟩ :=
    limbwise (f := fun x y => x + y) (γ := 2 ^ 18) (by decide) (by decide) ha.within hb.within (by omega)
  refine ⟨_, hsome, by simp, hwithin, ?_⟩
  rw [el_range, el_eq_sum ha.length, el_eq_sum hb.length, ← Finset.sum_add_distrib]
  refine Finset.sum_congr rfl fun i _ => ?_
  rw [Int.cast_add, add_mul]

theorem Z_spec {a b : Gf} (ha : Tight a) (hb : Tight b) :
    ∃ o, Z a b = some o ∧ o.length = 16 ∧ Within (2 ^ 18) o ∧ el o = el a - el b := by
  obtain ⟨hsome, hwithin⟩ :=
    limbwise (f := fun x y => x - y) (γ := 2 ^ 18) (by decide) (by decide) ha.within hb.within (by omega)
  refine ⟨_, hsome, by simp, hwithin, ?_⟩
  rw [el_range, el_eq_sum ha.length, el_eq_sum hb.length, ← Finset.sum_sub_distrib]
  refine Finset.sum_congr rfl fun i _ => ?_
  rw [Int.cast_sub, sub_mul]

theorem Within.set {β γ : Int} (hβ : β ≤ γ) {o : Gf} (h : Within β o) (i : Nat) {y : Int}
    (hy : -γ ≤ y ∧ y ≤ γ) : Within γ (o.set i y) := by
  intro x hx
  rcases List.mem_or_eq_of_mem_set hx with hx | rfl
  · have hx := h x hx
    omega
  · exact hy

theorem mulStep_spec {a b t : Gf} (ha : Within (2 ^ 18) a) (hb : Within (2 ^ 18) b) {γ : Int} (hγ : 0 ≤ γ)
    (hγ' : γ ≤ 2 ^ 60) (ht : t.length = 31) (hwithin : Within γ t) {i j : Nat} (hij : i + j < 31) :
    ∃ t', mulStep a b i t j = some t' ∧ t'.length = 31 ∧ Within (γ + 2 ^ 36) t' ∧
      value (2 ^ 16) t' = value (2 ^ 16) t + a.getD i 0 * b.getD j 0 * (2 ^ 16) ^ (i + j) := by
  have hai := ha.getD (by decide) i
  have hbj := hb.getD (by decide) j
  have hread := hwithin.getD hγ (i + j)
  have hproduct : -2 ^ 36 ≤ a.getD i 0 * b.getD j 0 ∧ a.getD i 0 * b.getD j 0 ≤ 2 ^ 36 := by
    generalize a.getD i 0 = x at hai
    generalize b.getD j 0 = y at hbj
    constructor <;> nlinarith
  refine ⟨t.set (i + j) (t.getD (i + j) 0 + a.getD i 0 * b.getD j 0), ?_, ?_, ?_, ?_⟩
  · unfold mulStep
    simp only [Option.bind_eq_bind]
    rw [fit_bind (by omega) (by omega), fit_bind (by omega) (by omega)]
  · rw [List.length_set, ht]
  · exact hwithin.set (by omega) _ (by omega)
  · rw [value_set (by omega), add_sub_cancel_left]

/-- One row of the product. -/
theorem row_spec {a b : Gf} (ha : Within (2 ^ 18) a) (hb : Within (2 ^ 18) b) {i : Nat} (hi : i < 16) {γ : Int}
    (hγ : 0 ≤ γ) (hγ' : γ ≤ 2 ^ 59) {t : Gf} (ht : t.length = 31) (hwithin : Within γ t) (m : Nat)
    (hm : m ≤ 16) :
    ∃ t', (List.range m).foldlM (mulStep a b i) t = some t' ∧ t'.length = 31 ∧ Within (γ + m * 2 ^ 36) t' ∧
      value (2 ^ 16) t' = value (2 ^ 16) t + a.getD i 0 * (2 ^ 16) ^ i * ∑ j ∈ Finset.range m,
      b.getD j 0 * (2 ^ 16) ^ j := by
  induction m with
  | zero =>
      refine ⟨t, rfl, ht, ?_, ?_⟩
      · rw [Nat.cast_zero, zero_mul, add_zero]
        exact hwithin
      · rw [Finset.range_zero, Finset.sum_empty, mul_zero, add_zero]
  | succ m ih =>
      obtain ⟨t₁, hrun, ht₁, hwithin₁, hvalue₁⟩ := ih (Nat.le_of_succ_le hm)
      obtain ⟨t₂, hstep, ht₂, hwithin₂, hvalue₂⟩ :=
        mulStep_spec (i := i) (j := m) ha hb (by omega) (by omega) ht₁ hwithin₁ (by omega)
      refine ⟨t₂, ?_, ht₂, ?_, ?_⟩
      · rw [List.range_succ, List.foldlM_append, hrun, Option.bind_eq_bind, Option.bind_some,
          List.foldlM_cons, hstep]
        rfl
      · have hbound : γ + (m + 1 : ℕ) * 2 ^ 36 = γ + m * 2 ^ 36 + 2 ^ 36 := by
          push_cast
          ring
        rw [hbound]
        exact hwithin₂
      · rw [hvalue₂, hvalue₁, Finset.sum_range_succ, pow_add]
        ring

/-- The rows of the product. -/
theorem rows_spec {a b : Gf} (ha : Within (2 ^ 18) a) (hb : Within (2 ^ 18) b) (n : Nat) (hn : n ≤ 16) :
    ∃ t, (List.range n).foldlM (fun t i => (List.range 16).foldlM (mulStep a b i) t) (List.replicate 31 0) =
      some t ∧ t.length = 31 ∧
      Within (n * 2 ^ 40) t ∧ value (2 ^ 16) t =
        (∑ i ∈ Finset.range n, a.getD i 0 * (2 ^ 16) ^ i) * ∑ j ∈ Finset.range 16,
        b.getD j 0 * (2 ^ 16) ^ j := by
  induction n with
  | zero =>
      refine ⟨_, rfl, List.length_replicate, ?_, ?_⟩
      · intro x hx
        rw [List.eq_of_mem_replicate hx, Nat.cast_zero, zero_mul]
        exact ⟨le_rfl, le_rfl⟩
      · rw [value_replicate_zero, Finset.range_zero, Finset.sum_empty, zero_mul]
  | succ n ih =>
      obtain ⟨t₁, hrun, ht₁, hwithin₁, hvalue₁⟩ := ih (Nat.le_of_succ_le hn)
      obtain ⟨t₂, hrow, ht₂, hwithin₂, hvalue₂⟩ :=
        row_spec (i := n) ha hb (by omega) (by omega) (by omega) ht₁ hwithin₁ 16 le_rfl
      refine ⟨t₂, ?_, ht₂, ?_, ?_⟩
      · rw [List.range_succ (n := n), List.foldlM_append, hrun, Option.bind_eq_bind, Option.bind_some,
          List.foldlM_cons, hrow]
        rfl
      · have hbound : ((n + 1 : ℕ) : ℤ) * 2 ^ 40 = n * 2 ^ 40 + (16 : ℕ) * 2 ^ 36 := by
          push_cast
          ring
        rw [hbound]
        exact hwithin₂
      · rw [hvalue₂, hvalue₁, Finset.sum_range_succ _ n]
        ring

/-- The upper half comes back at the lower one, 38 times. -/
theorem fold_spec {t : Gf} (ht : t.length = 31) (hwithin : Within (2 ^ 44) t) (m : Nat) (hm : m ≤ 15) :
    ∃ t', (List.range m).foldlM foldStep t = some t' ∧ t'.length = 31 ∧
      ∀ k, t'.getD k 0 = if k < m then t.getD k 0 + 38 * t.getD (k + 16) 0 else t.getD k 0 := by
  induction m with
  | zero => exact ⟨t, rfl, ht, fun k => by rw [if_neg (Nat.not_lt_zero k)]⟩
  | succ m ih =>
      obtain ⟨t₁, hrun, ht₁, hread⟩ := ih (Nat.le_of_succ_le hm)
      have hlow := hwithin.getD (by decide) m
      have hhigh := hwithin.getD (by decide) (m + 16)
      refine ⟨t₁.set m (t.getD m 0 + 38 * t.getD (m + 16) 0), ?_, by rw [List.length_set, ht₁], fun k => ?_⟩
      · have hstep : foldStep t₁ m = some (t₁.set m (t.getD m 0 + 38 * t.getD (m + 16) 0)) := by
          unfold foldStep
          simp only [Option.bind_eq_bind]
          rw [hread, hread, if_neg (by omega), if_neg (by omega), fit_bind (by omega) (by omega),
            fit_bind (by omega) (by omega)]
        rw [List.range_succ, List.foldlM_append, hrun, Option.bind_eq_bind, Option.bind_some,
          List.foldlM_cons, hstep]
        rfl
      · by_cases hk : k = m
        · subst hk
          rw [if_pos (Nat.lt_succ_self k), List.getD_eq_getElem?_getD, List.getElem?_set_self (by omega),
            Option.getD_some]
        · rw [List.getD_eq_getElem?_getD, List.getElem?_set_ne (Ne.symm hk),
            ← List.getD_eq_getElem?_getD, hread]
          exact if_congr (by omega) rfl rfl

/-- What wraps around is worth 38 times as much. -/
theorem el_wrapped {t : Gf} (ht : t.length = 31) :
    el ((List.range 16).map fun k => t.getD k 0 + 38 * t.getD (k + 16) 0) = (value (2 ^ 16) t : ℤ) := by
  have hnone : t.getD 31 0 = 0 := by
    rw [List.getD_eq_getElem?_getD, List.getElem?_eq_none (by omega), Option.getD_none]
  have hvalue : value (2 ^ 16) t = ∑ k ∈ Finset.range (16 + 16), t.getD k 0 * (2 ^ 16) ^ k := by
    rw [Finset.sum_range_succ _ 31, hnone, zero_mul, add_zero, value_eq_sum, ht]
  have hwrap : ((2 ^ 16 : ℤ) : ZMod p25519) ^ 16 = (38 : ℤ) := by
    rw [← Int.cast_pow, ← pow_mul]
    exact two_pow_256
  rw [el_range, hvalue, Finset.sum_range_add, Int.cast_add, Int.cast_sum, Int.cast_sum,
    ← Finset.sum_add_distrib]
  refine Finset.sum_congr rfl fun k _ => ?_
  have hbase : (2 ^ 16 : ZMod p25519) = ((2 ^ 16 : ℤ) : ZMod p25519) := by norm_num
  rw [Int.cast_mul, Int.cast_mul, Int.cast_pow, Int.cast_pow _ (16 + k), pow_add, hwrap, hbase, Int.cast_add,
    Int.cast_mul, Nat.add_comm k]
  ring

/-- **`M` multiplies**, and nothing overflows on the way. -/
theorem M_spec {a b : Gf} (halen : a.length = 16) (hblen : b.length = 16) (ha : Within (2 ^ 18) a)
    (hb : Within (2 ^ 18) b) :
    ∃ o, M a b = some o ∧ Tight o ∧ el o = el a * el b := by
  obtain ⟨t, hrows, ht, hwithin, hvalue⟩ := rows_spec ha hb 16 le_rfl
  obtain ⟨u, hfold, hu, hread⟩ := fold_spec ht hwithin 15 le_rfl
  have htake : u.take 16 = (List.range 16).map fun k => t.getD k 0 + 38 * t.getD (k + 16) 0 := by
    apply List.ext_getElem
    · rw [List.length_take, hu, List.length_map, List.length_range]
      rfl
    · intro k hk hk'
      rw [List.length_map, List.length_range] at hk'
      have hlimb := hread k
      rw [List.getD_eq_getElem?_getD, List.getElem?_eq_getElem (show k < u.length by omega),
        Option.getD_some] at hlimb
      rw [List.getElem_take, List.getElem_map, List.getElem_range, hlimb]
      split
      · rfl
      · -- the last limb of the lower half has nothing above it
        have hnone : t.getD (k + 16) 0 = 0 := by
          rw [List.getD_eq_getElem?_getD, List.getElem?_eq_none (by omega), Option.getD_none]
        rw [hnone, mul_zero, add_zero]
  have hbound : Within (2 ^ 50) (u.take 16) := by
    rw [htake]
    intro x hx
    obtain ⟨k, -, rfl⟩ := List.mem_map.mp hx
    have hlow := hwithin.getD (by decide) k
    have hhigh := hwithin.getD (by decide) (k + 16)
    constructor <;> omega
  obtain ⟨o, hcar, htight, hel, -⟩ :=
    car25519_twice (by decide) le_rfl (by rw [List.length_take, hu]; rfl) hbound
  refine ⟨o, ?_, htight, ?_⟩
  · unfold M
    simp only [Option.bind_eq_bind]
    rw [hrows, Option.bind_some, hfold, Option.bind_some]
    exact hcar
  · rw [hel, htake, el_wrapped ht, hvalue, Int.cast_mul]
    show _ = ((value (2 ^ 16) a : ℤ) : ZMod p25519) * ((value (2 ^ 16) b : ℤ) : ZMod p25519)
    rw [value_eq_sum a, value_eq_sum b, halen, hblen]

theorem Tight.within_mul {o : Gf} (h : Tight o) : Within (2 ^ 18) o := fun x hx => by
  have hx := h.within x hx
  omega

theorem S_spec {a : Gf} (halen : a.length = 16) (ha : Within (2 ^ 18) a) :
    ∃ o, S a = some o ∧ Tight o ∧ el o = el a ^ 2 := by
  obtain ⟨o, hM, ho, hel⟩ := M_spec halen halen ha ha
  exact ⟨o, hM, ho, hel.trans (sq _).symm⟩

/-! ## §5 Inverting -/

theorem inv25519_spec {i : Gf} (hi : Tight i) : ∃ o, inv25519 i = some o ∧ Tight o ∧ el o = (el i)⁻¹ := by
  -- the exponent has all its bits set but the second and the fourth
  have hbits : (List.range 254).reverse.map (fun a => decide (a ≠ 2 ∧ a ≠ 4)) = bits 254 (2 ^ 254 - 21) := by
    decide +kernel
  have hstep : ∀ e c b, Tight c ∧ el c = el i ^ e →
      ∃ c', ((S c).bind fun c => if b = true then M c i else some c) = some c' ∧
      Tight c' ∧ el c' = el i ^ (2 * e + b.toNat) := by
    rintro e c b ⟨hc, hel⟩
    obtain ⟨s, hS, hs, hsel⟩ := S_spec hc.length hc.within_mul
    rw [hel, ← pow_mul, mul_comm e] at hsel
    cases b with
    | false =>
        refine ⟨s, by rw [hS, Option.bind_some, if_neg Bool.false_ne_true], hs, ?_⟩
        rw [hsel, Bool.toNat_false, add_zero]
    | true =>
        obtain ⟨m, hM, hm, hmel⟩ := M_spec hs.length hi.length hs.within_mul hi.within_mul
        refine ⟨m, by rw [hS, Option.bind_some, if_pos rfl, hM], hm, ?_⟩
        rw [hmel, hsel, ← pow_succ, Bool.toNat_true]
  obtain ⟨o, hrun, ho, hel⟩ :=
    exists_foldlM_bits hstep 254 (2 ^ 254 - 21) (a := 1) (s := i) ⟨hi, (pow_one _).symm⟩
  refine ⟨o, ?_, ho, ?_⟩
  · rw [← hbits, List.foldlM_map] at hrun
    simpa [inv25519] using hrun
  · have hexponent : 1 * 2 ^ 254 + (2 ^ 254 - 21) % 2 ^ 254 = p25519 - 2 := by decide +kernel
    rw [hel, hexponent]
    by_cases hzero : el i = 0
    · rw [hzero, inv_zero, zero_pow (by decide)]
    · apply eq_inv_of_mul_eq_one_left
      have hnext : p25519 - 2 + 1 = p25519 - 1 := by decide +kernel
      rw [← pow_succ, hnext]
      exact ZMod.pow_card_sub_one_eq_one hzero

/-! ## §6 The ladder -/

theorem range_getD {p : Gf} (hp : p.length = 16) : (List.range 16).map (fun i => p.getD i 0) = p := by
  apply List.ext_getElem
  · rw [List.length_map, List.length_range, hp]
  · intro i hi hi'
    rw [List.getElem_map, List.getElem_range, List.getD_eq_getElem?_getD, List.getElem?_eq_getElem hi',
      Option.getD_some]

/-- `sel25519` swaps, or does not. -/
theorem sel25519_eq {p q : Gf} (hp : p.length = 16) (hq : q.length = 16) (hpw : Within (2 ^ 62) p)
    (hqw : Within (2 ^ 62) q) (b : Bool) :
    sel25519 p q (if b then 1 else 0) = if b then (q, p) else (p, q) := by
  have hread : ∀ {o : Gf}, Within (2 ^ 62) o → ∀ i, (BitVec.ofInt 64 (o.getD i 0)).toInt = o.getD i 0 := by
    intro o ho i
    have h := ho.getD (by decide) i
    exact BitVec.toInt_ofInt_eq_self (by decide) (by omega) (by omega)
  unfold sel25519
  cases b with
  | false =>
      have hmask : ~~~ BitVec.ofInt 64 ((if false = true then 1 else 0) - 1) = 0#64 := by decide
      rw [hmask]
      simp only [BitVec.zero_and, BitVec.xor_zero, hread hpw, hread hqw, range_getD hp, range_getD hq]
      rfl
  | true =>
      have hmask : ~~~ BitVec.ofInt 64 ((if true = true then 1 else 0) - 1) = BitVec.allOnes 64 := by decide
      have hswap : ∀ x y : BitVec 64, x ^^^ (x ^^^ y) = y := fun x y => by
        rw [← BitVec.xor_assoc, BitVec.xor_self, BitVec.zero_xor]
      have hswap' : ∀ x y : BitVec 64, y ^^^ (x ^^^ y) = x := fun x y => by rw [BitVec.xor_comm x, hswap]
      rw [hmask]
      simp only [BitVec.allOnes_and, hswap, hswap', hread hpw, hread hqw, range_getD hp, range_getD hq]
      rfl

theorem bind_of_eq {α β : Type} {x : Option α} {f : α → Option β} {a : α} {b : β} (hx : x = some a)
    (hf : f a = some b) : x >>= f = some b := by
  rw [hx]
  exact hf

/-- The fractions that a state stands for. -/
def Ladder.els (s : Ladder) : (ZMod p25519 × ZMod p25519) × (ZMod p25519 × ZMod p25519) :=
  ((el s.a, el s.c), (el s.b, el s.d))

structure Ladder.Tight (s : Ladder) : Prop where
  a : Curve25519.Tight s.a
  b : Curve25519.Tight s.b
  c : Curve25519.Tight s.c
  d : Curve25519.Tight s.d

theorem gf121665_tight : Tight gf121665 := ⟨0xDB41, _, rfl, rfl, by decide, by decide⟩

theorem el_gf121665 : el gf121665 = 121665 := by
  show ((value (2 ^ 16) gf121665 : ℤ) : ZMod p25519) = 121665
  rw [show value (2 ^ 16) gf121665 = 121665 by decide]
  norm_num

open Lib.Montgomery in
/-- **One round doubles and adds.** -/
theorem ladderArith_spec {x a b c d : Gf} (hx : Tight x) (ha : Tight a) (hb : Tight b) (hc : Tight c)
    (hd : Tight d) :
    ∃ s, ladderArith x a b c d = some s ∧ s.Tight ∧
      s.els = (double 121665 (el a, el c), diffAdd (el x) (el a, el c) (el b, el d)) := by
  obtain ⟨e₁, he₁, hle₁, hwe₁, hele₁⟩ := A_spec ha hc
  obtain ⟨a₁, ha₁, hla₁, hwa₁, hela₁⟩ := Z_spec ha hc
  obtain ⟨c₁, hc₁, hlc₁, hwc₁, helc₁⟩ := A_spec hb hd
  obtain ⟨b₁, hb₁, hlb₁, hwb₁, helb₁⟩ := Z_spec hb hd
  obtain ⟨d₁, hd₁, htd₁, held₁⟩ := S_spec hle₁ hwe₁
  obtain ⟨f₁, hf₁, htf₁, helf₁⟩ := S_spec hla₁ hwa₁
  obtain ⟨a₂, ha₂, hta₂, hela₂⟩ := M_spec hlc₁ hla₁ hwc₁ hwa₁
  obtain ⟨c₂, hc₂, htc₂, helc₂⟩ := M_spec hlb₁ hle₁ hwb₁ hwe₁
  obtain ⟨e₂, he₂, hle₂, hwe₂, hele₂⟩ := A_spec hta₂ htc₂
  obtain ⟨a₃, ha₃, hla₃, hwa₃, hela₃⟩ := Z_spec hta₂ htc₂
  obtain ⟨b₂, hb₂, htb₂, helb₂⟩ := S_spec hla₃ hwa₃
  obtain ⟨c₃, hc₃, hlc₃, hwc₃, helc₃⟩ := Z_spec htd₁ htf₁
  obtain ⟨a₄, ha₄, hta₄, hela₄⟩ := M_spec hlc₃ gf121665_tight.length hwc₃ gf121665_tight.within_mul
  obtain ⟨a₅, ha₅, hla₅, hwa₅, hela₅⟩ := A_spec hta₄ htd₁
  obtain ⟨c₄, hc₄, htc₄, helc₄⟩ := M_spec hlc₃ hla₅ hwc₃ hwa₅
  obtain ⟨a₆, ha₆, hta₆, hela₆⟩ := M_spec htd₁.length htf₁.length htd₁.within_mul htf₁.within_mul
  obtain ⟨d₂, hd₂, htd₂, held₂⟩ := M_spec htb₂.length hx.length htb₂.within_mul hx.within_mul
  obtain ⟨b₃, hb₃, htb₃, helb₃⟩ := S_spec hle₂ hwe₂
  refine ⟨⟨a₆, b₃, c₄, d₂⟩, ?_, ⟨hta₆, htb₃, htc₄, htd₂⟩, ?_⟩
  · unfold ladderArith
    exact bind_of_eq he₁
      (bind_of_eq ha₁
        (bind_of_eq hc₁ (bind_of_eq hb₁ (bind_of_eq hd₁ (bind_of_eq hf₁ (bind_of_eq ha₂ (bind_of_eq hc₂
      (bind_of_eq he₂
        (bind_of_eq ha₃
          (bind_of_eq hb₂ (bind_of_eq hc₃ (bind_of_eq ha₄ (bind_of_eq ha₅ (bind_of_eq hc₄ (bind_of_eq ha₆
        (bind_of_eq hd₂ (bind_of_eq hb₃ rfl)))))))))))))))))
  · have hfst : (el a₆, el c₄) = double 121665 (el a, el c) := by
      rw [hela₆, helc₄, hela₅, hela₄, helc₃, held₁, helf₁, hele₁, hela₁, el_gf121665]
      rfl
    have hsnd : (el b₃, el d₂) = diffAdd (el x) (el a, el c) (el b, el d) := by
      rw [helb₃, held₂, helb₂, hele₂, hela₃, hela₂, helc₂, helc₁, hela₁, helb₁, hele₁, mul_comm _ (el x)]
      rfl
    exact Prod.ext hfst hsnd

end SploneBox.Curve25519
