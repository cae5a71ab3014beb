/-
# SploneBox.Scalarmult — what `crypto_scalarmult` computes.

The limbs that the ladder works on are read from 32 bytes and written to 32 bytes. Writing is where an element
gets one encoding: a third carry leaves digits (`car25519_thrice`), and the prime is taken off as often as it
goes in (`packRound_spec`, twice). So `crypto_scalarmult` is a function of the field (`cryptoScalarmult_eq`):
whatever the point's bytes are, it writes the first coordinate of the multiple that the clamped scalar says,
and two parties who multiply each other's multiples get the same 32 bytes.
-/
import SploneBox.Curve25519
import SploneBox.Secretbox

namespace SploneBox.Curve25519

open Lib.Checked Lib.Limbs Lib.Powers Lib.Montgomery

/-! ## §1 Digits -/

/-- The limbs are digits. -/
def Digits (o : Gf) : Prop := ∀ x ∈ o, 0 ≤ x ∧ x < 2 ^ 16

theorem Digits.getD {o : Gf} (h : Digits o) (i : Nat) : 0 ≤ o.getD i 0 ∧ o.getD i 0 < 2 ^ 16 := by
  rw [List.getD_eq_getElem?_getD]
  cases hi : o[i]? with
  | none => exact ⟨le_rfl, by decide⟩
  | some x => exact h x (List.mem_of_getElem? hi)

theorem Digits.within {o : Gf} (h : Digits o) : Within (2 ^ 62) o := fun x hx => by
  have hx := h x hx
  omega

theorem Digits.tight {o : Gf} (hlength : o.length = 16) (h : Digits o) : Tight o := by
  obtain ⟨x, xs, rfl⟩ := List.exists_cons_of_length_pos (l := o) (by omega)
  have hx := h x List.mem_cons_self
  exact ⟨x, xs, rfl, Nat.succ.inj hlength, by omega, fun y hy => h y (List.mem_cons_of_mem x hy)⟩

theorem Digits.value_mem {o : Gf} (hlength : o.length = 16) (h : Digits o) :
    0 ≤ value (2 ^ 16) o ∧ value (2 ^ 16) o < 2 ^ 256 := by
  have hmem := Lib.Limbs.value_mem (C := 2 ^ 16) (by decide) h
  rw [hlength, ← pow_mul] at hmem
  exact hmem

/-- **Carrying around a third time** leaves digits. -/
theorem car25519_thrice {β : Int} (hβ : 1 ≤ β) (hβ' : β ≤ 2 ^ 50) {o : Gf} (hlength : o.length = 16)
    (ho : Within β o) :
    ∃ o', ((car25519 o).bind car25519).bind car25519 = some o' ∧ o'.length = 16 ∧ Digits o' ∧ el o' = el o := by
  obtain ⟨o₂, hcar₂, htight, hel, v, h₂, hlo, hhi⟩ := car25519_twice hβ hβ' hlength ho
  obtain ⟨⟨o₃, hcar₃, h₃⟩, -⟩ :=
    carried_of_car25519 (β := 2 ^ 17 - 1) (by decide) (by decide) htight.length htight.within
  refine ⟨o₃, by rw [hcar₂, Option.bind_some, hcar₃], h₃.length, ?_, h₃.el_eq.trans hel⟩
  -- what is left over is -1, 0 or 1, and then the lowest limb has room for it
  have hv := h₂.value_eq
  obtain ⟨x, xs, rfl, -, hx, hxs, hvalue⟩ := h₃
  refine List.forall_mem_cons.mpr ⟨?_, hxs⟩
  generalize value (2 ^ 16) xs = w at hvalue
  generalize value (2 ^ 16) o₂ = u at hv hvalue ⊢
  omega

/-! ## §2 Writing -/

/-- The limbs of the prime but for the highest. -/
def primeLimb (i : Nat) : Int := if i = 0 then 0xffed else 0xffff

theorem value_prime : (∑ j ∈ Finset.range 15, primeLimb j * (2 ^ 16) ^ j) + 0x7fff * (2 ^ 16) ^ 15 =
    (2 ^ 255 - 19 : Int) := by decide

theorem lowBits_borrow {x : Int} (hlo : -2 ^ 16 ≤ x) (hhi : x < 2 ^ 16) :
    lowBits 1 (x >>> (16 : Nat)) = -(x / 2 ^ 16) := by
  rw [lowBits, Int.shiftRight_eq_div_pow]
  omega

/-- The inner loop subtracts the prime limb by limb; the last limb has what is borrowed from the next. -/
theorem packStep_run {t : Gf} (ht : Digits t) (k : Nat) :
    ∃ done x, (List.range' 1 k).foldlM (packStep t) [t.getD 0 0 - 0xffed] = some (done ++ [x]) ∧
      done.length = k ∧ Digits done ∧
      (-2 ^ 16 ≤ x ∧ x < 2 ^ 16) ∧ value (2 ^ 16) (done ++ [x]) = ∑ j ∈ Finset.range (k + 1),
      (t.getD j 0 - primeLimb j) * (2 ^ 16) ^ j := by
  induction k with
  | zero =>
      have h0 := ht.getD 0
      refine ⟨[], t.getD 0 0 - 0xffed, rfl, rfl, fun x hx => absurd hx List.not_mem_nil, by omega, ?_⟩
      simp [primeLimb]
  | succ k ih =>
      obtain ⟨done, x, hrun, hcount, hdone, hx, hvalue⟩ := ih
      have hk := ht.getD (k + 1)
      have hstep : packStep t (done ++ [x]) (k + 1) =
          some ((done ++ [x % 2 ^ 16]) ++ [t.getD (k + 1) 0 - 0xffff + x / 2 ^ 16]) := by
        have hlast : k + 1 - 1 = done.length := by omega
        have hread : (done ++ [x]).getD (k + 1 - 1) 0 = x := by
          rw [hlast]
          exact getD_middle done [] x
        have hwrite : (done ++ [x]).set (k + 1 - 1) (lowBits 16 x) = done ++ [x % 2 ^ 16] := by
          rw [hlast]
          exact set_middle done [] x _
        unfold packStep
        simp only [Option.bind_eq_bind]
        rw [fit_bind (by omega) (by omega), hread, lowBits_borrow hx.1 hx.2, fit_bind (by omega) (by omega),
          hwrite, sub_neg_eq_add]
      refine ⟨done ++ [x % 2 ^ 16], t.getD (k + 1) 0 - 0xffff + x / 2 ^ 16, ?_, ?_, ?_, by omega, ?_⟩
      · rw [List.range'_1_concat, List.foldlM_append, hrun, Option.bind_eq_bind, Option.bind_some,
          Nat.add_comm 1 k, List.foldlM_cons, hstep]
        rfl
      · rw [List.length_append, hcount, List.length_singleton]
      · intro y hy
        rcases List.mem_append.mp hy with hy | hy
        · exact hdone y hy
        · rw [List.mem_singleton.mp hy]
          omega
      · have hsplit : x % 2 ^ 16 + 2 ^ 16 * (x / 2 ^ 16) = x := Int.emod_add_mul_ediv x (2 ^ 16)
        have hlimb : primeLimb (k + 1) = 0xffff := if_neg (Nat.succ_ne_zero k)
        rw [Finset.sum_range_succ, ← hvalue, hlimb]
        simp only [value_append, value_cons, value_nil, List.length_append, List.length_singleton, hcount,
          mul_zero, add_zero]
        linear_combination (2 ^ 16) ^ k * hsplit

/-- **One round takes the prime off**, if it goes in. -/
theorem packRound_spec {t : Gf} (hlength : t.length = 16) (ht : Digits t) :
    ∃ t', packRound t = some t' ∧ t'.length = 16 ∧ Digits t' ∧
      value (2 ^ 16) t' = if value (2 ^ 16) t < 2 ^ 255 - 19 then value (2 ^ 16) t
      else value (2 ^ 16) t - (2 ^ 255 - 19) := by
  obtain ⟨done, x, hrun, hcount, hdone, hx, hvalue⟩ := packStep_run ht 14
  have h0 := ht.getD 0
  have h15 := ht.getD 15
  have hread : (done ++ [x]).getD 14 0 = x := hcount ▸ getD_middle done [] x
  have hwrite : (done ++ [x]).set 14 (lowBits 16 x) = done ++ [x % 2 ^ 16] := hcount ▸ set_middle done [] x _
  have hlow : Digits (done ++ [x % 2 ^ 16]) := by
    intro y hy
    rcases List.mem_append.mp hy with hy | hy
    · exact hdone y hy
    · rw [List.mem_singleton.mp hy]
      omega
  have hlowlen : (done ++ [x % 2 ^ 16]).length = 15 := by rw [List.length_append, hcount, List.length_singleton]
  have hmem := Lib.Limbs.value_mem (C := 2 ^ 16) (by decide) hlow
  rw [hlowlen] at hmem
  obtain ⟨y, hy⟩ : ∃ y, y = t.getD 15 0 - 0x7fff + x / 2 ^ 16 := ⟨_, rfl⟩
  -- what the subtraction leaves, with the highest limb not masked
  have hdiff :
      value (2 ^ 16) (done ++ [x % 2 ^ 16]) + (2 ^ 16) ^ 15 * y = value (2 ^ 16) t - (2 ^ 255 - 19) := by
    have hsplit : x % 2 ^ 16 + 2 ^ 16 * (x / 2 ^ 16) = x := Int.emod_add_mul_ediv x (2 ^ 16)
    have hsum : ∑ j ∈ Finset.range 15, (t.getD j 0 - primeLimb j) * (2 ^ 16) ^ j =
        (∑ j ∈ Finset.range 15, t.getD j 0 * (2 ^ 16) ^ j) - ∑ j ∈ Finset.range 15,
        primeLimb j * (2 ^ 16) ^ j := by
      rw [← Finset.sum_sub_distrib]
      exact Finset.sum_congr rfl fun j _ => sub_mul _ _ _
    rw [hsum] at hvalue
    rw [value_eq_sum t, hlength, Finset.sum_range_succ _ 15, ← value_prime, hy]
    rw [value_append, value_cons, value_nil, mul_zero, add_zero, hcount] at hvalue ⊢
    linear_combination hvalue + (2 ^ 16) ^ 14 * hsplit
  have hround : packRound t =
      some (sel25519 t (done ++ [x % 2 ^ 16] ++ [y]) ((1 : Int) - lowBits 1 (y >>> (16 : Nat)))).1 := by
    have hhigh : t.getD 15 0 - 0x7fff - -(x / 2 ^ 16) = y := by rw [hy, sub_neg_eq_add]
    unfold packRound
    simp only [Option.bind_eq_bind]
    rw [fit_bind (by omega) (by omega), hrun, Option.bind_some, fit_bind (by omega) (by omega), hread,
      lowBits_borrow hx.1 hx.2, hhigh, fit_bind (by omega) (by omega), hwrite]
  have hylo : -2 ^ 16 ≤ y := by omega
  have hyhi : y < 2 ^ 16 := by omega
  have hmlen : (done ++ [x % 2 ^ 16] ++ [y]).length = 16 := by
    rw [List.length_append, hlowlen, List.length_singleton]
  have hmw : Within (2 ^ 62) (done ++ [x % 2 ^ 16] ++ [y]) := by
    intro z hz
    rcases List.mem_append.mp hz with hz | hz
    · exact hlow.within z hz
    · rw [List.mem_singleton.mp hz]
      omega
  have hpow : ((2 : ℤ) ^ 16) ^ 15 = 2 ^ 240 := by norm_num
  rw [hpow] at hmem hdiff
  have hwhole : value (2 ^ 16) (done ++ [x % 2 ^ 16] ++ [y]) = value (2 ^ 16) t - (2 ^ 255 - 19) := by
    rw [value_append, hlowlen, hpow, value_cons, value_nil, mul_zero, add_zero, hdiff]
  rw [hround, lowBits_borrow hylo hyhi]
  by_cases hneg : y < 0
  · have hborrow : (1 - -(y / 2 ^ 16) : Int) = if false = true then 1 else 0 := by
      rw [show y / 2 ^ 16 = -1 by omega]
      decide
    rw [hborrow, sel25519_eq hlength hmlen ht.within hmw false]
    exact ⟨t, rfl, hlength, ht, (if_pos (by omega)).symm⟩
  · have hborrow : (1 - -(y / 2 ^ 16) : Int) = if true = true then 1 else 0 := by
      rw [show y / 2 ^ 16 = 0 by omega]
      decide
    rw [hborrow, sel25519_eq hlength hmlen ht.within hmw true]
    refine ⟨_, rfl, hmlen, ?_, hwhole.trans (if_neg (by omega)).symm⟩
    intro z hz
    rcases List.mem_append.mp hz with hz | hz
    · exact hlow z hz
    · rw [List.mem_singleton.mp hz]
      omega

theorem prime_eq_zero : ((2 ^ 255 - 19 : ℤ) : ZMod p25519) = 0 :=
  (ZMod.intCast_zmod_eq_zero_iff_dvd _ _).mpr (by decide)

/-- Taking the prime off does not change the element. -/
theorem el_of_taken {t t' : Gf}
    (h : value (2 ^ 16) t' = if value (2 ^ 16) t < 2 ^ 255 - 19 then value (2 ^ 16) t
      else value (2 ^ 16) t - (2 ^ 255 - 19)) : el t' = el t := by
  rw [el, el, h]
  split
  · rfl
  · rw [Int.cast_sub, prime_eq_zero, sub_zero]

/-- A limb is written in two bytes. -/
theorem packed_value {o : Gf} (h : Digits o) :
    ((value 256
      ((o.flatMap fun x => [UInt8.ofInt (lowBits 8 x), UInt8.ofInt (x >>> (8 : Nat))]).map UInt8.toNat) :
      ℕ) : ℤ) = value (2 ^ 16) o := by
  have hbyte : ∀ x : ℤ, 0 ≤ x → x < 256 → ((UInt8.ofInt x).toNat : ℤ) = x := by
    intro x hlo hhi
    rw [UInt8.ofInt, UInt8.toNat_ofNat']
    omega
  induction o with
  | nil => rfl
  | cons x o ih =>
      obtain ⟨hlo, hhi⟩ := h x List.mem_cons_self
      have hrest := ih fun y hy => h y (List.mem_cons_of_mem x hy)
      have hlow := hbyte (x % 2 ^ 8) (by omega) (by omega)
      have hhigh := hbyte (x / 2 ^ 8) (by omega) (by omega)
      have hshift : x >>> (8 : Nat) = x / 2 ^ 8 := Int.shiftRight_eq_div_pow x 8
      rw [List.flatMap_cons, hshift, lowBits]
      simp only [List.cons_append, List.nil_append, List.map_cons, value_cons, Nat.cast_add, Nat.cast_mul,
        Nat.cast_ofNat]
      rw [hlow, hhigh, hrest]
      omega

/-- **`pack25519` writes the element**, by the number below the prime that it is. -/
theorem pack25519_spec {n : Gf} (hlength : n.length = 16) (hn : Within (2 ^ 50) n) :
    ∃ q, pack25519 n = some q ∧ q.length = 32 ∧ value 256 (q.map UInt8.toNat) = (el n).val := by
  obtain ⟨t, hcar, htlen, ht, htel⟩ := car25519_thrice (by decide) le_rfl hlength hn
  obtain ⟨t₁, hround₁, htlen₁, ht₁, hvalue₁⟩ := packRound_spec htlen ht
  obtain ⟨t₂, hround₂, htlen₂, ht₂, hvalue₂⟩ := packRound_spec htlen₁ ht₁
  have hel : el t₂ = el n := (el_of_taken hvalue₂).trans ((el_of_taken hvalue₁).trans htel)
  have hbound := ht.value_mem htlen
  have hmem := ht₂.value_mem htlen₂
  -- the prime goes in twice at most
  have hsmall : value (2 ^ 16) t₂ < 2 ^ 255 - 19 := by
    split at hvalue₁ <;> split at hvalue₂ <;> omega
  have hval : ((el n).val : ℤ) = value (2 ^ 16) t₂ := by
    have hprime : ((p25519 : ℕ) : ℤ) = 2 ^ 255 - 19 := by decide
    rw [← hel, el, ZMod.val_intCast, hprime, Int.emod_eq_of_lt hmem.1 hsmall]
  refine ⟨t₂.flatMap fun x => [UInt8.ofInt (lowBits 8 x), UInt8.ofInt (x >>> (8 : Nat))], ?_, ?_, ?_⟩
  · have hthrice : ∀ f : Gf → Option Bytes, (((car25519 n).bind car25519).bind car25519).bind f = f t := by
      intro f
      rw [hcar, Option.bind_some]
    simp only [Option.bind_assoc] at hthrice
    have hbytes :
        ((List.range 16).flatMap fun i =>
          [UInt8.ofInt (lowBits 8 (t₂.getD i 0)), UInt8.ofInt (t₂.getD i 0 >>> (8 : Nat))]) =
        t₂.flatMap fun x => [UInt8.ofInt (lowBits 8 x), UInt8.ofInt (x >>> (8 : Nat))] := by
      conv_rhs => rw [← range_getD htlen₂, List.flatMap_map]
    unfold pack25519
    simp only [Option.bind_eq_bind]
    refine (hthrice _).trans ?_
    rw [hround₁, Option.bind_some, hround₂, Option.bind_some, hbytes]
  · rw [List.length_flatMap]
    simp [htlen₂]
  · have hpacked := (packed_value ht₂).trans hval.symm
    exact_mod_cast hpacked

/-! ## §3 Reading -/

/-- The element that 32 bytes stand for; their highest bit is not read. -/
def coordinate (p : Bytes) : ZMod p25519 :=
  (value 256 ((List.range 32).map fun i => (p.getD i 0).toNat) % 2 ^ 255 : ℕ)

theorem sum_pairs (f : ℕ → ℤ) (n : ℕ) :
    ∑ i ∈ Finset.range n, (f (2 * i) + f (2 * i + 1) * 256) * (2 ^ 16) ^ i = ∑ j ∈ Finset.range (2 * n),
      f j * 256 ^ j := by
  have hbase : (2 : ℤ) ^ 16 = 256 ^ 2 := by norm_num
  induction n with
  | zero => rw [Nat.mul_zero, Finset.range_zero, Finset.sum_empty, Finset.sum_empty]
  | succ n ih =>
      rw [Finset.sum_range_succ, ih, Nat.mul_succ, Finset.sum_range_succ _ (2 * n + 1),
        Finset.sum_range_succ _ (2 * n), hbase, ← pow_mul, pow_succ]
      ring

theorem unpack25519_spec (p : Bytes) : Tight (unpack25519 p) ∧ el (unpack25519 p) = coordinate p := by
  have hbyte : ∀ j, 0 ≤ ((p.getD j 0).toNat : ℤ) ∧ ((p.getD j 0).toNat : ℤ) < 256 := by
    intro j
    have h := UInt8.toNat_lt (p.getD j 0)
    omega
  obtain ⟨limb, hlimb⟩ : ∃ limb :
    ℕ → ℤ, ∀ i, limb i = (p.getD (2 * i) 0).toNat + (p.getD (2 * i + 1) 0).toNat * 256 := ⟨_, fun _ => rfl⟩
  have hread : ((List.range 16).map limb).getD 15 0 = limb 15 := rfl
  have hunpack : unpack25519 p = ((List.range 16).map limb).set 15 (limb 15 % 2 ^ 15) := by
    have hmap :
        (List.range 16).map (fun i =>
          (((p.getD (2 * i) 0).toNat + (p.getD (2 * i + 1) 0).toNat <<< 8 : Nat) : Int)) =
            (List.range 16).map limb := by
      refine List.map_congr_left fun i _ => ?_
      rw [hlimb, Nat.cast_add, Nat.shiftLeft_eq]
      norm_num
    unfold unpack25519
    dsimp only
    rw [hmap, hread, lowBits]
  have hdigit : ∀ i, 0 ≤ limb i ∧ limb i < 2 ^ 16 := by
    intro i
    have h := hbyte (2 * i)
    have h' := hbyte (2 * i + 1)
    rw [hlimb]
    omega
  have hlast := hdigit 15
  have hmapped : ∀ n, Digits ((List.range n).map limb) := by
    intro n x hx
    obtain ⟨i, -, rfl⟩ := List.mem_map.mp hx
    exact hdigit i
  refine ⟨Digits.tight (by rw [hunpack]; simp) ?_, ?_⟩
  · rw [hunpack]
    intro x hx
    rcases List.mem_or_eq_of_mem_set hx with hx | rfl
    · exact hmapped 16 x hx
    · omega
  · have hlow := Lib.Limbs.value_mem (C := 2 ^ 16) (by decide) (hmapped 15)
    have hwhole : value (2 ^ 16) ((List.range 16).map limb) =
        value (2 ^ 16) ((List.range 15).map limb) + 2 ^ 240 * limb 15 := by
      rw [value_range_map, value_range_map, Finset.sum_range_succ]
      ring
    have hnumber : ((value 256 ((List.range 32).map fun i => (p.getD i 0).toNat) : ℕ) : ℤ) =
        value (2 ^ 16) ((List.range 16).map limb) := by
      rw [value_range_map, value_range_map]
      push_cast
      rw [← sum_pairs (fun j => ((p.getD j 0).toNat : ℤ)) 16]
      refine Finset.sum_congr rfl fun i _ => ?_
      rw [hlimb]
      norm_num
    have hpow : ((2 : ℤ) ^ 16) ^ 15 = 2 ^ 240 := by norm_num
    have hmod : value (2 ^ 16) (unpack25519 p) =
        ((value 256 ((List.range 32).map fun i => (p.getD i 0).toNat) % 2 ^ 255 : ℕ) : ℤ) := by
      rw [List.length_map, List.length_range, hpow] at hlow
      have hcast : ((2 ^ 255 : ℕ) : ℤ) = 2 ^ 255 := by norm_num
      rw [hunpack, value_set (by simp), hread, hpow, Int.natCast_emod, hnumber, hcast, hwhole]
      generalize value (2 ^ 16) ((List.range 15).map limb) = w at hlow
      omega
    rw [el, hmod, Int.cast_natCast, coordinate]

/-- What is written below the prime is read again. -/
theorem coordinate_eq {q : Bytes} {x : ZMod p25519} (hq : q.length = 32)
    (hvalue : value 256 (q.map UInt8.toNat) = x.val) : coordinate q = x := by
  have hbytes : ((List.range 32).map fun i => (q.getD i 0).toNat) = q.map UInt8.toNat := by
    apply List.ext_getElem
    · rw [List.length_map, List.length_range, List.length_map, hq]
    · intro i hi hi'
      rw [List.length_map] at hi'
      rw [List.getElem_map, List.getElem_range, List.getElem_map, List.getD_eq_getElem?_getD,
        List.getElem?_eq_getElem hi', Option.getD_some]
  have hlt : x.val < 2 ^ 255 := (ZMod.val_lt x).trans_le (Nat.sub_le _ _)
  rw [coordinate, hbytes, hvalue, Nat.mod_eq_of_lt hlt, ZMod.natCast_zmod_val]

/-! ## §4 The scalar -/

/-- The number that the clamped scalar is. -/
def scalar (n : Bytes) : ℕ := value 256 ((clampScalar n).map UInt8.toNat)

theorem testBit_value (l : Bytes) (i : ℕ) :
    (value 256 (l.map UInt8.toNat)).testBit i = (l.getD (i / 8) 0).toNat.testBit (i % 8) := by
  induction l generalizing i with
  | nil => simp
  | cons b l ih =>
      have hb : b.toNat < 2 ^ 8 := UInt8.toNat_lt b
      rw [List.map_cons, value_cons, Nat.add_comm]
      show (2 ^ 8 * value 256 (l.map UInt8.toNat) + b.toNat).testBit i = _
      rw [Nat.testBit_two_pow_mul_add _ hb]
      by_cases h : i < 8
      · rw [if_pos h, Nat.div_eq_of_lt h, Nat.mod_eq_of_lt h]
        rfl
      · have hdiv : i / 8 = (i - 8) / 8 + 1 := by omega
        have hmod : i % 8 = (i - 8) % 8 := by omega
        rw [if_neg h, ih, hdiv, hmod, List.getD_cons_succ]

theorem scalarBit_eq (n : Bytes) (i : ℕ) : scalarBit (clampScalar n) i = if (scalar n).testBit i then 1
    else 0 := by
  have hmask : i &&& 7 = i % 8 := Nat.and_two_pow_sub_one_eq_mod i 3
  have hbyte : i >>> 3 = i / 8 := Nat.shiftRight_eq_div_pow i 3
  rw [scalarBit, scalar, testBit_value, hmask, hbyte, Nat.and_one_is_mod, Nat.shiftRight_eq_div_pow,
    ← Nat.toNat_testBit]
  cases ((clampScalar n).getD (i / 8) 0).toNat.testBit (i % 8) <;> rfl

/-- The highest bit is taken off. -/
theorem scalar_lt (n : Bytes) : scalar n < 2 ^ 255 := by
  apply Nat.lt_pow_two_of_testBit
  intro i hi
  rw [scalar, testBit_value]
  by_cases h : i = 255
  · subst h
    have hlast : (clampScalar n).getD (255 / 8) 0 = (n.getD 31 0 &&& 127) ||| 64 := rfl
    have hmask : Nat.testBit 127 7 = false := by decide
    have hset : Nat.testBit 64 7 = false := by decide
    rw [hlast, UInt8.toNat_or, UInt8.toNat_and, Nat.testBit_or, Nat.testBit_and]
    show ((n.getD 31 0).toNat.testBit 7 && Nat.testBit 127 7 || Nat.testBit 64 7) = false
    rw [hmask, hset, Bool.and_false, Bool.or_false]
  · have hlength : (clampScalar n).length = 32 := by simp [clampScalar]
    rw [List.getD_eq_getElem?_getD, List.getElem?_eq_none (by omega), Option.getD_none]
    exact Nat.zero_testBit _

/-! ## §5 The ladder -/

/-- One round is one step of the ladder: the swaps are those of the bit. -/
theorem ladderRound_spec {x : Gf} (hx : Tight x) {s : Ladder} (hs : s.Tight) (b : Bool) :
    ∃ s', ladderRound x s (if b then 1 else 0) = some s' ∧ s'.Tight ∧
      s'.els = ladderStep 121665 (el x) s.els b := by
  have hw : ∀ {o : Gf}, Tight o → Within (2 ^ 62) o := fun ho y hy => by
    have hy := ho.within y hy
    omega
  have hsel : ∀ {p q : Gf}, Tight p → Tight q → sel25519 p q (if b then 1 else 0) = if b then (q, p)
      else (p, q) :=
    fun hp hq => sel25519_eq hp.length hq.length (hw hp) (hw hq) b
  unfold ladderRound
  simp only [Option.bind_eq_bind]
  rw [hsel hs.a hs.b, hsel hs.c hs.d]
  cases b with
  | false =>
      obtain ⟨s', harith, hs', hels⟩ := ladderArith_spec hx hs.a hs.b hs.c hs.d
      refine ⟨s', ?_, hs', hels⟩
      show (ladderArith x s.a s.b s.c s.d).bind _ = _
      rw [harith, Option.bind_some, hsel hs'.a hs'.b, hsel hs'.c hs'.d]
      rfl
  | true =>
      obtain ⟨s', harith, hs', hels⟩ := ladderArith_spec hx hs.b hs.a hs.d hs.c
      refine ⟨⟨s'.b, s'.a, s'.d, s'.c⟩, ?_, ⟨hs'.b, hs'.a, hs'.d, hs'.c⟩, congrArg Prod.swap hels⟩
      show (ladderArith x s.b s.a s.d s.c).bind _ = _
      rw [harith, Option.bind_some, hsel hs'.a hs'.b, hsel hs'.c hs'.d]
      rfl

theorem ladder_run {x : Gf} (hx : Tight x) (l : List Bool) : ∀ {s : Ladder}, s.Tight →
    ∃ s', l.foldlM (fun s b => ladderRound x s (if b then 1 else 0)) s = some s' ∧ s'.Tight ∧
      s'.els = l.foldl (ladderStep 121665 (el x)) s.els := by
  induction l with
  | nil => exact fun hs => ⟨_, rfl, hs, rfl⟩
  | cons b l ih =>
      intro s hs
      obtain ⟨s₁, hround, hs₁, hels₁⟩ := ladderRound_spec hx hs b
      obtain ⟨s₂, hrun, hs₂, hels₂⟩ := ih hs₁
      refine ⟨s₂, ?_, hs₂, ?_⟩
      · rw [List.foldlM_cons]
        exact bind_of_eq hround hrun
      · rw [hels₂, hels₁, List.foldl_cons]

theorem gf1_tight : Tight gf1 := ⟨1, _, rfl, rfl, by decide, by decide⟩

theorem gf0_tight : Tight gf0 := ⟨0, _, rfl, rfl, by decide, by decide⟩

theorem el_gf1 : el gf1 = 1 := by
  rw [el, show value (2 ^ 16) gf1 = 1 by decide, Int.cast_one]

theorem el_gf0 : el gf0 = 0 := by
  rw [el, show value (2 ^ 16) gf0 = 0 by decide, Int.cast_zero]

/-- **`crypto_scalarmult` is the ladder**, for any scalar and any point, and nothing overflows. -/
theorem cryptoScalarmult_eq (n p : Bytes) :
    ∃ q, cryptoScalarmult n p = some q ∧ q.length = 32 ∧
      value 256 (q.map UInt8.toNat) = (mult 121665 (coordinate p) 255 (scalar n)).val := by
  obtain ⟨hx, hxel⟩ := unpack25519_spec p
  obtain ⟨s, hrun, hs, hels⟩ := ladder_run hx (bits 255 (scalar n)) (s := ⟨gf1, unpack25519 p, gf0, gf1⟩)
    ⟨gf1_tight, hx, gf0_tight, gf1_tight⟩
  obtain ⟨z, hinv, hz, hzel⟩ := inv25519_spec hs.c
  obtain ⟨y, hM, hy, hyel⟩ := M_spec hs.a.length hz.length hs.a.within_mul hz.within_mul
  have hwithin : Within (2 ^ 50) y := fun w hw => by
    have hw := hy.within w hw
    omega
  obtain ⟨q, hpack, hq, hvalue⟩ := pack25519_spec hy.length hwithin
  refine ⟨q, ?_, hq, ?_⟩
  · have hloop :
        (List.range 255).reverse.foldlM (fun s i => ladderRound (unpack25519 p) s (scalarBit (clampScalar n) i))
        ⟨gf1, unpack25519 p, gf0, gf1⟩ = some s := by
      rw [bits, List.foldlM_map] at hrun
      simpa only [scalarBit_eq] using hrun
    unfold cryptoScalarmult
    exact bind_of_eq hloop (bind_of_eq hinv (bind_of_eq hM hpack))
  · have hladder : s.els = ladder 121665 (coordinate p) 255 (scalar n) := by
      rw [hels, ladder, ← hxel]
      show List.foldl _ ((el gf1, el gf0), (el (unpack25519 p), el gf1)) _ = _
      rw [el_gf1, el_gf0]
    rw [hvalue, hyel, hzel, mult, ← hladder, div_eq_mul_inv]
    rfl

/-! ## §6 Points and keys -/

/-- The curve is smooth, and not over a field in which 2 is 0. -/
theorem constants_ne_zero : (2 : ZMod p25519) ≠ 0 ∧ (121665 : ZMod p25519) ≠ 0 ∧
    (121665 + 1 : ZMod p25519) ≠ 0 := by
  have hne : ∀ k : ℕ, 0 < k → k < p25519 → ((k : ℕ) : ZMod p25519) ≠ 0 := by
    intro k hk hlt hzero
    exact absurd (Nat.le_of_dvd hk ((ZMod.natCast_eq_zero_iff k p25519).mp hzero)) (by omega)
  refine ⟨?_, ?_, ?_⟩
  · exact_mod_cast hne 2 (by decide) (by decide)
  · exact_mod_cast hne 121665 (by decide) (by decide)
  · exact_mod_cast hne (121665 + 1) (by decide) (by decide)

/-- **`crypto_scalarmult` multiplies points.** What it writes is the first coordinate, below the prime, of the
multiple of every point that has the first coordinate read, over the field or over any field around it. -/
theorem scalarmult_multiplies (n p : Bytes) :
    ∃ q, cryptoScalarmult n p = some q ∧ q.length = 32 ∧ value 256 (q.map UInt8.toNat) < p25519 ∧
      IsMultiple 121665 (coordinate p) (coordinate q) (scalar n) := by
  obtain ⟨q, hmult, hq, hvalue⟩ := cryptoScalarmult_eq n p
  refine ⟨q, hmult, hq, by rw [hvalue]; exact ZMod.val_lt _, ?_⟩
  rw [coordinate_eq hq hvalue]
  exact isMultiple_mult constants_ne_zero.1 (scalar_lt n) _

/-- **Two parties agree.** Each multiplies the other's multiple of a point, and both have the same 32 bytes. -/
theorem scalarmult_agree (n m p : Bytes) :
    ∃ a b s, cryptoScalarmult n p = some a ∧ cryptoScalarmult m p = some b ∧ cryptoScalarmult n b = some s ∧
      cryptoScalarmult m a = some s := by
  obtain ⟨a, hmult, ha, hvalue⟩ := cryptoScalarmult_eq n p
  obtain ⟨b, hmult', hb, hvalue'⟩ := cryptoScalarmult_eq m p
  obtain ⟨s, hagain, hs, hsvalue⟩ := cryptoScalarmult_eq n b
  obtain ⟨s', hagain', hs', hsvalue'⟩ := cryptoScalarmult_eq m a
  have hsame : s = s' := by
    apply bytes_eq_of_value (hs.trans hs'.symm)
    obtain ⟨h2, hA, hA'⟩ := constants_ne_zero
    rw [hsvalue, hsvalue', coordinate_eq ha hvalue, coordinate_eq hb hvalue',
      mult_comm h2 hA hA' (scalar_lt m) (scalar_lt n)]
  exact ⟨a, b, s, hmult, hmult', hagain, hsame ▸ hagain'⟩

/-- `crypto_box_beforenm`. -/
def cryptoBoxBeforenm (w : LongWidth) (y x : Bytes) : Option Bytes := do
  let s ← cryptoScalarmult x y
  some (cryptoCoreHsalsa20 w (zeros 16) s sigma)

/-- **Both ends of a box have one key**: that of the other's public key and the own secret key, also where
their machines' `unsigned long`s differ. -/
theorem box_keys_agree (w w' : LongWidth) (x x' : Bytes) :
    ∃ y y' k, cryptoScalarmultBase x = some y ∧ cryptoScalarmultBase x' = some y' ∧
      cryptoBoxBeforenm w y' x = some k ∧
      cryptoBoxBeforenm w' y x' = some k := by
  obtain ⟨y, y', s, hpublic, hpublic', hshared, hshared'⟩ := scalarmult_agree x x' (9 :: zeros 31)
  refine ⟨y, y', cryptoCoreHsalsa20 w (zeros 16) s sigma, hpublic, hpublic', bind_of_eq hshared rfl,
    bind_of_eq hshared' ?_⟩
  rw [cryptoCoreHsalsa20, cryptoCoreHsalsa20, core_hsalsa20, core_hsalsa20]

/-- All of `tweetnacl.c` that the tunnel calls. -/
def tweetnacl (w : LongWidth) : Nacl :=
  Nacl.tweetnacl w (fun n p => (cryptoScalarmult n p).getD []) (9 :: zeros 31)

theorem tweetnacl_scalarmultBase (w : LongWidth) (x : Bytes) :
    cryptoScalarmultBase x = some ((tweetnacl w).scalarmultBase x) := by
  obtain ⟨q, hmult, -⟩ := cryptoScalarmult_eq x (9 :: zeros 31)
  show cryptoScalarmult x (9 :: zeros 31) = some ((cryptoScalarmult x (9 :: zeros 31)).getD [])
  rw [hmult, Option.getD_some]

theorem tweetnacl_beforenm (w : LongWidth) (y x : Bytes) :
    cryptoBoxBeforenm w y x = some ((tweetnacl w).beforenm y x) := by
  obtain ⟨q, hmult, -⟩ := cryptoScalarmult_eq x y
  show cryptoBoxBeforenm w y x = some (cryptoCoreHsalsa20 w (zeros 16) ((cryptoScalarmult x y).getD []) sigma)
  rw [cryptoBoxBeforenm, hmult, Option.getD_some]
  rfl

end SploneBox.Curve25519
