/-
# SploneBox.Salsa20 — the stream cipher of `tweetnacl.c`.

`core` is one function for two ciphers: with `h` it is HSalsa20, which derives a key from a nonce, and without
it is Salsa20, a block of the stream. It works on sixteen words as wide as an `unsigned long`, and mixes the
columns of their square while it writes the result down transposed, so two of its rounds are a double round of
the cipher.

* `core_salsa20` and `core_hsalsa20` say that what it computes, on words of any width, are the functions of
  `SploneBox.Lib.Salsa20`, which is on words of 32 bits and names nothing of this code. `lows` reads the
  square of 32-bit words off the words of the code, and `lows_coreRound` is one round.
* `crypto_stream_salsa20_xor` counts its blocks in eight bytes of the nonce, and passes the carry on by hand
  (`countLoop`). `countLoop_uint64Pack` says that this is adding one to a 64-bit number.
* `streamLoop_eq` follows the loop over the blocks, and the last one that is shorter: byte `i` of what comes
  out is byte `i` of what goes in, or 0 where there is no message, combined with byte `i` of the key stream.

The callers use `cryptoStreamXor_eq`: the stream is that of the key and the nonce (`keystream`), byte by byte,
and does not depend on what is enciphered. So enciphering twice is doing nothing, also with words of two
widths (`stream_cipher`).
-/
import SploneBox.Word32
import SploneBox.Lib.Limbs
import SploneBox.Lib.Salsa20
import Mathlib.LinearAlgebra.Matrix.Notation
import Mathlib.Tactic.FinCases

namespace SploneBox

open Lib.Limbs Lib.Salsa20

/-! ## §1 `core` -/

section Core

variable (w : LongWidth)

/-- The loop that fills `x`. -/
def coreInput (inp k c : Bytes) : List (U32 w) :=
  (List.range 4).foldl (fun x i =>
    let x := x.set (5 * i) (ld32 c (4 * i))
    let x := x.set (1 + i) (ld32 k (4 * i))
    let x := x.set (6 + i) (ld32 inp (4 * i))
    x.set (11 + i) (ld32 k (16 + 4 * i))) (List.replicate 16 0)

variable {w}

/-- `t[1] ^= L32(t[0] + t[3], 7);` and the three lines below it. -/
def quarter (t : List (U32 w)) : List (U32 w) :=
  let t := t.set 1 (t.getD 1 0 ^^^ L32 (t.getD 0 0 + t.getD 3 0) 7)
  let t := t.set 2 (t.getD 2 0 ^^^ L32 (t.getD 1 0 + t.getD 0 0) 9)
  let t := t.set 3 (t.getD 3 0 ^^^ L32 (t.getD 2 0 + t.getD 1 0) 13)
  t.set 0 (t.getD 0 0 ^^^ L32 (t.getD 3 0 + t.getD 2 0) 18)

/-- One of the 20 passes over `x`. -/
def coreRound (x : List (U32 w)) : List (U32 w) :=
  (List.range 4).foldl (fun y j =>
    let t := quarter ((List.range 4).map fun m => x.getD ((5 * j + 4 * m) % 16) 0)
    (List.range 4).foldl (fun y m => y.set (4 * j + (j + m) % 4) (t.getD m 0)) y) (List.replicate 16 0)

variable (w)

/-- `core`. -/
def core (inp k c : Bytes) (h : Bool) : Bytes :=
  let y := coreInput w inp k c
  let x := coreRound^[20] y
  if h then
    let x := List.zipWith (· + ·) x y
    let x := (List.range 4).foldl (fun x i =>
      let x := x.set (5 * i) (x.getD (5 * i) 0 - ld32 c (4 * i))
      x.set (6 + i) (x.getD (6 + i) 0 - ld32 inp (4 * i))) x
    ((List.range 4).flatMap fun i => st32 (x.getD (5 * i) 0)) ++ (List.range 4).flatMap fun i =>
        st32 (x.getD (6 + i) 0)
  else (List.zipWith (· + ·) x y).flatMap st32

/-- `crypto_core_salsa20`. -/
def cryptoCoreSalsa20 (inp k c : Bytes) : Bytes := core w inp k c false

/-- `crypto_core_hsalsa20`. -/
def cryptoCoreHsalsa20 (inp k c : Bytes) : Bytes := core w inp k c true

end Core

/-! ## §2 Words of 32 bits -/

/-- The word that four bytes write, the least significant first. -/
def loadedWord (x : Bytes) (i : Nat) : BitVec 32 :=
  (x.getD (i + 3) 0).toBitVec ++ (x.getD (i + 2) 0).toBitVec ++ (x.getD (i + 1) 0).toBitVec ++
    (x.getD i 0).toBitVec

/-- The four bytes of a word. -/
def wordBytes (x : BitVec 32) : Bytes :=
  [x.extractLsb' 0 8, x.extractLsb' 8 8, x.extractLsb' 16 8, x.extractLsb' 24 8].map UInt8.ofBitVec

/-- The state of an input, a key and a constant. -/
def expansion (inp k c : Bytes) : Square :=
  !![loadedWord c 0, loadedWord k 0, loadedWord k 4, loadedWord k 8;
    loadedWord k 12, loadedWord c 4, loadedWord inp 0, loadedWord inp 4;
    loadedWord inp 8, loadedWord inp 12, loadedWord c 8, loadedWord k 16;
    loadedWord k 20, loadedWord k 24, loadedWord k 28, loadedWord c 12]

variable {w : LongWidth}

/-- The square of what words of 32 bits hold of the words. -/
def lows (x : List (U32 w)) : Square := fun i j => low32 (x.getD (4 * i + j) 0)

theorem lows_sixteen (a₀ a₁ a₂ a₃ a₄ a₅ a₆ a₇ a₈ a₉ a₁₀ a₁₁ a₁₂ a₁₃ a₁₄ a₁₅ : U32 w) :
    lows [a₀, a₁, a₂, a₃, a₄, a₅, a₆, a₇, a₈, a₉, a₁₀, a₁₁, a₁₂, a₁₃, a₁₄, a₁₅] =
      !![low32 a₀, low32 a₁, low32 a₂, low32 a₃; low32 a₄, low32 a₅, low32 a₆, low32 a₇;
        low32 a₈, low32 a₉, low32 a₁₀, low32 a₁₁; low32 a₁₂, low32 a₁₃, low32 a₁₄, low32 a₁₅] := by
  funext i j
  fin_cases i <;> fin_cases j <;> rfl

theorem coreInput_eq (inp k c : Bytes) :
    coreInput w inp k c = [ld32 c 0, ld32 k 0, ld32 k 4, ld32 k 8, ld32 k 12, ld32 c 4, ld32 inp 0, ld32 inp 4,
      ld32 inp 8, ld32 inp 12, ld32 c 8, ld32 k 16, ld32 k 20, ld32 k 24, ld32 k 28, ld32 c 12] := by
  simp [coreInput, List.range_succ, List.replicate_succ]

@[simp] theorem coreInput_length (inp k c : Bytes) : (coreInput w inp k c).length = 16 := by
  rw [coreInput_eq]
  rfl

theorem lows_coreInput (inp k c : Bytes) : lows (coreInput w inp k c) = expansion inp k c := by
  rw [coreInput_eq, lows_sixteen]
  simp only [low32_ld32]
  rfl

/-- The quarter round of the loop, on what words of 32 bits hold. -/
theorem low32_quarter (t₀ t₁ t₂ t₃ : U32 w) (m : Fin 4) :
    low32 ((quarter [t₀, t₁, t₂, t₃]).getD m 0) = quarterround ![low32 t₀, low32 t₁, low32 t₂, low32 t₃] m := by
  fin_cases m <;> simp [quarter, quarterround]

/-- The rows of `w` in the order in which the loop writes them. -/
theorem square_rotated {α : Type} (q : Fin 4 → Fin 4 → α) :
    (!![q 0 0, q 0 1, q 0 2, q 0 3; q 1 3, q 1 0, q 1 1, q 1 2; q 2 2, q 2 3, q 2 0, q 2 1; q 3 1, q 3 2,
      q 3 3, q 3 0] :
      Matrix (Fin 4) (Fin 4) α) = fun i j => q i (j - i) := by
  funext i j
  fin_cases i <;> fin_cases j <;> rfl

/-- The words that pass `j` takes for its quarter round: a column from the diagonal on. -/
theorem quarter_column (x : List (U32 w)) (i m : Fin 4) :
    low32 ((quarter ((List.range 4).map fun m => x.getD ((5 * i + 4 * m) % 16) 0)).getD m 0) =
      quarterround (fun m => lows x (i + m) i) m := by
  have hcolumn : (fun m => lows x (i + m) i) =
      ![low32 (x.getD ((5 * i + 4 * 0) % 16) 0), low32 (x.getD ((5 * i + 4 * 1) % 16) 0),
        low32 (x.getD ((5 * i + 4 * 2) % 16) 0), low32 (x.getD ((5 * i + 4 * 3) % 16) 0)] := by
    funext m
    fin_cases i <;> fin_cases m <;> rfl
  rw [hcolumn]
  exact low32_quarter _ _ _ _ m

/-- **One pass is a row round** of the square turned over. -/
theorem lows_coreRound (x : List (U32 w)) : lows (coreRound x) = rowround (lows x).transpose := by
  obtain ⟨q, hq⟩ : ∃ q :
    Nat → List (U32 w), ∀ j, q j = quarter ((List.range 4).map fun m => x.getD ((5 * j + 4 * m) % 16) 0) :=
    ⟨_, fun _ => rfl⟩
  have hround : coreRound x = [(q 0).getD 0 0, (q 0).getD 1 0, (q 0).getD 2 0, (q 0).getD 3 0,
      (q 1).getD 3 0, (q 1).getD 0 0, (q 1).getD 1 0, (q 1).getD 2 0,
      (q 2).getD 2 0, (q 2).getD 3 0, (q 2).getD 0 0, (q 2).getD 1 0,
      (q 3).getD 1 0, (q 3).getD 2 0, (q 3).getD 3 0, (q 3).getD 0 0] := by
    unfold coreRound
    simp only [← hq]
    simp [List.range_succ, List.replicate_succ]
  have hentry : lows (coreRound x) = fun i j => low32 ((q (i : Fin 4)).getD ((j - i : Fin 4) : Nat) 0) := by
    rw [hround, lows_sixteen]
    exact square_rotated fun i m : Fin 4 => low32 ((q i).getD m 0)
  rw [hentry]
  funext i j
  rw [hq]
  exact quarter_column x i (j - i)

/-! ## §3 What `core` computes -/

@[simp] theorem coreRound_length (x : List (U32 w)) : (coreRound x).length = 16 := by
  simp [coreRound, List.range_succ]

theorem lows_rounds (n : Nat) (x : List (U32 w)) : lows (coreRound^[2 * n] x) = doubleround^[n] (lows x) := by
  rw [← iterate_doubleround]
  generalize 2 * n = k
  induction k with
  | zero => rfl
  | succ k ih => rw [Function.iterate_succ_apply', Function.iterate_succ_apply', lows_coreRound, ih]

theorem rounds_length (n : Nat) {x : List (U32 w)} (hx : x.length = 16) : (coreRound^[n] x).length = 16 := by
  induction n with
  | zero => exact hx
  | succ n ih => rw [Function.iterate_succ_apply', coreRound_length]

theorem st32_eq (x : U32 w) : st32 x = wordBytes (low32 x) := st32_low32 x

theorem exists_sixteen {α : Type} {x : List α} (h : x.length = 16) :
    ∃ a₀ a₁ a₂ a₃ a₄ a₅ a₆ a₇ a₈ a₉ a₁₀ a₁₁ a₁₂ a₁₃ a₁₄ a₁₅ :
      α, x = [a₀, a₁, a₂, a₃, a₄, a₅, a₆, a₇, a₈, a₉, a₁₀, a₁₁, a₁₂, a₁₃, a₁₄, a₁₅] := by
  match x, h with
  | [a₀, a₁, a₂, a₃, a₄, a₅, a₆, a₇, a₈, a₉, a₁₀, a₁₁, a₁₂, a₁₃, a₁₄, a₁₅], _ =>
      exact ⟨_, _, _, _, _, _, _, _, _, _, _, _, _, _, _, _, rfl⟩

theorem lows_zipWith_add {x y : List (U32 w)} (hx : x.length = 16) (hy : y.length = 16) :
    lows (List.zipWith (· + ·) x y) = lows x + lows y := by
  funext i j
  have hlt : 4 * i.val + j.val < 16 := by omega
  show low32 ((List.zipWith (· + ·) x y).getD (4 * i + j) 0) =
      low32 (x.getD (4 * i + j) 0) + low32 (y.getD (4 * i + j) 0)
  rw [← low32_add]
  simp [List.getD_eq_getElem?_getD, List.getElem?_zipWith, List.getElem?_eq_getElem (hx ▸ hlt),
    List.getElem?_eq_getElem (hy ▸ hlt)]

theorem flatMap_st32 {x : List (U32 w)} (hx : x.length = 16) :
    x.flatMap st32 = (lows x).words.flatMap wordBytes := by
  obtain ⟨a₀, a₁, a₂, a₃, a₄, a₅, a₆, a₇, a₈, a₉, a₁₀, a₁₁, a₁₂, a₁₃, a₁₄, a₁₅, rfl⟩ := exists_sixteen hx
  have hwords : (lows [a₀, a₁, a₂, a₃, a₄, a₅, a₆, a₇, a₈, a₉, a₁₀, a₁₁, a₁₂, a₁₃, a₁₄, a₁₅]).words =
      [a₀, a₁, a₂, a₃, a₄, a₅, a₆, a₇, a₈, a₉, a₁₀, a₁₁, a₁₂, a₁₃, a₁₄, a₁₅].map low32 := rfl
  rw [hwords, List.flatMap_map]
  exact List.flatMap_congr fun a _ => st32_eq a

/-- **`core` is Salsa20**, however wide an `unsigned long` is. -/
theorem core_salsa20 (inp k c : Bytes) :
    core w inp k c false = (Lib.Salsa20.hash (expansion inp k c)).flatMap wordBytes := by
  have hx := rounds_length 20 (coreInput_length (w := w) inp k c)
  have hlength :
      (List.zipWith (· + ·) (coreRound^[20] (coreInput w inp k c)) (coreInput w inp k c)).length = 16 := by
    rw [List.length_zipWith, hx, coreInput_length, Nat.min_self]
  unfold core
  dsimp only
  rw [if_neg Bool.false_ne_true, flatMap_st32 hlength, lows_zipWith_add hx (coreInput_length inp k c),
    lows_rounds 10, lows_coreInput]
  have hcomm : doubleround^[10] (expansion inp k c) + expansion inp k c = expansion inp k c + doubleround^[10]
      (expansion inp k c) := by
    funext i j
    exact BitVec.add_comm _ _
  rw [hcomm]
  rfl

/-- **`core` is HSalsa20**: what it subtracts is what it has added to those words. -/
theorem core_hsalsa20 (inp k c : Bytes) :
    core w inp k c true = (hhash (expansion inp k c)).flatMap wordBytes := by
  have hx := rounds_length 20 (coreInput_length (w := w) inp k c)
  have hlows : lows (coreRound^[20] (coreInput w inp k c)) = doubleround^[10] (expansion inp k c) := by
    rw [lows_rounds 10, lows_coreInput]
  unfold core
  dsimp only
  rw [if_pos rfl]
  generalize coreRound^[20] (coreInput w inp k c) = x at hx hlows
  obtain ⟨a₀, a₁, a₂, a₃, a₄, a₅, a₆, a₇, a₈, a₉, a₁₀, a₁₁, a₁₂, a₁₃, a₁₄, a₁₅, rfl⟩ := exists_sixteen hx
  rw [coreInput_eq, hhash, ← hlows, lows_sixteen]
  simp [List.range_succ, st32_eq, BitVec.add_sub_cancel]

/-! ## §4 The stream -/

/-- `sigma`. -/
def sigma : Bytes := ascii ['e', 'x', 'p', 'a', 'n', 'd', ' ', '3', '2', '-', 'b', 'y', 't', 'e', ' ', 'k']

/-- The loop that counts a block: `u += (u32) z[i]; z[i] = u; u >>= 8;`. -/
def countLoop : U32 w → Bytes → Bytes
  | _, [] => []
  | u, z :: zs =>
      let u := u + ofU8 z
      toU8 u :: countLoop (u >>> 8) zs

/-- `m?m[i]:0`. -/
def messageByte (m : Option Bytes) (i : Nat) : UInt8 := (m.getD []).getD i 0

variable (w)

/-- The loop of `crypto_stream_salsa20_xor`, and what it does with the rest. -/
def streamLoop (k z : Bytes) (m : Option Bytes) (b : Nat) : Bytes :=
  if 64 ≤ b then
    let x := cryptoCoreSalsa20 w z k sigma
    ((List.range 64).map fun i => messageByte m i ^^^ x.getD i 0) ++
      streamLoop k (z.take 8 ++ countLoop (w := w) 1 (z.drop 8)) (m.map fun m => m.drop 64) (b - 64)
  else if b ≠ 0 then
    let x := cryptoCoreSalsa20 w z k sigma
    (List.range b).map fun i => messageByte m i ^^^ x.getD i 0
  else []
termination_by b

/-- `crypto_stream_salsa20_xor`. -/
def cryptoStreamSalsa20Xor (m : Option Bytes) (b : Nat) (n k : Bytes) : Bytes :=
  if b = 0 then [] else streamLoop w k (((List.range 8).map fun i => n.getD i 0) ++ zeros 8) m b

/-- `crypto_stream_salsa20`. -/
def cryptoStreamSalsa20 (d : Nat) (n k : Bytes) : Bytes := cryptoStreamSalsa20Xor w none d n k

/-- `crypto_stream`. -/
def cryptoStream (d : Nat) (n k : Bytes) : Bytes :=
  let s := cryptoCoreHsalsa20 w n k sigma
  cryptoStreamSalsa20 w d (n.drop 16) s

/-- `crypto_stream_xor`. -/
def cryptoStreamXor (m : Bytes) (d : Nat) (n k : Bytes) : Bytes :=
  let s := cryptoCoreHsalsa20 w n k sigma
  cryptoStreamSalsa20Xor w (some m) d (n.drop 16) s

variable {w}

/-! ## §5 The key stream -/

/-- Block `j` of the Salsa20 stream of a key and a nonce of 8 bytes. -/
def salsa20Block (n k : Bytes) (j : Nat) : Bytes :=
  (Lib.Salsa20.hash (expansion (n ++ uint64Pack (UInt64.ofNat j)) k sigma)).flatMap wordBytes

/-- Byte `i` of the stream of a key and a nonce of 24 bytes: HSalsa20 makes a key of the first 16 bytes, and
the rest is the nonce. -/
def keystream (n k : Bytes) (i : Nat) : UInt8 :=
  let s := (hhash (expansion n k sigma)).flatMap wordBytes
  (salsa20Block ((List.range 8).map fun i => (n.drop 16).getD i 0) s (i / 64)).getD (i % 64) 0

/-- The loop carries, since what it carries is never more than 1. -/
theorem countLoop_carry {u : U32 w} (hu : u.toNat ≤ 1) (zs : Bytes) :
    (countLoop u zs).map UInt8.toNat = (carry 256 u.toNat (zs.map UInt8.toNat)).1 := by
  induction zs generalizing u with
  | nil => rfl
  | cons z zs ih =>
      have hz := UInt8.toNat_lt z
      have hpow : 2 ^ 32 ≤ 2 ^ w.bits := Nat.pow_le_pow_right (by decide) w.le
      have hsum : (u + ofU8 z).toNat = u.toNat + z.toNat := by
        rw [BitVec.toNat_add, toNat_ofU8, Nat.mod_eq_of_lt (by omega)]
      have hover : ((u + ofU8 z) >>> 8).toNat = (u.toNat + z.toNat) / 256 := by
        rw [BitVec.toNat_ushiftRight, hsum, Nat.shiftRight_eq_div_pow]
      rw [countLoop, List.map_cons, toNat_toU8, hsum, ih (by omega), hover]
      rfl

/-- **The loop counts**, and wraps as a counter of 64 bits does. -/
theorem countLoop_uint64Pack (c : UInt64) : countLoop (w := w) 1 (uint64Pack c) = uint64Pack (c + 1) := by
  have hone : (1 : U32 w).toNat = 1 := by
    have hpow : 2 ^ 32 ≤ 2 ^ w.bits := Nat.pow_le_pow_right (by decide) w.le
    show 1 % 2 ^ w.bits = 1
    exact Nat.mod_eq_of_lt (by omega)
  have hcarry := countLoop_carry (u := (1 : U32 w)) hone.le (uint64Pack c)
  rw [hone] at hcarry
  have hvalue : value 256 ((countLoop (w := w) 1 (uint64Pack c)).map UInt8.toNat) = (c.toNat + 1) % 2 ^ 64 := by
    rw [hcarry, value_carry_mod (by decide), List.length_map, uint64Pack_length, value_eq_ofDigits, uint64Pack,
      ofDigits_packBytes]
    omega
  apply bytes_eq_of_value
  · rw [← List.length_map UInt8.toNat, hcarry, length_carry, List.length_map, uint64Pack_length,
      uint64Pack_length]
  · rw [hvalue, value_eq_ofDigits, uint64Pack, ofDigits_packBytes, UInt64.toNat_add]
    exact (Nat.mod_mod _ _).symm

theorem messageByte_drop (m : Option Bytes) (j i : Nat) :
    messageByte (m.map fun m => m.drop j) i = messageByte m (j + i) := by
  cases m with
  | none => rfl
  | some m => simp [messageByte, List.getD_eq_getElem?_getD, List.getElem?_drop]

/-- **The loop runs through the blocks** from the one its counter stands at. -/
theorem streamLoop_eq {n k : Bytes} (hn : n.length = 8) (b : Nat) :
    ∀ j m, streamLoop w k (n ++ uint64Pack (UInt64.ofNat j)) m b =
      (List.range b).map fun i => messageByte m i ^^^ (salsa20Block n k (j + i / 64)).getD (i % 64) 0 := by
  induction b using Nat.strongRecOn with
  | ind b ih =>
      intro j m
      have hblock : cryptoCoreSalsa20 w (n ++ uint64Pack (UInt64.ofNat j)) k sigma = salsa20Block n k j :=
        core_salsa20 _ _ _
      rw [streamLoop, hblock]
      split
      · -- a whole block, and then the rest with the counter one further
        next hle =>
        have hz :
            (n ++ uint64Pack (UInt64.ofNat j)).take 8 ++ countLoop (w := w) 1
              ((n ++ uint64Pack (UInt64.ofNat j)).drop 8) =
            n ++ uint64Pack (UInt64.ofNat (j + 1)) := by
          rw [List.take_left' hn, List.drop_left' hn, countLoop_uint64Pack, UInt64.ofNat_add]
          rfl
        obtain ⟨b, rfl⟩ := Nat.exists_eq_add_of_le hle
        rw [hz, Nat.add_sub_cancel_left, ih b (by omega), List.range_add, List.map_append, List.map_map]
        apply congrArg₂ (· ++ ·)
        · apply List.map_congr_left
          intro i hi
          have hlt := List.mem_range.mp hi
          rw [Nat.div_eq_of_lt hlt, Nat.mod_eq_of_lt hlt, Nat.add_zero]
        · apply List.map_congr_left
          intro i _
          rw [messageByte_drop, Function.comp_apply, show j + (64 + i) / 64 = j + 1 + i / 64 by omega,
            Nat.add_mod_left]
      · -- what is left is less than a block
        next hlt =>
        have hrest : (List.range b).map (fun i => messageByte m i ^^^ (salsa20Block n k j).getD i 0) =
            (List.range b).map fun i =>
                messageByte m i ^^^ (salsa20Block n k (j + i / 64)).getD (i % 64) 0 := by
          apply List.map_congr_left
          intro i hi
          have hi := List.mem_range.mp hi
          rw [Nat.div_eq_of_lt (by omega), Nat.mod_eq_of_lt (by omega), Nat.add_zero]
        split
        · exact hrest
        · next hb =>
          rw [not_not.mp hb]
          rfl

theorem cryptoStreamSalsa20Xor_eq (m : Option Bytes) (b : Nat) (n k : Bytes) :
    cryptoStreamSalsa20Xor w m b n k =
    (List.range b).map fun i =>
        messageByte m i ^^^ (salsa20Block ((List.range 8).map fun i => n.getD i 0) k (i / 64)).getD
          (i % 64) 0 := by
  have hstart : zeros 8 = uint64Pack (UInt64.ofNat 0) := rfl
  unfold cryptoStreamSalsa20Xor
  split
  · next hb =>
    rw [hb]
    rfl
  · rw [hstart, streamLoop_eq (by simp)]
    simp only [Nat.zero_add]

/-- **The stream is that of the key and the nonce**, whatever it enciphers and however wide an `unsigned long`
is. -/
theorem cryptoStreamXor_eq (m : Bytes) (d : Nat) (n k : Bytes) :
    cryptoStreamXor w m d n k = (List.range d).map fun i => m.getD i 0 ^^^ keystream n k i := by
  unfold cryptoStreamXor cryptoCoreHsalsa20
  rw [core_hsalsa20]
  exact cryptoStreamSalsa20Xor_eq (some m) d _ _

theorem cryptoStream_eq (d : Nat) (n k : Bytes) : cryptoStream w d n k = (List.range d).map fun i =>
    keystream n k i := by
  unfold cryptoStream cryptoStreamSalsa20 cryptoCoreHsalsa20
  rw [core_hsalsa20]
  refine (cryptoStreamSalsa20Xor_eq none d _ _).trans (List.map_congr_left fun i _ => ?_)
  exact UInt8.zero_xor

/-- **A stream cipher**: for messages of every length, across every boundary of blocks and every carry of the
counter, the message is enciphered with the stream that `crypto_stream` writes out, each byte with its own,
and enciphering it again gives it back, also where an `unsigned long` has another width. -/
theorem stream_cipher (w w' : LongWidth) (m n k : Bytes) :
    cryptoStreamXor w m m.length n k = List.zipWith (· ^^^ ·) m (cryptoStream w' m.length n k) ∧
      (∀ i (h : i < m.length), (cryptoStreamXor w m m.length n k)[i]? = some (m[i] ^^^ keystream n k i)) ∧
      cryptoStreamXor w' (cryptoStreamXor w m m.length n k) m.length n k = m := by
  have hbyte :
      ∀ i (h : i < m.length), (cryptoStreamXor w m m.length n k)[i]? = some (m[i] ^^^ keystream n k i) := by
    intro i h
    rw [cryptoStreamXor_eq, List.getElem?_map, List.getElem?_range h, Option.map_some,
      List.getD_eq_getElem?_getD, List.getElem?_eq_getElem h, Option.getD_some]
  refine ⟨?_, hbyte, ?_⟩
  · rw [cryptoStreamXor_eq, cryptoStream_eq]
    apply List.ext_getElem
    · rw [List.length_zipWith, List.length_map, List.length_map, List.length_range, Nat.min_self]
    · intro i h _
      rw [List.length_map, List.length_range] at h
      rw [List.getElem_map, List.getElem_zipWith, List.getElem_map, List.getElem_range,
        List.getD_eq_getElem?_getD, List.getElem?_eq_getElem h, Option.getD_some]
  · rw [cryptoStreamXor_eq]
    apply List.ext_getElem
    · rw [List.length_map, List.length_range]
    · intro i _ h
      rw [List.getElem_map, List.getElem_range, List.getD_eq_getElem?_getD, hbyte i h, Option.getD_some,
        UInt8.xor_assoc, UInt8.xor_self, UInt8.xor_zero]

end SploneBox
