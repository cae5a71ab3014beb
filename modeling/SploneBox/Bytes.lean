/-
# SploneBox.Bytes — the byte-level helpers of `crypto.c`, `util.c`, `sb-common.h` and `random.c`.

Byte strings are lists of `UInt8`; 64-bit counters are `UInt64`, so they wrap as the C code's do. Each
definition follows its source function statement by statement, and is followed by the one lemma the
rest of the development cites:

* `uint64Pack` / `uint64Unpack` — little-endian, `uint64Unpack_uint64Pack`;
* `byteIsequal` — the constant-time comparison, `byteIsequal_ne_zero_iff`;
* `base16Encode` — the plugin key string, `cstr_base16Encode`;
* `randommod` — `randommod_nonneg` and `randommod_lt` for moduli that do not overflow.
-/
import Mathlib.Data.Nat.Digits.Lemmas
import Mathlib.Data.List.Basic
import Mathlib.Tactic.Common
import Mathlib.Tactic.Ring

namespace SploneBox

/-- A byte string. -/
abbrev Bytes := List UInt8

/-- The bytes of an ASCII literal. -/
def ascii (cs : List Char) : Bytes := cs.map fun c => UInt8.ofNat c.toNat

/-- A block of zero bytes (`= { 0 }`, `sbmemzero`, `CALLOC`). -/
def zeros (n : Nat) : Bytes := List.replicate n 0

@[simp] theorem zeros_length (n : Nat) : (zeros n).length = n := by simp [zeros]

/-- The C string at the start of a buffer: the bytes up to the first NUL. -/
def cstr (b : Bytes) : Bytes := b.takeWhile fun c => c != 0

/-! ## §1 `uint64_pack` and `uint64_unpack` -/

/-- `n` rounds of `*y++ = (unsigned char)x; x >>= 8;`. -/
def packBytes : Nat → UInt64 → Bytes
  | 0, _ => []
  | n + 1, x => x.toUInt8 :: packBytes n (x >>> 8)

/-- `uint64_pack`: eight bytes, least significant first. -/
def uint64Pack (x : UInt64) : Bytes := packBytes 8 x

/-- One round of `result <<= 8; result |= b;`. -/
def shiftOr (b : UInt8) (result : UInt64) : UInt64 := (result <<< 8) ||| b.toUInt64

/-- `uint64_unpack`: `result = x[7]; result <<= 8; result |= x[6]; …` down to `x[0]`. -/
def uint64Unpack (x : Bytes) : UInt64 := (x.take 8).foldr shiftOr 0

theorem packBytes_length (n : Nat) (x : UInt64) : (packBytes n x).length = n := by
  induction n generalizing x with
  | zero => rfl
  | succ n ih => simp [packBytes, ih]

@[simp] theorem uint64Pack_length (x : UInt64) : (uint64Pack x).length = 8 := packBytes_length 8 x

/-- The low `n` bytes of a word, read as base-256 digits, are the word modulo `256 ^ n`. -/
theorem ofDigits_packBytes (n : Nat) (x : UInt64) :
    Nat.ofDigits 256 ((packBytes n x).map UInt8.toNat) = x.toNat % 256 ^ n := by
  induction n generalizing x with
  | zero => simp [packBytes, Nat.mod_one]
  | succ n ih =>
      have hshift : (x >>> 8).toNat = x.toNat / 256 := by
        simp [UInt64.toNat_shiftRight, Nat.shiftRight_eq_div_pow]
      have hlow : x.toUInt8.toNat = x.toNat % 256 := by simp
      rw [packBytes, List.map_cons, Nat.ofDigits_cons, ih, hshift, hlow, pow_succ', Nat.mod_mul]

/-- The shift-and-or fold of `uint64_unpack` computes the base-256 value of up to eight bytes. -/
theorem toNat_foldr_shiftOr (l : Bytes) (hl : l.length ≤ 8) :
    (l.foldr shiftOr 0).toNat = Nat.ofDigits 256 (l.map UInt8.toNat)
      ∧ Nat.ofDigits 256 (l.map UInt8.toNat) < 256 ^ l.length := by
  induction l with
  | nil => simp
  | cons b l ih =>
      obtain ⟨hval, hlt⟩ := ih (by simp only [List.length_cons] at hl; omega)
      have hpow : (256 : Nat) ^ l.length ≤ 256 ^ 7 :=
        Nat.pow_le_pow_right (by decide) (by simp only [List.length_cons] at hl; omega)
      have hb : b.toNat < 2 ^ 8 := UInt8.toNat_lt b
      simp only [List.foldr_cons, List.map_cons, Nat.ofDigits_cons, List.length_cons]
      constructor
      · rw [shiftOr, UInt64.toNat_or, UInt64.toNat_shiftLeft, hval]
        have h8 : (8 : UInt64).toNat % 64 = 8 := rfl
        rw [h8, Nat.shiftLeft_eq, Nat.mod_eq_of_lt (by omega), ← Nat.shiftLeft_eq,
          UInt8.toNat_toUInt64, ← Nat.shiftLeft_add_eq_or_of_lt hb, Nat.shiftLeft_eq]
        push_cast
        ring
      · rw [pow_succ]
        omega

/-- **Unpacking undoes packing**, whatever follows the eight bytes. -/
theorem uint64Unpack_uint64Pack (x : UInt64) (rest : Bytes) :
    uint64Unpack (uint64Pack x ++ rest) = x := by
  apply UInt64.toNat_inj.mp
  have htake : (uint64Pack x ++ rest).take 8 = uint64Pack x :=
    List.take_left' (uint64Pack_length x)
  rw [uint64Unpack, htake, (toNat_foldr_shiftOr _ (by simp)).1, uint64Pack, ofDigits_packBytes]
  exact Nat.mod_eq_of_lt (UInt64.toNat_lt x)

/-- **Packing undoes unpacking** on eight bytes. -/
theorem uint64Pack_uint64Unpack {b : Bytes} (h : b.length = 8) : uint64Pack (uint64Unpack b) = b := by
  have htake : b.take 8 = b := List.take_of_length_le h.le
  have hvalue : (uint64Unpack b).toNat = Nat.ofDigits 256 (b.map UInt8.toNat) := by
    rw [uint64Unpack, htake]
    exact (toNat_foldr_shiftOr b h.le).1
  have hdigits : Nat.ofDigits 256 ((uint64Pack (uint64Unpack b)).map UInt8.toNat) =
      Nat.ofDigits 256 (b.map UInt8.toNat) := by
    rw [uint64Pack, ofDigits_packBytes, ← hvalue]
    exact Nat.mod_eq_of_lt (UInt64.toNat_lt _)
  have hbyte : ∀ (l : Bytes), ∀ d ∈ l.map UInt8.toNat, d < 256 := by
    intro l d hd
    obtain ⟨c, -, rfl⟩ := List.mem_map.mp hd
    exact UInt8.toNat_lt c
  have hlists := Nat.ofDigits_inj_of_len_eq (by decide) (by simp [h]) (hbyte _) (hbyte _) hdigits
  exact List.map_injective_iff.mpr (fun _ _ => UInt8.toNat_inj.mp) hlists

/-! ## §2 `byte_isequal` -/

/-- `byte_isequal`: accumulate the differences of the first `ylen` bytes, then
`(256 - diff) >> 8`, which is 1 exactly when no byte differs. -/
def byteIsequal (y : Bytes) (ylen : Nat) (x : Bytes) : Nat :=
  let diff := ((y.take ylen).zip (x.take ylen)).foldl (fun d p => d ||| (p.1 ^^^ p.2)) (0 : UInt8)
  (256 - diff.toNat) >>> 8

theorem foldl_or_xor_eq_zero (l : List (UInt8 × UInt8)) (d : UInt8) :
    l.foldl (fun d p => d ||| (p.1 ^^^ p.2)) d = 0 ↔ d = 0 ∧ ∀ p ∈ l, p.1 = p.2 := by
  induction l generalizing d with
  | nil => simp
  | cons p l ih =>
      rw [List.foldl_cons, ih, UInt8.or_eq_zero_iff, UInt8.xor_eq_zero_iff]
      simp only [List.forall_mem_cons, and_assoc]

theorem forall_zip_eq {y x : Bytes} (h : y.length = x.length) :
    (∀ p ∈ y.zip x, p.1 = p.2) ↔ y = x := by
  induction y generalizing x with
  | nil =>
      cases x with
      | nil => simp
      | cons b x => simp at h
  | cons a y ih =>
      cases x with
      | nil => simp at h
      | cons b x =>
          simp only [List.zip_cons_cons, List.forall_mem_cons, List.cons.injEq]
          rw [ih (by simpa using h)]

/-- The comparison is an equality test on the first `ylen` bytes. -/
theorem byteIsequal_ne_zero_iff {y x : Bytes} {ylen : Nat} (hy : ylen ≤ y.length)
    (hx : ylen ≤ x.length) : byteIsequal y ylen x ≠ 0 ↔ y.take ylen = x.take ylen := by
  set diff := ((y.take ylen).zip (x.take ylen)).foldl (fun d p => d ||| (p.1 ^^^ p.2)) (0 : UInt8)
    with hdiff
  have hzero : diff = 0 ↔ y.take ylen = x.take ylen := by
    rw [hdiff, foldl_or_xor_eq_zero, forall_zip_eq (by simp [hy, hx])]
    simp
  have hlt : diff.toNat < 256 := UInt8.toNat_lt diff
  have hshift : (256 - diff.toNat) >>> 8 ≠ 0 ↔ diff.toNat = 0 := by
    rw [Nat.shiftRight_eq_div_pow]
    omega
  rw [byteIsequal, ← hzero, ← hdiff, hshift]
  exact ⟨fun h => UInt8.toNat_inj.mp (by simpa using h), fun h => by simp [h]⟩

/-! ## §3 `ISODD` -/

/-- `ISODD`: `x & 1`. -/
def isOdd (x : UInt64) : Bool := x &&& 1 != 0

theorem isOdd_iff (x : UInt64) : isOdd x = true ↔ x.toNat % 2 = 1 := by
  have hand : (x &&& 1).toNat = x.toNat % 2 := by
    rw [UInt64.toNat_and]
    exact Nat.and_one_is_mod x.toNat
  simp only [isOdd, bne_iff_ne, ne_eq, ← UInt64.toNat_inj, hand]
  have h0 : (0 : UInt64).toNat = 0 := rfl
  omega

theorem isOdd_add_two (x : UInt64) : isOdd (x + 2) = isOdd x := by
  rw [Bool.eq_iff_iff, isOdd_iff, isOdd_iff, UInt64.toNat_add]
  have h2 : (2 : UInt64).toNat = 2 := rfl
  omega

/-! ## §4 `base16_encode` -/

/-- `"0123456789ABCDEF"[d]`. -/
def base16Digit (d : UInt8) : UInt8 := if d < 10 then 48 + d else 55 + d

/-- The digit string of a byte string: high nibble first. -/
def base16 (src : Bytes) : Bytes :=
  src.flatMap fun b : UInt8 => [base16Digit (b >>> 4), base16Digit (b &&& 0xf)]

/-- `base16_encode`: the buffer of `destlen` bytes is cleared, then gets two digits per source
byte and the terminator. -/
def base16Encode (destlen : Nat) (src : Bytes) : Bytes :=
  base16 src ++ zeros (destlen - (base16 src).length)

theorem base16_length (src : Bytes) : (base16 src).length = 2 * src.length := by
  induction src with
  | nil => rfl
  | cons b src ih =>
      simp only [base16, List.flatMap_cons, List.length_append, List.length_cons] at ih ⊢
      simp only [List.length_nil]
      omega

theorem base16Digit_ne_zero (b : UInt8) :
    base16Digit (b >>> 4) ≠ 0 ∧ base16Digit (b &&& 0xf) ≠ 0 := by
  have hall : ∀ n < 256, base16Digit (UInt8.ofNat n >>> 4) ≠ 0 ∧
      base16Digit (UInt8.ofNat n &&& 0xf) ≠ 0 := by decide +kernel
  simpa using hall b.toNat (UInt8.toNat_lt b)

theorem base16_ne_zero (src : Bytes) : ∀ c ∈ base16 src, c ≠ 0 := by
  intro c hc
  obtain ⟨b, _, hb⟩ := List.mem_flatMap.mp hc
  rcases List.mem_cons.mp hb with rfl | hb
  · exact (base16Digit_ne_zero b).1
  · rw [List.mem_singleton.mp hb]
    exact (base16Digit_ne_zero b).2

theorem takeWhile_append_zeros {l : Bytes} (h : ∀ c ∈ l, c ≠ 0) (n : Nat) : cstr (l ++ zeros n) = l := by
  induction l with
  | nil => cases n <;> simp [cstr, zeros, List.replicate_succ]
  | cons c l ih =>
      have hc : (c != 0) = true := by simpa using h c (by simp)
      have ihl := ih fun d hd => h d (List.mem_cons_of_mem _ hd)
      rw [cstr] at ihl ⊢
      rw [List.cons_append, List.takeWhile_cons, if_pos hc, ihl]

/-- The string stored by `base16_encode` is the digit string. -/
theorem cstr_base16Encode (destlen : Nat) (src : Bytes) :
    cstr (base16Encode destlen src) = base16 src :=
  takeWhile_append_zeros (base16_ne_zero src) _

/-! ## §5 `randommod` -/

/-- `randommod`: a modulus of at most 1 gives 0; otherwise the 32 random bytes are folded in as
`(int64_t)((uint64_t)(result * 256) + (uint64_t)r[j]) % n`. -/
def randommod (n : Int) (r : Bytes) : Int :=
  if n ≤ 1 then 0
  else r.foldl (fun result b =>
    (Int.bmod ((result * 256) % 2 ^ 64 + b.toNat) (2 ^ 64)).tmod n) 0

/-- One round keeps the accumulator a residue as long as `256 * n` fits into an `int64_t`. -/
theorem randommod_round {n result : Int} (hn : 1 < n) (hmax : n ≤ 2 ^ 55) (h0 : 0 ≤ result)
    (hlt : result < n) (b : UInt8) :
    0 ≤ (Int.bmod ((result * 256) % 2 ^ 64 + b.toNat) (2 ^ 64)).tmod n ∧
      (Int.bmod ((result * 256) % 2 ^ 64 + b.toNat) (2 ^ 64)).tmod n < n := by
  have hb : (b.toNat : Int) < 256 := by exact_mod_cast UInt8.toNat_lt b
  have hmod : (result * 256) % 2 ^ 64 = result * 256 := Int.emod_eq_of_lt (by omega) (by omega)
  have hbm : Int.bmod (result * 256 + b.toNat) (2 ^ 64) = result * 256 + b.toNat :=
    Int.bmod_eq_of_le (by omega) (by omega)
  rw [hmod, hbm]
  exact ⟨Int.tmod_nonneg n (by omega), Int.tmod_lt_of_pos _ (by omega)⟩

/-- `randommod n` is a residue modulo `n` for every modulus up to `2 ^ 55`. -/
theorem randommod_range {n : Int} (hn : 1 < n) (hmax : n ≤ 2 ^ 55) (r : Bytes) :
    0 ≤ randommod n r ∧ randommod n r < n := by
  rw [randommod, if_neg (by omega)]
  suffices h : ∀ result : Int, 0 ≤ result → result < n →
      0 ≤ r.foldl (fun result b =>
          (Int.bmod ((result * 256) % 2 ^ 64 + b.toNat) (2 ^ 64)).tmod n) result ∧
        r.foldl (fun result b =>
          (Int.bmod ((result * 256) % 2 ^ 64 + b.toNat) (2 ^ 64)).tmod n) result < n from
    h 0 le_rfl (by omega)
  induction r with
  | nil => exact fun result h0 hlt => ⟨h0, hlt⟩
  | cons b r ih =>
      intro result h0 hlt
      obtain ⟨h0', hlt'⟩ := randommod_round hn hmax h0 hlt b
      exact ih _ h0' hlt'

end SploneBox
