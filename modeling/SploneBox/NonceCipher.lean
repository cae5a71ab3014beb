/-
# SploneBox.NonceCipher — `crypto_block`, which makes cookie nonces of counter blocks.

`crypto_block` runs 32 rounds on the two words of a block: each word in turn gets a mix of the other, of the
key and of a running sum added. The rounds are a network of `SploneBox.Lib.Feistel` over `UInt64`, so they can
be undone (`blockRounds_eq`), and packing and unpacking words are inverse to each other; together
`crypto_block` is a permutation of the blocks of 16 bytes (`cryptoBlock_permutes`).
-/
import SploneBox.Crypto
import SploneBox.Lib.Feistel
import Mathlib.Data.UInt

namespace SploneBox

open Lib.Feistel

/-! ## §1 `crypto_block` -/

/-- `delta`. -/
def delta : UInt64 := 0x9e3779b97f4a7c15

/-- The loop of `crypto_block`. -/
def blockRounds (k0 k1 k2 k3 : UInt64) : Nat → UInt64 → UInt64 → UInt64 → UInt64 × UInt64
  | 0, _, v0, v1 => (v0, v1)
  | n + 1, sum, v0, v1 =>
      let sum := sum + delta
      let v0 := v0 + (((v1 <<< 7) + k0) ^^^ (v1 + sum) ^^^ ((v1 >>> 12) + k1))
      let v1 := v1 + (((v0 <<< 16) + k2) ^^^ (v0 + sum) ^^^ ((v0 >>> 8) + k3))
      blockRounds k0 k1 k2 k3 n sum v0 v1

/-- `crypto_block`. -/
def cryptoBlock (k : Buffer 32) (input : Buffer 16) : Buffer 16 :=
  let v0 := uint64Unpack input.bytes
  let v1 := uint64Unpack (input.bytes.drop 8)
  let k0 := uint64Unpack k.bytes
  let k1 := uint64Unpack (k.bytes.drop 8)
  let k2 := uint64Unpack (k.bytes.drop 16)
  let k3 := uint64Unpack (k.bytes.drop 24)
  let v := blockRounds k0 k1 k2 k3 32 0 v0 v1
  ⟨uint64Pack v.1 ++ uint64Pack v.2, by simp⟩

/-! ## §2 Words and bytes -/

/-- A block of 16 bytes as two words. -/
def words : Buffer 16 ≃ UInt64 × UInt64 where
  toFun b := (uint64Unpack b.bytes, uint64Unpack (b.bytes.drop 8))
  invFun v := ⟨uint64Pack v.1 ++ uint64Pack v.2, by simp⟩
  left_inv b := by
    have hfront : uint64Unpack b.bytes = uint64Unpack (b.bytes.take 8) := by
      rw [uint64Unpack, uint64Unpack, List.take_take, Nat.min_self]
    have hlow : (b.bytes.take 8).length = 8 := by simp [b.length_eq]
    have hhigh : (b.bytes.drop 8).length = 8 := by simp [b.length_eq]
    apply Buffer.ext_bytes
    show uint64Pack (uint64Unpack b.bytes) ++ uint64Pack (uint64Unpack (b.bytes.drop 8)) = b.bytes
    rw [hfront, uint64Pack_uint64Unpack hlow, uint64Pack_uint64Unpack hhigh, List.take_append_drop]
  right_inv v := by
    have hsecond : uint64Unpack (uint64Pack v.2) = v.2 := by
      rw [← List.append_nil (uint64Pack v.2)]
      exact uint64Unpack_uint64Pack v.2 []
    apply Prod.ext
    · exact uint64Unpack_uint64Pack v.1 (uint64Pack v.2)
    · show uint64Unpack ((uint64Pack v.1 ++ uint64Pack v.2).drop 8) = v.2
      rw [List.drop_left' (uint64Pack_length v.1), hsecond]

/-! ## §3 The permutation -/

/-- The rounds of `crypto_block` under its running sum. -/
def blockSchedule (k0 k1 k2 k3 : UInt64) : Schedule UInt64 UInt64 where
  next sum := sum + delta
  left sum v1 := ((v1 <<< 7) + k0) ^^^ (v1 + sum) ^^^ ((v1 >>> 12) + k1)
  right sum v0 := ((v0 <<< 16) + k2) ^^^ (v0 + sum) ^^^ ((v0 >>> 8) + k3)

theorem blockRounds_eq (k0 k1 k2 k3 : UInt64) (n : Nat) :
    ∀ sum v0 v1, blockRounds k0 k1 k2 k3 n sum v0 v1 = run (blockSchedule k0 k1 k2 k3) n sum v0 v1 := by
  induction n with
  | zero => exact fun _ _ _ => rfl
  | succ n ih => exact fun _ _ _ => ih _ _ _

theorem cryptoBlock_eq (k : Buffer 32) (input : Buffer 16) :
    cryptoBlock k input = words.symm (run (blockSchedule (uint64Unpack k.bytes) (uint64Unpack (k.bytes.drop 8))
      (uint64Unpack (k.bytes.drop 16)) (uint64Unpack (k.bytes.drop 24))) 32 0 (words input).1
      (words input).2) := by
  rw [← blockRounds_eq]
  rfl

theorem cryptoBlock_bijective (k : Buffer 32) : Function.Bijective (cryptoBlock k) := by
  have heq : cryptoBlock k = words.symm ∘ (fun v => run (blockSchedule (uint64Unpack k.bytes)
      (uint64Unpack (k.bytes.drop 8)) (uint64Unpack (k.bytes.drop 16)) (uint64Unpack (k.bytes.drop 24)))
      32 0 v.1 v.2) ∘
      words := funext (cryptoBlock_eq k)
  rw [heq]
  exact words.symm.bijective.comp ((run_bijective _ 32 0).comp words.bijective)

/-- The block `safenonce` encrypts: a counter and eight random bytes. -/
def counterBlock (counter : UInt64) (random : Buffer 8) : Buffer 16 :=
  ⟨uint64Pack counter ++ random.bytes, by simp [random.length_eq]⟩

theorem counterBlock_inj {counter counter' : UInt64} {random random' : Buffer 8}
    (h : counterBlock counter random = counterBlock counter' random') : counter = counter' := by
  have hbytes := congrArg (fun b => uint64Unpack b.bytes) h
  simpa [counterBlock, uint64Unpack_uint64Pack] using hbytes

/-- **The nonce cipher is a permutation** for every key, words and their bytes determine each other, and so
different counters give different cookie nonces. -/
theorem cryptoBlock_permutes (k : Buffer 32) :
    Function.Bijective (cryptoBlock k) ∧
      (∀ b : Bytes, b.length = 8 → uint64Pack (uint64Unpack b) = b) ∧
      (∀ x : UInt64, uint64Unpack (uint64Pack x) = x) ∧
      ∀ counter counter' random random', counter ≠ counter' →
        cryptoBlock k (counterBlock counter random) ≠ cryptoBlock k (counterBlock counter' random') := by
  refine ⟨cryptoBlock_bijective k, fun b hb => uint64Pack_uint64Unpack hb, fun x => ?_, ?_⟩
  · have hpack := uint64Unpack_uint64Pack x []
    rwa [List.append_nil] at hpack
  · intro counter counter' random random' hne heq
    exact hne (counterBlock_inj ((cryptoBlock_bijective k).injective heq))

end SploneBox
