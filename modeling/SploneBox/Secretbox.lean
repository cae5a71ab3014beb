/-
# SploneBox.Secretbox — the boxes of `tweetnacl.c`.

`crypto_secretbox` enciphers with the stream of `Salsa20` and authenticates what comes of it under the first
32 bytes of the stream. `Nacl` asks of boxes that opening undoes sealing and accepts nothing else:
`Nacl.tweetnacl` has the code itself for its boxes, so that what is proved of the tunnel for any `Nacl` is
proved of it with this one, and `tweetnacl_refines` says that the calling convention is that of the code too.
-/
import SploneBox.Nacl
import SploneBox.Salsa20
import SploneBox.Poly1305

namespace SploneBox

open Lib.Limbs Lib.Salsa20

/-! ## §1 `crypto_secretbox` -/

namespace Tweetnacl

variable (w : LongWidth)

/-- `crypto_secretbox`, on a buffer of `d` bytes. -/
def cryptoSecretbox (m n k : Bytes) : Option Bytes :=
  if m.length < 32 then none
  else
    let c := cryptoStreamXor w m m.length n k
    some (zeros 16 ++ cryptoOnetimeauth w (c.drop 32) c ++ c.drop 32)

/-- `crypto_secretbox_open`, on a buffer of `d` bytes. -/
def cryptoSecretboxOpen (c n k : Bytes) : Option Bytes :=
  if c.length < 32 then none
  else
    let x := cryptoStream w 32 n k
    if cryptoOnetimeauthVerify w (c.drop 16) (c.drop 32) x ≠ 0 then none
    else
      let m := cryptoStreamXor w c c.length n k
      some (zeros 32 ++ m.drop 32)

end Tweetnacl

/-! ## §2 What it computes -/

/-- Bytes enciphered with the stream from its byte `o` on. -/
def encipher (o : Nat) (p n k : Bytes) : Bytes := p.mapIdx fun i b => b ^^^ keystream n k (o + i)

/-- The key of the tag: the first 32 bytes of the stream. -/
def boxKey (n k : Bytes) : Bytes := (List.range 32).map fun i => keystream n k i

@[simp] theorem encipher_length (o : Nat) (p n k : Bytes) : (encipher o p n k).length = p.length :=
  List.length_mapIdx

theorem encipher_append (o : Nat) (p q n k : Bytes) :
    encipher o (p ++ q) n k = encipher o p n k ++ encipher (o + p.length) q n k := by
  rw [encipher, List.mapIdx_append]
  refine congrArg (encipher o p n k ++ ·) (congrArg (fun f => q.mapIdx f) ?_)
  funext i b
  rw [Nat.add_comm i, Nat.add_assoc]

/-- Enciphering twice gives the bytes back. -/
theorem encipher_encipher (o : Nat) (p n k : Bytes) : encipher o (encipher o p n k) n k = p := by
  unfold encipher
  apply List.ext_getElem
  · rw [List.length_mapIdx, List.length_mapIdx]
  · intro i _ _
    rw [List.getElem_mapIdx, List.getElem_mapIdx, UInt8.xor_assoc, UInt8.xor_self, UInt8.xor_zero]

variable {w : LongWidth}

theorem cryptoStreamXor_encipher (m n k : Bytes) : cryptoStreamXor w m m.length n k = encipher 0 m n k := by
  rw [cryptoStreamXor_eq, encipher]
  apply List.ext_getElem
  · rw [List.length_map, List.length_range, List.length_mapIdx]
  · intro i h _
    rw [List.length_map, List.length_range] at h
    rw [List.getElem_map, List.getElem_range, List.getElem_mapIdx, Nat.zero_add, List.getD_eq_getElem?_getD,
      List.getElem?_eq_getElem h, Option.getD_some]

theorem encipher_zeros (n k : Bytes) : encipher 0 (zeros 32) n k = boxKey n k := by
  rw [boxKey, encipher, zeros]
  apply List.ext_getElem
  · rw [List.length_mapIdx, List.length_replicate, List.length_map, List.length_range]
  · intro i _ _
    rw [List.getElem_mapIdx, List.getElem_map, List.getElem_range, Nat.zero_add, List.getElem_replicate,
      UInt8.zero_xor]

/-- A tag depends on 32 bytes of the key only. -/
theorem cryptoOnetimeauth_key {k k' : Bytes} (h : ∀ j < 32, k.getD j 0 = k'.getD j 0) (m : Bytes) :
    cryptoOnetimeauth w m k = cryptoOnetimeauth w m k' := by
  have hhalf : ∀ i ≤ 16, halfKey k i = halfKey k' i := by
    intro i hi
    unfold halfKey
    congr 1
    apply List.map_congr_left
    intro j hj
    have hlt := List.mem_range.mp hj
    rw [h (j + i) (by omega)]
  obtain ⟨hlength, hvalue⟩ := cryptoOnetimeauth_value w m k
  obtain ⟨hlength', hvalue'⟩ := cryptoOnetimeauth_value w m k'
  apply bytes_eq_of_value
  · rw [hlength, hlength']
  · rw [hvalue, hvalue', poly1305, poly1305, clamped, clamped, hhalf 0 (by omega), hhalf 16 le_rfl]

/-- A tag does not depend on the width of an `unsigned long`. -/
theorem cryptoOnetimeauth_width (w w' : LongWidth) (m k : Bytes) :
    cryptoOnetimeauth w m k = cryptoOnetimeauth w' m k := by
  obtain ⟨hlength, hvalue⟩ := cryptoOnetimeauth_value w m k
  obtain ⟨hlength', hvalue'⟩ := cryptoOnetimeauth_value w' m k
  apply bytes_eq_of_value
  · rw [hlength, hlength']
  · rw [hvalue, hvalue']

/-- Sealing a padded plaintext. -/
theorem secretbox_padded (p n k : Bytes) : Tweetnacl.cryptoSecretbox w (zeros 32 ++ p) n k =
    some (zeros 16 ++ cryptoOnetimeauth w (encipher 32 p n k) (boxKey n k) ++ encipher 32 p n k) := by
  have hlong : ¬ (zeros 32 ++ p).length < 32 := by
    rw [List.length_append, zeros_length]
    omega
  have hkey : (boxKey n k).length = 32 := by
    rw [boxKey, List.length_map, List.length_range]
  have htag : cryptoOnetimeauth w (encipher 32 p n k) (boxKey n k ++ encipher 32 p n k) =
      cryptoOnetimeauth w (encipher 32 p n k) (boxKey n k) := by
    apply cryptoOnetimeauth_key
    intro j hj
    rw [List.getD_eq_getElem?_getD, List.getD_eq_getElem?_getD, List.getElem?_append_left (by omega)]
  unfold Tweetnacl.cryptoSecretbox
  rw [if_neg hlong, cryptoStreamXor_encipher, encipher_append, encipher_zeros, zeros_length]
  dsimp only
  rw [List.drop_left' hkey, htag]

/-- `crypto_verify_16` on a tag. -/
theorem verify_tag {x y : Bytes} (hy : y.length = 16) (hx : 16 ≤ x.length) :
    cryptoVerify16 w x y = 0 ↔ x.take 16 = y := by
  have hequal : (∀ i < 16, x.getD i 0 = y.getD i 0) ↔ x.take 16 = y := by
    constructor
    · intro h
      apply List.ext_getElem
      · rw [List.length_take, hy, Nat.min_eq_left hx]
      · intro i _ hi
        have hbyte := h i (by omega)
        rw [List.getD_eq_getElem?_getD, List.getD_eq_getElem?_getD, List.getElem?_eq_getElem (by omega),
          List.getElem?_eq_getElem hi] at hbyte
        rw [List.getElem_take]
        exact hbyte
    · rintro rfl i hi
      rw [List.getD_eq_getElem?_getD, List.getD_eq_getElem?_getD, List.getElem?_take_of_lt hi]
  rw [cryptoVerify16, vn_eq, ← hequal]
  split
  · next h => exact ⟨fun _ => h, fun _ => rfl⟩
  · next h => exact ⟨fun hminus => absurd hminus (by decide), fun hall => absurd hall h⟩

/-- Opening: the tag is compared, and what is behind it is deciphered. -/
theorem secretboxOpen_cases (c n k : Bytes) : Tweetnacl.cryptoSecretboxOpen w c n k =
    if 32 ≤ c.length ∧ (c.drop 16).take 16 = cryptoOnetimeauth w (c.drop 32) (boxKey n k)
    then some (zeros 32 ++ encipher 32 (c.drop 32) n k) else none := by
  have hkey : cryptoStream w 32 n k = boxKey n k := cryptoStream_eq 32 n k
  have htag := (cryptoOnetimeauth_value w (c.drop 32) (boxKey n k)).1
  unfold Tweetnacl.cryptoSecretboxOpen cryptoOnetimeauthVerify
  dsimp only
  rw [hkey]
  by_cases hshort : c.length < 32
  · rw [if_pos hshort, if_neg fun h => absurd h.1 (by omega)]
  · have hverify := verify_tag (w := w) (x := c.drop 16) htag (by rw [List.length_drop]; omega)
    have hdrop : (cryptoStreamXor w c c.length n k).drop 32 = encipher 32 (c.drop 32) n k := by
      have htake : (c.take 32).length = 32 := by
        rw [List.length_take]
        omega
      rw [cryptoStreamXor_encipher]
      nth_rewrite 1 [← List.take_append_drop 32 c]
      rw [encipher_append, htake, List.drop_left' (by rw [encipher_length, htake])]
    rw [if_neg hshort, hdrop]
    by_cases heq : (c.drop 16).take 16 = cryptoOnetimeauth w (c.drop 32) (boxKey n k)
    · rw [if_neg (not_not.mpr (hverify.mpr heq)), if_pos ⟨by omega, heq⟩]
    · rw [if_pos fun h => heq (hverify.mp h), if_neg fun h => heq h.2]

/-! ## §3 The laws of `Nacl` -/

/-- **Opening accepts the seals, and nothing else.** -/
theorem secretbox_open_iff (c n k p : Bytes) :
    Tweetnacl.cryptoSecretboxOpen w (zeros 16 ++ c) n k = some (zeros 32 ++ p) ↔
    Tweetnacl.cryptoSecretbox w (zeros 32 ++ p) n k = some (zeros 16 ++ c) := by
  have hlength : (zeros 16 ++ c).length = 16 + c.length := by
    rw [List.length_append, zeros_length]
  have hdrop : (zeros 16 ++ c).drop 32 = c.drop 16 := by
    rw [show 32 = 16 + 16 from rfl, ← List.drop_drop, List.drop_left' (zeros_length 16)]
  rw [secretboxOpen_cases, secretbox_padded, hlength, hdrop, List.drop_left' (zeros_length 16),
    List.append_assoc]
  constructor
  · intro h
    split at h
    · next hopen =>
      have hp := List.append_cancel_left (Option.some.inj h)
      rw [← hp, encipher_encipher, ← hopen.2, List.take_append_drop]
    · cases h
  · intro h
    have hc := List.append_cancel_left (Option.some.inj h)
    have htag := (cryptoOnetimeauth_value w (encipher 32 p n k) (boxKey n k)).1
    have hbehind : c.drop 16 = encipher 32 p n k := by
      rw [← hc, List.drop_left' htag]
    have hfront : c.take 16 = cryptoOnetimeauth w (encipher 32 p n k) (boxKey n k) := by
      rw [← hc, List.take_left' htag]
    have hlong : 32 ≤ 16 + c.length := by
      rw [← hc, List.length_append, htag]
      omega
    rw [hbehind, if_pos ⟨hlong, hfront⟩, encipher_encipher]

/-- **Sealing and opening**, on machines whose `unsigned long`s may have different widths: a plaintext of any
length is sealed 16 bytes longer and the seal opens to it, and whatever opens is the seal of what it opens to. -/
theorem secretbox_sealed (w w' : LongWidth) (n k : Bytes) :
    (∀ p, ∃ c, Tweetnacl.cryptoSecretbox w (zeros 32 ++ p) n k = some (zeros 16 ++ c) ∧
      c.length = p.length + 16 ∧
      Tweetnacl.cryptoSecretboxOpen w' (zeros 16 ++ c) n k = some (zeros 32 ++ p)) ∧
    ∀ c m, Tweetnacl.cryptoSecretboxOpen w' c n k = some m →
      Tweetnacl.cryptoSecretbox w m n k = some (zeros 16 ++ c.drop 16) := by
  have hwidth : ∀ p, Tweetnacl.cryptoSecretbox w (zeros 32 ++ p) n k =
      Tweetnacl.cryptoSecretbox w' (zeros 32 ++ p) n k := by
    intro p
    rw [secretbox_padded, secretbox_padded, cryptoOnetimeauth_width w w']
  constructor
  · intro p
    have hseal := secretbox_padded (w := w') p n k
    rw [List.append_assoc] at hseal
    refine ⟨_, (hwidth p).trans hseal, ?_, (secretbox_open_iff _ n k p).mpr hseal⟩
    rw [List.length_append, (cryptoOnetimeauth_value w' _ _).1, encipher_length, Nat.add_comm]
  · intro c m hopen
    -- the first 16 bytes of the buffer are not looked at
    have hdrop : (zeros 16 ++ c.drop 16).drop 32 = c.drop 32 := by
      rw [show 32 = 16 + 16 from rfl, ← List.drop_drop, List.drop_left' (zeros_length 16), List.drop_drop]
    rw [secretboxOpen_cases] at hopen
    split at hopen
    · next hseal =>
      cases hopen
      rw [hwidth, ← secretbox_open_iff, secretboxOpen_cases, hdrop, List.drop_left' (zeros_length 16),
        List.length_append, zeros_length, List.length_drop, if_pos ⟨by omega, hseal.2⟩]
    · cases hopen

variable (w)

/-- The boxes of the code, and any multiplication on the curve. -/
def Nacl.tweetnacl (scalarmult : (n p : Bytes) → Bytes) (basepoint : Bytes) : Nacl where
  box p n k := ((Tweetnacl.cryptoSecretbox w (zeros 32 ++ p) n k).getD []).drop 16
  boxOpen c n k := (Tweetnacl.cryptoSecretboxOpen w (zeros 16 ++ c) n k).map fun m => m.drop 32
  beforenm pk sk := cryptoCoreHsalsa20 w (zeros 16) (scalarmult sk pk) sigma
  scalarmultBase sk := scalarmult sk basepoint
  open_iff := by
    intro c n k p
    have hbox : ((Tweetnacl.cryptoSecretbox w (zeros 32 ++ p) n k).getD []).drop 16 = c ↔
        Tweetnacl.cryptoSecretbox w (zeros 32 ++ p) n k = some (zeros 16 ++ c) := by
      rw [secretbox_padded, Option.getD_some, List.append_assoc, List.drop_left' (zeros_length 16),
        Option.some.injEq, List.append_cancel_left_eq]
    rw [eq_comm (a := c), hbox, ← secretbox_open_iff, Option.map_eq_some_iff]
    constructor
    · rintro ⟨m, hm, rfl⟩
      rw [hm]
      rw [secretboxOpen_cases] at hm
      split at hm
      · rw [← Option.some.inj hm, List.drop_left' (zeros_length 32)]
      · cases hm
    · intro h
      exact ⟨_, h, List.drop_left' (zeros_length 32)⟩
  box_length := by
    intro p n k
    have htag := (cryptoOnetimeauth_value w (encipher 32 p n k) (boxKey n k)).1
    rw [secretbox_padded, Option.getD_some, List.append_assoc, List.drop_left' (zeros_length 16),
      List.length_append, htag, encipher_length, Nat.add_comm]

/-- **The tunnel's boxes are those of `tweetnacl.c`**: with the code for a `Nacl`, what the tunnel calls is
the code, on every buffer that starts as its callers lay it out, and on every buffer that is opened. -/
theorem tweetnacl_refines (scalarmult : (n p : Bytes) → Bytes) (basepoint : Bytes) :
    (∀ p n k, cryptoSecretbox (Nacl.tweetnacl w scalarmult basepoint) (zeros 32 ++ p) n k =
      Tweetnacl.cryptoSecretbox w (zeros 32 ++ p) n k) ∧
    ∀ c n k, cryptoSecretboxOpen (Nacl.tweetnacl w scalarmult basepoint) c n k =
    Tweetnacl.cryptoSecretboxOpen w c n k := by
  constructor
  · intro p n k
    have hlong : ¬ (zeros 32 ++ p).length < 32 := by
      rw [List.length_append, zeros_length]
      omega
    rw [cryptoSecretbox, if_neg hlong, List.drop_left' (zeros_length 32)]
    show some (zeros 16 ++ ((Tweetnacl.cryptoSecretbox w (zeros 32 ++ p) n k).getD []).drop 16) = _
    rw [secretbox_padded, Option.getD_some, List.append_assoc, List.drop_left' (zeros_length 16)]
  · intro c n k
    rw [cryptoSecretboxOpen]
    show (if c.length < 32 then none
      else ((Tweetnacl.cryptoSecretboxOpen w (zeros 16 ++ c.drop 16) n k).map fun m => m.drop 32).map fun m =>
        zeros 32 ++ m) = _
    have hdrop : (zeros 16 ++ c.drop 16).drop 32 = c.drop 32 := by
      rw [show 32 = 16 + 16 from rfl, ← List.drop_drop, List.drop_left' (zeros_length 16), List.drop_drop]
    rw [secretboxOpen_cases, secretboxOpen_cases, hdrop, List.drop_left' (zeros_length 16), List.length_append,
      zeros_length, List.length_drop]
    split
    · next hshort => rw [if_neg fun h => absurd h.1 (by omega)]
    · next hlong =>
      rw [show 16 + (c.length - 16) = c.length by omega]
      split
      · rw [Option.map_some, Option.map_some, List.drop_left' (zeros_length 32)]
      · rfl

end SploneBox
