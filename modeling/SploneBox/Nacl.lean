/-
# SploneBox.Nacl — the part of `tweetnacl.c` the tunnel calls, as a parameter.

What the tunnel does holds for any boxes that obey two laws, so here they are a parameter: the boxes and
the keys are the fields of a structure `Nacl`, and the calling convention of `crypto_secretbox` and
`crypto_box_afternm` — 32 zero bytes in front of a plaintext, 16 in front of a ciphertext, lengths below
32 refused — is modelled on top of them, because the callers lay their buffers out around it.

The code behind the parameter is embedded by the modules at the end of the development: the stream cipher
and the tag in `SploneBox.Salsa20` and `SploneBox.Poly1305`, the boxes in `SploneBox.Secretbox`, the keys in
`SploneBox.Curve25519` and `SploneBox.Scalarmult`. `SploneBox.Secretbox` makes a `Nacl` of the boxes and
shows that the calls here are then the functions of `tweetnacl.c`.

The two laws are fields, as the source of `tweetnacl.c` gives them: opening checks the tag of the
ciphertext and then removes the key stream, so a box opens under a key and a nonce iff it is the seal
of the plaintext it opens to (`open_iff`), and a seal is 16 bytes longer than its plaintext
(`box_length`).
-/
import SploneBox.Bytes

namespace SploneBox

/-- The NaCl primitives behind `crypto_secretbox`, `crypto_box_beforenm` and `crypto_box_keypair`,
with what the box functions guarantee. -/
structure Nacl where
  /-- Tag and ciphertext of a plaintext under a nonce and a key. -/
  box : (m n k : Bytes) → Bytes
  /-- The plaintext of tag and ciphertext, if the tag is right. -/
  boxOpen : (c n k : Bytes) → Option Bytes
  /-- The shared key of a public and a secret key. -/
  beforenm : (pk sk : Bytes) → Bytes
  /-- The public half of a secret key. -/
  scalarmultBase : (sk : Bytes) → Bytes
  open_iff : ∀ c n k m, boxOpen c n k = some m ↔ c = box m n k
  box_length : ∀ m n k, (box m n k).length = m.length + 16

variable (N : Nacl)

/-- `crypto_secretbox(c, m, d, n, k)` on a buffer `m` of `d` bytes. -/
def cryptoSecretbox (m n k : Bytes) : Option Bytes :=
  if m.length < 32 then none else some (zeros 16 ++ N.box (m.drop 32) n k)

/-- `crypto_secretbox_open(m, c, d, n, k)` on a buffer `c` of `d` bytes. -/
def cryptoSecretboxOpen (c n k : Bytes) : Option Bytes :=
  if c.length < 32 then none else (N.boxOpen (c.drop 16) n k).map fun m => zeros 32 ++ m

/-- `crypto_box_afternm` is `crypto_secretbox` under the precomputed key. -/
def cryptoBoxAfternm (m n k : Bytes) : Option Bytes := cryptoSecretbox N m n k

/-- `crypto_box_open_afternm` is `crypto_secretbox_open` under the precomputed key. -/
def cryptoBoxOpenAfternm (c n k : Bytes) : Option Bytes := cryptoSecretboxOpen N c n k

variable {N}

/-- Opening the padded form of a seal gives the padded plaintext back. -/
theorem cryptoBoxOpenAfternm_box (m n k : Bytes) :
    cryptoBoxOpenAfternm N (zeros 16 ++ N.box m n k) n k = some (zeros 32 ++ m) := by
  have hlen : ¬ (zeros 16 ++ N.box m n k).length < 32 := by
    rw [List.length_append, zeros_length, N.box_length]
    omega
  have hopen : N.boxOpen (N.box m n k) n k = some m := (N.open_iff _ _ _ _).mpr rfl
  rw [cryptoBoxOpenAfternm, cryptoSecretboxOpen, if_neg hlen,
    List.drop_left' (zeros_length 16), hopen]
  rfl

/-- What is opened from a padded ciphertext is the padded plaintext of the box. -/
theorem cryptoSecretboxOpen_some {c n k m : Bytes}
    (h : cryptoSecretboxOpen N (zeros 16 ++ c) n k = some m) :
    ∃ p, N.boxOpen c n k = some p ∧ m = zeros 32 ++ p ∧ c.length = p.length + 16 := by
  unfold cryptoSecretboxOpen at h
  split at h
  · cases h
  · rw [List.drop_left' (zeros_length 16)] at h
    obtain ⟨p, hp, rfl⟩ := Option.map_eq_some_iff.mp h
    exact ⟨p, hp, rfl, by rw [(N.open_iff _ _ _ _).mp hp, N.box_length]⟩

/-! ## §2 An instance -/

/-- The tag of `Nacl.tagging`: eight bytes of the key and the counter of the nonce. -/
def tag (n k : Bytes) : Bytes := (k ++ zeros 8).take 8 ++ (n.drop 16 ++ zeros 8).take 8

theorem tag_length (n k : Bytes) : (tag n k).length = 16 := by simp [tag]

/-- The laws have a model: a seal is the plaintext behind a tag of the key and the nonce, and shared
keys are the exclusive or of the two halves. -/
def Nacl.tagging : Nacl where
  box := fun m n k => tag n k ++ m
  boxOpen := fun c n k => if c.take 16 = tag n k then some (c.drop 16) else none
  beforenm := fun pk sk => List.zipWith (· ^^^ ·) pk sk
  scalarmultBase := fun sk => sk
  open_iff := by
    intro c n k m
    constructor
    · intro h
      split at h
      · rename_i htag
        cases h
        rw [← htag, List.take_append_drop]
      · cases h
    · rintro rfl
      rw [List.take_left' (tag_length n k), if_pos rfl, List.drop_left' (tag_length n k)]
  box_length := by
    intro m n k
    rw [List.length_append, tag_length, Nat.add_comm]

end SploneBox
