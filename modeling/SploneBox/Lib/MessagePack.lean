/-
# SploneBox.Lib.MessagePack — the heads of the msgpack format.

A value starts with a head: one byte that names its type, and for most types a number behind it, most
significant byte first. A scalar is its head; a string is a head with its length and then so many bytes; an
array or a map is a head with its size and then so many values.

`head` reads any head of the format. `Head.bytes` is the shortest one for a number, as packers write it
(`head_bytes`). Single-precision floats are read through the parameter `widen`, which gives the bits of the
double.
-/
import Mathlib.Data.List.Basic
import Mathlib.Tactic.Common
import Mathlib.Tactic.Ring

namespace SploneBox.Lib.MessagePack

/-! ## §1 Numbers -/

/-- The last `k` bytes of a number, the most significant one first. -/
def bigEndian : Nat → Nat → List UInt8
  | 0, _ => []
  | k + 1, n => UInt8.ofNat (n / 256 ^ k) :: bigEndian k n

/-- The number of `k` bytes. -/
def number (k : Nat) (bs : List UInt8) : Option (Nat × List UInt8) :=
  if bs.length < k then none
  else some ((bs.take k).foldl (fun n b => n * 256 + b.toNat) 0, bs.drop k)

/-- The number of `k` bytes in two's complement. -/
def signed (k n : Nat) : Int := if n < 2 ^ (8 * k - 1) then n else n - 2 ^ (8 * k)

@[simp] theorem bigEndian_length (k n : Nat) : (bigEndian k n).length = k := by
  induction k with
  | zero => rfl
  | succ k ih => simp [bigEndian, ih]

/-- Reading on from the number `a`. -/
theorem foldl_bigEndian (k n a : Nat) :
    (bigEndian k n).foldl (fun n b => n * 256 + b.toNat) a = a * 256 ^ k + n % 256 ^ k := by
  induction k generalizing a with
  | zero => simp [bigEndian, Nat.mod_one]
  | succ k ih =>
      have hbyte : (UInt8.ofNat (n / 256 ^ k)).toNat = n / 256 ^ k % 256 := by simp
      have hsplit : n % 256 ^ (k + 1) = n % 256 ^ k + 256 ^ k * (n / 256 ^ k % 256) := by
        rw [Nat.pow_succ, Nat.mod_mul]
      rw [bigEndian, List.foldl_cons, ih, hbyte, hsplit, Nat.pow_succ, Nat.add_mul, Nat.mul_assoc]
      rw [Nat.mul_comm 256 (256 ^ k), Nat.mul_comm (n / 256 ^ k % 256) (256 ^ k)]
      omega

/-- **A number comes back.** -/
theorem number_bigEndian {k n : Nat} (hn : n < 256 ^ k) (rest : List UInt8) :
    number k (bigEndian k n ++ rest) = some (n, rest) := by
  unfold number
  rw [if_neg (by simp), List.take_left' (bigEndian_length k n), List.drop_left' (bigEndian_length k n),
    foldl_bigEndian, Nat.zero_mul, Nat.zero_add, Nat.mod_eq_of_lt hn]

/-! ## §2 Heads -/

/-- What a head says. -/
inductive Head where
  | nil
  | boolean (b : Bool)
  | int (i : Int)
  | float (bits : Nat)
  | str (length : Nat)
  | bin (length : Nat)
  | array (size : Nat)
  | map (size : Nat)
  | ext (type : Int) (length : Nat)
deriving DecidableEq

/-- A head whose number has `k` bytes. -/
def numbered (k : Nat) (f : Nat → Head) (bs : List UInt8) : Option (Head × List UInt8) :=
  (number k bs).map fun x => (f x.1, x.2)

/-- An extension with a length of `k` bytes. -/
def sizedExt (k : Nat) (bs : List UInt8) : Option (Head × List UInt8) :=
  (number k bs).bind fun x => numbered 1 (fun type => .ext (signed 1 type) x.1) x.2

/-- The formats that have a byte of their own. -/
def format (widen : Nat → Nat) (b : Nat) (bs : List UInt8) : Option (Head × List UInt8) :=
  match b with
  | 0xc0 => some (.nil, bs)
  | 0xc2 => some (.boolean false, bs)
  | 0xc3 => some (.boolean true, bs)
  | 0xc4 => numbered 1 .bin bs
  | 0xc5 => numbered 2 .bin bs
  | 0xc6 => numbered 4 .bin bs
  | 0xc7 => sizedExt 1 bs
  | 0xc8 => sizedExt 2 bs
  | 0xc9 => sizedExt 4 bs
  | 0xca => numbered 4 (fun bits => .float (widen bits)) bs
  | 0xcb => numbered 8 .float bs
  | 0xcc => numbered 1 (fun n => .int n) bs
  | 0xcd => numbered 2 (fun n => .int n) bs
  | 0xce => numbered 4 (fun n => .int n) bs
  | 0xcf => numbered 8 (fun n => .int n) bs
  | 0xd0 => numbered 1 (fun n => .int (signed 1 n)) bs
  | 0xd1 => numbered 2 (fun n => .int (signed 2 n)) bs
  | 0xd2 => numbered 4 (fun n => .int (signed 4 n)) bs
  | 0xd3 => numbered 8 (fun n => .int (signed 8 n)) bs
  | 0xd4 => numbered 1 (fun type => .ext (signed 1 type) 1) bs
  | 0xd5 => numbered 1 (fun type => .ext (signed 1 type) 2) bs
  | 0xd6 => numbered 1 (fun type => .ext (signed 1 type) 4) bs
  | 0xd7 => numbered 1 (fun type => .ext (signed 1 type) 8) bs
  | 0xd8 => numbered 1 (fun type => .ext (signed 1 type) 16) bs
  | 0xd9 => numbered 1 .str bs
  | 0xda => numbered 2 .str bs
  | 0xdb => numbered 4 .str bs
  | 0xdc => numbered 2 .array bs
  | 0xdd => numbered 4 .array bs
  | 0xde => numbered 2 .map bs
  | 0xdf => numbered 4 .map bs
  | _ => none

/-- The head that starts with the byte `b`; the short formats have their number in it. -/
def lead (widen : Nat → Nat) (b : Nat) (bs : List UInt8) : Option (Head × List UInt8) :=
  if b < 0x80 then some (.int b, bs)
  else if b < 0x90 then some (.map (b - 0x80), bs)
  else if b < 0xa0 then some (.array (b - 0x90), bs)
  else if b < 0xc0 then some (.str (b - 0xa0), bs)
  else if 0xe0 ≤ b then some (.int (b - 0x100), bs)
  else format widen b bs

/-- The head at the start of the bytes, and what is behind it. -/
def head (widen : Nat → Nat) : List UInt8 → Option (Head × List UInt8)
  | [] => none
  | b :: bs => lead widen b.toNat bs

/-! ## §3 Writing a head -/

/-- A length or size in the shortest of its formats: in the first byte, or behind the byte of the format with
8 (if the type has that), 16 or 32 bits. -/
def lengthBytes (short limit : Nat) (byte8 : Option UInt8) (byte16 byte32 : UInt8) (n : Nat) : List UInt8 :=
  if n < limit then [UInt8.ofNat (short + n)]
  else
    match byte8 with
    | some byte8 =>
        if n < 2 ^ 8 then byte8 :: bigEndian 1 n
        else if n < 2 ^ 16 then byte16 :: bigEndian 2 n
        else byte32 :: bigEndian 4 n
    | none => if n < 2 ^ 16 then byte16 :: bigEndian 2 n else byte32 :: bigEndian 4 n

/-- An integer in the shortest of its formats; one that is not negative has the unsigned formats. -/
def intBytes (i : Int) : List UInt8 :=
  if i < -2 ^ 31 then 0xd3 :: bigEndian 8 (i + 2 ^ 64).toNat
  else if i < -2 ^ 15 then 0xd2 :: bigEndian 4 (i + 2 ^ 32).toNat
  else if i < -2 ^ 7 then 0xd1 :: bigEndian 2 (i + 2 ^ 16).toNat
  else if i < -2 ^ 5 then 0xd0 :: bigEndian 1 (i + 2 ^ 8).toNat
  else if i < 0 then [UInt8.ofNat (i + 2 ^ 8).toNat]
  else if i < 2 ^ 7 then [UInt8.ofNat i.toNat]
  else if i < 2 ^ 8 then 0xcc :: bigEndian 1 i.toNat
  else if i < 2 ^ 16 then 0xcd :: bigEndian 2 i.toNat
  else if i < 2 ^ 32 then 0xce :: bigEndian 4 i.toNat
  else 0xcf :: bigEndian 8 i.toNat

/-- The bytes of a head; floats are doubles. -/
def Head.bytes : Head → List UInt8
  | .nil => [0xc0]
  | .boolean b => [if b then 0xc3 else 0xc2]
  | .int i => intBytes i
  | .float bits => 0xcb :: bigEndian 8 bits
  | .str n => lengthBytes 0xa0 32 (some 0xd9) 0xda 0xdb n
  | .array n => lengthBytes 0x90 16 none 0xdc 0xdd n
  | .map n => lengthBytes 0x80 16 none 0xde 0xdf n
  | .bin n => lengthBytes 0 0 (some 0xc4) 0xc5 0xc6 n
  | .ext type n => 0xc9 :: (bigEndian 4 n ++ bigEndian 1 (type % 256).toNat)

/-- The numbers the format has room for. -/
def Head.InRange : Head → Prop
  | .nil | .boolean _ => True
  | .int i => -2 ^ 63 ≤ i ∧ i < 2 ^ 64
  | .float bits => bits < 2 ^ 64
  | .str n | .array n | .map n | .bin n => n < 2 ^ 32
  | .ext type n => n < 2 ^ 32 ∧ -2 ^ 7 ≤ type ∧ type < 2 ^ 7

/-! ## §4 Heads come back -/

variable {widen : Nat → Nat}

theorem numbered_bigEndian {k n : Nat} (f : Nat → Head) (hn : n < 256 ^ k) (rest : List UInt8) :
    numbered k f (bigEndian k n ++ rest) = some (f n, rest) := by
  unfold numbered
  rw [number_bigEndian hn]
  rfl

/-- A length, for any type: what the bytes of its formats are read as. -/
theorem head_lengthBytes {f : Nat → Head} {short limit n : Nat} {byte8 : Option UInt8} {byte16 byte32 : UInt8}
    (hroom : short + limit ≤ 256)
    (hshort : ∀ n bs, n < limit → lead widen (short + n) bs = some (f n, bs))
    (h8 : ∀ b ∈ byte8, ∀ bs, lead widen b.toNat bs = numbered 1 f bs)
    (h16 : ∀ bs, lead widen byte16.toNat bs = numbered 2 f bs)
    (h32 : ∀ bs, lead widen byte32.toNat bs = numbered 4 f bs) (hn : n < 2 ^ 32) (rest : List UInt8) :
    head widen (lengthBytes short limit byte8 byte16 byte32 n ++ rest) = some (f n, rest) := by
  have hwide : n < 2 ^ 16 → head widen (byte16 :: bigEndian 2 n ++ rest) = some (f n, rest) := by
    intro h
    show lead widen byte16.toNat (bigEndian 2 n ++ rest) = _
    rw [h16, numbered_bigEndian f (by omega)]
  have hwidest : head widen (byte32 :: bigEndian 4 n ++ rest) = some (f n, rest) := by
    show lead widen byte32.toNat (bigEndian 4 n ++ rest) = _
    rw [h32, numbered_bigEndian f (by omega)]
  unfold lengthBytes
  split
  · rename_i hlt
    have hbyte : (UInt8.ofNat (short + n)).toNat = short + n := by
      rw [UInt8.toNat_ofNat', Nat.mod_eq_of_lt (by omega)]
    show lead widen (UInt8.ofNat (short + n)).toNat rest = _
    rw [hbyte]
    exact hshort n rest hlt
  split
  · rename_i b
    split
    · rename_i h
      show lead widen b.toNat (bigEndian 1 n ++ rest) = _
      rw [h8 b rfl, numbered_bigEndian f (by omega)]
    · split
      · exact hwide ‹_›
      · exact hwidest
  · split
    · exact hwide ‹_›
    · exact hwidest

/-- An integer behind the byte of its format. -/
theorem head_numbered {k n : Nat} {byte : UInt8} (f : Nat → Head)
    (hbyte : ∀ bs, lead widen byte.toNat bs = numbered k f bs) (hn : n < 256 ^ k) (rest : List UInt8) :
    head widen (byte :: bigEndian k n ++ rest) = some (f n, rest) := by
  show lead widen byte.toNat (bigEndian k n ++ rest) = _
  rw [hbyte, numbered_bigEndian f hn]

/-- A negative integer in two's complement. -/
theorem signed_wrap {k : Nat} {i : Int} (hk : 0 < k) (hlow : -2 ^ (8 * k - 1) ≤ i) (hneg : i < 0) :
    signed k (i + 2 ^ (8 * k)).toNat = i := by
  have hpow : (2 : Int) ^ (8 * k) = 2 * 2 ^ (8 * k - 1) := by
    rw [← Int.pow_succ', show 8 * k - 1 + 1 = 8 * k by omega]
  have hpow' : (2 : Nat) ^ (8 * k) = 2 * 2 ^ (8 * k - 1) := by
    rw [← Nat.pow_succ', show (8 * k - 1).succ = 8 * k by omega]
  have hcast : ((2 ^ (8 * k - 1) : Nat) : Int) = 2 ^ (8 * k - 1) := by simp
  unfold signed
  rw [if_neg (by omega)]
  omega

theorem head_intBytes {i : Int} (hlow : -2 ^ 63 ≤ i) (hhigh : i < 2 ^ 64) (rest : List UInt8) :
    head widen (intBytes i ++ rest) = some (.int i, rest) := by
  unfold intBytes
  split
  · rw [head_numbered (fun n => .int (signed 8 n)) (fun _ => rfl) (by omega),
      signed_wrap (by decide) (by omega) (by omega)]
  split
  · rw [head_numbered (fun n => .int (signed 4 n)) (fun _ => rfl) (by omega),
      signed_wrap (by decide) (by omega) (by omega)]
  split
  · rw [head_numbered (fun n => .int (signed 2 n)) (fun _ => rfl) (by omega),
      signed_wrap (by decide) (by omega) (by omega)]
  split
  · rw [head_numbered (fun n => .int (signed 1 n)) (fun _ => rfl) (by omega),
      signed_wrap (by decide) (by omega) (by omega)]
  split
  · have hbyte : (UInt8.ofNat (i + 2 ^ 8).toNat).toNat = (i + 2 ^ 8).toNat := by
      rw [UInt8.toNat_ofNat', Nat.mod_eq_of_lt (by omega)]
    show lead widen (UInt8.ofNat (i + 2 ^ 8).toNat).toNat rest = _
    rw [hbyte]
    unfold lead
    rw [if_neg (by omega), if_neg (by omega), if_neg (by omega), if_neg (by omega), if_pos (by omega)]
    congr 3
    omega
  split
  · have hbyte : (UInt8.ofNat i.toNat).toNat = i.toNat := by
      rw [UInt8.toNat_ofNat', Nat.mod_eq_of_lt (by omega)]
    show lead widen (UInt8.ofNat i.toNat).toNat rest = _
    rw [hbyte]
    unfold lead
    rw [if_pos (by omega)]
    congr 3
    omega
  have hnat : ((i.toNat : Nat) : Int) = i := by omega
  split
  · rw [head_numbered (fun n => .int n) (fun _ => rfl) (by omega), hnat]
  split
  · rw [head_numbered (fun n => .int n) (fun _ => rfl) (by omega), hnat]
  split
  · rw [head_numbered (fun n => .int n) (fun _ => rfl) (by omega), hnat]
  · rw [head_numbered (fun n => .int n) (fun _ => rfl) (by omega), hnat]

/-- **A head comes back.** -/
theorem head_bytes {h : Head} (hh : h.InRange) (rest : List UInt8) :
    head widen (h.bytes ++ rest) = some (h, rest) := by
  cases h with
  | nil => rfl
  | boolean b => cases b <;> rfl
  | int i => exact head_intBytes hh.1 hh.2 rest
  | float bits => exact head_numbered .float (fun _ => rfl) hh rest
  | str n =>
      show head widen (lengthBytes 0xa0 32 (some 0xd9) 0xda 0xdb n ++ rest) = some (Head.str n, rest)
      refine head_lengthBytes ?_ ?_ ?_ ?_ ?_ hh rest
      · decide
      · intro n bs hn
        unfold lead
        rw [if_neg (by omega), if_neg (by omega), if_neg (by omega), if_pos (by omega), Nat.add_sub_cancel_left]
      · intro b hb bs
        cases hb
        rfl
      · exact fun _ => rfl
      · exact fun _ => rfl
  | array n =>
      show head widen (lengthBytes 0x90 16 none 0xdc 0xdd n ++ rest) = some (Head.array n, rest)
      refine head_lengthBytes ?_ ?_ ?_ ?_ ?_ hh rest
      · decide
      · intro n bs hn
        unfold lead
        rw [if_neg (by omega), if_neg (by omega), if_pos (by omega), Nat.add_sub_cancel_left]
      · exact fun _ hb => nomatch hb
      · exact fun _ => rfl
      · exact fun _ => rfl
  | map n =>
      show head widen (lengthBytes 0x80 16 none 0xde 0xdf n ++ rest) = some (Head.map n, rest)
      refine head_lengthBytes ?_ ?_ ?_ ?_ ?_ hh rest
      · decide
      · intro n bs hn
        unfold lead
        rw [if_neg (by omega), if_pos (by omega), Nat.add_sub_cancel_left]
      · exact fun _ hb => nomatch hb
      · exact fun _ => rfl
      · exact fun _ => rfl
  | bin n =>
      show head widen (lengthBytes 0 0 (some 0xc4) 0xc5 0xc6 n ++ rest) = some (Head.bin n, rest)
      refine head_lengthBytes ?_ ?_ ?_ ?_ ?_ hh rest
      · decide
      · exact fun n bs hn => absurd hn (Nat.not_lt_zero n)
      · intro b hb bs
        cases hb
        rfl
      · exact fun _ => rfl
      · exact fun _ => rfl
  | ext type n =>
      obtain ⟨hn, hlow, hhigh⟩ := hh
      have htype : signed 1 (type % 256).toNat = type := by
        unfold signed
        split
        · omega
        · omega
      show sizedExt 4 (bigEndian 4 n ++ bigEndian 1 (type % 256).toNat ++ rest) = _
      unfold sizedExt
      rw [List.append_assoc, number_bigEndian (by omega), Option.bind_some, numbered_bigEndian _ (by omega)]
      dsimp only
      rw [htype]

theorem lengthBytes_ne_nil (short limit : Nat) (byte8 : Option UInt8) (byte16 byte32 : UInt8) (n : Nat) :
    lengthBytes short limit byte8 byte16 byte32 n ≠ [] := by
  unfold lengthBytes
  split
  · exact List.cons_ne_nil _ _
  split
  · split
    · exact List.cons_ne_nil _ _
    · split <;> exact List.cons_ne_nil _ _
  · split <;> exact List.cons_ne_nil _ _

theorem intBytes_ne_nil (i : Int) : intBytes i ≠ [] := by
  unfold intBytes
  repeat' split
  all_goals exact List.cons_ne_nil _ _

/-- Every head has a byte. -/
theorem Head.bytes_ne_nil (h : Head) : h.bytes ≠ [] := by
  cases h with
  | int i => exact intBytes_ne_nil i
  | str n => exact lengthBytes_ne_nil 0xa0 32 (some 0xd9) 0xda 0xdb n
  | array n => exact lengthBytes_ne_nil 0x90 16 none 0xdc 0xdd n
  | map n => exact lengthBytes_ne_nil 0x80 16 none 0xde 0xdf n
  | bin n => exact lengthBytes_ne_nil 0 0 (some 0xc4) 0xc5 0xc6 n
  | nil => exact List.cons_ne_nil _ _
  | boolean b => exact List.cons_ne_nil _ _
  | float bits => exact List.cons_ne_nil _ _
  | ext type n => exact List.cons_ne_nil _ _

end SploneBox.Lib.MessagePack
