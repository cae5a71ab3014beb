/-
# SploneBox.Numbers — the number scanners are exact.

`scan_unsigned` checks for overflow by a division before it multiplies, and `scan_signed` gets at the most
negative number by subtracting one twice. §1 is the two functions once more, with every operation followed by
a look whether its value is one of its type; they have a result where none leaves it. §3 says that this is so
for every buffer and width, that the result is that of the functions on machine words, and that it is the
value of the longest run of digits, or a failure when there is no digit or the value is none of the type.
-/
import SploneBox.Lib.Checked
import SploneBox.Scan

namespace SploneBox

open Lib.Numerals Lib.Checked

namespace Numbers

/-! ## §1 The functions, with a check of every operation -/

/-- `int`. -/
def int : IntType := .signed 31

/-- `long`. -/
def long : IntType := .signed 63

/-- `unsigned long`. -/
def ulong : IntType := .unsigned 64

/-- The loop of `scan_unsigned`: the inner `none` is the -1 of a digit that would overflow. -/
def scanLoop (hex : Bool) (width : Int) : Bytes → Int → Int → Option (Option (Bytes × Int × Int))
  | [], result, scanned => some (some ([], result, scanned))
  | c :: buf, result, scanned =>
      if digitOf hex c ∧ scanned < width then do
        let digit ← int.fit (digitToNum c)
        let room ← ulong.fit (ulong.hi - digit)
        let most ← ulong.fit (room / baseOf hex)
        if result > most then return none
        else
          let product ← ulong.fit (result * baseOf hex)
          let result ← ulong.fit (product + digit)
          let scanned ← int.fit (scanned + 1)
          scanLoop hex width buf result scanned
      else some (some (c :: buf, result, scanned))

/-- `scan_unsigned`. -/
def scanUnsigned (hex : Bool) (buf : Bytes) (width : Int) : Option (Option (Int × Bytes)) := do
  match ← scanLoop hex (if width < 0 then maxScanfWidth else width) buf 0 0 with
  | some (buf, result, scanned) => if scanned = 0 then return none else return some (result, buf)
  | none => return none

/-- `scan_signed`. -/
def scanSigned (buf : Bytes) (width : Int) : Option (Option (Int × Bytes)) := do
  let width : Int := if width < 0 then maxScanfWidth else width
  let neg := buf.head? = some 45
  let scanned ← if neg then scanUnsigned false buf.tail (← int.fit (width - 1))
    else scanUnsigned false buf width
  match scanned with
  | none => return none
  | some (result, buf) =>
      if neg ∧ result > 0 then
        let least ← ulong.fit (long.hi + 1)
        if result > least then return none
        else
          let less ← ulong.fit (result - 1)
          let cast ← long.fit less
          let negated ← long.fit (-cast)
          let out ← long.fit (negated - 1)
          return some (out, buf)
      else if result > long.hi then return none
      else
        let out ← long.fit result
        return some (out, buf)

/-! ## §2 No operation overflows -/

theorem int_fit {n : Nat} (h : n < 2 ^ 31) : int.fit n = some (n : Int) :=
  IntType.signed_fit (by omega) (by omega)

theorem ulong_fit {n : Nat} (h : n < 2 ^ 64) : ulong.fit n = some (n : Int) :=
  IntType.unsigned_fit (by omega) (by omega)

theorem long_fit {x : Int} (hlo : -2 ^ 63 ≤ x) (hhi : x < 2 ^ 63) : long.fit x = some x :=
  IntType.signed_fit hlo hhi

theorem ulong_hi : ulong.hi = 2 ^ 64 - 1 := rfl

theorem long_hi : long.hi = 2 ^ 63 - 1 := rfl

theorem baseOf_cases (hex : Bool) : baseOf hex = 10 ∨ baseOf hex = 16 := by
  cases hex
  · exact Or.inl rfl
  · exact Or.inr rfl

/-- One digit: its check tells whether it can be taken, and taking it then overflows nothing. -/
theorem scanLoop_digit {hex : Bool} {c : UInt8} (hdigit : digitOf hex c = true) {width : Int} {n m : Nat}
    (hm : (m : Int) < width) (hwidth : width < 2 ^ 31) (buf : Bytes) :
    scanLoop hex width (c :: buf) n m =
      if 2 ^ 64 ≤ baseOf hex * n + digitToNum c then some none
      else scanLoop hex width buf ((baseOf hex * n + digitToNum c : Nat) : Int) ((m + 1 : Nat) : Int) := by
  have hlt := digitToNum_lt hdigit
  have hbase : baseOf hex ≤ 16 := by rcases baseOf_cases hex with h | h <;> omega
  have hpos : 0 < baseOf hex := by rcases baseOf_cases hex with h | h <;> omega
  -- No step of the turn leaves its C type, up to the guard; behind the guard, neither do the product and the
  -- sum.
  have hd : int.fit (digitToNum c) = some (digitToNum c : Int) := int_fit (by omega)
  have hroom : ulong.fit (ulong.hi - digitToNum c) = some ((2 ^ 64 - 1 - digitToNum c : Nat) : Int) := by
    rw [← ulong_fit (n := 2 ^ 64 - 1 - digitToNum c) (by omega)]
    rw [ulong_hi]
    congr 1
    omega
  have hmost : ulong.fit (((2 ^ 64 - 1 - digitToNum c : Nat) : Int) / baseOf hex) =
      some (((2 ^ 64 - 1 - digitToNum c) / baseOf hex : Nat) : Int) := by
    rw [← Int.natCast_ediv]
    exact ulong_fit (lt_of_le_of_lt (Nat.div_le_self _ _) (by omega))
  -- The guard of the source divides, so that it does not overflow itself.
  have hover : (n : Int) > (((2 ^ 64 - 1 - digitToNum c) / baseOf hex : Nat) : Int) ↔
      2 ^ 64 ≤ baseOf hex * n + digitToNum c := by
    rw [gt_iff_lt, Int.ofNat_lt, Nat.div_lt_iff_lt_mul hpos, Nat.mul_comm]
    omega
  have hloop : scanLoop hex width (c :: buf) n m =
      (int.fit (digitToNum c)).bind fun digit => (ulong.fit (ulong.hi - digit)).bind fun room =>
        (ulong.fit (room / baseOf hex)).bind fun most =>
          if (n : Int) > most then some none
          else (ulong.fit (n * baseOf hex)).bind fun product => (ulong.fit (product + digit)).bind fun result =>
            (int.fit ((m : Int) + 1)).bind fun scanned => scanLoop hex width buf result scanned := by
    rw [scanLoop, if_pos ⟨hdigit, hm⟩]
    rfl
  rw [hloop, hd, Option.bind_some, hroom, Option.bind_some, hmost, Option.bind_some]
  by_cases hfull : 2 ^ 64 ≤ baseOf hex * n + digitToNum c
  · rw [if_pos (hover.mpr hfull), if_pos hfull]
  · have hproduct : ulong.fit ((n : Int) * baseOf hex) = some ((baseOf hex * n : Nat) : Int) := by
      rw [Int.mul_comm, ← Int.natCast_mul]
      exact ulong_fit (by omega)
    have hsum : ulong.fit (((baseOf hex * n : Nat) : Int) + digitToNum c) =
        some ((baseOf hex * n + digitToNum c : Nat) : Int) := by
      rw [← Int.natCast_add]
      exact ulong_fit (by omega)
    have hnext : int.fit ((m : Int) + 1) = some ((m + 1 : Nat) : Int) := by
      rw [← Int.natCast_succ]
      exact int_fit (by omega)
    rw [if_neg (mt hover.mp hfull), if_neg hfull, hproduct, Option.bind_some, hsum, Option.bind_some, hnext,
      Option.bind_some]

/-- **The checked loop** reads the run of digits, unless its value does not fit. -/
theorem scanLoop_eq (hex : Bool) (buf : Bytes) : ∀ (width n m : Nat), n < 2 ^ 64 → m + width < 2 ^ 31 →
    scanLoop hex ((m + width : Nat) : Int) buf n m =
      some (if valueFrom (baseOf hex) digitToNum n (run (digitOf hex) width buf) < 2 ^ 64 then
        some (buf.drop (run (digitOf hex) width buf).length,
          (valueFrom (baseOf hex) digitToNum n (run (digitOf hex) width buf) : Int),
          ((m + (run (digitOf hex) width buf).length : Nat) : Int))
      else none) := by
  have hstop : ∀ (buf : Bytes) (n m : Nat), n < 2 ^ 64 → some (some (buf, (n : Int), (m : Int))) =
      some (if valueFrom (baseOf hex) digitToNum n [] < 2 ^ 64 then
        some (buf.drop ([] : Bytes).length, (valueFrom (baseOf hex) digitToNum n [] : Int),
          ((m + ([] : Bytes).length : Nat) : Int))
      else none) := by
    intro buf n m hn
    rw [valueFrom_nil, if_pos hn]
    rfl
  have hbase : 0 < baseOf hex := by rcases baseOf_cases hex with h | h <;> omega
  -- On the buffer: the width falls and the count rises with each digit, so their sum stays below 2 ^ 31.
  induction buf with
  | nil =>
      intro width n m hn _
      rw [run_nil, scanLoop]
      exact hstop [] n m hn
  | cons c buf ih =>
      intro width n m hn hwidth
      by_cases hdigit : digitOf hex c = true
      · cases width with
        | zero =>
            rw [run_zero, scanLoop, if_neg (by simp)]
            exact hstop (c :: buf) n m hn
        | succ width =>
            rw [run_cons_digit hdigit, scanLoop_digit hdigit (by omega) (by omega), valueFrom_cons]
            -- Past the guard the numeral never comes back below 2 ^ 64: further digits only make it larger.
            by_cases hover : 2 ^ 64 ≤ baseOf hex * n + digitToNum c
            · rw [if_pos hover, if_neg]
              exact Nat.not_lt.mpr (hover.trans (le_valueFrom hbase digitToNum _ _))
            · have hloop := ih width (baseOf hex * n + digitToNum c) (m + 1) (Nat.not_le.mp hover) (by omega)
              rw [show m + 1 + width = m + (width + 1) by omega] at hloop
              rw [if_neg hover, hloop, List.length_cons, List.drop_succ_cons]
              rw [show m + 1 + (run (digitOf hex) width buf).length =
                m + ((run (digitOf hex) width buf).length + 1) by omega]
      · rw [run_cons_other (by simpa using hdigit), scanLoop, if_neg (fun h => hdigit h.1)]
        exact hstop (c :: buf) n m hn

/-- **`scan_unsigned` overflows nothing**, and computes what it computes on machine words. -/
theorem scanUnsigned_eq (hex : Bool) (buf : Bytes) {width : Int} (hwidth : width < 2 ^ 31) :
    scanUnsigned hex buf width =
      some ((SploneBox.scanUnsigned hex buf width).map fun x => ((x.1.toNat : Int), x.2)) := by
  have hof : (if width < 0 then (maxScanfWidth : Int) else width) = ((0 + widthOf width : Nat) : Int) := by
    unfold widthOf
    split <;> omega
  have hsmall : 0 + widthOf width < 2 ^ 31 := by
    unfold widthOf maxScanfWidth
    split <;> omega
  have hloop : scanLoop hex ((0 + widthOf width : Nat) : Int) buf 0 0 =
      some (if numeral hex (run (digitOf hex) (widthOf width) buf) < 2 ^ 64 then
        some (buf.drop (run (digitOf hex) (widthOf width) buf).length,
          (numeral hex (run (digitOf hex) (widthOf width) buf) : Int),
          ((0 + (run (digitOf hex) (widthOf width) buf).length : Nat) : Int))
      else none) := scanLoop_eq hex buf (widthOf width) 0 0 (by omega) hsmall
  unfold scanUnsigned
  rw [hof, hloop, SploneBox.scanUnsigned_eq, Option.bind_eq_bind, Option.bind_some]
  generalize run (digitOf hex) (widthOf width) buf = ds
  by_cases hlt : numeral hex ds < 2 ^ 64
  · rw [if_pos hlt]
    dsimp only
    -- No digit at all: the source refuses where `scanned` is 0.
    by_cases hempty : ds = []
    · rw [if_pos (by rw [hempty]; rfl), if_neg fun h => h.1 hempty]
      rfl
    · have hlen : ¬ ((0 + ds.length : Nat) : Int) = 0 := by
        rw [Nat.zero_add, Int.natCast_eq_zero]
        exact fun h => hempty (List.length_eq_zero_iff.mp h)
      rw [if_neg hlen, if_pos ⟨hempty, hlt⟩, Option.map_some, UInt64.toNat_ofNat', Nat.mod_eq_of_lt hlt]
      rfl
  · rw [if_neg hlt, if_neg fun h => hlt h.2]
    rfl

/-- The most negative value is got at by subtracting one twice. -/
theorem negate_eq {β : Type} {n : Nat} (hpos : 0 < n) (hle : n ≤ 2 ^ 63) (k : Int → Option β) :
    ((ulong.fit ((n : Int) - 1)).bind fun less => (long.fit less).bind fun cast =>
      (long.fit (-cast)).bind fun negated =>
      (long.fit (negated - 1)).bind k) = k (-(n : Int)) := by
  have hless : ulong.fit ((n : Int) - 1) = some ((n : Int) - 1) := IntType.unsigned_fit (by omega) (by omega)
  have hcast : long.fit ((n : Int) - 1) = some ((n : Int) - 1) := long_fit (by omega) (by omega)
  have hnegated : long.fit (-((n : Int) - 1)) = some (-((n : Int) - 1)) := long_fit (by omega) (by omega)
  have hout : long.fit (-((n : Int) - 1) - 1) = some (-(n : Int)) := by
    rw [show -((n : Int) - 1) - 1 = -(n : Int) by omega]
    exact long_fit (by omega) (by omega)
  rw [hless, Option.bind_some, hcast, Option.bind_some, hnegated, Option.bind_some, hout, Option.bind_some]

/-- What `scan_signed` makes of the number that `scan_unsigned` has read. -/
def signed (neg : Prop) [Decidable neg] (u : UInt64) : Option Int :=
  if neg ∧ u > 0 then
    if u > 0x8000000000000000 then none else some (-(u - 1).toNat - 1)
  else if u > 0x7fffffffffffffff then none
  else some u.toNat

theorem gt_min_iff (u : UInt64) : u > 0x8000000000000000 ↔ 2 ^ 63 < u.toNat := UInt64.lt_iff_toNat_lt

theorem gt_max_iff (u : UInt64) : u > 0x7fffffffffffffff ↔ 2 ^ 63 ≤ u.toNat := UInt64.lt_iff_toNat_lt

theorem gt_zero_iff (u : UInt64) : u > 0 ↔ 0 < u.toNat := UInt64.lt_iff_toNat_lt

/-- The number that is negated, after one has been subtracted. -/
theorem pred_eq {u : UInt64} (h : 0 < u.toNat) : -((u - 1).toNat : Int) - 1 = -(u.toNat : Int) := by
  have hle : (1 : UInt64) ≤ u := UInt64.le_iff_toNat_le.mpr h
  rw [UInt64.toNat_sub_of_le _ _ hle]
  show -((u.toNat - 1 : Nat) : Int) - 1 = _
  omega

/-- The end of `scan_signed`. -/
theorem signed_eq (neg : Prop) [Decidable neg] (u : UInt64) (buf : Bytes) :
    (if neg ∧ (u.toNat : Int) > 0 then
      (ulong.fit (long.hi + 1)).bind fun least =>
        if (u.toNat : Int) > least then some none
        else (ulong.fit ((u.toNat : Int) - 1)).bind fun less => (long.fit less).bind fun cast =>
          (long.fit (-cast)).bind fun negated =>
          (long.fit (negated - 1)).bind fun out => some (some (out, buf))
    else if (u.toNat : Int) > long.hi then some none
    else (long.fit u.toNat).bind fun out => some (some (out, buf))) =
      some ((signed neg u).map fun i => (i, buf)) := by
  have hpos : (u.toNat : Int) > 0 ↔ u > 0 := by
    rw [gt_zero_iff]
    exact Int.natCast_pos
  have hleast : ulong.fit (long.hi + 1) = some (2 ^ 63) := by
    rw [long_hi]
    exact IntType.unsigned_fit (by omega) (by omega)
  have hmin : (u.toNat : Int) > 2 ^ 63 ↔ u > 0x8000000000000000 := by
    rw [gt_min_iff]
    omega
  have hmax : (u.toNat : Int) > long.hi ↔ u > 0x7fffffffffffffff := by
    rw [gt_max_iff, long_hi]
    omega
  unfold signed
  by_cases hneg : neg ∧ u > 0
  · rw [if_pos ⟨hneg.1, hpos.mpr hneg.2⟩, if_pos hneg, hleast, Option.bind_some]
    by_cases hover : u > 0x8000000000000000
    · rw [if_pos (hmin.mpr hover), if_pos hover]
      rfl
    -- `-(LONG_MIN)` does not fit a `long`, hence the detour over `result - 1`.
    · have hone : 0 < u.toNat := (gt_zero_iff u).mp hneg.2
      have hle : u.toNat ≤ 2 ^ 63 := Nat.not_lt.mp (mt (gt_min_iff u).mpr hover)
      rw [if_neg (mt hmin.mp hover), if_neg hover, pred_eq hone, negate_eq hone hle]
      rfl
  · rw [if_neg fun h => hneg ⟨h.1, hpos.mp h.2⟩, if_neg hneg]
    by_cases hover : u > 0x7fffffffffffffff
    · rw [if_pos (hmax.mpr hover), if_pos hover]
      rfl
    · have hlt : u.toNat < 2 ^ 63 := Nat.not_le.mp (mt (gt_max_iff u).mpr hover)
      rw [if_neg (mt hmax.mp hover), if_neg hover, long_fit (by omega) (by omega)]
      rfl

theorem scanSigned_signed (buf : Bytes) (width : Int) :
    SploneBox.scanSigned buf width =
      (SploneBox.scanUnsigned false (if buf.head? = some 45 then buf.tail else buf)
        (if buf.head? = some 45 then (widthOf width : Int) - 1 else widthOf width)).bind fun x =>
          (signed (buf.head? = some 45) x.1).map fun i => (i, x.2) := by
  have hwidth : (if width < 0 then (maxScanfWidth : Int) else width) = widthOf width := by
    unfold widthOf
    split <;> omega
  unfold SploneBox.scanSigned signed
  dsimp only
  rw [hwidth]
  by_cases hneg : buf.head? = some 45
  · simp only [hneg, if_true]
    cases SploneBox.scanUnsigned false buf.tail ((widthOf width : Int) - 1) with
    | none => rfl
    | some x =>
        rw [Option.bind_some]
        simp only [true_and]
        split
        · split <;> rfl
        · split <;> rfl
  · simp only [hneg, if_false]
    cases SploneBox.scanUnsigned false buf (widthOf width) with
    | none => rfl
    | some x =>
        rw [Option.bind_some]
        simp only [false_and, if_false]
        split <;> rfl

/-- **`scan_signed` overflows nothing**, and computes what it computes on machine words. -/
theorem scanSigned_eq (buf : Bytes) {width : Int} (hwidth : width < 2 ^ 31) :
    scanSigned buf width = some (SploneBox.scanSigned buf width) := by
  have hof : (if width < 0 then (maxScanfWidth : Int) else width) = widthOf width := by
    unfold widthOf
    split <;> omega
  have hsmall : (widthOf width : Int) < 2 ^ 31 := by
    unfold widthOf maxScanfWidth
    split <;> omega
  rw [scanSigned_signed]
  unfold scanSigned
  dsimp only
  rw [hof]
  by_cases hneg : buf.head? = some 45
  · have hfit : int.fit ((widthOf width : Int) - 1) = some ((widthOf width : Int) - 1) :=
      IntType.signed_fit (by omega) (by omega)
    rw [if_pos hneg, if_pos hneg, if_pos hneg, hfit, Option.bind_eq_bind, Option.bind_some,
      scanUnsigned_eq false buf.tail (by omega), Option.bind_eq_bind, Option.bind_some]
    cases SploneBox.scanUnsigned false buf.tail ((widthOf width : Int) - 1) with
    | none => rfl
    | some x =>
        exact signed_eq (buf.head? = some 45) x.1 x.2
  · rw [if_neg hneg, if_neg hneg, if_neg hneg, scanUnsigned_eq false buf hsmall, Option.bind_eq_bind,
      Option.bind_some]
    cases SploneBox.scanUnsigned false buf (widthOf width) with
    | none => rfl
    | some x => exact signed_eq (buf.head? = some 45) x.1 x.2

/-! ## §3 The values -/

/-- The number that digits stand for, behind a sign or not. -/
def signedValue (sign ds : Bytes) : Int := if sign = [45] then -(numeral false ds : Int) else numeral false ds

/-- **What `scan_unsigned` is for**: it takes the longest run of digits off the buffer and has its value, or
fails where there is no digit or the value is too large. -/
def ExactUnsigned (hex : Bool) (width : Nat) (buf : Bytes) (r : Option (UInt64 × Bytes)) : Prop :=
  ∃ ds rest, buf = ds ++ rest ∧ Longest (digitOf hex) width buf ds ∧
    match r with
    | some (u, left) => ds ≠ [] ∧ u.toNat = numeral hex ds ∧ left = rest
    | none => ds = [] ∨ 2 ^ 64 ≤ numeral hex ds

/-- **What `scan_signed` is for**: the digits may have a sign, which counts towards the width, and the value
is one of `long`. -/
def ExactSigned (width : Nat) (buf : Bytes) (r : Option (Int × Bytes)) : Prop :=
  ∃ sign ds rest, buf = sign ++ (ds ++ rest) ∧ (sign = [45] ∨ sign = [] ∧ buf.head? ≠ some 45) ∧
    Longest (digitOf false) (width - sign.length) (ds ++ rest) ds ∧
    match r with
    | some (i, left) => ds ≠ [] ∧ i = signedValue sign ds ∧ -2 ^ 63 ≤ i ∧ i < 2 ^ 63 ∧ left = rest
    | none => ds = [] ∨ signedValue sign ds < -2 ^ 63 ∨ 2 ^ 63 ≤ signedValue sign ds

theorem exactUnsigned (hex : Bool) (buf : Bytes) (width : Int) :
    ExactUnsigned hex (widthOf width) buf (SploneBox.scanUnsigned hex buf width) := by
  refine ⟨run (digitOf hex) (widthOf width) buf, _, (run_append_drop _ _ _).symm, longest_run _ _ _, ?_⟩
  rw [SploneBox.scanUnsigned_eq]
  by_cases hfit :
    run (digitOf hex) (widthOf width) buf ≠ [] ∧ numeral hex (run (digitOf hex) (widthOf width) buf) < 2 ^ 64
  · rw [if_pos hfit]
    refine ⟨hfit.1, ?_, rfl⟩
    rw [UInt64.toNat_ofNat', Nat.mod_eq_of_lt hfit.2]
  · rw [if_neg hfit]
    show run (digitOf hex) (widthOf width) buf = [] ∨
        2 ^ 64 ≤ numeral hex (run (digitOf hex) (widthOf width) buf)
    by_contra hno
    rw [not_or, Nat.not_le] at hno
    exact hfit hno

/-- The number is given its sign, if it is one of `long` then. -/
theorem signed_value (neg : Prop) [Decidable neg] (u : UInt64) :
    signed neg u =
      let i := if neg then -(u.toNat : Int) else u.toNat
      if -2 ^ 63 ≤ i ∧ i < 2 ^ 63 then some i else none := by
  unfold signed
  dsimp only
  by_cases hneg : neg ∧ u > 0
  · have hone := (gt_zero_iff u).mp hneg.2
    rw [if_pos hneg, if_pos hneg.1, pred_eq hone]
    by_cases hover : u > 0x8000000000000000
    · have hlarge := (gt_min_iff u).mp hover
      rw [if_pos hover, if_neg (by omega)]
    · have hle : u.toNat ≤ 2 ^ 63 := Nat.not_lt.mp (mt (gt_min_iff u).mpr hover)
      rw [if_neg hover, if_pos (by omega)]
  · have hvalue : (if neg then -(u.toNat : Int) else u.toNat) = u.toNat := by
      by_cases hn : neg
      -- `-0` is not taken for negative.
      · have hzero : ¬ 0 < u.toNat := fun h => hneg ⟨hn, (gt_zero_iff u).mpr h⟩
        rw [if_pos hn]
        omega
      · rw [if_neg hn]
    rw [if_neg hneg, hvalue]
    by_cases hover : u > 0x7fffffffffffffff
    · have hlarge := (gt_max_iff u).mp hover
      rw [if_pos hover, if_neg (by omega)]
    · have hlt : u.toNat < 2 ^ 63 := Nat.not_le.mp (mt (gt_max_iff u).mpr hover)
      rw [if_neg hover, if_pos (by omega)]

/-- A number behind a sign, or behind none. -/
theorem exactSigned_of (sign : Bytes) {text : Bytes} (width : Nat) {w : Nat} {r : Option (UInt64 × Bytes)}
    (hsign : sign = [45] ∨ sign = [] ∧ (sign ++ text).head? ≠ some 45) (hw : w = width - sign.length)
    (h : ExactUnsigned false w text r) :
    ExactSigned width (sign ++ text) (r.bind fun x => (signed (sign = [45]) x.1).map fun i => (i, x.2)) := by
  obtain ⟨ds, rest, rfl, hlongest, hr⟩ := h
  subst hw
  refine ⟨sign, ds, rest, rfl, hsign, hlongest, ?_⟩
  cases r with
  | none =>
      rcases hr with hempty | hlarge
      · exact Or.inl hempty
      · refine Or.inr ?_
        unfold signedValue
        split
        · exact Or.inl (by omega)
        · exact Or.inr (by omega)
  | some x =>
      obtain ⟨hne, hvalue, hleft⟩ := hr
      have hi : (if sign = [45] then -(x.1.toNat : Int) else x.1.toNat) = signedValue sign ds := by
        rw [hvalue]
        rfl
      rw [Option.bind_some, signed_value]
      dsimp only
      rw [hi]
      by_cases hrange : -2 ^ 63 ≤ signedValue sign ds ∧ signedValue sign ds < 2 ^ 63
      · rw [if_pos hrange]
        exact ⟨hne, rfl, hrange.1, hrange.2, hleft⟩
      · rw [if_neg hrange]
        show ds = [] ∨ signedValue sign ds < -2 ^ 63 ∨ 2 ^ 63 ≤ signedValue sign ds
        right
        omega

theorem exactSigned (buf : Bytes) {width : Int} (hwidth : width ≠ 0) :
    ExactSigned (widthOf width) buf (SploneBox.scanSigned buf width) := by
  have hpos : 0 < widthOf width := by
    unfold widthOf maxScanfWidth
    split <;> omega
  rw [scanSigned_signed]
  by_cases hneg : buf.head? = some 45
  · have hbuf : buf = [45] ++ buf.tail := List.eq_cons_of_mem_head? hneg
    have hwidth' : widthOf ((widthOf width : Int) - 1) = widthOf width - 1 := by
      rw [widthOf, if_neg (by omega)]
      omega
    have hexact := exactUnsigned false buf.tail ((widthOf width : Int) - 1)
    rw [if_pos hneg, if_pos hneg]
    have hsigned := exactSigned_of [45] (widthOf width) (Or.inl rfl) hwidth' hexact
    rw [← hbuf] at hsigned
    simpa [hneg] using hsigned
  · have hwidth' : widthOf (widthOf width) = widthOf width - ([] : Bytes).length := by
      rw [widthOf, if_neg (by omega)]
      rfl
    rw [if_neg hneg, if_neg hneg]
    have hsigned := exactSigned_of [] (widthOf width) (Or.inr ⟨rfl, hneg⟩) hwidth'
      (exactUnsigned false buf (widthOf width))
    simpa [hneg] using hsigned

end Numbers

open Numbers

/-- **Number scanning is exact**, for every buffer, base and width but 0: no operation leaves its type, and
the two functions have the value of the longest run of digits, or fail where there is none. -/
theorem scanners_exact (hex : Bool) (buf : Bytes) (width : Int32) (hwidth : width ≠ 0) :
    ExactUnsigned hex (widthOf width.toInt) buf (scanUnsigned hex buf width.toInt) ∧
    ExactSigned (widthOf width.toInt) buf (scanSigned buf width.toInt) ∧
    Numbers.scanUnsigned hex buf width.toInt =
      some ((scanUnsigned hex buf width.toInt).map fun x => ((x.1.toNat : Int), x.2)) ∧
    Numbers.scanSigned buf width.toInt = some (scanSigned buf width.toInt) := by
  have hlt : width.toInt < 2 ^ 31 := width.toInt_lt
  have hnz : width.toInt ≠ 0 := fun h => hwidth (Int32.toInt_inj.mp (h.trans Int32.toInt_zero.symm))
  exact ⟨exactUnsigned hex buf _, exactSigned buf hnz, Numbers.scanUnsigned_eq hex buf hlt,
    Numbers.scanSigned_eq buf hlt⟩

/-- **The scanners at a boundary**: `-128x` with a width of 3 is -12, and the sign counts. -/
theorem scanners_exact_sample :
    ExactSigned 3 [45, 49, 50, 56, 120] (scanSigned [45, 49, 50, 56, 120] 3) ∧
      scanSigned [45, 49, 50, 56, 120] 3 = some (-12, [56, 120]) :=
  ⟨(scanners_exact false [45, 49, 50, 56, 120] 3 (by decide)).2.1, by decide⟩

end SploneBox
