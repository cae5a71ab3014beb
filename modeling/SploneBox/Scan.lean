/-
# SploneBox.Scan — `box_sscanf` and the scanners of `util.c`.

A C string is the list of the bytes in front of its NUL, so `!*buf` is the empty list. `scan_unsigned` reads
digits as long as the width allows, and checks before each of them that the result will not overflow; it
computes the value of the run of digits at the front of the buffer (`scanUnsigned_eq`). `box_vsscanf` goes
through a pattern. Its `%lf` is left out, since nobody uses it.
-/
import SploneBox.Bytes
import SploneBox.Lib.Numerals

namespace SploneBox

open Lib.Numerals

/-! ## §1 Characters -/

/-- `ISDIGIT`. -/
def isDigit (c : UInt8) : Bool := 48 ≤ c && c ≤ 57

/-- `ISSPACE`. -/
def isSpace (c : UInt8) : Bool := c == 32 || 9 ≤ c && c ≤ 13

/-- `ISXDIGIT`. -/
def isXDigit (c : UInt8) : Bool := isDigit c || 65 ≤ c && c ≤ 70 || 97 ≤ c && c ≤ 102

/-- `digit_to_num`, and `hex_decode_digit` of a hexadecimal digit. -/
def digitToNum (c : UInt8) : Nat :=
  if c ≤ 57 then c.toNat - 48 else if c ≤ 70 then c.toNat - 55 else c.toNat - 87

/-! ## §2 Numbers -/

/-- `MAX_SCANF_WIDTH`. -/
def maxScanfWidth : Nat := 9999

/-- The numerals `scan_unsigned` reads. -/
def digitOf (hex : Bool) (c : UInt8) : Bool := if hex then isXDigit c else isDigit c

/-- `base`. -/
def baseOf (hex : Bool) : Nat := if hex then 16 else 10

/-- The loop of `scan_unsigned`: what is left of the buffer, the result and the number of digits, `none` when
a digit would overflow. -/
def scanLoop (hex : Bool) (width : Nat) : Bytes → UInt64 → Nat → Option (Bytes × UInt64 × Nat)
  | [], result, scanned => some ([], result, scanned)
  | c :: buf, result, scanned =>
      if digitOf hex c ∧ scanned < width then
        let digit := UInt64.ofNat (digitToNum c)
        let base := UInt64.ofNat (baseOf hex)
        if result > (0xffffffffffffffff - digit) / base then none
        else scanLoop hex width buf (result * base + digit) (scanned + 1)
      else some (c :: buf, result, scanned)

/-- `scan_unsigned`: the number and what is left of the buffer; `width` is -1 for any. -/
def scanUnsigned (hex : Bool) (buf : Bytes) (width : Int) : Option (UInt64 × Bytes) :=
  match scanLoop hex (if width < 0 then maxScanfWidth else width.toNat) buf 0 0 with
  | some (buf, result, scanned) => if scanned = 0 then none else some (result, buf)
  | none => none

theorem digitToNum_lt {hex : Bool} {c : UInt8} (h : digitOf hex c = true) : digitToNum c < baseOf hex := by
  cases hex with
  | false =>
      simp only [digitOf, isDigit, Bool.false_eq_true, if_false, Bool.and_eq_true, decide_eq_true_eq,
        UInt8.le_iff_toNat_le, UInt8.reduceToNat] at h
      simp only [digitToNum, baseOf, Bool.false_eq_true, if_false, UInt8.le_iff_toNat_le, UInt8.reduceToNat]
      split <;> omega
  | true =>
      simp only [digitOf, isXDigit, isDigit, if_true, Bool.and_eq_true, Bool.or_eq_true, decide_eq_true_eq,
        UInt8.le_iff_toNat_le, UInt8.reduceToNat] at h
      simp only [digitToNum, baseOf, if_true, UInt8.le_iff_toNat_le, UInt8.reduceToNat]
      split
      · omega
      · split <;> omega

/-- The check for overflow is exact. -/
theorem overflows_iff {hex : Bool} {c : UInt8} (h : digitOf hex c = true) (result : UInt64) :
    result > (0xffffffffffffffff - UInt64.ofNat (digitToNum c)) / UInt64.ofNat (baseOf hex) ↔
      2 ^ 64 ≤ baseOf hex * result.toNat + digitToNum c := by
  have hlt := digitToNum_lt h
  have hbase : baseOf hex = 10 ∨ baseOf hex = 16 := by
    cases hex
    · exact Or.inl rfl
    · exact Or.inr rfl
  have hdigit : (UInt64.ofNat (digitToNum c)).toNat = digitToNum c := by
    rw [UInt64.toNat_ofNat']
    omega
  have hsub : (0xffffffffffffffff - UInt64.ofNat (digitToNum c)).toNat = 2 ^ 64 - 1 - digitToNum c := by
    rw [UInt64.toNat_sub_of_le _ _ (by rw [UInt64.le_iff_toNat_le, hdigit]; show _ ≤ 2 ^ 64 - 1; omega), hdigit]
    rfl
  have hbase' : (UInt64.ofNat (baseOf hex)).toNat = baseOf hex := by
    rw [UInt64.toNat_ofNat']
    omega
  rw [gt_iff_lt, UInt64.lt_iff_toNat_lt, UInt64.toNat_div, hsub, hbase']
  rw [Nat.div_lt_iff_lt_mul (by omega), Nat.mul_comm]
  omega

/-- The value of a numeral of `scan_unsigned`. -/
def numeral (hex : Bool) (ds : Bytes) : Nat := value (baseOf hex) digitToNum ds

/-- The loop reads the run of digits, unless its value does not fit. -/
theorem scanLoop_eq (hex : Bool) (buf : Bytes) : ∀ (width : Nat) (result : UInt64) (scanned : Nat),
    scanLoop hex (scanned + width) buf result scanned =
      if valueFrom (baseOf hex) digitToNum result.toNat (run (digitOf hex) width buf) < 2 ^ 64 then
        some (buf.drop (run (digitOf hex) width buf).length,
          UInt64.ofNat (valueFrom (baseOf hex) digitToNum result.toNat (run (digitOf hex) width buf)),
          scanned + (run (digitOf hex) width buf).length)
      else none := by
  have hstop : ∀ (buf : Bytes) (result : UInt64) (scanned : Nat), some (buf, result, scanned) =
      if valueFrom (baseOf hex) digitToNum result.toNat [] < 2 ^ 64 then
        some (buf.drop ([] : Bytes).length, UInt64.ofNat (valueFrom (baseOf hex) digitToNum result.toNat []),
          scanned + ([] : Bytes).length)
      else none := by
    intro buf result scanned
    rw [valueFrom_nil, if_pos result.toNat_lt, UInt64.ofNat_toNat]
    rfl
  have hbase : 0 < baseOf hex := by cases hex <;> decide
  induction buf with
  | nil =>
      intro width result scanned
      rw [run_nil, scanLoop]
      exact hstop [] result scanned
  | cons c buf ih =>
      intro width result scanned
      by_cases hdigit : digitOf hex c = true
      · cases width with
        | zero =>
            rw [run_zero, scanLoop, if_neg (by simp)]
            exact hstop (c :: buf) result scanned
        | succ width =>
            rw [run_cons_digit hdigit, scanLoop, if_pos ⟨hdigit, by omega⟩, valueFrom_cons]
            dsimp only
            by_cases hover : 2 ^ 64 ≤ baseOf hex * result.toNat + digitToNum c
            · rw [if_pos ((overflows_iff hdigit result).mpr hover), if_neg]
              exact Nat.not_lt.mpr (hover.trans (le_valueFrom hbase digitToNum _ _))
            · rw [if_neg (mt (overflows_iff hdigit result).mp hover)]
              have hnext : (result * UInt64.ofNat (baseOf hex) + UInt64.ofNat (digitToNum c)).toNat =
                  baseOf hex * result.toNat + digitToNum c := by
                have hlt := digitToNum_lt hdigit
                have hsmall : baseOf hex < 2 ^ 64 := by cases hex <;> decide
                rw [UInt64.toNat_add, UInt64.toNat_mul, UInt64.toNat_ofNat', UInt64.toNat_ofNat',
                  Nat.mod_eq_of_lt hsmall, Nat.mod_eq_of_lt (hlt.trans hsmall), Nat.mod_add_mod,
                  Nat.mul_comm result.toNat]
                exact Nat.mod_eq_of_lt (Nat.not_le.mp hover)
              have hloop :=
                ih width (result * UInt64.ofNat (baseOf hex) + UInt64.ofNat (digitToNum c)) (scanned + 1)
              rw [show scanned + 1 + width = scanned + (width + 1) by omega] at hloop
              rw [hloop, hnext, List.length_cons, List.drop_succ_cons]
              rw [show scanned + 1 + (run (digitOf hex) width buf).length =
                scanned + ((run (digitOf hex) width buf).length + 1) by omega]
      · rw [run_cons_other (by simpa using hdigit), scanLoop, if_neg (fun h => hdigit h.1)]
        exact hstop (c :: buf) result scanned

/-- The characters `scan_unsigned` may read. -/
def widthOf (width : Int) : Nat := if width < 0 then maxScanfWidth else width.toNat

/-- **`scan_unsigned` reads the run of digits** and returns its value, unless there is none or the value does
not fit. -/
theorem scanUnsigned_eq (hex : Bool) (buf : Bytes) (width : Int) :
    scanUnsigned hex buf width =
      if run (digitOf hex) (widthOf width) buf ≠ [] ∧
        numeral hex (run (digitOf hex) (widthOf width) buf) < 2 ^ 64 then
        some (UInt64.ofNat (numeral hex (run (digitOf hex) (widthOf width) buf)),
          buf.drop (run (digitOf hex) (widthOf width) buf).length)
      else none := by
  have hloop := scanLoop_eq hex buf (widthOf width) 0 0
  rw [Nat.zero_add] at hloop
  unfold scanUnsigned
  rw [show (if width < 0 then maxScanfWidth else width.toNat) = widthOf width from rfl, hloop]
  have hzero : valueFrom (baseOf hex) digitToNum (0 : UInt64).toNat (run (digitOf hex) (widthOf width) buf) =
      numeral hex (run (digitOf hex) (widthOf width) buf) := rfl
  rw [hzero, Nat.zero_add]
  by_cases hlt : numeral hex (run (digitOf hex) (widthOf width) buf) < 2 ^ 64
  · rw [if_pos hlt]
    by_cases hempty : run (digitOf hex) (widthOf width) buf = []
    · rw [if_neg fun h => h.1 hempty, hempty]
      rfl
    · rw [if_pos ⟨hempty, hlt⟩]
      dsimp only
      rw [if_neg fun h => hempty (List.length_eq_zero_iff.mp h)]
  · rw [if_neg hlt, if_neg fun h => hlt h.2]

/-- `scan_signed`. -/
def scanSigned (buf : Bytes) (width : Int) : Option (Int × Bytes) :=
  let width := if width < 0 then (maxScanfWidth : Int) else width
  let neg := buf.head? = some 45
  match (if neg then scanUnsigned false buf.tail (width - 1) else scanUnsigned false buf width) with
  | none => none
  | some (result, buf) =>
      if neg ∧ result > 0 then
        if result > 0x8000000000000000 then none else some (-(result - 1).toNat - 1, buf)
      else if result > 0x7fffffffffffffff then none
      else some (result.toNat, buf)

/-- `scan_string`: the characters copied and what is left of the buffer. -/
def scanString (buf : Bytes) (width : Nat) : Bytes × Bytes :=
  let out := (buf.take width).takeWhile fun c => !isSpace c
  (out, buf.drop out.length)

/-! ## §3 `box_vsscanf` -/

/-- What a conversion stores. -/
inductive Scanned where
  | unsigned (n : UInt64)
  | signed (n : Int)
  | string (s : Bytes)
  | char (c : UInt8)
deriving DecidableEq

/-- The width in front of a conversion, -1 if there is none, and the rest of the pattern; `none` when it is 0
or too large. -/
def patternWidth (pattern : Bytes) : Option (Int × Bytes) :=
  let ds := pattern.takeWhile isDigit
  if ds = [] then some (-1, pattern)
  else if numeral false ds > maxScanfWidth ∨ numeral false ds = 0 then none
  else some (numeral false ds, pattern.drop ds.length)

/-- `box_vsscanf` from a place in the pattern on: the number of conversions and what they have stored. Every
round takes at least one character off the pattern. -/
def vsscanf : Nat → Bytes → Bytes → List Scanned → Int × List Scanned
  | 0, _, _, out => (out.length, out)
  | _ + 1, _, [], out => (out.length, out)
  | n + 1, buf, p :: pattern, out =>
      if p ≠ 37 then
        if buf.head? = some p then vsscanf n buf.tail pattern out else (out.length, out)
      else
        match patternWidth pattern with
        | none => (-1, out)
        | some (width, pattern) =>
            let longmod := pattern.head? = some 108
            match (if longmod then pattern.tail else pattern) with
            | [] => (-1, out)
            | conversion :: pattern =>
                if conversion = 117 ∨ conversion = 120 then
                  if buf = [] then (out.length, out)
                  else
                    match scanUnsigned (conversion = 120) buf width with
                    | none => (out.length, out)
                    | some (u, buf) =>
                        if ¬longmod ∧ u > 0xffffffff then (out.length, out)
                        else vsscanf n buf pattern (out ++ [.unsigned u])
                else if conversion = 100 then
                  match scanSigned buf width with
                  | none => (out.length, out)
                  | some (i, buf) =>
                      if ¬longmod ∧ (i < -0x80000000 ∨ i > 0x7fffffff) then (out.length, out)
                      else vsscanf n buf pattern (out ++ [.signed i])
                else if conversion = 115 then
                  if longmod ∨ width < 0 then (-1, out)
                  else vsscanf n (scanString buf width.toNat).2 pattern
                    (out ++ [.string (scanString buf width.toNat).1])
                else if conversion = 99 then
                  if longmod ∨ width ≠ -1 then (-1, out)
                  else
                    match buf with
                    | [] => (out.length, out)
                    | c :: buf => vsscanf n buf pattern (out ++ [.char c])
                else if conversion = 37 then
                  if buf.head? ≠ some 37 then (out.length, out)
                  else if longmod then (-1, out)
                  else vsscanf n buf.tail pattern out
                else (-1, out)

/-- `box_sscanf`. -/
def boxSscanf (buf pattern : Bytes) : Int × List Scanned := vsscanf pattern.length buf pattern []

end SploneBox
