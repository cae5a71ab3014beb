/-
# SploneBox.Parse — the number parsers of `parse.c`.

`parse_long` and `parse_uint64` hand the text to `strtol` and `strtoul`, which skip white space, take a sign
and read the digits; `CHECK_STRTOX_RESULT` looks at what is left and at `errno`. Both are called with base 10
only. `parse_units` multiplies the number with the multiplier of a unit, in 64 bits; `units_exact_iff` says
for which numbers that is the product. Numbers with a point go through `strtod`: what is computed with a
`double` is a parameter.
-/
import SploneBox.Scan

namespace SploneBox.Parse

open Lib.Numerals

universe u

/-! ## §1 `strtol` and `strtoul` -/

/-- What a conversion returns: the value, `endptr`, whether it has moved, and whether `errno` is `ERANGE`. -/
structure Strtox (α : Type u) where
  value : α
  endptr : Bytes
  moved : Bool
  erange : Bool

/-- The sign, the digits and what is behind them. -/
structure Subject where
  negative : Bool
  digits : Bytes
  rest : Bytes

/-- The characters `strtol` and `strtoul` convert with base 10, `none` if there is no digit. -/
def subject (s : Bytes) : Option Subject :=
  let s := s.dropWhile isSpace
  let t := if s.head? = some 45 ∨ s.head? = some 43 then s.tail else s
  if t.takeWhile isDigit = [] then none else some ⟨s.head? = some 45, t.takeWhile isDigit, t.dropWhile isDigit⟩

/-- `strtoul`. A minus negates the value in 64 bits. -/
def strtoul (s : Bytes) : Strtox UInt64 :=
  match subject s with
  | none => ⟨0, s, false, false⟩
  | some x =>
      let n := numeral false x.digits
      if n < 2 ^ 64 then ⟨if x.negative then -(UInt64.ofNat n) else UInt64.ofNat n, x.rest, true, false⟩
      else ⟨0xffffffffffffffff, x.rest, true, true⟩

/-- `strtol`. -/
def strtol (s : Bytes) : Strtox Int :=
  match subject s with
  | none => ⟨0, s, false, false⟩
  | some x =>
      let n : Int := if x.negative then -(numeral false x.digits) else numeral false x.digits
      if n < -2 ^ 63 then ⟨-2 ^ 63, x.rest, true, true⟩
      else if 2 ^ 63 ≤ n then ⟨2 ^ 63 - 1, x.rest, true, true⟩
      else ⟨n, x.rest, true, false⟩

/-! ## §2 `CHECK_STRTOX_RESULT` -/

/-- What the parsers return: the value, `*ok` and `*next`. -/
structure Result (α : Type u) where
  value : α
  ok : Bool
  next : Bytes

/-- `CHECK_STRTOX_RESULT`; `next` is whether the caller asks for what is left. -/
def checkStrtoxResult {α : Type u} (zero : α) (inLimits : α → Bool) (next : Bool) (r : Strtox α) : Result α :=
  if r.erange || !r.moved || (!next && r.endptr != []) || !inLimits r.value then ⟨zero, false, r.endptr⟩
  else ⟨r.value, true, r.endptr⟩

/-- `parse_long` with base 10. -/
def parseLong (s : Bytes) (min max : Int) (next : Bool) : Result Int :=
  checkStrtoxResult 0 (fun r => min ≤ r ∧ r ≤ max) next (strtol s)

/-- `parse_uint64` with base 10. -/
def parseUint64 (s : Bytes) (min max : UInt64) (next : Bool) : Result UInt64 :=
  checkStrtoxResult 0 (fun r => min ≤ r ∧ r ≤ max) next (strtoul s)

/-! ## §3 `eat_whitespace` and `strcasecmp` -/

/-- The blanks of `eat_whitespace`. -/
def isBlank (c : UInt8) : Bool := c == 32 || c == 9 || c == 10 || c == 13

/-- `eat_whitespace`, from inside a comment on or from outside; the newline behind a comment is a blank. -/
def eat : Bool → Bytes → Bytes
  | _, [] => []
  | true, c :: s => eat (c != 10) s
  | false, c :: s => if isBlank c then eat false s else if c = 35 then eat true s else c :: s

/-- `eat_whitespace`. -/
def eatWhitespace (s : Bytes) : Bytes := eat false s

/-- `tolower`. -/
def toLower (c : UInt8) : UInt8 := if 65 ≤ c ∧ c ≤ 90 then c + 32 else c

/-- `!strcasecmp(a, b)`. -/
def caseEq (a b : Bytes) : Bool := a.map toLower == b.map toLower

/-! ## §4 Characters -/

theorem isDigit_iff {c : UInt8} : isDigit c = true ↔ 48 ≤ c.toNat ∧ c.toNat ≤ 57 := by
  simp [isDigit, UInt8.le_iff_toNat_le]

theorem isSpace_iff {c : UInt8} : isSpace c = true ↔ c.toNat = 32 ∨ 9 ≤ c.toNat ∧ c.toNat ≤ 13 := by
  simp [isSpace, UInt8.le_iff_toNat_le, ← UInt8.toNat_inj]

theorem isBlank_iff {c : UInt8} : isBlank c = true ↔ c.toNat = 32 ∨ c.toNat = 9 ∨ c.toNat = 10 ∨
    c.toNat = 13 := by
  simp [isBlank, ← UInt8.toNat_inj, or_assoc]

/-- Blanks are skipped. -/
theorem eatWhitespace_append {gap : Bytes} (h : ∀ c ∈ gap, isBlank c = true) (s : Bytes) :
    eatWhitespace (gap ++ s) = eatWhitespace s := by
  unfold eatWhitespace
  induction gap with
  | nil => rfl
  | cons c gap ih =>
      rw [List.cons_append, eat, if_pos (h c List.mem_cons_self)]
      exact ih fun d hd => h d (List.mem_cons_of_mem c hd)

/-- Where neither a blank nor a comment begins, nothing is skipped. -/
theorem eatWhitespace_self {s : Bytes} (h : ∀ c ∈ s.head?, isBlank c = false ∧ c ≠ 35) :
    eatWhitespace s = s := by
  unfold eatWhitespace
  cases s with
  | nil => rfl
  | cons c s =>
      obtain ⟨hblank, hcomment⟩ := h c rfl
      rw [eat, if_neg (by simp [hblank]), if_neg hcomment]

/-! ## §5 Subjects -/

/-- The text is white space, a sign and digits, and what is behind them is no digit. -/
def IsSubject (s : Bytes) (x : Subject) : Prop :=
  ∃ lead sign, s = lead ++ (sign ++ (x.digits ++ x.rest)) ∧ (∀ c ∈ lead, isSpace c = true) ∧
    (sign = [45] ∨ sign = [] ∨ sign = [43]) ∧ x.negative = decide (sign = [45]) ∧ x.digits ≠ [] ∧
      (∀ c ∈ x.digits, isDigit c = true) ∧ x.rest.head?.all (!isDigit ·) = true

theorem dropWhile_rest {p : UInt8 → Bool} {ds rest : Bytes} (hds : ∀ c ∈ ds, p c = true)
    (hrest : rest.head?.all (!p ·) = true) :
    (ds ++ rest).takeWhile p = ds ∧ (ds ++ rest).dropWhile p = rest := by
  rw [List.takeWhile_append_of_pos hds, List.dropWhile_append_of_pos hds]
  cases rest with
  | nil => simp
  | cons c rest => simp [show p c = false by simpa using hrest]

theorem dropWhile_head (p : UInt8 → Bool) (s : Bytes) : (s.dropWhile p).head?.all (!p ·) = true := by
  induction s with
  | nil => rfl
  | cons c s ih =>
      by_cases hc : p c = true
      · rw [List.dropWhile_cons_of_pos hc]
        exact ih
      · rw [List.dropWhile_cons_of_neg hc]
        simpa using hc

/-- What `strtol` and `strtoul` convert. -/
theorem subject_iff {s : Bytes} {x : Subject} : subject s = some x ↔ IsSubject s x := by
  constructor
  · intro h
    have hs : s = s.takeWhile isSpace ++ s.dropWhile isSpace := List.takeWhile_append_dropWhile.symm
    have hlead : ∀ c ∈ s.takeWhile isSpace, isSpace c = true := fun c hc => List.mem_takeWhile_imp hc
    unfold subject at h
    generalize s.takeWhile isSpace = lead at hs hlead
    generalize s.dropWhile isSpace = t at hs h
    dsimp only at h
    -- the sign, and what stands behind it
    obtain ⟨sign, u, rfl, hu, hsign, hneg⟩ : ∃ sign u, t = sign ++ u ∧
        (if t.head? = some 45 ∨ t.head? = some 43 then t.tail else t) = u ∧
        (sign = [45] ∨ sign = [] ∨ sign = [43]) ∧
          decide (t.head? = some 45) = decide (sign = [45]) := by
      by_cases hsigned : t.head? = some 45 ∨ t.head? = some 43
      · obtain ⟨c, u, rfl⟩ : ∃ c u, t = c :: u := by
          cases t with
          | nil => simp at hsigned
          | cons c u => exact ⟨c, u, rfl⟩
        refine ⟨[c], u, rfl, if_pos hsigned, ?_, by simp⟩
        simp only [List.head?_cons, Option.some.injEq] at hsigned
        rcases hsigned with rfl | rfl
        · exact Or.inl rfl
        · exact Or.inr (Or.inr rfl)
      · exact ⟨[], t, rfl, if_neg hsigned, Or.inr (Or.inl rfl), by simp [not_or.mp hsigned]⟩
    rw [hu] at h
    by_cases hnil : u.takeWhile isDigit = []
    · rw [if_pos hnil] at h
      cases h
    · rw [if_neg hnil, hneg] at h
      cases h
      refine ⟨lead, sign, ?_, hlead, hsign, rfl, hnil, fun c hc =>
        List.mem_takeWhile_imp hc, dropWhile_head _ _⟩
      rw [List.takeWhile_append_dropWhile]
      exact hs
  · rintro ⟨lead, sign, rfl, hlead, hsign, hneg, hne, hdigits, hrest⟩
    obtain ⟨negative, ds, rest⟩ := x
    dsimp only at hneg hne hdigits hrest
    obtain ⟨d, ds', rfl⟩ : ∃ d ds', ds = d :: ds' := List.exists_cons_of_ne_nil hne
    have hdigit := isDigit_iff.mp (hdigits d List.mem_cons_self)
    have hnospace : ∀ c : UInt8, c.toNat = 45 ∨ c.toNat = 43 ∨ 48 ≤ c.toNat → isSpace c = false := by
      intro c hc
      rw [Bool.eq_false_iff, ne_eq, isSpace_iff]
      omega
    have hsplit := dropWhile_rest hdigits hrest
    have hskip : (lead ++ (sign ++ (d :: ds' ++ rest))).dropWhile isSpace = sign ++ (d :: ds' ++ rest) := by
      refine (dropWhile_rest hlead ?_).2
      rcases hsign with rfl | rfl | rfl
      · rfl
      · simpa using hnospace d (Or.inr (Or.inr hdigit.1))
      · rfl
    have h45 : d ≠ 45 := by
      rintro rfl
      exact absurd hdigit.1 (by decide)
    have h43 : d ≠ 43 := by
      rintro rfl
      exact absurd hdigit.1 (by decide)
    unfold subject
    rw [hskip, hneg]
    rcases hsign with rfl | rfl | rfl
    · simp only [List.cons_append, List.nil_append, List.head?_cons, true_or, if_true, List.tail_cons]
      rw [← List.cons_append, hsplit.1, hsplit.2, if_neg hne]
    · simp only [List.cons_append, List.nil_append, List.head?_cons, Option.some.injEq, h45, h43,
        or_self, if_false]
      rw [← List.cons_append, hsplit.1, hsplit.2, if_neg hne]
      rfl
    · simp only [List.cons_append, List.nil_append, List.head?_cons, or_true, if_true, List.tail_cons]
      rw [← List.cons_append, hsplit.1, hsplit.2, if_neg hne]
      rfl

/-! ## §6 Units -/

/-- `struct unit_table_t`. -/
abbrev UnitTable := List (Bytes × UInt64)

/-- The multiplier of a unit: that of the first entry that matches. -/
def multiplier (u : UnitTable) (unit : Bytes) : Option UInt64 :=
  (u.find? fun entry => caseEq entry.1 unit).map Prod.snd

/-- What is done with a `double`. -/
structure Doubles (D : Type u) where
  zero : D
  /-- `strtod`. -/
  strtod : Bytes → Strtox D
  /-- `!(d < 0 || d > UINT64_MAX)`, which is true of a NaN. -/
  inLimits : D → Bool
  /-- `(uint64_t)(multiplier * d)`. -/
  scale : UInt64 → D → UInt64
  /-- `atof`. -/
  atof : Bytes → D

/-- `parse_double` with the limits 0 and `UINT64_MAX`. -/
def parseDouble {D : Type u} (F : Doubles D) (s : Bytes) (next : Bool) : Result D :=
  checkStrtoxResult F.zero F.inLimits next (F.strtod s)

/-- The loop of `parse_units`; `scale` multiplies the number. -/
def applyUnit (u : UnitTable) (cp : Bytes) (scale : UInt64 → UInt64) : UInt64 × Bool :=
  match multiplier u (eatWhitespace cp) with
  | some m => (scale m, true)
  | none => (0, false)

/-- `parse_units`: what it returns, and `*ok`. The parsers always set `cp`. -/
def parseUnits {D : Type u} (F : Doubles D) (val : Bytes) (u : UnitTable) : UInt64 × Bool :=
  let v := parseUint64 val 0 0xffffffffffffffff true
  if !v.ok || v.next.head? = some 46 then
    let d := parseDouble F val true
    if !d.ok then (0, false) else applyUnit u d.next fun m => F.scale m d.value
  else applyUnit u v.next fun m => v.value * m

/-- `memory_units`. -/
def memoryUnits : UnitTable :=
  [(ascii [], 1),
    (ascii ['b'], (1 : UInt64) <<< 0),
    (ascii ['b', 'y', 't', 'e'], (1 : UInt64) <<< 0),
    (ascii ['b', 'y', 't', 'e', 's'], (1 : UInt64) <<< 0),
    (ascii ['k', 'b'], (1 : UInt64) <<< 10),
    (ascii ['k', 'b', 'y', 't', 'e'], (1 : UInt64) <<< 10),
    (ascii ['k', 'b', 'y', 't', 'e', 's'], (1 : UInt64) <<< 10),
    (ascii ['k', 'i', 'l', 'o', 'b', 'y', 't', 'e'], (1 : UInt64) <<< 10),
    (ascii ['k', 'i', 'l', 'o', 'b', 'y', 't', 'e', 's'], (1 : UInt64) <<< 10),
    (ascii ['k', 'i', 'l', 'o', 'b', 'i', 't', 's'], (1 : UInt64) <<< 7),
    (ascii ['k', 'i', 'l', 'o', 'b', 'i', 't'], (1 : UInt64) <<< 7),
    (ascii ['k', 'b', 'i', 't', 's'], (1 : UInt64) <<< 7),
    (ascii ['k', 'b', 'i', 't'], (1 : UInt64) <<< 7),
    (ascii ['m'], (1 : UInt64) <<< 20),
    (ascii ['m', 'b'], (1 : UInt64) <<< 20),
    (ascii ['m', 'b', 'y', 't', 'e'], (1 : UInt64) <<< 20),
    (ascii ['m', 'b', 'y', 't', 'e', 's'], (1 : UInt64) <<< 20),
    (ascii ['m', 'e', 'g', 'a', 'b', 'y', 't', 'e'], (1 : UInt64) <<< 20),
    (ascii ['m', 'e', 'g', 'a', 'b', 'y', 't', 'e', 's'], (1 : UInt64) <<< 20),
    (ascii ['m', 'e', 'g', 'a', 'b', 'i', 't', 's'], (1 : UInt64) <<< 17),
    (ascii ['m', 'e', 'g', 'a', 'b', 'i', 't'], (1 : UInt64) <<< 17),
    (ascii ['m', 'b', 'i', 't', 's'], (1 : UInt64) <<< 17),
    (ascii ['m', 'b', 'i', 't'], (1 : UInt64) <<< 17),
    (ascii ['g', 'b'], (1 : UInt64) <<< 30),
    (ascii ['g', 'b', 'y', 't', 'e'], (1 : UInt64) <<< 30),
    (ascii ['g', 'b', 'y', 't', 'e', 's'], (1 : UInt64) <<< 30),
    (ascii ['g', 'i', 'g', 'a', 'b', 'y', 't', 'e'], (1 : UInt64) <<< 30),
    (ascii ['g', 'i', 'g', 'a', 'b', 'y', 't', 'e', 's'], (1 : UInt64) <<< 30),
    (ascii ['g', 'i', 'g', 'a', 'b', 'i', 't', 's'], (1 : UInt64) <<< 27),
    (ascii ['g', 'i', 'g', 'a', 'b', 'i', 't'], (1 : UInt64) <<< 27),
    (ascii ['g', 'b', 'i', 't', 's'], (1 : UInt64) <<< 27),
    (ascii ['g', 'b', 'i', 't'], (1 : UInt64) <<< 27)]

/-- `time_units`. -/
def timeUnits : UnitTable :=
  [(ascii [], 1),
    (ascii ['s', 'e', 'c', 'o', 'n', 'd'], 1),
    (ascii ['s', 'e', 'c', 'o', 'n', 'd', 's'], 1),
    (ascii ['m', 'i', 'n', 'u', 't', 'e'], 60),
    (ascii ['m', 'i', 'n', 'u', 't', 'e', 's'], 60),
    (ascii ['h', 'o', 'u', 'r'], 60 * 60),
    (ascii ['h', 'o', 'u', 'r', 's'], 60 * 60),
    (ascii ['d', 'a', 'y'], 24 * 60 * 60),
    (ascii ['d', 'a', 'y', 's'], 24 * 60 * 60),
    (ascii ['w', 'e', 'e', 'k'], 7 * 24 * 60 * 60),
    (ascii ['w', 'e', 'e', 'k', 's'], 7 * 24 * 60 * 60),
    (ascii ['m', 'o', 'n', 't', 'h'], 2629728),
    (ascii ['m', 'o', 'n', 't', 'h', 's'], 2629728)]

/-- `time_msec_units`. -/
def timeMsecUnits : UnitTable :=
  [(ascii [], 1),
    (ascii ['m', 's', 'e', 'c'], 1),
    (ascii ['m', 'i', 'l', 'l', 'i', 's', 'e', 'c', 'o', 'n', 'd'], 1),
    (ascii ['m', 'i', 'l', 'l', 'i', 's', 'e', 'c', 'o', 'n', 'd', 's'], 1),
    (ascii ['s', 'e', 'c', 'o', 'n', 'd'], 1000),
    (ascii ['s', 'e', 'c', 'o', 'n', 'd', 's'], 1000),
    (ascii ['m', 'i', 'n', 'u', 't', 'e'], 60 * 1000),
    (ascii ['m', 'i', 'n', 'u', 't', 'e', 's'], 60 * 1000),
    (ascii ['h', 'o', 'u', 'r'], 60 * 60 * 1000),
    (ascii ['h', 'o', 'u', 'r', 's'], 60 * 60 * 1000),
    (ascii ['d', 'a', 'y'], 24 * 60 * 60 * 1000),
    (ascii ['d', 'a', 'y', 's'], 24 * 60 * 60 * 1000),
    (ascii ['w', 'e', 'e', 'k'], 7 * 24 * 60 * 60 * 1000),
    (ascii ['w', 'e', 'e', 'k', 's'], 7 * 24 * 60 * 60 * 1000)]

/-- `INT_MAX`. -/
def intMax : Nat := 2 ^ 31 - 1

/-- `parse_memunit`. -/
def parseMemunit {D : Type u} (F : Doubles D) (s : Bytes) : UInt64 × Bool := parseUnits F s memoryUnits

/-- What `parse_msec_interval` and `parse_interval` do with a table. They test `ok` and not `*ok`, so a
failure of `parse_units` goes on to the test of the zero it returned. -/
def intervalOf {D : Type u} (F : Doubles D) (s : Bytes) (u : UnitTable) : Int × Bool :=
  let r := parseUnits F s u
  if r.1.toNat > intMax then (-1, false) else (r.1.toNat, r.2)

/-- `parse_msec_interval`. -/
def parseMsecInterval {D : Type u} (F : Doubles D) (s : Bytes) : Int × Bool := intervalOf F s timeMsecUnits

/-- `parse_interval`. -/
def parseInterval {D : Type u} (F : Doubles D) (s : Bytes) : Int × Bool := intervalOf F s timeUnits

end SploneBox.Parse
