/-
# SploneBox.Units — which unit values are exact.

An option of the configuration can be a number with a unit, as in `5 kb` or `2 weeks`. `parse_units` reads the
number with `strtoul`, looks the word up in a table and multiplies; `parse_memunit`, `parse_interval` and
`parse_msec_interval` call it with their tables. A number with a point goes through `double`s, which are left to
the parameter `Doubles`; the values here have an integer in front of the unit.

`Written` is such a text: white space, a sign, digits, blanks, and a word. What is read of it is
`parseUnits_written`: the product of the number and the multiplier modulo 2⁶⁴, where a minus is a negation
modulo 2⁶⁴, as `strtoul` has it. Nothing tests for an overflow of the product. So

* a memory unit is exact just when the product is a 64-bit number (`Fits`);
* an interval is tested against `INT_MAX` after the product was cut off. It is right when the product fits, and
  it is also right, because it is refused, when what is left of the product is above `INT_MAX`
  (`FitsOrTooLong`).

`unit_values_exact_iff` is this for the three parsers and for the options that `config_assign_value` stores with
them. A minus sign alone is enough for a value that nobody wrote (`minus_one_read`).
-/
import SploneBox.Confparse

namespace SploneBox.Parse

open Lib.Numerals Confparse

universe u

/-! ## §1 What is written -/

/-- An integer literal: white space, a sign and digits whose number fits in 64 bits. -/
def Literal (lit : Bytes) (z : Int) : Prop :=
  ∃ lead sign ds, lit = lead ++ (sign ++ ds) ∧ (∀ c ∈ lead, isSpace c = true) ∧ ds ≠ [] ∧
    (∀ c ∈ ds, isDigit c = true) ∧
    numeral false ds < 2 ^ 64 ∧
      (sign = [45] ∧ z = -(numeral false ds : Int) ∨ (sign = [] ∨ sign = [43]) ∧ z = (numeral false ds : Int))

/-- A letter of a unit. -/
def isLetter (c : UInt8) : Bool := 65 ≤ c && c ≤ 90 || 97 ≤ c && c ≤ 122

theorem isLetter_iff {c : UInt8} : isLetter c = true ↔ 65 ≤ c.toNat ∧ c.toNat ≤ 90 ∨ 97 ≤ c.toNat ∧
    c.toNat ≤ 122 := by
  simp [isLetter, UInt8.le_iff_toNat_le]

/-- A number and a unit, with blanks in between. -/
def Written (s : Bytes) (z : Int) (unit : Bytes) : Prop :=
  ∃ lit gap, s = lit ++ (gap ++ unit) ∧ Literal lit z ∧ (∀ c ∈ gap, isBlank c = true) ∧
    ∀ c ∈ unit, isLetter c = true

/-! ## §2 Literals -/

/-- `strtoul` of a literal is its number modulo 2⁶⁴. -/
theorem strtoul_literal {lit rest : Bytes} {z : Int} (h : Literal lit z)
    (hrest : rest.head?.all (!isDigit ·) = true) :
    strtoul (lit ++ rest) = ⟨UInt64.ofInt z, rest, true, false⟩ := by
  obtain ⟨lead, sign, ds, rfl, hlead, hne, hdigits, hlt, hz⟩ := h
  have hsign : sign = [45] ∨ sign = [] ∨ sign = [43] := by
    rcases hz with ⟨h, -⟩ | ⟨h, -⟩
    · exact Or.inl h
    · exact Or.inr h
  have hofNat : UInt64.ofNat (numeral false ds) = UInt64.ofInt (numeral false ds) := by
    rw [UInt64.ofInt]
    congr 1
    omega
  have hsubject : subject (lead ++ (sign ++ (ds ++ rest))) = some ⟨sign = [45], ds, rest⟩ :=
    subject_iff.mpr ⟨lead, sign, rfl, hlead, hsign, rfl, hne, hdigits, hrest⟩
  rw [List.append_assoc, List.append_assoc]
  unfold strtoul
  rw [hsubject]
  dsimp only
  rw [if_pos hlt, hofNat]
  rcases hz with ⟨rfl, rfl⟩ | ⟨hplus, rfl⟩
  · rw [UInt64.ofInt_neg]
    rfl
  · have hno : sign ≠ [45] := by rcases hplus with rfl | rfl <;> decide
    simp [hno]

theorem parseUint64_eq (s : Bytes) (next : Bool) : parseUint64 s 0 0xffffffffffffffff next =
    if (strtoul s).erange || !(strtoul s).moved || (!next && (strtoul s).endptr != []) then
      ⟨0, false, (strtoul s).endptr⟩
    else ⟨(strtoul s).value, true, (strtoul s).endptr⟩ := by
  have hlimits : ∀ r : UInt64, (decide (0 ≤ r ∧ r ≤ 0xffffffffffffffff)) = true := by
    intro r
    rw [decide_eq_true_eq, UInt64.le_iff_toNat_le, UInt64.le_iff_toNat_le]
    exact ⟨Nat.zero_le _, Nat.le_of_lt_succ r.toNat_lt⟩
  unfold parseUint64 checkStrtoxResult
  simp only [hlimits, Bool.not_true, Bool.or_false]

/-! ## §3 Products -/

/-- A product modulo 2⁶⁴. -/
def wrap (p : Int) : Nat := (p % 2 ^ 64).toNat

/-- The product is a 64-bit number. -/
def Fits (p : Int) : Prop := 0 ≤ p ∧ p < 2 ^ 64

/-- The product is a 64-bit number, or what is left of it modulo 2⁶⁴ does not pass the test against `INT_MAX`. -/
def FitsOrTooLong (p : Int) : Prop := Fits p ∨ intMax < wrap p

theorem wrap_eq_iff (p : Int) : (wrap p : Int) = p ↔ Fits p := by
  unfold wrap Fits
  omega

/-- `parse_units` multiplies modulo 2⁶⁴. -/
theorem parseUnits_written {D : Type u} (F : Doubles D) {s unit : Bytes} {z : Int} (h : Written s z unit)
    {table : UnitTable} {m : UInt64} (hm : multiplier table unit = some m) :
    ∃ v, parseUnits F s table = (v, true) ∧ v.toNat = wrap (z * m.toNat) := by
  obtain ⟨lit, gap, rfl, hlit, hgap, hword⟩ := h
  -- neither a blank nor a letter is a digit or a point
  have hchar : ∀ c ∈ gap ++ unit, isDigit c = false ∧ c ≠ 46 := by
    intro c hc
    have hcode : c.toNat < 46 ∨ 58 ≤ c.toNat := by
      rcases List.mem_append.mp hc with hc | hc
      · have hblank := isBlank_iff.mp (hgap c hc)
        omega
      · have hletter := isLetter_iff.mp (hword c hc)
        omega
    constructor
    · rw [Bool.eq_false_iff, ne_eq, isDigit_iff]
      omega
    · rintro rfl
      exact absurd hcode (by decide)
  have hhead : (gap ++ unit).head?.all (!isDigit ·) = true := by
    cases hrest : gap ++ unit with
    | nil => rfl
    | cons c rest => simp [(hchar c (by simp [hrest])).1]
  have hpoint : (gap ++ unit).head? ≠ some 46 := by
    intro hrest
    exact (hchar 46 (List.mem_of_mem_head? hrest)).2 rfl
  have hnumber :
      parseUint64 (lit ++ (gap ++ unit)) 0 0xffffffffffffffff true = ⟨UInt64.ofInt z, true, gap ++ unit⟩ := by
    rw [parseUint64_eq, strtoul_literal hlit hhead]
    rfl
  have hskip : eatWhitespace (gap ++ unit) = unit := by
    rw [eatWhitespace_append hgap]
    refine eatWhitespace_self fun c hc => ?_
    have hletter := isLetter_iff.mp (hword c (List.mem_of_mem_head? hc))
    constructor
    · rw [Bool.eq_false_iff, ne_eq, isBlank_iff]
      omega
    · rintro rfl
      exact absurd hletter (by decide)
  refine ⟨UInt64.ofInt z * m, ?_, ?_⟩
  · unfold parseUnits applyUnit
    rw [hnumber]
    dsimp only
    rw [if_neg (by simpa using hpoint), hskip, hm]
  · have hm' : m = UInt64.ofInt m.toNat := by
      rw [UInt64.ofInt, ← UInt64.toNat_inj]
      have hlt := m.toNat_lt
      rw [UInt64.toNat_ofNat']
      omega
    unfold wrap
    generalize hn : (m.toNat : Int) = n at hm' ⊢
    rw [hm', ← UInt64.ofInt_mul, UInt64.ofInt, UInt64.toNat_ofNat']
    omega

/-! ## §4 Which values are exact -/

/-- What is asked of a number that was read. -/
def Exact (r : UInt64 × Bool) (p : Int) : Prop := r.2 = true → (r.1.toNat : Int) = p

/-- What is asked of an interval that was read. -/
def ExactInterval (r : Int × Bool) (p : Int) : Prop := r.2 = true → r.1 = p ∧ p ≤ intMax

theorem exact_iff {D : Type u} (F : Doubles D) {s unit : Bytes} {z : Int} (h : Written s z unit)
    {table : UnitTable} {m : UInt64} (hm : multiplier table unit = some m) :
    Exact (parseUnits F s table) (z * m.toNat) ↔ Fits (z * m.toNat) := by
  obtain ⟨v, heq, hv⟩ := parseUnits_written F h hm
  rw [← wrap_eq_iff, Exact, heq, hv]
  simp

/-- An interval is exact if the product is, or if what is left of it modulo 2⁶⁴ is too long. -/
theorem exactInterval_iff {D : Type u} (F : Doubles D) {s unit : Bytes} {z : Int} (h : Written s z unit)
    {table : UnitTable} {m : UInt64} (hm : multiplier table unit = some m) :
    ExactInterval (intervalOf F s table) (z * m.toNat) ↔ FitsOrTooLong (z * m.toNat) := by
  obtain ⟨v, heq, hv⟩ := parseUnits_written F h hm
  rw [FitsOrTooLong, ← wrap_eq_iff, ExactInterval, intervalOf, heq]
  dsimp only
  rw [hv]
  by_cases hlong : wrap (z * m.toNat) > intMax
  · simp [hlong]
  · rw [if_neg hlong]
    simp only [true_implies]
    omega

/-- The table of an option type. -/
def optionTable : Configtype → Option UnitTable
  | .memunit => some memoryUnits
  | .interval => some timeUnits
  | .msecInterval => some timeMsecUnits
  | _ => none

/-- What is asked of an option that was assigned. -/
def ExactOption {D : Type u} (F : Doubles D) (fmt : Configformat) (options : Store D) (c : Configline)
    (var : Configvar) (p : Int) : Prop :=
  ∀ options', assignValue F fmt options c = some (0, options') →
    if var.type = .memunit then ∃ v, options' var.varOffset = .uint64 v ∧ (v.toNat : Int) = p
    else options' var.varOffset = .int p ∧ p ≤ intMax

theorem exactOption_memunit {D : Type u} (F : Doubles D) {fmt : Configformat} (options : Store D)
    {c : Configline} {var : Configvar} (hvar : findOption fmt c.key = some var)
    (htype : var.type = .memunit) (p : Int) :
    ExactOption F fmt options c var p ↔ Exact (parseUnits F c.value memoryUnits) p := by
  unfold ExactOption Exact assignValue parseMemunit
  rw [hvar]
  simp only [htype, if_true]
  by_cases hok : (parseUnits F c.value memoryUnits).2 = true
  · simp [hok]
  · simp [hok]

theorem assignInt_exact_iff {D : Type u} (options : Store D) (offset : Nat) (r : Int × Bool) (p : Int) :
    (∀ options', some (assignInt options offset r.1 r.2) = some (0, options') → options' offset = .int p ∧
      p ≤ intMax) ↔
      ExactInterval r p := by
  unfold ExactInterval assignInt
  by_cases hok : r.2 = true
  · simp [hok]
  · simp [hok]

theorem exactOption_interval {D : Type u} (F : Doubles D) {fmt : Configformat} (options : Store D)
    {c : Configline} {var : Configvar} (hvar : findOption fmt c.key = some var) {table : UnitTable}
    (htype : var.type = .interval ∧ table = timeUnits ∨ var.type = .msecInterval ∧ table = timeMsecUnits)
    (p : Int) :
    ExactOption F fmt options c var p ↔ ExactInterval (intervalOf F c.value table) p := by
  rw [← assignInt_exact_iff options var.varOffset]
  unfold ExactOption assignValue
  rw [hvar]
  rcases htype with ⟨htype, rfl⟩ | ⟨htype, rfl⟩
  · simp only [htype, reduceCtorEq, if_false]
    rfl
  · simp only [htype, reduceCtorEq, if_false]
    rfl

/-- **Which unit values are exact.** `parse_units`, `parse_memunit` and the options of that type are, if and
only if the product is a 64-bit number; the intervals and the options of these types also are where the test
against `INT_MAX` refuses what is left of it. -/
theorem unit_values_exact_iff {D : Type u} (F : Doubles D) {s unit : Bytes} {z : Int} (h : Written s z unit) :
    (∀ table m, multiplier table unit = some m →
      (Exact (parseUnits F s table) (z * m.toNat) ↔ Fits (z * m.toNat))) ∧
      (∀ m, multiplier memoryUnits unit = some m →
        (Exact (parseMemunit F s) (z * m.toNat) ↔ Fits (z * m.toNat))) ∧
      (∀ m, multiplier timeUnits unit = some m →
        (ExactInterval (parseInterval F s) (z * m.toNat) ↔ FitsOrTooLong (z * m.toNat))) ∧
      (∀ m, multiplier timeMsecUnits unit = some m →
        (ExactInterval (parseMsecInterval F s) (z * m.toNat) ↔ FitsOrTooLong (z * m.toNat))) ∧
      ∀ fmt options c var table m, findOption fmt c.key = some var → c.value = s →
      optionTable var.type = some table →
        multiplier table unit = some m → (ExactOption F fmt options c var (z * m.toNat) ↔
          if var.type = .memunit then Fits (z * m.toNat) else FitsOrTooLong (z * m.toNat)) := by
  refine ⟨fun table m hm => exact_iff F h hm, fun m hm => exact_iff F h hm, fun m hm =>
    exactInterval_iff F h hm, fun m hm => exactInterval_iff F h hm, ?_⟩
  intro fmt options c var table m hvar hvalue htable hm
  subst hvalue
  cases htype : var.type with
  | memunit =>
      rw [htype] at htable
      cases htable
      rw [exactOption_memunit F options hvar htype, exact_iff F h hm, if_pos rfl]
  | interval =>
      rw [htype] at htable
      cases htable
      rw [exactOption_interval F options hvar (Or.inl ⟨htype, rfl⟩), exactInterval_iff F h hm, if_neg (by simp)]
  | msecInterval =>
      rw [htype] at htable
      cases htable
      rw [exactOption_interval F options hvar (Or.inr ⟨htype, rfl⟩), exactInterval_iff F h hm, if_neg (by simp)]
  | _ =>
      rw [htype] at htable
      cases htable

/-- Doubles that nothing is known of. -/
def Sample.doubles : Doubles Unit :=
  ⟨(), fun s => ⟨(), s, false, false⟩, fun _ => false, fun _ _ => 0, fun _ => ()⟩

set_option maxRecDepth 2000 in
theorem written_five : Written (ascii ['5', ' ', 'k', 'b']) 5 (ascii ['k', 'b']) := by
  refine ⟨ascii ['5'], ascii [' '], rfl,
    ⟨[], [], ascii ['5'], rfl, ?_, ?_, ?_, ?_, Or.inr ⟨Or.inl rfl, ?_⟩⟩, ?_, ?_⟩ <;>
    decide

theorem five_kilobytes : Exact (parseMemunit Sample.doubles (ascii ['5', ' ', 'k', 'b']))
    (5 * (1024 : UInt64).toNat) :=
  ((unit_values_exact_iff Sample.doubles written_five).2.1 1024 (by decide)).mpr ⟨by decide, by decide⟩

set_option maxRecDepth 2000 in
/-- `-1` is read as 2⁶⁴ - 1. -/
theorem minus_one_read : ¬ ∀ (F : Doubles Unit) (s unit : Bytes) (z : Int) (table : UnitTable) (m : UInt64),
    Written s z unit → multiplier table unit = some m → Exact (parseUnits F s table) (z * m.toNat) := by
  intro h
  have hwritten : Written (ascii ['-', '1']) (-1) (ascii []) := by
    refine ⟨ascii ['-', '1'], [], rfl, ⟨[], [45], ascii ['1'], rfl, ?_, ?_, ?_, ?_, Or.inl ⟨rfl, ?_⟩⟩, ?_,
      ?_⟩ <;> decide
  have hexact :=
    h Sample.doubles (ascii ['-', '1']) (ascii []) (-1) memoryUnits 1 hwritten (by decide) (by decide)
  exact absurd hexact (by decide)

end SploneBox.Parse
