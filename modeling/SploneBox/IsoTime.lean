/-
# SploneBox.IsoTime — `parse_iso_time` against the Gregorian calendar.

`parse_iso_time` scans six numbers, checks their ranges, and `parse_timegm` counts the seconds. What it should
do is said with `SploneBox.Lib.Calendar`: the string denotes a time (`Denotes`), the time exists
(`IsoTime.Exists`), and its seconds are counted day by day. The count agrees for every year. The limit for the
days of February does not: it asks `IS_LEAPYEAR` for the years since 1900 and not for the year, so the leap
day of 2000 is refused and a 29th of February 2300 accepted (`iso_times_exact_iff`).
-/
import SploneBox.Scan
import SploneBox.Lib.Calendar
import Mathlib.Algebra.BigOperators.Ring.Finset
import Mathlib.Tactic.Linarith

namespace SploneBox

open Lib.Numerals Lib.Calendar

/-! ## §1 `parse_timegm` and `parse_iso_time` -/

/-- `IS_LEAPYEAR`. -/
def isLeapyear (y : Int) : Bool := y.tmod 4 == 0 && (y.tmod 100 != 0 || y.tmod 400 == 0)

/-- `n_leapdays`. -/
def nLeapdays (y1 y2 : Int) : Int :=
  let y1 := y1 - 1
  let y2 := y2 - 1
  (y2.tdiv 4 - y1.tdiv 4) - (y2.tdiv 100 - y1.tdiv 100) + (y2.tdiv 400 - y1.tdiv 400)

/-- `days_per_month`. -/
def daysPerMonth : List Int := [31, 28, 31, 30, 31, 30, 31, 31, 30, 31, 30, 31]

/-- `INT32_MAX`. -/
def int32Max : Int := 2147483647

/-- `struct tm`. -/
structure Tm where
  year : Int
  mon : Int
  mday : Int
  hour : Int
  min : Int
  sec : Int

/-- `parse_timegm`: what it returns, and `*time_out`. -/
def parseTimegm (tm : Tm) (timeOut : Int) : Int × Int :=
  let year := if tm.year < int32Max - 1900 then tm.year + 1900 else int32Max
  let invalidYear := year < 1970 ∨ tm.year ≥ int32Max - 1900
  let dpm :=
    if tm.mon ≥ 0 ∧ tm.mon ≤ 11 then
      if tm.mon = 1 ∧ ¬invalidYear ∧ isLeapyear tm.year then 29 else daysPerMonth.getD tm.mon.toNat 0
    else 0
  if invalidYear ∨ tm.mon < 0 ∨ tm.mon > 11 ∨ tm.mday < 1 ∨ tm.mday > dpm ∨ tm.hour < 0 ∨ tm.hour > 23 ∨
    tm.min < 0 ∨
      tm.min > 59 ∨ tm.sec < 0 ∨ tm.sec > 60 then (-1, timeOut)
  else
    let days := 365 * (year - 1970) + nLeapdays 1970 year
    let days := days + (daysPerMonth.take tm.mon.toNat).sum
    let days := if tm.mon > 1 ∧ isLeapyear year then days + 1 else days
    let days := days + (tm.mday - 1)
    let hours := days * 24 + tm.hour
    let minutes := hours * 60 + tm.min
    (0, minutes * 60 + tm.sec)

/-- `"%u-%2u-%2u %2u:%2u:%2u%c"`. -/
def isoPattern : Bytes :=
  ascii ['%', 'u', '-', '%', '2', 'u', '-', '%', '2', 'u', ' ', '%', '2', 'u', ':', '%', '2', 'u', ':', '%',
    '2', 'u', '%', 'c']

/-- `parse_iso_time` on the six numbers. -/
def checkIsoTime (year month day hour minute second : Nat) (t : Int) : Int × Int :=
  if year < 1970 ∨ month < 1 ∨ month > 12 ∨ day < 1 ∨ day > 31 ∨ hour > 23 ∨ minute > 59 ∨ second > 60 ∨
      (year : Int) ≥ int32Max then (-1, t)
  else
    let tm : Tm := ⟨year - 1900, month - 1, day, hour, minute, second⟩
    if tm.year < 70 then (-1, t) else parseTimegm tm t

/-- `parse_iso_time`: what it returns, and `*t`. -/
def parseIsoTime (cp : Bytes) (t : Int) : Int × Int :=
  match boxSscanf cp isoPattern with
  | (nFields, out) =>
      if nFields ≠ 6 then (-1, t)
      else
        match out with
        | [.unsigned year, .unsigned month, .unsigned day, .unsigned hour, .unsigned minute,
            .unsigned second] =>
            checkIsoTime year.toNat month.toNat day.toNat hour.toNat minute.toNat second.toNat t
        | _ => (-1, t)

/-! ## §2 What a string denotes -/

/-- A time of day on a date, in UTC. -/
structure IsoTime where
  year : Nat
  month : Nat
  day : Nat
  hour : Nat
  minute : Nat
  second : Nat

/-- A decimal numeral. -/
structure Numeral (ds : Bytes) (n : Nat) : Prop where
  nonempty : ds ≠ []
  digits : ∀ c ∈ ds, isDigit c = true
  value : numeral false ds = n

/-- A field of the format: at most two digits. -/
def Field (ds : Bytes) (n : Nat) : Prop := Numeral ds n ∧ ds.length ≤ 2

/-- The string is `YEAR-M-D h:m:s` with the numbers of `x`. -/
def Denotes (s : Bytes) (x : IsoTime) : Prop :=
  ∃ year month day hour minute second,
    s = year ++ 45 :: (month ++ 45 :: (day ++ 32 :: (hour ++ 58 :: (minute ++ 58 :: second)))) ∧
      Numeral year x.year ∧ Field month x.month ∧ Field day x.day ∧ Field hour x.hour ∧ Field minute x.minute ∧
      Field second x.second

namespace IsoTime

/-- The year and the time of day are in their ranges. -/
def InRange (x : IsoTime) : Prop :=
  1970 ≤ x.year ∧ x.year ≤ 2 ^ 31 - 2 ∧ x.hour ≤ 23 ∧ x.minute ≤ 59 ∧ x.second ≤ 60

/-- The time exists. -/
def Exists (x : IsoTime) : Prop := x.InRange ∧ Valid x.year x.month x.day

/-- The seconds from the first of January 1970. -/
def seconds (x : IsoTime) : Nat :=
  ((dayNumber 1970 x.year x.month x.day * 24 + x.hour) * 60 + x.minute) * 60 + x.second

/-- The leap days that are judged wrongly: of the years in which `IS_LEAPYEAR` differs for the year and the
years since 1900. -/
def WrongLeapDay (x : IsoTime) : Prop :=
  x.InRange ∧ x.month = 2 ∧ x.day = 29 ∧ (x.year % 400 = 0 ∨ x.year % 400 = 300)

end IsoTime

/-- What is asked of `parse_iso_time` on a string. -/
def ExactOn (s : Bytes) : Prop :=
  ∀ t, (∃ x, Denotes s x ∧ x.Exists ∧ parseIsoTime s t = (0, (x.seconds : Int))) ∨
    ((∀ x, Denotes s x → ¬ x.Exists) ∧ parseIsoTime s t = (-1, t))

/-- The times that are judged wrongly: the leap days above, and the ones whose year is written with more
digits than `MAX_SCANF_WIDTH`. -/
def Misjudged (s : Bytes) (x : IsoTime) : Prop :=
  if maxScanfWidth < (s.takeWhile isDigit).length then x.Exists else x.WrongLeapDay

/-! ## §3 The count of the seconds -/

theorem isLeapyear_iff (y : Nat) : isLeapyear y = true ↔ IsLeap y := by
  unfold isLeapyear IsLeap
  simp only [Bool.and_eq_true, Bool.or_eq_true, beq_iff_eq, bne_iff_ne, ne_eq]
  rw [Int.tmod_eq_emod_of_nonneg (by omega), Int.tmod_eq_emod_of_nonneg (by omega),
    Int.tmod_eq_emod_of_nonneg (by omega)]
  omega

/-- `n_leapdays` counts the leap days of the years in between. -/
theorem nLeapdays_eq {y : Nat} (h : 1970 ≤ y) :
    365 * ((y : Int) - 1970) + nLeapdays 1970 y = daysBeforeYear 1970 y := by
  have hsum : daysBeforeYear 1970 (1970 + (y - 1970)) + leapDays 1969 =
      365 * (y - 1970) + leapDays (1969 + (y - 1970)) := daysBeforeYear_eq 1969 (y - 1970)
  rw [Nat.add_sub_cancel' h, show 1969 + (y - 1970) = y - 1 by omega] at hsum
  have hdiv : ∀ k : Int, ((y : Int) - 1).tdiv k = ((y : Int) - 1) / k := fun k =>
    Int.tdiv_eq_ediv_of_nonneg (by omega)
  have h4 : Int.tdiv (1970 - 1) 4 = 492 := by decide
  have h100 : Int.tdiv (1970 - 1) 100 = 19 := by decide
  have h400 : Int.tdiv (1970 - 1) 400 = 4 := by decide
  unfold nLeapdays
  simp only [hdiv, h4, h100, h400]
  unfold leapDays at hsum
  omega

/-- The days of a month as `parse_timegm` limits them. -/
def daysAllowed (y m : Nat) : Nat :=
  if m = 2 ∧ isLeapyear ((y : Int) - 1900) then 29 else commonMonths.getD (m - 1) 0

/-- The dates `parse_timegm` accepts. -/
def Accepts (x : IsoTime) : Prop :=
  x.InRange ∧ 1 ≤ x.month ∧ x.month ≤ 12 ∧ 1 ≤ x.day ∧ x.day ≤ daysAllowed x.year x.month

instance (x : IsoTime) : Decidable x.InRange := inferInstanceAs (Decidable (_ ∧ _))

instance (x : IsoTime) : Decidable (Accepts x) := inferInstanceAs (Decidable (_ ∧ _))

theorem daysAllowed_le {y m : Nat} (hm : 1 ≤ m) (hm' : m ≤ 12) : daysAllowed y m ≤ 31 := by
  unfold daysAllowed
  split
  · decide
  · interval_cases m <;> decide

theorem daysPerMonth_getD (i : Nat) : daysPerMonth.getD i 0 = (commonMonths.getD i 0 : Nat) := by
  have hmap : daysPerMonth = commonMonths.map Nat.cast := rfl
  rw [hmap, List.getD_eq_getElem?_getD, List.getD_eq_getElem?_getD, List.getElem?_map]
  cases commonMonths[i]? <;> rfl

theorem daysPerMonth_sum (i : Nat) : (daysPerMonth.take i).sum = ((commonMonths.take i).sum : Nat) := by
  have hmap : daysPerMonth = commonMonths.map Nat.cast := rfl
  rw [hmap, ← List.map_take]
  exact (Nat.cast_list_sum _).symm

/-- The limit of the days, as it is computed. -/
theorem dpm_eq {y m : Nat} (hyear : 1970 ≤ y) (hyear' : y ≤ 2 ^ 31 - 2) (hmonth : 1 ≤ m) (hmonth' : m ≤ 12) :
    (if (m : Int) - 1 ≥ 0 ∧ (m : Int) - 1 ≤ 11 then
        if (m : Int) - 1 = 1 ∧ ¬ ((y : Int) < 1970 ∨ (y : Int) - 1900 ≥ int32Max - 1900) ∧
          isLeapyear ((y : Int) - 1900) = true then (29 : Int) else daysPerMonth.getD (m - 1) 0
      else 0) = daysAllowed y m := by
  have hvalid : ¬ ((y : Int) < 1970 ∨ (y : Int) - 1900 ≥ int32Max - 1900) := by unfold int32Max; omega
  have htwo : ((m : Int) - 1 = 1) ↔ m = 2 := by omega
  rw [if_pos (by omega), daysPerMonth_getD]
  simp only [htwo, hvalid, not_false_eq_true, true_and]
  unfold daysAllowed
  split <;> rfl

/-- `parse_timegm` counts the days one by one. -/
theorem checkIsoTime_accepted {x : IsoTime} (h : Accepts x) (t : Int) :
    checkIsoTime x.year x.month x.day x.hour x.minute x.second t = (0, (x.seconds : Int)) := by
  obtain ⟨⟨hyear, hyear', hhour, hminute, hsecond⟩, hmonth, hmonth', hday, hday'⟩ := h
  have hdays := daysAllowed_le (y := x.year) hmonth hmonth'
  have hless : (x.year : Int) - 1900 < int32Max - 1900 := by unfold int32Max; omega
  have hmon : ((x.month : Int) - 1).toNat = x.month - 1 := by omega
  have hadd : (x.year : Int) - 1900 + 1900 = x.year := by omega
  unfold checkIsoTime
  rw [if_neg (by unfold int32Max; omega)]
  dsimp only
  rw [if_neg (by omega)]
  unfold parseTimegm
  simp only [hless, if_true, hadd, hmon]
  rw [dpm_eq hyear hyear' hmonth hmonth', if_neg (by omega)]
  have hcount := nLeapdays_eq hyear
  have hmonths := daysBeforeMonth_eq x.year hmonth'
  unfold commonDaysBefore at hmonths
  have hleap : ((x.month : Int) - 1 > 1 ∧ isLeapyear x.year = true) ↔ (2 < x.month ∧ IsLeap x.year) := by
    rw [isLeapyear_iff]
    exact and_congr_left fun _ => by omega
  rw [daysPerMonth_sum]
  simp only [hleap]
  unfold IsoTime.seconds dayNumber
  rw [hmonths]
  by_cases hfeb : 2 < x.month ∧ IsLeap x.year
  · rw [if_pos hfeb, if_pos hfeb]
    congr 1
    push_cast
    omega
  · rw [if_neg hfeb, if_neg hfeb]
    congr 1
    push_cast
    omega

theorem checkIsoTime_refused {x : IsoTime} (h : ¬ Accepts x) (t : Int) :
    checkIsoTime x.year x.month x.day x.hour x.minute x.second t = (-1, t) := by
  unfold checkIsoTime
  by_cases hrange : x.year < 1970 ∨ x.month < 1 ∨ x.month > 12 ∨ x.day < 1 ∨ x.day > 31 ∨ x.hour > 23 ∨
      x.minute > 59 ∨ x.second > 60 ∨ (x.year : Int) ≥ int32Max
  · rw [if_pos hrange]
  · rw [if_neg hrange]
    unfold int32Max at hrange
    have hyear : 1970 ≤ x.year := by omega
    have hyear' : x.year ≤ 2 ^ 31 - 2 := by omega
    have hmonth : 1 ≤ x.month := by omega
    have hmonth' : x.month ≤ 12 := by omega
    have hless : (x.year : Int) - 1900 < int32Max - 1900 := by unfold int32Max; omega
    have hmon : ((x.month : Int) - 1).toNat = x.month - 1 := by omega
    have hadd : (x.year : Int) - 1900 + 1900 = x.year := by omega
    -- what is left to refuse is the day of the month
    have hday : daysAllowed x.year x.month < x.day := by
      by_contra hle
      exact h ⟨⟨hyear, hyear', by omega, by omega, by omega⟩, hmonth, hmonth', by omega, by omega⟩
    dsimp only
    rw [if_neg (by omega)]
    unfold parseTimegm
    simp only [hless, if_true, hadd, hmon]
    rw [dpm_eq hyear hyear' hmonth hmonth', if_pos (by omega)]

/-! ## §4 Scanning -/

/-- The conversion `%u` with a width. -/
def number (width : Int) (buf : Bytes) : Option (UInt64 × Bytes) :=
  (scanUnsigned false buf width).filter fun x => x.1 ≤ 0xffffffff

/-- A conversion and the character behind it. -/
def numberThen (width : Int) (c : UInt8) (buf : Bytes) : Option (UInt64 × Bytes) :=
  match number width buf with
  | some (u, d :: rest) => if d = c then some (u, rest) else none
  | _ => none

theorem scanUnsigned_nil (width : Int) : scanUnsigned false [] width = none := by
  rw [scanUnsigned_eq, run_nil, if_neg fun h => h.1 rfl]

/-- A conversion of the pattern: where it stops, no more conversions are counted. -/
theorem vsscanf_number {n : Nat} {pattern rest : Bytes} {width : Int}
    (hpattern : patternWidth pattern = some (width, 117 :: rest)) (buf : Bytes) (out : List Scanned) :
    vsscanf (n + 1) buf (37 :: pattern) out =
      match number width buf with
      | some (u, buf) => vsscanf n buf rest (out ++ [.unsigned u])
      | none => (out.length, out) := by
  rw [vsscanf, number, if_neg (by decide), hpattern]
  have hlong : ((117 :: rest : Bytes).head? = some 108) = False := by simp
  simp only [hlong, if_false, true_or, if_true, not_false_eq_true, true_and]
  have hdec : (decide ((117 : UInt8) = 120)) = false := by decide
  rw [hdec]
  by_cases hbuf : buf = []
  · rw [if_pos hbuf, hbuf, scanUnsigned_nil]
    rfl
  · rw [if_neg hbuf]
    cases scanUnsigned false buf width with
    | none => rfl
    | some x =>
        obtain ⟨u, buf'⟩ := x
        by_cases hu : u > 0xffffffff
        · have hno : ¬ u ≤ 0xffffffff := UInt64.not_le.mpr hu
          simp [hu, hno, Option.filter]
        · have hyes : u ≤ 0xffffffff := UInt64.not_lt.mp hu
          simp [hu, hyes, Option.filter]

theorem vsscanf_literal {n : Nat} {c : UInt8} (hc : c ≠ 37) (buf pattern : Bytes) (out : List Scanned) :
    vsscanf (n + 1) buf (c :: pattern) out =
      if buf.head? = some c then vsscanf n buf.tail pattern out else (out.length, out) := by
  rw [vsscanf, if_pos hc]

/-- A conversion and the character behind it, in the pattern. -/
theorem vsscanf_numberThen {n : Nat} {pattern rest : Bytes} {width : Int} {c : UInt8} (hc : c ≠ 37)
    (hpattern : patternWidth pattern = some (width, 117 :: c :: rest)) (buf : Bytes) (out : List Scanned) :
    (∃ u buf', numberThen width c buf = some (u, buf') ∧
        vsscanf (n + 2) buf (37 :: pattern) out = vsscanf n buf' rest (out ++ [.unsigned u])) ∨
      (numberThen width c buf = none ∧ (vsscanf (n + 2) buf (37 :: pattern) out).1 ≤ out.length + 1) := by
  rw [vsscanf_number hpattern]
  unfold numberThen
  cases number width buf with
  | none => exact Or.inr ⟨rfl, by simp⟩
  | some x =>
      obtain ⟨u, buf'⟩ := x
      dsimp only
      rw [vsscanf_literal hc]
      cases buf' with
      | nil => exact Or.inr ⟨rfl, by simp⟩
      | cons d buf' =>
          by_cases hd : d = c
          · subst hd
            exact Or.inl ⟨u, buf', by simp, by simp⟩
          · exact Or.inr ⟨by simp [hd], by simp [hd]⟩

/-- A numeral on its own, and its number. -/
theorem number_iff {width : Int} {buf rest : Bytes} {u : UInt64} (hrest : rest.head?.all (!isDigit ·) = true) :
    number width buf = some (u, rest) ↔
      ∃ ds, buf = ds ++ rest ∧ ds ≠ [] ∧ (∀ c ∈ ds, isDigit c = true) ∧ ds.length ≤ widthOf width ∧
        numeral false ds ≤ 0xffffffff ∧ u.toNat = numeral false ds := by
  have hdigit : digitOf false = isDigit := rfl
  have hmax : ∀ n : Nat, n < 2 ^ 64 → (UInt64.ofNat n ≤ 0xffffffff ↔ n ≤ 0xffffffff) := by
    intro n hn
    rw [UInt64.le_iff_toNat_le, UInt64.toNat_ofNat_of_lt' hn]
    rfl
  unfold number
  rw [scanUnsigned_eq, hdigit]
  constructor
  · intro h
    have hrun := run_append_drop isDigit (widthOf width) buf
    have hall := run_all isDigit (widthOf width) buf
    have hlen := run_length_le isDigit (widthOf width) buf
    generalize run isDigit (widthOf width) buf = ds at *
    by_cases hds : ds ≠ [] ∧ numeral false ds < 2 ^ 64
    · rw [if_pos hds] at h
      by_cases hle : UInt64.ofNat (numeral false ds) ≤ 0xffffffff
      · rw [Option.filter_some, if_pos (by simpa using hle)] at h
        cases h
        exact ⟨ds, hrun.symm, hds.1, hall, hlen, (hmax _ hds.2).mp hle, UInt64.toNat_ofNat_of_lt' hds.2⟩
      · rw [Option.filter_some, if_neg (by simpa using hle)] at h
        cases h
    · rw [if_neg hds] at h
      cases h
  · rintro ⟨ds, rfl, hne, hall, hlen, hle, hu⟩
    have hrun : run isDigit (widthOf width) (ds ++ rest) = ds := by
      cases rest with
      | nil =>
          rw [List.append_nil]
          exact run_self hall hlen
      | cons c rest => exact run_append hall hlen (by simpa using hrest) rest
    have hlt : numeral false ds < 2 ^ 64 := by omega
    have hsmall : UInt64.ofNat (numeral false ds) ≤ 0xffffffff := (hmax _ hlt).mpr hle
    rw [hrun, if_pos ⟨hne, hlt⟩, Option.filter_some, if_pos (by simpa using hsmall), List.drop_left]
    have hofNat : UInt64.ofNat (numeral false ds) = u := by
      rw [← hu]
      exact UInt64.ofNat_toNat
    rw [hofNat]

theorem numberThen_iff {width : Int} {c : UInt8} (hc : isDigit c = false) {buf rest : Bytes} {u : UInt64} :
    numberThen width c buf = some (u, rest) ↔
      ∃ ds, buf = ds ++ c :: rest ∧ ds ≠ [] ∧ (∀ d ∈ ds, isDigit d = true) ∧ ds.length ≤ widthOf width ∧
        numeral false ds ≤ 0xffffffff ∧ u.toNat = numeral false ds := by
  have hhead : (c :: rest).head?.all (!isDigit ·) = true := by simp [hc]
  rw [← number_iff hhead]
  unfold numberThen
  cases number width buf with
  | none => simp
  | some x =>
      obtain ⟨u', buf'⟩ := x
      cases buf' with
      | nil => simp
      | cons d buf' =>
          by_cases hd : d = c
          · simp [hd]
          · simp [hd]

/-- The `%c` at the end of the pattern. -/
theorem vsscanf_char {n : Nat} (buf : Bytes) (out : List Scanned) :
    vsscanf (n + 1) buf [37, 99] out =
      match buf with
      | [] => (out.length, out)
      | c :: _ => (out.length + 1, out ++ [.char c]) := by
  have hchar : patternWidth [99] = some (-1, [99]) := rfl
  rw [vsscanf, if_neg (by decide), hchar]
  cases buf with
  | nil => simp
  | cons c buf => cases n <;> simp [vsscanf]

/-- The six numbers of the format, with the characters between them. -/
def isoFields (s : Bytes) : Option (UInt64 × UInt64 × UInt64 × UInt64 × UInt64 × UInt64) := do
  let (year, s) ← numberThen (-1) 45 s
  let (month, s) ← numberThen 2 45 s
  let (day, s) ← numberThen 2 32 s
  let (hour, s) ← numberThen 2 58 s
  let (minute, s) ← numberThen 2 58 s
  let (second, s) ← number 2 s
  if s = [] then some (year, month, day, hour, minute, second) else none

/-- What `box_sscanf` makes of the pattern: the fields of the format, or less or more than six conversions. -/
theorem boxSscanf_iso (s : Bytes) :
    match isoFields s with
    | some (year, month, day, hour, minute, second) => boxSscanf s isoPattern =
        (6, [.unsigned year, .unsigned month, .unsigned day, .unsigned hour, .unsigned minute,
          .unsigned second])
    | none => (boxSscanf s isoPattern).1 ≠ 6 := by
  have hpattern : isoPattern = [37, 117, 45, 37, 50, 117, 45, 37, 50, 117, 32, 37, 50, 117, 58, 37, 50, 117, 58,
      37, 50, 117,
    37, 99] := rfl
  have hany : ∀ rest, patternWidth (117 :: rest) = some (-1, 117 :: rest) := fun _ => rfl
  have htwo : ∀ rest, patternWidth (50 :: 117 :: rest) = some (2, 117 :: rest) := fun _ => rfl
  have hlen : isoPattern.length = 24 := rfl
  unfold boxSscanf isoFields
  rw [hlen, hpattern]
  rcases vsscanf_numberThen (n := 22) (c := 45) (by decide) (hany _) s _ with ⟨year, s₁, h₁, hrun₁⟩ |
    ⟨hstop, hle⟩
  swap
  · simp only [hstop]
    intro h
    rw [h] at hle
    simp at hle
  rw [hrun₁]
  simp only [h₁, Option.bind_eq_bind, Option.bind_some]
  rcases vsscanf_numberThen (n := 20) (c := 45) (by decide) (htwo _) s₁ _ with ⟨month, s₂, h₂, hrun₂⟩ |
    ⟨hstop, hle⟩
  swap
  · simp only [hstop]
    intro h
    rw [h] at hle
    simp at hle
  rw [hrun₂]
  simp only [h₂, Option.bind_some]
  rcases vsscanf_numberThen (n := 18) (c := 32) (by decide) (htwo _) s₂ _ with ⟨day, s₃, h₃, hrun₃⟩ |
    ⟨hstop, hle⟩
  swap
  · simp only [hstop]
    intro h
    rw [h] at hle
    simp at hle
  rw [hrun₃]
  simp only [h₃, Option.bind_some]
  rcases vsscanf_numberThen (n := 16) (c := 58) (by decide) (htwo _) s₃ _ with ⟨hour, s₄, h₄, hrun₄⟩ |
    ⟨hstop, hle⟩
  swap
  · simp only [hstop]
    intro h
    rw [h] at hle
    simp at hle
  rw [hrun₄]
  simp only [h₄, Option.bind_some]
  rcases vsscanf_numberThen (n := 14) (c := 58) (by decide) (htwo _) s₄ _ with ⟨minute, s₅, h₅, hrun₅⟩ |
    ⟨hstop, hle⟩
  swap
  · simp only [hstop]
    intro h
    rw [h] at hle
    simp at hle
  rw [hrun₅]
  simp only [h₅, Option.bind_some]
  rw [vsscanf_number (htwo _)]
  cases h₆ : number 2 s₅ with
  | none => simp
  | some x =>
      obtain ⟨second, s₆⟩ := x
      have hchar :=
        vsscanf_char (n := 12) s₆
          ([.unsigned year, .unsigned month, .unsigned day, .unsigned hour, .unsigned minute, .unsigned second])
      cases s₆ with
      | nil => simpa using hchar
      | cons c s₆ => simp [hchar]

theorem parseIsoTime_eq (s : Bytes) (t : Int) :
    parseIsoTime s t =
      match isoFields s with
      | some (year, month, day, hour, minute, second) =>
          checkIsoTime year.toNat month.toNat day.toNat hour.toNat minute.toNat second.toNat t
      | none => (-1, t) := by
  have hscan := boxSscanf_iso s
  unfold parseIsoTime
  cases hfields : isoFields s with
  | none =>
      rw [hfields] at hscan
      generalize boxSscanf s isoPattern = x at hscan
      obtain ⟨n, out⟩ := x
      exact if_pos hscan
  | some fields =>
      obtain ⟨year, month, day, hour, minute, second⟩ := fields
      rw [hfields] at hscan
      rw [hscan]
      rfl

/-- The digits of the year end at the first minus. -/
theorem year_digits {year rest : Bytes} (h : ∀ c ∈ year, isDigit c = true) :
    (year ++ 45 :: rest).takeWhile isDigit = year := by
  rw [List.takeWhile_append_of_pos h]
  simp [show isDigit 45 = false from rfl]

theorem Field.le {ds : Bytes} {n : Nat} (h : Field ds n) : n ≤ 99 := by
  obtain ⟨⟨-, hdigits, rfl⟩, hlen⟩ := h
  have hlt : numeral false ds < (0 + 1) * 10 ^ ds.length :=
    valueFrom_lt (fun c hc => (digitToNum_lt (hdigits c hc) : digitToNum c < baseOf false)) 0
  have hpow : 10 ^ ds.length ≤ 10 ^ 2 := Nat.pow_le_pow_right (by decide) hlen
  omega

/-- The year and the minus behind it. -/
theorem yearThen_iff {buf rest : Bytes} {u : UInt64} :
    numberThen (-1) 45 buf = some (u, rest) ↔
      ∃ ds, buf = ds ++ 45 :: rest ∧ Numeral ds u.toNat ∧ ds.length ≤ maxScanfWidth ∧ u.toNat ≤ 0xffffffff := by
  rw [numberThen_iff (by decide)]
  constructor
  · rintro ⟨ds, hbuf, hne, hdigits, hlen, hle, hu⟩
    exact ⟨ds, hbuf, ⟨hne, hdigits, hu.symm⟩, hlen, hu ▸ hle⟩
  · rintro ⟨ds, hbuf, ⟨hne, hdigits, hu⟩, hlen, hle⟩
    exact ⟨ds, hbuf, hne, hdigits, hlen, hu ▸ hle, hu.symm⟩

/-- A field and the character behind it. -/
theorem fieldThen_iff {c : UInt8} (hc : isDigit c = false) {buf rest : Bytes} {u : UInt64} :
    numberThen 2 c buf = some (u, rest) ↔ ∃ ds, buf = ds ++ c :: rest ∧ Field ds u.toNat := by
  rw [numberThen_iff hc]
  constructor
  · rintro ⟨ds, hbuf, hne, hdigits, hlen, -, hu⟩
    exact ⟨ds, hbuf, ⟨hne, hdigits, hu.symm⟩, hlen⟩
  · rintro ⟨ds, hbuf, hfield⟩
    have hle := hfield.le
    obtain ⟨⟨hne, hdigits, hu⟩, hlen⟩ := hfield
    exact ⟨ds, hbuf, hne, hdigits, hlen, by omega, hu.symm⟩

/-- The field at the end of the string. -/
theorem field_iff {buf : Bytes} {u : UInt64} : number 2 buf = some (u, []) ↔ Field buf u.toNat := by
  rw [number_iff (by simp)]
  constructor
  · rintro ⟨ds, hbuf, hne, hdigits, hlen, -, hu⟩
    rw [List.append_nil] at hbuf
    subst hbuf
    exact ⟨⟨hne, hdigits, hu.symm⟩, hlen⟩
  · intro hfield
    have hle := hfield.le
    obtain ⟨⟨hne, hdigits, hu⟩, hlen⟩ := hfield
    exact ⟨buf, (List.append_nil buf).symm, hne, hdigits, hlen, by omega, hu.symm⟩

theorem isoFields_eq_some {s : Bytes} {year month day hour minute second : UInt64} :
    isoFields s = some (year, month, day, hour, minute, second) ↔
      ∃ s₁ s₂ s₃ s₄ s₅, numberThen (-1) 45 s = some (year, s₁) ∧ numberThen 2 45 s₁ = some (month, s₂) ∧
        numberThen 2 32 s₂ = some (day, s₃) ∧ numberThen 2 58 s₃ = some (hour, s₄) ∧
        numberThen 2 58 s₄ = some (minute, s₅) ∧ number 2 s₅ = some (second, []) := by
  unfold isoFields
  simp only [Option.bind_eq_bind, Option.bind_eq_some_iff, Prod.exists]
  constructor
  · rintro ⟨_, s₁, h₁, _, s₂, h₂, _, s₃, h₃, _, s₄, h₄, _, s₅, h₅, _, s₆, h₆, h⟩
    split at h
    · next hend =>
        cases h
        exact ⟨s₁, s₂, s₃, s₄, s₅, h₁, h₂, h₃, h₄, h₅, hend ▸ h₆⟩
    · cases h
  · rintro ⟨s₁, s₂, s₃, s₄, s₅, h₁, h₂, h₃, h₄, h₅, h₆⟩
    exact ⟨_, s₁, h₁, _, s₂, h₂, _, s₃, h₃, _, s₄, h₄, _, s₅, h₅, _, [], h₆, if_pos rfl⟩

/-- The fields are what the string denotes, as long as the year fits. -/
theorem isoFields_iff (s : Bytes) (year month day hour minute second : UInt64) :
    isoFields s = some (year, month, day, hour, minute, second) ↔
      Denotes s ⟨year.toNat, month.toNat, day.toNat, hour.toNat, minute.toNat, second.toNat⟩ ∧
        (s.takeWhile isDigit).length ≤ maxScanfWidth ∧ year.toNat ≤ 0xffffffff := by
  have hminus : isDigit 45 = false := rfl
  have hblank : isDigit 32 = false := rfl
  have hcolon : isDigit 58 = false := rfl
  rw [isoFields_eq_some]
  simp only [yearThen_iff, fieldThen_iff hminus, fieldThen_iff hblank, fieldThen_iff hcolon, field_iff]
  constructor
  · rintro ⟨s₁, s₂, s₃, s₄, s₅, ⟨ys, rfl, hy, hlen, hle⟩, ⟨ms, rfl, hm⟩, ⟨ds, rfl, hd⟩, ⟨hs, rfl, hh⟩,
      ⟨is, rfl, hi⟩, hs'⟩
    rw [year_digits hy.digits]
    exact ⟨⟨ys, ms, ds, hs, is, s₅, rfl, hy, hm, hd, hh, hi, hs'⟩, hlen, hle⟩
  · rintro ⟨⟨ys, ms, ds, hs, is, ss, rfl, hy, hm, hd, hh, hi, hs'⟩, hlen, hle⟩
    rw [year_digits hy.digits] at hlen
    exact ⟨_, _, _, _, ss, ⟨ys, rfl, hy, hlen, hle⟩, ⟨ms, rfl, hm⟩, ⟨ds, rfl, hd⟩, ⟨hs, rfl, hh⟩,
      ⟨is, rfl, hi⟩, hs'⟩

/-! ## §5 Which times are judged rightly -/

/-- The time of six fields. -/
def IsoTime.ofFields : UInt64 × UInt64 × UInt64 × UInt64 × UInt64 × UInt64 → IsoTime
  | (year, month, day, hour, minute, second) =>
      ⟨year.toNat, month.toNat, day.toNat, hour.toNat, minute.toNat, second.toNat⟩

theorem denotes_of_isoFields {s : Bytes} {f} (h : isoFields s = some f) :
    Denotes s (.ofFields f) ∧ (s.takeWhile isDigit).length ≤ maxScanfWidth := by
  obtain ⟨year, month, day, hour, minute, second⟩ := f
  have hiff := (isoFields_iff s year month day hour minute second).mp h
  exact ⟨hiff.1, hiff.2.1⟩

/-- A time whose year fits is the one of the fields. -/
theorem isoFields_of_denotes {s : Bytes} {x : IsoTime} (h : Denotes s x)
    (hlen : (s.takeWhile isDigit).length ≤ maxScanfWidth) (hrange : x.InRange) :
    ∃ f, isoFields s = some f ∧ x = .ofFields f := by
  have hyear : x.year ≤ 0xffffffff := hrange.2.1.trans (by decide)
  obtain ⟨ys, ms, ds, hs, is, ss, heq, hy, hm, hd, hh, hi, hs'⟩ := h
  have hnat : ∀ n : Nat, n ≤ 0xffffffff → (UInt64.ofNat n).toNat = n := fun n hn =>
    UInt64.toNat_ofNat_of_lt' (show n < 2 ^ 64 by omega)
  have hsmall : ∀ n : Nat, n ≤ 99 → (UInt64.ofNat n).toNat = n := fun n hn => hnat n (by omega)
  have htime :
      x = .ofFields (UInt64.ofNat x.year, UInt64.ofNat x.month, UInt64.ofNat x.day, UInt64.ofNat x.hour,
        UInt64.ofNat x.minute, UInt64.ofNat x.second) := by
    unfold IsoTime.ofFields
    dsimp only
    rw [hnat _ hyear, hsmall _ hm.le, hsmall _ hd.le, hsmall _ hh.le, hsmall _ hi.le, hsmall _ hs'.le]
  refine ⟨_, ?_, htime⟩
  rw [isoFields_iff, hnat _ hyear, hsmall _ hm.le, hsmall _ hd.le, hsmall _ hh.le, hsmall _ hi.le,
    hsmall _ hs'.le]
  exact ⟨⟨ys, ms, ds, hs, is, ss, heq, hy, hm, hd, hh, hi, hs'⟩, hlen, hyear⟩

/-- What is returned when the string has the format and the year fits. -/
theorem parseIsoTime_some {s : Bytes} {f} (h : isoFields s = some f) (t : Int) :
    parseIsoTime s t = if Accepts (.ofFields f) then (0, ((IsoTime.ofFields f).seconds : Int))
      else (-1, t) := by
  obtain ⟨year, month, day, hour, minute, second⟩ := f
  rw [parseIsoTime_eq, h]
  dsimp only
  by_cases haccepts : Accepts (.ofFields (year, month, day, hour, minute, second))
  · rw [if_pos haccepts]
    exact checkIsoTime_accepted haccepts t
  · rw [if_neg haccepts]
    exact checkIsoTime_refused haccepts t

theorem parseIsoTime_none {s : Bytes} (h : isoFields s = none) (t : Int) : parseIsoTime s t = (-1, t) := by
  rw [parseIsoTime_eq, h]

theorem isLeapyear_since {y : Nat} (h : 1970 ≤ y) :
    isLeapyear ((y : Int) - 1900) = true ↔ y % 4 = 0 ∧ (y % 100 ≠ 0 ∨ y % 400 = 300) := by
  have hcast : ((y : Int) - 1900) = ((y - 1900 : Nat) : Int) := by omega
  rw [hcast, isLeapyear_iff]
  unfold IsLeap
  omega

/-- The dates that are accepted are the ones that exist, but for the wrong leap days. -/
theorem accepts_iff_exists {x : IsoTime} (h : ¬ x.WrongLeapDay) : Accepts x ↔ x.Exists := by
  have hdays : x.InRange → 1 ≤ x.month → x.month ≤ 12 →
      (x.day ≤ daysAllowed x.year x.month ↔ x.day ≤ daysInMonth x.year x.month) := by
    intro hrange hmonth hmonth'
    unfold daysAllowed daysInMonth
    simp only [isLeapyear_since hrange.1]
    by_cases hfeb : x.month = 2
    · -- the limits are 28 and 29, which only the wrong leap days tell apart
      have hday : x.day = 29 → ¬ (x.year % 400 = 0 ∨ x.year % 400 = 300) :=
        fun hd hy => h ⟨hrange, hfeb, hd, hy⟩
      rw [hfeb]
      have htwo : commonMonths.getD (2 - 1) 0 = 28 := rfl
      unfold IsLeap
      rw [htwo]
      split <;> split <;> omega
    · simp only [hfeb, false_and, if_false]
  constructor
  · rintro ⟨hrange, hmonth, hmonth', hday, hle⟩
    exact ⟨hrange, hmonth, hmonth', hday, (hdays hrange hmonth hmonth').mp hle⟩
  · rintro ⟨hrange, hmonth, hmonth', hday, hle⟩
    exact ⟨hrange, hmonth, hmonth', hday, (hdays hrange hmonth hmonth').mpr hle⟩

/-- On a wrong leap day the two differ. -/
theorem accepts_iff_not_exists {x : IsoTime} (h : x.WrongLeapDay) : Accepts x ↔ ¬ x.Exists := by
  obtain ⟨hrange, hmonth, hday, hyear⟩ := h
  have hallowed : daysAllowed x.year 2 = if x.year % 400 = 300 then 29 else 28 := by
    have htwo : commonMonths.getD (2 - 1) 0 = 28 := rfl
    unfold daysAllowed
    simp only [isLeapyear_since hrange.1, htwo, true_and]
    split <;> split <;> omega
  have hdays : daysInMonth x.year 2 = if x.year % 400 = 0 then 29 else 28 := by
    have htwo : commonMonths.getD (2 - 1) 0 = 28 := rfl
    unfold daysInMonth IsLeap
    rw [htwo]
    split <;> split <;> omega
  have haccepts : Accepts x ↔ x.year % 400 = 300 := by
    unfold Accepts
    rw [hmonth, hday, hallowed]
    constructor
    · rintro ⟨-, -, -, -, hle⟩
      by_contra hno
      rw [if_neg hno] at hle
      omega
    · intro hy
      exact ⟨hrange, by omega, by omega, by omega, by rw [if_pos hy]⟩
  have hexists : x.Exists ↔ x.year % 400 = 0 := by
    constructor
    · rintro ⟨-, -, -, -, hle⟩
      rw [hmonth, hday, hdays] at hle
      by_contra hno
      rw [if_neg hno] at hle
      omega
    · intro hy
      exact ⟨hrange, by omega, by omega, by omega, by rw [hmonth, hday, hdays, if_pos hy]⟩
  rw [haccepts, hexists]
  omega

/-- **`parse_iso_time` judges a string rightly** unless it denotes one of the leap days above, or a time whose
year has more than `MAX_SCANF_WIDTH` digits. -/
theorem iso_times_exact_iff (s : Bytes) : ExactOn s ↔ ∀ x, Denotes s x → ¬ Misjudged s x := by
  by_cases hlen : maxScanfWidth < (s.takeWhile isDigit).length
  · -- the digits that are left over stand where the minus should be
    have hnone : isoFields s = none := by
      rw [Option.eq_none_iff_forall_ne_some]
      intro f hf
      exact absurd (denotes_of_isoFields hf).2 (Nat.not_le.mpr hlen)
    have hmis : ∀ x, Misjudged s x ↔ x.Exists := fun x => by rw [Misjudged, if_pos hlen]
    unfold ExactOn
    simp only [hmis]
    constructor
    · intro h
      rcases h 0 with ⟨_, _, _, hzero⟩ | ⟨hno, -⟩
      · rw [parseIsoTime_none hnone] at hzero
        cases hzero
      · exact hno
    · exact fun h t => Or.inr ⟨h, parseIsoTime_none hnone t⟩
  · have hlen' := Nat.not_lt.mp hlen
    have hmis : ∀ x, Misjudged s x ↔ x.WrongLeapDay := fun x => by rw [Misjudged, if_neg hlen]
    simp only [hmis]
    cases hfields : isoFields s with
    | none =>
        have hno : ∀ x, Denotes s x → ¬ x.InRange := by
          intro x hx hrange
          obtain ⟨f, hf, -⟩ := isoFields_of_denotes hx hlen' hrange
          rw [hfields] at hf
          cases hf
        apply iff_of_true
        · exact fun t => Or.inr ⟨fun x hx hexists => hno x hx hexists.1, parseIsoTime_none hfields t⟩
        · exact fun x hx hwrong => hno x hx hwrong.1
    | some f =>
        have hdenotes := (denotes_of_isoFields hfields).1
        have hunique : ∀ x, Denotes s x → x.InRange → x = .ofFields f := by
          intro x hx hrange
          obtain ⟨g, hg, rfl⟩ := isoFields_of_denotes hx hlen' hrange
          rw [hfields] at hg
          cases hg
          rfl
        have hresult := parseIsoTime_some hfields
        generalize IsoTime.ofFields f = x at hdenotes hunique hresult
        have hexists : (∃ y, Denotes s y ∧ y.Exists) ↔ x.Exists := by
          constructor
          · rintro ⟨y, hy, hyes⟩
            exact hunique y hy hyes.1 ▸ hyes
          · exact fun hyes => ⟨x, hdenotes, hyes⟩
        constructor
        · intro h y hy hwrong
          obtain rfl := hunique y hy hwrong.1
          have hiff := accepts_iff_not_exists hwrong
          rcases h 0 with ⟨z, hz, hyes, hzero⟩ | ⟨hno, hminus⟩
          · have haccepts : Accepts y := by
              by_contra hrefused
              rw [hresult, if_neg hrefused] at hzero
              cases hzero
            exact hiff.mp haccepts (hexists.mp ⟨z, hz, hyes⟩)
          · have hrefused : ¬ Accepts y := by
              intro haccepts
              rw [hresult, if_pos haccepts] at hminus
              cases hminus
            exact hrefused (hiff.mpr (hno y hy))
        · intro h t
          have hiff := accepts_iff_exists (h x hdenotes)
          by_cases haccepts : Accepts x
          · exact Or.inl ⟨x, hdenotes, hiff.mp haccepts, by rw [hresult, if_pos haccepts]⟩
          · refine Or.inr ⟨fun y hy hyes => ?_, by rw [hresult, if_neg haccepts]⟩
            exact haccepts (hiff.mpr (hexists.mp ⟨y, hy, hyes⟩))

set_option maxRecDepth 2000 in
/-- `2000-02-29 00:00:00`, which exists and is refused. -/
theorem leap_day_of_2000_refused :
    ¬ ∀ s, ExactOn s := by
  intro h
  have hrefused :
      parseIsoTime (ascii ['2', '0', '0', '0', '-', '0', '2', '-', '2', '9', ' ', '0', '0', ':', '0', '0', ':',
        '0', '0']) 7 =
      (-1, 7) := by decide +kernel
  rcases h (ascii ['2', '0', '0', '0', '-', '0', '2', '-', '2', '9', ' ', '0', '0', ':', '0', '0', ':', '0',
    '0']) 7 with
    ⟨_, _, _, hzero⟩ | ⟨hno, -⟩
  · rw [hrefused] at hzero
    cases hzero
  · refine hno ⟨2000, 2, 29, 0, 0, 0⟩ ⟨ascii ['2', '0', '0', '0'], ascii ['0', '2'], ascii ['2', '9'],
      ascii ['0', '0'], ascii ['0', '0'], ascii ['0', '0'], rfl, ⟨?_, ?_, ?_⟩, ⟨⟨?_, ?_, ?_⟩, ?_⟩,
      ⟨⟨?_, ?_, ?_⟩, ?_⟩, ⟨⟨?_, ?_, ?_⟩, ?_⟩, ⟨⟨?_, ?_, ?_⟩, ?_⟩, ⟨⟨?_, ?_, ?_⟩, ?_⟩⟩
      ⟨by decide, by decide, by decide, by decide, by decide⟩ <;> decide

end SploneBox
