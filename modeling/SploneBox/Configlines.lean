/-
# SploneBox.Configlines — the line parser of `confparse.c`.

`confparse_get_lines` calls `confparse_line_from_str_verbose` until the text is used up. A pointer is the rest
of the text it points at; a read behind the NUL, and a loop that does not end, are `none`
(`SploneBox.Lib.Cursor`). Characters are numbers: 9 is the tab, 10 the newline, 34 `"`, 35 `#`, 43 `+`, 47 `/`
and 92 the backslash. Memory does not run out.
-/
import SploneBox.Confparse
import SploneBox.Lib.Cursor

namespace SploneBox.Confparse

open Lib.Cursor Lib.Numerals

/-! ## §1 `unescape_string` -/

/-- `ISODIGIT`. -/
def isODigit (c : UInt8) : Bool := 48 ≤ c && c ≤ 55

/-- `if (ISODIGIT(*cp)) ++cp;` -/
def eatODigit (cp : Bytes) : Option Bytes := do
  if isODigit (← peek 0 cp 0) then advance cp 1 else return cp

/-- The characters that stand for one character behind a backslash: `nrt"\'`. -/
def isNamed (c : UInt8) : Bool := c == 110 || c == 114 || c == 116 || c == 34 || c == 92 || c == 39

/-- A turn of the loop that looks for the closing quote; it is done with `NULL` or at the quote. -/
def unescapeScan (cp : Bytes) : Option (Bytes ⊕ Option Bytes) := do
  let c ← peek 0 cp 0
  if c = 0 ∨ c = 10 then return .inr none
  else if c = 34 then return .inr (some cp)
  else if c = 92 then
    let d ← peek 0 cp 1
    if d = 120 ∨ d = 88 then
      if isXDigit (← peek 0 cp 2) then
        if isXDigit (← peek 0 cp 3) then return .inl (← advance cp 4) else return .inr none
      else return .inr none
    else if isODigit d then return .inl (← eatODigit (← eatODigit (← advance cp 2)))
    else if isNamed d then return .inl (← advance cp 2)
    else return .inr none
  else return .inl (← advance cp 1)

/-- What a named escape stands for. -/
def named (c : UInt8) : UInt8 := if c = 110 then 10 else if c = 114 then 13 else if c = 116 then 9 else c

/-- `if (ISODIGIT(*cp)) { n = n*8 + *cp-'0'; cp++; }` -/
def readODigit (cp : Bytes) (n : Nat) : Option (Bytes × Nat) := do
  let c ← peek 0 cp 0
  if isODigit c then return (← advance cp 1, n * 8 + c.toNat - 48) else return (cp, n)

/-- A turn of the loop that decodes; it is done with `NULL` or with `cp+1` and the string. -/
def unescapeDecode : Bytes × Bytes → Option ((Bytes × Bytes) ⊕ Option (Bytes × Bytes))
  | (cp, out) => do
      let c ← peek 0 cp 0
      if c = 34 then return .inr (some (← advance cp 1, out))
      else if c = 0 then return .inr none
      else if c = 92 then
        let d ← peek 0 cp 1
        if d = 110 ∨ d = 114 ∨ d = 116 then return .inl (← advance cp 2, out ++ [named d])
        else if d = 120 ∨ d = 88 then
          let e ← peek 0 cp 2
          let f ← peek 0 cp 3
          if !isXDigit e || !isXDigit f then return .inr none
          else return .inl (← advance cp 4, out ++ [UInt8.ofNat (16 * digitToNum e + digitToNum f)])
        else if isODigit d then
          let (cp, n) ← readODigit (← advance cp 2) (d.toNat - 48)
          let (cp, n) ← readODigit cp n
          if n > 255 then return .inr none else return .inl (cp, out ++ [UInt8.ofNat n])
        else if d = 39 ∨ d = 34 ∨ d = 92 ∨ d = 63 then return .inl (← advance cp 2, out ++ [d])
        else return .inr none
      else return .inl (← advance cp 1, out ++ [c])

/-- `unescape_string`: `NULL`, or where the string ends and the string. -/
def unescapeString (s : Bytes) : Option (Option (Bytes × Bytes)) := do
  if (← peek 0 s 0) ≠ 34 then return none
  else
    let cp ← advance s 1
    match ← loop unescapeScan (cp.length + 1) cp with
    | none => return none
    | some _ => loop unescapeDecode (cp.length + 1) (cp, [])

/-! ## §2 `confparse_line_from_str_verbose` -/

/-- `*err_out`. -/
inductive ParseErr where
  | invalidEscape | excessData
deriving DecidableEq

/-- The text of an error. -/
def ParseErr.text : ParseErr → String
  | .invalidEscape => "Invalid escape sequence in quoted string"
  | .excessData => "Excess data after quoted string"

/-- What `confparse_line_from_str_verbose` returns, and what it leaves in `*key_out`, `*value_out` and
`*err_out`; `none` is `NULL`, or nothing for `*err_out`. -/
structure LineFromStr where
  line : Option Bytes
  key : Option Bytes
  value : Option Bytes
  err : Option ParseErr

/-- A space or a tab. -/
def isTab (c : UInt8) : Bool := c == 32 || c == 9

/-- `while (*line && *line != '\n') ++line;` -/
def skipLine (line : Bytes) : Option Bytes := skip 0 (fun c => c != 0 && c != 10) line

/-- `line[0] == '\\' && line[1] == '\n'`. -/
def continues (line : Bytes) : Option Bool := do
  if (← peek 0 line 0) = 92 then return (← peek 0 line 1) == 10 else return false

/-- A turn of the loop that skips until the first keyword. -/
def skipBlanks (line : Bytes) : Option (Bytes ⊕ Bytes) := do
  let line ← skip 0 isSpace line
  if (← peek 0 line 0) = 35 then return .inl (← skipLine line) else return .inr line

/-- A turn of the loop that skips the key. -/
def skipKey (line : Bytes) : Option (Bytes ⊕ Bytes) := do
  let c ← peek 0 line 0
  if c ≠ 0 ∧ !isSpace c ∧ c ≠ 35 then
    if ← continues line then return .inr line else return .inl (← advance line 1)
  else return .inr line

/-- `if (*line == '\n') ++line;` -/
def skipNewline (line : Bytes) : Option Bytes := do
  if (← peek 0 line 0) = 10 then advance line 1 else return line

/-- `do ++line; while (*line && *line != '\n'); if (*line == '\n') ++line;` -/
def skipComment (line : Bytes) : Option Bytes := do
  skipNewline (← skipLine (← advance line 1))

/-- A turn of the loop that looks for the end of the line, with `continuation`. -/
def skipValue : Bytes × Bool → Option ((Bytes × Bool) ⊕ (Bytes × Bool))
  | (line, continuation) => do
      let c ← peek 0 line 0
      if c ≠ 0 ∧ c ≠ 10 ∧ (c ≠ 35 ∨ continuation) then
        if ← continues line then return .inl (← advance line 2, true)
        else if c = 35 then return .inl (← skipComment line, continuation)
        else return .inl (← advance line 1, continuation)
      else return .inr (line, continuation)

/-- A turn of the loop that decodes a continued value, from `v_in` to `v_out`. -/
def decodeValue : Bytes × Bytes → Option ((Bytes × Bytes) ⊕ Bytes)
  | (vIn, vOut) => do
      let c ← peek 0 vIn 0
      if c = 0 then return .inr vOut
      else if c = 35 then return .inl (← skipComment vIn, vOut)
      else if ← continues vIn then return .inl (← advance vIn 2, vOut)
      else return .inl (← advance vIn 1, vOut ++ [c])

/-- The value of what stands between `val` and `cp`. -/
def valueOf (continuation : Bool) (cp : Bytes) : Option Bytes :=
  if continuation then loop decodeValue (cp.length + 1) (cp, []) else some cp

/-- What is skipped behind a value. -/
def finishLine (line : Bytes) : Option Bytes := do
  if (← peek 0 line 0) = 35 then skip 0 isSpace (← skipLine (← advance line 1)) else skip 0 isSpace line

/-- `confparse_line_from_str_verbose`. -/
def confparseLineFromStrVerbose (line : Bytes) : Option LineFromStr := do
  let line ← loop skipBlanks (line.length + 1) line
  if (← peek 0 line 0) = 0 then return ⟨some line, none, none, none⟩
  else
    let key := line
    let line ← loop skipKey (line.length + 1) line
    let keyOut := upTo key line
    let line ← skip 0 isTab line
    let val := line
    if (← peek 0 line 0) = 34 then
      match ← unescapeString line with
      | none => return ⟨none, some keyOut, none, some .invalidEscape⟩
      | some (line, valueOut) =>
          let line ← skip 0 isTab line
          let c ← peek 0 line 0
          if c ≠ 0 ∧ c ≠ 35 ∧ c ≠ 10 then return ⟨none, some keyOut, some valueOut, some .excessData⟩
          else return ⟨some (← finishLine line), some keyOut, some valueOut, none⟩
    else
      let (line, continuation) ← loop skipValue (line.length + 1) (line, false)
      let cp := (upTo val line).rdropWhile isSpace
      let line ← skipNewline line
      let valueOut ← valueOf continuation cp
      return ⟨some (← finishLine line), some keyOut, some valueOut, none⟩

/-! ## §3 `confparse_get_lines` -/

/-- The line of a key and a value. A value is a C string. -/
def configlineOf (extended : Bool) (k v : Bytes) : Configline :=
  if extended ∧ k.head? = some 43 then ⟨k.tail, cstr v, .append, false⟩
  else if extended ∧ k.head? = some 47 then ⟨k.tail, [], .clear, false⟩
  else ⟨k, cstr v, .normal, false⟩

/-- A turn of the loop, with the list so far; it is done with `NULL` or with the list. -/
def getLine (extended : Bool) :
    Bytes × List Configline → Option ((Bytes × List Configline) ⊕ Option (List Configline))
  | (string, list) => do
      let parsed ← confparseLineFromStrVerbose string
      match parsed.line with
      | none => return .inr none
      | some string =>
          let list := match parsed.key, parsed.value with
            | some k, some v => list ++ [configlineOf extended k v]
            | _, _ => list
          if (← peek 0 string 0) ≠ 0 then return .inl (string, list) else return .inr (some list)

/-- `confparse_get_lines`: what it returns, and what it stores in `*result`. -/
def confparseGetLines (string : Bytes) (extended : Bool) : Option (Int × Option (List Configline)) := do
  match ← loop (getLine extended) (string.length + 1) (string, []) with
  | none => return (-1, none)
  | some list => return (0, some list)

end SploneBox.Confparse
