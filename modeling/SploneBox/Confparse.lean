/-
# SploneBox.Confparse — the assignment of configuration lines in `confparse.c`.

A format lists the variables of a structure: the name, the type and the offset of each. The structure is a
store that keeps a value at every offset. `confparse_assign` expands the keys of the lines, and assigns them
one after the other: `assign_line` finds the variable (an exact name in any case, or else the first one that
the key abbreviates), clears it or hands the line to `assign_value`. An `sbassert` that fails is `none`. What
is only logged is left out.
-/
import SploneBox.Parse
import SploneBox.IsoTime

namespace SploneBox.Confparse

open Parse

universe u

/-! ## §1 Formats, lines and stores -/

/-- `configtype`. -/
inductive Configtype where
  | string | filename | uint | int | port | interval | msecInterval | memunit | double | bool |
      autobool | isotime
  | linelist | linelistS | linelistV | obsolete
deriving DecidableEq

/-- `configvar`. -/
structure Configvar where
  name : Bytes
  type : Configtype
  varOffset : Nat
  initvalue : Option Bytes
deriving DecidableEq

/-- `configabbrev`. -/
structure Configabbrev where
  abbreviated : Bytes
  full : Bytes
  commandlineOnly : Bool

/-- `configformat`. -/
structure Configformat where
  abbrevs : List Configabbrev
  vars : List Configvar
  extra : Option Nat

/-- `CONFIG_LINE_NORMAL`, `CONFIG_LINE_APPEND` and `CONFIG_LINE_CLEAR`. -/
inductive Command where
  | normal | append | clear
deriving DecidableEq

/-- `configline`. -/
structure Configline where
  key : Bytes
  value : Bytes
  command : Command
  fragile : Bool
deriving DecidableEq

/-- What stands at an offset. -/
inductive Value (D : Type u) where
  | int (i : Int)
  | uint64 (n : UInt64)
  | double (d : D)
  | time (t : Int)
  | str (s : Option Bytes)
  | lines (l : List Configline)

/-- A structure. -/
abbrev Store (D : Type u) := Nat → Value D

variable {D : Type u}

/-- The time at an offset. -/
def Value.asTime : Value D → Int
  | .time t => t
  | _ => 0

/-- The lines at an offset. -/
def Value.asLines : Value D → List Configline
  | .lines l => l
  | _ => []

/-- The string at an offset. -/
def Value.asStr : Value D → Option Bytes
  | .str s => s
  | _ => none

/-! ## §2 Finding a variable -/

/-- `!strncasecmp(a, b, n)`. -/
def caseEqN (a b : Bytes) (n : Nat) : Bool := (a.take n).map toLower == (b.take n).map toLower

/-- `find_option_mutable` and `confparse_find_option`. -/
def findOption (fmt : Configformat) (key : Bytes) : Option Configvar :=
  if key.length = 0 then none
  else
    match fmt.vars.find? fun var => caseEq key var.name with
    | some var => some var
    | none => fmt.vars.find? fun var => caseEqN key var.name key.length

/-- `confparse_expand_abbrev`. -/
def expandAbbrev (fmt : Configformat) (option : Bytes) (commandLine : Bool) : Bytes :=
  fmt.abbrevs.foldl (fun option a =>
    if caseEq option a.abbreviated && (commandLine || !a.commandlineOnly) then a.full else option) option

/-! ## §3 Values -/

/-- `clear`. -/
def clear (F : Doubles D) (options : Store D) (var : Configvar) : Store D :=
  match var.type with
  | .string | .filename => Function.update options var.varOffset (.str none)
  | .double => Function.update options var.varOffset (.double F.zero)
  | .isotime => Function.update options var.varOffset (.time 0)
  | .interval | .msecInterval | .uint | .int | .port | .bool => Function.update options var.varOffset (.int 0)
  | .autobool => Function.update options var.varOffset (.int (-1))
  | .memunit => Function.update options var.varOffset (.uint64 0)
  | .linelist | .linelistS => Function.update options var.varOffset (.lines [])
  | .linelistV => options
  | .obsolete => options

/-- `line_append`. -/
def lineAppend (lst : List Configline) (key val : Bytes) : List Configline :=
  lst ++ [⟨key, val, .normal, false⟩]

/-- `lastval->fragile = 0`. -/
def unmark : List Configline → List Configline
  | [] => []
  | l :: ls => { l with fragile := false } :: ls

/-- A number that is stored if it was read. -/
def assignInt (options : Store D) (offset : Nat) (i : Int) (ok : Bool) : Int × Store D :=
  if ok then (0, Function.update options offset (.int i)) else (-1, options)

/-- `assign_value`. -/
def assignValue (F : Doubles D) (fmt : Configformat) (options : Store D) (c : Configline) :
    Option (Int × Store D) :=
  match findOption fmt c.key with
  | none => none
  | some var => some <|
      let offset := var.varOffset
      match var.type with
      | .port | .int | .uint =>
          let min := if var.type = .int then -2 ^ 31 else 0
          let max := if var.type = .port then 65535 else 2 ^ 31 - 1
          let i := parseLong c.value min max false
          assignInt options offset i.value i.ok
      | .interval => assignInt options offset (parseInterval F c.value).1 (parseInterval F c.value).2
      | .msecInterval =>
          assignInt options offset (parseMsecInterval F c.value).1 (parseMsecInterval F c.value).2
      | .memunit =>
          let u64 := parseMemunit F c.value
          if u64.2 then (0, Function.update options offset (.uint64 u64.1)) else (-1, options)
      | .bool =>
          let i := parseLong c.value 0 1 false
          assignInt options offset i.value i.ok
      | .autobool =>
          if c.value = ascii ['a', 'u', 't', 'o'] then (0, Function.update options offset (.int (-1)))
          else if c.value = ascii ['0'] then (0, Function.update options offset (.int 0))
          else if c.value = ascii ['1'] then (0, Function.update options offset (.int 1))
          else (-1, options)
      | .string | .filename => (0, Function.update options offset (.str (some c.value)))
      | .double => (0, Function.update options offset (.double (F.atof c.value)))
      | .isotime =>
          let (r, t) := parseIsoTime c.value (options offset).asTime
          if r ≠ 0 then (-1, Function.update options offset (.time t))
            else (0, Function.update options offset (.time t))
      | .linelist | .linelistS =>
          let lastval := (options offset).asLines
          let kept := if lastval.head?.any (·.fragile) then if c.command ≠ .append then [] else unmark lastval
            else lastval
          (0, Function.update options offset (.lines (lineAppend kept c.key c.value)))
      | .obsolete => (0, options)
      | .linelistV => (-1, options)

/-- `reset`. A default that cannot be assigned is only logged. -/
def reset (F : Doubles D) (fmt : Configformat) (options : Store D) (var : Configvar) (useDefaults : Bool) :
    Option (Store D) :=
  let options := clear F options var
  if !useDefaults then some options
  else
    match var.initvalue with
    | some value => (assignValue F fmt options ⟨var.name, value, .normal, false⟩).map Prod.snd
    | none => some options

/-! ## §4 Lines -/

/-- `assign_line`: 0, -1 for a bad key and -2 for a bad value. -/
def assignLine (F : Doubles D) (fmt : Configformat) (options : Store D) (c : Configline)
    (useDefaults clearFirst : Bool) :
    Option (Int × Store D) :=
  match findOption fmt c.key with
  | none =>
      match fmt.extra with
      | some offset =>
          some (0, Function.update options offset (.lines (lineAppend (options offset).asLines c.key c.value)))
      | none => some (-1, options)
  | some var =>
      let c := { c with key := var.name }
      if c.value.length = 0 then
        if !clearFirst then
          if (var.type = .linelist ∨ var.type = .linelistS) ∧ c.command ≠ .clear then some (0, options)
          else (reset F fmt options var useDefaults).map fun options => (0, options)
        else some (0, options)
      else do
        let options ←
          if c.command = .clear ∧ !clearFirst then reset F fmt options var useDefaults else some options
        let (r, options) ← assignValue F fmt options c
        if r < 0 then some (-2, options) else some (0, options)

/-- `reset_line`. -/
def resetLine (F : Doubles D) (fmt : Configformat) (options : Store D) (key : Bytes) (useDefaults : Bool) :
    Option (Store D) :=
  match findOption fmt key with
  | none => some options
  | some var => reset F fmt options var useDefaults

/-- `mark_lists_fragile`. -/
def markListsFragile (fmt : Configformat) (options : Store D) : Store D :=
  fmt.vars.foldl (fun options var =>
    if var.type = .linelist ∨ var.type = .linelistV then
      match (options var.varOffset).asLines with
      | [] => options
      | l :: ls => Function.update options var.varOffset (.lines ({ l with fragile := true } :: ls))
    else options) options

/-- The third pass of `confparse_assign`. -/
def assignLines (F : Doubles D) (fmt : Configformat) (useDefaults clearFirst : Bool) :
    List Configline → Store D → Option (Int × Store D)
  | [], options => some (0, options)
  | c :: list, options => do
      let (r, options) ← assignLine F fmt options c useDefaults clearFirst
      if r ≠ 0 then some (r, options) else assignLines F fmt useDefaults clearFirst list options

/-- `confparse_assign`. -/
def confparseAssign (F : Doubles D) (fmt : Configformat) (options : Store D) (list : List Configline)
    (useDefaults clearFirst : Bool) : Option (Int × Store D) := do
  let list := list.map fun p => { p with key := expandAbbrev fmt p.key false }
  let options ←
    if clearFirst then list.foldlM (fun options p => resetLine F fmt options p.key useDefaults) options
      else some options
  let (r, options) ← assignLines F fmt useDefaults clearFirst list options
  if r ≠ 0 then some (r, options) else some (0, markListsFragile fmt options)

/-- `confparse_init`. -/
def confparseInit (F : Doubles D) (fmt : Configformat) (options : Store D) : Option (Store D) :=
  fmt.vars.foldlM (fun options var => if var.initvalue.isNone then some options
    else reset F fmt options var true) options

end SploneBox.Confparse
