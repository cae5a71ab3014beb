/-
# SploneBox.Functions — what the core writes into the database about a plugin, and what it asks.

A plugin is a hash under its key string, with a name, a description, an author and a license: `db_plugin_add`
writes it, and `db_plugin_verify` asks whether the key is there. A function of a plugin is in three more keys:
its name in the set `<key>:func:all`, its description in the hash `<key>:func:<name>:meta`, and the types of
its arguments in the list `<key>:func:<name>:args`, one `LPUSH` for each, so that the list stands back to
front. `db_function_add` writes the three, and `db_function_verify` reads the set and the list and compares
the list from its end with the arguments of a call.

Names and descriptions go into the commands as `%s`, so they end at the first NUL, and a `NULL` pointer there
ends the process (`Str.cstring`). The decoder makes `NULL` of an empty string. The functions that can end the
process this way return in `Except Fault`; so does `db_function_add` where it takes the third element of a
function for an array without looking at its type.

What the functions are for is in `SploneBox.Database`; here is only what they compute.
-/
import SploneBox.Lib.Redis
import SploneBox.ToObject

namespace SploneBox

open Lib.Redis

/-! ## §1 Keys and numbers -/

/-- The database behind `rc`. -/
abbrev Database := Store Bytes Bytes

/-- `%s:func:all`. -/
def functionsKey (pluginkey : Bytes) : Bytes :=
  pluginkey ++ ascii [':', 'f', 'u', 'n', 'c', ':', 'a', 'l', 'l']

/-- `%s:func:%s:meta`. -/
def metaKey (pluginkey name : Bytes) : Bytes :=
  pluginkey ++ ascii [':', 'f', 'u', 'n', 'c', ':'] ++ name ++ ascii [':', 'm', 'e', 't', 'a']

/-- `%s:func:%s:args`. -/
def argsKey (pluginkey name : Bytes) : Bytes :=
  pluginkey ++ ascii [':', 'f', 'u', 'n', 'c', ':'] ++ name ++ ascii [':', 'a', 'r', 'g', 's']

/-- `object_type`. -/
inductive ObjectType where
  | nil
  | int
  | uint
  | bool
  | float
  | str
  | array
  | dictionary
deriving DecidableEq

/-- The number behind an `object_type`. -/
def ObjectType.code : ObjectType → Nat
  | .nil => 0
  | .int => 1
  | .uint => 2
  | .bool => 3
  | .float => 4
  | .str => 5
  | .array => 6
  | .dictionary => 7

/-- `obj->type`. -/
def Object.type : Object → ObjectType
  | .nil => .nil
  | .integer _ => .int
  | .uinteger _ => .uint
  | .boolean _ => .bool
  | .floating _ => .float
  | .string _ => .str
  | .array _ => .array
  | .dictionary _ => .dictionary

/-- `%lu`. -/
def decimal (n : Nat) : Bytes := ascii (Nat.toDigits 10 n)

/-- What `strtol` leaves: the value, whether `errno` is `ERANGE`, and whether `endptr` has moved. -/
structure Strtol where
  value : Int
  erange : Bool
  moved : Bool

/-- The digits at the front, as a number. -/
def digits (s : Bytes) : Nat :=
  (s.takeWhile fun c => 48 ≤ c ∧ c ≤ 57).foldl (fun n c => 10 * n + (c.toNat - 48)) 0

/-- `strtol(s, &endptr, 10)`. -/
def strtol (s : Bytes) : Strtol :=
  let s := s.dropWhile fun c => c = 32 ∨ 9 ≤ c ∧ c ≤ 13
  let negative := s.head? = some 45
  let s := if s.head? = some 45 ∨ s.head? = some 43 then s.tail else s
  let value : Int := if negative then -(digits s) else digits s
  if (s.head?.all fun c => c < 48 ∨ 57 < c) then ⟨0, false, false⟩
  else if value < -2 ^ 63 then ⟨-2 ^ 63, true, true⟩
  else if 2 ^ 63 ≤ value then ⟨2 ^ 63 - 1, true, true⟩
  else ⟨value, false, true⟩

/-- An `ssize_t` read by `%d`. -/
def asInt (n : Int) : Int := Int.bmod n (2 ^ 32)

/-- A string handed to `%s`. -/
def Str.cstring (s : Str) : Except Fault Bytes :=
  match s.str with
  | none => .error .nullPointer
  | some b => .ok (cstr b)

/-! ## §2 `db_function_add` -/

/-- `db_function_add_name`. -/
def dbFunctionAddName (db : Database) (pluginkey : Bytes) (name : Str) : Except Fault (Int × Database) := do
  let name ← name.cstring
  match sadd db (functionsKey pluginkey) name with
  | (.integer _, db) => return (0, db)
  | (_, db) => return (-1, db)

/-- `db_function_add_meta`. -/
def dbFunctionAddMeta (db : Database) (pluginkey : Bytes) (name desc : Str) : Int × Database :=
  match name.str, desc.str with
  | some name, some desc =>
      match hset db (metaKey pluginkey (cstr name)) (ascii ['d', 'e', 's', 'c']) (cstr desc) with
      | (.error, db) => (-1, db)
      | (_, db) => (0, db)
  | _, _ => (-1, db)

/-- `db_function_add_args`. -/
def dbFunctionAddArgs (db : Database) (pluginkey : Bytes) (name : Str) (type : ObjectType) :
    Except Fault (Int × Database) := do
  let name ← name.cstring
  match lpush db (argsKey pluginkey name) (decimal type.code) with
  | (.integer _, db) => return (0, db)
  | (_, db) => return (-1, db)

/-- `db_function_flush_args`. -/
def dbFunctionFlushArgs (db : Database) (pluginkey : Bytes) (name : Str) : Except Fault (Int × Database) := do
  let name ← name.cstring
  match ltrim db (argsKey pluginkey name) 1 0 with
  | (.status, db) => return (0, db)
  | (_, db) => return (-1, db)

/-- The loop of `db_function_add` over the arguments. -/
def addArgsLoop (pluginkey : Bytes) (name : Str) : Database → List Object → Except Fault (Int × Database)
  | db, [] => .ok (0, db)
  | db, arg :: args => do
      let (rc, db) ← dbFunctionAddArgs db pluginkey name arg.type
      if rc = -1 then return (-1, db) else addArgsLoop pluginkey name db args

/-- The end of `db_function_add`: `args->data.array` is read whatever the type of `args` is. What
`db_function_flush_args` returns is not looked at. -/
def addSignature (db : Database) (pluginkey : Bytes) (name : Str) (args : Object) :
    Except Fault (Int × Database) := do
  let (_, db) ← dbFunctionFlushArgs db pluginkey name
  match args with
  | .array args => addArgsLoop pluginkey name db args
  | _ => throw .wrongType

/-- `db_function_add` from the first write on. -/
def addFunction (db : Database) (pluginkey : Bytes) (name desc : Str) (args : Object) :
    Except Fault (Int × Database) := do
  let (rc, db) ← dbFunctionAddName db pluginkey name
  if rc = -1 then return (-1, db)
  let (rc, db) := dbFunctionAddMeta db pluginkey name desc
  if rc = -1 then return (-1, db)
  addSignature db pluginkey name args

/-- `FUNC_MIN_LEN_NAME`. -/
def funcMinLenName : Nat := 1

/-- `FUNC_MAX_LEN_NAME`. -/
def funcMaxLenName : Nat := 255

/-- `db_function_add`. The string members of the first two elements are copied before their types are looked
at; what is copied from another type is not used. -/
def dbFunctionAdd (db : Database) (pluginkey : Bytes) (func : List Object) : Except Fault (Int × Database) :=
  match func with
  | .string name :: .string desc :: args :: _ =>
      if name.length < funcMinLenName ∨ name.length > funcMaxLenName then .ok (-1, db)
      else addFunction db pluginkey name desc args
  | _ => .ok (-1, db)

/-! ## §3 `db_function_verify` -/

/-- `db_function_exists`. -/
def dbFunctionExists (db : Database) (pluginkey : Bytes) (name : Str) : Except Fault Bool := do
  let name ← name.cstring
  match sismember db (functionsKey pluginkey) name with
  | .integer n => return n ≠ 0
  | _ => return false

/-- `db_function_get_argc`. -/
def dbFunctionGetArgc (db : Database) (pluginkey : Bytes) (name : Str) : Except Fault Int := do
  let name ← name.cstring
  match llen db (argsKey pluginkey name) with
  | .integer n => return n
  | _ => return -1

/-- `INT64_MAX`. -/
def int64Max : Nat := 9223372036854775807

/-- The checks on one element and one argument; `val` is compared with the type. -/
def typeFits (element : Bytes) (arg : Object) : Bool :=
  let val := strtol element
  if val.erange || !val.moved then false
  else
    match arg with
    | .uinteger u => if val.value = ObjectType.int.code then u.toNat ≤ int64Max
        else val.value = ObjectType.uint.code
    | arg => val.value = arg.type.code

/-- The loop of `db_function_typecheck`: `j` runs down the elements and `k` up the arguments. -/
def typecheckLoop (elements : List Bytes) (args : List Object) : Nat → Nat → Except Fault Int
  | 0, _ => .ok 0
  | j + 1, k =>
      match elements[j]?, args[k]? with
      | some element, some arg => if typeFits element arg then typecheckLoop elements args j (k + 1)
          else .ok (-1)
      | _, _ => .error .outOfBounds

/-- `db_function_typecheck`. -/
def dbFunctionTypecheck (db : Database) (pluginkey : Bytes) (name : Str) (args : List Object) :
    Except Fault Int := do
  let argc ← dbFunctionGetArgc db pluginkey name
  if argc < 0 ∨ argc ≠ args.length then return -1
  let name ← name.cstring
  match lrange db (argsKey pluginkey name) 0 (asInt argc) with
  | .array elements => typecheckLoop elements args elements.length 0
  | _ => return 0

/-- `db_function_verify`. -/
def dbFunctionVerify (db : Database) (pluginkey : Bytes) (name : Str) (args : List Object) :
    Except Fault Int := do
  if !(← dbFunctionExists db pluginkey name) then return -1
  if (← dbFunctionTypecheck db pluginkey name args) = -1 then return -1
  return 0

/-! ## §4 `db_plugin_add` and `db_plugin_verify` -/

/-- `MIN_LEN_NAME`. -/
def minLenName : Nat := 3

/-- `db_plugin_add`. -/
def dbPluginAdd (db : Database) (pluginkey : Bytes) (name desc author license : Str) :
    Except Fault (Int × Database) := do
  if name.length < minLenName then return (-1, db)
  let name ← name.cstring
  let desc ← desc.cstring
  let author ← author.cstring
  let license ← license.cstring
  match hmset db pluginkey
      [(ascii ['n', 'a', 'm', 'e'], name), (ascii ['d', 'e', 's', 'c'], desc),
        (ascii ['a', 'u', 't', 'h', 'o', 'r'], author),
        (ascii ['l', 'i', 'c', 'e', 'n', 's', 'e'], license)] with
  | (.error, db) => return (-1, db)
  | (_, db) => return (0, db)

/-- `db_plugin_verify`. -/
def dbPluginVerify (db : Database) (pluginkey : Bytes) : Int :=
  match keyExists db pluginkey with
  | .integer n => if n = 1 then 0 else -1
  | _ => -1

end SploneBox
