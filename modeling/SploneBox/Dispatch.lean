/-
# SploneBox.Dispatch — the dispatch table and the request handlers.

A handler is a function of the decoded arguments. What it computes is an `Effect`: the answer, or the
one operation with which it ends — a registration in the database, a broadcast, a subscription, or a
request to another plugin whose acknowledgement it waits for. `acknowledged` is the rest of `api_run` and
`api_result` once the acknowledgement is there. The database that a handler finds is in `HandlerEnv`.

A string that is empty arrives as `NULL`. `api_subscribe` and `api_unsubscribe` hand it to `memcpy`, and
`api_run` hands it to redis; the effect of the first is a `fault`, and the `verify` of the second ends in
one. So can a registration, in `db_function_add`.

The method name is looked up the way `khash.h` does it, with the hash and the comparison of
`sb-common.h`: `string_eq` compares up to the length of the shorter string.
-/
import SploneBox.Functions

namespace SploneBox

/-! ## §1 The table -/

/-- The functions a `dispatch_info` can hold. -/
inductive Handler where
  | missingMethod
  | invalidArguments
  | register
  | run
  | result
  | broadcast
  | subscribe
  | unsubscribe
deriving DecidableEq

/-- `dispatch_info`; nothing reads its name. -/
structure DispatchInfo where
  func : Handler
  async : Bool
deriving DecidableEq

/-- `string_hash`. -/
def stringHash (s : Bytes) : UInt32 :=
  (s.takeWhile (· ≠ 0)).foldl (fun h b => ((h <<< 5) + h) + b.toUInt32) 5831

/-- `string_eq`: `strncmp` over the length of the shorter string. -/
def stringEq (a b : Bytes) : Bool :=
  let n := min a.length b.length
  (a.take n).takeWhile (· ≠ 0) == (b.take n).takeWhile (· ≠ 0)

/-- The buckets of a hash table keyed by strings. -/
abbrev Buckets (α : Type) := List (Option (Bytes × α))

/-- The probing loop of `kh_get` and `kh_put`: the bucket it stops at. -/
def khProbe {α : Type} (t : Buckets α) (key : Bytes) : Nat → Nat → Nat → Nat
  | 0, i, _ => i
  | fuel + 1, i, k =>
      match t[i]? with
      | some (some (s, _)) =>
          if stringEq s key then i else khProbe t key fuel ((i + (k + 1)) % t.length) (k + 1)
      | _ => i

/-- The bucket of a key. The triangular steps reach every bucket, and the table is never full. -/
def khBucket {α : Type} (t : Buckets α) (key : Bytes) : Nat :=
  khProbe t key (2 * t.length) ((stringHash key).toNat % t.length) 0

/-- `kh_get`. -/
def khGet {α : Type} (t : Buckets α) (key : Bytes) : Option α :=
  (t[khBucket t key]?.join).map Prod.snd

/-- `kh_put` and the assignment of the value. -/
def khPut {α : Type} (t : Buckets α) (key : Bytes) (v : α) : Buckets α :=
  t.set (khBucket t key) (some (key, v))

/-- The entries of `dispatch_table_init`, in the order of its `dispatch_table_put` calls. -/
def dispatchEntries : List (Bytes × DispatchInfo) :=
  [(ascii ['r', 'e', 'g', 'i', 's', 't', 'e', 'r'], ⟨.register, false⟩),
    (ascii ['r', 'u', 'n'], ⟨.run, false⟩),
    (ascii ['r', 'e', 's', 'u', 'l', 't'], ⟨.result, false⟩),
    (ascii ['b', 'r', 'o', 'a', 'd', 'c', 'a', 's', 't'], ⟨.broadcast, true⟩),
    (ascii ['s', 'u', 'b', 's', 'c', 'r', 'i', 'b', 'e'], ⟨.subscribe, false⟩),
    (ascii ['u', 'n', 's', 'u', 'b', 's', 'c', 'r', 'i', 'b', 'e'], ⟨.unsubscribe, false⟩)]

/-- The table after `dispatch_table_init`: eight buckets. (The first three entries are put into four
buckets and moved; they end where eight buckets would have had them.) -/
def dispatchTable : Buckets DispatchInfo :=
  dispatchEntries.foldl (fun t e => khPut t e.1 e.2) (List.replicate 8 none)

/-- `msgpack_rpc_get_handler_for`: a name without an entry gives the zero `dispatch_info`, with
`func` replaced. -/
def msgpackRpcGetHandlerFor (name : Bytes) : DispatchInfo :=
  (khGet dispatchTable name).getD ⟨.missingMethod, false⟩

/-! ## §2 Answers -/

/-- What a handler leaves behind: the object it returns, and `*error` if it is set. -/
structure Reply where
  result : Object
  error : Option ApiError

/-- The answer after `error_set` and `goto end`. -/
def Reply.failed (msg : String) : Reply := ⟨.array [], some (validationError msg)⟩

def Reply.ok (rv : List Object) : Reply := ⟨.array rv, none⟩

/-- `msgpack_rpc_handle_missing_method`. -/
def msgpackRpcHandleMissingMethod : Reply := ⟨.nil, some ⟨.exception, text "Invalid method name"⟩⟩

/-- `msgpack_rpc_handle_invalid_arguments`. -/
def msgpackRpcHandleInvalidArguments : Reply :=
  ⟨.nil, some ⟨.exception, text "Invalid method arguments"⟩⟩

/-- The handlers' view of the outside: the fresh `callid` of `randommod`, and the database as it is when
the handler runs. -/
structure HandlerEnv where
  callid : UInt64
  db : Database

/-- What a handler does. A `register` goes into the database under the key of the connection. A `run` has
entered its `callid` into `callids` before the database has been asked (`verify` is the error that
follows from its answer); a `result` looks its `callid` up. A `fault` uses the address `NULL`. -/
inductive Effect where
  | reply (r : Reply)
  | register (name description author license : Str) (functions : List Object)
  | broadcast (event : Option Bytes) (args : List Object)
  | subscribe (event : Bytes)
  | unsubscribe (event : Bytes)
  | run (callid : UInt64) (target : Bytes) (verify : Except Fault (Option ApiError)) (request : List Object)
  | result (callid : UInt64) (request : List Object)
  | fault (f : Fault)

/-! ## §3 Copying -/

/-- `cstring_copy_string`. -/
def cstringCopyString (s : Option Bytes) : Str :=
  match s with
  | none => ⟨none, 0⟩
  | some b => ⟨some (cstr b), (cstr b).length⟩

mutual

/-- `copy_object`. -/
def copyObject : Object → Object
  | .string s => .string (cstringCopyString s.str)
  | .array items => .array (copyItems items)
  | .dictionary items => .dictionary (copyEntries items)
  | o => o

def copyItems : List Object → List Object
  | [] => []
  | o :: items => copyObject o :: copyItems items

def copyEntries : List (Str × Object) → List (Str × Object)
  | [] => []
  | (k, o) :: items => (cstringCopyString k.str, copyObject o) :: copyEntries items

end

/-- `to_upper` on one byte, in the C locale. -/
def toUpperByte (b : UInt8) : UInt8 := if 97 ≤ b ∧ b ≤ 122 then b - 32 else b

/-! ## §4 The handlers -/

/-- The loop of `api_register` over the functions: the last error stands. -/
def registerLoop (pluginkey : Bytes) : List Object → Option ApiError → Database →
    Except Fault (Option ApiError × Database)
  | [], error, db => .ok (error, db)
  | .array func :: functions, error, db => do
      let (rc, db) ← dbFunctionAdd db pluginkey func
      registerLoop pluginkey functions
        (if rc = -1 then some (validationError "Failed to register function in database.") else error) db
  | _ :: functions, _, db =>
      registerLoop pluginkey functions (some (validationError "Function params has not expected type.")) db

/-- `api_register`: the error it leaves, and the database. -/
def apiRegister (db : Database) (pluginkey : Bytes) (name description author license : Str)
    (functions : List Object) : Except Fault (Option ApiError × Database) := do
  if functions.length = 0 then
    return (some (validationError "Error in register API request. Invalid params size."), db)
  let (rc, db) ← dbPluginAdd db pluginkey name description author license
  if rc = -1 then return (some (validationError "Failed to register plugin in database."), db)
  registerLoop pluginkey functions none db

/-- `handle_register` up to `api_register`. -/
def handleRegister (args : List Object) : Effect :=
  match args with
  | [.array [.string name, .string description, .string author, .string license], functions] =>
      if name.str.isNone || description.str.isNone || author.str.isNone || license.str.isNone then
        .reply (.failed "Error dispatching register API request. Invalid meta params size")
      else
        match functions with
        | .array functions => .register name description author license functions
        | _ => .reply (.failed "Error dispatching register API request. functions has wrong type")
  | [.array [_, _, _, _], _] =>
      .reply (.failed "Error dispatching register API request. meta element has wrong type")
  | [.array _, _] => .reply (.failed "Error dispatching register API request. Invalid meta params size")
  | [_, _] => .reply (.failed "Error dispatching register API request. meta params has wrong type")
  | _ => .reply (.failed "Error dispatching register API request. Invalid params size")

/-- The questions of `api_run` to the database, and the error that follows from the answers. -/
def runVerify (db : Database) (targetpluginkey : Bytes) (functionName : Str) (args : List Object) :
    Except Fault (Option ApiError) := do
  if dbPluginVerify db targetpluginkey = -1 then return some (validationError "API key is invalid.")
  if (← dbFunctionVerify db targetpluginkey functionName args) = -1 then
    return some (validationError "run() verification failed.")
  return none

/-- `api_run` up to the request. -/
def apiRun (env : HandlerEnv) (targetpluginkey : Bytes) (functionName : Str) (args : List Object) :
    Effect :=
  .run env.callid targetpluginkey (runVerify env.db targetpluginkey functionName args)
    [.array [.nil, .uinteger env.callid], .string (cstringCopyString functionName.str),
      copyObject (.array args)]

/-- `handle_run`. -/
def handleRun (env : HandlerEnv) (args : List Object) : Effect :=
  match args with
  | [.array [key, last], name, runargs] =>
      match key with
      | .string ⟨some key, length⟩ =>
          if length + 1 ≠ 17 then
            .reply (.failed "Error dispatching run API request. Invalid meta params size")
          else
            match last, name, runargs with
            | .nil, .string name, .array runargs =>
                apiRun env ((cstr key).map toUpperByte) name runargs
            | .nil, _, _ =>
                .reply (.failed "Error dispatching run API request. function string has wrong type")
            | _, _, _ =>
                .reply (.failed "Error dispatching run API request. meta elements have wrong type")
      | .string _ => .reply (.failed "Error dispatching run API request. Invalid meta params size")
      | _ => .reply (.failed "Error dispatching run API request. meta elements have wrong type")
  | [.array _, _, _] => .reply (.failed "Error dispatching run API request. Invalid meta params size")
  | [_, _, _] => .reply (.failed "Error dispatching run API request. meta params has wrong type")
  | _ => .reply (.failed "Error dispatching run API request. Invalid params size")

/-- `handle_result` up to the lookup of the `callid`. -/
def handleResult (args : List Object) : Effect :=
  match args with
  | [.array [.uinteger callid], .array resultargs] =>
      .result callid [.array [.uinteger callid], copyObject (.array resultargs)]
  | [.array [.uinteger _], _] =>
      .reply (.failed "Error dispatching result API request. function string has wrong type")
  | [.array [_], _] =>
      .reply (.failed "Error dispatching result API request. meta elements have wrong type")
  | [.array _, _] =>
      .reply (.failed "Error dispatching result API request. Invalid meta params size")
  | [_, _] => .reply (.failed "Error dispatching result API request. meta params has wrong type")
  | _ => .reply (.failed "Error dispatching result API request. Invalid params size")

/-- `handle_broadcast`. -/
def handleBroadcast (args : List Object) : Effect :=
  match args with
  | [.string eventname, .array eventargs] => .broadcast eventname.str (copyItems eventargs)
  | [.string _, _] =>
      .reply (.failed "Error dispatching broadcast API request. event args has wrong type")
  | [_, _] => .reply (.failed "Error dispatching broadcast API request. event name has wrong type")
  | _ => .reply (.failed "Error dispatching broadcast API request. Invalid params size")

/-- `METHOD_MAXLEN`. -/
def methodMaxlen : Nat := 512

/-- The C string in the buffer `e` of `api_subscribe` and `api_unsubscribe`. -/
def eventName (event : Str) : Bytes :=
  cstr ((event.str.getD []).take (min event.length methodMaxlen))

/-- The `memcpy` of `api_subscribe` and `api_unsubscribe`, and the C string it leaves in `e`. -/
def copyEvent (event : Str) : Except Fault Bytes :=
  match event.str with
  | none => .error .nullPointer
  | some _ => .ok (eventName event)

/-- `handle_subscribe` and `handle_unsubscribe`, with the operation they end in. -/
def handleEvent (operation : Bytes → Effect) (args : List Object) : Effect :=
  match args with
  | [.string eventname] =>
      match copyEvent eventname with
      | .ok event => operation event
      | .error f => .fault f
  | [_] => .reply (.failed "Error dispatching broadcast API request. event name has wrong type")
  | _ => .reply (.failed "Error dispatching broadcast API request. Invalid params size")

/-- `handle_subscribe`. -/
def handleSubscribe (args : List Object) : Effect := handleEvent .subscribe args

/-- `handle_unsubscribe`. -/
def handleUnsubscribe (args : List Object) : Effect := handleEvent .unsubscribe args

/-- The call `handler.func(con->id, msgid, con->cc.pluginkeystring, args, &error)`. -/
def Handler.call (env : HandlerEnv) (args : List Object) : Handler → Effect
  | .missingMethod => .reply msgpackRpcHandleMissingMethod
  | .invalidArguments => .reply msgpackRpcHandleInvalidArguments
  | .register => handleRegister args
  | .run => handleRun env args
  | .result => handleResult args
  | .broadcast => handleBroadcast args
  | .subscribe => handleSubscribe args
  | .unsubscribe => handleUnsubscribe args

/-! ## §5 Acknowledgements -/

/-- The two handlers that wait for another plugin. -/
inductive CallKind where
  | run
  | result
deriving DecidableEq

/-- The method of the request that is sent. -/
def CallKind.method : CallKind → Bytes
  | .run => ascii ['r', 'u', 'n']
  | .result => ascii ['r', 'e', 's', 'u', 'l', 't']

def CallKind.brokenResponse : CallKind → String
  | .run => "Error dispatching run API response. Either response is broken or it just has wrong params size."
  | .result =>
      "Error dispatching result API response. Either response is broken or it just has wrong params size."

/-- The rest of `api_run` or `api_result`, and of its handler, on what `connection_send_request`
returned; `items` is the result read as an array. Both name the `run` API when the `callid` is wrong. -/
def acknowledged (kind : CallKind) (callid : UInt64) (items : List Object) (error : Option ApiError) :
    Reply :=
  match error with
  | some e => ⟨.array [], some e⟩
  | none =>
      match items with
      | [.uinteger u] =>
          if callid = u then .ok [.uinteger callid]
          else .failed "Error dispatching run API response. Invalid callid"
      | [_] => .failed "Error dispatching run API response. Invalid callid"
      | _ => .failed kind.brokenResponse

/-! ## §6 What the table can answer -/

/-- A lookup returns one of the entries, or nothing. -/
theorem msgpackRpcGetHandlerFor_mem (name : Bytes) :
    msgpackRpcGetHandlerFor name = ⟨.missingMethod, false⟩ ∨
      msgpackRpcGetHandlerFor name ∈ dispatchEntries.map Prod.snd := by
  have htable : ∀ x ∈ dispatchTable, ∀ e, x = some e → e.2 ∈ dispatchEntries.map Prod.snd := by
    decide
  unfold msgpackRpcGetHandlerFor khGet
  cases hget : dispatchTable[khBucket dispatchTable name]? with
  | none => exact Or.inl rfl
  | some slot =>
      cases slot with
      | none => exact Or.inl rfl
      | some e => exact Or.inr (htable _ (List.mem_of_getElem? hget) e rfl)

/-- **Only `broadcast` runs inside the read callback**: every other entry of the table is put into the
event queue. -/
theorem async_of_table {name : Bytes} (h : (msgpackRpcGetHandlerFor name).async = true) :
    (msgpackRpcGetHandlerFor name).func = .broadcast := by
  rcases msgpackRpcGetHandlerFor_mem name with hmiss | hmem
  · rw [hmiss] at h
    cases h
  · have hall : ∀ d ∈ dispatchEntries.map Prod.snd, d.async = true → d.func = .broadcast := by decide
    exact hall _ hmem h

end SploneBox
