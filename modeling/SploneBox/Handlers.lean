/-
# SploneBox.Handlers — the handlers with every access to an object checked.

`SploneBox.Dispatch` says what a handler computes, as the effect that the core performs. Here the six handlers
are followed statement by statement, with the functions of `api/` and `rpc/db/` they call, and each access is
checked: a member of the union of an `object` can only be read under its own tag (`Object.dataArray`,
`Object.dataString`, `Object.dataUinteger`), an element only inside the array (`item`), and a string that goes
to a string function, a table keyed by strings or a redis command must not be `NULL` (`Str.cstring`). The
decoder makes `NULL` of an empty string.

A handler runs in `Surroundings`: the database, the connection that asks, the tables it looks into, and
`connection_send_request`, which waits for the answer of a peer and returns whatever object that has sent.

`Careful` is when every access of a handler is good (`handlers_safe_iff`). Where it fails the source reads
before it looks at the tag, or never looks: at the first two elements of a function and at its argument list
in `db_function_add`, at the names of `broadcast`, `subscribe`, `unsubscribe` and `run`, and at the
acknowledgement of a peer, which is taken for an array (`acknowledgement_handled_iff`).

The two models are one: where every access is good, the effect of `SploneBox.Dispatch` ends as the handler
does here (`call_ending`), so what the core performs is what the statements compute.
-/
import SploneBox.Dispatch
import SploneBox.Database

namespace SploneBox

open Lib.Redis

/-! ## §1 Accesses -/

/-- `obj->data.array`. -/
def Object.dataArray : Object → Except Fault (List Object)
  | .array items => .ok items
  | _ => .error .wrongType

/-- `obj->data.string`. -/
def Object.dataString : Object → Except Fault Str
  | .string s => .ok s
  | _ => .error .wrongType

/-- `obj->data.uinteger`. -/
def Object.dataUinteger : Object → Except Fault UInt64
  | .uinteger u => .ok u
  | _ => .error .wrongType

/-- `items[i]`. -/
def item (items : List Object) (i : Nat) : Except Fault Object :=
  match items[i]? with
  | some o => .ok o
  | none => .error .outOfBounds

@[simp] theorem dataArray_array (items : List Object) : (Object.array items).dataArray = .ok items := rfl

@[simp] theorem dataString_string (s : Str) : (Object.string s).dataString = .ok s := rfl

@[simp] theorem dataUinteger_uinteger (u : UInt64) : (Object.uinteger u).dataUinteger = .ok u := rfl

@[simp] theorem item_head (o : Object) (items : List Object) : item (o :: items) 0 = .ok o := rfl

@[simp] theorem item_tail (o : Object) (items : List Object) (i : Nat) :
    item (o :: items) (i + 1) = item items i := rfl

@[simp] theorem ok_bind {α β : Type} (a : α) (f : α → Except Fault β) :
    ((Except.ok a : Except Fault α) >>= f) = f a :=
  rfl

@[simp] theorem type_array (items : List Object) : (Object.array items).type = .array := rfl

@[simp] theorem type_string (s : Str) : (Object.string s).type = .str := rfl

@[simp] theorem type_uinteger (u : UInt64) : (Object.uinteger u).type = .uint := rfl

theorem Object.eq_string {o : Object} (h : o.type = .str) : ∃ s, o = .string s := by
  cases o with
  | string s => exact ⟨s, rfl⟩
  | _ => cases h

theorem Object.eq_array {o : Object} (h : o.type = .array) : ∃ items, o = .array items := by
  cases o with
  | array items => exact ⟨items, rfl⟩
  | _ => cases h

theorem dataString_wrong {o : Object} (h : o.type ≠ .str) : o.dataString = .error .wrongType := by
  cases o with
  | string s => exact absurd rfl h
  | _ => rfl

/-- How a handler ends: with the object it returns, at `end` with `*error` as it is there, or with the
process. -/
inductive Ending where
  | success (ret : Object)
  | failed (error : Option ApiError)
  | aborted

/-- `error_set` and `goto end`. -/
def Ending.error (msg : String) : Ending := .failed (some (validationError msg))

/-- Success, or `error->isset`. -/
def Ending.Settled : Ending → Prop
  | .success _ => True
  | .failed error => error.isSome = true
  | .aborted => False

/-- The end of a handler that leaves the answer `r`. -/
def Ending.ofReply (r : Reply) : Ending :=
  match r.error with
  | none => .success r.result
  | some error => .failed (some error)

/-- `PLUGINKEY_STRING_SIZE`. -/
def pluginkeyStringSize : Nat := 17

/-- What a handler finds. `closed` is the flag of the connection `con_id`, `callids` gives the key behind an
entry, and `sendRequest` is `connection_send_request`: the object it returns, and `*err`. -/
structure Surroundings where
  db : Database
  pluginkey : Bytes
  closed : Bool
  eventStrings : List Bytes
  callids : UInt64 → Option Bytes
  callid : UInt64
  sendRequest : CallKind → Bytes → List Object → Object × Option ApiError

/-! ## §2 `db_function_add` -/

namespace Handlers

/-- `db_function_add`, with the first two elements read before their types are looked at. -/
def dbFunctionAdd (db : Database) (pluginkey : Bytes) (func : List Object) : Except Fault (Int × Database) := do
  if func.length ≤ 2 then return (-1, db)
  let nameElem ← item func 0
  let name ← nameElem.dataString
  if nameElem.type ≠ .str ∨ name.length < funcMinLenName ∨ name.length > funcMaxLenName then return (-1, db)
  let descElem ← item func 1
  let desc ← descElem.dataString
  if descElem.type ≠ .str then return (-1, db)
  let args ← item func 2
  addFunction db pluginkey name desc args

/-! ## §3 `handle_register` -/

/-- The loop of `api_register`. -/
def registerLoop (pluginkey : Bytes) : List Object → Option ApiError → Database →
    Except Fault (Option ApiError × Database)
  | [], error, db => .ok (error, db)
  | func :: functions, error, db => do
      if func.type ≠ .array then
        registerLoop pluginkey functions (some (validationError "Function params has not expected type.")) db
      else
        let func ← func.dataArray
        let (rc, db) ← dbFunctionAdd db pluginkey func
        registerLoop pluginkey functions
          (if rc = -1 then some (validationError "Failed to register function in database.") else error) db

/-- `api_register`: what it returns, and `*api_error`. -/
def apiRegister (db : Database) (pluginkey : Bytes) (name desc author license : Str) (functions : List Object) :
    Except Fault (Int × Option ApiError) := do
  if functions.length = 0 then
    return (-1, some (validationError "Error in register API request. Invalid params size."))
  let (rc, db) ← dbPluginAdd db pluginkey name desc author license
  if rc = -1 then return (-1, some (validationError "Failed to register plugin in database."))
  let (error, _) ← registerLoop pluginkey functions none db
  if error.isSome then return (-1, error)
  return (0, error)

/-- The end of a handler on what its `api_` function returned; `msg` is for an `api_` function that set no
error. -/
def finish (ret : Object) (msg : String) (r : Int × Option ApiError) : Ending :=
  if r.1 = -1 then .failed (some (r.2.getD (validationError msg))) else .success ret

/-- `handle_register`. -/
def handleRegister (s : Surroundings) (args : List Object) : Except Fault Ending := do
  if args.length ≠ 2 then return .error "Error dispatching register API request. Invalid params size"
  let first ← item args 0
  if first.type ≠ .array then return .error "Error dispatching register API request. meta params has wrong type"
  let info ← first.dataArray
  if info.length ≠ 4 then return .error "Error dispatching register API request. Invalid meta params size"
  let elem0 ← item info 0
  let elem1 ← item info 1
  let elem2 ← item info 2
  let elem3 ← item info 3
  if elem0.type ≠ .str ∨ elem1.type ≠ .str ∨ elem2.type ≠ .str ∨ elem3.type ≠ .str then
    return .error "Error dispatching register API request. meta element has wrong type"
  let name ← elem0.dataString
  let description ← elem1.dataString
  let author ← elem2.dataString
  let license ← elem3.dataString
  if name.str.isNone ∨ description.str.isNone ∨ author.str.isNone ∨ license.str.isNone then
    return .error "Error dispatching register API request. Invalid meta params size"
  let second ← item args 1
  if second.type ≠ .array then return .error "Error dispatching register API request. functions has wrong type"
  let functions ← second.dataArray
  let r ← apiRegister s.db s.pluginkey name description author license functions
  return finish (.array []) "Error running register API request." r

/-! ## §4 `handle_run` and `handle_result` -/

/-- The rest of `api_run` and of `api_result` when `connection_send_request` has set no error: what it
returned is read as an array, whatever it is. -/
def acknowledgement (kind : CallKind) (callid : UInt64) (result : Object) :
    Except Fault (Int × Option ApiError) := do
  let items ← result.dataArray
  if items.length ≠ 1 then return (-1, some (validationError kind.brokenResponse))
  let first ← item items 0
  if first.type ≠ .uint then
    return (-1, some (validationError "Error dispatching run API response. Invalid callid"))
  let acknowledged ← first.dataUinteger
  if callid ≠ acknowledged then
    return (-1, some (validationError "Error dispatching run API response. Invalid callid"))
  return (0, none)

/-- The request of `api_run`. -/
def runRequest (callid : UInt64) (functionName : Str) (args : List Object) : List Object :=
  [.array [.nil, .uinteger callid], .string (cstringCopyString functionName.str), copyObject (.array args)]

/-- `api_run`. -/
def apiRun (s : Surroundings) (targetpluginkey : Bytes) (functionName : Str) (callid : UInt64)
    (args : List Object) :
    Except Fault (Int × Option ApiError) := do
  if dbPluginVerify s.db targetpluginkey = -1 then return (-1, some (validationError "API key is invalid."))
  if (← dbFunctionVerify s.db targetpluginkey functionName args) = -1 then
    return (-1, some (validationError "run() verification failed."))
  let (result, error) := s.sendRequest .run targetpluginkey (runRequest callid functionName args)
  if error.isSome then return (-1, error)
  acknowledgement .run callid result

/-- `handle_run`. -/
def handleRun (s : Surroundings) (args : List Object) : Except Fault Ending := do
  if args.length ≠ 3 then return .error "Error dispatching run API request. Invalid params size"
  let first ← item args 0
  if first.type ≠ .array then return .error "Error dispatching run API request. meta params has wrong type"
  let info ← first.dataArray
  if info.length ≠ 2 then return .error "Error dispatching run API request. Invalid meta params size"
  let elem0 ← item info 0
  if elem0.type ≠ .str then return .error "Error dispatching run API request. meta elements have wrong type"
  let key ← elem0.dataString
  if key.str.isNone ∨ key.length + 1 ≠ pluginkeyStringSize then
    return .error "Error dispatching run API request. Invalid meta params size"
  let targetpluginkey := (← key.cstring).map toUpperByte
  let elem1 ← item info 1
  if elem1.type ≠ .nil then return .error "Error dispatching run API request. meta elements have wrong type"
  let second ← item args 1
  if second.type ≠ .str then return .error "Error dispatching run API request. function string has wrong type"
  let functionName ← second.dataString
  let third ← item args 2
  if third.type ≠ .array then return .error "Error dispatching run API request. function string has wrong type"
  let runargs ← third.dataArray
  let r ← apiRun s targetpluginkey functionName s.callid runargs
  return finish (.array [.uinteger s.callid]) "Error executing run API request." r

/-- `api_result`. -/
def apiResult (s : Surroundings) (targetpluginkey : Bytes) (callid : UInt64) (args : List Object) :
    Except Fault (Int × Option ApiError) := do
  let (result, error) :=
    s.sendRequest .result targetpluginkey [.array [.uinteger callid], copyObject (.array args)]
  if error.isSome then return (-1, error)
  acknowledgement .result callid result

/-- `handle_result`. -/
def handleResult (s : Surroundings) (args : List Object) : Except Fault Ending := do
  if args.length ≠ 2 then return .error "Error dispatching result API request. Invalid params size"
  let first ← item args 0
  if first.type ≠ .array then return .error "Error dispatching result API request. meta params has wrong type"
  let info ← first.dataArray
  if info.length ≠ 1 then return .error "Error dispatching result API request. Invalid meta params size"
  let elem0 ← item info 0
  if elem0.type ≠ .uint then return .error "Error dispatching result API request. meta elements have wrong type"
  let callid ← elem0.dataUinteger
  let second ← item args 1
  if second.type ≠ .array then
    return .error "Error dispatching result API request. function string has wrong type"
  let resultargs ← second.dataArray
  match s.callids callid with
  | none => return .error "Failed to find target's key associated with given callid."
  | some targetpluginkey =>
      let r ← apiResult s targetpluginkey callid resultargs
      return finish (.array [.uinteger callid]) "Error executing result API request." r

/-! ## §5 The handlers of events -/

/-- `api_broadcast`: `broadcast_event` looks the name up in the table of every connection. -/
def apiBroadcast (event : Str) (_args : List Object) : Except Fault (Int × Option ApiError) := do
  let _ ← event.cstring
  return (0, none)

/-- `handle_broadcast`. -/
def handleBroadcast (args : List Object) : Except Fault Ending := do
  if args.length ≠ 2 then return .error "Error dispatching broadcast API request. Invalid params size"
  let first ← item args 0
  if first.type ≠ .str then return .error "Error dispatching broadcast API request. event name has wrong type"
  let eventname ← first.dataString
  let second ← item args 1
  if second.type ≠ .array then
    return .error "Error dispatching broadcast API request. event args has wrong type"
  let eventargs ← second.dataArray
  let r ← apiBroadcast eventname eventargs
  return finish (.array []) "Error executing broadcast API request." r

/-- `connection_subscribe`, which ends the process on a closed connection. -/
def apiSubscribe (s : Surroundings) (event : Str) : Except Fault Ending := do
  let _ ← copyEvent event
  if s.closed then return .aborted
  return finish (.array []) "Error executing broadcast API request." (0, none)

/-- `connection_unsubscribe`: the tables are asked for the string that `event_strings` has for the name. -/
def apiUnsubscribe (s : Surroundings) (event : Str) : Except Fault Ending := do
  let e ← copyEvent event
  if s.closed then return .aborted
  if !s.eventStrings.contains e then throw .nullPointer
  return finish (.array []) "Error executing broadcast API request." (0, none)

/-- `handle_subscribe` and `handle_unsubscribe`, with what they do to the event. -/
def handleEvent (operation : Str → Except Fault Ending) (args : List Object) : Except Fault Ending := do
  if args.length ≠ 1 then return .error "Error dispatching broadcast API request. Invalid params size"
  let first ← item args 0
  if first.type ≠ .str then return .error "Error dispatching broadcast API request. event name has wrong type"
  let eventname ← first.dataString
  operation eventname

/-- `handle_subscribe`. -/
def handleSubscribe (s : Surroundings) (args : List Object) : Except Fault Ending :=
  handleEvent (apiSubscribe s) args

/-- `handle_unsubscribe`. -/
def handleUnsubscribe (s : Surroundings) (args : List Object) : Except Fault Ending :=
  handleEvent (apiUnsubscribe s) args

/-! ## §6 When every access is good -/

/-- The call of a handler. -/
def call (s : Surroundings) (args : List Object) : Handler → Except Fault Ending
  | .missingMethod => .ok (.failed msgpackRpcHandleMissingMethod.error)
  | .invalidArguments => .ok (.failed msgpackRpcHandleInvalidArguments.error)
  | .register => handleRegister s args
  | .run => handleRun s args
  | .result => handleResult s args
  | .broadcast => handleBroadcast args
  | .subscribe => handleSubscribe s args
  | .unsubscribe => handleUnsubscribe s args

/-- Every access was good, and the handler ended with success or an error. -/
def Safe (r : Except Fault Ending) : Prop := ∃ ending, r = .ok ending ∧ ending.Settled

/-- What `db_function_add` needs of a function: strings where it reads strings, and an array where it reads the
arguments, if it gets that far. -/
def FunctionCareful (db : Database) (pluginkey : Bytes) : Object → Prop
  | .array (.string name :: .string desc :: args :: _) =>
      name.length < funcMinLenName ∨ name.length > funcMaxLenName ∨
        ∃ n, name.str = some n ∧
          (IsSet db (functionsKey pluginkey) → desc.str ≠ none → IsHash db (metaKey pluginkey (cstr n)) →
            args.type = .array)
  | .array (.string name :: _ :: _ :: _) => name.length < funcMinLenName ∨ name.length > funcMaxLenName
  | .array (_ :: _ :: _ :: _) => False
  | _ => True

/-- What `connection_send_request` returned can be read as an array, if it is read. -/
def Readable (r : Object × Option ApiError) : Prop := r.2 = none → r.1.type = .array

/-- What a handler needs of its arguments. -/
def Careful (s : Surroundings) (args : List Object) : Handler → Prop
  | .register =>
      ∀ name desc author license functions,
        args = [.array [.string name, .string desc, .string author, .string license], .array functions] →
        name.str ≠ none → desc.str ≠ none → author.str ≠ none → license.str ≠ none →
        minLenName ≤ name.length → IsHash s.db s.pluginkey →
        ∀ f ∈ functions, FunctionCareful s.db s.pluginkey f
  | .run =>
      ∀ key length name runargs,
        args = [.array [.string ⟨some key, length⟩, .nil], .string name, .array runargs] →
        length + 1 = pluginkeyStringSize → dbPluginVerify s.db ((cstr key).map toUpperByte) = 0 →
        name.str ≠ none ∧
          (dbFunctionVerify s.db ((cstr key).map toUpperByte) name runargs = .ok 0 →
            Readable (s.sendRequest .run ((cstr key).map toUpperByte) (runRequest s.callid name runargs)))
  | .result =>
      ∀ callid resultargs key, args = [.array [.uinteger callid], .array resultargs] →
        s.callids callid = some key →
        Readable (s.sendRequest .result key [.array [.uinteger callid], copyObject (.array resultargs)])
  | .broadcast => ∀ event eventargs, args = [.string event, .array eventargs] → event.str ≠ none
  | .subscribe => ∀ event, args = [.string event] → event.str ≠ none ∧ s.closed = false
  | .unsubscribe =>
      ∀ event, args = [.string event] → event.str ≠ none ∧ s.closed = false ∧ eventName event ∈ s.eventStrings
  | _ => True

theorem safe_ok {ending : Ending} (h : ending.Settled) : Safe (.ok ending) := ⟨ending, rfl, h⟩

theorem safe_error (msg : String) : Safe (.ok (.error msg)) := safe_ok rfl

theorem finish_settled (ret : Object) (msg : String) (r : Int × Option ApiError) :
    (finish ret msg r).Settled := by
  unfold finish
  split
  · exact rfl
  · trivial

/-- The end of a handler is safe when the `api_` function gets through. -/
theorem safe_finish_iff (ret : Object) (msg : String) (r : Except Fault (Int × Option ApiError)) :
    Safe (r >>= fun r => pure (finish ret msg r)) ↔ r.isOk = true := by
  constructor
  · rintro ⟨ending, h, -⟩
    cases r with
    | error f => cases h
    | ok r => rfl
  · intro h
    cases r with
    | error f => cases h
    | ok r => exact safe_ok (finish_settled ret msg r)

/-! ### The acknowledgement -/

/-- What is read as an array must be one; then the answers are those of `acknowledged`. -/
theorem acknowledgement_array (kind : CallKind) (callid : UInt64) (items : List Object) :
    acknowledgement kind callid (.array items) =
      .ok (if (acknowledged kind callid items none).error.isNone then 0 else -1,
        (acknowledged kind callid items none).error) := by
  rcases items with _ | ⟨first, _ | ⟨second, rest⟩⟩
  · rfl
  · cases first with
    | uinteger u =>
        by_cases hu : callid = u
        · simp [acknowledgement, acknowledged, Object.type, hu, Reply.ok]
          rfl
        · simp [acknowledgement, acknowledged, Object.type, hu, Reply.failed]
          rfl
    | _ => rfl
  · simp [acknowledgement, acknowledged, Reply.failed]
    rfl

theorem acknowledgement_isOk_iff (kind : CallKind) (callid : UInt64) (result : Object) :
    (acknowledgement kind callid result).isOk = true ↔ result.type = .array := by
  cases result with
  | array items =>
      rw [acknowledgement_array]
      exact ⟨fun _ => rfl, fun _ => rfl⟩
  | _ => exact ⟨fun h => (nomatch h), fun h => (nomatch h)⟩

/-- What is asked of `api_run` and `api_result`: 0 for the one good acknowledgement, and -1 with a validation
error for every other. -/
def Handled (callid : UInt64) (result : Object) (r : Except Fault (Int × Option ApiError)) : Prop :=
  ∃ rc error, r = .ok (rc, error) ∧ (rc = 0 ↔ result = .array [.uinteger callid]) ∧
    (rc ≠ 0 → rc = -1 ∧ ∃ e, error = some e ∧ e.type = .validation)

theorem acknowledged_none_iff (kind : CallKind) (callid : UInt64) (items : List Object) :
    (acknowledged kind callid items none).error = none ↔ items = [.uinteger callid] := by
  rcases items with _ | ⟨first, _ | ⟨second, rest⟩⟩
  · simp [acknowledged, Reply.failed]
  · cases first with
    | uinteger u =>
        by_cases hu : callid = u
        · simp [acknowledged, hu, Reply.ok]
        · simp [acknowledged, hu, Reply.failed, Ne.symm hu]
    | _ => simp [acknowledged, Reply.failed]
  · simp [acknowledged, Reply.failed]

theorem acknowledged_validation {kind : CallKind} {callid : UInt64} {items : List Object} {e : ApiError}
    (h : (acknowledged kind callid items none).error = some e) : e.type = .validation := by
  unfold acknowledged at h
  dsimp only at h
  split at h
  · split at h
    · cases h
    · cases h
      rfl
  · cases h
    rfl
  · cases h
    rfl

theorem handled_acknowledgement_iff (kind : CallKind) (callid : UInt64) (result : Object) :
    Handled callid result (acknowledgement kind callid result) ↔ result.type = .array := by
  constructor
  · rintro ⟨rc, error, h, -, -⟩
    exact (acknowledgement_isOk_iff kind callid result).mp (by rw [h]; rfl)
  · intro harray
    cases result with
    | array items =>
        refine ⟨_, _, acknowledgement_array kind callid items, ?_, ?_⟩
        · rw [Object.array.injEq, ← acknowledged_none_iff kind]
          cases (acknowledged kind callid items none).error with
          | none => simp
          | some e => simp
        · cases herror : (acknowledged kind callid items none).error with
          | none => simp
          | some e => exact fun _ => ⟨rfl, e, rfl, acknowledged_validation herror⟩
    | _ => cases harray

/-- **An acknowledgement is handled when it is an array**: whatever object a peer has put into the result
slot, `api_run` and `api_result` answer as they should if and only if its tag is that of an array. -/
theorem acknowledgement_handled_iff {s : Surroundings} {key : Bytes} {name : Str} {callid : UInt64}
    {args : List Object} {result : Object} (hplugin : dbPluginVerify s.db key = 0)
    (hfunction : dbFunctionVerify s.db key name args = .ok 0)
    (hrun : s.sendRequest .run key (runRequest callid name args) = (result, none))
    (hresult : s.sendRequest .result key [.array [.uinteger callid], copyObject (.array args)] =
      (result, none)) :
    (Handled callid result (apiRun s key name callid args) ↔ result.type = .array) ∧
      (Handled callid result (apiResult s key callid args) ↔ result.type = .array) := by
  have hrun : apiRun s key name callid args = acknowledgement .run callid result := by
    simp [apiRun, hplugin, hfunction, hrun]
  have hresult : apiResult s key callid args = acknowledgement .result callid result := by
    simp [apiResult, hresult]
  rw [hrun, hresult]
  exact ⟨handled_acknowledgement_iff .run callid result, handled_acknowledgement_iff .result callid result⟩

/-- A plugin with the function `f`, which takes no arguments. -/
def Sample.database : Database := fun key =>
  if key = Sample.registrant then some (.hash [])
  else if key = functionsKey Sample.registrant then some (.set [[102]])
  else none

/-- The handlers of a plugin that nobody has called, with a peer that answers with `result`. -/
def Sample.surroundings (result : Object) : Surroundings where
  db := Sample.database
  pluginkey := Sample.registrant
  closed := false
  eventStrings := []
  callids := fun _ => some Sample.registrant
  callid := 7
  sendRequest := fun _ _ _ => (result, none)

theorem acknowledgement_handled_sample :
    Handled 7 (.array [.uinteger 7])
      (apiRun (Sample.surroundings (.array [.uinteger 7])) Sample.registrant ⟨some [102], 1⟩ 7 []) ∧
      Handled 7 (.array [.uinteger 7])
      (apiResult (Sample.surroundings (.array [.uinteger 7])) Sample.registrant 7 []) := by
  have h : (Handled 7 (.array [.uinteger 7])
        (apiRun (Sample.surroundings (.array [.uinteger 7])) Sample.registrant ⟨some [102], 1⟩ 7 []) ↔
          (Object.array [.uinteger 7]).type = .array) ∧
      (Handled 7 (.array [.uinteger 7])
        (apiResult (Sample.surroundings (.array [.uinteger 7])) Sample.registrant 7 []) ↔
          (Object.array [.uinteger 7]).type = .array) :=
    acknowledgement_handled_iff (by decide) (by rfl) rfl rfl
  exact ⟨h.1.mpr rfl, h.2.mpr rfl⟩

/-- The string `a` in the result slot is read as an array of one element, whose address is that of the string. -/
theorem string_acknowledgement_misread :
    msgpackRpcToObject (.str [97]) = some (.string ⟨some [97], 1⟩) ∧
      ¬ Handled 7 (.string ⟨some [97], 1⟩)
        (apiRun (Sample.surroundings (.string ⟨some [97], 1⟩)) Sample.registrant ⟨some [102], 1⟩ 7 []) ∧
      ¬ Handled 7 (.string ⟨some [97], 1⟩)
        (apiResult (Sample.surroundings (.string ⟨some [97], 1⟩)) Sample.registrant 7 []) := by
  refine ⟨rfl, ?_, ?_⟩
  · rintro ⟨rc, error, h, -⟩
    cases h
  · rintro ⟨rc, error, h, -⟩
    cases h

/-! ### `db_function_add` -/

/-- What is read under its own tag is what `SploneBox.Database` reads. -/
theorem dbFunctionAdd_eq {db : Database} {pluginkey : Bytes} {func : List Object} {r : Int × Database}
    (h : dbFunctionAdd db pluginkey func = .ok r) : SploneBox.dbFunctionAdd db pluginkey func = .ok r := by
  rcases func with _ | ⟨name, _ | ⟨desc, _ | ⟨args, rest⟩⟩⟩
  · exact h
  · cases name <;> exact h
  · cases name <;> cases desc <;> exact h
  · by_cases hname : name.type = .str
    · obtain ⟨name, rfl⟩ := Object.eq_string hname
      by_cases hlen : name.length < funcMinLenName ∨ name.length > funcMaxLenName
      · simp [dbFunctionAdd, hlen] at h
        cases desc <;> simp [SploneBox.dbFunctionAdd, hlen, ← h] <;> rfl
      · by_cases hdesc : desc.type = .str
        · obtain ⟨desc, rfl⟩ := Object.eq_string hdesc
          simpa [dbFunctionAdd, SploneBox.dbFunctionAdd, hlen] using h
        · simp [dbFunctionAdd, hlen, dataString_wrong hdesc] at h
          cases h
    · simp [dbFunctionAdd, dataString_wrong hname] at h
      cases h

/-- The keys of the functions of a plugin hold values of the same kinds. -/
structure SameKinds (pluginkey : Bytes) (db db' : Database) : Prop where
  set : IsSet db' (functionsKey pluginkey) ↔ IsSet db (functionsKey pluginkey)
  hash : ∀ n, IsHash db' (metaKey pluginkey n) ↔ IsHash db (metaKey pluginkey n)

theorem SameKinds.trans {pluginkey : Bytes} {db db' db'' : Database} (h : SameKinds pluginkey db db')
    (h' : SameKinds pluginkey db' db'') : SameKinds pluginkey db db'' :=
  ⟨h'.set.trans h.set, fun n => (h'.hash n).trans (h.hash n)⟩

/-- A write to another key. -/
theorem sameKinds_of_eq {pluginkey : Bytes} {db db' : Database}
    (hset : db' (functionsKey pluginkey) = db (functionsKey pluginkey))
    (hhash : ∀ n, db' (metaKey pluginkey n) = db (metaKey pluginkey n)) : SameKinds pluginkey db db' :=
  ⟨⟨isSet_congr hset.symm, isSet_congr hset⟩, fun n => ⟨isHash_congr (hhash n).symm, isHash_congr (hhash n)⟩⟩

theorem sameKinds_sadd (db : Database) (pluginkey member : Bytes) :
    SameKinds pluginkey db (sadd db (functionsKey pluginkey) member).2 := by
  by_cases hset : IsSet db (functionsKey pluginkey)
  · refine ⟨iff_of_true (sadd_spec hset member).2.1 hset, fun n => ?_⟩
    have hne : (sadd db (functionsKey pluginkey) member).2 (metaKey pluginkey n) = db (metaKey pluginkey n) :=
      sadd_ne (functionsKey_ne_metaKey pluginkey pluginkey n).symm
    exact ⟨isHash_congr hne.symm, isHash_congr hne⟩
  · rw [sadd_other_kind hset]
    exact sameKinds_of_eq rfl fun _ => rfl

theorem sameKinds_hset (db : Database) (pluginkey name field value : Bytes) :
    SameKinds pluginkey db (hset db (metaKey pluginkey name) field value).2 := by
  refine ⟨?_, fun n => ?_⟩
  · have hne : (hset db (metaKey pluginkey name) field value).2 (functionsKey pluginkey) =
        db (functionsKey pluginkey) :=
      hset_ne (functionsKey_ne_metaKey pluginkey pluginkey name)
    exact ⟨isSet_congr hne.symm, isSet_congr hne⟩
  · by_cases hn : metaKey pluginkey n = metaKey pluginkey name
    · rw [hn]
      by_cases hhash : IsHash db (metaKey pluginkey name)
      · exact iff_of_true (hset_spec hhash field value).2 hhash
      · rw [hset_other_kind hhash]
    · have hne :
          (hset db (metaKey pluginkey name) field value).2 (metaKey pluginkey n) = db (metaKey pluginkey n) :=
        hset_ne hn
      exact ⟨isHash_congr hne.symm, isHash_congr hne⟩

/-- What changes the argument lists only keeps the kinds. -/
theorem sameKinds_args {pluginkey name : Bytes} {db db' : Database}
    (h : ∀ key, key ≠ argsKey pluginkey name → db' key = db key) : SameKinds pluginkey db db' :=
  sameKinds_of_eq (h _ (functionsKey_ne_argsKey pluginkey pluginkey name))
    fun n => h _ (argsKey_ne_metaKey pluginkey pluginkey name n).symm

/-- The loop over the arguments gets through, and writes to their list. -/
theorem addArgsLoop_ok (pluginkey : Bytes) {n : Bytes} {name : Str} (hname : name.str = some n)
    (args : List Object) :
    ∀ db : Database, ∃ rc db', addArgsLoop pluginkey name db args = .ok (rc, db') ∧
      ∀ key, key ≠ argsKey pluginkey (cstr n) → db' key = db key := by
  induction args with
  | nil => exact fun db => ⟨0, db, rfl, fun _ _ => rfl⟩
  | cons arg args ih =>
      intro db
      unfold addArgsLoop dbFunctionAddArgs
      rw [cstring_of_some hname, ok_bind]
      generalize hpush : lpush db (argsKey pluginkey (cstr n)) (decimal arg.type.code) = x
      have hne : ∀ key, key ≠ argsKey pluginkey (cstr n) → x.2 key = db key := by
        intro key hkey
        rw [← hpush]
        exact lpush_ne hkey
      obtain ⟨reply, db₁⟩ := x
      cases reply with
      | integer i =>
          obtain ⟨rc, db', hloop, hkeys⟩ := ih db₁
          exact ⟨rc, db', hloop, fun key hkey => (hkeys key hkey).trans (hne key hkey)⟩
      | _ => exact ⟨-1, db₁, rfl, hne⟩

/-- The end of `db_function_add` gets through when the arguments are an array. -/
theorem addSignature_ok (pluginkey : Bytes) {n : Bytes} {name : Str} (hname : name.str = some n) (args : Object)
    (db : Database) :
    ((addSignature db pluginkey name args).isOk = true ↔ args.type = .array) ∧
      ∀ rc db', addSignature db pluginkey name args = .ok (rc, db') → SameKinds pluginkey db db' := by
  unfold addSignature dbFunctionFlushArgs
  rw [cstring_of_some hname, ok_bind]
  generalize htrim : ltrim db (argsKey pluginkey (cstr n)) 1 0 = x
  have hne : ∀ key, key ≠ argsKey pluginkey (cstr n) → x.2 key = db key := by
    intro key hkey
    rw [← htrim]
    exact ltrim_ne hkey
  obtain ⟨reply, db₁⟩ := x
  cases args with
  | array args =>
      obtain ⟨rc, db₂, hloop, hkeys⟩ := addArgsLoop_ok pluginkey hname args db₁
      have hkinds : SameKinds pluginkey db db₂ := sameKinds_args fun key hkey =>
          (hkeys key hkey).trans (hne key hkey)
      cases reply <;> simp only [ok_bind, hloop, pure, Except.pure]
      all_goals
        refine ⟨⟨fun _ => rfl, fun _ => rfl⟩, fun rc' db' h => ?_⟩
        cases h
        exact hkinds
  | _ => cases reply <;> exact ⟨⟨fun h => (nomatch h), fun h => (nomatch h)⟩, fun _ _ h => (nomatch h)⟩

/-- `db_function_add` from the first write on gets through when what it takes for the arguments is an array,
or when a write before it fails. -/
theorem addFunction_ok (pluginkey : Bytes) {n : Bytes} {name : Str} (hname : name.str = some n) (desc : Str)
    (args : Object) (db : Database) :
    ((addFunction db pluginkey name desc args).isOk = true ↔
      (IsSet db (functionsKey pluginkey) → desc.str ≠ none → IsHash db (metaKey pluginkey (cstr n)) →
        args.type = .array)) ∧
      ∀ rc db', addFunction db pluginkey name desc args = .ok (rc, db') → SameKinds pluginkey db db' := by
  have hadd := sameKinds_sadd db pluginkey (cstr n)
  -- The process goes on to the arguments only where both tables take their entries.
  by_cases hkind : IsSet db (functionsKey pluginkey)
  · cases hdesc : desc.str with
    | none =>
        rw [addFunction_null_desc hname hdesc]
        refine ⟨⟨fun _ _ h => absurd rfl h, fun _ => rfl⟩, fun rc db' h => ?_⟩
        cases h
        exact hadd
    | some d =>
        unfold addFunction
        rw [dbFunctionAddName_spec hkind hname]
        generalize (sadd db (functionsKey pluginkey) (cstr n)).2 = db₁ at hadd
        by_cases hhash : IsHash db (metaKey pluginkey (cstr n))
        · have hhash₁ : IsHash db₁ (metaKey pluginkey (cstr n)) := (hadd.hash _).mpr hhash
          have hput := sameKinds_hset db₁ pluginkey (cstr n) (ascii ['d', 'e', 's', 'c']) (cstr d)
          obtain ⟨hok, hkinds⟩ := addSignature_ok pluginkey hname args
            (hset db₁ (metaKey pluginkey (cstr n)) (ascii ['d', 'e', 's', 'c']) (cstr d)).2
          simp only [ok_bind, dbFunctionAddMeta_spec hhash₁ hname hdesc]
          refine ⟨?_, fun rc db' h => (hadd.trans hput).trans (hkinds rc db' h)⟩
          exact hok.trans ⟨fun h _ _ _ => h, fun h => h hkind (by simp) hhash⟩
        · have hhash₁ : ¬ IsHash db₁ (metaKey pluginkey (cstr n)) := fun h => hhash ((hadd.hash _).mp h)
          have hmeta : dbFunctionAddMeta db₁ pluginkey name desc = (-1, db₁) := by
            unfold dbFunctionAddMeta
            rw [hname, hdesc]
            dsimp only
            rw [hset_other_kind hhash₁]
          simp only [ok_bind, hmeta]
          refine ⟨⟨fun _ _ _ h => absurd h hhash, fun _ => rfl⟩, fun rc db' h => ?_⟩
          cases h
          exact hadd
  -- The key holds another kind: the set refuses the name.
  · have hname' : dbFunctionAddName db pluginkey name = .ok (-1, db) := by
      unfold dbFunctionAddName
      rw [cstring_of_some hname, ok_bind, sadd_other_kind hkind]
      rfl
    unfold addFunction
    rw [hname']
    refine ⟨⟨fun _ h => absurd h hkind, fun _ => rfl⟩, fun rc db' h => ?_⟩
    cases h
    exact sameKinds_of_eq rfl fun _ => rfl

/-- A function without arguments is not looked at. -/
theorem functionCareful_short (db : Database) (pluginkey : Bytes) {func : List Object} (h : func.length ≤ 2) :
    FunctionCareful db pluginkey (.array func) := by
  unfold FunctionCareful
  split
  · next heq =>
      cases heq
      simp at h
  · next heq =>
      cases heq
      simp at h
  · next heq =>
      cases heq
      simp at h
  · trivial

/-- A name that is not a string is read as one. -/
theorem functionCareful_name {db : Database} {pluginkey : Bytes} {name desc args : Object} {rest : List Object}
    (h : name.type ≠ .str) : ¬ FunctionCareful db pluginkey (.array (name :: desc :: args :: rest)) := by
  cases name with
  | string name => exact absurd rfl h
  | _ => exact fun h => h

theorem functionCareful_desc {db : Database} {pluginkey : Bytes} {name : Str} {desc args : Object}
    {rest : List Object} (h : desc.type ≠ .str) :
    FunctionCareful db pluginkey (.array (.string name :: desc :: args :: rest)) ↔
      name.length < funcMinLenName ∨ name.length > funcMaxLenName := by
  cases desc with
  | string desc => exact absurd rfl h
  | _ => exact Iff.rfl

/-- `db_function_add` gets through when the function is as it takes it to be. -/
theorem dbFunctionAdd_ok (pluginkey : Bytes) (func : List Object) (db : Database) :
    ((dbFunctionAdd db pluginkey func).isOk = true ↔ FunctionCareful db pluginkey (.array func)) ∧
      ∀ rc db', dbFunctionAdd db pluginkey func = .ok (rc, db') → SameKinds pluginkey db db' := by
  have hrefused : ∀ rc db', (Except.ok (-1, db) : Except Fault (Int × Database)) = .ok (rc, db') →
      SameKinds pluginkey db db' := by
    intro rc db' h
    cases h
    exact sameKinds_of_eq rfl fun _ => rfl
  -- Fewer than three elements are refused before any is read.
  rcases func with _ | ⟨name, _ | ⟨desc, _ | ⟨args, rest⟩⟩⟩
  · exact ⟨⟨fun _ => functionCareful_short db pluginkey (by simp), fun _ => rfl⟩, hrefused⟩
  · exact ⟨⟨fun _ => functionCareful_short db pluginkey (by simp), fun _ => rfl⟩, hrefused⟩
  · exact ⟨⟨fun _ => functionCareful_short db pluginkey (by simp), fun _ => rfl⟩, hrefused⟩
  by_cases hname : name.type = .str
  · obtain ⟨name, rfl⟩ := Object.eq_string hname
    by_cases hlen : name.length < funcMinLenName ∨ name.length > funcMaxLenName
    · have heq : dbFunctionAdd db pluginkey (.string name :: desc :: args :: rest) = .ok (-1, db) := by
        simp [dbFunctionAdd, hname, hlen]
        rfl
      rw [heq]
      refine ⟨⟨fun _ => ?_, fun _ => rfl⟩, hrefused⟩
      by_cases hdesc : desc.type = .str
      · obtain ⟨desc, rfl⟩ := Object.eq_string hdesc
        exact or_assoc.mp (Or.inl hlen)
      · exact (functionCareful_desc hdesc).mpr hlen
    · by_cases hdesc : desc.type = .str
      · obtain ⟨desc, rfl⟩ := Object.eq_string hdesc
        have heq : dbFunctionAdd db pluginkey (.string name :: .string desc :: args :: rest) =
            addFunction db pluginkey name desc args := by
          simp [dbFunctionAdd, hname, hdesc, hlen]
        rw [heq]
        cases hn : name.str with
        | none =>
            rw [addFunction_null_name hn]
            refine ⟨⟨fun h => (nomatch h), fun h => ?_⟩, fun _ _ h => (nomatch h)⟩
            rcases h with h | h | ⟨n, h, -⟩
            · exact absurd (Or.inl h) hlen
            · exact absurd (Or.inr h) hlen
            · exact nomatch hn.symm.trans h
        | some n =>
            obtain ⟨hok, hkinds⟩ := addFunction_ok pluginkey hn desc args db
            refine ⟨hok.trans ⟨fun h => Or.inr (Or.inr ⟨n, hn, h⟩), fun h => ?_⟩, hkinds⟩
            rcases h with h | h | ⟨n', hn', h⟩
            · exact absurd (Or.inl h) hlen
            · exact absurd (Or.inr h) hlen
            · cases hn.symm.trans hn'
              exact h
      · have heq : dbFunctionAdd db pluginkey (.string name :: desc :: args :: rest) = .error .wrongType := by
          simp [dbFunctionAdd, hname, hlen, dataString_wrong hdesc]
          rfl
        rw [heq]
        exact ⟨⟨fun h => (nomatch h), fun h => absurd ((functionCareful_desc hdesc).mp h) hlen⟩, fun _ _ h =>
          (nomatch h)⟩
  · have heq : dbFunctionAdd db pluginkey (name :: desc :: args :: rest) = .error .wrongType := by
      simp [dbFunctionAdd, dataString_wrong hname]
      rfl
    rw [heq]
    exact ⟨⟨fun h => (nomatch h), fun h => absurd h (functionCareful_name hname)⟩, fun _ _ h => (nomatch h)⟩

/-! ### `api_register` -/

theorem FunctionCareful.congr {pluginkey : Bytes} {db db' : Database} (h : SameKinds pluginkey db db')
    (f : Object) :
    FunctionCareful db' pluginkey f ↔ FunctionCareful db pluginkey f := by
  unfold FunctionCareful
  split
  · simp only [h.set, h.hash]
  · exact Iff.rfl
  · exact Iff.rfl
  · exact Iff.rfl

/-- The loop of `api_register` gets through when every function is as `db_function_add` takes it to be. -/
theorem registerLoop_ok (pluginkey : Bytes) (functions : List Object) :
    ∀ (error : Option ApiError) (db : Database),
      ((registerLoop pluginkey functions error db).isOk = true ↔
        ∀ f ∈ functions, FunctionCareful db pluginkey f) := by
  -- On the functions: what one leaves behind has the same kinds, so the next meets the conditions as before.
  induction functions with
  | nil => exact fun error db => ⟨fun _ f hf => absurd hf List.not_mem_nil, fun _ => rfl⟩
  | cons f functions ih =>
      intro error db
      rw [List.forall_mem_cons]
      by_cases hf : f.type = .array
      · obtain ⟨func, rfl⟩ := Object.eq_array hf
        obtain ⟨hok, hkinds⟩ := dbFunctionAdd_ok pluginkey func db
        unfold registerLoop
        rw [if_neg (not_not_intro hf), dataArray_array, ok_bind, ← hok]
        cases hadd : dbFunctionAdd db pluginkey func with
        | error fault => exact ⟨fun h => (nomatch h), fun h => (nomatch h.1)⟩
        | ok r =>
            obtain ⟨rc, db'⟩ := r
            rw [ok_bind, ih]
            have hall : (∀ g ∈ functions, FunctionCareful db' pluginkey g) ↔
                ∀ g ∈ functions, FunctionCareful db pluginkey g :=
              forall₂_congr fun g _ => FunctionCareful.congr (hkinds rc db' hadd) g
            exact hall.trans ⟨fun h => ⟨rfl, h⟩, fun h => h.2⟩
      · unfold registerLoop
        rw [if_pos hf, ih]
        refine ⟨fun h => ⟨?_, h⟩, fun h => h.2⟩
        cases f with
        | array func => exact absurd rfl hf
        | _ => trivial

theorem functionsKey_ne_self (pluginkey : Bytes) : functionsKey pluginkey ≠ pluginkey := by
  intro h
  have hlen := congrArg List.length h
  simp [functionsKey, ascii] at hlen

theorem metaKey_ne_self (pluginkey n : Bytes) : metaKey pluginkey n ≠ pluginkey := by
  intro h
  have hlen := congrArg List.length h
  simp [metaKey, ascii] at hlen

/-- `db_plugin_add` gets through; it succeeds when the name is long enough and the key free for a hash. -/
theorem dbPluginAdd_ok {name desc author license : Str} (hname : name.str ≠ none) (hdesc : desc.str ≠ none)
    (hauthor : author.str ≠ none) (hlicense : license.str ≠ none) (pluginkey : Bytes) (db : Database) :
    ∃ rc db', dbPluginAdd db pluginkey name desc author license = .ok (rc, db') ∧
      (rc = -1 ↔ ¬ (minLenName ≤ name.length ∧ IsHash db pluginkey)) ∧ SameKinds pluginkey db db' := by
  obtain ⟨n, hn⟩ := Option.ne_none_iff_exists'.mp hname
  obtain ⟨d, hd⟩ := Option.ne_none_iff_exists'.mp hdesc
  obtain ⟨a, ha⟩ := Option.ne_none_iff_exists'.mp hauthor
  obtain ⟨l, hl⟩ := Option.ne_none_iff_exists'.mp hlicense
  have hsame : SameKinds pluginkey db db := sameKinds_of_eq rfl fun _ => rfl
  unfold dbPluginAdd
  by_cases hlen : name.length < minLenName
  · refine ⟨-1, db, by rw [if_pos hlen]; rfl, ?_, hsame⟩
    exact iff_of_true rfl fun h => absurd h.1 (Nat.not_le_of_lt hlen)
  · rw [if_neg hlen, cstring_of_some hn, cstring_of_some hd, cstring_of_some ha, cstring_of_some hl]
    simp only [ok_bind]
    generalize hfields : [(ascii ['n', 'a', 'm', 'e'], cstr n), (ascii ['d', 'e', 's', 'c'], cstr d),
      (ascii ['a', 'u', 't', 'h', 'o', 'r'], cstr a), (ascii ['l', 'i', 'c', 'e', 'n', 's', 'e'], cstr l)] =
      fields
    by_cases hkind : IsHash db pluginkey
    · have hreply := hmset_reply hkind fields
      have hne : ∀ key, key ≠ pluginkey → (hmset db pluginkey fields).2 key = db key :=
        fun key hkey => hmset_ne hkey
      generalize hmset db pluginkey fields = x at hreply hne
      obtain ⟨reply, db'⟩ := x
      cases hreply
      refine ⟨0, db', rfl, iff_of_false (by decide) (not_not_intro ⟨Nat.le_of_not_lt hlen, hkind⟩), ?_⟩
      exact sameKinds_of_eq (hne _ (functionsKey_ne_self pluginkey)) fun n =>
        hne _ (metaKey_ne_self pluginkey n)
    · rw [hmset_other_kind hkind]
      exact ⟨-1, db, rfl, iff_of_true rfl fun h => hkind h.2, hsame⟩

theorem apiRegister_ok {name desc author license : Str} (hname : name.str ≠ none) (hdesc : desc.str ≠ none)
    (hauthor : author.str ≠ none) (hlicense : license.str ≠ none) (pluginkey : Bytes) (functions : List Object)
    (db : Database) :
    (apiRegister db pluginkey name desc author license functions).isOk = true ↔
      (minLenName ≤ name.length → IsHash db pluginkey → ∀ f ∈ functions, FunctionCareful db pluginkey f) := by
  obtain ⟨rc, db', hadd, hrc, hkinds⟩ := dbPluginAdd_ok hname hdesc hauthor hlicense pluginkey db
  unfold apiRegister
  -- Without functions nothing is added, so nothing of them is read.
  by_cases hempty : functions.length = 0
  · rw [if_pos hempty, List.length_eq_zero_iff.mp hempty]
    exact ⟨fun _ _ _ f hf => absurd hf List.not_mem_nil, fun _ => rfl⟩
  · rw [if_neg hempty, hadd, ok_bind]
    dsimp only
    by_cases hfail : rc = -1
    · rw [if_pos hfail]
      exact ⟨fun _ h₁ h₂ => absurd ⟨h₁, h₂⟩ (hrc.mp hfail), fun _ => rfl⟩
    · rw [if_neg hfail]
      have hgood := not_not.mp (mt hrc.mpr hfail)
      have hloop := registerLoop_ok pluginkey functions none db'
      have hall : (∀ f ∈ functions, FunctionCareful db' pluginkey f) ↔
          ∀ f ∈ functions, FunctionCareful db pluginkey f :=
        forall₂_congr fun f _ => FunctionCareful.congr hkinds f
      rw [hall] at hloop
      refine Iff.trans ?_ (hloop.trans ⟨fun h _ _ => h, fun h => h hgood.1 hgood.2⟩)
      cases registerLoop pluginkey functions none db' with
      | error f => exact Iff.rfl
      | ok r =>
          rw [ok_bind]
          split
          · exact ⟨fun _ => rfl, fun _ => rfl⟩
          · exact ⟨fun _ => rfl, fun _ => rfl⟩

/-! ### `api_run` and `api_result` -/

/-- Any name but `NULL` can be verified. -/
theorem dbFunctionVerify_ok (db : Database) (pluginkey : Bytes) {name : Str} (hname : name.str ≠ none)
    (args : List Object) :
    dbFunctionVerify db pluginkey name args = .ok 0 ∨ dbFunctionVerify db pluginkey name args = .ok (-1) := by
  obtain ⟨n, hn⟩ := Option.ne_none_iff_exists'.mp hname
  -- The kind under the key decides: a list is compared, all else is counted as 0 or refused.
  have hcheck : dbFunctionTypecheck db pluginkey name args = .ok 0 ∨
      dbFunctionTypecheck db pluginkey name args = .ok (-1) := by
    unfold dbFunctionTypecheck dbFunctionGetArgc llen lrange
    rw [cstring_of_some hn, ok_bind]
    cases hdb : db (argsKey pluginkey (cstr n)) with
    | none =>
        simp only [pure, Except.pure, ok_bind, hdb]
        split
        · exact Or.inr rfl
        · exact Or.inl rfl
    | some v =>
        cases v with
        | list items =>
            simp only [pure, Except.pure, ok_bind, hdb]
            split
            · exact Or.inr rfl
            · next hlen =>
                have hle : (range items 0 (asInt items.length)).length ≤ items.length := by
                  rw [range_checked, List.length_take]
                  exact Nat.min_le_right _ _
                have hargs : items.length = args.length := by omega
                exact typecheckLoop_total _ le_rfl (by omega)
        | _ => exact Or.inr rfl
  have hexists : ∃ b, dbFunctionExists db pluginkey name = .ok b := by
    unfold dbFunctionExists
    rw [cstring_of_some hn, ok_bind]
    split
    · exact ⟨_, rfl⟩
    · exact ⟨_, rfl⟩
  obtain ⟨b, hb⟩ := hexists
  unfold dbFunctionVerify
  rw [hb, ok_bind]
  cases b with
  | false => exact Or.inr rfl
  | true =>
      rcases hcheck with h | h
      · rw [h]
        exact Or.inl rfl
      · rw [h]
        exact Or.inr rfl

theorem dbFunctionVerify_null (db : Database) (pluginkey : Bytes) {name : Str} (hname : name.str = none)
    (args : List Object) : dbFunctionVerify db pluginkey name args = .error .nullPointer := by
  unfold dbFunctionVerify dbFunctionExists Str.cstring
  rw [hname]
  rfl

theorem dbPluginVerify_cases (db : Database) (pluginkey : Bytes) :
    dbPluginVerify db pluginkey = 0 ∨ dbPluginVerify db pluginkey = -1 := by
  unfold dbPluginVerify keyExists
  dsimp only
  split
  · exact Or.inl rfl
  · exact Or.inr rfl

/-- What follows `connection_send_request` gets through when its answer can be read. -/
theorem acknowledgement_ok (kind : CallKind) (callid : UInt64) (result : Object) (error : Option ApiError) :
    (if error.isSome = true then (pure (-1, error) : Except Fault (Int × Option ApiError))
      else acknowledgement kind callid result).isOk = true ↔ Readable (result, error) := by
  cases error with
  | some e => exact ⟨fun _ h => (nomatch h), fun _ => rfl⟩
  | none => exact (acknowledgement_isOk_iff kind callid result).trans ⟨fun h _ => h, fun h => h rfl⟩

theorem apiRun_ok (s : Surroundings) (key : Bytes) (name : Str) (callid : UInt64) (args : List Object) :
    (apiRun s key name callid args).isOk = true ↔
      (dbPluginVerify s.db key = 0 → name.str ≠ none ∧
        (dbFunctionVerify s.db key name args = .ok 0 →
          Readable (s.sendRequest .run key (runRequest callid name args)))) := by
  unfold apiRun
  rcases dbPluginVerify_cases s.db key with hplugin | hplugin
  · rw [hplugin, if_neg (by decide)]
    by_cases hname : name.str = none
    · rw [dbFunctionVerify_null s.db key hname]
      exact ⟨fun h => (nomatch h), fun h => absurd hname (h rfl).1⟩
    · rcases dbFunctionVerify_ok s.db key hname args with hverify | hverify
      · rw [hverify, ok_bind, if_neg (by decide)]
        generalize s.sendRequest .run key (runRequest callid name args) = x
        obtain ⟨result, error⟩ := x
        exact (acknowledgement_ok .run callid result error).trans ⟨fun h _ => ⟨hname, fun _ => h⟩, fun h =>
          (h rfl).2 rfl⟩
      · rw [hverify]
        exact ⟨fun _ _ => ⟨hname, fun h => absurd h (by decide)⟩, fun _ => rfl⟩
  · rw [hplugin, if_pos rfl]
    exact ⟨fun _ h => absurd h (by decide), fun _ => rfl⟩

theorem apiResult_ok (s : Surroundings) (key : Bytes) (callid : UInt64) (args : List Object) :
    (apiResult s key callid args).isOk = true ↔
      Readable (s.sendRequest .result key [.array [.uinteger callid], copyObject (.array args)]) := by
  unfold apiResult
  generalize s.sendRequest .result key [.array [.uinteger callid], copyObject (.array args)] = x
  obtain ⟨result, error⟩ := x
  exact acknowledgement_ok .result callid result error

/-! ### The handlers -/

/-- `handle_run` either has arguments of the one good shape, or refuses them with the error of
`SploneBox.handleRun`. -/
theorem handleRun_cases (args : List Object) :
    (∃ key length name runargs, length + 1 = pluginkeyStringSize ∧
      args = [.array [.string ⟨some key, length⟩, .nil], .string name, .array runargs]) ∨
    ∃ msg, (∀ s, handleRun s args = .ok (.error msg)) ∧ ∀ env, SploneBox.handleRun env args =
    .reply (.failed msg) := by
  -- On the shape, in the order in which the handler tests it.
  rcases args with _ | ⟨first, _ | ⟨second, _ | ⟨third, _ | ⟨fourth, rest⟩⟩⟩⟩
  · exact Or.inr ⟨_, fun _ => rfl, fun _ => rfl⟩
  · exact Or.inr ⟨_, fun _ => rfl, fun _ => by simp [SploneBox.handleRun]⟩
  · exact Or.inr ⟨_, fun _ => rfl, fun _ => by simp [SploneBox.handleRun]⟩
  · cases first with
    | array info =>
        rcases info with _ | ⟨key, _ | ⟨last, _ | ⟨extra, rest⟩⟩⟩
        · exact Or.inr ⟨_, fun _ => rfl, fun _ => rfl⟩
        · exact Or.inr ⟨_, fun _ => rfl, fun _ => rfl⟩
        · cases key with
          | string key =>
              obtain ⟨_ | key, length⟩ := key
              · exact Or.inr ⟨_, fun _ => rfl, fun _ => rfl⟩
              by_cases hlen : length = 16
              · subst hlen
                cases last with
                | nil =>
                    cases second with
                    | string name =>
                        cases third with
                        | array runargs => exact Or.inl ⟨key, 16, name, runargs, rfl, rfl⟩
                        | _ => exact Or.inr ⟨_, fun _ => rfl, fun _ => rfl⟩
                    | _ => exact Or.inr ⟨_, fun _ => rfl, fun _ => rfl⟩
                | _ => exact Or.inr ⟨_, fun _ => rfl, fun _ => rfl⟩
              · refine Or.inr ⟨"Error dispatching run API request. Invalid meta params size", fun s =>
                  ?_, fun env => ?_⟩
                · simp -implicitDefEqProofs [handleRun, Object.type, pluginkeyStringSize, hlen]
                  rfl
                · simp [SploneBox.handleRun, hlen]
          | _ => exact Or.inr ⟨_, fun _ => rfl, fun _ => rfl⟩
        · exact Or.inr ⟨"Error dispatching run API request. Invalid meta params size",
            fun _ => by simp -implicitDefEqProofs [handleRun, Object.type]; rfl, fun _ => by
              simp [SploneBox.handleRun]⟩
    | _ => exact Or.inr ⟨_, fun _ => rfl, fun _ => rfl⟩
  · exact Or.inr ⟨"Error dispatching run API request. Invalid params size",
      fun _ => by simp -implicitDefEqProofs [handleRun]; rfl, fun _ => by simp [SploneBox.handleRun]⟩

/-- On arguments of the good shape `handle_run` is `api_run`. -/
theorem handleRun_shaped (s : Surroundings) {key : Bytes} {length : Nat}
    (hlen : length + 1 = pluginkeyStringSize) (name : Str) (runargs : List Object) :
    handleRun s [.array [.string ⟨some key, length⟩, .nil], .string name, .array runargs] =
      apiRun s ((cstr key).map toUpperByte) name s.callid runargs >>= fun r =>
        pure (finish (.array [.uinteger s.callid]) "Error executing run API request." r) := by
  obtain rfl : length = 16 := Nat.succ.inj hlen
  rfl

theorem handleRun_safe_iff (s : Surroundings) (args : List Object) :
    Safe (handleRun s args) ↔ Careful s args .run := by
  by_cases hshape : ∃ key length name runargs, length + 1 = pluginkeyStringSize ∧
      args = [.array [.string ⟨some key, length⟩, .nil], .string name, .array runargs]
  · obtain ⟨key, length, name, runargs, hlen, rfl⟩ := hshape
    rw [handleRun_shaped s hlen, safe_finish_iff, apiRun_ok]
    constructor
    · intro h key' length' name' runargs' heq _ hplugin
      cases heq
      exact h hplugin
    · exact fun h hplugin => h key length name runargs rfl hlen hplugin
  · obtain ⟨msg, hrefused, -⟩ := (handleRun_cases args).resolve_left hshape
    rw [hrefused]
    refine iff_of_true (safe_error msg) fun key length name runargs heq hlen => ?_
    exact absurd ⟨key, length, name, runargs, hlen, heq⟩ hshape

/-- `handle_register` either has arguments of the one good shape, or refuses them with the error of
`SploneBox.handleRegister`. -/
theorem handleRegister_cases (args : List Object) :
    (∃ name desc author license functions,
      (name.str ≠ none ∧ desc.str ≠ none ∧ author.str ≠ none ∧ license.str ≠ none) ∧
      args = [.array [.string name, .string desc, .string author, .string license], .array functions]) ∨
    ∃ msg, (∀ s, handleRegister s args = .ok (.error msg)) ∧
      SploneBox.handleRegister args = .reply (.failed msg) := by
  rcases args with _ | ⟨first, _ | ⟨second, _ | ⟨third, rest⟩⟩⟩
  · exact Or.inr ⟨_, fun _ => rfl, rfl⟩
  · exact Or.inr ⟨_, fun _ => rfl, by simp [SploneBox.handleRegister]⟩
  · cases first with
    | array info =>
        -- The strings are read once there are four of them, and only then compared with null.
        by_cases hfour : info.length = 4
        · obtain ⟨e₀, e₁, e₂, e₃, rfl⟩ : ∃ e₀ e₁ e₂ e₃, info = [e₀, e₁, e₂, e₃] := by
            rcases info with _ | ⟨e₀, _ | ⟨e₁, _ | ⟨e₂, _ | ⟨e₃, _ | ⟨e₄, rest⟩⟩⟩⟩⟩
            all_goals first | exact ⟨e₀, e₁, e₂, e₃, rfl⟩ | simp at hfour
          by_cases hstr : e₀.type = .str ∧ e₁.type = .str ∧ e₂.type = .str ∧ e₃.type = .str
          · obtain ⟨h₀, h₁, h₂, h₃⟩ := hstr
            obtain ⟨name, rfl⟩ := Object.eq_string h₀
            obtain ⟨desc, rfl⟩ := Object.eq_string h₁
            obtain ⟨author, rfl⟩ := Object.eq_string h₂
            obtain ⟨license, rfl⟩ := Object.eq_string h₃
            by_cases hnull : name.str = none ∨ desc.str = none ∨ author.str = none ∨ license.str = none
            · refine Or.inr ⟨"Error dispatching register API request. Invalid meta params size",
                fun s => ?_, ?_⟩
              · simp -implicitDefEqProofs [handleRegister, hnull]
                rfl
              · simp [SploneBox.handleRegister, or_assoc, hnull]
            · by_cases hsecond : second.type = .array
              · obtain ⟨functions, rfl⟩ := Object.eq_array hsecond
                simp only [not_or] at hnull
                exact Or.inl ⟨name, desc, author, license, functions, hnull, rfl⟩
              · refine Or.inr ⟨"Error dispatching register API request. functions has wrong type",
                  fun s => ?_, ?_⟩
                · simp -implicitDefEqProofs [handleRegister, hnull, hsecond]
                  rfl
                · cases second with
                  | array functions => exact absurd rfl hsecond
                  | _ => simp [SploneBox.handleRegister, or_assoc, hnull]
          · refine Or.inr ⟨"Error dispatching register API request. meta element has wrong type",
              fun s => ?_, ?_⟩
            · simp only [not_and_or] at hstr
              simp -implicitDefEqProofs [handleRegister, hstr]
              rfl
            · unfold SploneBox.handleRegister
              split
              · next heq =>
                  cases heq
                  exact absurd ⟨rfl, rfl, rfl, rfl⟩ hstr
              · rfl
              · next hfour heq =>
                  cases heq
                  exact absurd rfl (hfour _ _ _ _)
              · next harray heq =>
                  cases heq
                  exact absurd rfl (harray _)
              · next hpair => exact absurd rfl (hpair _ _)
        · refine Or.inr ⟨"Error dispatching register API request. Invalid meta params size", fun s => ?_, ?_⟩
          · simp -implicitDefEqProofs [handleRegister, hfour]
            rfl
          · unfold SploneBox.handleRegister
            split
            · next heq =>
                cases heq
                exact absurd rfl hfour
            · next heq =>
                cases heq
                exact absurd rfl hfour
            · rfl
            · next harray heq =>
                cases heq
                exact absurd rfl (harray _)
            · next hpair => exact absurd rfl (hpair _ _)
    | _ => exact Or.inr ⟨_, fun _ => rfl, rfl⟩
  · exact Or.inr ⟨"Error dispatching register API request. Invalid params size",
      fun _ => by simp -implicitDefEqProofs [handleRegister]; rfl, by simp [SploneBox.handleRegister]⟩

/-- On arguments of the good shape `handle_register` is `api_register`. -/
theorem handleRegister_shaped (s : Surroundings) {name desc author license : Str} (hname : name.str ≠ none)
    (hdesc : desc.str ≠ none) (hauthor : author.str ≠ none) (hlicense : license.str ≠ none)
    (functions : List Object) :
    handleRegister s [.array [.string name, .string desc, .string author, .string license], .array functions] =
      apiRegister s.db s.pluginkey name desc author license functions >>= fun r =>
        pure (finish (.array []) "Error running register API request." r) := by
  simp -implicitDefEqProofs [handleRegister, hname, hdesc, hauthor, hlicense]

theorem handleRegister_safe_iff (s : Surroundings) (args : List Object) :
    Safe (handleRegister s args) ↔ Careful s args .register := by
  by_cases hshape : ∃ name desc author license functions,
      (name.str ≠ none ∧ desc.str ≠ none ∧ author.str ≠ none ∧ license.str ≠ none) ∧
      args = [.array [.string name, .string desc, .string author, .string license], .array functions]
  · obtain ⟨name, desc, author, license, functions, ⟨hname, hdesc, hauthor, hlicense⟩, rfl⟩ := hshape
    rw [handleRegister_shaped s hname hdesc hauthor hlicense, safe_finish_iff,
      apiRegister_ok hname hdesc hauthor hlicense]
    constructor
    · intro h name' desc' author' license' functions' heq' _ _ _ _
      cases heq'
      exact h
    · exact fun h => h name desc author license functions rfl hname hdesc hauthor hlicense
  · obtain ⟨msg, hrefused, -⟩ := (handleRegister_cases args).resolve_left hshape
    rw [hrefused]
    refine iff_of_true (safe_error msg) fun name desc author license functions heq hname hdesc hauthor
      hlicense => ?_
    exact absurd ⟨name, desc, author, license, functions, ⟨hname, hdesc, hauthor, hlicense⟩, heq⟩ hshape

/-- `handle_result` either has arguments of the one good shape, or refuses them with the error of
`SploneBox.handleResult`. -/
theorem handleResult_cases (args : List Object) :
    (∃ callid resultargs, args = [.array [.uinteger callid], .array resultargs]) ∨
    ∃ msg, (∀ s, handleResult s args = .ok (.error msg)) ∧
    SploneBox.handleResult args = .reply (.failed msg) := by
  rcases args with _ | ⟨first, _ | ⟨second, _ | ⟨third, rest⟩⟩⟩
  · exact Or.inr ⟨_, fun _ => rfl, rfl⟩
  · exact Or.inr ⟨_, fun _ => rfl, by simp [SploneBox.handleResult]⟩
  · cases first with
    | array info =>
        rcases info with _ | ⟨elem, _ | ⟨extra, rest⟩⟩
        · exact Or.inr ⟨_, fun _ => rfl, rfl⟩
        · cases elem with
          | uinteger callid =>
              cases second with
              | array resultargs => exact Or.inl ⟨callid, resultargs, rfl⟩
              | _ => exact Or.inr ⟨_, fun _ => rfl, rfl⟩
          | _ => exact Or.inr ⟨_, fun _ => rfl, rfl⟩
        · exact Or.inr ⟨"Error dispatching result API request. Invalid meta params size",
            fun _ => by simp -implicitDefEqProofs [handleResult]; rfl, by simp [SploneBox.handleResult]⟩
    | _ => exact Or.inr ⟨_, fun _ => rfl, rfl⟩
  · exact Or.inr ⟨"Error dispatching result API request. Invalid params size",
      fun _ => by simp -implicitDefEqProofs [handleResult]; rfl, by simp [SploneBox.handleResult]⟩

/-- `handle_result` on a `callid` that nobody has made. -/
theorem handleResult_unknown {s : Surroundings} {callid : UInt64} (resultargs : List Object)
    (hkey : s.callids callid = none) :
    handleResult s [.array [.uinteger callid], .array resultargs] =
      .ok (.error "Failed to find target's key associated with given callid.") := by
  simp -implicitDefEqProofs [handleResult, hkey]
  rfl

/-- On a `callid` of the table `handle_result` is `api_result`. -/
theorem handleResult_known {s : Surroundings} {callid : UInt64} {key : Bytes} (resultargs : List Object)
    (hkey : s.callids callid = some key) :
    handleResult s [.array [.uinteger callid], .array resultargs] =
      apiResult s key callid resultargs >>= fun r =>
        pure (finish (.array [.uinteger callid]) "Error executing result API request." r) := by
  simp -implicitDefEqProofs [handleResult, hkey]

theorem handleResult_safe_iff (s : Surroundings) (args : List Object) :
    Safe (handleResult s args) ↔ Careful s args .result := by
  by_cases hshape : ∃ callid resultargs, args = [.array [.uinteger callid], .array resultargs]
  · obtain ⟨callid, resultargs, rfl⟩ := hshape
    cases hkey : s.callids callid with
    | none =>
        rw [handleResult_unknown resultargs hkey]
        refine iff_of_true (safe_error _) fun callid' resultargs' key heq hkey' => ?_
        cases heq
        exact nomatch hkey.symm.trans hkey'
    | some key =>
        rw [handleResult_known resultargs hkey, safe_finish_iff, apiResult_ok]
        constructor
        · intro h callid' resultargs' key' heq' hkey'
          cases heq'
          cases hkey.symm.trans hkey'
          exact h
        · exact fun h => h callid resultargs key rfl hkey
  -- Any other shape is refused with a message, which is safe.
  · obtain ⟨msg, hrefused, -⟩ := (handleResult_cases args).resolve_left hshape
    rw [hrefused]
    exact iff_of_true (safe_error msg) fun callid resultargs _ heq => absurd ⟨callid, resultargs, heq⟩ hshape

/-- `handle_broadcast` either has arguments of the one good shape, or refuses them with the error of
`SploneBox.handleBroadcast`. -/
theorem handleBroadcast_cases (args : List Object) :
    (∃ event eventargs, args = [.string event, .array eventargs]) ∨
    ∃ msg, handleBroadcast args = .ok (.error msg) ∧ SploneBox.handleBroadcast args = .reply (.failed msg) := by
  rcases args with _ | ⟨first, _ | ⟨second, _ | ⟨third, rest⟩⟩⟩
  · exact Or.inr ⟨_, rfl, rfl⟩
  · exact Or.inr ⟨_, rfl, by simp [SploneBox.handleBroadcast]⟩
  · cases first with
    | string event =>
        cases second with
        | array eventargs => exact Or.inl ⟨event, eventargs, rfl⟩
        | _ => exact Or.inr ⟨_, rfl, rfl⟩
    | _ => exact Or.inr ⟨_, rfl, rfl⟩
  · exact Or.inr ⟨"Error dispatching broadcast API request. Invalid params size",
      by simp -implicitDefEqProofs [handleBroadcast]; rfl, by simp [SploneBox.handleBroadcast]⟩

theorem handleBroadcast_safe_iff (s : Surroundings) (args : List Object) :
    Safe (handleBroadcast args) ↔ Careful s args .broadcast := by
  by_cases hshape : ∃ event eventargs, args = [.string event, .array eventargs]
  · obtain ⟨event, eventargs, rfl⟩ := hshape
    have heq : handleBroadcast [.string event, .array eventargs] = apiBroadcast event eventargs >>= fun r =>
        pure (finish (.array []) "Error executing broadcast API request." r) := by
      simp -implicitDefEqProofs [handleBroadcast]
    have hok : (apiBroadcast event eventargs).isOk = true ↔ event.str ≠ none := by
      unfold apiBroadcast Str.cstring
      cases event.str with
      | none => exact ⟨fun h => (nomatch h), fun h => absurd rfl h⟩
      | some e => exact ⟨fun _ => by simp, fun _ => rfl⟩
    rw [heq, safe_finish_iff, hok]
    constructor
    · intro h event' eventargs' heq'
      cases heq'
      exact h
    · exact fun h => h event eventargs rfl
  · obtain ⟨msg, hrefused, -⟩ := (handleBroadcast_cases args).resolve_left hshape
    rw [hrefused]
    exact iff_of_true (safe_error msg) fun event eventargs heq => absurd ⟨event, eventargs, heq⟩ hshape

/-- `handle_subscribe` and `handle_unsubscribe` either have a string, or refuse the arguments with the error of
`SploneBox.handleEvent`. -/
theorem handleEvent_cases (args : List Object) :
    (∃ event, args = [.string event]) ∨
    ∃ msg, (∀ operation, handleEvent operation args = .ok (.error msg)) ∧
      ∀ operation, SploneBox.handleEvent operation args = .reply (.failed msg) := by
  rcases args with _ | ⟨first, _ | ⟨second, rest⟩⟩
  · exact Or.inr ⟨_, fun _ => rfl, fun _ => rfl⟩
  · cases first with
    | string event => exact Or.inl ⟨event, rfl⟩
    | _ => exact Or.inr ⟨_, fun _ => rfl, fun _ => rfl⟩
  · exact Or.inr ⟨"Error dispatching broadcast API request. Invalid params size",
      fun _ => by simp -implicitDefEqProofs [handleEvent]; rfl, fun _ => by simp [SploneBox.handleEvent]⟩

theorem handleEvent_safe_iff (operation : Str → Except Fault Ending) (args : List Object) :
    Safe (handleEvent operation args) ↔ ∀ event, args = [.string event] → Safe (operation event) := by
  by_cases hshape : ∃ event, args = [.string event]
  · obtain ⟨event, rfl⟩ := hshape
    have heq : handleEvent operation [.string event] = operation event := by
      simp -implicitDefEqProofs [handleEvent]
    rw [heq]
    constructor
    · intro h event' heq'
      cases heq'
      exact h
    · exact fun h => h event rfl
  · obtain ⟨msg, hrefused, -⟩ := (handleEvent_cases args).resolve_left hshape
    rw [hrefused]
    exact iff_of_true (safe_error msg) fun event heq => absurd ⟨event, heq⟩ hshape

theorem apiSubscribe_safe_iff (s : Surroundings) (event : Str) :
    Safe (apiSubscribe s event) ↔ event.str ≠ none ∧ s.closed = false := by
  unfold apiSubscribe copyEvent
  cases hevent : event.str with
  | none => exact ⟨fun ⟨_, h, _⟩ => (nomatch h), fun h => absurd rfl h.1⟩
  | some e =>
      rw [ok_bind]
      cases hclosed : s.closed with
      | false => exact iff_of_true (safe_ok (finish_settled _ _ _)) ⟨by simp, rfl⟩
      | true =>
          refine iff_of_false ?_ fun h => absurd h.2 (by decide)
          rintro ⟨ending, h, hsettled⟩
          cases h
          exact hsettled

theorem apiUnsubscribe_safe_iff (s : Surroundings) (event : Str) :
    Safe (apiUnsubscribe s event) ↔ event.str ≠ none ∧ s.closed = false ∧ eventName event ∈ s.eventStrings := by
  unfold apiUnsubscribe copyEvent
  cases hevent : event.str with
  | none => exact ⟨fun ⟨_, h, _⟩ => (nomatch h), fun h => absurd rfl h.1⟩
  | some e =>
      rw [ok_bind]
      cases hclosed : s.closed with
      | false =>
          by_cases hknown : eventName event ∈ s.eventStrings
          · simp only [Bool.false_eq_true, if_false, List.contains_eq_mem, hknown, decide_true, Bool.not_true]
            exact iff_of_true (safe_ok (finish_settled _ _ _)) ⟨by simp, trivial, trivial⟩
          · simp only [Bool.false_eq_true, if_false, List.contains_eq_mem, hknown, decide_false,
              Bool.not_false, if_true]
            exact ⟨fun ⟨_, h, _⟩ => (nomatch h), fun h => absurd h.2.2 id⟩
      | true =>
          refine iff_of_false ?_ fun h => absurd h.2.1 (by decide)
          rintro ⟨ending, h, hsettled⟩
          cases h
          exact hsettled

/-- **The handlers are safe exactly on careful arguments**: for every handler, every argument array and
whatever it finds around it, no member of a union is read under another tag, no `NULL` goes where a string is
expected, and the handler ends with success or an error, if and only if `Careful` holds. -/
theorem handlers_safe_iff (s : Surroundings) (h : Handler) (args : List Object) :
    Safe (call s args h) ↔ Careful s args h := by
  cases h with
  | missingMethod => exact iff_of_true (safe_ok rfl) trivial
  | invalidArguments => exact iff_of_true (safe_ok rfl) trivial
  | register => exact handleRegister_safe_iff s args
  | run => exact handleRun_safe_iff s args
  | result => exact handleResult_safe_iff s args
  | broadcast => exact handleBroadcast_safe_iff s args
  | subscribe =>
      exact (handleEvent_safe_iff _ args).trans (forall₂_congr fun event _ => apiSubscribe_safe_iff s event)
  | unsubscribe =>
      exact (handleEvent_safe_iff _ args).trans (forall₂_congr fun event _ => apiUnsubscribe_safe_iff s event)

/-- A plugin that registers the function `1`, with a number where the name should be. -/
def Sample.numberedFunction : MsgpackObject :=
  .array [.array [.str [97, 98, 99], .str [100], .str [101], .str [102]],
    .array [.array [.positiveInteger 1, .str [100], .array []]]]

/-- A broadcast of the event with the empty name. -/
def Sample.namelessEvent : MsgpackObject := .array [.str [], .array []]

/-- Both decode, and with both a handler reads what is not there: the number as a string, and the address
`NULL`. -/
theorem unsafe_requests_decoded :
    (∃ args, msgpackRpcToArray Sample.numberedFunction = .ok (some args) ∧
      ¬ Safe (call (Sample.surroundings .nil) args .register)) ∧
    ∃ args, msgpackRpcToArray Sample.namelessEvent = .ok (some args) ∧
      ¬ Safe (call (Sample.surroundings .nil) args .broadcast) := by
  refine ⟨⟨_, rfl, ?_⟩, ⟨_, rfl, ?_⟩⟩
  · rintro ⟨ending, h, -⟩
    cases h
  · rintro ⟨ending, h, -⟩
    cases h

/-! ## §7 The effects of the core -/

/-- What is left of `handle_run` and `handle_result` once `connection_send_request` has returned. -/
def acknowledgedEnding (kind : CallKind) (callid : UInt64) (r : Object × Option ApiError) :
    Except Fault Ending :=
  match r.2 with
  | some error => .ok (.failed (some error))
  | none => do
      let items ← r.1.dataArray
      return .ofReply (acknowledged kind callid items none)

/-- How a handler with this effect ends, when the effect takes place in the surroundings `s`. -/
def effectEnding (s : Surroundings) : Effect → Except Fault Ending
  | .reply r => .ok (.ofReply r)
  | .register name description author license functions => do
      let (error, _) ← SploneBox.apiRegister s.db s.pluginkey name description author license functions
      return .ofReply ⟨.array [], error⟩
  | .broadcast none _ => .error .nullPointer
  | .broadcast (some _) _ => .ok (.ofReply (.ok []))
  | .subscribe _ => .ok (if s.closed then .aborted else .ofReply (.ok []))
  | .unsubscribe event =>
      if s.closed then .ok .aborted
      else if s.eventStrings.contains event then .ok (.ofReply (.ok []))
      else .error .nullPointer
  | .run callid target verify request => do
      match ← verify with
      | some error => return .failed (some error)
      | none => acknowledgedEnding .run callid (s.sendRequest .run target request)
  | .result callid request =>
      match s.callids callid with
      | none => .ok (.error "Failed to find target's key associated with given callid.")
      | some key => acknowledgedEnding .result callid (s.sendRequest .result key request)
  | .fault f => .error f

theorem registerLoop_eq (pluginkey : Bytes) (functions : List Object) (error : Option ApiError) (db : Database)
    {r : Option ApiError × Database} (h : registerLoop pluginkey functions error db = .ok r) :
    SploneBox.registerLoop pluginkey functions error db = .ok r := by
  induction functions generalizing error db with
  | nil => exact h
  | cons func functions ih =>
      by_cases harray : func.type = .array
      · obtain ⟨func, rfl⟩ := Object.eq_array harray
        cases hadd : dbFunctionAdd db pluginkey func with
        | error f =>
            simp [registerLoop, hadd] at h
            cases h
        | ok added =>
            simp only [registerLoop, type_array, ne_eq, not_true_eq_false, if_false, dataArray_array,
              ok_bind, hadd] at h
            simp only [SploneBox.registerLoop, dbFunctionAdd_eq hadd, ok_bind]
            exact ih _ _ h
      · simp only [registerLoop, ne_eq, harray, not_false_eq_true, if_true] at h
        cases func with
        | array func => exact absurd rfl harray
        | _ => exact ih _ _ h

/-- `api_register` fails exactly when it has set an error. -/
theorem apiRegister_eq {db : Database} {pluginkey : Bytes} {name desc author license : Str}
    {functions : List Object} {r : Int × Option ApiError}
    (h : apiRegister db pluginkey name desc author license functions = .ok r) :
    r.1 = (if r.2.isSome then -1 else 0) ∧
      ∃ db', SploneBox.apiRegister db pluginkey name desc author license functions = .ok (r.2, db') := by
  unfold apiRegister at h
  unfold SploneBox.apiRegister
  by_cases hempty : functions.length = 0
  · rw [if_pos hempty] at h ⊢
    cases h
    exact ⟨rfl, db, rfl⟩
  · rw [if_neg hempty] at h ⊢
    cases hadd : dbPluginAdd db pluginkey name desc author license with
    | error f =>
        rw [hadd] at h
        cases h
    | ok added =>
        obtain ⟨rc, db₁⟩ := added
        rw [hadd, ok_bind] at h
        rw [ok_bind]
        dsimp only at h ⊢
        by_cases hrc : rc = -1
        · rw [if_pos hrc] at h ⊢
          cases h
          exact ⟨rfl, db₁, rfl⟩
        · rw [if_neg hrc] at h ⊢
          cases hloop : registerLoop pluginkey functions none db₁ with
          | error f =>
              rw [hloop] at h
              cases h
          | ok looped =>
              obtain ⟨error, db₂⟩ := looped
              rw [hloop, ok_bind] at h
              dsimp only at h
              rw [registerLoop_eq pluginkey functions none db₁ hloop]
              cases error with
              | none =>
                  cases h
                  exact ⟨rfl, db₂, rfl⟩
              | some error =>
                  cases h
                  exact ⟨rfl, db₂, rfl⟩

/-- The end of a handler is told from the error of its `api_` function. -/
theorem finish_of {ret : Object} {msg : String} {r : Int × Option ApiError}
    (h : r.1 = if r.2.isSome then -1 else 0) :
    finish ret msg r = .ofReply ⟨ret, r.2⟩ := by
  obtain ⟨rc, error⟩ := r
  cases error with
  | none =>
      cases h
      rfl
  | some error =>
      cases h
      rfl

theorem acknowledged_result {kind : CallKind} {callid : UInt64} {items : List Object}
    (h : (acknowledged kind callid items none).error = none) :
    (acknowledged kind callid items none).result = .array [.uinteger callid] := by
  rw [(acknowledged_none_iff kind callid items).mp h]
  simp [acknowledged, Reply.ok]

/-- The two readings of what a peer has sent. -/
theorem acknowledgement_ending {kind : CallKind} {callid : UInt64} {x : Object × Option ApiError}
    {msg : String} {ending : Ending}
    (h : ((if x.2.isSome then (pure (-1, x.2) : Except Fault (Int × Option ApiError))
        else acknowledgement kind callid x.1) >>= fun r => pure (finish (.array [.uinteger callid]) msg r)) =
          .ok ending) :
    acknowledgedEnding kind callid x = .ok ending := by
  obtain ⟨result, error⟩ := x
  cases error with
  | some error =>
      cases h
      rfl
  | none =>
      cases result with
      | array items =>
          rw [show ((none : Option ApiError).isSome) = false from rfl] at h
          simp only [Bool.false_eq_true, if_false, acknowledgement_array, ok_bind] at h
          rw [acknowledgedEnding, dataArray_array, ok_bind]
          have hrc : (if (acknowledged kind callid items none).error.isNone then (0 : Int) else -1) =
              if (acknowledged kind callid items none).error.isSome then -1 else 0 := by
            cases (acknowledged kind callid items none).error with
            | none => rfl
            | some error => rfl
          refine Eq.trans ?_ h
          rw [finish_of hrc]
          cases herror : (acknowledged kind callid items none).error with
          | none => simp only [Ending.ofReply, herror, acknowledged_result herror]
          | some error => simp only [Ending.ofReply, herror]
      | _ => cases h

theorem apiRun_ending {s : Surroundings} {key : Bytes} {name : Str} {runargs : List Object} {msg : String}
    {ending : Ending}
    (h : (apiRun s key name s.callid runargs >>= fun r =>
      pure (finish (.array [.uinteger s.callid]) msg r)) = .ok ending) :
    effectEnding s (SploneBox.apiRun ⟨s.callid, s.db⟩ key name runargs) = .ok ending := by
  unfold apiRun at h
  simp only [effectEnding, SploneBox.apiRun, runVerify]
  by_cases hplugin : dbPluginVerify s.db key = -1
  · rw [if_pos hplugin] at h ⊢
    cases h
    rfl
  · rw [if_neg hplugin] at h ⊢
    cases hverify : dbFunctionVerify s.db key name runargs with
    | error f =>
        rw [hverify] at h
        cases h
    | ok rc =>
        rw [hverify, ok_bind] at h
        rw [ok_bind]
        by_cases hrc : rc = -1
        · rw [if_pos hrc] at h ⊢
          cases h
          rfl
        · rw [if_neg hrc] at h ⊢
          exact acknowledgement_ending h

theorem apiSubscribe_ending {s : Surroundings} {event : Bytes} {length : Nat} {ending : Ending}
    (h : apiSubscribe s ⟨some event, length⟩ = .ok ending) :
    effectEnding s (.subscribe (eventName ⟨some event, length⟩)) = .ok ending := by
  simp only [apiSubscribe, copyEvent, ok_bind] at h
  simp only [effectEnding]
  split at h
  · next hclosed =>
      cases h
      rw [if_pos hclosed]
  · next hopen =>
      cases h
      rw [if_neg hopen]
      rfl

theorem apiUnsubscribe_ending {s : Surroundings} {event : Bytes} {length : Nat} {ending : Ending}
    (h : apiUnsubscribe s ⟨some event, length⟩ = .ok ending) :
    effectEnding s (.unsubscribe (eventName ⟨some event, length⟩)) = .ok ending := by
  simp only [apiUnsubscribe, copyEvent, ok_bind] at h
  simp only [effectEnding]
  split at h
  · next hclosed =>
      cases h
      rw [if_pos hclosed]
  · next hopen =>
      rw [if_neg hopen]
      split at h
      · cases h
      · next hknown =>
          cases h
          rw [if_pos (by simpa using hknown)]
          rfl

/-- **The two models of the handlers agree**: when every access of a handler is good, its effect ends the way
the handler ends, statement by statement. -/
theorem call_ending (s : Surroundings) (h : Handler) (args : List Object) {ending : Ending}
    (hcall : call s args h = .ok ending) : effectEnding s (h.call ⟨s.callid, s.db⟩ args) = .ok ending := by
  cases h with
  | missingMethod =>
      cases hcall
      rfl
  | invalidArguments =>
      cases hcall
      rfl
  | register =>
      rcases handleRegister_cases args with ⟨name, desc, author, license, functions, hstr, rfl⟩ |
        ⟨msg, hbad, hdispatch⟩
      · obtain ⟨hname, hdesc, hauthor, hlicense⟩ := hstr
        rw [call, handleRegister_shaped s hname hdesc hauthor hlicense] at hcall
        have hregister : Handler.register.call ⟨s.callid, s.db⟩
            [.array [.string name, .string desc, .string author, .string license], .array functions] =
              .register name desc author license functions := by
          simp [Handler.call, SploneBox.handleRegister, hname, hdesc, hauthor, hlicense]
        rw [hregister]
        cases hapi : apiRegister s.db s.pluginkey name desc author license functions with
        | error f =>
            rw [hapi] at hcall
            cases hcall
        | ok r =>
            obtain ⟨hrc, db, heq⟩ := apiRegister_eq hapi
            rw [hapi, ok_bind, finish_of hrc] at hcall
            simp only [effectEnding, heq, ok_bind]
            exact hcall
      · rw [call, hbad] at hcall
        cases hcall
        rw [Handler.call, hdispatch]
        rfl
  | run =>
      rcases handleRun_cases args with ⟨key, length, name, runargs, hlen, rfl⟩ | ⟨msg, hbad, hdispatch⟩
      · rw [call, handleRun_shaped s hlen] at hcall
        obtain rfl : length = 16 := Nat.succ.inj hlen
        exact apiRun_ending hcall
      · rw [call, hbad] at hcall
        cases hcall
        rw [Handler.call, hdispatch]
        rfl
  | result =>
      rcases handleResult_cases args with ⟨callid, resultargs, rfl⟩ | ⟨msg, hbad, hdispatch⟩
      · cases hkey : s.callids callid with
        | none =>
            rw [call, handleResult_unknown resultargs hkey] at hcall
            cases hcall
            simp only [Handler.call, SploneBox.handleResult, effectEnding, hkey]
        | some key =>
            rw [call, handleResult_known resultargs hkey] at hcall
            simp only [Handler.call, SploneBox.handleResult, effectEnding, hkey]
            exact acknowledgement_ending hcall
      · rw [call, hbad] at hcall
        cases hcall
        rw [Handler.call, hdispatch]
        rfl
  | broadcast =>
      rcases handleBroadcast_cases args with ⟨⟨event, length⟩, eventargs, rfl⟩ | ⟨msg, hbad, hdispatch⟩
      · cases event with
        | none => cases hcall
        | some event => exact hcall
      · rw [call, hbad] at hcall
        cases hcall
        rw [Handler.call, hdispatch]
        rfl
  | subscribe =>
      rcases handleEvent_cases args with ⟨⟨event, length⟩, rfl⟩ | ⟨msg, hbad, hdispatch⟩
      · cases event with
        | none => cases hcall
        | some event => exact apiSubscribe_ending hcall
      · rw [call, handleSubscribe, hbad] at hcall
        cases hcall
        rw [Handler.call, SploneBox.handleSubscribe, hdispatch]
        rfl
  | unsubscribe =>
      rcases handleEvent_cases args with ⟨⟨event, length⟩, rfl⟩ | ⟨msg, hbad, hdispatch⟩
      · cases event with
        | none => cases hcall
        | some event => exact apiUnsubscribe_ending hcall
      · rw [call, handleUnsubscribe, hbad] at hcall
        cases hcall
        rw [Handler.call, SploneBox.handleUnsubscribe, hdispatch]
        rfl

end Handlers

end SploneBox
