/-
# SploneBox.Msgpack — msgpack objects, the core's own objects, and the RPC message shapes.

`MsgpackObject` is what the unpacker hands to `parse_cb`; `Object` is what the handlers work on. The
accessors of `helpers.c` read a tagged union and an array without looking first, so each of them
returns in `Except Fault`: a payload of another type, an element behind the end and a `NULL` pointer
are faults. `msgpack_rpc_validate` looks before it reads and never faults; the accessors it shares with
`connection_handle_request` fault on most of what it refuses (`SploneBox.Invalid`).

`serializeRequest` and `serializeResponse` give the object a receiver decodes from the packed bytes.
-/
import SploneBox.Bytes

namespace SploneBox

/-! ## §1 Objects -/

/-- `msgpack_object`. A float is kept as its bit pattern. -/
inductive MsgpackObject where
  | nil
  | boolean (b : Bool)
  | positiveInteger (u : UInt64)
  | negativeInteger (i : Int64)
  | float (bits : UInt64)
  | str (s : Bytes)
  | bin (s : Bytes)
  | array (xs : List MsgpackObject)
  | map (kvs : List (MsgpackObject × MsgpackObject))
  | ext (type : Int8) (s : Bytes)

/-- `string`: the bytes behind `str`, without the final NUL (`none` for `NULL`), and `length`. -/
structure Str where
  str : Option Bytes
  length : Nat
deriving DecidableEq

/-- `object`. -/
inductive Object where
  | nil
  | integer (i : Int64)
  | uinteger (u : UInt64)
  | boolean (b : Bool)
  | floating (bits : UInt64)
  | string (s : Str)
  | array (items : List Object)
  | dictionary (items : List (Str × Object))

/-- What can go wrong in a memory access. -/
inductive Fault where
  | wrongType
  | outOfBounds
  | nullPointer
  | useAfterFree
deriving DecidableEq

/-- `api_error_type`. -/
inductive ErrorType where
  | exception
  | validation
deriving DecidableEq

/-- `struct api_error` with `isset`; an error that is not set is `none`. `msg` is the C string. -/
structure ApiError where
  type : ErrorType
  msg : Bytes
deriving DecidableEq

/-- The bytes of a string literal. -/
def text (s : String) : Bytes := s.toUTF8.toList

/-- `error_set(err, API_ERROR_TYPE_VALIDATION, msg)`. -/
def validationError (msg : String) : ApiError := ⟨.validation, text msg⟩

/-! ## §2 Reading a message -/

/-- `obj->via.array`. -/
def MsgpackObject.viaArray : MsgpackObject → Except Fault (List MsgpackObject)
  | .array xs => .ok xs
  | _ => .error .wrongType

/-- `obj->via.u64`. -/
def MsgpackObject.viaU64 : MsgpackObject → Except Fault UInt64
  | .positiveInteger u => .ok u
  | _ => .error .wrongType

/-- `obj->via.bin`; `STR` and `BIN` have the same layout. -/
def MsgpackObject.viaBin : MsgpackObject → Except Fault Bytes
  | .str s => .ok s
  | .bin s => .ok s
  | _ => .error .wrongType

/-- `ptr[i]`. -/
def element (xs : List MsgpackObject) (i : Nat) : Except Fault MsgpackObject :=
  match xs[i]? with
  | some x => .ok x
  | none => .error .outOfBounds

def MsgpackObject.isString : MsgpackObject → Bool
  | .str _ => true
  | .bin _ => true
  | _ => false

def MsgpackObject.isArray : MsgpackObject → Bool
  | .array _ => true
  | _ => false

/-- `msgpack_rpc_is_notification`. -/
def msgpackRpcIsNotification (req : MsgpackObject) : Except Fault Bool := do
  let type ← (← element (← req.viaArray) 0).viaU64
  return type == 2

/-- `msgpack_rpc_method`. -/
def msgpackRpcMethod (req : MsgpackObject) : Except Fault (Option MsgpackObject) := do
  let notification ← msgpackRpcIsNotification req
  let obj ← element (← req.viaArray) (if notification then 1 else 2)
  return if obj.isString then some obj else none

/-- `msgpack_rpc_args`. -/
def msgpackRpcArgs (req : MsgpackObject) : Except Fault (Option MsgpackObject) := do
  let notification ← msgpackRpcIsNotification req
  let obj ← element (← req.viaArray) (if notification then 2 else 3)
  return if obj.isArray then some obj else none

/-- `msgpack_rpc_msg_id`: the id the object it returns holds. -/
def msgpackRpcMsgId (req : MsgpackObject) : Except Fault (Option UInt64) := do
  if ← msgpackRpcIsNotification req then return none
  match ← element (← req.viaArray) 1 with
  | .positiveInteger u => return some u
  | _ => return none

/-- `MESSAGE_TYPE_REQUEST`. -/
def messageTypeRequest : UInt64 := 0

/-- `MESSAGE_TYPE_NOTIFICATION`. -/
def messageTypeNotification : UInt64 := 2

/-- `UINT64_MAX`: the response id of a message that gets no response. -/
def noResponse : UInt64 := 18446744073709551615

/-- The effect of `msgpack_rpc_validate`: `*response_id` and the error. -/
structure Validation where
  responseId : UInt64
  error : Option ApiError

/-- `return` after `error_set`. -/
def refuse (id : UInt64) (msg : String) : Except Fault Validation :=
  .ok ⟨id, some (validationError msg)⟩

/-- The last two checks of `msgpack_rpc_validate`. -/
def validateBody (req : MsgpackObject) (id : UInt64) : Except Fault Validation := do
  if (← msgpackRpcMethod req).isNone then refuse id "Method must be a string"
  else if (← msgpackRpcArgs req).isNone then refuse id "Parameters must be an array"
  else return ⟨id, none⟩

/-- `msgpack_rpc_validate`. -/
def msgpackRpcValidate (req : MsgpackObject) : Except Fault Validation :=
  match req with
  | .array [] => refuse noResponse "Message is empty"
  | .array (.positiveInteger type :: xs) =>
      if type ≠ messageTypeRequest ∧ type ≠ messageTypeNotification then
        refuse noResponse "Unknown message type"
      else if (type = messageTypeRequest ∧ xs.length + 1 ≠ 4)
          ∨ (type = messageTypeNotification ∧ xs.length + 1 ≠ 3) then
        refuse noResponse "Request array size should be 4 (request) or 3 (notification)"
      else if type = messageTypeRequest then do
        match ← msgpackRpcMsgId req with
        | none => refuse noResponse "ID must be a positive integer"
        | some id => validateBody req id
      else validateBody req noResponse
  | .array _ => refuse noResponse "Message type must be an integer"
  | _ => refuse noResponse "Message is not an array"

/-- The id, the error and the result of an object that `is_rpc_response` accepts. -/
def rpcResponse : MsgpackObject → Option (UInt64 × MsgpackObject × MsgpackObject)
  | .array [.positiveInteger type, .positiveInteger id, error, result] =>
      if type = 1 then some (id, error, result) else none
  | _ => none

/-- `is_rpc_response`. -/
def isRpcResponse (obj : MsgpackObject) : Bool := (rpcResponse obj).isSome

/-! ## §3 Writing a message -/

/-- The object that the bytes of `msgpack_rpc_from_string` decode to. -/
def Str.toMsgpack (s : Str) : MsgpackObject := .str ((s.str.getD []).take s.length)

mutual

/-- The object that the bytes of `msgpack_rpc_from_object` decode to: an integer that is not negative
is packed like an unsigned one. -/
def Object.toMsgpack : Object → MsgpackObject
  | .nil => .nil
  | .boolean b => .boolean b
  | .integer i => if 0 ≤ i then .positiveInteger i.toUInt64 else .negativeInteger i
  | .uinteger u => .positiveInteger u
  | .floating bits => .float bits
  | .string s => s.toMsgpack
  | .array items => .array (itemsToMsgpack items)
  | .dictionary items => .map (entriesToMsgpack items)

def itemsToMsgpack : List Object → List MsgpackObject
  | [] => []
  | o :: items => o.toMsgpack :: itemsToMsgpack items

def entriesToMsgpack : List (Str × Object) → List (MsgpackObject × MsgpackObject)
  | [] => []
  | (k, o) :: items => (k.toMsgpack, o.toMsgpack) :: entriesToMsgpack items

end

/-- The value of an `api_error_type`. -/
def ErrorType.code : ErrorType → UInt64
  | .exception => 0
  | .validation => 1

/-- `msgpack_rpc_serialize_request`; id 0 makes a notification. -/
def serializeRequest (id : UInt64) (method : Bytes) (args : List Object) : MsgpackObject :=
  if id = 0 then .array [.positiveInteger 2, .str method, .array (itemsToMsgpack args)]
  else .array [.positiveInteger 0, .positiveInteger id, .str method, .array (itemsToMsgpack args)]

/-- `msgpack_rpc_serialize_response`. -/
def serializeResponse (id : UInt64) (err : Option ApiError) (arg : Object) : MsgpackObject :=
  match err with
  | some e =>
      .array [.positiveInteger 1, .positiveInteger id,
        .array [.positiveInteger e.type.code, .str e.msg], .nil]
  | none => .array [.positiveInteger 1, .positiveInteger id, .nil, arg.toMsgpack]

/-! ## §4 What is well formed -/

/-- A request `[0, id, method, args]`. -/
def requestMessage (id : UInt64) (method : Bytes) (args : List MsgpackObject) : MsgpackObject :=
  .array [.positiveInteger 0, .positiveInteger id, .str method, .array args]

/-- A notification `[2, method, args]`. -/
def notificationMessage (method : Bytes) (args : List MsgpackObject) : MsgpackObject :=
  .array [.positiveInteger 2, .str method, .array args]

theorem msgpackRpcIsNotification_cons (type : UInt64) (xs : List MsgpackObject) :
    msgpackRpcIsNotification (.array (.positiveInteger type :: xs)) = .ok (type == 2) := rfl

/-- **A well-formed request is accepted** under its own id. -/
theorem msgpackRpcValidate_request (id : UInt64) (method : Bytes) (args : List MsgpackObject) :
    msgpackRpcValidate (requestMessage id method args) = .ok ⟨id, none⟩ := rfl

/-- **A well-formed notification is accepted** without a response id. -/
theorem msgpackRpcValidate_notification (method : Bytes) (args : List MsgpackObject) :
    msgpackRpcValidate (notificationMessage method args) = .ok ⟨noResponse, none⟩ := rfl

end SploneBox
