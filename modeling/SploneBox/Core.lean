/-
# SploneBox.Core — the running core: every connection, the event queue, and the thread's call stack.

`Core` is the state of the process: the tables of `connection.c`, the shared send buffer, the queue of
request events, and the stack of the functions that wait for something. The thread is always in one of
these places (`Frame`):

* `poll` — `uv_run` under `loop_poll_events`; libuv may run any callback;
* `close` — the `uv_run` inside `connection_close`, called by a `parse_cb`; again any callback;
* `parse` — the decode loop of `parse_cb`;
* `drain` — `multiqueue_process_events` of `main_loop.events` or of one connection's queue;
* `call` — `loop_process_events_until` under a `connection_send_request`, on behalf of a handler.

An empty stack is the main loop between two rounds. `Core.step` is one move: a callback of libuv, or the
next move of the thread (`turn`), which the top of the stack decides. A decoded message is one move, so
is a queued request, so is each return.

The process can end in the middle of a move, in `exit`, in `abort` or in a memory fault. Functions that
can end it return in `Except Core`, with the state the process ended in.

Everything from outside is in `World` and in the labels. The `n`-th call of `crypto_write` gets
`writes n`, the handler of the `n`-th message gets `handlers n`: the database as the handler finds it, and
the `callid` it draws.

One table is simpler here than in the source. `pluginkeys` has the strings themselves for its keys, where the
source has the addresses of strings that belong to the connections. `SploneBox.Registry` says when this makes
no difference: in every run in which `parse_cb` enters no rejected initiate packet, the entries go by the
strings as they are now (`pluginkeys_by_address`). In a run in which it does enter one, and the connection
then tries again and authenticates, the source has an entry whose string has changed in its bucket; what such
an entry is found by depends on the bucket, and is not said here.

`received`, `invoked`, `trace` and
`record` are kept for the reader, no function looks at them: the messages that
`connection_handle_request` has dispatched, the handlers run for them, the calls of `crypto_write`, and
what happened to the calls between plugins.
-/
import SploneBox.Tunnel
import SploneBox.Dispatch

namespace SploneBox

/-! ## §1 State -/

/-- What `msgpack_unpacker_next` returns: an object and the bytes left, that more bytes are needed, or
a parse error. -/
inductive Unpacked where
  | success (obj : MsgpackObject) (rest : Bytes)
  | more
  | parseError

/-- The msgpack library: the bytes of an object, and the next object in the bytes fed so far. -/
structure Msgpack where
  pack : MsgpackObject → Bytes
  next : Bytes → Unpacked

/-- What the core takes from outside. `misread` is the array seen when a result of another type is read
as one, `leftover` the object a failed decoding leaves behind, `nomem n` whether the `n`-th call of the
unpacker runs out of memory. -/
structure World where
  server : Server
  msgpack : Msgpack
  writes : Nat → WriteEnv
  handlers : Nat → HandlerEnv
  misread : Object → List Object
  leftover : MsgpackObject → Object
  nomem : Nat → Bool

/-- A hash table of C strings used as a set. `used` is whether it has buckets: a table that never had
an entry does not look at the key it is asked for. -/
structure StringSet where
  used : Bool
  names : List Bytes

/-- `struct callinfo`. -/
structure Callinfo where
  msgid : UInt64
  returned : Bool
  errored : Bool
  result : Object

/-- `struct connection`. The crypto context, the input stream, the packet and `closed` are in `tunnel`;
`callvector` holds indices into `Core.calls`; `mpac` is what the unpacker has not decoded yet;
`reading` is whether libuv still reads, `released` whether the streams have been freed. -/
structure Connection where
  tunnel : Tunnel
  refcount : Nat
  msgid : UInt32
  mpac : Bytes
  pendingRequests : Nat
  callvector : List Nat
  delayedNotifications : List (List MsgpackObject)
  subscribedEvents : StringSet
  reading : Bool
  released : Bool

/-- `connection_request_event_info`, with the number of the message it was made for. -/
structure RequestEvent where
  con : Nat
  tag : Nat
  func : Handler
  args : List Object
  msgid : UInt64

/-- A function that waits. A `call` has the request it works for, the connection the call goes to and
the `callinfo` it waits for; a `drain` has the queue, `none` for `main_loop.events`. -/
inductive Frame where
  | poll
  | close (id : Nat)
  | parse (id : Nat)
  | drain (queue : Option Nat)
  | call (e : RequestEvent) (target cinfo : Nat) (kind : CallKind) (callid : UInt64)

/-- Whether the top of the stack is a `uv_run`. -/
def uvRun : List Frame → Bool
  | .poll :: _ => true
  | .close _ :: _ => true
  | _ => false

/-- How the process ended. -/
inductive Halt where
  | exit (code : Nat)
  | abort
  | fault (f : Fault)
deriving DecidableEq

/-- A message `connection_handle_request` has made an `eventinfo` for. -/
structure Message where
  con : Nat
  obj : MsgpackObject
  msgid : UInt64

/-- Why `crypto_write` was called; `reply` is `connection_send_response`, which no handler calls. -/
inductive Cause where
  | response (tag : Nat)
  | invalid
  | undecodable
  | request
  | notification
  | reply
deriving DecidableEq

/-- A call of `crypto_write`: the connection, its `closed` flag and `pending_requests`, the messages in
the buffer. -/
structure Write where
  con : Nat
  closed : Bool
  pending : Nat
  data : List MsgpackObject
  cause : Cause
  sent : Bool

/-- What happens to the calls between plugins: a request has been written and is waited for, after so
many calls of `crypto_write`; a response went to a `callinfo`; `connection_send_request` has returned; a
notification was addressed to a connection; a `callid` was made for a connection; the result for a
`callid` was acknowledged. -/
inductive Occurrence where
  | called (con cinfo : Nat) (msgid : UInt64) (writes : Nat)
  | answered (con cinfo : Nat) (msgid : UInt64) (error result : MsgpackObject)
  | finished (con : Nat) (msgid : UInt64) (error : Option ApiError) (result : Object)
  | raised (con : Nat) (m : MsgpackObject)
  | created (callid : UInt64) (con : Nat)
  | delivered (callid : UInt64)

structure Core where
  nextConId : Nat
  connections : Nat → Option Connection
  /-- `pluginkeys`, by the string at the time of the entry. The source keeps the address of
  `con->cc.pluginkeystring`; what is there changes only if the connection authenticates after a
  rejected initiate packet has entered it (`pluginkeys_by_address`). -/
  pluginkeys : Bytes → Option Nat
  eventStrings : StringSet
  /-- `callids`: the connection whose `pluginkeystring` the entry points to. -/
  callids : UInt64 → Option Nat
  sbuf : List MsgpackObject
  queue : List RequestEvent
  calls : List Callinfo
  stack : List Frame
  halt : Option Halt
  decoded : Nat
  received : List Message
  invoked : List (Nat × Handler)
  trace : List Write
  record : List Occurrence

/-- The core after `connection_init`. -/
def Core.init : Core where
  nextConId := 1
  connections := fun _ => none
  pluginkeys := fun _ => none
  eventStrings := ⟨false, []⟩
  callids := fun _ => none
  sbuf := []
  queue := []
  calls := []
  stack := []
  halt := none
  decoded := 0
  received := []
  invoked := []
  trace := []
  record := []

/-- The C string in `con->cc.pluginkeystring`. -/
def Connection.pluginkey (con : Connection) : Bytes := cstr con.tunnel.cc.pluginkeystring

/-- The dispatcher that `connection_handle_request` finds for a message. -/
def requestDispatcher (obj : MsgpackObject) : Except Fault DispatchInfo :=
  match msgpackRpcMethod obj with
  | .error f => .error f
  | .ok none => .ok ⟨.missingMethod, true⟩
  | .ok (some method) => method.viaBin.map msgpackRpcGetHandlerFor

/-- The arguments that `connection_handle_request` finds, `none` if they cannot be decoded. -/
def requestArguments (obj : MsgpackObject) : Except Fault (Option (List Object)) :=
  match msgpackRpcArgs obj with
  | .error f => .error f
  | .ok args => msgpackRpcToArray args

/-- The middle of `connection_handle_request`: the dispatcher and the arguments of a message. -/
def prepareRequest (obj : MsgpackObject) : Except Fault (DispatchInfo × List Object) :=
  match requestDispatcher obj, requestArguments obj with
  | .error f, _ => .error f
  | .ok _, .error f => .error f
  | .ok dispatcher, .ok (some args) => .ok (dispatcher, args)
  | .ok _, .ok none => .ok (⟨.invalidArguments, true⟩, [])

namespace Core

/-- The end of the process. -/
def stop (c : Core) (h : Halt) : Core := { c with halt := some h }

/-- The table with another connection at `id`. -/
def setConnection (c : Core) (id : Nat) (con : Connection) : Core :=
  { c with connections := fun i => if i = id then some con else c.connections i }

@[simp] theorem setConnection_self (c : Core) (id : Nat) (con : Connection) :
    (c.setConnection id con).connections id = some con := if_pos rfl

theorem setConnection_ne {c : Core} {id i : Nat} (con : Connection) (h : i ≠ id) :
    (c.setConnection id con).connections i = c.connections i := if_neg h

/-- A connection of the table is the one that has been set, or was there under another number. -/
theorem setConnection_cases {c : Core} {id i : Nat} {con con' : Connection}
    (h : (c.setConnection id con).connections i = some con') :
    (i = id ∧ con' = con) ∨ (i ≠ id ∧ c.connections i = some con') := by
  by_cases hi : i = id
  · subst hi
    rw [setConnection_self] at h
    exact Or.inl ⟨rfl, (Option.some.inj h).symm⟩
  · rw [setConnection_ne con hi] at h
    exact Or.inr ⟨hi, h⟩

/-- An assignment to fields of the connection `id`. -/
def modify (c : Core) (id : Nat) (f : Connection → Connection) : Core :=
  match c.connections id with
  | some con => c.setConnection id (f con)
  | none => c

/-- `incref`. -/
def incref (c : Core) (id : Nat) : Core :=
  c.modify id fun con => { con with refcount := con.refcount + 1 }

/-- The connections, in the order in which a loop over the table meets them. -/
def ids (c : Core) : List Nat := (List.range c.nextConId).filter fun id => (c.connections id).isSome

/-- Whether some connection is subscribed to the event. -/
def subscribed (c : Core) (event : Bytes) : Bool :=
  c.ids.any fun id => (c.connections id).any fun con => con.subscribedEvents.names.contains event

/-- The loop of `free_connection` over the subscribed events: each name that nobody else uses leaves
`event_strings`. -/
def dropEvents (c : Core) (events : List Bytes) : Core :=
  { c with eventStrings := { c.eventStrings with
      names := c.eventStrings.names.filter fun n => !(events.contains n) || c.subscribed n } }

/-- `free_connection`: the entry of `pluginkeys` goes by the string, the queued events go with the
queue of the connection. -/
def freeConnection (c : Core) (id : Nat) (con : Connection) : Core :=
  { c with
    connections := fun i => if i = id then none else c.connections i
    pluginkeys := fun k => if k = con.pluginkey then none else c.pluginkeys k
    queue := c.queue.filter fun e => e.con != id }.dropEvents con.subscribedEvents.names

/-- `decref`. -/
def decref (c : Core) (id : Nat) : Core :=
  match c.connections id with
  | some con =>
      if con.refcount - 1 = 0 then c.freeConnection id con
      else c.setConnection id { con with refcount := con.refcount - 1 }
  | none => c

/-! ## §2 Writing -/

variable (W : World)

/-- `msgpack_rpc_serialize_…` into the shared buffer. -/
def pack (c : Core) (m : MsgpackObject) : Core := { c with sbuf := c.sbuf ++ [m] }

/-- `msgpack_sbuffer_clear`. -/
def clear (c : Core) : Core := { c with sbuf := [] }

/-- The record of a call of `crypto_write`. -/
def wrote (c : Core) (w : Write) : Core := { c with trace := c.trace ++ [w] }

/-- The record of occurrences. -/
def note (c : Core) (os : List Occurrence) : Core := { c with record := c.record ++ os }

/-- The connection and the record after a call of `crypto_write` with the result `r`. -/
def written (c : Core) (con : Connection) (r : WriteResult) (w : Write) : Core :=
  (c.setConnection w.con { con with tunnel := afterWrite con.tunnel r }).wrote w

/-- `crypto_write(&con->cc, data, size, con->streams.write)`: whether it returned 0. The output stream
of a connection that was closed has been freed, and so has a connection that is not in the table. -/
def cryptoWrite (c : Core) (id : Nat) (data : List MsgpackObject) (cause : Cause) :
    Except Core (Core × Bool) :=
  match c.connections id with
  | none => .error ((c.wrote ⟨id, true, 0, data, cause, false⟩).stop (.fault .useAfterFree))
  | some con =>
      if con.released then
        .error ((c.wrote ⟨id, con.tunnel.closed, con.pendingRequests, data, cause, false⟩).stop
          (.fault .useAfterFree))
      else
        let r := SploneBox.cryptoWrite W.server con.tunnel.cc (data.flatMap W.msgpack.pack)
          (W.writes c.trace.length)
        let write := Write.mk id con.tunnel.closed con.pendingRequests data cause
        match r.outcome with
        | .sent _ => .ok (c.written con r (write true), true)
        | .failed => .ok (c.written con r (write false), false)
        | .exited => .error ((c.written con r (write false)).stop (.exit 1))

/-- `send_error`. -/
def sendError (c : Core) (id : Nat) (msgid : UInt64) (err : String) (cause : Cause) :
    Except Core Core := do
  let c := c.pack (serializeResponse msgid (some (validationError err)) .nil)
  let (c, _) ← c.cryptoWrite W id c.sbuf cause
  return c.clear

/-- The loop of `broadcast_event` over the subscribed connections. -/
def notify : List Nat → Core → Except Core Core
  | [], c => .ok c
  | id :: ids, c =>
      match c.connections id with
      | none => .error (c.stop (.fault .useAfterFree))
      | some con =>
          if con.pendingRequests ≠ 0 then
            notify ids (c.setConnection id { con with
              delayedNotifications := con.delayedNotifications ++ [c.sbuf] })
          else do
            let (c, _) ← c.cryptoWrite W id c.sbuf .notification
            notify ids c

/-- The connections `broadcast_event` pushes to `subscribed`. -/
def subscribers (c : Core) (event : Bytes) : List Nat :=
  c.ids.filter fun id => (c.connections id).any fun con => con.subscribedEvents.names.contains event

/-- `broadcast_event`. -/
def broadcastEvent (c : Core) (name : Option Bytes) (args : List Object) : Except Core Core :=
  match name with
  | none =>
      if c.ids.any fun id => (c.connections id).any fun con => con.subscribedEvents.used then
        .error (c.stop (.fault .nullPointer))
      else .ok c
  | some name =>
      if c.subscribers (cstr name) = [] then .ok c
      else do
        let m := serializeRequest 0 (cstr name) args
        let ids := c.subscribers (cstr name)
        let c ← notify W ids ((c.note (ids.map (.raised · m))).pack m)
        return c.clear

/-- The loop of `send_delayed_notifications`. -/
def sendDelayed (id : Nat) : List (List MsgpackObject) → Core → Except Core Core
  | [], c => .ok c
  | buffer :: buffers, c => do
      let (c, _) ← c.cryptoWrite W id buffer .notification
      sendDelayed id buffers c

/-- `send_delayed_notifications`. -/
def sendDelayedNotifications (c : Core) (id : Nat) (con : Connection) : Except Core Core := do
  let c ← sendDelayed W id con.delayedNotifications c
  return c.modify id fun con => { con with delayedNotifications := [] }

/-- The flush at the end of `connection_send_request`. -/
def flushNotifications (c : Core) (id : Nat) (con : Connection) : Except Core Core :=
  if con.pendingRequests = 0 then sendDelayedNotifications W c id con else .ok c

/-! ## §3 Requests -/

/-- The end of `connection_request_event`, after the handler. -/
def respond (c : Core) (e : RequestEvent) (r : Reply) : Except Core Core :=
  if e.msgid = noResponse then .ok (c.decref e.con)
  else do
    let c := c.pack (serializeResponse e.msgid r.error r.result)
    let (c, _) ← c.cryptoWrite W e.con c.sbuf (.response e.tag)
    return c.clear.decref e.con

/-- `result.data.array` of what `connection_send_request` returned. -/
def asArray : Object → List Object
  | .array items => items
  | .nil => []
  | o => W.misread o

/-- The deletion with which `handle_result` ends when its call was acknowledged. -/
def deliver (c : Core) (callid : UInt64) : Core :=
  { c with callids := fun i => if i = callid then none else c.callids i }.note [.delivered callid]

/-- What is left of the handler once `connection_send_request` has returned. -/
def acknowledge (c : Core) (e : RequestEvent) (kind : CallKind) (callid : UInt64) (result : Object)
    (error : Option ApiError) : Except Core Core :=
  let r := acknowledged kind callid (asArray W result) error
  let c := if kind = .result ∧ r.error.isNone then c.deliver callid else c
  respond W c e r

/-- The new `callinfo`, and the assignments with which `loop_process_events_until` starts. -/
def pushCallinfo (c : Core) (id : Nat) (msgid : UInt64) : Core :=
  { c.modify id fun con => { con with
      callvector := con.callvector ++ [c.calls.length]
      pendingRequests := con.pendingRequests + 1 } with
    calls := c.calls ++ [⟨msgid, false, false, .nil⟩] }

/-- The wait of `loop_process_events_until`. -/
def waitFor (c : Core) (e : RequestEvent) (id : Nat) (msgid : UInt64) (kind : CallKind)
    (callid : UInt64) : Core :=
  { c.pushCallinfo id msgid with
    stack := .call e id c.calls.length kind callid :: (c.pushCallinfo id msgid).stack }.note
      [.called id c.calls.length msgid c.trace.length]

/-- `connection_send_request` up to the wait, for the handler of `e`. When `crypto_write` fails it
returns at once, with the reference taken and the buffer full. -/
def connectionSendRequest (c : Core) (e : RequestEvent) (kind : CallKind) (callid : UInt64)
    (pluginkey : Bytes) (request : List Object) : Except Core Core :=
  match c.pluginkeys pluginkey with
  | none => acknowledge W c e kind callid .nil (some (validationError "plugin not registered"))
  | some id =>
      match c.connections id with
      | none => acknowledge W c e kind callid .nil (some (validationError "plugin not registered"))
      | some con => do
          let c := c.setConnection id
            { con with refcount := con.refcount + 1, msgid := con.msgid + 1 }
          let c := c.pack (serializeRequest con.msgid.toUInt64 kind.method request)
          let (c, sent) ← c.cryptoWrite W id c.sbuf .request
          if !sent then
            let c := c.note [.finished id con.msgid.toUInt64 none .nil]
            acknowledge W c e kind callid .nil none
          else return c.clear.waitFor e id con.msgid.toUInt64 kind callid

/-- `connection_subscribe`, for a connection that is in the table and not closed. -/
def connectionSubscribe (c : Core) (id : Nat) (event : Bytes) : Core :=
  let c := if c.eventStrings.names.contains event then c
    else { c with eventStrings := ⟨true, c.eventStrings.names ++ [event]⟩ }
  c.modify id fun con =>
    if con.subscribedEvents.names.contains event then con
    else { con with subscribedEvents := ⟨true, con.subscribedEvents.names ++ [event]⟩ }

/-- `unsubscribe`: the tables are asked for what `event_strings` has under the name. `NULL` faults in a
table that has buckets. -/
def unsubscribe (c : Core) (id : Nat) (event : Bytes) : Except Core Core :=
  if c.eventStrings.names.contains event then
    let c := c.modify id fun con => { con with
      subscribedEvents := { con.subscribedEvents with
        names := con.subscribedEvents.names.filter (· != event) } }
    if c.subscribed event then .ok c
    else .ok { c with eventStrings := { c.eventStrings with
      names := c.eventStrings.names.filter (· != event) } }
  else if c.eventStrings.used ∨
      (c.ids.any fun id => (c.connections id).any fun con => con.subscribedEvents.used) then
    .error (c.stop (.fault .nullPointer))
  else .ok c

/-- The entry that `handle_run` makes in `callids`. -/
def putCallid (c : Core) (callid : UInt64) (con : Nat) : Core :=
  { c with callids := fun i => if i = callid then some con else c.callids i }.note
    [.created callid con]

/-- `connection_request_event` on the event `e`. -/
def connectionRequestEvent (c : Core) (e : RequestEvent) : Except Core Core :=
  match c.connections e.con with
  | none => .error (c.stop (.fault .useAfterFree))
  | some con =>
      let c := { c with invoked := c.invoked ++ [(e.tag, e.func)] }
      match e.func.call (W.handlers e.tag) e.args with
      | .reply r => respond W c e r
      | .register name description author license functions =>
          match apiRegister (W.handlers e.tag).db con.pluginkey name description author license functions with
          | .error f => .error (c.stop (.fault f))
          | .ok (error, _) => respond W c e ⟨.array [], error⟩
      | .broadcast event args => do
          let c ← broadcastEvent W c event args
          respond W c e (.ok [])
      | .subscribe event =>
          if con.tunnel.closed then .error (c.stop .abort)
          else respond W (c.connectionSubscribe e.con event) e (.ok [])
      | .unsubscribe event =>
          if con.tunnel.closed then .error (c.stop .abort)
          else do
            let c ← c.unsubscribe e.con event
            respond W c e (.ok [])
      | .run callid target verify request =>
          let c := c.putCallid callid e.con
          match verify with
          | .error f => .error (c.stop (.fault f))
          | .ok (some err) => respond W c e ⟨.array [], some err⟩
          | .ok none => connectionSendRequest W c e .run callid target request
      | .result callid request =>
          match c.callids callid with
          | none =>
              respond W c e (.failed "Failed to find target's key associated with given callid.")
          | some owner =>
              match c.connections owner with
              | none => .error (c.stop (.fault .useAfterFree))
              | some o => connectionSendRequest W c e .result callid o.pluginkey request
      | .fault f => .error (c.stop (.fault f))

/-- The record of a new `eventinfo`, and its `incref`. -/
def newRequest (c : Core) (id : Nat) (m : Message) : Core :=
  { c with received := c.received ++ [m] }.incref id

/-- The answer to a message that `msgpack_rpc_validate` refuses. -/
def refuseInvalid (c : Core) (id : Nat) (v : Validation) : Except Core Core :=
  if v.error.isSome then
    sendError W c id v.responseId "Invalid message from connection, closed" .invalid
  else .ok c

/-- The rest of `connection_handle_request`: the event is made, and run or put into the queue. -/
def dispatchRequest (c : Core) (id : Nat) (obj : MsgpackObject) (msgid : UInt64) : Except Core Core :=
  match prepareRequest obj with
  | .error f => .error (c.stop (.fault f))
  | .ok (dispatcher, args) =>
      let e : RequestEvent := ⟨id, c.received.length, dispatcher.func, args, msgid⟩
      let c := c.newRequest id ⟨id, obj, msgid⟩
      if dispatcher.async then connectionRequestEvent W c e
      else .ok { c with queue := c.queue ++ [e] }

/-- `connection_handle_request`. A message that was refused is dispatched like any other. -/
def connectionHandleRequest (c : Core) (id : Nat) (obj : MsgpackObject) : Except Core Core :=
  match msgpackRpcValidate obj with
  | .error f => .error (c.stop (.fault f))
  | .ok v => do
      let c ← refuseInvalid W c id v
      dispatchRequest W c id obj v.responseId

/-! ## §4 Responses and closing -/

/-- `connection_handle_response` for the call `cinfo`, the newest of the connection `id`. -/
def connectionHandleResponse (c : Core) (id cinfo : Nat) (msgid : UInt64)
    (error result : MsgpackObject) : Core :=
  let errored := match error with
    | .nil => false
    | _ => true
  let obj := if errored then error else result
  { c with calls := c.calls.modify cinfo fun info => { info with
      returned := true
      errored := errored
      result := (msgpackRpcToObject obj).getD (W.leftover obj) } }.note
    [.answered id cinfo msgid error result]

/-- The assignments of `call_set_error` to one `callinfo`. -/
def callErrored (calls : List Callinfo) (cinfo : Nat) : List Callinfo :=
  calls.modify cinfo fun info => { info with returned := true, errored := true }

/-- The loop of `call_set_error`. -/
def callSetError (c : Core) (callvector : List Nat) : Core :=
  { c with calls := callvector.foldl callErrored c.calls }

/-- `connection_close`, up to its `uv_run`, called by a `parse_cb` that then goes to its end. -/
def connectionClose (c : Core) (id : Nat) : Core :=
  match c.connections id with
  | none => c
  | some con =>
      if con.tunnel.closed then c.decref id
      else
        let c := c.setConnection id { con with tunnel := { con.tunnel with closed := true } }
        { c with stack := .close id :: c.stack }

/-- The rest of `connection_close`, and the end of the `parse_cb` that called it. -/
def closeReturned (c : Core) (id : Nat) : Core :=
  ((c.modify id fun con => { con with released := true }).decref id).decref id

/-- Whether a response has the id of the newest call of the connection (`is_valid_rpc_response`). -/
def newestCall (c : Core) (con : Connection) (msgid : UInt64) : Option Nat :=
  con.callvector.getLast?.filter fun cinfo => (c.calls[cinfo]?).any fun info => info.msgid == msgid

/-- The unpacker of the connection has given one more object. -/
def unpacked (c : Core) (id : Nat) (con : Connection) (rest : Bytes) : Core :=
  { c.setConnection id { con with mpac := rest } with decoded := c.decoded + 1 }

/-- One round of the decode loop of `parse_cb`; `c` is the core with the frame taken off. -/
def parseObject (c : Core) (id : Nat) (con : Connection) : Except Core Core :=
  if W.nomem c.decoded then .error (c.stop (.exit 2))
  else
    match W.msgpack.next con.mpac with
    | .more => .ok (c.decref id)
    | .parseError => do
        let c ← sendError W c id 0
          "Invalid msgpack payload. This error can also happen when deserializing an object with high level of nesting"
          .undecodable
        return c.decref id
    | .success obj rest =>
        let c := c.unpacked id con rest
        match rpcResponse obj with
        | some (msgid, error, result) =>
            match c.newestCall con msgid with
            | some cinfo =>
                .ok ((c.connectionHandleResponse W id cinfo msgid error result).decref id)
            | none => .ok ((c.callSetError con.callvector).connectionClose id)
        | none => connectionHandleRequest W { c with stack := .parse id :: c.stack } id obj

/-! ## §5 The loop -/

/-- The oldest event of a queue, and the events left. -/
def takeEvent (queue : Option Nat) : List RequestEvent → Option (RequestEvent × List RequestEvent)
  | [] => none
  | e :: es =>
      if queue.all (· == e.con) then some (e, es)
      else (takeEvent queue es).map fun x => (x.1, e :: x.2)

/-- The error of a call that was answered with one. -/
def callError : Object → ApiError
  | .string s => ⟨.exception, ((s.str.map cstr).getD (text "(null)")).take 511⟩
  | .array [.integer 0, .string s] => ⟨.exception, ((s.str.map cstr).getD []).take 511⟩
  | .array [.integer 1, .string s] => ⟨.validation, ((s.str.map cstr).getD []).take 511⟩
  | _ => ⟨.exception, text "unknown error"⟩

/-- The return from `loop_process_events_until` and the rest of `connection_send_request`. -/
def finishCall (c : Core) (e : RequestEvent) (target cinfo : Nat) (kind : CallKind) (callid : UInt64) :
    Except Core Core :=
  match c.connections target, c.calls[cinfo]? with
  | some con, some info => do
      let con := { con with
        callvector := con.callvector.dropLast
        pendingRequests := con.pendingRequests - 1 }
      let c ← flushNotifications W (c.setConnection target con) target con
      let c := c.decref target
      if info.errored then
        let error := some (callError info.result)
        let c := c.note [.finished target info.msgid error .nil]
        acknowledge W c e kind callid .nil error
      else
        let c := c.note [.finished target info.msgid none info.result]
        acknowledge W c e kind callid info.result none
  | _, _ => .error (c.stop (.fault .useAfterFree))

def Frame.isPoll : Frame → Bool
  | .poll => true
  | _ => false

/-- `LOOP_PROCESS_EVENTS`: the queue if it has events, else `loop_poll_events`, which aborts when it is
already running. -/
def loopProcessEvents (c : Core) (queue : Option Nat) : Except Core Core :=
  if (takeEvent queue c.queue).isSome then .ok { c with stack := .drain queue :: c.stack }
  else if c.stack.any Frame.isPoll then .error (c.stop .abort)
  else .ok { c with stack := .poll :: c.stack }

/-- The next move of the thread. -/
def turn (c : Core) : Except Core Core :=
  match c.stack with
  | [] => c.loopProcessEvents none
  | .poll :: rest => .ok { c with stack := rest }
  | .close id :: rest => .ok ({ c with stack := rest }.closeReturned id)
  | .parse id :: rest =>
      match c.connections id with
      | none => .error (c.stop (.fault .useAfterFree))
      | some con => parseObject W { c with stack := rest } id con
  | .drain queue :: rest =>
      match takeEvent queue c.queue with
      | none => .ok { c with stack := rest }
      | some (e, queue) => connectionRequestEvent W { c with queue := queue } e
  | .call e target cinfo kind callid :: rest =>
      if (c.calls[cinfo]?).any fun info => info.returned then
        finishCall W { c with stack := rest } e target cinfo kind callid
      else c.loopProcessEvents (some target)

/-! ## §6 Callbacks -/

/-- Whether the thread is in `uv_run`. -/
def inUvRun (c : Core) : Bool := uvRun c.stack

/-- `connection_create`. -/
def create (c : Core) (env : CreateEnv) : Core :=
  { c.setConnection c.nextConId
      { tunnel := connectionCreate env
        refcount := 1
        msgid := 1
        mpac := []
        pendingRequests := 0
        callvector := []
        delayedNotifications := []
        subscribedEvents := ⟨false, []⟩
        reading := true
        released := false } with
    nextConId := c.nextConId + 1 }

/-- The receiving half of `parse_cb` on the connection, with the registry as it is. -/
def parseData (c : Core) (con : Connection) (seg : Bytes) (env : ReadEnv) : ParseResult :=
  parseCb W.server { con.tunnel with istream := inputstreamReadCb con.tunnel.istream seg }
    { env with registered := fun k => (c.pluginkeys k).isSome }

/-- The connection and the registry after the receiving half. -/
def parsed (c : Core) (id : Nat) (con : Connection) (r : ParseResult) : Core :=
  let c := c.setConnection id { con with tunnel := r.tunnel, refcount := con.refcount + 1 }
  if r.register then
    { c with pluginkeys := fun k =>
        if k = cstr r.tunnel.cc.pluginkeystring then some id else c.pluginkeys k }
  else c

/-- `inputstream_read_cb` with data, up to the decode loop of `parse_cb`. -/
def readCb (c : Core) (id : Nat) (con : Connection) (seg : Bytes) (env : ReadEnv) : Core :=
  let r := c.parseData W con seg env
  let c := c.parsed id con r
  match r.outcome with
  | .ended => c.decref id
  | .duplicate => c.connectionClose id
  | .aborted => c.stop .abort
  | .decode plain =>
      let c := c.modify id fun con => { con with mpac := con.mpac ++ plain }
      { c with stack := .parse id :: c.stack }

/-- `inputstream_read_cb` at the end of the stream. -/
def eofCb (c : Core) (id : Nat) (con : Connection) : Core :=
  (c.setConnection id { con with refcount := con.refcount + 1, reading := false }).connectionClose id

end Core

/-- What can happen next. -/
inductive Label where
  | accept (env : CreateEnv)
  | read (id : Nat) (seg : Bytes) (env : ReadEnv)
  | eof (id : Nat)
  | tick (id : Nat) (fresh : Key)
  | turn

/-- The state a move ends in, also when the process ends in it. -/
def settle : Except Core Core → Core
  | .ok c => c
  | .error c => c

/-- One move. Callbacks run inside `uv_run`, for connections whose streams exist; the minute-key timer
of a closed connection has been stopped. -/
def Core.step (W : World) (c : Core) (l : Label) : Option Core :=
  if c.halt.isSome then none
  else
    match l with
    | .turn => some (settle (c.turn W))
    | .accept env => if c.inUvRun then some (c.create env) else none
    | .read id seg env =>
        match c.connections id with
        | none => none
        | some con =>
            if !c.inUvRun ∨ !con.reading ∨ con.released ∨ seg = []
                ∨ inputstreamAllocCb con.tunnel.istream < seg.length then none
            else some (c.readCb W id con seg env)
    | .eof id =>
        match c.connections id with
        | none => none
        | some con =>
            if !c.inUvRun ∨ !con.reading ∨ con.released then none else some (c.eofCb id con)
    | .tick id fresh =>
        match c.connections id with
        | none => none
        | some con =>
            if !c.inUvRun ∨ con.tunnel.closed then none
            else some (c.setConnection id { con with tunnel := { con.tunnel with
              cc := cryptoUpdateMinutekey con.tunnel.cc fresh
              history := { con.tunnel.history with
                minutekeys := fresh :: con.tunnel.history.minutekeys } } })

end SploneBox
