/-
# SploneBox.Moves — what a move of the core is made of.

Every move is a sequence of few operations: a reference is taken or given back, a message is packed and
written, an event enters or leaves the queue, a frame is pushed or popped, a connection is created, fed,
or closed. `At` lists them: it holds of the places that a move passes through. `step_at` says that every
move that the process survives ends in such a place, and `Died` lists how it ends in the others. What a
move keeps is then shown for each operation, by induction on `At`.

Between two operations the running code holds things that are in no table: references it has taken,
the request it works on. A place is therefore a core together with the list of these (`Hold`); between
two moves the list is empty. This is how a claim about reference counts or about unanswered requests
survives the middle of a function.

The operations say what they know of the core `c₀` in which the move has started and of its label: which
event was taken from the queue, which message was decoded, which call has returned.
-/
import SploneBox.Core

namespace SploneBox

open Lib.Machine

/-- What the running code holds: a reference, a request event (with its reference), or a message packed
into the send buffer. -/
inductive Hold where
  | ref (id : Nat)
  | request (e : RequestEvent)
  | packed (m : MsgpackObject)

/-- The event that a handler broadcasts. -/
def Handler.broadcasts (args : List Object) : Handler → Option Bytes
  | .broadcast =>
      match handleBroadcast args with
      | .broadcast (some name) _ => some (cstr name)
      | _ => none
  | _ => none

/-- The handler broadcasts an event whose name is `NULL`. -/
def Handler.unnamed (args : List Object) : Handler → Bool
  | .broadcast =>
      match handleBroadcast args with
      | .broadcast none _ => true
      | _ => false
  | _ => false

/-- The event that the handler of a message broadcasts. -/
def MsgpackObject.broadcasts (obj : MsgpackObject) : Option Bytes :=
  match prepareRequest obj with
  | .ok (d, args) => d.func.broadcasts args
  | .error _ => none

/-- The handler of a message that is run at once broadcasts an event whose name is `NULL`. -/
def MsgpackObject.unnamed (obj : MsgpackObject) : Bool :=
  match prepareRequest obj with
  | .ok (d, args) => d.async && d.func.unnamed args
  | .error _ => false

/-- Reading the message ends the process: it is no array with a type, or its method or its arguments are taken
from a union under another tag. -/
def MsgpackObject.unreadable (obj : MsgpackObject) : Bool :=
  !(msgpackRpcValidate obj).isOk || !(prepareRequest obj).isOk

def Hold.con : Hold → Option Nat
  | .ref id => some id
  | .request e => some e.con
  | .packed _ => none

/-- The connection that a request is answered to; a notification is not answered. -/
def RequestEvent.answers (e : RequestEvent) : Option Nat :=
  if e.msgid = noResponse then none else some e.con

/-- The connection that the running code may write to, by what it holds. A notification keeps its
reference only to give it back. -/
def Hold.user : Hold → Option Nat
  | .ref id => some id
  | .request e => e.answers
  | .packed _ => none

theorem RequestEvent.con_of_answers {e : RequestEvent} {id : Nat} (h : e.answers = some id) : e.con = id := by
  unfold RequestEvent.answers at h
  split at h
  · cases h
  · exact Option.some.inj h

theorem RequestEvent.answers_eq {e : RequestEvent} (h : e.msgid ≠ noResponse) : e.answers = some e.con :=
  if_neg h

theorem Hold.con_of_user {x : Hold} {id : Nat} (h : x.user = some id) : x.con = some id := by
  cases x with
  | ref i => exact h
  | request e => exact congrArg some (RequestEvent.con_of_answers h)
  | packed m => cases h

/-- No message is in the send buffer. -/
def Cleared (k : List Hold) : Prop := ∀ m, Hold.packed m ∉ k

/-- No request is being worked on. -/
def Idle (k : List Hold) : Prop := ∀ e, Hold.request e ∉ k

theorem cleared_nil : Cleared [] := fun _ h => absurd h List.not_mem_nil

theorem Cleared.ref {k : List Hold} (h : Cleared k) (id : Nat) : Cleared (.ref id :: k) := by
  intro m hm
  rcases List.mem_cons.mp hm with hm | hm
  · cases hm
  · exact h m hm

theorem Cleared.request {k : List Hold} (h : Cleared k) (e : RequestEvent) :
    Cleared (.request e :: k) := by
  intro m hm
  rcases List.mem_cons.mp hm with hm | hm
  · cases hm
  · exact h m hm

theorem idle_nil : Idle [] := fun _ h => absurd h List.not_mem_nil

theorem idle_ref (id : Nat) : Idle [.ref id] := by
  intro e he
  cases List.mem_singleton.mp he

theorem handleBroadcast_cases (args : List Object) :
    (∃ r, handleBroadcast args = .reply r) ∨ ∃ name a, handleBroadcast args = .broadcast name a := by
  unfold handleBroadcast
  split
  · exact Or.inr ⟨_, _, rfl⟩
  all_goals exact Or.inl ⟨_, rfl⟩

theorem handleEvent_cases (operation : Bytes → Effect) (args : List Object) :
    (∃ r, handleEvent operation args = .reply r) ∨ (∃ f, handleEvent operation args = .fault f) ∨
      ∃ event, handleEvent operation args = operation event := by
  unfold handleEvent
  split
  · split
    · exact Or.inr (Or.inr ⟨_, rfl⟩)
    · exact Or.inr (Or.inl ⟨_, rfl⟩)
  all_goals exact Or.inl ⟨_, rfl⟩

/-- What each handler can end in. -/
inductive CallCases (env : HandlerEnv) (args : List Object) (h : Handler) : Prop
  | reply {r : Reply} (heff : h.call env args = .reply r)
  | fault {f : Fault} (heff : h.call env args = .fault f)
  | register {name description author license : Str} {functions : List Object} (hf : h = .register)
      (heff : h.call env args = .register name description author license functions)
  | broadcast {name : Option Bytes} {a : List Object} (hf : h = .broadcast)
      (heff : h.call env args = .broadcast name a) (hname : h.broadcasts args = name.map cstr)
  | subscribe {event : Bytes} (hf : h = .subscribe) (heff : h.call env args = .subscribe event)
  | unsubscribe {event : Bytes} (hf : h = .unsubscribe) (heff : h.call env args = .unsubscribe event)
  | run {callid : UInt64} {target : Bytes} {verify : Except Fault (Option ApiError)} {request : List Object}
      (hf : h = .run) (heff : h.call env args = .run callid target verify request)
  | result {callid : UInt64} {request : List Object} (hf : h = .result)
      (heff : h.call env args = .result callid request)

theorem call_cases (h : Handler) (env : HandlerEnv) (args : List Object) : CallCases env args h := by
  cases h with
  | missingMethod => exact .reply rfl
  | invalidArguments => exact .reply rfl
  | register =>
      cases heff : handleRegister args with
      | reply r => exact .reply heff
      | register name description author license functions => exact .register rfl heff
      | _ =>
          unfold handleRegister at heff
          repeat' split at heff
          all_goals cases heff
  | run =>
      cases heff : handleRun env args with
      | reply r => exact .reply heff
      | run callid target verify request => exact .run rfl heff
      | _ =>
          unfold handleRun apiRun at heff
          repeat' split at heff
          all_goals cases heff
  | result =>
      cases heff : handleResult args with
      | reply r => exact .reply heff
      | result callid request => exact .result rfl heff
      | _ =>
          unfold handleResult at heff
          repeat' split at heff
          all_goals cases heff
  | broadcast =>
      rcases handleBroadcast_cases args with ⟨r, heff⟩ | ⟨name, a, heff⟩
      · exact .reply heff
      · refine .broadcast rfl heff ?_
        simp only [Handler.broadcasts, heff]
        cases name <;> rfl
  | subscribe =>
      rcases handleEvent_cases .subscribe args with ⟨r, heff⟩ | ⟨f, heff⟩ | ⟨event, heff⟩
      · exact .reply heff
      · exact .fault heff
      · exact .subscribe rfl heff
  | unsubscribe =>
      rcases handleEvent_cases .unsubscribe args with ⟨r, heff⟩ | ⟨f, heff⟩ | ⟨event, heff⟩
      · exact .reply heff
      · exact .fault heff
      · exact .unsubscribe rfl heff

/-- The handlers that run inside the read callback. -/
def Handler.runsInRead (h : Handler) : Prop :=
  h = .missingMethod ∨ h = .invalidArguments ∨ h = .broadcast

/-- **No handler that waits runs inside the read callback.** -/
theorem prepareRequest_async {obj : MsgpackObject} {d : DispatchInfo} {args : List Object}
    (h : prepareRequest obj = .ok (d, args)) (hasync : d.async = true) : d.func.runsInRead := by
  have hmissing : ∀ d : DispatchInfo, requestDispatcher obj = .ok d → d.async = true →
      d.func.runsInRead := by
    intro d hd ha
    unfold requestDispatcher at hd
    split at hd
    · cases hd
    · cases hd
      exact Or.inl rfl
    · rename_i method _
      cases hb : method.viaBin with
      | error f =>
          rw [hb] at hd
          cases hd
      | ok name =>
          rw [hb] at hd
          cases hd
          exact Or.inr (Or.inr (async_of_table ha))
  unfold prepareRequest at h
  split at h
  · cases h
  · cases h
  · rename_i d' args' hd _
    cases h
    exact hmissing d hd hasync
  · cases h
    exact Or.inr (Or.inl rfl)

namespace Core

/-! ## §1 Where the thread is -/

/-- The code may write to the connection: by what it holds, or by the `parse_cb` it runs in. -/
def Held (k : List Hold) (c : Core) (id : Nat) : Prop :=
  (∃ h ∈ k, h.user = some id) ∨ Frame.parse id ∈ c.stack

/-- The frames of the two loops: `uv_run` under `loop_poll_events`, and the event queue. -/
inductive LoopFrame : Frame → Prop
  | poll : LoopFrame .poll
  | drain (queue : Option Nat) : LoopFrame (.drain queue)

/-- Where the loops are started: the main loop, or a call that waits. -/
inductive LoopHead : List Frame → Prop
  | main : LoopHead []
  | call (e : RequestEvent) (target cinfo : Nat) (kind : CallKind) (callid : UInt64)
      (rest : List Frame) : LoopHead (.call e target cinfo kind callid :: rest)

/-- **The shapes of the stack.** A loop runs in the main loop or under a call, a call is made from the
event queue, and `parse_cb` and `connection_close` run inside `uv_run`. -/
def Shape : List Frame → Prop
  | [] => True
  | .poll :: rest => LoopHead rest ∧ Shape rest
  | .drain _ :: rest => LoopHead rest ∧ Shape rest
  | .call _ _ _ _ _ :: rest => (∃ queue below, rest = .drain queue :: below) ∧ Shape rest
  | .close _ :: rest => uvRun rest = true ∧ Shape rest
  | .parse _ :: rest => uvRun rest = true ∧ Shape rest

/-- Whether some connection has a table of subscribed events with buckets. -/
def anyUsed (c : Core) : Bool :=
  c.ids.any fun id => (c.connections id).any fun con => con.subscribedEvents.used

/-- The handler of a request ends the process: it hands `NULL` to `memcpy`, to redis or to a table that is
in use, takes the third element of a function for an array, asserts that a closed connection is open, or
uses a connection that is gone. -/
def crashes (W : World) (c : Core) (e : RequestEvent) : Bool :=
  match c.connections e.con with
  | none => true
  | some con =>
      match e.func.call (W.handlers e.tag) e.args with
      | .fault _ => true
      | .register name description author license functions =>
          !(apiRegister (W.handlers e.tag).db con.pluginkey name description author license functions).isOk
      | .run _ _ verify _ => !verify.isOk
      | .broadcast none _ => c.anyUsed
      | .subscribe _ => con.tunnel.closed
      | .unsubscribe event => con.tunnel.closed ||
          (!c.eventStrings.names.contains event && (c.eventStrings.used || c.anyUsed))
      | .result callid _ => (c.callids callid).any fun owner => (c.connections owner).isNone
      | _ => false

/-- The connection that `connection_close` is entered with when a message is a response to no call. -/
def mismatched (W : World) (c : Core) (con : Connection) : Option Connection :=
  match W.msgpack.next con.mpac with
  | .success obj rest =>
      match rpcResponse obj with
      | some (msgid, _, _) =>
          if (c.newestCall con msgid).isNone then some { con with mpac := rest } else none
      | none => none
  | _ => none

/-- The next message of a connection, if it is not a response. -/
def nextMessage (W : World) (con : Connection) : Option MsgpackObject :=
  match W.msgpack.next con.mpac with
  | .success obj _ => if (rpcResponse obj).isSome then none else some obj
  | _ => none

/-- The connection that a move enters `connection_close` with, and the core as it is then. -/
def entering (W : World) (c : Core) : Label → Option (Nat × Core)
  | .eof id => (c.connections id).map fun con =>
      (id, c.setConnection id { con with refcount := con.refcount + 1, reading := false })
  | .read id seg env => (c.connections id).bind fun con =>
      let r := c.parseData W con seg env
      if r.outcome = .duplicate then some (id, c.parsed id con r) else none
  | .turn =>
      match c.stack with
      | .parse id :: below => (c.connections id).bind fun con => (mismatched W c con).map fun con' =>
          (id, ({ c with stack := below }.unpacked id con con'.mpac).callSetError con.callvector)
      | _ => none
  | _ => none

/-- The event that a move broadcasts. -/
def broadcasting (W : World) (c : Core) : Label → Option Bytes
  | .turn =>
      match c.stack with
      | .parse id :: _ =>
          (c.connections id).bind fun con => (nextMessage W con).bind MsgpackObject.broadcasts
      | .drain queue :: _ => (takeEvent queue c.queue).bind fun x => x.1.func.broadcasts x.1.args
      | _ => none
  | _ => none

/-- The key under which the handler of a request looks up the plugin that it calls. -/
def asks (W : World) (c : Core) (e : RequestEvent) : Option Bytes :=
  match e.func.call (W.handlers e.tag) e.args with
  | .run _ target (.ok none) _ => some target
  | .result callid _ => (c.callids callid).bind fun owner => (c.connections owner).map Connection.pluginkey
  | _ => none

/-- The key of the plugin that a move calls. -/
def asking (W : World) (c : Core) : Option Bytes :=
  match c.stack with
  | .drain queue :: _ => (takeEvent queue c.queue).bind fun x => asks W c x.1
  | _ => none

/-- The handler that a move runs ends the process. -/
def crashing (W : World) (c : Core) : Label → Bool
  | .turn =>
      match c.stack with
      | .parse id :: _ => c.anyUsed &&
          (c.connections id).any fun con => (nextMessage W con).any MsgpackObject.unnamed
      | .drain queue :: _ => (takeEvent queue c.queue).any fun x => crashes W c x.1
      | .call _ target _ _ _ :: _ => (c.connections target).isNone
      | _ => false
  | _ => false

/-- **How a move ends the process outside of a handler and of `crypto_write`.** -/
inductive Stops (W : World) (c : Core) : Label → Prop
  | nomem {id : Nat} {below : List Frame} (hs : c.stack = .parse id :: below)
      (hmem : W.nomem c.decoded = true) : Stops W c .turn
  | unreadable {id : Nat} {con : Connection} {below : List Frame} {obj : MsgpackObject}
      (hs : c.stack = .parse id :: below) (hc : c.connections id = some con)
      (hmsg : nextMessage W con = some obj) (hbad : obj.unreadable = true) : Stops W c .turn
  /-- The connection of a `parse_cb` is gone. -/
  | gone {id : Nat} {below : List Frame} (hs : c.stack = .parse id :: below)
      (hc : c.connections id = none) : Stops W c .turn
  /-- A loop polls inside of another one. -/
  | nested (hs : LoopHead c.stack) (hpoll : c.stack.any Frame.isPoll = true) : Stops W c .turn

/-- A move ends the process outside of `crypto_write` and of the receiving half. -/
def Fatal (W : World) (c : Core) (l : Label) : Prop := crashing W c l = true ∨ Stops W c l

/-! ## §2 Single functions -/

variable {W : World}

/-- The ways through `crypto_write`: it returns, it calls `exit`, or the stream is gone. -/
inductive WriteMove (W : World) (c : Core) (id : Nat) (data : List MsgpackObject) (cause : Cause) :
    Except Core (Core × Bool) → Prop
  | returned {con : Connection} (sent : Bool) (bytes : Bytes) (env : WriteEnv)
      (hc : c.connections id = some con) (hl : con.released = false) :
      WriteMove W c id data cause
        (.ok (c.written con (SploneBox.cryptoWrite W.server con.tunnel.cc bytes env)
          ⟨id, con.tunnel.closed, con.pendingRequests, data, cause, sent⟩, sent))
  | exited {con : Connection} (bytes : Bytes) (env : WriteEnv)
      (hc : c.connections id = some con) (hl : con.released = false) :
      WriteMove W c id data cause
        (.error ((c.written con (SploneBox.cryptoWrite W.server con.tunnel.cc bytes env)
          ⟨id, con.tunnel.closed, con.pendingRequests, data, cause, false⟩).stop (.exit 1)))
  | lost (w : Write) (hid : w.con = id) (hsent : w.sent = false)
      (hw : ∀ con, c.connections id = some con →
        con.released = true ∧ w.closed = con.tunnel.closed)
      (hdata : w.data = data) (hcause : w.cause = cause) :
      WriteMove W c id data cause (.error ((c.wrote w).stop (.fault .useAfterFree)))

theorem cryptoWrite_move (c : Core) (id : Nat) (data : List MsgpackObject) (cause : Cause) :
    WriteMove W c id data cause (c.cryptoWrite W id data cause) := by
  unfold Core.cryptoWrite
  split
  · rename_i hc
    exact .lost _ rfl rfl (fun con h => by rw [hc] at h; cases h) rfl rfl
  · rename_i con hc
    split
    · rename_i hl
      refine .lost _ rfl rfl (fun con' h => ?_) rfl rfl
      rw [hc] at h
      cases h
      exact ⟨hl, rfl⟩
    · rename_i hl
      have hl : con.released = false := Bool.eq_false_of_not_eq_true hl
      dsimp only
      split
      · exact .returned true _ _ hc hl
      · exact .returned false _ _ hc hl
      · exact .exited _ _ hc hl

/-- The subscriptions are the same. -/
def SameEvents (c c' : Core) : Prop :=
  c'.nextConId = c.nextConId ∧ ∀ i, ((c'.connections i).map fun con => con.subscribedEvents) =
    (c.connections i).map fun con => con.subscribedEvents

theorem anyUsed_eq (c : Core) : c.anyUsed =
    (List.range c.nextConId).any fun id =>
      ((c.connections id).map fun con => con.subscribedEvents).any fun events => events.used := by
  unfold anyUsed ids
  rw [List.any_filter]
  congr 1
  funext id
  cases c.connections id with
  | none => rfl
  | some con => simp

theorem SameEvents.anyUsed {c c' : Core} (h : SameEvents c c') : c'.anyUsed = c.anyUsed := by
  rw [anyUsed_eq, anyUsed_eq, h.1]
  simp only [h.2]

theorem SameEvents.isSome {c c' : Core} (h : SameEvents c c') (id : Nat) :
    (c'.connections id).isSome = (c.connections id).isSome := by
  have hmap := congrArg Option.isSome (h.2 id)
  simpa using hmap

theorem sameEvents_setConnection {c : Core} {id : Nat} {con con' : Connection}
    (hc : c.connections id = some con) (he : con'.subscribedEvents = con.subscribedEvents) :
    SameEvents c (c.setConnection id con') := by
  refine ⟨rfl, fun i => ?_⟩
  by_cases hi : i = id
  · subst hi
    simp [hc, he]
  · rw [setConnection_ne con' hi]

theorem sameEvents_newRequest (c : Core) (id : Nat) (m : Message) :
    SameEvents c (c.newRequest id m) := by
  unfold newRequest incref modify
  dsimp only
  cases hc : c.connections id with
  | none => exact ⟨rfl, fun _ => rfl⟩
  | some con => exact sameEvents_setConnection (c := { c with received := c.received ++ [m] }) hc rfl

/-- Inside the read callback a handler ends the process only with a name that is `NULL`. -/
theorem unnamed_of_crashes {c : Core} {e : RequestEvent} (hf : e.func.runsInRead)
    (hsome : (c.connections e.con).isSome = true) (h : crashes W c e = true) :
    e.func.unnamed e.args = true ∧ c.anyUsed = true := by
  obtain ⟨con, hc⟩ := Option.isSome_iff_exists.mp hsome
  unfold crashes at h
  rw [hc] at h
  rcases hf with hf | hf | hf
  · rw [hf] at h
    cases h
  · rw [hf] at h
    cases h
  · rw [hf] at h ⊢
    simp only [Handler.call] at h
    simp only [Handler.unnamed]
    rcases handleBroadcast_cases e.args with ⟨r, heff⟩ | ⟨name, a, heff⟩
    · rw [heff] at h
      cases h
    · rw [heff] at h ⊢
      cases name with
      | none => exact ⟨rfl, h⟩
      | some name => cases h

theorem Held.of_stack {k : List Hold} {c c' : Core} {id : Nat} (h : Held k c id)
    (hs : c'.stack = c.stack) : Held k c' id := by
  rcases h with h | h
  · exact Or.inl h
  · exact Or.inr (hs ▸ h)

/-- No branch of the receiving half touches the `closed` flag. -/
theorem parseMessages_flag {S : Server} (t : Tunnel) (env : ReadEnv) :
    (parseMessages S t env).tunnel.closed = t.closed := by
  rcases parseMessages_cases (S := S) t env with
    ⟨hp, _⟩ | ⟨hp, _⟩ | ⟨data, r, _, _, _, _, _, ⟨packet, _, _, hp⟩ | ⟨_, _, _, hp⟩⟩
  · rw [hp]
  · rw [hp]
  · rw [hp]
  · rw [hp]
    exact (finishLoop_flags _ _).2

theorem parseData_closed (W : World) (c : Core) (con : Connection) (seg : Bytes) (env : ReadEnv) :
    (c.parseData W con seg env).tunnel.closed = con.tunnel.closed := by
  unfold parseData parseCb
  dsimp only
  split
  · rfl
  · split
    · rfl
    · exact parseMessages_flag _ _
  · exact parseMessages_flag _ _

theorem connectionClose_closed {c : Core} {id : Nat} {con : Connection}
    (hc : c.connections id = some con) (ho : con.tunnel.closed = true) :
    c.connectionClose id = c.decref id := by
  unfold Core.connectionClose
  rw [hc]
  exact if_pos ho

/-! ## §3 The places of a move -/

/-- The core after a message has been packed and `crypto_write` called with the buffer. -/
def posted (W : World) (c : Core) (id : Nat) (con : Connection) (m : MsgpackObject) (cause : Cause)
    (sent : Bool) (bytes : Bytes) (env : WriteEnv) : Core :=
  (c.pack m).written con (SploneBox.cryptoWrite W.server con.tunnel.cc bytes env)
    ⟨id, con.tunnel.closed, con.pendingRequests, c.sbuf ++ [m], cause, sent⟩

/-- The connection once `loop_process_events_until` has returned. -/
def popped (con : Connection) : Connection :=
  { con with
    callvector := con.callvector.dropLast
    pendingRequests := con.pendingRequests - 1 }

/-- The move takes the event `e` from the queue that is being drained. -/
def Takes (c : Core) (e : RequestEvent) : Prop :=
  ∃ queue below left, c.stack = .drain queue :: below ∧ takeEvent queue c.queue = some (e, left)

/-- What the handler of a request calls another plugin for, and the key under which it looks the plugin
up: the key in the arguments of `run`, the key of the connection that the `callid` was made for. -/
inductive Asks (W : World) (c : Core) (e : RequestEvent) : CallKind → UInt64 → Bytes → Prop
  | run {callid : UInt64} {key : Bytes} {request : List Object}
      (heff : e.func.call (W.handlers e.tag) e.args = .run callid key (.ok none) request) :
      Asks W c e .run callid key
  | result {callid : UInt64} {request : List Object} {owner : Nat} {o : Connection}
      (heff : e.func.call (W.handlers e.tag) e.args = .result callid request)
      (howner : c.callids callid = some owner) (ho : c.connections owner = some o) :
      Asks W c e .result callid o.pluginkey

theorem asking_eq {W : World} {c : Core} {e : RequestEvent} {kind : CallKind} {callid : UInt64} {key : Bytes}
    (ht : Takes c e) (ha : Asks W c e kind callid key) : asking W c = some key := by
  obtain ⟨queue, below, left, hs, htake⟩ := ht
  unfold asking
  rw [hs]
  simp only [htake, Option.bind_some]
  unfold asks
  cases ha with
  | run heff => rw [heff]
  | result heff howner ho =>
      rw [heff]
      simp only [howner, Option.bind_some, ho, Option.map_some]

/-- The handler of `e` has called another plugin in the move that starts in `c₀`, or the call it waited
for has returned. -/
inductive Resumes (W : World) (c₀ c : Core) (e : RequestEvent) (kind : CallKind) (callid : UInt64) : Prop
  | now {key : Bytes} (ht : Takes c₀ e) (ha : Asks W c₀ e kind callid key) (hs : c.stack = c₀.stack)
  | later {target cinfo : Nat} (hs : c₀.stack = .call e target cinfo kind callid :: c.stack)

/-- The messages that are packed for a cause: `connection_request_event`, `send_error` and
`connection_send_response` pack a response, `connection_send_request` a request. -/
inductive Speaks : Cause → MsgpackObject → Prop
  | response (tag : Nat) (msgid : UInt64) (err : Option ApiError) (res : Object) :
      Speaks (.response tag) (serializeResponse msgid err res)
  | error {cause : Cause} (msgid : UInt64) (err : String) (hcause : cause = .invalid ∨ cause = .undecodable) :
      Speaks cause (serializeResponse msgid (some (validationError err)) .nil)
  | request (msgid : UInt64) (kind : CallKind) (request : List Object) :
      Speaks .request (serializeRequest msgid kind.method request)
  | reply (msgid : UInt32) (arg : Object) : Speaks .reply (serializeResponse msgid.toUInt64 none arg)

/-- **The places of the move `l` that starts in `c₀`**: what the running code holds, and the core. -/
inductive At (W : World) (c₀ : Core) : Label → List Hold → Core → Prop
  | start {l : Label} : At W c₀ l [] c₀
  | pushLoop {f : Frame} (hs : LoopHead c₀.stack) (hf : LoopFrame f) :
      At W c₀ .turn [] { c₀ with stack := f :: c₀.stack }
  | popLoop {f : Frame} {below : List Frame} (hs : c₀.stack = f :: below) (hf : LoopFrame f) :
      At W c₀ .turn [] { c₀ with stack := below }
  | popParse {id : Nat} {below : List Frame} (hs : c₀.stack = .parse id :: below) :
      At W c₀ .turn [.ref id] { c₀ with stack := below }
  /-- A message that is not a response has been decoded; the frame stays. -/
  | unpacked {id : Nat} {con : Connection} {below : List Frame} {obj : MsgpackObject} {rest : Bytes}
      (hs : c₀.stack = .parse id :: below) (hc : c₀.connections id = some con)
      (hn : W.msgpack.next con.mpac = .success obj rest) (hr : rpcResponse obj = none) :
      At W c₀ .turn [] (c₀.unpacked id con rest)
  | response {id cinfo : Nat} {con : Connection} {below : List Frame} {obj : MsgpackObject}
      {rest : Bytes} {msgid : UInt64} {error result : MsgpackObject}
      (hs : c₀.stack = .parse id :: below) (hc : c₀.connections id = some con)
      (hn : W.msgpack.next con.mpac = .success obj rest)
      (hr : rpcResponse obj = some (msgid, error, result))
      (hnew : c₀.newestCall con msgid = some cinfo) :
      At W c₀ .turn [.ref id] (({ c₀ with stack := below }.unpacked id con rest).connectionHandleResponse
        W id cinfo msgid error result)
  | mismatch {id : Nat} {con : Connection} {below : List Frame} {obj : MsgpackObject}
      {rest : Bytes} {msgid : UInt64} {error result : MsgpackObject}
      (hs : c₀.stack = .parse id :: below) (hc : c₀.connections id = some con)
      (hn : W.msgpack.next con.mpac = .success obj rest)
      (hr : rpcResponse obj = some (msgid, error, result))
      (hnew : c₀.newestCall con msgid = none) :
      At W c₀ .turn []
        ((({ c₀ with stack := below }.unpacked id con rest).callSetError con.callvector).connectionClose id)
  | dequeue {queue : Option Nat} {below : List Frame} {e : RequestEvent} {left : List RequestEvent}
      (hs : c₀.stack = .drain queue :: below) (ht : takeEvent queue c₀.queue = some (e, left)) :
      At W c₀ .turn [.request e] { c₀ with queue := left }
  /-- A call has returned, and the notifications that waited for it are written. -/
  | returned {e : RequestEvent} {target cinfo : Nat} {kind : CallKind} {callid : UInt64}
      {below : List Frame} {con : Connection} {info : Callinfo} {c : Core}
      (hs : c₀.stack = .call e target cinfo kind callid :: below)
      (hc : c₀.connections target = some con) (hi : c₀.calls[cinfo]? = some info)
      (hr : info.returned = true)
      (hf : flushNotifications W ({ c₀ with stack := below }.setConnection target (popped con)) target
        (popped con) = .ok c) :
      At W c₀ .turn [.ref target, .request e] c
  | closeReturned {id : Nat} {below : List Frame} (hs : c₀.stack = .close id :: below) :
      At W c₀ .turn [] ({ c₀ with stack := below }.closeReturned id)
  | read {id : Nat} {con : Connection} {seg : Bytes} {env : ReadEnv}
      (hc : c₀.connections id = some con) (hu : c₀.inUvRun = true) (hl : con.released = false)
      (hfit : seg.length ≤ inputstreamAllocCb con.tunnel.istream)
      (hab : (c₀.parseData W con seg env).outcome ≠ .aborted) :
      At W c₀ (.read id seg env) [] (c₀.readCb W id con seg env)
  | eof {id : Nat} {con : Connection} (hc : c₀.connections id = some con) (hu : c₀.inUvRun = true)
      (hl : con.released = false) : At W c₀ (.eof id) [] (c₀.eofCb id con)
  | create {env : CreateEnv} (hu : c₀.inUvRun = true) : At W c₀ (.accept env) [] (c₀.create env)
  | tick {id : Nat} {con : Connection} {fresh : Key} (hc : c₀.connections id = some con)
      (ho : con.tunnel.closed = false) :
      At W c₀ (.tick id fresh) [] (c₀.setConnection id { con with tunnel := { con.tunnel with
        cc := cryptoUpdateMinutekey con.tunnel.cc fresh
        history := { con.tunnel.history with
          minutekeys := fresh :: con.tunnel.history.minutekeys } } })
  | decref {l : Label} {k : List Hold} {c : Core} {id : Nat} (h : At W c₀ l (.ref id :: k) c) :
      At W c₀ l k (c.decref id)
  /-- `send_error`. -/
  | error {l : Label} {k : List Hold} {c : Core} {id : Nat} {con : Connection} {msgid : UInt64}
      {err : String} {cause : Cause} (sent : Bool) (bytes : Bytes) (env : WriteEnv) (h : At W c₀ l k c)
      (hh : Held k c id) (hc : c.connections id = some con) (hl : con.released = false)
      (hcause : cause = .invalid ∨ cause = .undecodable) :
      At W c₀ l k (c.posted W id con (serializeResponse msgid (some (validationError err)) .nil) cause sent
        bytes env).clear
  | newRequest {l : Label} {k : List Hold} {c : Core} {id : Nat} {obj : MsgpackObject} {v : Validation}
      {d : DispatchInfo} {args : List Object} (h : At W c₀ l k c) (hp : Frame.parse id ∈ c.stack)
      (hv : msgpackRpcValidate obj = .ok v) (hprep : prepareRequest obj = .ok (d, args)) :
      At W c₀ l (.request ⟨id, c.received.length, d.func, args, v.responseId⟩ :: k)
        (c.newRequest id ⟨id, obj, v.responseId⟩)
  | enqueue {l : Label} {k : List Hold} {c : Core} {e : RequestEvent}
      (h : At W c₀ l (.request e :: k) c) : At W c₀ l k { c with queue := c.queue ++ [e] }
  | invoke {l : Label} {k : List Hold} {c : Core} {e : RequestEvent}
      (h : At W c₀ l (.request e :: k) c) :
      At W c₀ l (.request e :: k) { c with invoked := c.invoked ++ [(e.tag, e.func)] }
  | subscribe {l : Label} {k : List Hold} {c : Core} {id : Nat} {con : Connection} (event : Bytes)
      (h : At W c₀ l k c) (hc : c.connections id = some con) (ho : con.tunnel.closed = false) :
      At W c₀ l k (c.connectionSubscribe id event)
  | unsubscribe {l : Label} {k : List Hold} {c c' : Core} {id : Nat} {event : Bytes}
      (h : At W c₀ l k c) (hu : c.unsubscribe id event = .ok c') : At W c₀ l k c'
  | broadcast {l : Label} {k : List Hold} {c c' : Core} {name : Option Bytes} {args : List Object}
      (h : At W c₀ l k c) (hn : ∀ n, name = some n → broadcasting W c₀ l = some (cstr n))
      (hf : name = none → c.anyUsed = true → crashing W c₀ l = true)
      (hb : broadcastEvent W c name args = .ok c') : At W c₀ l k c'
  | putCallid {l : Label} {k : List Hold} {c : Core} {e : RequestEvent} {callid : UInt64} {key : Bytes}
      {verify : Except Fault (Option ApiError)} {request : List Object} (h : At W c₀ l (.request e :: k) c)
      (ht : Takes c₀ e) (heff : e.func.call (W.handlers e.tag) e.args = .run callid key verify request)
      (hids : c.callids = c₀.callids) (hconns : c.connections = c₀.connections) :
      At W c₀ l (.request e :: k) (c.putCallid callid e.con)
  | answer {l : Label} {k : List Hold} {c : Core} {e : RequestEvent} {con : Connection}
      {err : Option ApiError} {res : Object} (sent : Bool) (bytes : Bytes) (env : WriteEnv)
      (h : At W c₀ l (.request e :: k) c) (hm : e.msgid ≠ noResponse)
      (hc : c.connections e.con = some con) (hl : con.released = false) :
      At W c₀ l (.ref e.con :: k)
        (c.posted W e.con con (serializeResponse e.msgid err res) (.response e.tag) sent bytes env).clear
  /-- A notification gives its reference back. -/
  | silent {l : Label} {k : List Hold} {c : Core} {e : RequestEvent} (h : At W c₀ l (.request e :: k) c)
      (hm : e.msgid = noResponse) : At W c₀ l k (c.decref e.con)
  /-- The reference to the connection that a request is sent to. -/
  | target {l : Label} {k : List Hold} {c : Core} {e : RequestEvent} {kind : CallKind}
      {callid : UInt64} {key : Bytes} {id : Nat} {con : Connection}
      (h : At W c₀ l (.request e :: k) c) (ht : Takes c₀ e) (ha : Asks W c₀ e kind callid key)
      (hs : c.stack = c₀.stack) (hkey : c.pluginkeys key = some id) (hc : c.connections id = some con) :
      At W c₀ l (.ref id :: .request e :: k)
        (c.setConnection id { con with refcount := con.refcount + 1, msgid := con.msgid + 1 })
  /-- When a request could not be written, the buffer stays full and the reference is kept. -/
  | unsent {l : Label} {k : List Hold} {c : Core} {e : RequestEvent} {id : Nat} {con : Connection}
      {request : List Object} {kind : CallKind} {callid : UInt64} {key : Bytes} (msgid : UInt64)
      (bytes : Bytes) (env : WriteEnv) (h : At W c₀ l (.ref id :: .request e :: k) c) (ht : Takes c₀ e)
      (ha : Asks W c₀ e kind callid key) (hkey : c₀.pluginkeys key = some id)
      (hc : c.connections id = some con) (hl : con.released = false) :
      At W c₀ l (.request e :: k)
        ((c.posted W id con (serializeRequest msgid kind.method request) .request false bytes env).note
          [.finished id msgid none .nil])
  | wait {l : Label} {k : List Hold} {c : Core} {e : RequestEvent} {id : Nat} {con : Connection}
      {kind : CallKind} {callid : UInt64} {key : Bytes} (msgid : UInt64) (request : List Object)
      (bytes : Bytes) (env : WriteEnv) (h : At W c₀ l (.ref id :: .request e :: k) c)
      (ht : Takes c₀ e) (ha : Asks W c₀ e kind callid key) (hkey : c₀.pluginkeys key = some id)
      (hs : c.stack = c₀.stack) (hids : kind = .result → c.callids = c₀.callids)
      (hc : c.connections id = some con) (hl : con.released = false) :
      At W c₀ l k ((c.posted W id con (serializeRequest msgid kind.method request) .request true bytes
        env).clear.waitFor e id msgid kind callid)
  /-- `connection_send_request` returns what the response to it has left. -/
  | finished {l : Label} {k : List Hold} {c : Core} {e : RequestEvent} {target cinfo : Nat}
      {kind : CallKind} {callid : UInt64} {info : Callinfo} {error : Option ApiError} {result : Object}
      {ws : List Write} (h : At W c₀ l (.request e :: k) c)
      (hs : c₀.stack = .call e target cinfo kind callid :: c.stack)
      (hi : c₀.calls[cinfo]? = some info) (hr : info.returned = true)
      (hout : error = none → info.errored = false ∧ result = info.result)
      (hrec : c.record = c₀.record) (htrace : c.trace = c₀.trace ++ ws) :
      At W c₀ l (.request e :: k) (c.note [.finished target info.msgid error result])
  | deliver {l : Label} {k : List Hold} {c : Core} {e : RequestEvent} {callid : UInt64}
      (h : At W c₀ l (.request e :: k) c) (hr : Resumes W c₀ c e .result callid)
      (hids : c.callids = c₀.callids) : At W c₀ l (.request e :: k) (c.deliver callid)

/-- **How the move `l` that starts in `c₀` ends the process.** -/
inductive Died (W : World) (c₀ : Core) : Label → Core → Prop
  | stop {l : Label} {k : List Hold} {c : Core} (s : Halt) (h : At W c₀ l k c) (hk : Idle k)
      (hw : Stops W c₀ l) : Died W c₀ l (c.stop s)
  /-- In a handler. -/
  | crash {l : Label} {k : List Hold} {c : Core} (s : Halt) (h : At W c₀ l k c)
      (hf : crashing W c₀ l = true) : Died W c₀ l (c.stop s)
  /-- In `crypto_write`, with a message that is not a response. -/
  | exited {l : Label} {k : List Hold} {c : Core} {id : Nat} {con : Connection} {m : MsgpackObject}
      {cause : Cause} (bytes : Bytes) (env : WriteEnv) (h : At W c₀ l k c) (hh : Held k c id)
      (hc : c.connections id = some con) (hl : con.released = false)
      (hcause : ∀ t, cause ≠ .response t) (hm : Speaks cause m) :
      Died W c₀ l ((c.posted W id con m cause false bytes env).stop (.exit 1))
  | answerExited {l : Label} {k : List Hold} {c : Core} {e : RequestEvent} {con : Connection}
      {err : Option ApiError} {res : Object} (bytes : Bytes) (env : WriteEnv)
      (h : At W c₀ l (.request e :: k) c) (hm : e.msgid ≠ noResponse)
      (hc : c.connections e.con = some con) (hl : con.released = false) :
      Died W c₀ l ((c.posted W e.con con (serializeResponse e.msgid err res) (.response e.tag) false
        bytes env).stop (.exit 1))
  /-- A write to a stream that is gone. -/
  | lost {l : Label} {k : List Hold} {c : Core} {w : Write} (m : MsgpackObject) (h : At W c₀ l k c)
      (hh : Held k c w.con) (hsent : w.sent = false)
      (hw : ∀ con, c.connections w.con = some con →
        con.released = true ∧ w.closed = con.tunnel.closed)
      (hm : Speaks w.cause m) (hdata : w.data = c.sbuf ++ [m]) :
      Died W c₀ l (((c.pack m).wrote w).stop (.fault .useAfterFree))
  | broadcast {l : Label} {k : List Hold} {c c' : Core} {name : Option Bytes} {args : List Object}
      (h : At W c₀ l k c) (hn : ∀ n, name = some n → broadcasting W c₀ l = some (cstr n))
      (hf : name = none → c.anyUsed = true → crashing W c₀ l = true)
      (hb : broadcastEvent W c name args = .error c') : Died W c₀ l c'
  | returned {e : RequestEvent} {target cinfo : Nat} {kind : CallKind} {callid : UInt64}
      {below : List Frame} {con : Connection} {c' : Core}
      (hs : c₀.stack = .call e target cinfo kind callid :: below)
      (hc : c₀.connections target = some con)
      (hf : flushNotifications W ({ c₀ with stack := below }.setConnection target (popped con)) target
        (popped con) = .error c') : Died W c₀ .turn c'
  /-- The connection that a call waits for is gone. -/
  | gone {e : RequestEvent} {target cinfo : Nat} {kind : CallKind} {callid : UInt64}
      {below : List Frame} (s : Halt) (hs : c₀.stack = .call e target cinfo kind callid :: below)
      (hc : c₀.connections target = none) : Died W c₀ .turn ({ c₀ with stack := below }.stop s)
  /-- A failed assertion in the receiving half. -/
  | aborted {id : Nat} {con : Connection} {seg : Bytes} {env : ReadEnv}
      (hc : c₀.connections id = some con) (hab : (c₀.parseData W con seg env).outcome = .aborted) :
      Died W c₀ (.read id seg env) ((c₀.parsed id con (c₀.parseData W con seg env)).stop .abort)

/-! ## §4 The functions of a move -/

section Functions

variable {c₀ : Core} {l : Label}

theorem At.sendError {k : List Hold} {c : Core} {id : Nat} {msgid : UInt64} {err : String}
    {cause : Cause} (h : At W c₀ l k c) (hh : Held k c id)
    (hcause : cause = .invalid ∨ cause = .undecodable) :
    Ends (fun c' => At W c₀ l k c' ∧ c'.stack = c.stack ∧ SameEvents c c') (Died W c₀ l)
      (c.sendError W id msgid err cause) := by
  have hmove := cryptoWrite_move (W := W)
    (c.pack (serializeResponse msgid (some (validationError err)) .nil)) id
    (c.pack (serializeResponse msgid (some (validationError err)) .nil)).sbuf cause
  unfold Core.sendError
  dsimp only
  generalize Core.cryptoWrite W (c.pack (serializeResponse msgid (some (validationError err)) .nil)) id
    (c.pack (serializeResponse msgid (some (validationError err)) .nil)).sbuf cause = x at hmove ⊢
  cases hmove with
  | returned sent bytes env hc hl =>
      exact ⟨.error sent bytes env h hh hc hl hcause, rfl, @sameEvents_setConnection c id _ _ hc rfl⟩
  | exited bytes env hc hl =>
      refine .exited bytes env h hh hc hl ?_ (.error msgid err hcause)
      rintro t rfl
      rcases hcause with hcause | hcause <;> cases hcause
  | lost w hid hsent hw hdata hwhy =>
      subst hid
      exact .lost _ h hh hsent hw (.error msgid err (hwhy ▸ hcause)) hdata

/-- **A request is answered** and its reference given back. -/
theorem At.respond {k : List Hold} {c : Core} {e : RequestEvent} {r : Reply}
    (h : At W c₀ l (.request e :: k) c) :
    Ends (At W c₀ l k) (Died W c₀ l) (respond W c e r) := by
  unfold Core.respond
  split
  · rename_i hm
    exact .silent h hm
  · rename_i hm
    have hmove := cryptoWrite_move (W := W) (c.pack (serializeResponse e.msgid r.error r.result)) e.con
      (c.pack (serializeResponse e.msgid r.error r.result)).sbuf (.response e.tag)
    dsimp only
    generalize Core.cryptoWrite W (c.pack (serializeResponse e.msgid r.error r.result)) e.con
      (c.pack (serializeResponse e.msgid r.error r.result)).sbuf (.response e.tag) = x at hmove ⊢
    cases hmove with
    | returned sent bytes env hc hl => exact .decref (.answer sent bytes env h hm hc hl)
    | exited bytes env hc hl => exact .answerExited bytes env h hm hc hl
    | lost w hid hsent hw hdata hwhy =>
        rw [← hid] at hw
        have hheld : Held (.request e :: k) c w.con :=
          Or.inl ⟨.request e, by simp, (RequestEvent.answers_eq hm).trans (congrArg some hid.symm)⟩
        exact .lost _ h hheld hsent hw
          (hwhy ▸ .response e.tag e.msgid r.error r.result) hdata

/-- The rest of a handler that has called another plugin. -/
theorem At.acknowledge {k : List Hold} {c : Core} {e : RequestEvent} {kind : CallKind}
    {callid : UInt64} {result : Object} {error : Option ApiError}
    (h : At W c₀ l (.request e :: k) c) (hr : Resumes W c₀ c e kind callid)
    (hids : kind = .result → c.callids = c₀.callids) :
    Ends (At W c₀ l k) (Died W c₀ l) (acknowledge W c e kind callid result error) := by
  unfold Core.acknowledge
  dsimp only
  split
  · rename_i hdone
    obtain ⟨rfl, _⟩ := hdone
    exact (h.deliver hr (hids rfl)).respond
  · exact h.respond

/-- A request is sent to another plugin, from the event queue. -/
theorem At.connectionSendRequest {k : List Hold} {c : Core} {e : RequestEvent} {kind : CallKind}
    {callid : UInt64} {pluginkey : Bytes} {request : List Object} (h : At W c₀ l (.request e :: k) c)
    (ht : Takes c₀ e) (ha : Asks W c₀ e kind callid pluginkey) (hs : c.stack = c₀.stack)
    (hkeys : c.pluginkeys = c₀.pluginkeys) (hids : kind = .result → c.callids = c₀.callids) :
    Ends (At W c₀ l k) (Died W c₀ l) (connectionSendRequest W c e kind callid pluginkey request) := by
  unfold Core.connectionSendRequest
  split
  · exact h.acknowledge (.now ht ha hs) hids
  · rename_i id hkey
    split
    · exact h.acknowledge (.now ht ha hs) hids
    · rename_i con hc
      have htarget := h.target ht ha hs hkey hc
      generalize hcore : c.setConnection id
        { con with refcount := con.refcount + 1, msgid := con.msgid + 1 } = c' at htarget ⊢
      have hs' : c'.stack = c₀.stack := by
        rw [← hcore]
        exact hs
      have hids' : kind = .result → c'.callids = c₀.callids := by
        rw [← hcore]
        exact hids
      have hheld : Held (.ref id :: .request e :: k) c' id := Or.inl ⟨.ref id, by simp, rfl⟩
      have hmove := cryptoWrite_move (W := W)
        (c'.pack (serializeRequest con.msgid.toUInt64 kind.method request)) id
        (c'.pack (serializeRequest con.msgid.toUInt64 kind.method request)).sbuf .request
      dsimp only
      generalize Core.cryptoWrite W (c'.pack (serializeRequest con.msgid.toUInt64 kind.method request)) id
        (c'.pack (serializeRequest con.msgid.toUInt64 kind.method request)).sbuf .request = x at hmove ⊢
      cases hmove with
      | returned sent bytes env hc' hl =>
          cases sent with
          | false =>
              exact At.acknowledge
                (htarget.unsent con.msgid.toUInt64 bytes env ht ha (hkeys ▸ hkey) hc' hl)
                (.now ht ha hs') hids'
          | true =>
              exact htarget.wait con.msgid.toUInt64 request bytes env ht ha (hkeys ▸ hkey) hs' hids' hc' hl
      | exited bytes env hc' hl =>
          exact .exited bytes env htarget hheld hc' hl (fun t ht => by cases ht)
            (.request con.msgid.toUInt64 kind request)
      | lost w hid hsent hw hdata hwhy =>
          subst hid
          exact .lost _ htarget hheld hsent hw (hwhy ▸ .request con.msgid.toUInt64 kind request) hdata

/-- **The handler of a request runs**; one that sends a request runs from the event queue. -/
theorem At.connectionRequestEvent {k : List Hold} {c : Core} {e : RequestEvent}
    (h : At W c₀ l (.request e :: k) c)
    (hN : ∀ name, e.func.broadcasts e.args = some name → broadcasting W c₀ l = some name)
    (hF : crashes W c e = true → crashing W c₀ l = true)
    (hcall : e.func = .run ∨ e.func = .result → Takes c₀ e ∧ c.stack = c₀.stack ∧
      c.pluginkeys = c₀.pluginkeys ∧ c.callids = c₀.callids ∧ c.connections = c₀.connections) :
    Ends (At W c₀ l k) (Died W c₀ l) (connectionRequestEvent W c e) := by
  unfold Core.connectionRequestEvent
  unfold crashes at hF
  split
  · rename_i hc
    rw [hc] at hF
    exact .crash _ h (hF rfl)
  rename_i con hc
  rw [hc] at hF
  have hi := h.invoke
  dsimp only at hF ⊢
  cases call_cases e.func (W.handlers e.tag) e.args with
  | reply heff =>
      rw [heff]
      exact hi.respond
  | fault heff =>
      rw [heff] at hF ⊢
      exact .crash _ hi (hF rfl)
  | register _ heff =>
      rw [heff] at hF ⊢
      dsimp only at hF ⊢
      split
      · rename_i f hfault
        exact .crash _ hi (hF (by rw [hfault]; rfl))
      · exact hi.respond
  | @broadcast name args _ heff hb =>
      rw [heff] at hF ⊢
      have hname : ∀ n, name = some n → broadcasting W c₀ l = some (cstr n) := by
        rintro n rfl
        exact hN _ hb
      have hused : name = none → c.anyUsed = true → crashing W c₀ l = true := by
        rintro rfl hused
        exact hF hused
      have hbroad : Ends (At W c₀ l (.request e :: k)) (Died W c₀ l)
          (Core.broadcastEvent W { c with invoked := c.invoked ++ [(e.tag, e.func)] } name args) := by
        cases hx : Core.broadcastEvent W { c with invoked := c.invoked ++ [(e.tag, e.func)] } name args with
        | ok c' => exact hi.broadcast hname hused hx
        | error c' => exact .broadcast hi hname hused hx
      exact Ends.bind hbroad fun c' hc' => hc'.respond
  | @subscribe event _ heff =>
      rw [heff] at hF ⊢
      dsimp only
      split
      · rename_i hcl
        exact .crash _ hi (hF hcl)
      · rename_i ho
        exact (hi.subscribe event hc (Bool.eq_false_of_not_eq_true ho)).respond
  | @unsubscribe event _ heff =>
      rw [heff] at hF ⊢
      dsimp only at hF ⊢
      split
      · rename_i hcl
        exact .crash _ hi (hF (by rw [hcl]; rfl))
      · refine Ends.bind (P := At W c₀ l (.request e :: k)) ?_ fun c' hc' => hc'.respond
        cases hx : Core.unsubscribe { c with invoked := c.invoked ++ [(e.tag, e.func)] } e.con event with
        | ok c' => exact hi.unsubscribe hx
        | error c' =>
            -- only a name that is in no table ends the process here
            unfold Core.unsubscribe at hx
            dsimp only at hx
            split at hx
            · split at hx <;> cases hx
            · rename_i hmiss
              split at hx
              · rename_i hused
                cases hx
                refine .crash _ hi (hF (Bool.or_eq_true_iff.mpr (Or.inr ?_)))
                rw [Bool.and_eq_true, Bool.or_eq_true]
                exact ⟨by simpa using hmiss, hused⟩
              · cases hx
  | @run callid target verify request hf heff =>
      rw [heff] at hF ⊢
      obtain ⟨ht, hs, hkeys, hids, hconns⟩ := hcall (Or.inl hf)
      have hput := hi.putCallid ht heff hids hconns
      cases verify with
      | error f => exact .crash _ hput (hF rfl)
      | ok verdict =>
          cases verdict with
          | some err => exact hput.respond
          | none => exact hput.connectionSendRequest ht (.run heff) hs hkeys (fun hk => by cases hk)
  | result hf heff =>
      rw [heff] at hF ⊢
      obtain ⟨ht, hs, hkeys, hids, hconns⟩ := hcall (Or.inr hf)
      dsimp only at hF ⊢
      split
      · exact hi.respond
      · rename_i owner howner
        split
        · rename_i hgone
          exact .crash _ hi (hF (by simp [howner, hgone]))
        · rename_i o ho
          refine hi.connectionSendRequest ht ?_ hs hkeys fun _ => hids
          exact .result heff (hids ▸ howner) (hconns ▸ ho)

theorem At.dispatchRequest {c : Core} {id : Nat} {obj : MsgpackObject} {v : Validation}
    (h : At W c₀ l [] c) (hp : Frame.parse id ∈ c.stack) (hsome : (c.connections id).isSome = true)
    (hv : msgpackRpcValidate obj = .ok v)
    (hN : ∀ name, obj.broadcasts = some name → broadcasting W c₀ l = some name)
    (hF : obj.unnamed = true → c.anyUsed = true → crashing W c₀ l = true)
    (hw : obj.unreadable = true → Stops W c₀ l) :
    Ends (At W c₀ l []) (Died W c₀ l) (dispatchRequest W c id obj v.responseId) := by
  unfold Core.dispatchRequest
  cases hprep : prepareRequest obj with
  | error f =>
      refine .stop _ h idle_nil (hw ?_)
      unfold MsgpackObject.unreadable
      rw [hprep]
      exact Bool.or_true _
  | ok x =>
      obtain ⟨d, args⟩ := x
      have hnew := h.newRequest hp hv hprep
      have hsame := sameEvents_newRequest c id ⟨id, obj, v.responseId⟩
      dsimp only
      split
      · rename_i hasync
        have hread := prepareRequest_async hprep hasync
        refine hnew.connectionRequestEvent (fun name hb => hN name ?_) ?_ ?_
        · simpa only [MsgpackObject.broadcasts, hprep] using hb
        · intro hcr
          obtain ⟨hun, hused⟩ := unnamed_of_crashes hread ((hsame.isSome id).trans hsome) hcr
          refine hF ?_ (hsame.anyUsed ▸ hused)
          simpa [MsgpackObject.unnamed, hprep, hasync] using hun
        · intro hcall
          simp only at hcall
          rcases hcall with hcall | hcall <;> simp [Handler.runsInRead, hcall] at hread
      · exact hnew.enqueue

/-- **A message is handled**, inside the `parse_cb` that decoded it. -/
theorem At.connectionHandleRequest {c : Core} {id : Nat} {obj : MsgpackObject}
    (h : At W c₀ l [] c) (hp : Frame.parse id ∈ c.stack) (hsome : (c.connections id).isSome = true)
    (hN : ∀ name, obj.broadcasts = some name → broadcasting W c₀ l = some name)
    (hF : obj.unnamed = true → c.anyUsed = true → crashing W c₀ l = true)
    (hw : obj.unreadable = true → Stops W c₀ l) :
    Ends (At W c₀ l []) (Died W c₀ l) (connectionHandleRequest W c id obj) := by
  unfold Core.connectionHandleRequest
  cases hv : msgpackRpcValidate obj with
  | error f =>
      refine .stop _ h idle_nil (hw ?_)
      unfold MsgpackObject.unreadable
      rw [hv]
      rfl
  | ok v =>
      have hsent : Ends (fun c' => At W c₀ l [] c' ∧ c'.stack = c.stack ∧ SameEvents c c') (Died W c₀ l)
          (refuseInvalid W c id v) := by
        unfold refuseInvalid
        split
        · exact h.sendError (Or.inr hp) (Or.inl rfl)
        · exact ⟨h, rfl, rfl, fun _ => rfl⟩
      refine Ends.bind hsent ?_
      rintro c' ⟨h', hs, hsame⟩
      exact h'.dispatchRequest (hs ▸ hp) ((hsame.isSome id).trans hsome) hv hN (hsame.anyUsed ▸ hF) hw

end Functions

/-! ## §5 The loops over notifications -/

/-- The connections differ in the tunnel and in the delayed notifications only. -/
structure Renotified (a b : Connection) : Prop where
  same : b = { a with tunnel := b.tunnel, delayedNotifications := b.delayedNotifications }
  closed : b.tunnel.closed = a.tunnel.closed

/-- **What the loops over notifications change**: such connections, and the trace. -/
structure Notified (c c' : Core) : Prop where
  same : c' = { c with connections := c'.connections, trace := c'.trace }
  connections : ∀ id, Option.Rel Renotified (c.connections id) (c'.connections id)
  trace : ∃ ws, c'.trace = c.trace ++ ws ∧ ∀ w ∈ ws, w.cause = .notification

theorem Renotified.refl (a : Connection) : Renotified a a := ⟨rfl, rfl⟩

theorem Renotified.trans {a b d : Connection} (h : Renotified a b) (h' : Renotified b d) :
    Renotified a d := by
  refine ⟨?_, h'.closed.trans h.closed⟩
  rw [h'.same, h.same]

theorem Notified.refl (c : Core) : Notified c c := by
  refine ⟨rfl, fun id => ?_, [], by simp, by simp⟩
  cases c.connections id with
  | none => exact .none
  | some con => exact .some (Renotified.refl con)

theorem Notified.trans {c c' d : Core} (h : Notified c c') (h' : Notified c' d) : Notified c d := by
  refine ⟨?_, fun id => ?_, ?_⟩
  · rw [h'.same, h.same]
  · have hrel := h.connections id
    have hrel' := h'.connections id
    generalize c.connections id = x at hrel ⊢
    generalize c'.connections id = y at hrel hrel'
    generalize d.connections id = z at hrel' ⊢
    cases hrel with
    | none =>
        cases hrel'
        exact .none
    | some hab =>
        cases hrel' with
        | some hbd => exact .some (hab.trans hbd)
  · obtain ⟨ws, hws, hn⟩ := h.trace
    obtain ⟨ws', hws', hn'⟩ := h'.trace
    refine ⟨ws ++ ws', by rw [hws', hws, List.append_assoc], fun w hw => ?_⟩
    rcases List.mem_append.mp hw with hw | hw
    · exact hn w hw
    · exact hn' w hw

theorem renotified_setConnection {c : Core} {id : Nat} {con con' : Connection}
    (hc : c.connections id = some con) (h : Renotified con con') (i : Nat) :
    Option.Rel Renotified (c.connections i) ((c.setConnection id con').connections i) := by
  by_cases hi : i = id
  · subst hi
    rw [hc, setConnection_self]
    exact .some h
  · rw [setConnection_ne con' hi]
    exact (Notified.refl c).connections i

theorem notified_written {c : Core} {con : Connection} (r : WriteResult) (w : Write)
    (hc : c.connections w.con = some con) (hw : w.cause = .notification) :
    Notified c (c.written con r w) := by
  refine ⟨rfl, renotified_setConnection (c := c) hc ⟨rfl, rfl⟩, [w], rfl, fun w' hw' => ?_⟩
  rw [List.mem_singleton.mp hw']
  exact hw

theorem notified_cryptoWrite {c c' : Core} {id : Nat} {data : List MsgpackObject} {sent : Bool}
    (h : c.cryptoWrite W id data .notification = .ok (c', sent)) : Notified c c' := by
  have hmove := cryptoWrite_move (W := W) c id data .notification
  rw [h] at hmove
  cases hmove with
  | returned _ bytes env hc hl => exact notified_written _ _ hc rfl

theorem notified_sendDelayed {id : Nat} : ∀ {buffers : List (List MsgpackObject)} {c c' : Core},
    sendDelayed W id buffers c = .ok c' → Notified c c'
  | [], c, c', h => by
      cases h
      exact Notified.refl c
  | buffer :: buffers, c, c', h => by
      unfold Core.sendDelayed at h
      cases hw : c.cryptoWrite W id buffer .notification with
      | error d =>
          rw [hw] at h
          cases h
      | ok x =>
          rw [hw] at h
          exact (notified_cryptoWrite hw).trans (notified_sendDelayed h)

theorem notified_flush {c c' : Core} {id : Nat} {con : Connection}
    (h : flushNotifications W c id con = .ok c') : Notified c c' := by
  unfold flushNotifications sendDelayedNotifications at h
  split at h
  · cases hd : sendDelayed W id con.delayedNotifications c with
    | error d =>
        rw [hd] at h
        cases h
    | ok d =>
        rw [hd] at h
        cases h
        refine (notified_sendDelayed hd).trans ?_
        unfold modify
        split
        · rename_i con' hc
          exact ⟨rfl, renotified_setConnection hc ⟨rfl, rfl⟩, [], by simp [setConnection], by simp⟩
        · exact Notified.refl d
  · cases h
    exact Notified.refl c

theorem notified_notify : ∀ {ids : List Nat} {c c' : Core}, notify W ids c = .ok c' → Notified c c'
  | [], c, c', h => by
      cases h
      exact Notified.refl c
  | id :: ids, c, c', h => by
      unfold Core.notify at h
      split at h
      · cases h
      · rename_i con hc
        split at h
        · have hdelay : Notified c (c.setConnection id
              { con with delayedNotifications := con.delayedNotifications ++ [c.sbuf] }) :=
            ⟨rfl, renotified_setConnection hc ⟨rfl, rfl⟩, [], by simp [setConnection], by simp⟩
          exact hdelay.trans (notified_notify h)
        · cases hw : c.cryptoWrite W id c.sbuf .notification with
          | error d =>
              rw [hw] at h
              cases h
          | ok x =>
              rw [hw] at h
              exact (notified_cryptoWrite hw).trans (notified_notify h)

/-- The message of a broadcast, and the record that it has been raised. -/
def raise (c : Core) (name : Bytes) (args : List Object) : Core :=
  (c.note ((c.subscribers name).map (.raised · (serializeRequest 0 name args)))).pack
    (serializeRequest 0 name args)

/-- The ways through `broadcast_event`: nobody is subscribed, or the loop has been over those who are. -/
theorem broadcastEvent_cases {c c' : Core} {name : Option Bytes} {args : List Object}
    (h : broadcastEvent W c name args = .ok c') : c' = c ∨ ∃ n d, name = some n ∧
      notify W (c.subscribers (cstr n)) (c.raise (cstr n) args) = .ok d ∧ c' = d.clear := by
  unfold broadcastEvent at h
  split at h
  · split at h
    · cases h
    · cases h
      exact Or.inl rfl
  · rename_i n
    split at h
    · cases h
      exact Or.inl rfl
    · change notify W (c.subscribers (cstr n)) (c.raise (cstr n) args) >>= _ = _ at h
      cases hd : notify W (c.subscribers (cstr n)) (c.raise (cstr n) args) with
      | error d =>
          rw [hd] at h
          cases h
      | ok d =>
          rw [hd] at h
          cases h
          exact Or.inr ⟨n, d, rfl, hd, rfl⟩

/-! ## §6 The thread and the callbacks -/

section Loop

variable {c₀ : Core}

theorem decref_callids (c : Core) (id : Nat) : (c.decref id).callids = c.callids := by
  unfold decref
  split
  · split <;> rfl
  · rfl

theorem decref_record (c : Core) (id : Nat) :
    (c.decref id).record = c.record ∧ (c.decref id).trace = c.trace := by
  unfold decref
  split
  · split <;> exact ⟨rfl, rfl⟩
  · exact ⟨rfl, rfl⟩

theorem decref_stack (c : Core) (id : Nat) : (c.decref id).stack = c.stack := by
  unfold decref
  split
  · split <;> rfl
  · rfl

theorem decref_halt (c : Core) (id : Nat) : (c.decref id).halt = c.halt := by
  unfold decref
  split
  · split <;> rfl
  · rfl

/-- A call returns, and the handler that made it goes on. -/
theorem At.finishCall {e : RequestEvent} {target cinfo : Nat} {kind : CallKind} {callid : UInt64}
    {below : List Frame} {info : Callinfo} (hs : c₀.stack = .call e target cinfo kind callid :: below)
    (hi : c₀.calls[cinfo]? = some info) (hr : info.returned = true) :
    Ends (At W c₀ .turn []) (Died W c₀ .turn)
      (Core.finishCall W { c₀ with stack := below } e target cinfo kind callid) := by
  unfold Core.finishCall
  dsimp only
  rw [hi]
  cases hc : c₀.connections target with
  | none =>
      exact .gone _ hs hc
  | some con =>
      dsimp only
      cases hf : flushNotifications W ({ c₀ with stack := below }.setConnection target (popped con))
          target (popped con) with
      | error d =>
          have hd := Died.returned hs hc hf
          unfold popped at hf
          rw [hf]
          exact hd
      | ok d =>
          have hd := At.returned hs hc hi hr hf
          have hids : kind = .result → (d.decref target).callids = c₀.callids := by
            intro _
            rw [decref_callids, (notified_flush hf).same]
            rfl
          have hbelow : c₀.stack = .call e target cinfo kind callid :: (d.decref target).stack := by
            rw [decref_stack, (notified_flush hf).same]
            exact hs
          obtain ⟨ws, hws, _⟩ := (notified_flush hf).trace
          have hrec : (d.decref target).record = c₀.record ∧ (d.decref target).trace = c₀.trace ++ ws := by
            rw [(decref_record d target).1, (decref_record d target).2, hws, (notified_flush hf).same]
            exact ⟨rfl, rfl⟩
          unfold popped at hf
          rw [hf]
          show Ends _ _ (ite _ _ _)
          split
          · refine At.acknowledge ?_ (.later hbelow) hids
            exact hd.decref.finished hbelow hi hr (fun h => by cases h) hrec.1 hrec.2
          · rename_i herr
            refine At.acknowledge ?_ (.later hbelow) hids
            exact hd.decref.finished hbelow hi hr
              (fun _ => ⟨Bool.eq_false_of_not_eq_true herr, rfl⟩) hrec.1 hrec.2

/-- One round of the decode loop. Only a message that is handled leaves the frame on the stack. -/
theorem At.parseObject {id : Nat} {con : Connection} {below : List Frame}
    (hs : c₀.stack = .parse id :: below) (hc : c₀.connections id = some con) :
    Ends (At W c₀ .turn []) (Died W c₀ .turn) (parseObject W { c₀ with stack := below } id con) := by
  have hpop : At W c₀ .turn [.ref id] { c₀ with stack := below } := .popParse hs
  unfold Core.parseObject
  split
  · rename_i hmem
    exact .stop _ hpop (idle_ref id) (.nomem hs hmem)
  split
  · exact hpop.decref
  · refine Ends.bind (hpop.sendError (Or.inl ⟨.ref id, by simp, rfl⟩) (Or.inr rfl)) ?_
    rintro c' ⟨h', _⟩
    exact h'.decref
  · rename_i obj rest hnext
    dsimp only
    cases hresp : rpcResponse obj with
    | some r =>
        obtain ⟨msgid, error, result⟩ := r
        dsimp only
        split
        · rename_i cinfo hnewest
          exact (At.response hs hc hnext hresp hnewest).decref
        · rename_i hnewest
          exact .mismatch hs hc hnext hresp hnewest
    | none =>
        -- the frame goes back to where it was
        have hframe : { { c₀ with stack := below }.unpacked id con rest with
            stack := .parse id :: ({ c₀ with stack := below }.unpacked id con rest).stack } =
            c₀.unpacked id con rest := by
          simp only [Core.unpacked, setConnection, hs]
        have hsame : SameEvents c₀ (c₀.unpacked id con rest) :=
          @sameEvents_setConnection c₀ id con { con with mpac := rest } hc rfl
        have hmsg : nextMessage W con = some obj := by simp [nextMessage, hnext, hresp]
        dsimp only
        rw [hframe]
        refine (At.unpacked hs hc hnext hresp).connectionHandleRequest ?_ ?_ ?_ ?_ (.unreadable hs hc hmsg)
        · show Frame.parse id ∈ c₀.stack
          rw [hs]
          exact List.mem_cons_self
        · rw [hsame.isSome, hc]
          rfl
        · intro name hname
          simp [broadcasting, hs, hc, hmsg, hname]
        · intro hun hused
          simp [crashing, hs, hc, hmsg, hun, ← hsame.anyUsed, hused]

theorem At.loopProcessEvents {queue : Option Nat} (hs : LoopHead c₀.stack) :
    Ends (At W c₀ .turn []) (Died W c₀ .turn) (c₀.loopProcessEvents queue) := by
  unfold Core.loopProcessEvents
  split
  · exact .pushLoop hs (.drain queue)
  · split
    · rename_i hpoll
      exact .stop _ .start idle_nil (.nested hs hpoll)
    · exact .pushLoop hs .poll

/-- The next move of the thread. -/
theorem At.turn : Ends (At W c₀ .turn []) (Died W c₀ .turn) (c₀.turn W) := by
  unfold Core.turn
  cases hs : c₀.stack with
  | nil => exact At.loopProcessEvents (hs ▸ .main)
  | cons f below =>
      cases f with
      | poll => exact .popLoop hs .poll
      | close id => exact .closeReturned hs
      | parse id =>
          dsimp only
          split
          · rename_i hc
            exact .stop _ .start idle_nil (.gone hs hc)
          · rename_i con hc
            exact At.parseObject hs hc
      | drain queue =>
          dsimp only
          split
          · exact .popLoop hs (.drain queue)
          · rename_i e left ht
            have hd := At.dequeue (W := W) hs ht
            rw [hs] at hd
            refine hd.connectionRequestEvent ?_ ?_ ?_
            · intro name hname
              simp [broadcasting, hs, ht, hname]
            · intro hcr
              have hcr' : crashes W c₀ e = true := hcr
              simp [crashing, hs, ht, hcr']
            · exact fun _ => ⟨⟨queue, below, left, hs, ht⟩, hs.symm, rfl, rfl, rfl⟩
      | call e target cinfo kind callid =>
          dsimp only
          split
          · rename_i hret
            obtain ⟨info, hinfo, hr⟩ := (Option.any_eq_true _ _).mp hret
            exact At.finishCall hs hinfo hr
          · exact At.loopProcessEvents (hs ▸ .call e target cinfo kind callid below)

/-- **Every move passes through places**: it ends in one, or with the process. -/
theorem step_at {c c' : Core} {l : Label} (hs : c.step W l = some c') :
    At W c l [] c' ∨ Died W c l c' := by
  unfold Core.step at hs
  split at hs
  · cases hs
  cases l with
  | turn =>
      cases hs
      have hturn := @At.turn W c
      cases ht : c.turn W with
      | ok c₁ =>
          rw [ht] at hturn
          exact Or.inl hturn
      | error c₁ =>
          rw [ht] at hturn
          exact Or.inr hturn
  | accept env =>
      dsimp only at hs
      split at hs
      · rename_i hu
        cases hs
        exact Or.inl (.create hu)
      · cases hs
  | read id seg env =>
      dsimp only at hs
      split at hs
      · cases hs
      rename_i con hc
      split at hs
      · cases hs
      rename_i hok
      simp only [not_or, not_lt, Bool.not_eq_true, Bool.not_eq_false'] at hok
      cases hs
      by_cases hab : (c.parseData W con seg env).outcome = .aborted
      · refine Or.inr ?_
        unfold Core.readCb
        dsimp only
        rw [hab]
        exact .aborted hc hab
      · exact Or.inl (.read hc hok.1 hok.2.2.1 hok.2.2.2.2 hab)
  | eof id =>
      dsimp only at hs
      split at hs
      · cases hs
      rename_i con hc
      split at hs
      · cases hs
      rename_i hok
      simp only [not_or, Bool.not_eq_true, Bool.not_eq_false'] at hok
      cases hs
      exact Or.inl (.eof hc hok.1 hok.2.2)
  | tick id fresh =>
      dsimp only at hs
      split at hs
      · cases hs
      rename_i con hc
      split at hs
      · cases hs
      rename_i hok
      simp only [not_or, Bool.not_eq_true] at hok
      cases hs
      exact Or.inl (.tick hc hok.2)

end Loop

/-! ## §7 What a move leaves that ends the process -/

/-- Between the last place of a move and the end of the process: connections keep their flags, nobody is
called, and nothing but notifications is written. -/
structure Faded (c c' : Core) : Prop where
  callids : c'.callids = c.callids
  record : ∃ os, c'.record = c.record ++ os ∧ ∀ o ∈ os, ∃ id m, o = Occurrence.raised id m
  trace : ∃ ws, c'.trace = c.trace ++ ws ∧ ∀ w ∈ ws, w.cause = .notification ∨ w.sent = false
  connections : ∀ id, Option.Rel (fun a b => b.tunnel.closed = a.tunnel.closed) (c.connections id)
    (c'.connections id)

/-- Assignments to other fields. -/
theorem faded_of_eq {c c' : Core} (hids : c'.callids = c.callids) (hrec : c'.record = c.record)
    (htrace : c'.trace = c.trace) (hconns : c'.connections = c.connections) : Faded c c' := by
  refine ⟨hids, ⟨[], by rw [hrec, List.append_nil], by simp⟩,
    ⟨[], by rw [htrace, List.append_nil], by simp⟩, fun id => ?_⟩
  rw [hconns]
  cases c.connections id with
  | none => exact .none
  | some con => exact .some rfl

theorem Faded.trans {c c' d : Core} (h : Faded c c') (h' : Faded c' d) : Faded c d := by
  refine ⟨h'.callids.trans h.callids, ?_, ?_, fun id => ?_⟩
  · obtain ⟨os, hos, hr⟩ := h.record
    obtain ⟨os', hos', hr'⟩ := h'.record
    refine ⟨os ++ os', by rw [hos', hos, List.append_assoc], fun o ho => ?_⟩
    rcases List.mem_append.mp ho with ho | ho
    · exact hr o ho
    · exact hr' o ho
  · obtain ⟨ws, hws, hw⟩ := h.trace
    obtain ⟨ws', hws', hw'⟩ := h'.trace
    refine ⟨ws ++ ws', by rw [hws', hws, List.append_assoc], fun w hin => ?_⟩
    rcases List.mem_append.mp hin with hin | hin
    · exact hw w hin
    · exact hw' w hin
  · have hrel := h.connections id
    have hrel' := h'.connections id
    generalize c.connections id = x at hrel ⊢
    generalize c'.connections id = y at hrel hrel'
    generalize d.connections id = z at hrel' ⊢
    cases hrel with
    | none =>
        cases hrel'
        exact .none
    | some hab =>
        cases hrel' with
        | some hbd => exact .some (hbd.trans hab)

theorem Notified.faded {c c' : Core} (h : Notified c c') : Faded c c' := by
  obtain ⟨ws, hws, hn⟩ := h.trace
  refine ⟨by rw [h.same], ⟨[], by rw [h.same, List.append_nil], by simp⟩,
    ⟨ws, hws, fun w hw => Or.inl (hn w hw)⟩, fun id => ?_⟩
  have hrel := h.connections id
  generalize c.connections id = x at hrel ⊢
  generalize c'.connections id = y at hrel ⊢
  cases hrel with
  | none => exact .none
  | some hab => exact .some hab.closed

theorem faded_setConnection {c : Core} {id : Nat} {con con' : Connection}
    (hc : c.connections id = some con) (hclosed : con'.tunnel.closed = con.tunnel.closed) :
    Faded c (c.setConnection id con') := by
  refine ⟨rfl, ⟨[], by simp [setConnection], by simp⟩, ⟨[], by simp [setConnection], by simp⟩,
    fun i => ?_⟩
  by_cases hi : i = id
  · subst hi
    rw [hc, setConnection_self]
    exact .some hclosed
  · rw [setConnection_ne con' hi]
    exact (faded_of_eq (c := c) rfl rfl rfl rfl).connections i

theorem faded_wrote {c : Core} {w : Write} (hw : w.sent = false) : Faded c (c.wrote w) := by
  refine ⟨rfl, ⟨[], by simp [wrote], by simp⟩, ⟨[w], rfl, ?_⟩, (faded_of_eq rfl rfl rfl rfl).connections⟩
  intro w' hw'
  rw [List.mem_singleton.mp hw']
  exact Or.inr hw

theorem faded_written {c : Core} {con : Connection} (r : WriteResult) (w : Write)
    (hc : c.connections w.con = some con) (hw : w.sent = false) : Faded c (c.written con r w) := by
  have hset : Faded c (c.setConnection w.con { con with tunnel := afterWrite con.tunnel r }) :=
    faded_setConnection hc rfl
  exact hset.trans (faded_wrote hw)

theorem faded_cryptoWrite {c d : Core} {id : Nat} {data : List MsgpackObject} {cause : Cause}
    (h : c.cryptoWrite W id data cause = .error d) : Faded c d := by
  have hmove := cryptoWrite_move (W := W) c id data cause
  rw [h] at hmove
  cases hmove with
  | exited bytes env hc hl => exact (faded_written _ _ hc rfl).trans (faded_of_eq rfl rfl rfl rfl)
  | lost w hid hsent hw => exact (faded_wrote hsent).trans (faded_of_eq rfl rfl rfl rfl)

theorem faded_notify : ∀ {ids : List Nat} {c d : Core}, notify W ids c = .error d → Faded c d
  | [], c, d, h => by cases h
  | id :: ids, c, d, h => by
      unfold Core.notify at h
      split at h
      · cases h
        exact faded_of_eq rfl rfl rfl rfl
      · rename_i con hc
        split at h
        · have hdelay : Notified c (c.setConnection id
              { con with delayedNotifications := con.delayedNotifications ++ [c.sbuf] }) :=
            ⟨rfl, renotified_setConnection hc ⟨rfl, rfl⟩, [], by simp [setConnection], by simp⟩
          exact hdelay.faded.trans (faded_notify h)
        · cases hw : c.cryptoWrite W id c.sbuf .notification with
          | error d' =>
              rw [hw] at h
              cases h
              exact faded_cryptoWrite hw
          | ok x =>
              rw [hw] at h
              exact (notified_cryptoWrite hw).faded.trans (faded_notify h)

theorem faded_sendDelayed {id : Nat} : ∀ {buffers : List (List MsgpackObject)} {c d : Core},
    sendDelayed W id buffers c = .error d → Faded c d
  | [], c, d, h => by cases h
  | buffer :: buffers, c, d, h => by
      unfold Core.sendDelayed at h
      cases hw : c.cryptoWrite W id buffer .notification with
      | error d' =>
          rw [hw] at h
          cases h
          exact faded_cryptoWrite hw
      | ok x =>
          rw [hw] at h
          exact (notified_cryptoWrite hw).faded.trans (faded_sendDelayed h)

theorem faded_flush {c d : Core} {id : Nat} {con : Connection}
    (h : flushNotifications W c id con = .error d) : Faded c d := by
  unfold flushNotifications sendDelayedNotifications at h
  split at h
  · cases hd : sendDelayed W id con.delayedNotifications c with
    | error d' =>
        rw [hd] at h
        cases h
        exact faded_sendDelayed hd
    | ok d' =>
        rw [hd] at h
        cases h
  · cases h

theorem faded_broadcast {c d : Core} {name : Option Bytes} {args : List Object}
    (h : broadcastEvent W c name args = .error d) : Faded c d := by
  unfold broadcastEvent at h
  split at h
  · split at h
    · cases h
      exact faded_of_eq rfl rfl rfl rfl
    · cases h
  · rename_i n
    split at h
    · cases h
    · change notify W (c.subscribers (cstr n)) (c.raise (cstr n) args) >>= _ = _ at h
      cases hd : notify W (c.subscribers (cstr n)) (c.raise (cstr n) args) with
      | error d' =>
          rw [hd] at h
          cases h
          have hraise : Faded c (c.raise (cstr n) args) := by
            refine ⟨rfl, ⟨_, rfl, fun o ho => ?_⟩, ⟨[], by simp [raise, pack, note], by simp⟩,
              (faded_of_eq rfl rfl rfl rfl).connections⟩
            obtain ⟨id, _, rfl⟩ := List.mem_map.mp ho
            exact ⟨id, _, rfl⟩
          exact hraise.trans (faded_notify hd)
      | ok d' =>
          rw [hd] at h
          cases h

theorem faded_parsed (W : World) {c : Core} {id : Nat} {con : Connection} (seg : Bytes) (env : ReadEnv)
    (hc : c.connections id = some con) : Faded c (c.parsed id con (c.parseData W con seg env)) := by
  have hset : Faded c (c.setConnection id { con with
      tunnel := (c.parseData W con seg env).tunnel
      refcount := con.refcount + 1 }) := faded_setConnection hc (parseData_closed W c con seg env)
  unfold parsed
  dsimp only
  split
  · exact hset.trans (faded_of_eq rfl rfl rfl rfl)
  · exact hset

/-- **A move that ends the process** leaves little behind its last place. -/
theorem Died.faded {c₀ c' : Core} {l : Label} (h : Died W c₀ l c') :
    ∃ k c, At W c₀ l k c ∧ Faded c c' := by
  cases h with
  | stop s ha hk hw => exact ⟨_, _, ha, faded_of_eq rfl rfl rfl rfl⟩
  | crash s ha hf => exact ⟨_, _, ha, faded_of_eq rfl rfl rfl rfl⟩
  | @exited _ k c id con m cause bytes env ha hh hc hl hcause =>
      have hpack : Faded c (c.pack m) := faded_of_eq rfl rfl rfl rfl
      have hc' : (c.pack m).connections id = some con := hc
      exact ⟨_, _, ha, (hpack.trans (faded_written _ _ hc' rfl)).trans (faded_of_eq rfl rfl rfl rfl)⟩
  | @answerExited _ k c e con err res bytes env ha hm hc hl =>
      have hpack : Faded c (c.pack (serializeResponse e.msgid err res)) := faded_of_eq rfl rfl rfl rfl
      have hc' : (c.pack (serializeResponse e.msgid err res)).connections e.con = some con := hc
      exact ⟨_, _, ha, (hpack.trans (faded_written _ _ hc' rfl)).trans (faded_of_eq rfl rfl rfl rfl)⟩
  | @lost _ k c w m ha hh hsent hw =>
      have hpack : Faded c (c.pack m) := faded_of_eq rfl rfl rfl rfl
      exact ⟨_, _, ha, (hpack.trans (faded_wrote hsent)).trans (faded_of_eq rfl rfl rfl rfl)⟩
  | broadcast ha hn hf hb => exact ⟨_, _, ha, faded_broadcast hb⟩
  | @returned e target cinfo kind callid below con c' hs hc hf =>
      have hc' : { c₀ with stack := below }.connections target = some con := hc
      have hpop : Faded c₀ { c₀ with stack := below } := faded_of_eq rfl rfl rfl rfl
      have hset : Faded { c₀ with stack := below }
          ({ c₀ with stack := below }.setConnection target (popped con)) := faded_setConnection hc' rfl
      exact ⟨[], c₀, .start, (hpop.trans hset).trans (faded_flush hf)⟩
  | gone s hs hc => exact ⟨[], c₀, .start, faded_of_eq rfl rfl rfl rfl⟩
  | aborted hc hab =>
      exact ⟨[], c₀, .start, (faded_parsed W _ _ hc).trans (faded_of_eq rfl rfl rfl rfl)⟩

end Core

end SploneBox
