/-
# SploneBox.Invalid — messages that `msgpack_rpc_validate` refuses.

`connection_handle_request` answers a refused message with an error and then goes on as if nothing had
happened: the method and the arguments are read by accessors that assume an array of three or four
elements, and what they find is dispatched. So a refused message ends in one of three ways — a read of the
wrong type, behind the end or through `NULL`; a handler that runs; an event in the queue — unless the
process does not survive the error response itself, because `crypto_write` has run out of nonces and
calls `exit` (`invalid_contained_iff`).
-/
import SploneBox.Moves
import SploneBox.Plugin
import SploneBox.Wire

namespace SploneBox

open Lib.Machine

/-! ## §1 Validation looks before it reads -/

theorem validateBody_total (type id : UInt64) {xs : List MsgpackObject}
    (hsize : (if type == 2 then 2 else 3) ≤ xs.length) :
    ∃ v, validateBody (.array (.positiveInteger type :: xs)) id = .ok v := by
  -- Every element that is read is there, by the size.
  have helement : ∀ i, i < xs.length →
      ∃ x, element (.positiveInteger type :: xs) (i + 1) = .ok x := by
    intro i hi
    refine ⟨xs[i], ?_⟩
    simp [element, hi]
  have hmethod : ∃ m, msgpackRpcMethod (.array (.positiveInteger type :: xs)) = .ok m := by
    obtain ⟨x, hx⟩ := helement (if type == 2 then 0 else 1) (by split at hsize <;> simp_all <;> omega)
    refine ⟨if x.isString then some x else none, ?_⟩
    have hindex : (if (type == 2) = true then 1 else 2) = (if (type == 2) = true then 0 else 1) + 1 := by
      split <;> rfl
    simp only [msgpackRpcMethod, msgpackRpcIsNotification_cons, MsgpackObject.viaArray, bind, Except.bind,
      hindex, hx]
    rfl
  have hargs : ∃ a, msgpackRpcArgs (.array (.positiveInteger type :: xs)) = .ok a := by
    obtain ⟨x, hx⟩ := helement (if type == 2 then 1 else 2) (by split at hsize <;> simp_all <;> omega)
    refine ⟨if x.isArray then some x else none, ?_⟩
    have hindex : (if (type == 2) = true then 2 else 3) = (if (type == 2) = true then 1 else 2) + 1 := by
      split <;> rfl
    simp only [msgpackRpcArgs, msgpackRpcIsNotification_cons, MsgpackObject.viaArray, bind, Except.bind,
      hindex, hx]
    rfl
  obtain ⟨m, hm⟩ := hmethod
  obtain ⟨a, ha⟩ := hargs
  unfold validateBody
  simp only [hm, ha, bind, Except.bind]
  split
  · exact ⟨_, rfl⟩
  · split
    · exact ⟨_, rfl⟩
    · exact ⟨_, rfl⟩

/-- **`msgpack_rpc_validate` returns on every object.** -/
theorem msgpackRpcValidate_total (obj : MsgpackObject) : ∃ v, msgpackRpcValidate obj = .ok v := by
  unfold msgpackRpcValidate
  split
  · exact ⟨_, rfl⟩
  next type xs =>
    split
    · exact ⟨_, rfl⟩
    next htype =>
    split
    · exact ⟨_, rfl⟩
    next hsize =>
    split
    next hrequest =>
      subst hrequest
      -- A request has its id behind the type, and the id may be of any kind.
      have hlen : xs.length = 3 := by
        by_contra hne
        exact hsize (Or.inl ⟨rfl, by omega⟩)
      match xs, hlen with
      | [a, b, c], _ =>
          cases a with
          | positiveInteger id => exact @validateBody_total 0 id [.positiveInteger id, b, c] (Nat.le_refl 3)
          | _ => exact ⟨_, rfl⟩
    next hrequest =>
      have hnotification : type = messageTypeNotification := by
        by_contra hne
        exact htype ⟨hrequest, hne⟩
      have hlen : xs.length = 2 := by
        by_contra hne
        exact hsize (Or.inr ⟨hnotification, by omega⟩)
      refine validateBody_total type noResponse ?_
      rw [hnotification, hlen]
      decide
  · exact ⟨_, rfl⟩
  · exact ⟨_, rfl⟩

/-! ## §2 What is written -/

/-- `crypto_write` runs out of nonces: the packet is allocated, and the counter wraps before the first
or, with both blocks allocated, before the second box. -/
def outOfNonces (cc : CryptoContext) (env : WriteEnv) : Prop :=
  env.packetAlloc = true ∧
    (cc.nonce + 2 = 0 ∨ env.blockAlloc = true ∧ cc.nonce + 2 + 2 = 0)

instance (cc : CryptoContext) (env : WriteEnv) : Decidable (outOfNonces cc env) :=
  inferInstanceAs (Decidable (_ ∧ _))

theorem cryptoWrite_exited_iff {S : Server} (cc : CryptoContext) (data : Bytes) (env : WriteEnv) :
    (cryptoWrite S cc data env).outcome = .exited ↔ outOfNonces cc env := by
  unfold cryptoWrite nonceUpdate outOfNonces
  cases hp : env.packetAlloc with
  | false => simp
  | true =>
      simp only [Bool.not_true, Bool.false_eq_true, if_false, true_and]
      by_cases hfirst : cc.nonce + 2 = 0
      · simp [hfirst]
      · have hne : ((cc.nonce + 2 == 0) = true) = False := by simpa using hfirst
        rw [cryptoBoxAfternm_zeros]
        simp only [hne, if_false, hfirst, false_or]
        cases hb : env.blockAlloc with
        | false => simp
        | true =>
            by_cases hsecond : cc.nonce + 2 + 2 = 0
            · simp [hsecond]
            · have hne' : ((cc.nonce + 2 + 2 == 0) = true) = False := by simpa using hsecond
              rw [cryptoBoxAfternm_zeros]
              simp only [Bool.not_true, Bool.false_eq_true, if_false, hne', hsecond, and_false]
              split <;> simp

namespace Core

variable {W : World} {c : Core} {id : Nat} {con : Connection}

/-- What holds of a core however a computation that starts in it ends. -/
theorem settle_of_ends {P : Core → Prop} {x : Except Core Core} (h : Ends P P x) : P (settle x) := by
  cases x with
  | ok c => exact h
  | error c => exact h

/-- The messages that were received and the handlers that have been run are the same. -/
structure SameLog (c c' : Core) : Prop where
  received : c'.received = c.received
  invoked : c'.invoked = c.invoked

theorem SameLog.trans {c c' d : Core} (h : SameLog c c') (h' : SameLog c' d) : SameLog c d :=
  ⟨h'.received.trans h.received, h'.invoked.trans h.invoked⟩

/-- What runs after a computation that keeps the log keeps the log from its start. -/
theorem SameLog.ends {α : Type} {c c' : Core} (h : SameLog c c') {f : α → Core} {x : Except Core α}
    (hx : Ends (fun a => SameLog c' (f a)) (SameLog c') x) :
    Ends (fun a => SameLog c (f a)) (SameLog c) x := by
  cases x with
  | ok a => exact h.trans hx
  | error d => exact h.trans hx

theorem decref_log (c : Core) (id : Nat) : SameLog c (c.decref id) := by
  unfold decref
  split
  · split <;> exact ⟨rfl, rfl⟩
  · exact ⟨rfl, rfl⟩

theorem cryptoWrite_log (c : Core) (id : Nat) (data : List MsgpackObject) (cause : Cause) :
    Ends (fun x => SameLog c x.1) (SameLog c) (c.cryptoWrite W id data cause) := by
  have hmove := cryptoWrite_move (W := W) c id data cause
  generalize c.cryptoWrite W id data cause = x at hmove ⊢
  cases hmove <;> exact ⟨rfl, rfl⟩

theorem notify_log : ∀ (ids : List Nat) (c : Core),
    Ends (SameLog c) (SameLog c) (notify W ids c)
  | [], c => ⟨rfl, rfl⟩
  | id :: ids, c => by
      unfold notify
      split
      · exact ⟨rfl, rfl⟩
      · rename_i con hc
        split
        · have hset : SameLog c (c.setConnection id { con with
              delayedNotifications := con.delayedNotifications ++ [c.sbuf] }) := ⟨rfl, rfl⟩
          exact hset.ends (notify_log ids _)
        · refine Ends.bind (cryptoWrite_log c id c.sbuf .notification) ?_
          rintro ⟨c', sent⟩ hc'
          exact SameLog.ends hc' (notify_log ids c')

theorem broadcastEvent_log (c : Core) (name : Option Bytes) (args : List Object) :
    Ends (SameLog c) (SameLog c) (broadcastEvent W c name args) := by
  unfold broadcastEvent
  split
  · split <;> exact ⟨rfl, rfl⟩
  · rename_i n
    split
    · exact ⟨rfl, rfl⟩
    · have hraise : SameLog c (c.raise (cstr n) args) := ⟨rfl, rfl⟩
      refine Ends.bind (hraise.ends (notify_log (c.subscribers (cstr n)) _)) ?_
      intro c' hc'
      exact ⟨hc'.received, hc'.invoked⟩

theorem respond_log (c : Core) (e : RequestEvent) (r : Reply) :
    Ends (SameLog c) (SameLog c) (respond W c e r) := by
  unfold respond
  split
  · exact decref_log c e.con
  · have hpack : SameLog c (c.pack (serializeResponse e.msgid r.error r.result)) := ⟨rfl, rfl⟩
    refine Ends.bind (hpack.ends (cryptoWrite_log _ e.con _ _)) ?_
    rintro ⟨c', sent⟩ hc'
    have hclear : SameLog c c'.clear := ⟨hc'.received, hc'.invoked⟩
    exact hclear.trans (decref_log c'.clear e.con)

/-- **A handler that runs at once is on record**, however the call ends, and nothing is received
meanwhile. -/
theorem connectionRequestEvent_log {e : RequestEvent} (hf : e.func.runsInRead)
    (hc : c.connections e.con = some con) :
    (settle (connectionRequestEvent W c e)).invoked = c.invoked ++ [(e.tag, e.func)] ∧
      (settle (connectionRequestEvent W c e)).received = c.received := by
  set c₁ : Core := { c with invoked := c.invoked ++ [(e.tag, e.func)] } with hc₁
  suffices hlog : SameLog c₁ (settle (connectionRequestEvent W c e)) from ⟨hlog.invoked, hlog.received⟩
  refine settle_of_ends (P := SameLog c₁) ?_
  unfold connectionRequestEvent
  rw [hc]
  dsimp only
  have hcall : (∃ r, e.func.call (W.handlers e.tag) e.args = .reply r) ∨
      ∃ name a, e.func.call (W.handlers e.tag) e.args = .broadcast name a := by
    rcases hf with hf | hf | hf
    · exact Or.inl ⟨_, by rw [hf]; rfl⟩
    · exact Or.inl ⟨_, by rw [hf]; rfl⟩
    · rw [hf]
      exact handleBroadcast_cases e.args
  rcases hcall with ⟨r, heff⟩ | ⟨name, a, heff⟩
  · rw [heff]
    exact respond_log c₁ e r
  · rw [heff]
    refine Ends.bind (broadcastEvent_log c₁ name a) ?_
    intro c' hc'
    exact hc'.ends (respond_log c' e (.ok []))

/-! ## §3 Containment -/

/-- **A message is contained**: at most one error response has been written, no handler has run, nothing
is in the queue, and no memory was misread. -/
structure Contained (c c' : Core) : Prop where
  writes : ∃ ws, c'.trace = c.trace ++ ws ∧ ws.length ≤ 1 ∧ ∀ w ∈ ws, w.cause = .invalid
  handlers : c'.invoked = c.invoked
  queue : c'.queue = c.queue
  memory : ∀ f, c'.halt ≠ some (.fault f)

/-- Dispatching a message misreads memory, runs a handler, or puts an event into the queue. -/
theorem dispatchRequest_uncontained (obj : MsgpackObject) (msgid : UInt64)
    (hc : c.connections id = some con) :
    (∃ f, (settle (dispatchRequest W c id obj msgid)).halt = some (.fault f)) ∨
      (settle (dispatchRequest W c id obj msgid)).invoked ≠ c.invoked ∨
      (settle (dispatchRequest W c id obj msgid)).queue ≠ c.queue := by
  unfold dispatchRequest
  cases hprep : prepareRequest obj with
  | error f => exact Or.inl ⟨f, rfl⟩
  | ok x =>
      obtain ⟨d, args⟩ := x
      have hnew : (c.newRequest id ⟨id, obj, msgid⟩).connections id =
          some { con with refcount := con.refcount + 1 } := by
        unfold newRequest incref modify
        dsimp only
        rw [hc]
        exact setConnection_self _ _ _
      have hsame : (c.newRequest id ⟨id, obj, msgid⟩).invoked = c.invoked ∧
          (c.newRequest id ⟨id, obj, msgid⟩).queue = c.queue := by
        unfold newRequest incref modify
        dsimp only
        rw [hc]
        exact ⟨rfl, rfl⟩
      dsimp only
      split
      -- A handler that runs at once is noted as invoked; any other request goes into the queue.
      next hasync =>
        refine Or.inr (Or.inl ?_)
        rw [(connectionRequestEvent_log (prepareRequest_async hprep hasync) hnew).1, hsame.1]
        simp
      next =>
        refine Or.inr (Or.inr ?_)
        show (c.newRequest id ⟨id, obj, msgid⟩).queue ++ [_] ≠ c.queue
        rw [hsame.2]
        simp

/-- `crypto_write` on a connection whose streams exist. -/
theorem cryptoWrite_live (hc : c.connections id = some con) (hlive : con.released = false)
    (data : List MsgpackObject) (cause : Cause) :
    c.cryptoWrite W id data cause =
      let r := SploneBox.cryptoWrite W.server con.tunnel.cc (data.flatMap W.msgpack.pack)
        (W.writes c.trace.length)
      let write := Write.mk id con.tunnel.closed con.pendingRequests data cause
      match r.outcome with
      | .sent _ => .ok (c.written con r (write true), true)
      | .failed => .ok (c.written con r (write false), false)
      | .exited => .error ((c.written con r (write false)).stop (.exit 1)) := by
  unfold Core.cryptoWrite
  rw [hc]
  dsimp only
  rw [hlive]
  exact if_neg Bool.false_ne_true

/-- The error response, then the dispatch. -/
theorem connectionHandleRequest_refused {obj : MsgpackObject} {i : UInt64} {err : ApiError}
    (hv : msgpackRpcValidate obj = .ok ⟨i, some err⟩) :
    ∃ m, connectionHandleRequest W c id obj =
      (match (c.pack m).cryptoWrite W id (c.pack m).sbuf .invalid with
        | .error e => .error e
        | .ok x => dispatchRequest W x.1.clear id obj i) := by
  refine ⟨serializeResponse i (some (validationError "Invalid message from connection, closed")) .nil,
    ?_⟩
  unfold connectionHandleRequest refuseInvalid sendError
  rw [hv]
  simp only [Option.isSome_some, if_true, bind, Except.bind]
  generalize Core.cryptoWrite W _ id _ .invalid = x
  cases x <;> rfl

/-- **Which refused messages are contained.** A message that `msgpack_rpc_validate` refuses is contained
iff the streams of the connection exist and the error response runs out of nonces. -/
theorem invalid_contained_iff (W : World) (c : Core) (id : Nat) (obj : MsgpackObject)
    (hrefused : ∀ i, msgpackRpcValidate obj ≠ .ok ⟨i, none⟩) :
    Contained c (settle (connectionHandleRequest W c id obj)) ↔
      ∃ con, c.connections id = some con ∧ con.released = false ∧
        outOfNonces con.tunnel.cc (W.writes c.trace.length) := by
  obtain ⟨⟨i, err⟩, hv⟩ := msgpackRpcValidate_total obj
  cases err with
  | none => exact absurd hv (hrefused i)
  | some err =>
  obtain ⟨m, hhandle⟩ := connectionHandleRequest_refused (W := W) (c := c) hv
  rw [hhandle]
  -- whatever is dispatched after the error response is not contained
  have hgoes : ∀ (con : Connection) (r : WriteResult) (w : Write), w.con = id →
      ¬ Contained c (settle (dispatchRequest W ((c.pack m).written con r w).clear id obj i)) := by
    rintro con r w rfl h
    have hconn : ((c.pack m).written con r w).clear.connections w.con =
        some { con with tunnel := afterWrite con.tunnel r } := setConnection_self _ _ _
    rcases dispatchRequest_uncontained (W := W) obj i hconn with ⟨f, hf⟩ | hinv | hqueue
    · exact h.memory f hf
    · exact hinv h.handlers
    · exact hqueue h.queue
  have hwrite : ∀ con, c.connections id = some con → con.released = false →
      (Contained c (settle (match (c.pack m).cryptoWrite W id (c.pack m).sbuf .invalid with
        | .error e => .error e
        | .ok x => dispatchRequest W x.1.clear id obj i)) ↔
      outOfNonces con.tunnel.cc (W.writes c.trace.length)) := by
    intro con hc hlive
    have hpacked : (c.pack m).connections id = some con := hc
    rw [← cryptoWrite_exited_iff (S := W.server) con.tunnel.cc
      ((c.pack m).sbuf.flatMap W.msgpack.pack), cryptoWrite_live hpacked hlive]
    dsimp only
    change _ ↔ (SploneBox.cryptoWrite W.server con.tunnel.cc
      ((c.pack m).sbuf.flatMap W.msgpack.pack) (W.writes (c.pack m).trace.length)).outcome = .exited
    generalize SploneBox.cryptoWrite W.server con.tunnel.cc
      ((c.pack m).sbuf.flatMap W.msgpack.pack) (W.writes (c.pack m).trace.length) = r
    cases hout : r.outcome with
    | sent packet => exact iff_of_false (hgoes con r _ rfl) (by simp)
    | failed => exact iff_of_false (hgoes con r _ rfl) (by simp)
    | exited =>
        refine iff_of_true ⟨⟨[_], rfl, Nat.le_refl 1, ?_⟩, rfl, rfl, ?_⟩ rfl
        · intro w hw
          rw [List.mem_singleton.mp hw]
        · intro f hf
          cases hf
  constructor
  · intro h
    have hmove := cryptoWrite_move (W := W) (c.pack m) id (c.pack m).sbuf .invalid
    generalize hx : (c.pack m).cryptoWrite W id (c.pack m).sbuf .invalid = x at hmove h
    cases hmove with
    | returned sent bytes env hc hl =>
        rw [← hx] at h
        exact ⟨_, hc, hl, (hwrite _ hc hl).mp h⟩
    | exited bytes env hc hl =>
        rw [← hx] at h
        exact ⟨_, hc, hl, (hwrite _ hc hl).mp h⟩
    | lost w hid hsent hw => exact absurd rfl (h.memory .useAfterFree)
  · rintro ⟨con, hc, hl, hout⟩
    exact (hwrite con hc hl).mpr hout

/-- On a fresh connection the object `nil` is not contained. -/
theorem invalid_contained_sample :
    (∀ i, msgpackRpcValidate .nil ≠ .ok ⟨i, none⟩) ∧
      ¬ Contained (Core.init.create Sample.create)
        (settle (connectionHandleRequest Sample.world (Core.init.create Sample.create) 1 .nil)) := by
  have hrefused : ∀ i, msgpackRpcValidate .nil ≠ .ok ⟨i, none⟩ := by
    intro i h
    cases h
  refine ⟨hrefused, fun h => ?_⟩
  obtain ⟨con, hc, -, hout⟩ := (invalid_contained_iff Sample.world _ 1 .nil hrefused).mp h
  cases hc
  revert hout
  decide +kernel

/-- A plugin that sends `nil` ends the core in a read of the wrong type, one that sends
`[7, 5, "register", []]` gets the error response and its request into the queue. -/
theorem invalid_messages_uncontained :
    (exec (Core.step Sample.world) Core.init ([.turn] ++ Sample.connect 1 (Sample.fill 32 3) ++
        [Sample.sends 1 5 .nil, .turn])).map (fun c => c.halt) = some (some (.fault .wrongType)) ∧
      (exec (Core.step Sample.world) Core.init ([.turn] ++ Sample.connect 1 (Sample.fill 32 3) ++
        [Sample.sends 1 5 (.array [.positiveInteger 7, .positiveInteger 5, .str (text "register"),
          .array []]), .turn])).map
        (fun c => (c.halt, c.queue.length, c.trace.map Write.cause)) = some (none, 1, [.invalid]) := by
  have hconnect : exec (Core.step Sample.world) Core.init ([.turn] ++ Sample.connect 1 (Sample.fill 32 3)) =
      some Sample.connected := Sample.exec_connect rfl
  rw [exec_append_of hconnect, exec_append_of hconnect]
  decide +kernel

end Core

end SploneBox
