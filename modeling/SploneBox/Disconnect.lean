/-
# SploneBox.Disconnect — subscriptions of plugins that go away.

`connection_subscribe` and `connection_unsubscribe` call `abort` if the connection is missing or closed. They
run from the event queue, and a connection can be closed while its requests are queued: the event keeps the
connection allocated, but nothing keeps it open. So a plugin ends the core by asking for a subscription and
hanging up. The core survives exactly as long as connections are closed with no subscription of theirs in the
queue, and no subscription is decoded for a connection that is closed already.

`shuts` is the connection a move closes, `Traced` says where the events and the closed flags at a place of a
move come from; nothing else in a move of the thread calls `abort` (`turn_unaborted`).
-/
import SploneBox.Invalid
import SploneBox.Plugin
import SploneBox.Polling
import SploneBox.Requests

namespace SploneBox

open Lib.Machine

/-! ## §1 Requests that need an open connection -/

/-- The handler gets to `connection_subscribe` or `connection_unsubscribe`. -/
def Handler.subscribes : Handler → List Object → Bool
  | .subscribe, [.string _] => true
  | .unsubscribe, [.string _] => true
  | _, _ => false

/-- The event of such a handler. -/
def RequestEvent.subscribes (e : RequestEvent) : Bool := e.func.subscribes e.args

/-- The message is a request for such a handler. -/
def MsgpackObject.subscribes (obj : MsgpackObject) : Bool :=
  match prepareRequest obj with
  | .ok (d, args) => d.func.subscribes args
  | .error _ => false

theorem handleEvent_subscribes {operation : Bytes → Effect} {args : List Object}
    (h : ∀ r, handleEvent operation args ≠ .reply r) : ∃ s, args = [.string s] := by
  unfold handleEvent at h
  split at h
  · exact ⟨_, rfl⟩
  · exact absurd rfl (h _)
  · exact absurd rfl (h _)

/-- Only these handlers end in a subscription. -/
theorem subscribes_of_call {func : Handler} {env : HandlerEnv} {args : List Object} {event : Bytes}
    (h : func.call env args = .subscribe event ∨ func.call env args = .unsubscribe event) :
    func.subscribes args = true := by
  have hno : ∀ r, func.call env args ≠ .reply r := by
    intro r hr
    rw [hr] at h
    rcases h with h | h <;> cases h
  cases call_cases func env args with
  | reply hr => exact absurd hr (hno _)
  | subscribe hf _ =>
      subst hf
      obtain ⟨s, rfl⟩ := handleEvent_subscribes hno
      rfl
  | unsubscribe hf _ =>
      subst hf
      obtain ⟨s, rfl⟩ := handleEvent_subscribes hno
      rfl
  -- The other handlers have effects of their own.
  | fault hr => rcases h with h | h <;> rw [hr] at h <;> cases h
  | register _ hr => rcases h with h | h <;> rw [hr] at h <;> cases h
  | broadcast _ hr => rcases h with h | h <;> rw [hr] at h <;> cases h
  | run _ hr => rcases h with h | h <;> rw [hr] at h <;> cases h
  | result _ hr => rcases h with h | h <;> rw [hr] at h <;> cases h

theorem call_of_subscribes {func : Handler} {args : List Object} (env : HandlerEnv)
    (h : func.subscribes args = true) :
    (∃ f, func.call env args = .fault f) ∨
      ∃ event, func.call env args = .subscribe event ∨ func.call env args = .unsubscribe event := by
  unfold Handler.subscribes at h
  split at h
  · rename_i event
    cases hcopy : copyEvent event with
    | error f => exact Or.inl ⟨f, by simp only [Handler.call, handleSubscribe, handleEvent, hcopy]⟩
    | ok e => exact Or.inr ⟨e, Or.inl (by simp only [Handler.call, handleSubscribe, handleEvent, hcopy])⟩
  · rename_i event
    cases hcopy : copyEvent event with
    | error f => exact Or.inl ⟨f, by simp only [Handler.call, handleUnsubscribe, handleEvent, hcopy]⟩
    | ok e => exact Or.inr ⟨e, Or.inr (by simp only [Handler.call, handleUnsubscribe, handleEvent, hcopy])⟩
  · cases h

namespace Core

/-! ## §2 Where a move of the thread calls `abort` -/

/-- The computation does not end in `abort`. -/
def Unaborted {α : Type} : Except Core α → Prop := Ends (fun _ => True) fun c => c.halt ≠ some .abort

variable {W : World} {c c' c₀ : Core} {k k' : List Hold} {l : Label} {id : Nat} {con con' : Connection}

theorem unaborted_ok {α : Type} (a : α) : Unaborted (.ok a) := trivial

theorem unaborted_fault {α : Type} (c : Core) (f : Fault) :
    Unaborted (.error (c.stop (.fault f)) : Except Core α) := nofun

theorem unaborted_exit {α : Type} (c : Core) (code : Nat) :
    Unaborted (.error (c.stop (.exit code)) : Except Core α) := nofun

theorem Unaborted.bind {α β : Type} {x : Except Core α} {f : α → Except Core β} (hx : Unaborted x)
    (hf : ∀ a, Unaborted (f a)) : Unaborted (x >>= f) :=
  Ends.bind hx fun a _ => hf a

theorem unaborted_cryptoWrite (c : Core) (id : Nat) (data : List MsgpackObject) (cause : Cause) :
    Unaborted (c.cryptoWrite W id data cause) := by
  have hmove := cryptoWrite_move (W := W) c id data cause
  generalize c.cryptoWrite W id data cause = x at hmove ⊢
  cases hmove with
  | returned sent bytes env hc hl => exact unaborted_ok _
  | exited bytes env hc hl => exact unaborted_exit _ 1
  | lost w hid hsent hw => exact unaborted_fault _ _

theorem unaborted_sendError (c : Core) (id : Nat) (msgid : UInt64) (err : String) (cause : Cause) :
    Unaborted (c.sendError W id msgid err cause) :=
  (unaborted_cryptoWrite _ id _ cause).bind fun _ => unaborted_ok _

theorem unaborted_notify : ∀ (ids : List Nat) (c : Core), Unaborted (notify W ids c)
  | [], _ => unaborted_ok _
  | id :: ids, c => by
      unfold notify
      split
      · exact unaborted_fault c _
      · split
        · exact unaborted_notify ids _
        · exact (unaborted_cryptoWrite c id _ _).bind fun x => unaborted_notify ids x.1

theorem unaborted_broadcastEvent (c : Core) (name : Option Bytes) (args : List Object) :
    Unaborted (broadcastEvent W c name args) := by
  unfold broadcastEvent
  split
  · split
    · exact unaborted_fault c _
    · exact unaborted_ok c
  · split
    · exact unaborted_ok c
    · exact (unaborted_notify _ _).bind fun _ => unaborted_ok _

theorem unaborted_sendDelayed (id : Nat) : ∀ (buffers : List (List MsgpackObject)) (c : Core),
    Unaborted (sendDelayed W id buffers c)
  | [], _ => unaborted_ok _
  | buffer :: buffers, c => by
      unfold sendDelayed
      exact (unaborted_cryptoWrite c id _ _).bind fun x => unaborted_sendDelayed id buffers x.1

theorem unaborted_flushNotifications (c : Core) (id : Nat) (con : Connection) :
    Unaborted (flushNotifications W c id con) := by
  unfold flushNotifications
  split
  · exact (unaborted_sendDelayed id _ c).bind fun _ => unaborted_ok _
  · exact unaborted_ok c

theorem unaborted_respond (c : Core) (e : RequestEvent) (r : Reply) : Unaborted (respond W c e r) := by
  unfold respond
  split
  · exact unaborted_ok _
  · exact (unaborted_cryptoWrite _ e.con _ _).bind fun _ => unaborted_ok _

theorem unaborted_acknowledge (c : Core) (e : RequestEvent) (kind : CallKind) (callid : UInt64)
    (result : Object) (error : Option ApiError) :
    Unaborted (acknowledge W c e kind callid result error) := by
  unfold acknowledge
  dsimp only
  split
  · exact unaborted_respond _ e _
  · exact unaborted_respond _ e _

theorem unaborted_connectionSendRequest (c : Core) (e : RequestEvent) (kind : CallKind) (callid : UInt64)
    (pluginkey : Bytes) (request : List Object) :
    Unaborted (connectionSendRequest W c e kind callid pluginkey request) := by
  unfold connectionSendRequest
  split
  · exact unaborted_acknowledge c e kind callid _ _
  · split
    · exact unaborted_acknowledge c e kind callid _ _
    · refine (unaborted_cryptoWrite _ _ _ _).bind ?_
      rintro ⟨d, sent⟩
      cases sent with
      | false => exact unaborted_acknowledge _ e kind callid _ _
      | true => exact unaborted_ok _

theorem unaborted_unsubscribe (c : Core) (id : Nat) (event : Bytes) : Unaborted (c.unsubscribe id event) := by
  unfold unsubscribe
  dsimp only
  split
  · split <;> exact unaborted_ok _
  · split
    · exact unaborted_fault c _
    · exact unaborted_ok c

/-- **A request is run without an abort**, if its connection is open or it subscribes to nothing. -/
theorem unaborted_connectionRequestEvent (e : RequestEvent)
    (h : e.subscribes = true → ∀ con, c.connections e.con = some con → con.tunnel.closed = false) :
    Unaborted (connectionRequestEvent W c e) := by
  unfold connectionRequestEvent
  split
  · exact unaborted_fault c _
  · rename_i con hc
    -- Only the two handlers of subscriptions abort, and both on a closed connection.
    have hopen : ∀ event, e.func.call (W.handlers e.tag) e.args = .subscribe event ∨
        e.func.call (W.handlers e.tag) e.args = .unsubscribe event → con.tunnel.closed = false :=
      fun event heff => h (subscribes_of_call heff) con hc
    dsimp only
    split
    · exact unaborted_respond _ e _
    · split
      · exact unaborted_fault _ _
      · exact unaborted_respond _ e _
    · exact (unaborted_broadcastEvent _ _ _).bind fun d => unaborted_respond d e _
    · rename_i event heff
      rw [hopen event (Or.inl heff), if_neg Bool.false_ne_true]
      exact unaborted_respond _ e _
    · rename_i event heff
      rw [hopen event (Or.inr heff), if_neg Bool.false_ne_true]
      exact (unaborted_unsubscribe _ _ _).bind fun d => unaborted_respond d e _
    · split
      · exact unaborted_fault _ _
      · exact unaborted_respond _ e _
      · exact unaborted_connectionSendRequest _ e _ _ _ _
    · split
      · exact unaborted_respond _ e _
      · split
        · exact unaborted_fault _ _
        · exact unaborted_connectionSendRequest _ e _ _ _ _
    · exact unaborted_fault _ _

theorem waitless_not_subscribes {func : Handler} (h : Handler.waitless func) (args : List Object) :
    func.subscribes args = false := by
  by_contra hsub
  have env : HandlerEnv := ⟨0, fun _ => none⟩
  have heff := call_of_subscribes env (Bool.eq_true_of_not_eq_false hsub)
  rcases h env args with ⟨r, hr⟩ | ⟨name, a, hr⟩ <;> rw [hr] at heff <;>
    rcases heff with ⟨f, heff⟩ | ⟨event, heff | heff⟩ <;> cases heff

/-- What `parse_cb` runs at once subscribes to nothing. -/
theorem unaborted_connectionHandleRequest (c : Core) (id : Nat) (obj : MsgpackObject) :
    Unaborted (connectionHandleRequest W c id obj) := by
  unfold connectionHandleRequest
  split
  · exact unaborted_fault c _
  · rename_i v hv
    have hrefuse : Unaborted (refuseInvalid W c id v) := by
      unfold refuseInvalid
      split
      · exact unaborted_sendError c id _ _ _
      · exact unaborted_ok c
    refine hrefuse.bind fun d => ?_
    unfold dispatchRequest
    split
    · exact unaborted_fault d _
    · rename_i dispatcher args hprep
      dsimp only
      split
      · rename_i hasync
        have hwait := waitless_of_runsInRead (prepareRequest_async hprep hasync)
        refine unaborted_connectionRequestEvent _ fun hsub => ?_
        have hnot := waitless_not_subscribes hwait args
        exact absurd (hnot.symm.trans hsub) Bool.false_ne_true
      · exact unaborted_ok _

theorem unaborted_parseObject (c : Core) (id : Nat) (con : Connection) :
    Unaborted (parseObject W c id con) := by
  unfold parseObject
  split
  · exact unaborted_exit c 2
  · split
    · exact unaborted_ok _
    · exact (unaborted_sendError c id _ _ _).bind fun _ => unaborted_ok _
    · dsimp only
      split
      · split <;> exact unaborted_ok _
      · exact unaborted_connectionHandleRequest _ id _

theorem unaborted_finishCall (c : Core) (e : RequestEvent) (target cinfo : Nat) (kind : CallKind)
    (callid : UInt64) : Unaborted (finishCall W c e target cinfo kind callid) := by
  unfold finishCall
  split
  · refine (unaborted_flushNotifications _ target _).bind fun d => ?_
    dsimp only
    split
    · exact unaborted_acknowledge _ e kind callid _ _
    · exact unaborted_acknowledge _ e kind callid _ _
  · exact unaborted_fault c _

/-- **The only abort of the thread** is in a subscription for a closed connection. -/
theorem turn_unaborted (hshape : Shape c.stack)
    (h : ∀ e, Takes c e → e.subscribes = true →
      ∀ con, c.connections e.con = some con → con.tunnel.closed = false) : Unaborted (c.turn W) := by
  -- A loop aborts where another one polls, which the nesting rules out.
  have hloop : ∀ queue, LoopHead c.stack → Unaborted (c.loopProcessEvents queue) := by
    intro queue hhead
    unfold loopProcessEvents
    split
    · exact unaborted_ok _
    · have hnone : c.stack.any Frame.isPoll = false := by
        have hzero := no_polls hshape hhead
        rw [List.countP_eq_zero] at hzero
        exact List.any_eq_false.mpr hzero
      rw [hnone, if_neg Bool.false_ne_true]
      exact unaborted_ok _
  unfold turn
  split
  · rename_i hs
    exact hloop none (hs ▸ .main)
  · exact unaborted_ok _
  · exact unaborted_ok _
  · split
    · exact unaborted_fault c _
    · exact unaborted_parseObject _ _ _
  · rename_i queue rest hs
    split
    · exact unaborted_ok _
    · rename_i e left ht
      exact unaborted_connectionRequestEvent e fun hsub con hc => h e ⟨queue, rest, left, hs, ht⟩ hsub con hc
  · rename_i e target cinfo kind callid rest hs
    split
    · exact unaborted_finishCall _ e target cinfo kind callid
    · exact hloop (some target) (hs ▸ .call e target cinfo kind callid rest)

/-! ## §3 Which connections a move closes, and which events it queues -/

/-- The connection that a move closes. -/
def shuts (W : World) (c : Core) (l : Label) : Option Nat := (entering W c l).map Prod.fst

/-- The connection is in the table and closed. -/
def ClosedIn (c : Core) (id : Nat) : Prop :=
  ∃ con, c.connections id = some con ∧ con.tunnel.closed = true

/-- No connection has been closed on the way from `c` to `c'`. -/
def ClosesNone (c c' : Core) : Prop := ∀ id, ClosedIn c' id → ClosedIn c id

theorem closesNone_of_eq (h : c'.connections = c.connections) : ClosesNone c c' := by
  rintro id ⟨con, hc, hcl⟩
  rw [h] at hc
  exact ⟨con, hc, hcl⟩

theorem ClosesNone.trans {d : Core} (h : ClosesNone c c') (h' : ClosesNone c' d) : ClosesNone c d :=
  fun id hid => h id (h' id hid)

theorem closesNone_setConnection (hc : c.connections id = some con)
    (hflag : con'.tunnel.closed = con.tunnel.closed) : ClosesNone c (c.setConnection id con') := by
  rintro i ⟨con₁, hc₁, hcl⟩
  rcases setConnection_cases hc₁ with ⟨rfl, rfl⟩ | ⟨-, hc₁⟩
  · exact ⟨con, hc, hflag.symm.trans hcl⟩
  · exact ⟨con₁, hc₁, hcl⟩

theorem closesNone_modify (c : Core) (id : Nat) {f : Connection → Connection}
    (hf : ∀ con, (f con).tunnel.closed = con.tunnel.closed) : ClosesNone c (c.modify id f) := by
  unfold modify
  split
  · rename_i con hc
    exact closesNone_setConnection hc (hf con)
  · exact closesNone_of_eq rfl

theorem closesNone_decref (c : Core) (id : Nat) : ClosesNone c (c.decref id) := by
  unfold decref
  split
  · rename_i con hc
    split
    · rintro i ⟨con₁, hc₁, hcl⟩
      change (if i = id then none else c.connections i) = some con₁ at hc₁
      split at hc₁
      · cases hc₁
      · exact ⟨con₁, hc₁, hcl⟩
    · exact closesNone_setConnection hc rfl
  · exact closesNone_of_eq rfl

theorem Notified.closesNone (h : Notified c c') : ClosesNone c c' := by
  rintro id ⟨con', hc', hcl⟩
  have hrel := h.connections id
  rw [hc'] at hrel
  generalize ho : c.connections id = o at hrel
  cases hrel with
  | @some con _ hab => exact ⟨con, ho, hab.closed.symm.trans hcl⟩

/-- The messages that a move has received up to a place. -/
def news (c₀ c : Core) : List Message := c.received.drop c₀.received.length

/-- The event was made for a message of this move. -/
def FreshIn (c₀ c : Core) (e : RequestEvent) : Prop :=
  ∃ m ∈ news c₀ c, m.con = e.con ∧ m.obj.subscribes = e.subscribes

/-- The requests that wait for a call. -/
def working (c : Core) : List RequestEvent :=
  c.stack.filterMap fun
    | .call e _ _ _ _ => some e
    | _ => none

/-- **Where events and closed flags at a place of the move `l` come from**: from its start, from the close
that it enters, and from the message that it decodes. -/
structure Traced (W : World) (c₀ : Core) (l : Label) (k : List Hold) (c : Core) : Prop where
  flags : ∀ id, ClosedIn c id → ClosedIn c₀ id ∨ c₀.shuts W l = some id
  log : c₀.received <+: c.received
  halt : c.halt = c₀.halt
  events : ∀ e, e ∈ c.queue ∨ .request e ∈ k → e ∈ c₀.queue ∨ e ∈ c₀.working ∨ FreshIn c₀ c e
  frames : ∀ e ∈ c.working, e ∈ c₀.working ∨ e.subscribes = false

theorem Traced.move (h : Traced W c₀ l k c) (hclosed : ClosesNone c c') (hrec : c'.received = c.received)
    (hhalt : c'.halt = c.halt)
    (hqueue : ∀ e, e ∈ c'.queue ∨ .request e ∈ k' → e ∈ c.queue ∨ .request e ∈ k)
    (hstack : ∀ e ∈ c'.working, e ∈ c.working) : Traced W c₀ l k' c' := by
  refine ⟨fun id hid => h.flags id (hclosed id hid), hrec ▸ h.log, hhalt.trans h.halt, fun e he => ?_,
    fun e he => h.frames e (hstack e he)⟩
  refine (h.events e (hqueue e he)).imp_right fun hnew => hnew.imp_right ?_
  rintro ⟨m, hm, hcon, hobj⟩
  refine ⟨m, ?_, hcon, hobj⟩
  unfold news
  rw [hrec]
  exact hm

/-- The queue, the stack and the log stay. -/
theorem Traced.quiet (h : Traced W c₀ l k c) (hclosed : ClosesNone c c') (hrec : c'.received = c.received)
    (hhalt : c'.halt = c.halt) (hqueue : c'.queue = c.queue) (hstack : c'.stack = c.stack) :
    Traced W c₀ l k c' := by
  refine h.move hclosed hrec hhalt (fun e he => hqueue ▸ he) fun e he => ?_
  unfold working at he ⊢
  rw [hstack] at he
  exact he

theorem working_pop {f : Frame} {below : List Frame} (hs : c.stack = f :: below) :
    ∀ e ∈ working { c with stack := below }, e ∈ c.working := by
  intro e he
  unfold working at he ⊢
  rw [hs]
  obtain ⟨g, hg, hge⟩ := List.mem_filterMap.mp he
  exact List.mem_filterMap.mpr ⟨g, List.mem_cons_of_mem f hg, hge⟩

/-- A frame that is no call. -/
theorem working_push {f : Frame} (hf : ∀ e target cinfo kind callid, f ≠ .call e target cinfo kind callid)
    (hs : c'.stack = f :: c.stack) : ∀ e ∈ c'.working, e ∈ c.working := by
  intro e he
  unfold working at he ⊢
  rw [hs] at he
  obtain ⟨g, hg, hge⟩ := List.mem_filterMap.mp he
  rcases List.mem_cons.mp hg with rfl | hg
  · split at hge
    · exact absurd rfl (hf _ _ _ _ _)
    · cases hge
  · exact List.mem_filterMap.mpr ⟨g, hg, hge⟩

theorem decref_queue_subset (c : Core) (id : Nat) : ∀ e ∈ (c.decref id).queue, e ∈ c.queue := by
  intro e he
  unfold decref at he
  split at he
  · split at he
    · exact List.mem_of_mem_filter he
    · exact he
  · exact he

theorem decref_received (c : Core) (id : Nat) : (c.decref id).received = c.received :=
  (decref_log c id).received

theorem Traced.decref (h : Traced W c₀ l (.ref id :: k) c) : Traced W c₀ l k (c.decref id) := by
  refine h.move (closesNone_decref c id) (decref_received c id) (decref_halt c id) (fun e he => ?_) fun e he =>
    ?_
  · exact he.imp (decref_queue_subset c id e) fun hk => List.mem_cons_of_mem _ hk
  · unfold working at he ⊢
    rw [decref_stack] at he
    exact he

theorem Traced.ref (h : Traced W c₀ l k c) (id : Nat) : Traced W c₀ l (.ref id :: k) c := by
  refine h.move (closesNone_of_eq rfl) rfl rfl (fun e he => he.imp_right fun hk => ?_) fun _ he => he
  rcases List.mem_cons.mp hk with hk | hk
  · cases hk
  · exact hk

/-- `connection_close` closes the connection that the move shuts. -/
theorem Traced.connectionClose (h : Traced W c₀ l [.ref id] c) (hc : c.connections id = some con)
    (hshuts : c₀.shuts W l = some id) : Traced W c₀ l [] (c.connectionClose id) := by
  cases ho : con.tunnel.closed with
  | true =>
      rw [connectionClose_closed hc ho]
      exact h.decref
  | false =>
      rw [connectionClose_open hc ho]
      refine ⟨fun i hi => ?_, h.log, h.halt, fun e he => ?_, fun e he => ?_⟩
      · by_cases hid : i = id
        · exact Or.inr (hid ▸ hshuts)
        · obtain ⟨con₁, hc₁, hcl⟩ := hi
          exact h.flags i ⟨con₁, (setConnection_ne _ hid).symm.trans hc₁, hcl⟩
      · exact h.events e (he.imp_right fun hk => absurd hk List.not_mem_nil)
      · exact h.frames e (working_push (fun _ _ _ _ _ hf => by cases hf) rfl e he)

theorem Traced.posted {m : MsgpackObject} {cause : Cause} {sent : Bool} {bytes : Bytes} {env : WriteEnv}
    (h : Traced W c₀ l k c) (hc : c.connections id = some con) :
    Traced W c₀ l k (c.posted W id con m cause sent bytes env) := by
  have hset : ClosesNone c (c.setConnection id { con with
      tunnel := afterWrite con.tunnel (SploneBox.cryptoWrite W.server con.tunnel.cc bytes env) }) :=
    closesNone_setConnection hc rfl
  exact h.quiet (hset.trans (closesNone_of_eq rfl)) rfl rfl rfl rfl

theorem Traced.modify (h : Traced W c₀ l k c) (id : Nat) {f : Connection → Connection}
    (hf : ∀ con, (f con).tunnel.closed = con.tunnel.closed) : Traced W c₀ l k (c.modify id f) := by
  refine h.quiet (closesNone_modify c id hf) ?_ ?_ ?_ ?_ <;>
    · unfold Core.modify
      split <;> rfl

theorem Traced.notified (h : Traced W c₀ l k c) (hn : Notified c c') : Traced W c₀ l k c' :=
  h.quiet hn.closesNone (by rw [hn.same]) (by rw [hn.same]) (by rw [hn.same])
    (by rw [hn.same])

theorem subscribes_of_prepare {obj : MsgpackObject} {d : DispatchInfo} {args : List Object}
    (h : prepareRequest obj = .ok (d, args)) : obj.subscribes = d.func.subscribes args := by
  unfold MsgpackObject.subscribes
  rw [h]

theorem Traced.newRequest {obj : MsgpackObject} {v : Validation} {d : DispatchInfo} {args : List Object}
    (h : Traced W c₀ l k c) (hprep : prepareRequest obj = .ok (d, args)) :
    Traced W c₀ l (.request ⟨id, c.received.length, d.func, args, v.responseId⟩ :: k)
      (c.newRequest id ⟨id, obj, v.responseId⟩) := by
  obtain ⟨hrec, _, _, hqueue, hstack⟩ := newRequest_fields c id ⟨id, obj, v.responseId⟩
  have hclosed : ClosesNone c (c.newRequest id ⟨id, obj, v.responseId⟩) :=
    (closesNone_of_eq rfl).trans (closesNone_modify _ id fun _ => rfl)
  have hhalt : (c.newRequest id ⟨id, obj, v.responseId⟩).halt = c.halt := by
    unfold Core.newRequest incref Core.modify
    split <;> rfl
  have hlen := h.log.length_le
  have hnews : news c₀ (c.newRequest id ⟨id, obj, v.responseId⟩) =
      news c₀ c ++ [⟨id, obj, v.responseId⟩] := by
    unfold news
    rw [hrec, List.drop_append_of_le_length hlen]
  refine ⟨fun i hi => h.flags i (hclosed i hi), ?_, hhalt.trans h.halt, fun e he => ?_, fun e he => ?_⟩
  · rw [hrec]
    exact h.log.trans (List.prefix_append _ _)
  · rw [hqueue] at he
    have hold : e ∈ c.queue ∨ .request e ∈ k → e ∈ c₀.queue ∨ e ∈ c₀.working ∨
        FreshIn c₀ (c.newRequest id ⟨id, obj, v.responseId⟩) e := by
      intro he
      refine (h.events e he).imp_right fun hnew => hnew.imp_right ?_
      rintro ⟨m, hm, hm'⟩
      exact ⟨m, hnews ▸ List.mem_append_left _ hm, hm'⟩
    rcases he with he | he
    · exact hold (Or.inl he)
    · rcases List.mem_cons.mp he with he | he
      · cases he
        exact Or.inr
          (Or.inr ⟨⟨id, obj, v.responseId⟩, hnews ▸ List.mem_append_right _ (List.mem_singleton_self _), rfl,
            subscribes_of_prepare hprep⟩)
      · exact hold (Or.inr he)
  · unfold working at he
    rw [hstack] at he
    exact h.frames e he

theorem Traced.refl (W : World) (c : Core) (l : Label) : Traced W c l [] c := by
  refine ⟨fun id h => Or.inl h, List.prefix_refl _, rfl, fun e he => ?_, fun e he => Or.inl he⟩
  rcases he with he | he
  · exact Or.inl he
  · exact absurd he List.not_mem_nil

/-- Only the stack has become shorter. -/
theorem Traced.pop {f : Frame} {below : List Frame} (hs : c.stack = f :: below) :
    Traced W c l [] { c with stack := below } :=
  (Traced.refl W c l).move (closesNone_of_eq rfl) rfl rfl (fun _ he => he) (working_pop hs)

theorem mem_working {e : RequestEvent} {target cinfo : Nat} {kind : CallKind} {callid : UInt64}
    {below : List Frame} (hs : c.stack = .call e target cinfo kind callid :: below) : e ∈ c.working := by
  unfold working
  rw [hs]
  exact List.mem_filterMap.mpr ⟨_, List.mem_cons_self, rfl⟩

theorem asks_not_subscribes {e : RequestEvent} {kind : CallKind} {callid : UInt64} {key : Bytes}
    (h : Asks W c e kind callid key) : e.subscribes = false := by
  by_contra hsub
  have heff := call_of_subscribes (W.handlers e.tag) (Bool.eq_true_of_not_eq_false hsub)
  cases h with
  | run hrun =>
      rw [hrun] at heff
      rcases heff with ⟨f, heff⟩ | ⟨event, heff | heff⟩ <;> cases heff
  | result hrun _ _ =>
      rw [hrun] at heff
      rcases heff with ⟨f, heff⟩ | ⟨event, heff | heff⟩ <;> cases heff

/-- A request has become a reference. -/
theorem requests_ref {e : RequestEvent} : ∀ e', e' ∈ c.queue ∨ Hold.request e' ∈ .ref id :: k →
    e' ∈ c.queue ∨ Hold.request e' ∈ .request e :: k := by
  intro e' he
  refine he.imp_right fun hk => ?_
  rcases List.mem_cons.mp hk with hk | hk
  · cases hk
  · exact List.mem_cons_of_mem _ hk

/-- **Every place of a move is traced.** -/
theorem Traced.at (ha : At W c₀ l k c) : Traced W c₀ l k c := by
  have hstart : Traced W c₀ l [] c₀ := Traced.refl W c₀ l
  induction ha with
  | start => exact hstart
  | pushLoop hs hf =>
      refine hstart.move (closesNone_of_eq rfl) rfl rfl (fun _ he => he) (working_push ?_ rfl)
      intro e target cinfo kind callid heq
      rw [heq] at hf
      cases hf
  | popLoop hs hf => exact Traced.pop hs
  | @popParse id below hs => exact (Traced.pop hs).ref id
  | @unpacked id con below obj rest hs hc hn hr =>
      have hset : ClosesNone c₀ (c₀.setConnection id { con with mpac := rest }) :=
        closesNone_setConnection hc rfl
      exact hstart.quiet (hset.trans (closesNone_of_eq rfl)) rfl rfl rfl rfl
  | @response id cinfo con below obj rest msgid error result hs hc hn hr hnew =>
      have hpop : Traced W c₀ .turn [] { c₀ with stack := below } := Traced.pop hs
      have hset : ClosesNone { c₀ with stack := below }
          ({ c₀ with stack := below }.setConnection id { con with mpac := rest }) :=
        closesNone_setConnection hc rfl
      exact (hpop.ref id).quiet (hset.trans (closesNone_of_eq rfl)) rfl rfl rfl rfl
  | @mismatch id con below obj rest msgid error result hs hc hn hr hnew =>
      have hpop : Traced W c₀ .turn [] { c₀ with stack := below } := Traced.pop hs
      have hset : ClosesNone { c₀ with stack := below }
          ({ c₀ with stack := below }.setConnection id { con with mpac := rest }) :=
        closesNone_setConnection hc rfl
      have herr : Traced W c₀ .turn [.ref id]
          (({ c₀ with stack := below }.unpacked id con rest).callSetError con.callvector) :=
        (hpop.ref id).quiet (hset.trans (closesNone_of_eq rfl)) rfl rfl rfl rfl
      refine herr.connectionClose (setConnection_self _ _ _) ?_
      simp only [shuts, entering, hs, hc, Option.bind_some, mismatched, hn, hr, hnew, Option.isNone_none,
        if_true, Option.map_some]
  | @dequeue queue below e left hs ht =>
      have hperm := takeEvent_perm ht
      refine hstart.move (closesNone_of_eq rfl) rfl rfl (fun e' he => Or.inl ?_) fun _ he => he
      rcases he with he | he
      · exact hperm.mem_iff.mpr (List.mem_cons_of_mem e he)
      · cases List.mem_singleton.mp he
        exact hperm.mem_iff.mpr List.mem_cons_self
  | @returned e target cinfo kind callid below con info d hs hc hi hr hf =>
      have hpop : Traced W c₀ .turn [] { c₀ with stack := below } := Traced.pop hs
      have hheld : Traced W c₀ .turn [.ref target, .request e] { c₀ with stack := below } := by
        refine ⟨hpop.flags, hpop.log, hpop.halt, fun e' he => ?_, hpop.frames⟩
        rcases he with he | he
        · exact hpop.events e' (Or.inl he)
        · rcases List.mem_cons.mp he with he | he
          · cases he
          · cases List.mem_singleton.mp he
            exact Or.inr (Or.inl (mem_working hs))
      have hset : ClosesNone { c₀ with stack := below }
          ({ c₀ with stack := below }.setConnection target (popped con)) := closesNone_setConnection hc rfl
      exact (hheld.quiet hset rfl rfl rfl rfl).notified (notified_flush hf)
  | @closeReturned id below hs =>
      have hpop : Traced W c₀ .turn [] { c₀ with stack := below } := Traced.pop hs
      have hstreams : Traced W c₀ .turn []
          ({ c₀ with stack := below }.modify id fun con => { con with released := true }) :=
        hpop.modify id fun _ => rfl
      exact ((hstreams.ref id).decref.ref id).decref
  | @read id con seg env hc hu hl hfit hab =>
      have hflag := parseData_closed W c₀ con seg env
      have hset : ClosesNone c₀ (c₀.setConnection id { con with
          tunnel := (c₀.parseData W con seg env).tunnel
          refcount := con.refcount + 1 }) := closesNone_setConnection hc hflag
      have hparsed : Traced W c₀ (.read id seg env) [] (c₀.parsed id con (c₀.parseData W con seg env)) := by
        unfold parsed
        dsimp only
        split
        · exact hstart.quiet (hset.trans (closesNone_of_eq rfl)) rfl rfl rfl rfl
        · exact hstart.quiet hset rfl rfl rfl rfl
      have hself := parsed_self c₀ id con (c₀.parseData W con seg env)
      unfold readCb
      dsimp only
      split
      · exact (hparsed.ref id).decref
      · rename_i hdup
        refine (hparsed.ref id).connectionClose hself ?_
        simp only [shuts, entering, hc, Option.bind_some, hdup, if_true, Option.map_some]
      · rename_i hout
        exact absurd hout hab
      · rename_i plain _
        have hmpac := hparsed.modify id (f := fun con => { con with mpac := con.mpac ++ plain }) fun _ => rfl
        exact hmpac.move (closesNone_of_eq rfl) rfl rfl (fun _ he => he)
          (working_push (fun _ _ _ _ _ hf => by cases hf) rfl)
  | @eof id con hc hu hl =>
      have hset : ClosesNone c₀ (c₀.setConnection id { con with
          refcount := con.refcount + 1
          reading := false }) := closesNone_setConnection hc rfl
      have hmarked : Traced W c₀ (.eof id) [] (c₀.setConnection id { con with
          refcount := con.refcount + 1
          reading := false }) := hstart.quiet hset rfl rfl rfl rfl
      refine (hmarked.ref id).connectionClose (setConnection_self _ _ _) ?_
      simp only [shuts, entering, hc, Option.map_some]
  | @create env hu =>
      refine hstart.quiet ?_ rfl rfl rfl rfl
      rintro i ⟨con, hc, hcl⟩
      rcases setConnection_cases hc with ⟨rfl, rfl⟩ | ⟨-, hc⟩
      · cases hcl
      · exact ⟨con, hc, hcl⟩
  | tick hc ho => exact hstart.quiet (closesNone_setConnection hc rfl) rfl rfl rfl rfl
  | decref hp ih => exact (ih hstart).decref
  | error sent bytes env hp hh hc hl hcause ih =>
      exact ((ih hstart).posted hc).quiet (closesNone_of_eq rfl) rfl rfl rfl rfl
  | newRequest hp hparse hv hprep ih => exact (ih hstart).newRequest hprep
  | @enqueue l k c e hp ih =>
      refine (ih hstart).move (closesNone_of_eq rfl) rfl rfl (fun e' he => ?_) fun _ he => he
      rcases he with he | he
      · rcases List.mem_append.mp he with he | he
        · exact Or.inl he
        · cases List.mem_singleton.mp he
          exact Or.inr List.mem_cons_self
      · exact Or.inr (List.mem_cons_of_mem _ he)
  | invoke hp ih => exact (ih hstart).quiet (closesNone_of_eq rfl) rfl rfl rfl rfl
  | @subscribe l k c id con event hp hc ho ih =>
      have hmod : ∀ d : Core, Traced W c₀ l k d → Traced W c₀ l k (d.modify id fun con =>
          if con.subscribedEvents.names.contains event then con
          else { con with subscribedEvents := ⟨true, con.subscribedEvents.names ++ [event]⟩ }) := by
        intro d hd
        refine hd.modify id fun con => ?_
        split <;> rfl
      unfold connectionSubscribe
      dsimp only
      split
      · exact hmod c (ih hstart)
      · exact hmod _ ((ih hstart).quiet (closesNone_of_eq rfl) rfl rfl rfl rfl)
  | @unsubscribe l k c c' id event hp hu ih =>
      have hmod : Traced W c₀ l k (c.modify id fun con => { con with
          subscribedEvents := { con.subscribedEvents with
            names := con.subscribedEvents.names.filter (· != event) } }) :=
        (ih hstart).modify id fun _ => rfl
      unfold Core.unsubscribe at hu
      dsimp only at hu
      split at hu
      · split at hu
        · cases hu
          exact hmod
        · cases hu
          exact hmod.quiet (closesNone_of_eq rfl) rfl rfl rfl rfl
      · split at hu
        · cases hu
        · cases hu
          exact ih hstart
  | @broadcast l k c c' name args hp hn hf hb ih =>
      rcases broadcastEvent_cases hb with rfl | ⟨n, d, _, hd, rfl⟩
      · exact ih hstart
      · have hraise : Traced W c₀ l k (c.raise (cstr n) args) :=
          (ih hstart).quiet (closesNone_of_eq rfl) rfl rfl rfl rfl
        exact (hraise.notified (notified_notify hd)).quiet (closesNone_of_eq rfl) rfl rfl rfl rfl
  | putCallid hp ht heff hids hconns ih => exact (ih hstart).quiet (closesNone_of_eq rfl) rfl rfl rfl rfl
  | @answer l k c e con err res sent bytes env hp hm hc hl ih =>
      have hpost : Traced W c₀ l (.request e :: k) (c.posted W e.con con (serializeResponse e.msgid err res)
          (.response e.tag) sent bytes env) := (ih hstart).posted hc
      exact hpost.move (closesNone_of_eq rfl) rfl rfl requests_ref fun _ he => he
  | @silent l k c e hp hm ih =>
      have hspent : Traced W c₀ l (.ref e.con :: k) c :=
        (ih hstart).move (closesNone_of_eq rfl) rfl rfl requests_ref fun _ he => he
      exact hspent.decref
  | @target l k c e kind callid key id con hp ht ha hs hkey hc ih =>
      have hset : ClosesNone c (c.setConnection id
          { con with refcount := con.refcount + 1, msgid := con.msgid + 1 }) := closesNone_setConnection hc rfl
      exact ((ih hstart).quiet hset rfl rfl rfl rfl).ref id
  | @unsent l k c e id con request kind callid key msgid bytes env hp ht ha hkey hc hl ih =>
      have hpost : Traced W c₀ l (.ref id :: .request e :: k) (c.posted W id con
          (serializeRequest msgid kind.method request) .request false bytes env) :=
        (ih hstart).posted hc
      exact hpost.move (closesNone_of_eq rfl) rfl rfl
        (fun _ he => he.imp_right (List.mem_cons_of_mem _)) fun _ he => he
  | @wait l k c e id con kind callid key msgid request bytes env hp ht ha hkey hs hids hc hl ih =>
      have hpost : Traced W c₀ l (.ref id :: .request e :: k) (c.posted W id con
          (serializeRequest msgid kind.method request) .request true bytes env).clear :=
        ((ih hstart).posted hc).quiet (closesNone_of_eq rfl) rfl rfl rfl rfl
      generalize (c.posted W id con (serializeRequest msgid kind.method request) .request true bytes
        env).clear = d at hpost ⊢
      have hpush : Traced W c₀ l (.ref id :: .request e :: k) (d.modify id fun con => { con with
          callvector := con.callvector ++ [d.calls.length]
          pendingRequests := con.pendingRequests + 1 }) := hpost.modify id fun _ => rfl
      refine ⟨hpush.flags, hpush.log, hpush.halt, fun e' he => ?_, fun e' he => ?_⟩
      · exact hpush.events e' (he.imp_right fun hk => List.mem_cons_of_mem _ (List.mem_cons_of_mem _ hk))
      -- the frame that is new is that of a handler that has made a call
      · obtain ⟨f, hf, hfe⟩ := List.mem_filterMap.mp he
        rcases List.mem_cons.mp hf with rfl | hf
        · cases hfe
          exact Or.inr (asks_not_subscribes ha)
        · exact hpush.frames e' (List.mem_filterMap.mpr ⟨f, hf, hfe⟩)
  | finished hp hs hi hr hout hrec htrace ih =>
      exact (ih hstart).quiet (closesNone_of_eq rfl) rfl rfl rfl rfl
  | deliver hp hr hids ih => exact (ih hstart).quiet (closesNone_of_eq rfl) rfl rfl rfl rfl

/-! ## §4 Which message a move receives -/

/-- `parse_cb` is always the innermost function. -/
theorem parse_innermost {stack : List Frame} (h : Shape stack) (hp : .parse id ∈ stack) :
    ∃ below, stack = .parse id :: below := by
  induction stack with
  | nil => cases hp
  | cons f rest ih =>
      by_cases hf : f = .parse id
      · exact ⟨rest, by rw [hf]⟩
      -- no frame but a `uv_run` stands under `parse_cb`, and nothing stands over it
      have hrest : .parse id ∈ rest := (List.mem_cons.mp hp).resolve_left fun heq => hf heq.symm
      cases f with
      | poll =>
          obtain ⟨below, rfl⟩ := ih h.2 hrest
          cases h.1
      | drain queue =>
          obtain ⟨below, rfl⟩ := ih h.2 hrest
          cases h.1
      | close i =>
          obtain ⟨below, rfl⟩ := ih h.2 hrest
          cases h.1
      | parse i =>
          obtain ⟨below, rfl⟩ := ih h.2 hrest
          cases h.1
      | call e target cinfo kind callid =>
          obtain ⟨below, rfl⟩ := ih h.2 hrest
          obtain ⟨⟨queue, below', heq⟩, _⟩ := h
          cases heq

/-- Nothing has been received, and `parse_cb` does not run. -/
def Unread (c₀ c : Core) : Prop := (∀ id, .parse id ∉ c.stack) ∧ c.received = c₀.received

theorem Unread.modify (h : Unread c₀ c) (id : Nat) (f : Connection → Connection) :
    Unread c₀ (c.modify id f) := by
  unfold Core.modify
  split <;> exact h

theorem Unread.decref (h : Unread c₀ c) (id : Nat) : Unread c₀ (c.decref id) := by
  unfold Unread
  rw [decref_stack, decref_received]
  exact h

theorem Unread.notified (h : Unread c₀ c) (hn : Notified c c') : Unread c₀ c' := by
  unfold Unread
  rw [hn.same]
  exact h

/-- A move of the thread outside `parse_cb` receives nothing. -/
theorem Unread.at (hno : ∀ id, .parse id ∉ c₀.stack) (ha : At W c₀ l k c) (hl : l = .turn) :
    Unread c₀ c := by
  have hpop : ∀ {f below}, c₀.stack = f :: below → Unread c₀ { c₀ with stack := below } :=
    fun hs => ⟨fun id hid => hno id (hs ▸ List.mem_cons_of_mem _ hid), rfl⟩
  have htop : ∀ {id below}, c₀.stack = .parse id :: below → False :=
    fun hs => hno _ (hs ▸ List.mem_cons_self)
  induction ha with
  | start => exact ⟨hno, rfl⟩
  | @pushLoop f hs hf =>
      refine ⟨fun id hid => ?_, rfl⟩
      rcases List.mem_cons.mp hid with rfl | hid
      · cases hf
      · exact hno id hid
  | popLoop hs hf => exact hpop hs
  | popParse hs => exact (htop hs).elim
  | unpacked hs hc hn hr => exact (htop hs).elim
  | response hs hc hn hr hnew => exact (htop hs).elim
  | mismatch hs hc hn hr hnew => exact (htop hs).elim
  | dequeue hs ht => exact ⟨hno, rfl⟩
  | @returned e target cinfo kind callid below con info d hs hc hi hr hf =>
      have hset : Unread c₀ ({ c₀ with stack := below }.setConnection target (popped con)) := hpop hs
      exact hset.notified (notified_flush hf)
  | @closeReturned id below hs =>
      exact ((Unread.modify (hpop hs) id fun con => { con with released := true }).decref id).decref id
  | read hc hu hl' hfit hab => cases hl
  | eof hc hu hl' => cases hl
  | create hu => cases hl
  | tick hc ho => cases hl
  | decref hp ih => exact (ih hl).decref _
  | error sent bytes env hp hh hc hl' hcause ih => exact ih hl
  | newRequest hp hparse hv hprep ih => exact absurd hparse ((ih hl).1 _)
  | enqueue hp ih => exact ih hl
  | invoke hp ih => exact ih hl
  | @subscribe l k c id con event hp hc ho ih =>
      unfold connectionSubscribe
      dsimp only
      split
      · exact (ih hl).modify _ _
      · have hstrings : Unread c₀ { c with eventStrings := ⟨true, c.eventStrings.names ++ [event]⟩ } := ih hl
        exact hstrings.modify _ _
  | @unsubscribe l k c c' id event hp hu ih =>
      have hmod : Unread c₀ (c.modify id fun con => { con with
          subscribedEvents := { con.subscribedEvents with
            names := con.subscribedEvents.names.filter (· != event) } }) := (ih hl).modify _ _
      unfold Core.unsubscribe at hu
      dsimp only at hu
      split at hu
      · split at hu
        · cases hu
          exact hmod
        · cases hu
          exact hmod
      · split at hu
        · cases hu
        · cases hu
          exact ih hl
  | @broadcast l k c c' name args hp hn hf hb ih =>
      rcases broadcastEvent_cases hb with rfl | ⟨n, d, _, hd, rfl⟩
      · exact ih hl
      · have hraise : Unread c₀ (c.raise (cstr n) args) := ih hl
        have hd' : Unread c₀ d := hraise.notified (notified_notify hd)
        exact hd'
  | putCallid hp ht heff hids hconns ih => exact ih hl
  | answer sent bytes env hp hm hc hl' ih => exact ih hl
  | silent hp hm ih => exact (ih hl).decref _
  | target hp ht ha hs hkey hc ih => exact ih hl
  | unsent msgid bytes env hp ht ha hkey hc hl' ih => exact ih hl
  | @wait l k c e id con kind callid key msgid request bytes env hp ht ha hkey hs hids hc hl' ih =>
      have hpost : Unread c₀ (c.posted W id con (serializeRequest msgid kind.method request) .request true
        bytes env).clear := ih hl
      generalize (c.posted W id con (serializeRequest msgid kind.method request) .request true bytes
        env).clear = d at hpost ⊢
      have hpush : Unread c₀ (d.modify id fun con => { con with
          callvector := con.callvector ++ [d.calls.length]
          pendingRequests := con.pendingRequests + 1 }) := hpost.modify _ _
      refine ⟨fun i hi => ?_, hpush.2⟩
      rcases List.mem_cons.mp hi with hi | hi
      · cases hi
      · exact hpush.1 i hi
  | finished hp hs hi hr hout hrec htrace ih => exact ih hl
  | deliver hp hr hids ih => exact ih hl

theorem sendError_received (c : Core) (id : Nat) (msgid : UInt64) (err : String) (cause : Cause) :
    Ends (fun d => d.received = c.received) (fun _ => True) (c.sendError W id msgid err cause) := by
  have hlog := cryptoWrite_log (W := W) (c.pack (serializeResponse msgid (some (validationError err)) .nil)) id
    (c.pack (serializeResponse msgid (some (validationError err)) .nil)).sbuf cause
  unfold sendError
  dsimp only
  generalize Core.cryptoWrite W _ id _ cause = x at hlog ⊢
  cases x with
  | ok x => exact hlog.received
  | error d => trivial

/-- **A message that is handled is received**, and nothing else is. -/
theorem connectionHandleRequest_received (c : Core) (id : Nat) (obj : MsgpackObject) :
    Ends (fun d => ∃ msgid, d.received = c.received ++ [⟨id, obj, msgid⟩]) (fun _ => True)
      (connectionHandleRequest W c id obj) := by
  unfold connectionHandleRequest
  split
  · trivial
  · rename_i v hv
    have hrefuse : Ends (fun d => d.received = c.received) (fun _ => True) (refuseInvalid W c id v) := by
      unfold refuseInvalid
      split
      · exact sendError_received c id _ _ _
      · exact rfl
    refine Ends.bind hrefuse ?_
    intro d hd
    unfold dispatchRequest
    split
    · trivial
    · rename_i dispatcher args hprep
      obtain ⟨hrec, _⟩ := newRequest_fields d id ⟨id, obj, v.responseId⟩
      rw [hd] at hrec
      dsimp only
      split
      · rename_i hasync
        cases hc : (d.newRequest id ⟨id, obj, v.responseId⟩).connections id with
        | none =>
            unfold connectionRequestEvent
            rw [hc]
            trivial
        | some con =>
            have hlog := (connectionRequestEvent_log (W := W)
              (e := ⟨id, d.received.length, dispatcher.func, args, v.responseId⟩)
              (prepareRequest_async hprep hasync) hc).2
            generalize connectionRequestEvent W _ _ = x at hlog ⊢
            cases x with
            | ok d' => exact ⟨v.responseId, hlog.trans hrec⟩
            | error d' => trivial
      · exact ⟨v.responseId, hrec⟩

theorem not_news {m : Message} (h : c'.received = c.received) : m ∉ news c c' := by
  unfold news
  rw [h, List.drop_length]
  exact List.not_mem_nil

theorem connectionClose_received (c : Core) (id : Nat) : (c.connectionClose id).received = c.received := by
  unfold connectionClose
  split
  · rfl
  · split
    · exact decref_received c id
    · rfl

/-- **What a move of `parse_cb` receives** is the next message of its connection. -/
theorem parse_news {below : List Frame} {m : Message} (hs : c.stack = .parse id :: below)
    (ht : c.turn W = .ok c') (hm : m ∈ news c c') :
    m.con = id ∧ ∃ con, c.connections id = some con ∧ nextMessage W con = some m.obj := by
  obtain ⟨con, hc, hparsed⟩ := parsed_of_turn hs ht
  cases hparsed with
  | more => exact absurd hm (not_news (decref_received _ id))
  | @undecodable d msg hn hsend =>
      have hreceived := sendError_received (W := W) { c with stack := below } id 0 msg .undecodable
      rw [hsend] at hreceived
      exact absurd hm (not_news ((decref_received d id).trans hreceived))
  | response => exact absurd hm (not_news (decref_received _ id))
  | mismatch => exact absurd hm (not_news (connectionClose_received _ id))
  | @request obj rest d hn hr hgo =>
      have hrun := connectionHandleRequest_received (W := W)
        { { c with stack := below }.unpacked id con rest with
          stack := .parse id :: ({ c with stack := below }.unpacked id con rest).stack } id obj
      rw [hgo] at hrun
      obtain ⟨msgid, hrec⟩ := hrun
      have hnews : news c c' = [⟨id, obj, msgid⟩] := by
        unfold news
        rw [hrec]
        exact List.drop_left
      rw [hnews] at hm
      cases List.mem_singleton.mp hm
      refine ⟨rfl, con, hc, ?_⟩
      unfold nextMessage
      rw [hn]
      dsimp only
      rw [hr]
      rfl

theorem readCb_received (c : Core) (id : Nat) (con : Connection) (seg : Bytes) (env : ReadEnv) :
    (c.readCb W id con seg env).received = c.received := by
  have hparsed : ∀ r, (c.parsed id con r).received = c.received := by
    intro r
    unfold parsed
    dsimp only
    split <;> rfl
  unfold readCb
  dsimp only
  split
  · exact (decref_received _ id).trans (hparsed _)
  · exact (connectionClose_received _ id).trans (hparsed _)
  · exact hparsed _
  · unfold modify
    split <;> exact hparsed _

/-- **What a move receives** is the next message of the connection whose `parse_cb` runs. -/
theorem step_news {m : Message} (hord : Ordered [] c) (hs : c.step W l = some c') (hrun : c'.halt = none)
    (hm : m ∈ news c c') : l = .turn ∧ ∃ below con, c.stack = .parse m.con :: below ∧
      c.connections m.con = some con ∧ nextMessage W con = some m.obj := by
  by_cases hl : l = .turn
  · refine ⟨hl, ?_⟩
    rcases hord.step hs with ⟨_, ha⟩ | ⟨_, hdead⟩
    · by_cases hp : ∃ id, .parse id ∈ c.stack
      · obtain ⟨id, hid⟩ := hp
        obtain ⟨below, hstack⟩ := parse_innermost hord.1 hid
        subst hl
        unfold Core.step at hs
        split at hs
        · cases hs
        cases hs
        cases ht : c.turn W with
        | error d =>
            have hd := @At.turn W c
            rw [ht] at hd hrun
            exact absurd hrun (hord.died hd)
        | ok d =>
            rw [ht] at hm
            obtain ⟨rfl, con, hc, hnext⟩ := parse_news hstack ht hm
            exact ⟨below, con, hstack, hc, hnext⟩
      · exact absurd hm (not_news (Unread.at (fun id hid => hp ⟨id, hid⟩) ha hl).2)
    · exact absurd hrun hdead
  · -- a callback leaves what it has read to the frame that it pushes
    refine absurd hm (not_news ?_)
    unfold Core.step at hs
    split at hs
    · cases hs
    cases l with
    | turn => exact absurd rfl hl
    | accept env =>
        dsimp only at hs
        split at hs
        · cases hs
          rfl
        · cases hs
    | read id seg env =>
        dsimp only at hs
        split at hs
        · cases hs
        · split at hs
          · cases hs
          · cases hs
            exact readCb_received c id _ seg env
    | eof id =>
        dsimp only at hs
        split at hs
        · cases hs
        · split at hs
          · cases hs
          · cases hs
            exact connectionClose_received _ id
    | tick id fresh =>
        dsimp only at hs
        split at hs
        · cases hs
        · split at hs
          · cases hs
          · cases hs
            rfl

/-! ## §5 Every run -/

/-- The message that a move decodes for a connection that is closed. -/
def lateMessage (W : World) (c : Core) : Label → Option MsgpackObject
  | .turn =>
      match c.stack with
      | .parse id :: _ => ((c.connections id).filter fun con => con.tunnel.closed).bind (nextMessage W)
      | _ => none
  | _ => none

/-- **Subscriptions wait for open connections only.** -/
structure Manned (c : Core) : Prop where
  queued : ∀ e ∈ c.queue, e.subscribes = true → ¬ ClosedIn c e.con
  called : ∀ e ∈ c.working, e.subscribes = false

/-- **The moves after which no subscription is left behind.** -/
structure Parting (W : World) (c : Core) (l : Label) : Prop where
  /-- No connection is closed while one of its subscriptions is in the queue. -/
  queued : ∀ e ∈ c.queue, e.subscribes = true → c.shuts W l ≠ some e.con
  /-- No subscription is decoded for a connection that is closed. -/
  decoded : ∀ obj ∈ lateMessage W c l, obj.subscribes = false

instance (W : World) (c : Core) (l : Label) : Decidable (Parting W c l) :=
  decidable_of_iff
    ((∀ e ∈ c.queue, e.subscribes = true → c.shuts W l ≠ some e.con) ∧
      ∀ obj ∈ lateMessage W c l, obj.subscribes = false)
    ⟨fun h => ⟨h.1, h.2⟩, fun h => ⟨h.1, h.2⟩⟩

theorem Manned.step (h : Manned c) (hord : Ordered [] c) (hq : Parting W c l) (hs : c.step W l = some c')
    (hrun : c'.halt = none) : Manned c' := by
  rcases hord.step hs with ⟨_, ha⟩ | ⟨_, hdead⟩
  swap
  · exact absurd hrun hdead
  have htrace := Traced.at ha
  refine ⟨fun e he hsub hclosed => ?_, fun e he => ?_⟩
  · rcases htrace.events e (Or.inl he) with hold | hwork | ⟨m, hm, hcon, hobj⟩
    · rcases htrace.flags e.con hclosed with hcl | hshut
      · exact h.queued e hold hsub hcl
      · exact hq.queued e hold hsub hshut
    · rw [h.called e hwork] at hsub
      cases hsub
    · obtain ⟨rfl, below, con, hstack, hc, hnext⟩ := step_news hord hs hrun hm
      rw [← hcon] at hclosed
      rcases htrace.flags m.con hclosed with ⟨con', hc', hcl⟩ | hshut
      · rw [hc] at hc'
        cases hc'
        have hlate : lateMessage W c .turn = some m.obj := by
          simp only [lateMessage, hstack, hc, Option.filter_some, hcl, if_true, Option.bind_some, hnext]
        have hnot := hq.decoded m.obj hlate
        rw [hobj, hsub] at hnot
        cases hnot
      -- a message that is dispatched is no response, so the move does not close
      · simp only [shuts, entering, hstack, hc, Option.bind_some, Option.map_map] at hshut
        obtain ⟨con', hmis, _⟩ := Option.map_eq_some_iff.mp hshut
        rw [nextMessage_of_mismatched hmis] at hnext
        cases hnext
  · rcases htrace.frames e he with hold | hnot
    · exact h.called e hold
    · exact hnot

end Core

open Core

/-- **Plugins cannot abort the core by disconnecting**, in every run whose moves leave no subscription
behind: no move of the thread ends in `abort`, neither in `connection_subscribe` nor in
`connection_unsubscribe` nor anywhere else. -/
theorem disconnect_never_aborts {W : World} {ls : List Label}
    (hq : Along (Core.step W) (fun c l _ => Parting W c l) Core.init ls) :
    Along (Core.step W) (fun _ l c' => l = .turn → c'.halt ≠ some .abort) Core.init ls := by
  have hinit : Manned Core.init :=
    ⟨fun _ he => absurd he List.not_mem_nil, fun _ he => absurd he List.not_mem_nil⟩
  refine along_of_invariant (I := fun c => c.halt = none → Ordered [] c ∧ Manned c) ?_
    (fun _ => ⟨ordered_init, hinit⟩) hq
  intro c l c' hI hpart hs
  obtain ⟨hord, hman⟩ := hI (running_of_step hs)
  refine ⟨fun hrun => ?_, fun hl => ?_⟩
  · rcases hord.step hs with ⟨hord', _⟩ | ⟨_, hdead⟩
    · exact ⟨hord', hman.step hord hpart hs hrun⟩
    · exact absurd hrun hdead
  · subst hl
    have hrun := running_of_step hs
    have hturn : Unaborted (c.turn W) := by
      refine turn_unaborted hord.1 fun e ht hsub con hc => ?_
      obtain ⟨queue, below, left, _, htake⟩ := ht
      have hmem : e ∈ c.queue := (takeEvent_perm htake).mem_iff.mpr List.mem_cons_self
      by_contra hcl
      exact hman.queued e hmem hsub ⟨con, hc, Bool.eq_true_of_not_eq_false hcl⟩
    unfold Core.step at hs
    rw [hrun] at hs
    cases hs
    cases ht : c.turn W with
    | error d =>
        rw [ht] at hturn
        exact hturn
    | ok d =>
        have hd := @At.turn W c
        rw [ht] at hd
        have hhalt : d.halt = none := (Traced.at hd).halt.trans hrun
        show d.halt ≠ some .abort
        rw [hhalt]
        nofun

/-- A plugin subscribes to the event `A`, is answered, and leaves. -/
def Sample.subscribedThenClosed : List Label :=
  .turn :: (Sample.connect 1 (Sample.fill 32 3) ++
    [Sample.sends 1 5 (requestMessage 1 (text "subscribe") [.str [65]]), .turn, .turn, .turn, .turn,
      .turn, .turn, .turn, .eof 1, .turn, .turn])

/-- **A run that meets the condition.** -/
theorem disconnect_never_aborts_sample :
    Along (Core.step Sample.world) (fun c l _ => Parting Sample.world c l) Core.init
        Sample.subscribedThenClosed ∧
      (exec (Core.step Sample.world) Core.init Sample.subscribedThenClosed).any
        (fun c => c.halt.isNone && c.trace.length == 1 && c.ids.isEmpty) = true ∧
      Along (Core.step Sample.world) (fun _ l c' => l = .turn → c'.halt ≠ some .abort) Core.init
        Sample.subscribedThenClosed := by
  have hpart : Along (Core.step Sample.world) (fun c l _ => Parting Sample.world c l) Core.init
      Sample.subscribedThenClosed := by
    apply Sample.along_connect rfl <;> decide +kernel
  have hrun : (exec (Core.step Sample.world) Core.init Sample.subscribedThenClosed).any
      (fun c => c.halt.isNone && c.trace.length == 1 && c.ids.isEmpty) = true := by
    rw [Sample.subscribedThenClosed, Sample.exec_connect_append rfl]
    decide +kernel
  exact ⟨hpart, hrun, disconnect_never_aborts hpart⟩

/-- A plugin subscribes to the event `A` and leaves before the queue is processed. -/
def Sample.closedThenSubscribed : List Label :=
  .turn :: (Sample.connect 1 (Sample.fill 32 3) ++
    [Sample.sends 1 5 (requestMessage 1 (text "subscribe") [.str [65]]), .turn, .turn, .eof 1, .turn,
      .turn, .turn, .turn])

/-- **A plugin aborts the core**: its connection is closed when its subscription is processed. -/
theorem disconnect_aborts : ∃ c, exec (Core.step Sample.world) Core.init Sample.closedThenSubscribed = some c ∧
    c.halt = some .abort := by
  have hrun : (exec (Core.step Sample.world) Core.init Sample.closedThenSubscribed).any
      (fun c => decide (c.halt = some .abort)) = true := by
    rw [Sample.closedThenSubscribed, Sample.exec_connect_append rfl]
    decide +kernel
  obtain ⟨c, hex, hc⟩ := (Option.any_eq_true _ _).mp hrun
  exact ⟨c, hex, of_decide_eq_true hc⟩

end SploneBox
