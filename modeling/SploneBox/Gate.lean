/-
# SploneBox.Gate — which run requests are passed on.

`handle_run` passes a request on when it has the one good shape, when the database knows the plugin and
accepts the function with its arguments, and when the plugin is connected (`Admitted`). The checks stand in
four functions with a dozen exits; `run_gate` says that all of them together are that condition: where it
holds one request is written, to the connection of the plugin and with the new `callid`, and where it fails
none is, and a validation error is set. What is left of the handler behind the answer of the plugin writes no
request.
-/
import SploneBox.Calls
import SploneBox.Handlers
import SploneBox.Invalid
import SploneBox.Msgids

namespace SploneBox

open Lib.Machine

/-! ## §1 The condition -/

/-- A handler that finds the database `db`. -/
def HandlerEnv.over (env : HandlerEnv) (db : Database) : HandlerEnv := { env with db := db }

/-- The array `[[key, nil], name, args]`, with a key of 16 bytes that is made upper-case as a C string. -/
def RunArguments (args : List Object) (key : Bytes) (name : Str) (runargs : List Object) : Prop :=
  ∃ given, args = [.array [.string ⟨some given, 16⟩, .nil], .string name, .array runargs] ∧
    key = (cstr given).map toUpperByte

/-- **A run request that is passed on**: it has its shape, the plugin is registered in the database, the
function and the types of the arguments are accepted for that key, and the registry holds a connection for it. -/
structure Admitted (db : Database) (c : Core) (args : List Object) (key : Bytes) (name : Str)
    (runargs : List Object) (id : Nat) (con : Connection) : Prop where
  shape : RunArguments args key name runargs
  plugin : dbPluginVerify db key = 0
  function : dbFunctionVerify db key name runargs = .ok 0
  registered : c.pluginkeys key = some id
  connected : c.connections id = some con

/-- The request that `api_run` sends, as the message with the next id of the connection. -/
def runMessage (con : Connection) (callid : UInt64) (name : Str) (runargs : List Object) : MsgpackObject :=
  serializeRequest con.msgid.toUInt64 CallKind.run.method (Handlers.runRequest callid name runargs)

/-- Strings that are asked for are there: the name of the function is not the empty string, which the decoder
makes `NULL` of. -/
def Named (args : List Object) : Prop := ∀ name, args[1]? = some (.string name) → name.str ≠ none

namespace Core

variable {W : World}

/-! ## §2 Writing no request -/

/-- What was written in between is no request. -/
def NoRequest (c c' : Core) : Prop := ∃ ws, c'.trace = c.trace ++ ws ∧ ∀ w ∈ ws, w.cause ≠ .request

theorem NoRequest.same {c c' : Core} (h : c'.trace = c.trace) : NoRequest c c' :=
  ⟨[], by rw [h, List.append_nil], by simp⟩

theorem NoRequest.trans {c c' d : Core} (h : NoRequest c c') (h' : NoRequest c' d) : NoRequest c d := by
  obtain ⟨ws, hws, hno⟩ := h
  obtain ⟨ws', hws', hno'⟩ := h'
  refine ⟨ws ++ ws', by rw [hws', hws, List.append_assoc], ?_⟩
  intro w hw
  rcases List.mem_append.mp hw with hw | hw
  · exact hno w hw
  · exact hno' w hw

/-- What runs behind a part that writes no request. -/
theorem NoRequest.ends {α : Type} {c c' : Core} (h : NoRequest c c') {f : α → Core} {x : Except Core α}
    (hx : Ends (fun a => NoRequest c' (f a)) (NoRequest c') x) : Ends (fun a => NoRequest c (f a))
    (NoRequest c) x := by
  cases x with
  | ok a => exact h.trans hx
  | error d => exact h.trans hx

theorem decref_noRequest (c : Core) (id : Nat) : NoRequest c (c.decref id) :=
  NoRequest.same (decref_record c id).2

theorem cryptoWrite_noRequest (c : Core) (id : Nat) (data : List MsgpackObject) {cause : Cause}
    (h : cause ≠ .request) :
    Ends (fun x => NoRequest c x.1) (NoRequest c) (c.cryptoWrite W id data cause) := by
  have hmove := cryptoWrite_move (W := W) c id data cause
  generalize c.cryptoWrite W id data cause = x at hmove ⊢
  cases hmove with
  | returned sent bytes env hc hl => exact ⟨[_], rfl, by simpa using h⟩
  | exited bytes env hc hl => exact ⟨[_], rfl, by simpa using h⟩
  | lost w hid hsent hw hdata hcause =>
      refine ⟨[w], rfl, ?_⟩
      intro w' hw'
      rw [List.mem_singleton.mp hw', hcause]
      exact h

theorem respond_noRequest (c : Core) (e : RequestEvent) (r : Reply) : Ends (NoRequest c) (NoRequest c)
    (respond W c e r) := by
  unfold respond
  split
  · exact decref_noRequest c e.con
  · have hpack : NoRequest c (c.pack (serializeResponse e.msgid r.error r.result)) := NoRequest.same rfl
    refine Ends.bind (hpack.ends (cryptoWrite_noRequest _ e.con _ (by simp))) ?_
    rintro ⟨c', sent⟩ hc'
    have hclear : NoRequest c c'.clear := hc'.trans (NoRequest.same rfl)
    exact hclear.trans (decref_noRequest c'.clear e.con)

theorem acknowledge_noRequest (c : Core) (e : RequestEvent) (kind : CallKind) (callid : UInt64)
    (result : Object) (error : Option ApiError) : Ends (NoRequest c) (NoRequest c)
    (acknowledge W c e kind callid result error) := by
  unfold acknowledge
  dsimp only
  split
  · have hdeliver : NoRequest c (c.deliver callid) := NoRequest.same rfl
    exact hdeliver.ends (respond_noRequest _ e _)
  · exact respond_noRequest c e _

theorem sendDelayed_noRequest (id : Nat) :
    ∀ (buffers : List (List MsgpackObject)) (c : Core), Ends (NoRequest c) (NoRequest c)
      (sendDelayed W id buffers c)
  | [], c => NoRequest.same rfl
  | buffer :: buffers, c => by
      unfold sendDelayed
      refine Ends.bind (cryptoWrite_noRequest c id buffer (by simp)) ?_
      rintro ⟨c', sent⟩ hc'
      exact NoRequest.ends hc' (sendDelayed_noRequest id buffers c')

theorem flushNotifications_noRequest (c : Core) (id : Nat) (con : Connection) :
    Ends (NoRequest c) (NoRequest c) (flushNotifications W c id con) := by
  unfold flushNotifications
  split
  · unfold sendDelayedNotifications
    refine Ends.bind (sendDelayed_noRequest id con.delayedNotifications c) ?_
    intro c' hc'
    exact hc'.trans (NoRequest.same (modify_record c' id _).2)
  · exact NoRequest.same rfl

/-- **What is left of a handler behind the answer of the plugin writes no request.** -/
theorem finishCall_noRequest (c : Core) (e : RequestEvent) (target cinfo : Nat) (kind : CallKind)
    (callid : UInt64) :
    Ends (NoRequest c) (NoRequest c) (finishCall W c e target cinfo kind callid) := by
  unfold finishCall
  split
  · next con info hc hi =>
      have hset : ∀ con' : Connection, NoRequest c (c.setConnection target con') := fun _ => NoRequest.same rfl
      refine Ends.bind ((hset _).ends (flushNotifications_noRequest _ target _)) ?_
      intro c' hc'
      have hdecref := hc'.trans (decref_noRequest c' target)
      dsimp only
      split
      · exact (hdecref.trans (NoRequest.same rfl)).ends
          (acknowledge_noRequest (c := (c'.decref target).note _) e kind callid _ _)
      · exact (hdecref.trans (NoRequest.same rfl)).ends
          (acknowledge_noRequest (c := (c'.decref target).note _) e kind callid _ _)
  · exact NoRequest.same rfl

/-! ## §3 Writing one -/

/-- What was written in between is the given request to the connection `id`, and no other. -/
def OneRequest (c c' : Core) (id : Nat) (data : List MsgpackObject) : Prop :=
  ∃ w ws, c'.trace = c.trace ++ w :: ws ∧ w.con = id ∧ w.cause = .request ∧ w.data = data ∧
    ∀ w' ∈ ws, w'.cause ≠ .request

theorem OneRequest.trans {c c' d : Core} {id : Nat} {data : List MsgpackObject} (h : OneRequest c c' id data)
    (h' : NoRequest c' d) : OneRequest c d id data := by
  obtain ⟨w, ws, hws, hid, hcause, hdata, hno⟩ := h
  obtain ⟨ws', hws', hno'⟩ := h'
  refine ⟨w, ws ++ ws', by rw [hws', hws, List.append_assoc]; rfl, hid, hcause, hdata, ?_⟩
  intro w' hw'
  rcases List.mem_append.mp hw' with hw' | hw'
  · exact hno w' hw'
  · exact hno' w' hw'

theorem OneRequest.ends {c c' : Core} {id : Nat} {data : List MsgpackObject} (h : OneRequest c c' id data)
    {x : Except Core Core} (hx : Ends (NoRequest c') (NoRequest c') x) :
    Ends (OneRequest c · id data) (OneRequest c · id data) x := by
  cases x with
  | ok d => exact h.trans hx
  | error d => exact h.trans hx

theorem waitFor_noRequest (c : Core) (e : RequestEvent) (id : Nat) (msgid : UInt64) (kind : CallKind)
    (callid : UInt64) :
    NoRequest c (c.waitFor e id msgid kind callid) := by
  apply NoRequest.same
  unfold waitFor pushCallinfo modify
  split <;> rfl

/-- `connection_send_request` for a plugin that is connected writes its request, and no other. -/
theorem connectionSendRequest_oneRequest {c : Core} {e : RequestEvent} {kind : CallKind} {callid : UInt64}
    {key : Bytes} {request : List Object} {id : Nat} {con : Connection} (hkey : c.pluginkeys key = some id)
    (hc : c.connections id = some con) :
    Ends (OneRequest c · id (c.sbuf ++ [(c.caller con).message kind.method request]))
      (OneRequest c · id (c.sbuf ++ [(c.caller con).message kind.method request]))
      (connectionSendRequest W c e kind callid key request) := by
  rw [connectionSendRequest_packs hkey hc]
  generalize (c.caller con).message kind.method request = m
  generalize (c.caller con).next = msgid
  have hmove :=
    cryptoWrite_move (W := W) ((c.setConnection id (addressed con)).pack m) id (c.sbuf ++ [m]) .request
  generalize ((c.setConnection id (addressed con)).pack m).cryptoWrite W id (c.sbuf ++ [m]) .request =
    x at hmove ⊢
  cases hmove with
  | @returned con₁ sent bytes env hc hl =>
      have hone : OneRequest c (((c.setConnection id (addressed con)).pack m).written con₁
          (SploneBox.cryptoWrite W.server con₁.tunnel.cc bytes env)
          ⟨id, con₁.tunnel.closed, con₁.pendingRequests, c.sbuf ++ [m], .request, sent⟩) id (c.sbuf ++ [m]) :=
        ⟨_, [], rfl, rfl, rfl, rfl, by simp⟩
      cases sent with
      | false =>
          exact (hone.trans (NoRequest.same rfl)).ends (acknowledge_noRequest (note _ _) e kind callid _ _)
      | true =>
          exact hone.trans ((NoRequest.same rfl).trans (waitFor_noRequest (clear _) e id msgid kind callid))
  | exited bytes env hc hl => exact ⟨_, [], rfl, rfl, rfl, rfl, by simp⟩
  | lost w hid hsent hw hdata hcause => exact ⟨w, [], rfl, hid, hcause, hdata, by simp⟩

/-! ## §4 The gate -/

/-- What `api_run` says of a request of the right shape, when the database answers. -/
theorem apiRun_over (env : HandlerEnv) (db : Database) {name : Str} (hname : name.str ≠ none) (key : Bytes)
    (runargs : List Object) :
    ∃ verify, SploneBox.apiRun (env.over db) key name runargs =
        .run env.callid key verify (Handlers.runRequest env.callid name runargs) ∧
      ((dbPluginVerify db key = 0 ∧ dbFunctionVerify db key name runargs = .ok 0 ∧ verify = .ok none) ∨
        (¬ (dbPluginVerify db key = 0 ∧ dbFunctionVerify db key name runargs = .ok 0) ∧
          ∃ msg, verify = .ok (some (validationError msg)))) := by
  refine ⟨_, rfl, ?_⟩
  unfold runVerify
  rcases Handlers.dbPluginVerify_cases db key with hplugin | hplugin
  · rcases Handlers.dbFunctionVerify_ok db key hname runargs with hfunction | hfunction
    · refine Or.inl ⟨hplugin, hfunction, ?_⟩
      simp only [HandlerEnv.over, hplugin, hfunction]
      rfl
    · refine Or.inr ⟨fun h => absurd (hfunction.symm.trans h.2) (by decide), "run() verification failed.", ?_⟩
      simp only [HandlerEnv.over, hplugin, hfunction]
      rfl
  · refine Or.inr ⟨fun h => absurd (hplugin.symm.trans h.1) (by decide), "API key is invalid.", ?_⟩
    simp only [HandlerEnv.over, hplugin]
    rfl

/-- A request that is not passed on: the answer is a validation error. -/
def Refused (W : World) (c : Core) (e : RequestEvent) : Prop :=
  ∃ msg c', c'.trace = c.trace ∧ connectionRequestEvent W c e = respond W c' e (.failed msg)

theorem Refused.noRequest {c : Core} {e : RequestEvent} (h : Refused W c e) :
    NoRequest c (settle (connectionRequestEvent W c e)) := by
  obtain ⟨msg, c', htrace, heq⟩ := h
  rw [heq]
  exact settle_of_ends ((NoRequest.same htrace).ends (respond_noRequest c' e _))

/-- A plugin that is not connected. -/
theorem connectionSendRequest_absent {c : Core} {e : RequestEvent} {callid : UInt64} {key : Bytes}
    {request : List Object} (h : ¬ ∃ id con, c.pluginkeys key = some id ∧ c.connections id = some con) :
    connectionSendRequest W c e .run callid key request = respond W c e (.failed "plugin not registered") := by
  unfold connectionSendRequest
  cases hkey : c.pluginkeys key with
  | none => rfl
  | some id =>
      dsimp only
      cases hc : c.connections id with
      | none => rfl
      | some con => exact absurd ⟨id, con, hkey, hc⟩ h

/-- The core in which `api_run` is called: the handler is on record, and its `callid` is in the table. -/
def entered (c : Core) (e : RequestEvent) (callid : UInt64) : Core :=
  { c with invoked := c.invoked ++ [(e.tag, e.func)] }.putCallid callid e.con

theorem connectionRequestEvent_run {c : Core} {e : RequestEvent} {con₀ : Connection} {callid : UInt64}
    {key : Bytes} {verdict : Option ApiError} {request : List Object} (hcon : c.connections e.con = some con₀)
    (heff : e.func.call (W.handlers e.tag) e.args = .run callid key (.ok verdict) request) :
    connectionRequestEvent W c e =
      verdict.elim (connectionSendRequest W (c.entered e callid) e .run callid key request)
        fun err => respond W (c.entered e callid) e ⟨.array [], some err⟩ := by
  unfold connectionRequestEvent
  rw [hcon]
  simp only [heff]
  cases verdict <;> rfl

section
variable {c : Core} {e : RequestEvent} {con₀ : Connection} {db : Database} {env : HandlerEnv}

theorem request_of_admitted (hcon : c.connections e.con = some con₀) (hfunc : e.func = .run)
    (henv : W.handlers e.tag = env.over db) (hnamed : Named e.args) {key : Bytes} {name : Str}
    {runargs : List Object} {id : Nat} {con : Connection} (h : Admitted db c e.args key name runargs id con) :
    OneRequest c (settle (connectionRequestEvent W c e)) id
      (c.sbuf ++ [runMessage con env.callid name runargs]) := by
  obtain ⟨⟨given, hargs, hkey⟩, hplugin, hfunction, hregistered, hconnected⟩ := h
  have hname : name.str ≠ none := hnamed name (by rw [hargs]; rfl)
  obtain ⟨verify, hrun, hverify⟩ := apiRun_over env db hname key runargs
  obtain rfl : verify = .ok none := by
    rcases hverify with ⟨-, -, hverify⟩ | ⟨hno, -⟩
    · exact hverify
    · exact absurd ⟨hplugin, hfunction⟩ hno
  have heff : e.func.call (W.handlers e.tag) e.args =
      .run env.callid key (.ok none) (Handlers.runRequest env.callid name runargs) := by
    rw [hfunc, henv, hargs, ← hrun, hkey]
    rfl
  have hone : Ends (OneRequest (c.entered e env.callid) · id _) (OneRequest (c.entered e env.callid) · id _)
      (connectionSendRequest W (c.entered e env.callid) e .run env.callid key
        (Handlers.runRequest env.callid name runargs)) :=
    connectionSendRequest_oneRequest hregistered hconnected
  rw [connectionRequestEvent_run hcon heff]
  exact settle_of_ends hone

theorem refused_of_not_admitted (hcon : c.connections e.con = some con₀) (hfunc : e.func = .run)
    (henv : W.handlers e.tag = env.over db) (hnamed : Named e.args)
    (h : ¬ ∃ key name runargs id con, Admitted db c e.args key name runargs id con) : Refused W c e := by
  rcases Handlers.handleRun_cases e.args with ⟨given, length, name, runargs, hlen, hargs⟩ | ⟨msg, -, hmsg⟩
  · obtain rfl : length = 16 := Nat.succ.inj hlen
    have hname : name.str ≠ none := hnamed name (by rw [hargs]; rfl)
    obtain ⟨verify, hrun, hverify⟩ := apiRun_over env db hname ((cstr given).map toUpperByte) runargs
    have heff : e.func.call (W.handlers e.tag) e.args = .run env.callid ((cstr given).map toUpperByte) verify
        (Handlers.runRequest env.callid name runargs) := by
      rw [hfunc, henv, hargs, ← hrun]
      rfl
    rcases hverify with ⟨hplugin, hfunction, rfl⟩ | ⟨-, msg, rfl⟩
    · -- the database accepts, so it is the connection that is missing
      refine ⟨"plugin not registered", c.entered e env.callid, rfl,
        (connectionRequestEvent_run hcon heff).trans (connectionSendRequest_absent ?_)⟩
      rintro ⟨id, con, hregistered, hconnected⟩
      exact h ⟨_, name, runargs, id, con, ⟨given, hargs, rfl⟩, hplugin, hfunction, hregistered, hconnected⟩
    · exact ⟨msg, c.entered e env.callid, rfl, connectionRequestEvent_run hcon heff⟩
  · have heff : e.func.call (W.handlers e.tag) e.args = .reply (.failed msg) := by
      rw [hfunc]
      exact hmsg _
    refine ⟨msg, { c with invoked := c.invoked ++ [(e.tag, e.func)] }, rfl, ?_⟩
    unfold connectionRequestEvent
    rw [hcon]
    dsimp only
    rw [heff]

/-- **The gate of `handle_run`.** Where a request is admitted, one request is written, to the connection that
the registry holds for the key and with the new `callid`; where it is not, none is, and the answer is a
validation error. The rest of the handler, behind the answer of the plugin, writes none. -/
theorem run_gate (hcon : c.connections e.con = some con₀) (hfunc : e.func = .run)
    (henv : W.handlers e.tag = env.over db) (hnamed : Named e.args) :
    (∀ key name runargs id con, Admitted db c e.args key name runargs id con →
      OneRequest c (settle (connectionRequestEvent W c e)) id
      (c.sbuf ++ [runMessage con env.callid name runargs])) ∧
    ((¬ ∃ key name runargs id con, Admitted db c e.args key name runargs id con) →
      Refused W c e ∧ NoRequest c (settle (connectionRequestEvent W c e))) ∧
    (∀ d target cinfo, NoRequest d (settle (finishCall W d e target cinfo .run env.callid))) := by
  refine ⟨?_, ?_, ?_⟩
  · intro key name runargs id con h
    exact request_of_admitted hcon hfunc henv hnamed h
  · intro h
    have hrefused := refused_of_not_admitted (W := W) hcon hfunc henv hnamed h
    exact ⟨hrefused, hrefused.noRequest⟩
  · intro d target cinfo
    exact settle_of_ends (finishCall_noRequest d e target cinfo .run env.callid)

/-- One plugin that is connected, and asks to run its own function. -/
def Sample.lone : Core :=
  { Core.init.create SploneBox.Sample.create with
    pluginkeys := fun k => if k = SploneBox.Sample.registrant then some 1 else none }

def Sample.runEvent : RequestEvent :=
  ⟨1, 0, .run,
    [.array [.string ⟨some SploneBox.Sample.registrant, 16⟩, .nil], .string ⟨some [102], 1⟩, .array []], 5⟩

def Sample.runEnv : HandlerEnv := ⟨7, fun _ => none⟩

def Sample.runWorld : World :=
  { SploneBox.Sample.world with handlers := fun _ => Sample.runEnv.over Handlers.Sample.database }

/-- Its request is written. -/
theorem run_gate_sample : ∃ con, Sample.lone.connections 1 = some con ∧
    OneRequest Sample.lone (settle (connectionRequestEvent Sample.runWorld Sample.lone Sample.runEvent)) 1
      [runMessage con 7 ⟨some [102], 1⟩ []] := by
  obtain ⟨con, hcon⟩ : ∃ con, Sample.lone.connections 1 = some con := ⟨_, rfl⟩
  have hnamed : Named Sample.runEvent.args := by
    intro name hname
    obtain rfl := Object.string.inj (Option.some.inj hname)
    exact Option.some_ne_none _
  have henv : Sample.runWorld.handlers Sample.runEvent.tag = Sample.runEnv.over Handlers.Sample.database := rfl
  have hgate := run_gate hcon rfl henv hnamed
  refine ⟨con, hcon, hgate.1 SploneBox.Sample.registrant ⟨some [102], 1⟩ [] 1 con ⟨?_, ?_, ?_, ?_, hcon⟩⟩
  · exact ⟨SploneBox.Sample.registrant, rfl, by decide⟩
  · decide
  · rfl
  · rfl

end

end Core

end SploneBox
