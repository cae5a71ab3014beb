/-
# SploneBox.Calls — the calls between plugins: frames, call vectors and responses.

A request that one plugin makes for another leaves three traces: the frame of `loop_process_events_until`
on the stack of the thread, the `callinfo` at the end of the connection's `callvector`, and the count
`pending_requests`. Frames of several connections interleave on the one stack; each connection sees its
own only. `Matched` is the invariant that relates them, `Passes` what an operation does that has nothing
to do with calls.
-/
import SploneBox.Lifetime

namespace SploneBox

open Lib.Machine

/-- Whether a frame is a call. -/
def Frame.isCall : Frame → Bool
  | .call _ _ _ _ _ => true
  | _ => false

/-- The `callinfo` of a call to the connection `id`. -/
def Frame.waits (id : Nat) : Frame → Option Nat
  | .call _ target cinfo _ _ => if target = id then some cinfo else none
  | _ => none

/-- The `callinfo` that a frame waits for. -/
def Frame.cinfo : Frame → Option Nat
  | .call _ _ cinfo _ _ => some cinfo
  | _ => none

namespace Core

/-! ## §1 What has nothing to do with calls -/

/-- The calls on the stack, newest first. -/
def callFrames (stack : List Frame) : List Frame := stack.filter Frame.isCall

/-- The calls on the stack that wait for the connection `id`, newest first. -/
def waiting (id : Nat) (stack : List Frame) : List Nat := stack.filterMap (Frame.waits id)

theorem waiting_callFrames (id : Nat) (stack : List Frame) :
    waiting id (callFrames stack) = waiting id stack := by
  unfold waiting callFrames
  rw [List.filterMap_filter]
  congr 1
  funext f
  cases f <;> rfl

theorem callFrames_cons {f : Frame} (hf : f.isCall = false) (stack : List Frame) :
    callFrames (f :: stack) = callFrames stack := by
  unfold callFrames
  rw [List.filter_cons_of_neg (by simp [hf])]

theorem mem_callFrames {e : RequestEvent} {target cinfo : Nat} {kind : CallKind} {callid : UInt64}
    {stack : List Frame} : Frame.call e target cinfo kind callid ∈ callFrames stack ↔
      Frame.call e target cinfo kind callid ∈ stack := by
  unfold callFrames
  rw [List.mem_filter]
  exact ⟨fun h => h.1, fun h => ⟨h, rfl⟩⟩

/-- The connections agree in what calls and notifications use. -/
structure SameCalls (a b : Connection) : Prop where
  callvector : b.callvector = a.callvector
  pendingRequests : b.pendingRequests = a.pendingRequests
  delayedNotifications : b.delayedNotifications = a.delayedNotifications

/-- The connections agree in how far they have been closed. -/
def SameClosing (a b : Connection) : Prop :=
  b.tunnel.closed = a.tunnel.closed ∧ b.released = a.released

/-- **What an operation does that has nothing to do with calls.** Connections may go; those that stay
keep their calls, and those that are not in `D` are not closed. The send buffer is left alone or
cleared. -/
structure Passes (D : Nat → Prop) (c c' : Core) : Prop where
  nextConId : c'.nextConId = c.nextConId
  calls : c'.calls = c.calls
  callids : c'.callids = c.callids
  record : c'.record = c.record
  frames : callFrames c'.stack = callFrames c.stack
  closes : ∀ id, ¬ D id → Frame.close id ∈ c.stack → Frame.close id ∈ c'.stack
  sbuf : c'.sbuf = c.sbuf ∨ c'.sbuf = []
  trace : ∃ ws, c'.trace = c.trace ++ ws ∧ ∀ w ∈ ws, w.cause ≠ .notification
  connections : ∀ id con', c'.connections id = some con' →
    ∃ con, c.connections id = some con ∧ SameCalls con con' ∧ (¬ D id → SameClosing con con')

theorem SameCalls.refl (a : Connection) : SameCalls a a := ⟨rfl, rfl, rfl⟩

theorem SameCalls.trans {a b d : Connection} (h : SameCalls a b) (h' : SameCalls b d) :
    SameCalls a d :=
  ⟨h'.1.trans h.1, h'.2.trans h.2, h'.3.trans h.3⟩

theorem SameClosing.refl (a : Connection) : SameClosing a a := ⟨rfl, rfl⟩

section Passing

variable {D : Nat → Prop}

theorem Passes.trans {c c' d : Core} (h : Passes D c c') (h' : Passes D c' d) : Passes D c d := by
  refine ⟨h'.nextConId.trans h.nextConId, h'.calls.trans h.calls, h'.callids.trans h.callids,
    h'.record.trans h.record, h'.frames.trans h.frames, fun id hD hid =>
        h'.closes id hD (h.closes id hD hid), ?_, ?_,
    fun id con₂ h₂ => ?_⟩
  · rcases h'.sbuf with hs | hs
    · rw [hs]
      exact h.sbuf
    · exact Or.inr hs
  · obtain ⟨ws, hws, hn⟩ := h.trace
    obtain ⟨ws', hws', hn'⟩ := h'.trace
    refine ⟨ws ++ ws', by rw [hws', hws, List.append_assoc], fun w hw => ?_⟩
    rcases List.mem_append.mp hw with hw | hw
    · exact hn w hw
    · exact hn' w hw
  · obtain ⟨con₁, h₁, hs₁, hf₁⟩ := h'.connections id con₂ h₂
    obtain ⟨con, hc, hs, hf⟩ := h.connections id con₁ h₁
    exact ⟨con, hc, hs.trans hs₁,
      fun hD => ⟨(hf₁ hD).1.trans (hf hD).1, (hf₁ hD).2.trans (hf hD).2⟩⟩

/-- Assigning to the tables of the other handlers, or to the stack between the calls. -/
theorem passes_tables {c : Core} (keys : Bytes → Option Nat) (events : StringSet)
    (queue : List RequestEvent) (stack : List Frame) (decoded : Nat) (received : List Message)
    (invoked : List (Nat × Handler)) (hframes : callFrames stack = callFrames c.stack)
    (hcloses : ∀ id, ¬ D id → Frame.close id ∈ c.stack → Frame.close id ∈ stack) :
    Passes D c { c with
      pluginkeys := keys
      eventStrings := events
      queue := queue
      stack := stack
      decoded := decoded
      received := received
      invoked := invoked } :=
  ⟨rfl, rfl, rfl, rfl, hframes, hcloses, Or.inl rfl, ⟨[], by simp, by simp⟩,
    fun _ con' h => ⟨con', h, SameCalls.refl con', fun _ => SameClosing.refl con'⟩⟩

theorem Passes.refl (c : Core) : Passes D c c :=
  passes_tables (c := c) _ _ _ _ _ _ _ rfl fun _ _ h => h

/-- A frame that is no call and no `connection_close` is pushed. -/
theorem passes_push (c : Core) {f : Frame} (hf : f.isCall = false) :
    Passes D c { c with stack := f :: c.stack } :=
  passes_tables _ _ _ _ _ _ _ (callFrames_cons hf _) fun _ _ h => List.mem_cons_of_mem _ h

theorem passes_pop {c : Core} {f : Frame} {below : List Frame} (hs : c.stack = f :: below)
    (hf : f.isCall = false) (hD : ∀ id, f = .close id → D id) :
    Passes D c { c with stack := below } := by
  refine passes_tables _ _ _ _ _ _ _ ?_ fun id hid hin => ?_
  · rw [hs, callFrames_cons hf]
  · rw [hs] at hin
    rcases List.mem_cons.mp hin with hin | hin
    · exact absurd (hD id hin.symm) hid
    · exact hin

/-- A connection is replaced by one that has the same calls. -/
theorem connections_set {c : Core} {id : Nat} {con con' : Connection}
    (hc : c.connections id = some con) (hs : SameCalls con con')
    (hf : ¬ D id → SameClosing con con') (i : Nat) (con₁ : Connection)
    (h : (c.setConnection id con').connections i = some con₁) :
    ∃ con₀, c.connections i = some con₀ ∧ SameCalls con₀ con₁ ∧ (¬ D i → SameClosing con₀ con₁) := by
  rcases setConnection_cases h with ⟨rfl, rfl⟩ | ⟨_, h⟩
  · exact ⟨con, hc, hs, hf⟩
  · exact ⟨con₁, h, SameCalls.refl con₁, fun _ => SameClosing.refl con₁⟩

theorem passes_setConnection {c : Core} {id : Nat} {con con' : Connection}
    (hc : c.connections id = some con) (hs : SameCalls con con')
    (hf : ¬ D id → SameClosing con con') : Passes D c (c.setConnection id con') :=
  ⟨rfl, rfl, rfl, rfl, rfl, fun _ _ h => h, Or.inl rfl, ⟨[], by simp [setConnection], by simp⟩,
    connections_set hc hs hf⟩

theorem passes_modify (c : Core) (id : Nat) {f : Connection → Connection}
    (hs : ∀ con, SameCalls con (f con)) (hf : ¬ D id → ∀ con, SameClosing con (f con)) :
    Passes D c (c.modify id f) := by
  unfold modify
  split
  · rename_i con hc
    exact passes_setConnection hc (hs con) fun hD => hf hD con
  · exact Passes.refl c

theorem passes_decref (c : Core) (id : Nat) : Passes D c (c.decref id) := by
  unfold decref
  split
  · rename_i con hc
    split
    · refine ⟨rfl, rfl, rfl, rfl, rfl, fun _ _ h => h, Or.inl rfl,
        ⟨[], by simp [freeConnection, dropEvents], by simp⟩, ?_⟩
      intro i con' h
      have hne : i ≠ id := by
        rintro rfl
        simp [freeConnection, dropEvents] at h
      refine ⟨con', ?_, SameCalls.refl con', fun _ => SameClosing.refl con'⟩
      simpa [freeConnection, dropEvents, hne] using h
    · exact passes_setConnection hc ⟨rfl, rfl, rfl⟩ fun _ => ⟨rfl, rfl⟩
  · exact Passes.refl c

theorem passes_connectionClose (c : Core) {id : Nat} (hD : D id) :
    Passes D c (c.connectionClose id) := by
  unfold connectionClose
  split
  · exact Passes.refl c
  · rename_i con hc
    split
    · exact passes_decref c id
    · have hset : Passes D c (c.setConnection id { con with tunnel := { con.tunnel with closed := true } }) :=
        passes_setConnection hc ⟨rfl, rfl, rfl⟩ fun h => absurd hD h
      refine hset.trans ?_
      exact passes_push _ rfl

theorem passes_closeReturned (c : Core) {id : Nat} (hD : D id) : Passes D c (c.closeReturned id) := by
  unfold closeReturned
  refine ((passes_modify c id ?_ fun h => absurd hD h).trans (passes_decref _ id)).trans
    (passes_decref _ id)
  exact fun con => ⟨rfl, rfl, rfl⟩

theorem passes_eofCb {c : Core} {id : Nat} {con : Connection} (hc : c.connections id = some con)
    (hD : D id) : Passes D c (c.eofCb id con) := by
  have hset : Passes D c (c.setConnection id { con with
      refcount := con.refcount + 1
      reading := false }) := passes_setConnection hc ⟨rfl, rfl, rfl⟩ fun _ => ⟨rfl, rfl⟩
  exact hset.trans (passes_connectionClose _ hD)

/-- The receiving half of `parse_cb` closes nothing. -/
theorem passes_parsed {W : World} {c : Core} {id : Nat} {con : Connection} (seg : Bytes)
    (env : ReadEnv) (hc : c.connections id = some con) :
    Passes D c (c.parsed id con (c.parseData W con seg env)) := by
  have hset : Passes D c (c.setConnection id { con with
      tunnel := (c.parseData W con seg env).tunnel
      refcount := con.refcount + 1 }) :=
    passes_setConnection hc ⟨rfl, rfl, rfl⟩ fun _ => ⟨parseData_closed W c con seg env, rfl⟩
  unfold parsed
  dsimp only
  split
  · exact hset.trans (passes_tables _ _ _ _ _ _ _ rfl fun _ _ h => h)
  · exact hset

/-- The rest of `parse_cb`, unless it closes the connection. -/
theorem passes_readCb {W : World} {c : Core} {id : Nat} {con : Connection} {seg : Bytes}
    {env : ReadEnv} (hc : c.connections id = some con)
    (hD : (c.parseData W con seg env).outcome = .duplicate → D id)
    (hab : (c.parseData W con seg env).outcome ≠ .aborted) : Passes D c (c.readCb W id con seg env) := by
  have hp : Passes D c _ := passes_parsed (W := W) seg env hc
  unfold readCb
  dsimp only
  split
  · exact hp.trans (passes_decref _ id)
  · rename_i hdup
    exact hp.trans (passes_connectionClose _ (hD hdup))
  · rename_i hout
    exact absurd hout hab
  · refine (hp.trans (passes_modify _ id ?_ ?_)).trans (passes_push _ rfl)
    · exact fun con => ⟨rfl, rfl, rfl⟩
    · exact fun _ con => ⟨rfl, rfl⟩

theorem passes_unpacked {c : Core} {id : Nat} {con : Connection} (hc : c.connections id = some con)
    (rest : Bytes) : Passes D c (c.unpacked id con rest) := by
  have hset : Passes D c (c.setConnection id { con with mpac := rest }) :=
    passes_setConnection hc ⟨rfl, rfl, rfl⟩ fun _ => ⟨rfl, rfl⟩
  exact hset.trans (passes_tables _ _ _ _ _ _ _ rfl fun _ _ h => h)

theorem passes_newRequest (c : Core) (id : Nat) (m : Message) : Passes D c (c.newRequest id m) := by
  have hrec : Passes D c { c with received := c.received ++ [m] } :=
    passes_tables _ _ _ _ _ _ _ rfl fun _ _ h => h
  refine hrec.trans (passes_modify _ id ?_ ?_)
  · exact fun con => ⟨rfl, rfl, rfl⟩
  · exact fun _ con => ⟨rfl, rfl⟩

theorem passes_connectionSubscribe (c : Core) (id : Nat) (event : Bytes) :
    Passes D c (c.connectionSubscribe id event) := by
  have hmod : ∀ d : Core, Passes D d (d.modify id fun con =>
      if con.subscribedEvents.names.contains event then con
      else { con with subscribedEvents := ⟨true, con.subscribedEvents.names ++ [event]⟩ }) := by
    intro d
    refine passes_modify d id (fun con => ?_) fun _ con => ?_
    · split
      · exact SameCalls.refl con
      · exact ⟨rfl, rfl, rfl⟩
    · split
      · exact SameClosing.refl con
      · exact ⟨rfl, rfl⟩
  unfold connectionSubscribe
  dsimp only
  split
  · exact hmod c
  · exact (passes_tables _ _ _ _ _ _ _ rfl fun _ _ h => h).trans (hmod _)

theorem passes_unsubscribe {c c' : Core} {id : Nat} {event : Bytes}
    (hu : c.unsubscribe id event = .ok c') : Passes D c c' := by
  have hmod : Passes D c (c.modify id fun con => { con with
      subscribedEvents := { con.subscribedEvents with
        names := con.subscribedEvents.names.filter (· != event) } }) :=
    passes_modify c id (fun con => ⟨rfl, rfl, rfl⟩) fun _ con => ⟨rfl, rfl⟩
  unfold unsubscribe at hu
  dsimp only at hu
  split at hu
  · split at hu
    · cases hu
      exact hmod
    · cases hu
      exact hmod.trans (passes_tables _ _ _ _ _ _ _ rfl fun _ _ h => h)
  · split at hu
    · cases hu
    · cases hu
      exact Passes.refl c

/-- A message that is no notification has been written, and the buffer cleared. -/
theorem passes_posted {W : World} {c : Core} {id : Nat} {con : Connection} {m : MsgpackObject}
    {cause : Cause} {sent : Bool} {bytes : Bytes} {env : WriteEnv} (hc : c.connections id = some con)
    (hcause : cause ≠ .notification) :
    Passes D c (c.posted W id con m cause sent bytes env).clear := by
  refine ⟨rfl, rfl, rfl, rfl, rfl, fun _ _ h => h, Or.inr rfl, ⟨[_], rfl, ?_⟩, ?_⟩
  · intro w hw
    rw [List.mem_singleton.mp hw]
    exact hcause
  · exact connections_set hc ⟨rfl, rfl, rfl⟩ fun _ => ⟨rfl, rfl⟩

end Passing

/-- Any connection may be closed, or none. -/
abbrev Anyone : Nat → Prop := fun _ => True

abbrev Noone : Nat → Prop := fun _ => False

/-! ## §2 Frames, vectors and responses -/

/-- The `n`-th call of `crypto_write` sent a request with this id to the connection. -/
def Requested (c : Core) (target : Nat) (msgid : UInt64) (n : Nat) : Prop :=
  ∃ w method request, 0 < n ∧ c.trace[n - 1]? = some w ∧ w.con = target ∧ w.cause = .request ∧
    w.sent = true ∧ w.data.getLast? = some (serializeRequest msgid method request)

/-- The result of a call is that of a response: its request was written, and after that the connection
has sent the response with the same id. -/
def Answered (W : World) (c : Core) (target cinfo : Nat) (info : Callinfo) : Prop :=
  ∃ before between after n result,
    c.record = before ++ .called target cinfo info.msgid n :: between ++
      .answered target cinfo info.msgid .nil result :: after ∧
    Requested c target info.msgid n ∧
    info.result = (msgpackRpcToObject result).getD (W.leftover result)

/-- What `connection_send_request` has returned without an error is the result of a response. -/
def Finished (W : World) (c : Core) (target : Nat) (msgid : UInt64) (result : Object) : Prop :=
  ∃ before between after cinfo n obj,
    c.record = before ++ .called target cinfo msgid n :: between ++
      .answered target cinfo msgid .nil obj :: after ∧
    .finished target msgid none result ∈ after ∧ Requested c target msgid n ∧
    result = (msgpackRpcToObject obj).getD (W.leftover obj)

/-- **Frames, vectors and responses match.** -/
structure Matched (W : World) (c : Core) : Prop where
  /-- The vector of a connection is the list of its calls, the oldest first. -/
  vector : ∀ id con, c.connections id = some con → con.callvector = (waiting id c.stack).reverse
  pending : ∀ id con, c.connections id = some con → con.pendingRequests = con.callvector.length
  distinct : (c.stack.filterMap Frame.cinfo).Nodup
  known : ∀ e target cinfo kind callid, Frame.call e target cinfo kind callid ∈ c.stack →
    ∃ info n, c.calls[cinfo]? = some info ∧ .called target cinfo info.msgid n ∈ c.record
  written : ∀ target cinfo msgid n, .called target cinfo msgid n ∈ c.record →
    Requested c target msgid n
  answered : ∀ e target cinfo kind callid, Frame.call e target cinfo kind callid ∈ c.stack →
    ∀ info, c.calls[cinfo]? = some info → info.returned = true → info.errored = false →
      Answered W c target cinfo info
  /-- Unless a request could not be written. -/
  finished : (∀ w ∈ c.trace, w.cause = .request → w.sent = true) →
    ∀ target msgid result, .finished target msgid none result ∈ c.record →
      Finished W c target msgid result

theorem cinfo_callFrames (stack : List Frame) :
    (callFrames stack).filterMap Frame.cinfo = stack.filterMap Frame.cinfo := by
  unfold callFrames
  rw [List.filterMap_filter]
  congr 1
  funext f
  cases f <;> rfl

theorem Requested.append {c c' : Core} {target : Nat} {msgid : UInt64} {n : Nat} {ws : List Write}
    (h : Requested c target msgid n) (ht : c'.trace = c.trace ++ ws) : Requested c' target msgid n := by
  obtain ⟨w, method, request, hpos, hw, hrest⟩ := h
  refine ⟨w, method, request, hpos, ?_, hrest⟩
  rw [ht, List.getElem?_append_left (List.getElem?_eq_some_iff.mp hw).1]
  exact hw

theorem Answered.append {W : World} {c c' : Core} {target cinfo : Nat} {info : Callinfo}
    {ws : List Write} {os : List Occurrence} (h : Answered W c target cinfo info)
    (ht : c'.trace = c.trace ++ ws) (hr : c'.record = c.record ++ os) :
    Answered W c' target cinfo info := by
  obtain ⟨before, between, after, n, result, hrec, hreq, hres⟩ := h
  refine ⟨before, between, after ++ os, n, result, ?_, hreq.append ht, hres⟩
  rw [hr, hrec]
  simp

theorem Finished.append {W : World} {c c' : Core} {target : Nat} {msgid : UInt64} {result : Object}
    {ws : List Write} {os : List Occurrence} (h : Finished W c target msgid result)
    (ht : c'.trace = c.trace ++ ws) (hr : c'.record = c.record ++ os) :
    Finished W c' target msgid result := by
  obtain ⟨before, between, after, cinfo, n, obj, hrec, hin, hreq, hres⟩ := h
  refine ⟨before, between, after ++ os, cinfo, n, obj, ?_, List.mem_append_left _ hin,
    hreq.append ht, hres⟩
  rw [hr, hrec]
  simp

section Matching

variable {W : World} {c c' : Core}

/-- What has returned is kept as the trace and the record grow. -/
theorem Matched.finished_append {ws : List Write} {os : List Occurrence} (h : Matched W c)
    (ht : c'.trace = c.trace ++ ws) (hr : c'.record = c.record ++ os)
    (hsent : ∀ w ∈ c'.trace, w.cause = .request → w.sent = true)
    (hos : ∀ target msgid result, .finished target msgid none result ∈ os →
      Finished W c' target msgid result) (target : Nat) (msgid : UInt64) (result : Object)
    (hin : .finished target msgid none result ∈ c'.record) : Finished W c' target msgid result := by
  rw [hr] at hin
  rw [ht] at hsent
  rcases List.mem_append.mp hin with hin | hin
  · exact (h.finished (fun w hw => hsent w (List.mem_append_left _ hw)) target msgid result
      hin).append ht hr
  · exact hos target msgid result hin

/-- What keeps the match: no call is made or answered, and the connections that stay keep theirs. -/
theorem Matched.extend (ws : List Write) (os : List Occurrence) (h : Matched W c)
    (hcalls : c'.calls = c.calls) (hframes : callFrames c'.stack = callFrames c.stack)
    (htrace : c'.trace = c.trace ++ ws) (hrecord : c'.record = c.record ++ os)
    (hos : ∀ target cinfo msgid n, Occurrence.called target cinfo msgid n ∉ os)
    (hos' : (∀ w ∈ c'.trace, w.cause = .request → w.sent = true) →
      ∀ target msgid result, .finished target msgid none result ∈ os →
        Finished W c' target msgid result)
    (hconns : ∀ id con', c'.connections id = some con' → ∃ con, c.connections id = some con ∧
      con'.callvector = con.callvector ∧ con'.pendingRequests = con.pendingRequests) :
    Matched W c' := by
  have hmem : ∀ {e target cinfo kind callid}, Frame.call e target cinfo kind callid ∈ c'.stack →
      Frame.call e target cinfo kind callid ∈ c.stack := by
    intro e target cinfo kind callid hf
    rw [← mem_callFrames, ← hframes, mem_callFrames]
    exact hf
  refine ⟨fun id con' hc' => ?_, fun id con' hc' => ?_, ?_, ?_, ?_, ?_,
    -- The callvectors are read off the frames, which have stayed.
    fun hsent => h.finished_append htrace hrecord hsent (hos' hsent)⟩
  · obtain ⟨con, hc, hvec, _⟩ := hconns id con' hc'
    rw [hvec, h.vector id con hc, ← waiting_callFrames, ← hframes, waiting_callFrames]
  · obtain ⟨con, hc, hvec, hpen⟩ := hconns id con' hc'
    rw [hvec, hpen]
    exact h.pending id con hc
  · rw [← cinfo_callFrames, hframes, cinfo_callFrames]
    exact h.distinct
  · intro e target cinfo kind callid hf
    obtain ⟨info, n, hinfo, hin⟩ := h.known e target cinfo kind callid (hmem hf)
    refine ⟨info, n, by rw [hcalls]; exact hinfo, ?_⟩
    rw [hrecord]
    exact List.mem_append_left _ hin
  · intro target cinfo msgid n hin
    rw [hrecord] at hin
    rcases List.mem_append.mp hin with hin | hin
    · exact (h.written target cinfo msgid n hin).append htrace
    · exact absurd hin (hos target cinfo msgid n)
  · intro e target cinfo kind callid hf info hinfo hret herr
    rw [hcalls] at hinfo
    exact (h.answered e target cinfo kind callid (hmem hf) info hinfo hret herr).append htrace hrecord

theorem Matched.passes (h : Matched W c) (hp : Passes Anyone c c') : Matched W c' := by
  obtain ⟨ws, hws, _⟩ := hp.trace
  refine h.extend ws [] hp.calls hp.frames hws (by rw [hp.record, List.append_nil])
    (by simp) (by simp) ?_
  intro id con' hc'
  obtain ⟨con, hc, hs, _⟩ := hp.connections id con' hc'
  exact ⟨con, hc, hs.callvector, hs.pendingRequests⟩

theorem Matched.notified (h : Matched W c) (hn : Notified c c') : Matched W c' := by
  obtain ⟨ws, hws, _⟩ := hn.trace
  have hsame := hn.same
  refine h.extend ws [] (by rw [hsame]) (by rw [hsame]) hws
    (by rw [hsame, List.append_nil]) (by simp) (by simp) ?_
  intro id con' hc'
  have hrel := hn.connections id
  rw [hc'] at hrel
  generalize hc : c.connections id = x at hrel
  cases hrel with
  | some hab => exact ⟨_, rfl, by rw [hab.same], by rw [hab.same]⟩

/-- A record of something else than a call. -/
theorem Matched.note {os : List Occurrence} (h : Matched W c)
    (hos : ∀ target cinfo msgid n, Occurrence.called target cinfo msgid n ∉ os)
    (hos' : (∀ w ∈ c.trace, w.cause = .request → w.sent = true) →
      ∀ target msgid result, .finished target msgid none result ∈ os →
        Finished W (c.note os) target msgid result) :
    Matched W (c.note os) :=
  h.extend [] os rfl rfl (by simp [Core.note]) rfl hos hos'
    fun _ con' hc' => ⟨con', hc', rfl, rfl⟩

/-- Assignments to fields that calls do not use. -/
theorem Matched.assign (h : Matched W c) (callids : UInt64 → Option Nat) (sbuf : List MsgpackObject) :
    Matched W { c with callids := callids, sbuf := sbuf } :=
  h.extend [] [] rfl rfl (by simp) (by simp) (by simp) (by simp)
    fun _ con' hc' => ⟨con', hc', rfl, rfl⟩

theorem Matched.broadcast {name : Option Bytes} {args : List Object} (h : Matched W c)
    (hb : broadcastEvent W c name args = .ok c') : Matched W c' := by
  rcases broadcastEvent_cases hb with rfl | ⟨n, d, _, hn, rfl⟩
  · exact h
  · have hnote : Matched W (c.note ((c.subscribers (cstr n)).map
        (.raised · (serializeRequest 0 (cstr n) args)))) := h.note (by simp) (by simp)
    have hraise : Matched W (c.raise (cstr n) args) := hnote.assign _ _
    exact (hraise.notified (notified_notify hn)).assign _ _

/-- A request that could not be written. -/
theorem Matched.unsent {id : Nat} {con : Connection} {m : MsgpackObject} {bytes : Bytes}
    {env : WriteEnv} (msgid : UInt64) (h : Matched W c) (hc : c.connections id = some con) :
    Matched W ((c.posted W id con m .request false bytes env).note [.finished id msgid none .nil]) := by
  have hp : Passes Anyone c (c.posted W id con m .request false bytes env).clear :=
    passes_posted hc (by simp)
  have hposted : Matched W (c.posted W id con m .request false bytes env) :=
    (h.passes hp).assign _ (c.sbuf ++ [m])
  refine hposted.note (by simp) fun hsent => ?_
  -- the condition rules this write out
  have hfalse := hsent _ (List.mem_append_right _ List.mem_cons_self) rfl
  cases hfalse

theorem waiting_cons_ne {id target : Nat} (h : target ≠ id) (e : RequestEvent) (cinfo : Nat)
    (kind : CallKind) (callid : UInt64) (stack : List Frame) :
    waiting id (.call e target cinfo kind callid :: stack) = waiting id stack := by
  simp [waiting, Frame.waits, h]

theorem waiting_cons_self (id : Nat) (e : RequestEvent) (cinfo : Nat) (kind : CallKind)
    (callid : UInt64) (stack : List Frame) :
    waiting id (.call e id cinfo kind callid :: stack) = cinfo :: waiting id stack := by
  simp [waiting, Frame.waits]

theorem modify_connections (c : Core) (id : Nat) (f : Connection → Connection) (i : Nat) :
    (c.modify id f).connections i = if i = id then (c.connections id).map f else c.connections i := by
  unfold modify
  by_cases hi : i = id
  · subst hi
    rw [if_pos rfl]
    cases hc : c.connections i with
    | none => exact hc
    | some con => exact setConnection_self c i (f con)
  · rw [if_neg hi]
    cases c.connections id with
    | none => rfl
    | some con => exact setConnection_ne (f con) hi

@[simp] theorem waitFor_stack (c : Core) (e : RequestEvent) (id : Nat) (msgid : UInt64)
    (kind : CallKind) (callid : UInt64) : (c.waitFor e id msgid kind callid).stack =
      .call e id c.calls.length kind callid :: c.stack := by
  show _ :: (c.modify id _).stack = _
  rw [modify_stack]

@[simp] theorem waitFor_calls (c : Core) (e : RequestEvent) (id : Nat) (msgid : UInt64)
    (kind : CallKind) (callid : UInt64) : (c.waitFor e id msgid kind callid).calls =
      c.calls ++ [⟨msgid, false, false, .nil⟩] := rfl

theorem modify_record (c : Core) (id : Nat) (f : Connection → Connection) :
    (c.modify id f).record = c.record ∧ (c.modify id f).trace = c.trace := by
  unfold modify
  split
  · exact ⟨rfl, rfl⟩
  · exact ⟨rfl, rfl⟩

@[simp] theorem waitFor_record (c : Core) (e : RequestEvent) (id : Nat) (msgid : UInt64)
    (kind : CallKind) (callid : UInt64) : (c.waitFor e id msgid kind callid).record =
      c.record ++ [.called id c.calls.length msgid c.trace.length] := by
  show (c.modify id _).record ++ _ = _
  rw [(modify_record c id _).1]

@[simp] theorem waitFor_trace (c : Core) (e : RequestEvent) (id : Nat) (msgid : UInt64)
    (kind : CallKind) (callid : UInt64) : (c.waitFor e id msgid kind callid).trace = c.trace :=
  (modify_record c id _).2

theorem connectionClose_trace (c : Core) (id : Nat) : (c.connectionClose id).trace = c.trace := by
  unfold connectionClose
  split
  · rfl
  · split
    · exact (decref_record c id).2
    · rfl

theorem closeReturned_trace (c : Core) (id : Nat) : (c.closeReturned id).trace = c.trace := by
  unfold closeReturned
  rw [(decref_record _ id).2, (decref_record _ id).2, (modify_record c id _).2]

theorem parsed_trace (c : Core) (id : Nat) (con : Connection) (r : ParseResult) :
    (c.parsed id con r).trace = c.trace := by
  unfold parsed
  dsimp only
  split <;> rfl

theorem readCb_trace (W : World) (c : Core) (id : Nat) (con : Connection) (seg : Bytes)
    (env : ReadEnv) : (c.readCb W id con seg env).trace = c.trace := by
  have hp := parsed_trace c id con (c.parseData W con seg env)
  unfold readCb
  dsimp only
  split
  · exact (decref_record _ id).2.trans hp
  · exact (connectionClose_trace _ id).trans hp
  · exact hp
  · exact (modify_record _ id _).2.trans hp

theorem connectionSubscribe_trace (c : Core) (id : Nat) (event : Bytes) :
    (c.connectionSubscribe id event).trace = c.trace := by
  unfold connectionSubscribe
  dsimp only
  split <;> exact (modify_record _ id _).2

theorem unsubscribe_trace {c c' : Core} {id : Nat} {event : Bytes}
    (hu : c.unsubscribe id event = .ok c') : c'.trace = c.trace := by
  unfold unsubscribe at hu
  dsimp only at hu
  split at hu
  · split at hu <;> (cases hu; exact (modify_record c id _).2)
  · split at hu
    · cases hu
    · cases hu
      rfl

/-- A connection after a call: the one that is called has one more. -/
theorem waitFor_connections {c : Core} {e : RequestEvent} {id : Nat} {msgid : UInt64}
    {kind : CallKind} {callid : UInt64} {i : Nat} {con' : Connection}
    (h : (c.waitFor e id msgid kind callid).connections i = some con') :
    ∃ con, c.connections i = some con ∧
      ((i ≠ id ∧ con' = con) ∨ (i = id ∧ con' = { con with
        callvector := con.callvector ++ [c.calls.length]
        pendingRequests := con.pendingRequests + 1 })) := by
  have h' : (c.modify id fun con => { con with
      callvector := con.callvector ++ [c.calls.length]
      pendingRequests := con.pendingRequests + 1 }).connections i = some con' := h
  rw [modify_connections] at h'
  split at h'
  · rename_i hi
    obtain ⟨con, hc, rfl⟩ := Option.map_eq_some_iff.mp h'
    exact ⟨con, hi ▸ hc, Or.inr ⟨hi, rfl⟩⟩
  · rename_i hi
    exact ⟨con', h', Or.inl ⟨hi, rfl⟩⟩

/-- The `callinfo` of a frame is one of the calls. -/
theorem Matched.cinfo_lt (h : Matched W c) {e : RequestEvent} {target cinfo : Nat} {kind : CallKind}
    {callid : UInt64} (hf : Frame.call e target cinfo kind callid ∈ c.stack) :
    cinfo < c.calls.length := by
  obtain ⟨info, n, hinfo, _⟩ := h.known e target cinfo kind callid hf
  exact (List.getElem?_eq_some_iff.mp hinfo).1

theorem mem_cinfo {stack : List Frame} {cinfo : Nat} (h : cinfo ∈ stack.filterMap Frame.cinfo) :
    ∃ e target kind callid, Frame.call e target cinfo kind callid ∈ stack := by
  obtain ⟨f, hf, hcinfo⟩ := List.mem_filterMap.mp h
  cases f with
  | call e target cinfo' kind callid =>
      cases hcinfo
      exact ⟨e, target, kind, callid, hf⟩
  | poll => cases hcinfo
  | close id => cases hcinfo
  | parse id => cases hcinfo
  | drain queue => cases hcinfo

/-- **A call is made.** -/
theorem Matched.waitFor {e : RequestEvent} {id : Nat} {msgid : UInt64} {kind : CallKind}
    {callid : UInt64} (h : Matched W c) (hreq : Requested c id msgid c.trace.length) :
    Matched W (c.waitFor e id msgid kind callid) := by
  have htrace : (c.waitFor e id msgid kind callid).trace = c.trace ++ [] := by simp
  have hold : ∀ cinfo, cinfo < c.calls.length →
      (c.waitFor e id msgid kind callid).calls[cinfo]? = c.calls[cinfo]? := by
    intro cinfo hlt
    rw [waitFor_calls, List.getElem?_append_left hlt]
  refine ⟨fun i con' hc' => ?_, fun i con' hc' => ?_, ?_, ?_, ?_, ?_,
    fun hsent => h.finished_append htrace (waitFor_record c e id msgid kind callid) hsent (by simp)⟩
  · obtain ⟨con, hc, ⟨hi, rfl⟩ | ⟨rfl, rfl⟩⟩ := waitFor_connections hc'
    · rw [waitFor_stack, waiting_cons_ne (Ne.symm hi)]
      exact h.vector i con' hc
    · rw [waitFor_stack, waiting_cons_self, List.reverse_cons, ← h.vector i con hc]
  · obtain ⟨con, hc, ⟨hi, rfl⟩ | ⟨rfl, rfl⟩⟩ := waitFor_connections hc'
    · exact h.pending i con' hc
    · simp [h.pending i con hc]
  -- The new frame is the only one with the new callinfo: all others are below the length of the table.
  · rw [waitFor_stack]
    refine List.nodup_cons.mpr ⟨fun hin => ?_, h.distinct⟩
    obtain ⟨e', target, kind', callid', hf⟩ := mem_cinfo hin
    exact Nat.lt_irrefl _ (h.cinfo_lt hf)
  · intro e' target cinfo kind' callid' hf
    rw [waitFor_stack] at hf
    rcases List.mem_cons.mp hf with hf | hf
    · cases hf
      refine ⟨⟨msgid, false, false, .nil⟩, c.trace.length, ?_, by simp⟩
      simp
    · obtain ⟨info, n, hinfo, hin⟩ := h.known e' target cinfo kind' callid' hf
      refine ⟨info, n, (hold cinfo (h.cinfo_lt hf)).trans hinfo, ?_⟩
      rw [waitFor_record]
      exact List.mem_append_left _ hin
  · intro target cinfo msgid' n hin
    rw [waitFor_record] at hin
    rcases List.mem_append.mp hin with hin | hin
    · exact (h.written target cinfo msgid' n hin).append htrace
    · cases List.mem_singleton.mp hin
      exact hreq.append htrace
  · intro e' target cinfo kind' callid' hf info hinfo hret herr
    rw [waitFor_stack] at hf
    rcases List.mem_cons.mp hf with hf | hf
    · -- the new call has not returned
      cases hf
      rw [waitFor_calls, List.getElem?_append_right (Nat.le_refl _)] at hinfo
      simp only [Nat.sub_self, List.getElem?_cons_zero, Option.some.injEq] at hinfo
      rw [← hinfo] at hret
      cases hret
    · rw [hold cinfo (h.cinfo_lt hf)] at hinfo
      exact (h.answered e' target cinfo kind' callid' hf info hinfo hret herr).append htrace
        (waitFor_record c e id msgid kind callid)

/-- **A call returns**: what it takes from the vector is what it has put there. -/
theorem Matched.returned {e : RequestEvent} {target cinfo : Nat} {kind : CallKind} {callid : UInt64}
    {below : List Frame} {con : Connection} (h : Matched W c)
    (hs : c.stack = .call e target cinfo kind callid :: below)
    (hc : c.connections target = some con) :
    Matched W ({ c with stack := below }.setConnection target (popped con)) := by
  have hin : ∀ {f}, f ∈ below → f ∈ c.stack := by
    intro f hf
    rw [hs]
    exact List.mem_cons_of_mem _ hf
  have hvec := h.vector target con hc
  rw [hs, waiting_cons_self, List.reverse_cons] at hvec
  refine ⟨fun i con' hc' => ?_, fun i con' hc' => ?_, ?_, ?_, h.written, ?_, h.finished⟩
  -- The frame that is taken off is that of the newest call, the last in the callvector.
  · rcases setConnection_cases hc' with ⟨rfl, rfl⟩ | ⟨hi, hc'⟩
    · show con.callvector.dropLast = _
      rw [hvec, List.dropLast_concat]
      rfl
    · have hold := h.vector i con' hc'
      rw [hs, waiting_cons_ne (Ne.symm hi)] at hold
      exact hold
  · rcases setConnection_cases hc' with ⟨rfl, rfl⟩ | ⟨hi, hc'⟩
    · show con.pendingRequests - 1 = con.callvector.dropLast.length
      rw [List.length_dropLast, h.pending i con hc]
    · exact h.pending i con' hc'
  · have hnodup := h.distinct
    rw [hs] at hnodup
    exact (List.nodup_cons.mp hnodup).2
  · intro e' target' cinfo' kind' callid' hf
    exact h.known e' target' cinfo' kind' callid' (hin hf)
  · intro e' target' cinfo' kind' callid' hf info hinfo hret herr
    exact h.answered e' target' cinfo' kind' callid' (hin hf) info hinfo hret herr

theorem mem_waiting {stack : List Frame} {id cinfo : Nat} (h : cinfo ∈ waiting id stack) :
    ∃ e kind callid, Frame.call e id cinfo kind callid ∈ stack := by
  obtain ⟨f, hf, hw⟩ := List.mem_filterMap.mp h
  cases f with
  | call e target cinfo' kind callid =>
      simp only [Frame.waits] at hw
      split at hw
      · rename_i ht
        cases hw
        exact ⟨e, kind, callid, ht ▸ hf⟩
      · cases hw
  | poll => cases hw
  | close id => cases hw
  | parse id => cases hw
  | drain queue => cases hw

/-- The newest call of a connection is on the stack. -/
theorem Matched.newest (h : Matched W c) {id cinfo : Nat} {con : Connection}
    (hc : c.connections id = some con) (hlast : con.callvector.getLast? = some cinfo) :
    ∃ e kind callid, Frame.call e id cinfo kind callid ∈ c.stack := by
  rw [h.vector id con hc, List.getLast?_reverse] at hlast
  exact mem_waiting (List.mem_of_mem_head? hlast)

/-- What a vector holds is a call. -/
theorem Matched.vector_known (h : Matched W c) {id i : Nat} {con : Connection}
    (hc : c.connections id = some con) (hi : i ∈ con.callvector) :
    ∃ info, c.calls[i]? = some info := by
  rw [h.vector id con hc, List.mem_reverse] at hi
  obtain ⟨e, kind, callid, hf⟩ := mem_waiting hi
  obtain ⟨info, n, hinfo, _⟩ := h.known e id i kind callid hf
  exact ⟨info, hinfo⟩

/-- Two frames with one `callinfo` are one frame. -/
theorem target_unique {stack : List Frame} {e e' : RequestEvent} {target target' cinfo : Nat}
    {kind kind' : CallKind} {callid callid' : UInt64} (hn : (stack.filterMap Frame.cinfo).Nodup)
    (h : Frame.call e target cinfo kind callid ∈ stack)
    (h' : Frame.call e' target' cinfo kind' callid' ∈ stack) : target = target' := by
  induction stack with
  | nil => exact absurd h List.not_mem_nil
  | cons f stack ih =>
      have hrest : (stack.filterMap Frame.cinfo).Nodup :=
        hn.sublist ((List.sublist_cons_self f stack).filterMap Frame.cinfo)
      have hmem : ∀ {e target kind callid}, Frame.call e target cinfo kind callid ∈ stack →
          cinfo ∈ stack.filterMap Frame.cinfo :=
        fun hf => List.mem_filterMap.mpr ⟨_, hf, rfl⟩
      rcases List.mem_cons.mp h with rfl | hin
      · rcases List.mem_cons.mp h' with heq | hin'
        · cases heq
          rfl
        · exact absurd (hmem hin') (List.nodup_cons.mp hn).1
      · rcases List.mem_cons.mp h' with rfl | hin'
        · exact absurd (hmem hin) (List.nodup_cons.mp hn).1
        · exact ih hrest hin hin'

theorem newestCall_cases {con : Connection} {msgid : UInt64} {cinfo : Nat}
    (h : c.newestCall con msgid = some cinfo) : con.callvector.getLast? = some cinfo ∧
      ∃ info, c.calls[cinfo]? = some info ∧ info.msgid = msgid := by
  unfold newestCall at h
  obtain ⟨hlast, hany⟩ := Option.filter_eq_some_iff.mp h
  obtain ⟨info, hinfo, hm⟩ := (Option.any_eq_true _ _).mp hany
  exact ⟨hlast, info, hinfo, by simpa using hm⟩

/-- The calls have been assigned to, each keeps its id; those that have returned without an error are
answered. -/
theorem Matched.update (calls : List Callinfo) (os : List Occurrence) (h : Matched W c)
    (hmsgid : ∀ (i : Nat) (info : Callinfo), c.calls[i]? = some info →
      ∃ info', calls[i]? = some info' ∧ info'.msgid = info.msgid)
    (hos : ∀ target cinfo msgid n, Occurrence.called target cinfo msgid n ∉ os)
    (hos' : ∀ target msgid result, Occurrence.finished target msgid none result ∉ os)
    (hans : ∀ e target cinfo kind callid, Frame.call e target cinfo kind callid ∈ c.stack →
      ∀ info, calls[cinfo]? = some info → info.returned = true → info.errored = false →
      c.calls[cinfo]? = some info ∨ Answered W ({ c with calls := calls }.note os) target cinfo info) :
    Matched W ({ c with calls := calls }.note os) := by
  have htrace : ({ c with calls := calls }.note os).trace = c.trace ++ [] := by
    rw [List.append_nil]
    rfl
  refine ⟨h.vector, h.pending, h.distinct, ?_, ?_, ?_, fun hsent =>
    h.finished_append htrace rfl hsent fun target msgid result hin => absurd hin (hos' target msgid result)⟩
  · intro e target cinfo kind callid hf
    obtain ⟨info, n, hinfo, hin⟩ := h.known e target cinfo kind callid hf
    obtain ⟨info', hinfo', hm⟩ := hmsgid cinfo info hinfo
    exact ⟨info', n, hinfo', hm ▸ List.mem_append_left _ hin⟩
  · intro target cinfo msgid n hin
    rcases List.mem_append.mp hin with hin | hin
    · exact (h.written target cinfo msgid n hin).append htrace
    · exact absurd hin (hos target cinfo msgid n)
  · intro e target cinfo kind callid hf info hinfo hret herr
    rcases hans e target cinfo kind callid hf info hinfo hret herr with hold | hnew
    · exact (h.answered e target cinfo kind callid hf info hold hret herr).append htrace rfl
    · exact hnew

/-- What a response leaves of a `callinfo`. -/
theorem connectionHandleResponse_calls (W : World) (c : Core) (id cinfo : Nat) (msgid : UInt64)
    (error result : MsgpackObject) (i : Nat) :
    (i ≠ cinfo ∧ (c.connectionHandleResponse W id cinfo msgid error result).calls[i]? = c.calls[i]?) ∨
    (i = cinfo ∧ ∃ errored obj,
      (errored = false → error = .nil ∧ obj = result) ∧
      (c.connectionHandleResponse W id cinfo msgid error result).calls[i]? =
        (c.calls[i]?).map fun info => { info with
          returned := true
          errored := errored
          result := (msgpackRpcToObject obj).getD (W.leftover obj) }) := by
  by_cases hi : i = cinfo
  · subst hi
    refine Or.inr ⟨rfl, _, _, ?_, List.getElem?_modify_eq _ _ _⟩
    cases error <;> simp
  · exact Or.inl ⟨hi, List.getElem?_modify_ne _ _ (Ne.symm hi)⟩

/-- **A response is matched with the newest call of its connection.** -/
theorem Matched.response {id cinfo : Nat} {con : Connection} {msgid : UInt64}
    {error result : MsgpackObject} (h : Matched W c) (hc : c.connections id = some con)
    (hnew : c.newestCall con msgid = some cinfo) :
    Matched W (c.connectionHandleResponse W id cinfo msgid error result) := by
  obtain ⟨hlast, old, hold, hmsgid⟩ := newestCall_cases hnew
  obtain ⟨e₀, kind₀, callid₀, hframe⟩ := h.newest hc hlast
  obtain ⟨info₀, n, hinfo₀, hcalled⟩ := h.known e₀ id cinfo kind₀ callid₀ hframe
  rw [hold] at hinfo₀
  cases hinfo₀
  refine h.update _ _ (fun i info hinfo => ?_) (by simp) (by simp) ?_
  · rcases connectionHandleResponse_calls W c id cinfo msgid error result i with
      ⟨_, hsame⟩ | ⟨_, errored, obj, _, hmap⟩
    · exact ⟨info, hsame.trans hinfo, rfl⟩
    · rw [hinfo] at hmap
      exact ⟨_, hmap, rfl⟩
  · intro e target i kind callid hf info hinfo hret herr
    rcases connectionHandleResponse_calls W c id cinfo msgid error result i with
      ⟨_, hsame⟩ | ⟨rfl, errored, obj, hok, hmap⟩
    · exact Or.inl (hsame.symm.trans hinfo)
    · -- the frame is the one that waits for this connection
      have ht : target = id := target_unique h.distinct hf hframe
      subst ht
      rw [hold] at hmap
      have heq := Option.some.inj (hinfo.symm.trans hmap)
      rw [heq] at herr
      obtain ⟨rfl, rfl⟩ := hok herr
      obtain ⟨before, between, hsplit⟩ := List.append_of_mem hcalled
      refine Or.inr ⟨before, between, [], n, obj, ?_, ?_, ?_⟩
      · show c.record ++ _ = _
        rw [hsplit, heq, ← hmsgid]
      · rw [heq]
        exact (h.written _ _ _ _ hcalled).append (List.append_nil c.trace).symm
      · rw [heq]

/-- What `call_set_error` leaves of a `callinfo`. -/
theorem callErrored_foldl (callvector : List Nat) (calls : List Callinfo) (i : Nat) :
    (callvector.foldl callErrored calls)[i]? = (calls[i]?).map fun info =>
      if i ∈ callvector then { info with returned := true, errored := true } else info := by
  induction callvector generalizing calls with
  | nil => simp
  | cons j callvector ih =>
      rw [List.foldl_cons, ih, callErrored, List.getElem?_modify]
      cases calls[i]? with
      | none => rfl
      | some info =>
          simp only [Option.map_eq_map, Option.map_some, List.mem_cons]
          by_cases hj : j = i
          · subst hj
            simp
          · have hij : i ≠ j := Ne.symm hj
            simp [hj, hij]

theorem Matched.callSetError (h : Matched W c) (callvector : List Nat) :
    Matched W (c.callSetError callvector) := by
  have hupdate := h.update (callvector.foldl callErrored c.calls) []
    (fun i info hinfo => ?_) (by simp) (by simp) ?_
  · have heq : { c with calls := callvector.foldl callErrored c.calls }.note [] =
        c.callSetError callvector := by
      simp [Core.note, Core.callSetError]
    rw [← heq]
    exact hupdate
  · rw [callErrored_foldl, hinfo]
    refine ⟨_, rfl, ?_⟩
    dsimp only
    split <;> rfl
  · intro e target cinfo kind callid _ info hinfo _ herr
    rw [callErrored_foldl] at hinfo
    obtain ⟨old, hold, rfl⟩ := Option.map_eq_some_iff.mp hinfo
    refine Or.inl ?_
    split at herr
    · cases herr
    · rename_i hnot
      rw [if_neg hnot]
      exact hold

/-- The connection that a call waits for is in the table. -/
theorem Balanced.target_exists {k : List Hold} (h : Balanced k c) {e : RequestEvent}
    {target cinfo : Nat} {kind : CallKind} {callid : UInt64}
    (hf : Frame.call e target cinfo kind callid ∈ c.stack) :
    ∃ con, c.connections target = some con := by
  have hmem : Frame.refs target (.call e target cinfo kind callid) ∈
      c.stack.map (Frame.refs target) := List.mem_map_of_mem hf
  have hle := List.le_sum_of_mem hmem
  have hone : 1 ≤ Frame.refs target (.call e target cinfo kind callid) := by
    simp [Frame.refs]
  have hcov := h.covered target
  unfold refs stackRefs at hcov
  cases hc : c.connections target with
  | none =>
      rw [hc] at hcov
      simp only [ownRef, countOf] at hcov
      omega
  | some con => exact ⟨con, rfl⟩

theorem Balanced.waiting_fresh {k : List Hold} (h : Balanced k c) : waiting c.nextConId c.stack = [] := by
  rw [List.eq_nil_iff_forall_not_mem]
  intro cinfo hin
  obtain ⟨e, kind, callid, hf⟩ := mem_waiting hin
  obtain ⟨con, hc⟩ := h.target_exists hf
  rw [h.fresh _ (Nat.le_refl _)] at hc
  cases hc

/-- A connection that `connection_create` adds, or one that was there. -/
theorem create_cases {env : CreateEnv} {id : Nat} {con' : Connection}
    (h : (c.create env).connections id = some con') :
    (id = c.nextConId ∧ con'.callvector = [] ∧ con'.pendingRequests = 0 ∧
      con'.delayedNotifications = [] ∧ con'.tunnel = connectionCreate env) ∨
    c.connections id = some con' := by
  rcases setConnection_cases h with ⟨rfl, rfl⟩ | ⟨_, h⟩
  · exact Or.inl ⟨rfl, rfl, rfl, rfl, rfl⟩
  · exact Or.inr h

theorem Matched.create (h : Matched W c) (hb : Balanced [] c) (env : CreateEnv) :
    Matched W (c.create env) := by
  refine ⟨fun id con' hc' => ?_, fun id con' hc' => ?_, h.distinct, h.known, h.written, h.answered,
    h.finished⟩
  · rcases create_cases hc' with ⟨rfl, hvec, _⟩ | hc
    · rw [hvec]
      show [] = (waiting c.nextConId c.stack).reverse
      rw [hb.waiting_fresh]
      rfl
    · exact h.vector id con' hc
  · rcases create_cases hc' with ⟨rfl, hvec, hpen, _⟩ | hc
    · rw [hvec, hpen]
      rfl
    · exact h.pending id con' hc

/-- The request that has just been written. -/
theorem posted_requested {id : Nat} {con : Connection} {msgid : UInt64} {method : Bytes}
    {request : List Object} {bytes : Bytes} {env : WriteEnv} :
    Requested (c.posted W id con (serializeRequest msgid method request) .request true bytes env).clear
      id msgid
      (c.posted W id con (serializeRequest msgid method request) .request true bytes
        env).clear.trace.length := by
  refine ⟨⟨id, con.tunnel.closed, con.pendingRequests, c.sbuf ++ [serializeRequest msgid method request],
    .request, true⟩, method, request, ?_, ?_, rfl, rfl, rfl, by simp⟩
  · simp [posted, written, wrote, Core.clear]
  · simp [posted, written, wrote, Core.clear, setConnection, pack]

/-- `connection_send_request` returns: the call was answered before the move started. -/
theorem Matched.finished_call {c₀ : Core} {e : RequestEvent} {target cinfo : Nat} {kind : CallKind}
    {callid : UInt64} {info : Callinfo} {error : Option ApiError} {result : Object} {ws : List Write}
    (h : Matched W c) (h₀ : Matched W c₀)
    (hs : c₀.stack = .call e target cinfo kind callid :: c.stack)
    (hi : c₀.calls[cinfo]? = some info) (hr : info.returned = true)
    (hout : error = none → info.errored = false ∧ result = info.result)
    (hrec : c.record = c₀.record) (htrace : c.trace = c₀.trace ++ ws) :
    Matched W (c.note [.finished target info.msgid error result]) := by
  refine h.note (by simp) fun _ target' msgid' result' hin => ?_
  cases List.mem_singleton.mp hin
  obtain ⟨herr, rfl⟩ := hout rfl
  have hf : Frame.call e target cinfo kind callid ∈ c₀.stack := by
    rw [hs]
    exact List.mem_cons_self
  obtain ⟨before, between, after, n, obj, hrec₀, hreq, hres⟩ :=
    h₀.answered e target cinfo kind callid hf info hi hr herr
  refine ⟨before, between, after ++ [.finished target info.msgid none info.result], cinfo, n, obj,
    ?_, by simp, hreq.append htrace, hres⟩
  show c.record ++ _ = _
  rw [hrec, hrec₀]
  simp

/-- **The match holds at every place of a move.** -/
theorem Matched.at {c₀ : Core} {l : Label} {k : List Hold} (h : Matched W c₀) (hb : Balanced [] c₀)
    -- On the way to `c`: `response` fills a callinfo in, `mismatch` marks them all, `wait` makes one,
    -- `returned` and `finished` take one off; all other moves pass the calls by.
    (ha : At W c₀ l k c) : Matched W c := by
  induction ha with
  | start => exact h
  | pushLoop hs hf =>
      refine h.passes (passes_push _ ?_)
      cases hf <;> rfl
  | popLoop hs hf =>
      refine h.passes (passes_pop hs ?_ fun _ _ => trivial)
      cases hf <;> rfl
  | popParse hs => exact h.passes (passes_pop hs rfl fun _ _ => trivial)
  | unpacked hs hc hn hr => exact h.passes (passes_unpacked hc _)
  | @response id cinfo con below obj rest msgid error result hs hc hn hr hnew =>
      have hpop : Matched W { c₀ with stack := below } :=
        h.passes (passes_pop hs rfl fun _ _ => trivial)
      have hc' : { c₀ with stack := below }.connections id = some con := hc
      exact (hpop.passes (passes_unpacked hc' rest)).response (setConnection_self _ _ _) hnew
  | @mismatch id con below obj rest msgid error result hs hc hn hr hnew =>
      have hpop : Matched W { c₀ with stack := below } :=
        h.passes (passes_pop hs rfl fun _ _ => trivial)
      have hc' : { c₀ with stack := below }.connections id = some con := hc
      exact ((hpop.passes (passes_unpacked hc' rest)).callSetError _).passes
        (passes_connectionClose _ trivial)
  | dequeue hs ht => exact h.passes (passes_tables _ _ _ _ _ _ _ rfl fun _ _ h => h)
  | returned hs hc hi hr hf => exact (h.returned hs hc).notified (notified_flush hf)
  | @closeReturned id below hs =>
      have hpop : Matched W { c₀ with stack := below } :=
        h.passes (passes_pop hs rfl fun _ _ => trivial)
      exact hpop.passes (passes_closeReturned _ trivial)
  | read hc hu hl hfit hab => exact h.passes (passes_readCb hc (fun _ => trivial) hab)
  | eof hc hu hl => exact h.passes (passes_eofCb hc trivial)
  | create hu => exact h.create hb _
  | tick hc ho => exact h.passes (passes_setConnection hc ⟨rfl, rfl, rfl⟩ fun _ => ⟨rfl, rfl⟩)
  | decref _ ih => exact ih.passes (passes_decref _ _)
  | error sent bytes env _ hh hc hl hcause ih =>
      refine ih.passes (passes_posted hc ?_)
      rintro rfl
      rcases hcause with hcause | hcause <;> cases hcause
  | newRequest _ hp hv hprep ih => exact ih.passes (passes_newRequest _ _ _)
  | enqueue _ ih => exact ih.passes (passes_tables _ _ _ _ _ _ _ rfl fun _ _ h => h)
  | invoke _ ih => exact ih.passes (passes_tables _ _ _ _ _ _ _ rfl fun _ _ h => h)
  | subscribe event _ hc ho ih => exact ih.passes (passes_connectionSubscribe _ _ _)
  | unsubscribe _ hu ih => exact ih.passes (passes_unsubscribe hu)
  | broadcast _ hn hf hb' ih => exact ih.broadcast hb'
  | putCallid _ ht heff hids hconns ih => exact (ih.assign _ _).note (by simp) (by simp)
  | answer sent bytes env _ hm hc hl ih => exact ih.passes (passes_posted hc (by simp))
  | silent _ hm ih => exact ih.passes (passes_decref _ _)
  | target _ ht ha hs hkey hc ih =>
      exact ih.passes (passes_setConnection hc ⟨rfl, rfl, rfl⟩ fun _ => ⟨rfl, rfl⟩)
  | unsent msgid bytes env _ ht ha hkey hc hl ih => exact ih.unsent msgid hc
  | wait msgid request bytes env _ ht ha hkey hs hids hc hl ih =>
      exact (ih.passes (passes_posted hc (by simp))).waitFor posted_requested
  | finished _ hs hi hr hout hrec htrace ih => exact ih.finished_call h hs hi hr hout hrec htrace
  | deliver _ hr hids ih => exact (ih.assign _ _).note (by simp) (by simp)

end Matching

theorem matched_init (W : World) : Matched W Core.init :=
  ⟨fun _ _ hc => (nomatch hc), fun _ _ hc => (nomatch hc), List.nodup_nil,
    fun _ _ _ _ _ hf => (nomatch hf), fun _ _ _ _ hin => (nomatch hin),
    fun _ _ _ _ _ hf => (nomatch hf), fun _ _ _ _ hin => (nomatch hin)⟩

/-- **The match holds in every state in which the process runs.** -/
theorem matched_reached {W : World} {ls : List Label} {c : Core}
    (hex : exec (Core.step W) Core.init ls = some c) (hrun : c.halt = none) :
    Ordered [] c ∧ Matched W c := by
  have halways := always_running (W := W) (I := Matched W) (G := fun _ _ => True)
    (matched_init W) (fun c l c' hord h _ ha => h.at hord.2 ha) (@along_true _ _ _ ls _)
  exact halways.exec hex hrun

/-- The response to no call marks the calls of the connection, and assigns to no result. -/
theorem mismatch_calls {c : Core} (callvector : List Nat) (id : Nat) :
    (∀ i : Nat, ((((c.callSetError callvector).connectionClose id).calls)[i]?).map Callinfo.result =
      (c.calls[i]?).map Callinfo.result) ∧
    ∀ i ∈ callvector, ∀ info, c.calls[i]? = some info →
      ∃ info', (((c.callSetError callvector).connectionClose id).calls)[i]? = some info' ∧
        info'.returned = true ∧ info'.errored = true := by
  have hcalls : ((c.callSetError callvector).connectionClose id).calls =
      callvector.foldl callErrored c.calls :=
    (passes_connectionClose (D := Anyone) _ trivial).calls
  refine ⟨fun i => ?_, fun i hi info hinfo => ?_⟩
  · rw [hcalls, callErrored_foldl]
    cases c.calls[i]? with
    | none => rfl
    | some info =>
        simp only [Option.map_some]
        split <;> rfl
  · rw [hcalls, callErrored_foldl, hinfo]
    refine ⟨_, rfl, ?_⟩
    dsimp only
    rw [if_pos hi]
    exact ⟨rfl, rfl⟩

/-- The move that decodes a response to no call. -/
theorem step_mismatch {W : World} {c c' : Core} {id : Nat} {con : Connection} {below : List Frame}
    {obj : MsgpackObject} {rest : Bytes} {msgid : UInt64} {error result : MsgpackObject}
    (hs : c.stack = .parse id :: below) (hc : c.connections id = some con)
    (hn : W.msgpack.next con.mpac = .success obj rest)
    (hr : rpcResponse obj = some (msgid, error, result)) (hnew : c.newestCall con msgid = none)
    (hstep : c.step W .turn = some c') (hrun : c'.halt = none) :
    c' = (({ c with stack := below }.unpacked id con rest).callSetError con.callvector).connectionClose
      id := by
  have hnew' : ({ c with stack := below }.unpacked id con rest).newestCall con msgid = none := hnew
  unfold Core.step at hstep
  split at hstep
  · cases hstep
  · simp only [Core.turn, hs, hc, Core.parseObject, Option.some.injEq] at hstep
    split at hstep
    · rw [← hstep] at hrun
      cases hrun
    · rw [hn] at hstep
      dsimp only at hstep
      rw [hr] at hstep
      dsimp only at hstep
      rw [hnew'] at hstep
      exact hstep.symm

end Core

open Core

/-- **Calls and responses match**, in every state of a run in which every request could be written. The
vector of a connection lists its calls in call order and `pending_requests` is its length; the call that
the thread is in is the last of the vector it is taken from; what `connection_send_request` has returned
without an error is the result of a response that came after its request; and a response to no call
assigns to no result and marks the calls of its connection. -/
theorem call_response_matching {W : World} {ls : List Label} {c : Core}
    (hex : exec (Core.step W) Core.init ls = some c) (hrun : c.halt = none)
    (hsent : ∀ w ∈ c.trace, w.cause = .request → w.sent = true) :
    (∀ id con, c.connections id = some con →
      con.callvector = (waiting id c.stack).reverse ∧ con.pendingRequests = con.callvector.length) ∧
    (∀ e target cinfo kind callid below, c.stack = .call e target cinfo kind callid :: below →
      ∃ con, c.connections target = some con ∧ con.callvector.getLast? = some cinfo) ∧
    (∀ target msgid result, .finished target msgid none result ∈ c.record →
      Finished W c target msgid result) ∧
    (∀ id con below obj rest msgid error result c', c.stack = .parse id :: below →
      c.connections id = some con → W.msgpack.next con.mpac = .success obj rest →
      rpcResponse obj = some (msgid, error, result) →
      (∀ i info, con.callvector.getLast? = some i → c.calls[i]? = some info → info.msgid ≠ msgid) →
      c.step W .turn = some c' → c'.halt = none →
      (∀ i : Nat, (c'.calls[i]?).map Callinfo.result = (c.calls[i]?).map Callinfo.result) ∧
      ∀ i ∈ con.callvector, ∃ info, c'.calls[i]? = some info ∧ info.returned = true ∧
        info.errored = true) := by
  obtain ⟨hord, hmatch⟩ := matched_reached hex hrun
  refine ⟨fun id con hc => ⟨hmatch.vector id con hc, hmatch.pending id con hc⟩, ?_,
    hmatch.finished hsent, ?_⟩
  · intro e target cinfo kind callid below hs
    have hf : Frame.call e target cinfo kind callid ∈ c.stack := by
      rw [hs]
      exact List.mem_cons_self
    obtain ⟨con, hc⟩ := hord.2.target_exists hf
    refine ⟨con, hc, ?_⟩
    rw [hmatch.vector target con hc, hs, waiting_cons_self]
    simp
  · intro id con below obj rest msgid error result c' hs hc hnext hresp hother hstep hrun'
    -- No call of the callvector has the number, so in particular the newest has not.
    have hnew : c.newestCall con msgid = none := by
      cases hx : c.newestCall con msgid with
      | none => rfl
      | some i =>
          obtain ⟨hlast, info, hinfo, hm⟩ := newestCall_cases hx
          exact absurd hm (hother i info hlast hinfo)
    rw [step_mismatch hs hc hnext hresp hnew hstep hrun']
    obtain ⟨hresult, hmark⟩ := mismatch_calls (c := { c with stack := below }.unpacked id con rest)
      con.callvector id
    refine ⟨hresult, fun i hi => ?_⟩
    obtain ⟨info, hinfo⟩ := hmatch.vector_known hc hi
    exact hmark i hi info hinfo

/-- The call has returned without an error. -/
def Occurrence.isFinished : Occurrence → Bool
  | .finished _ _ none _ => true
  | _ => false

/-- A response went to a call. -/
def Occurrence.isAnswered : Occurrence → Bool
  | .answered _ _ _ _ _ => true
  | _ => false

theorem Occurrence.finished_of_isFinished {o : Occurrence} (h : o.isFinished = true) :
    ∃ con msgid result, o = .finished con msgid none result := by
  unfold isFinished at h
  split at h
  · exact ⟨_, _, _, rfl⟩
  · cases h

/-- A plugin calls itself, and answers the call. -/
def Sample.answeredCall : List Label :=
  .turn :: (Sample.connect 1 (Sample.fill 32 3) ++
    Sample.sends 1 5 (Sample.run 9 (Sample.pluginkey "03")) :: (Sample.turns 6 ++
      Sample.sends 1 9 (Sample.response 1 (.array [.positiveInteger 7])) :: Sample.turns 3))

/-- **A call that has returned without an error**, with the result of its response. -/
theorem call_response_matching_sample :
    ∃ c target msgid result, exec (Core.step Sample.world) Core.init Sample.answeredCall = some c ∧
      .finished target msgid none result ∈ c.record ∧ Finished Sample.world c target msgid result := by
  have hrun : (exec (Core.step Sample.world) Core.init Sample.answeredCall).any (fun c =>
      c.halt.isNone && (c.trace.all fun w => decide (w.cause ≠ .request) || w.sent) &&
        c.record.any Occurrence.isFinished) = true := by
    rw [Sample.answeredCall, Sample.exec_connect_append rfl]
    decide +kernel
  obtain ⟨c, hex, hc⟩ := (Option.any_eq_true _ _).mp hrun
  simp only [Bool.and_eq_true, List.all_eq_true, List.any_eq_true, Bool.or_eq_true,
    decide_eq_true_eq] at hc
  obtain ⟨⟨hlive, hsent⟩, o, hin, ho⟩ := hc
  obtain ⟨target, msgid, result, rfl⟩ := Occurrence.finished_of_isFinished ho
  have hmatch := call_response_matching hex (Option.isNone_iff_eq_none.mp hlive)
    fun w hw hcause => (hsent w hw).resolve_left fun h => h hcause
  exact ⟨c, target, msgid, result, hex, hin, hmatch.2.2.1 target msgid result hin⟩

/-- A world in which nothing can be written. -/
def Sample.mute : World := { Sample.world with writes := fun _ => ⟨true, true, false⟩ }

/-- A plugin calls itself. -/
def Sample.unwrittenCall : List Label :=
  .turn :: (Sample.connect 1 (Sample.fill 32 3) ++
    Sample.sends 1 5 (Sample.run 9 (Sample.pluginkey "03")) :: Sample.turns 5)

/-- **A call returns without an error and without a response**: its request could not be written. -/
theorem unwritten_call_finished :
    ∃ c target msgid result, exec (Core.step Sample.mute) Core.init Sample.unwrittenCall = some c ∧
      c.halt = none ∧ .finished target msgid none result ∈ c.record ∧
      ¬ Finished Sample.mute c target msgid result := by
  have hrun : (exec (Core.step Sample.mute) Core.init Sample.unwrittenCall).any (fun c =>
      c.halt.isNone && c.record.any Occurrence.isFinished &&
        c.record.all fun o => !o.isAnswered) = true := by
    rw [Sample.unwrittenCall, Sample.exec_connect_append rfl]
    decide +kernel
  obtain ⟨c, hex, hc⟩ := (Option.any_eq_true _ _).mp hrun
  simp only [Bool.and_eq_true, List.all_eq_true, List.any_eq_true] at hc
  obtain ⟨⟨hlive, o, hin, ho⟩, hno⟩ := hc
  obtain ⟨target, msgid, result, rfl⟩ := Occurrence.finished_of_isFinished ho
  refine ⟨c, target, msgid, result, hex, Option.isNone_iff_eq_none.mp hlive, hin, ?_⟩
  rintro ⟨before, between, after, cinfo, n, obj, hrec, _⟩
  have hanswered := hno (.answered target cinfo msgid .nil obj) (by rw [hrec]; simp)
  cases hanswered

end SploneBox
