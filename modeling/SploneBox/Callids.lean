/-
# SploneBox.Callids — the table of pending calls.

`handle_run` enters the fresh `callid` with the address of the caller's `pluginkeystring`; `handle_result`
follows the address, waits until the caller has acknowledged the result, and deletes the entry. Nothing
else looks at the table. So an entry outlives its connection when the connection goes first, and an entry
is used again by a second `handle_result` that runs while the first one waits.

§2 is about the first: entries name open connections as long as no connection is closed under its
entries. §3 is about the second: the record of a run, read for one `callid`, is a run of a machine with
two states, free and pending for a connection.
-/
import Mathlib.Data.List.Induction
import SploneBox.Calls
import SploneBox.Registry

namespace SploneBox

open Lib.Machine

namespace Core

/-! ## §1 The request that a move handles -/

/-- The event that the next move takes from the queue it drains. -/
def taken (c : Core) : Option RequestEvent :=
  match c.stack with
  | .drain queue :: _ => (takeEvent queue c.queue).map Prod.fst
  | _ => none

/-- The `callid` that the handler of a request makes an entry for. -/
def enters (W : World) (e : RequestEvent) : Option UInt64 :=
  match e.func.call (W.handlers e.tag) e.args with
  | .run callid _ _ _ => some callid
  | _ => none

/-- The `callid` that the handler of a request looks up. -/
def resolves (W : World) (e : RequestEvent) : Option UInt64 :=
  match e.func.call (W.handlers e.tag) e.args with
  | .result callid _ => some callid
  | _ => none

theorem Takes.taken {c : Core} {e : RequestEvent} (h : Takes c e) : c.taken = some e := by
  obtain ⟨queue, below, left, hs, ht⟩ := h
  simp [Core.taken, hs, ht]

theorem enters_run {W : World} {e : RequestEvent} {callid : UInt64} {key : Bytes}
    {verify : Except Fault (Option ApiError)} {request : List Object}
    (h : e.func.call (W.handlers e.tag) e.args = .run callid key verify request) :
    enters W e = some callid := by
  simp [enters, h]

theorem Asks.resolves {W : World} {c : Core} {e : RequestEvent} {callid : UInt64} {key : Bytes}
    (h : Asks W c e .result callid key) : Core.resolves W e = some callid := by
  cases h with
  | result heff howner ho => simp [Core.resolves, heff]

/-! ## §2 Entries and their connections -/

/-- **Every entry refers to an open connection.** -/
def OwnersOpen (c : Core) : Prop :=
  ∀ callid owner, c.callids callid = some owner →
    ∃ con, c.connections owner = some con ∧ con.tunnel.closed = false

/-- What an operation does that makes no entry and closes no connection: the open ones stay open. -/
structure Opens (c c' : Core) : Prop where
  callids : ∀ callid owner, c'.callids callid = some owner → c.callids callid = some owner
  connections : ∀ id con, c.connections id = some con → con.tunnel.closed = false →
    ∃ con', c'.connections id = some con' ∧ con'.tunnel.closed = false

theorem OwnersOpen.opens {c c' : Core} (h : OwnersOpen c) (ho : Opens c c') : OwnersOpen c' := by
  intro callid owner howner
  obtain ⟨con, hc, hopen⟩ := h callid owner (ho.callids callid owner howner)
  exact ho.connections owner con hc hopen

theorem opens_setConnection {c : Core} {id : Nat} {con con' : Connection}
    (hc : c.connections id = some con) (hclosed : con'.tunnel.closed = con.tunnel.closed) :
    Opens c (c.setConnection id con') := by
  refine ⟨fun _ _ h => h, fun i con₁ hc₁ ho => ?_⟩
  by_cases hi : i = id
  · subst hi
    rw [hc] at hc₁
    cases hc₁
    exact ⟨con', setConnection_self c i con', hclosed.trans ho⟩
  · exact ⟨con₁, (setConnection_ne con' hi).trans hc₁, ho⟩

theorem opens_modify (c : Core) (id : Nat) {f : Connection → Connection}
    (hf : ∀ con, (f con).tunnel.closed = con.tunnel.closed) : Opens c (c.modify id f) := by
  unfold modify
  split
  · rename_i con hc
    exact opens_setConnection hc (hf con)
  · exact ⟨fun _ _ h => h, fun _ con hc ho => ⟨con, hc, ho⟩⟩

theorem opens_notified {c c' : Core} (hn : Notified c c') : Opens c c' := by
  refine ⟨fun callid owner h => ?_, fun id con hc ho => ?_⟩
  · rw [hn.same] at h
    exact h
  · have hrel := hn.connections id
    rw [hc] at hrel
    generalize hc' : c'.connections id = x at hrel
    cases hrel with
    | some hab => exact ⟨_, rfl, hab.closed.trans ho⟩

theorem opens_broadcast {W : World} {c c' : Core} {name : Option Bytes} {args : List Object}
    (hb : broadcastEvent W c name args = .ok c') : Opens c c' := by
  rcases broadcastEvent_cases hb with rfl | ⟨n, d, _, hn, rfl⟩
  · exact ⟨fun _ _ h => h, fun _ con hc ho => ⟨con, hc, ho⟩⟩
  · have hopens := opens_notified (notified_notify hn)
    exact ⟨hopens.callids, hopens.connections⟩

theorem opens_unsubscribe {c c' : Core} {id : Nat} {event : Bytes}
    (hu : c.unsubscribe id event = .ok c') : Opens c c' := by
  have hmod : Opens c (c.modify id fun con => { con with
      subscribedEvents := { con.subscribedEvents with
        names := con.subscribedEvents.names.filter (· != event) } }) := opens_modify c id fun _ => rfl
  unfold unsubscribe at hu
  dsimp only at hu
  split at hu
  · split at hu
    · cases hu
      exact hmod
    · cases hu
      exact ⟨hmod.callids, hmod.connections⟩
  · split at hu
    · cases hu
    · cases hu
      exact ⟨fun _ _ h => h, fun _ con hc ho => ⟨con, hc, ho⟩⟩

theorem opens_connectionSubscribe (c : Core) (id : Nat) (event : Bytes) :
    Opens c (c.connectionSubscribe id event) := by
  have hmod : ∀ d : Core, Opens d (d.modify id fun con =>
      if con.subscribedEvents.names.contains event then con
      else { con with subscribedEvents := ⟨true, con.subscribedEvents.names ++ [event]⟩ }) := by
    intro d
    refine opens_modify d id fun con => ?_
    split <;> rfl
  unfold connectionSubscribe
  dsimp only
  split
  · exact hmod c
  · have hopens := hmod { c with eventStrings := ⟨true, c.eventStrings.names ++ [event]⟩ }
    exact ⟨hopens.callids, hopens.connections⟩

theorem opens_unpacked {c : Core} {id : Nat} {con : Connection} (hc : c.connections id = some con)
    (rest : Bytes) : Opens c (c.unpacked id con rest) := by
  have hset : Opens c (c.setConnection id { con with mpac := rest }) := opens_setConnection hc rfl
  exact ⟨hset.callids, hset.connections⟩

/-- A message has been written; what happens to the buffer and to the record does not matter. -/
theorem opens_posted (W : World) {c : Core} {id : Nat} {con : Connection} (m : MsgpackObject)
    (cause : Cause) (sent : Bool) (bytes : Bytes) (env : WriteEnv) (hc : c.connections id = some con)
    (sbuf : List MsgpackObject) (os : List Occurrence) :
    Opens c ({ c.posted W id con m cause sent bytes env with sbuf := sbuf }.note os) := by
  have hset : Opens c (c.setConnection id { con with
      tunnel := afterWrite con.tunnel (SploneBox.cryptoWrite W.server con.tunnel.cc bytes env) }) :=
    opens_setConnection hc rfl
  exact ⟨hset.callids, hset.connections⟩

theorem opens_newRequest (c : Core) (id : Nat) (m : Message) : Opens c (c.newRequest id m) := by
  have hmod := opens_modify { c with received := c.received ++ [m] } id
    (f := fun con => { con with refcount := con.refcount + 1 }) fun _ => rfl
  exact ⟨hmod.callids, hmod.connections⟩

theorem opens_waitFor (c : Core) (e : RequestEvent) (id : Nat) (msgid : UInt64) (kind : CallKind)
    (callid : UInt64) : Opens c (c.waitFor e id msgid kind callid) := by
  have hmod := opens_modify c id (f := fun con => { con with
    callvector := con.callvector ++ [c.calls.length]
    pendingRequests := con.pendingRequests + 1 }) fun _ => rfl
  exact ⟨hmod.callids, hmod.connections⟩

section Owners

variable {W : World} {c : Core} {id : Nat}

theorem decref_connections_ne (c : Core) {id i : Nat} (hi : i ≠ id) :
    (c.decref id).connections i = c.connections i := by
  unfold decref
  split
  · split
    · exact if_neg hi
    · exact setConnection_ne _ hi
  · rfl

/-- The reference of an open connection to itself keeps it in the table. -/
theorem OwnersOpen.decref {k : List Hold} (h : OwnersOpen c) (hb : Balanced (.ref id :: k) c) :
    OwnersOpen (c.decref id) := by
  intro callid owner howner
  rw [decref_callids] at howner
  obtain ⟨con, hc, ho⟩ := h callid owner howner
  by_cases hi : owner = id
  · subst hi
    rw [decref_open hb hc ho]
    exact ⟨_, setConnection_self _ _ _, ho⟩
  · exact ⟨con, (decref_connections_ne c hi).trans hc, ho⟩

/-- `connection_close`, of a connection that no entry refers to. -/
theorem OwnersOpen.connectionClose {con : Connection} (h : OwnersOpen c)
    (hc : c.connections id = some con)
    (hno : con.tunnel.closed = false → ∀ callid, c.callids callid ≠ some id) :
    OwnersOpen (c.connectionClose id) := by
  cases hcl : con.tunnel.closed with
  | true =>
      rw [connectionClose_closed hc hcl]
      intro callid owner howner
      rw [decref_callids] at howner
      obtain ⟨con', hc', ho⟩ := h callid owner howner
      have hi : owner ≠ id := by
        rintro rfl
        rw [hc] at hc'
        cases hc'
        rw [hcl] at ho
        cases ho
      exact ⟨con', (decref_connections_ne c hi).trans hc', ho⟩
  | false =>
      rw [connectionClose_open hc hcl]
      intro callid owner howner
      obtain ⟨con', hc', ho⟩ := h callid owner howner
      have hi : owner ≠ id := by
        rintro rfl
        exact hno hcl callid howner
      exact ⟨con', (setConnection_ne _ hi).trans hc', ho⟩

theorem OwnersOpen.closeReturned {below : List Frame} (h : OwnersOpen c) (hb : Balanced [] c)
    (hs : c.stack = .close id :: below) :
    OwnersOpen ({ c with stack := below }.closeReturned id) := by
  have hpop : OwnersOpen { c with stack := below } := h
  have hopens : Opens { c with stack := below } ({ c with stack := below }.modify id fun con =>
    { con with released := true }) := opens_modify _ id fun _ => rfl
  exact ((hpop.opens hopens).decref (hb.popClose hs)).decref (hb.popClose hs).decref

theorem opens_parsed (c : Core) {id : Nat} {con : Connection} {r : ParseResult}
    (hc : c.connections id = some con) (hr : r.tunnel.closed = con.tunnel.closed) :
    Opens c (c.parsed id con r) := by
  have hset : Opens c (c.setConnection id { con with
      tunnel := r.tunnel
      refcount := con.refcount + 1 }) := opens_setConnection hc hr
  unfold parsed
  dsimp only
  split
  · exact ⟨hset.callids, hset.connections⟩
  · exact hset

theorem OwnersOpen.readCb {con : Connection} {seg : Bytes} {env : ReadEnv} (h : OwnersOpen c)
    (hb : Balanced [] c) (hc : c.connections id = some con)
    (hno : (c.parseData W con seg env).outcome = .duplicate → con.tunnel.closed = false →
      ∀ callid, c.callids callid ≠ some id)
    (hab : (c.parseData W con seg env).outcome ≠ .aborted) : OwnersOpen (c.readCb W id con seg env) := by
  have hflag := parseData_closed W c con seg env
  have hp : OwnersOpen (c.parsed id con (c.parseData W con seg env)) :=
    h.opens (opens_parsed c hc hflag)
  unfold Core.readCb
  dsimp only
  split
  · exact hp.decref (hb.parsed hc hflag)
  · rename_i hdup
    refine hp.connectionClose (parsed_self _ _ _ _) fun ho callid hid => ?_
    exact hno hdup (hflag.symm.trans ho) callid ((opens_parsed c hc hflag).callids callid id hid)
  · rename_i hout
    exact absurd hout hab
  · rename_i plain _
    have hopens := opens_modify (c.parsed id con (c.parseData W con seg env)) id
      (f := fun con => { con with mpac := con.mpac ++ plain }) fun _ => rfl
    have hmod := hp.opens hopens
    exact hmod

theorem OwnersOpen.create (h : OwnersOpen c) (hb : Balanced [] c) (env : CreateEnv) :
    OwnersOpen (c.create env) := by
  intro callid owner howner
  obtain ⟨con, hc, ho⟩ := h callid owner howner
  have hi : owner ≠ c.nextConId := by
    rintro rfl
    rw [hb.fresh _ le_rfl] at hc
    cases hc
  exact ⟨con, (setConnection_ne _ hi).trans hc, ho⟩

/-- The connection that a move closes. -/
def closesOpen (W : World) (c : Core) : Label → Option Nat
  | .eof id => ((c.connections id).filter fun con => !con.tunnel.closed).map fun _ => id
  | .read id seg env => ((c.connections id).filter fun con => !con.tunnel.closed &&
      decide ((c.parseData W con seg env).outcome = .duplicate)).map fun _ => id
  | .turn =>
      match c.stack with
      | .parse id :: _ => ((c.connections id).filter fun con => !con.tunnel.closed &&
          (mismatched W c con).isSome).map fun _ => id
      | _ => none
  | _ => none

/-- **The moves that leave no entry behind**: the connection that is closed has no entry, and entries are
made for open connections. -/
structure OwnerStays (W : World) (c : Core) (l : Label) : Prop where
  closed : ∀ id ∈ closesOpen W c l, ∀ callid, c.callids callid ≠ some id
  entered : ∀ e ∈ c.taken, (enters W e).isSome = true → ∀ con ∈ c.connections e.con,
    con.tunnel.closed = false

/-- **Entries refer to open connections at every place of a move** that leaves none behind. -/
theorem OwnersOpen.at {c₀ : Core} {l : Label} {k : List Hold} (h : OwnersOpen c₀)
    (hord : Ordered [] c₀) (ha : At W c₀ l k c) (hq : OwnerStays W c₀ l) : OwnersOpen c := by
  induction ha with
  | start => exact h
  -- Only `connection_close`, and the entry that a `run` makes, can break it: each is what the condition
  -- excludes.
  | pushLoop hs hf => exact h
  | popLoop hs hf => exact h
  | popParse hs => exact h
  | unpacked hs hc hn hr => exact h.opens (opens_unpacked hc _)
  | @response id cinfo con below obj rest msgid error result hs hc hn hr hnew =>
      have hset := h.opens (opens_unpacked hc rest)
      exact hset
  | @mismatch id con below obj rest msgid error result hs hc hn hr hnew =>
      have hun := h.opens (opens_unpacked hc rest)
      have hset : OwnersOpen (({ c₀ with stack := below }.unpacked id con rest).callSetError
          con.callvector) := hun
      refine hset.connectionClose (setConnection_self _ _ _) fun ho => ?_
      have ho' : con.tunnel.closed = false := ho
      -- The message does not answer the newest call: the source closes the connection.
      exact hq.closed id (by simp [closesOpen, hs, hc, mismatched, hn, hr, hnew, ho'])
  | dequeue hs ht => exact h
  | @returned e target cinfo kind callid below con info c hs hc hi hr hf =>
      have hpop : OwnersOpen { c₀ with stack := below } := h
      have hc' : { c₀ with stack := below }.connections target = some con := hc
      have hset : OwnersOpen ({ c₀ with stack := below }.setConnection target (popped con)) :=
        hpop.opens (opens_setConnection hc' rfl)
      exact hset.opens (opens_notified (notified_flush hf))
  | closeReturned hs => exact h.closeReturned hord.2 hs
  | @read id con seg env hc hu hl hfit hab =>
      refine h.readCb hord.2 hc (fun hdup ho => ?_) hab
      exact hq.closed id (by simp [closesOpen, hc, ho, hdup])
  | @eof id con hc hu hl =>
      have hset : OwnersOpen (c₀.setConnection id { con with
          refcount := con.refcount + 1
          reading := false }) := h.opens (opens_setConnection hc rfl)
      refine hset.connectionClose (setConnection_self _ _ _) fun ho => ?_
      exact hq.closed id (by simpa [closesOpen, hc] using ho)
  | create hu => exact h.create hord.2 _
  | tick hc ho => exact h.opens (opens_setConnection hc rfl)
  | decref ha' ih => exact (ih hq).decref (hord.at ha').2
  | @error l k c id con msgid err cause sent bytes env _ hh hc hl hcause ih =>
      have hposted := (ih hq).opens (opens_posted W
        (serializeResponse msgid (some (validationError err)) .nil) cause sent bytes env hc [] [])
      exact hposted
  | newRequest _ hp hv hprep ih => exact (ih hq).opens (opens_newRequest _ _ _)
  | enqueue _ ih => exact ih hq
  | invoke _ ih => exact ih hq
  | subscribe event _ hc ho ih => exact (ih hq).opens (opens_connectionSubscribe _ _ _)
  | unsubscribe _ hu ih => exact (ih hq).opens (opens_unsubscribe hu)
  | broadcast _ hn hf hb ih => exact (ih hq).opens (opens_broadcast hb)
  | @putCallid l k c e callid key verify request ha' ht heff hids hconns ih =>
      -- The `run` has put its own connection into the table; it is held by the request that is being handled.
      intro i owner howner
      have howner' : (if i = callid then some e.con else c.callids i) = some owner := howner
      split at howner'
      · cases howner'
        obtain ⟨con, hc, _⟩ := (hord.at ha').2.exists_of_hold (x := .request e) List.mem_cons_self rfl
        refine ⟨con, hc, hq.entered e ht.taken ?_ con (hconns ▸ hc)⟩
        rw [enters_run heff]
        rfl
      · exact ih hq i owner howner'
  | @answer l k c e con err res sent bytes env _ hm hc hl ih =>
      have hposted := (ih hq).opens (opens_posted W (serializeResponse e.msgid err res) (.response e.tag)
        sent bytes env hc [] [])
      exact hposted
  | silent ha' hm ih => exact (ih hq).decref (hord.at ha').2.spent
  | target _ ht ha hs hkey hc ih => exact (ih hq).opens (opens_setConnection hc rfl)
  | @unsent l k c e id con request kind callid key msgid bytes env _ ht ha hkey hc hl ih =>
      exact (ih hq).opens
        (opens_posted W (serializeRequest msgid kind.method request) .request false bytes env hc _ _)
  | @wait l k c e id con kind callid key msgid request bytes env _ ht ha hkey hs hids hc hl ih =>
      have hopens := opens_posted W (serializeRequest msgid kind.method request) .request true bytes env
        hc [] []
      have hposted : OwnersOpen (c.posted W id con (serializeRequest msgid kind.method request) .request
        true bytes env).clear := (ih hq).opens ⟨hopens.callids, hopens.connections⟩
      exact hposted.opens (opens_waitFor _ e id msgid kind callid)
  | finished _ hs hi hr hout hrec htrace ih => exact ih hq
  | @deliver l k c e callid _ hr hids ih =>
      -- The `result` has taken its entry out.
      intro i owner howner
      have howner' : (if i = callid then none else c.callids i) = some owner := howner
      split at howner'
      · cases howner'
      · exact ih hq i owner howner'

theorem OwnersOpen.faded {c' : Core} (h : OwnersOpen c) (hf : Faded c c') : OwnersOpen c' := by
  intro callid owner howner
  rw [hf.callids] at howner
  obtain ⟨con, hc, ho⟩ := h callid owner howner
  have hrel := hf.connections owner
  rw [hc] at hrel
  generalize hc' : c'.connections owner = x at hrel
  cases hrel with
  | some hclosed => exact ⟨_, rfl, hclosed.trans ho⟩

end Owners

end Core

open Core

/-- **Pending calls name live callers**, in every run in which no connection is closed under its entries:
each entry of `callids` is that of a connection in the table. -/
theorem callids_name_connections {W : World} {ls : List Label}
    (hq : Along (Core.step W) (fun c l _ => OwnerStays W c l) Core.init ls) :
    Always (Core.step W) (fun c => ∀ callid owner, c.callids callid = some owner →
      ∃ con, c.connections owner = some con) Core.init ls := by
  have halways := always_placed (I := OwnersOpen) (J := OwnersOpen) (G := OwnerStays W)
    (fun _ _ h => (nomatch h)) (fun _ _ _ _ hord h hg ha => h.at hord ha hg)
    (fun _ _ h hf => h.faded hf) hq
  have hname : ∀ c : Core, OwnersOpen c ∧ (c.halt = none → Ordered [] c ∧ OwnersOpen c) →
      ∀ callid owner, c.callids callid = some owner → ∃ con, c.connections owner = some con := by
    rintro c ⟨h, _⟩ callid owner howner
    obtain ⟨con, hc, _⟩ := h callid owner howner
    exact ⟨con, hc⟩
  exact ⟨hname _ halways.1, halways.2.imp fun _ _ _ => hname _⟩

/-- A plugin asks for a function of a plugin that is not there. -/
def Sample.strayCall : List Label :=
  .turn :: (Sample.connect 1 (Sample.fill 32 3) ++
    Sample.sends 1 5 (Sample.run 9 (Sample.pluginkey "04")) :: Sample.turns 7)

/-- **A run that meets the condition**: the plugin stays, and its entry refers to it. -/
theorem callids_name_connections_sample :
    ∃ c con, exec (Core.step Sample.world) Core.init Sample.strayCall = some c ∧
      c.callids 7 = some 1 ∧ c.connections 1 = some con := by
  have hquiet : Along (Core.step Sample.world) (fun c l _ => closesOpen Sample.world c l = none ∧
      ∀ e ∈ c.taken, (enters Sample.world e).isSome = true → ∀ con ∈ c.connections e.con,
        con.tunnel.closed = false) Core.init Sample.strayCall := by
    apply Sample.along_connect rfl <;> decide +kernel
  have hrun : (exec (Core.step Sample.world) Core.init Sample.strayCall).any
      (fun c => decide (c.callids 7 = some 1)) = true := by
    rw [Sample.strayCall, Sample.exec_connect_append rfl]
    decide +kernel
  obtain ⟨c, hex, hc⟩ := (Option.any_eq_true _ _).mp hrun
  have hentry := of_decide_eq_true hc
  have hstays : Along (Core.step Sample.world) (fun c l _ => OwnerStays Sample.world c l) Core.init
      Sample.strayCall := by
    refine hquiet.imp fun c l _ h => ⟨fun id hid => ?_, h.2⟩
    rw [h.1] at hid
    cases hid
  obtain ⟨con, hcon⟩ := (callids_name_connections hstays).exec hex 7 1 hentry
  exact ⟨c, con, hex, hentry, hcon⟩

/-- **An entry whose connection is gone**: the plugin leaves, and the entry that its request has made
stays. -/
theorem callid_outlives_connection :
    ∃ c, exec (Core.step Sample.world) Core.init (Sample.strayCall ++ [.eof 1, .turn]) = some c ∧
      c.halt = none ∧ c.callids 7 = some 1 ∧ c.connections 1 = none := by
  have hrun : (exec (Core.step Sample.world) Core.init (Sample.strayCall ++ [.eof 1, .turn])).any
      (fun c => c.halt.isNone && decide (c.callids 7 = some 1) && (c.connections 1).isNone) = true := by
    rw [Sample.strayCall, List.cons_append, List.append_assoc, Sample.exec_connect_append rfl]
    decide +kernel
  obtain ⟨c, hex, hc⟩ := (Option.any_eq_true _ _).mp hrun
  simp only [Bool.and_eq_true, decide_eq_true_eq, Option.isNone_iff_eq_none] at hc
  exact ⟨c, hex, hc.1.1, hc.1.2, hc.2⟩

namespace Core

/-! ## §3 One `callid` -/

/-- The `callid` that a frame hands a result over for. -/
def Frame.hands : Frame → Option UInt64
  | .call _ _ _ .result callid => some callid
  | _ => none

/-- The `callid`s whose result has been forwarded and not been acknowledged. -/
def forwarded (stack : List Frame) : List UInt64 := stack.filterMap Frame.hands

/-- **The machine of one `callid`**: it is free, or it is pending for the connection whose request has made
it. An occurrence that is not enabled ends the run. -/
def callidStep (callid : UInt64) : Option Nat → Occurrence → Option (Option Nat)
  | entry, .created i con =>
      if i = callid then
        if entry.isSome then none else some (some con)
      else some entry
  | entry, .delivered i =>
      if i = callid then
        if entry.isSome then some none else none
      else some entry
  | entry, _ => some entry

/-- What makes no entry and deletes none. -/
def Occurrence.aside : Occurrence → Bool
  | .created _ _ => false
  | .delivered _ => false
  | _ => true

theorem exec_aside (callid : UInt64) (entry : Option Nat) :
    ∀ {os : List Occurrence}, (∀ o ∈ os, Occurrence.aside o = true) →
      exec (callidStep callid) entry os = some entry
  | [], _ => rfl
  | o :: os, h => by
      have hstep : callidStep callid entry o = some entry := by
        have ho := h o List.mem_cons_self
        cases o <;> first | rfl | cases ho
      exact exec_cons.mpr ⟨entry, hstep, exec_aside callid entry fun o' ho' =>
        h o' (List.mem_cons_of_mem o ho')⟩

/-- A `callid` that is free stays free until an entry is made. -/
theorem exec_free {callid : UInt64} : ∀ {os : List Occurrence} {entry : Option Nat},
    (∀ con, Occurrence.created callid con ∉ os) → exec (callidStep callid) none os = some entry →
      entry = none
  | [], entry, _, h => by
      cases h
      rfl
  | o :: os, entry, hno, h => by
      obtain ⟨next, hstep, hrest⟩ := exec_cons.mp h
      -- Without the request that makes it, every occurrence leaves the entry empty.
      have hfree : next = none := by
        cases o with
        | created i con =>
            simp only [callidStep] at hstep
            split at hstep
            · rename_i hi
              subst hi
              exact absurd List.mem_cons_self (hno con)
            · cases hstep
              rfl
        | delivered i =>
            simp only [callidStep] at hstep
            split at hstep
            · cases hstep
            · cases hstep
              rfl
        | called con cinfo msgid writes =>
            cases hstep
            rfl
        | answered con cinfo msgid error result =>
            cases hstep
            rfl
        | finished con msgid error result =>
            cases hstep
            rfl
        | raised con m =>
            cases hstep
            rfl
      subst hfree
      exact exec_free (fun con hin => hno con (List.mem_cons_of_mem o hin)) hrest

/-- Before each delivery an entry was made. -/
theorem created_of_delivered {callid : UInt64} {before after : List Occurrence} {entry : Option Nat}
    (h : exec (callidStep callid) none (before ++ .delivered callid :: after) = some entry) :
    ∃ con, Occurrence.created callid con ∈ before := by
  by_contra hno
  obtain ⟨free, hbefore, hrest⟩ := exec_append.mp h
  have hfree := exec_free (fun con hin => hno ⟨con, hin⟩) hbefore
  obtain ⟨next, hstep, _⟩ := exec_cons.mp hrest
  subst hfree
  simp [callidStep] at hstep

/-- **At most one result per call**: before every delivery of a result, and after the delivery before it,
a request has made the `callid`. -/
structure AnsweredOnce (c : Core) : Prop where
  created : ∀ callid before after, c.record = before ++ .delivered callid :: after →
    ∃ con, Occurrence.created callid con ∈ before
  again : ∀ callid before between after,
    c.record = before ++ .delivered callid :: (between ++ .delivered callid :: after) →
      ∃ con, Occurrence.created callid con ∈ between

theorem answeredOnce_of_exec {c : Core}
    (h : ∀ callid, exec (callidStep callid) none c.record = some (c.callids callid)) :
    AnsweredOnce c := by
  refine ⟨fun callid before after hrec => ?_, fun callid before between after hrec => ?_⟩
  · have hrun := h callid
    rw [hrec] at hrun
    exact created_of_delivered hrun
  · have hrun := h callid
    rw [hrec] at hrun
    obtain ⟨entry, _, hrest⟩ := exec_append.mp hrun
    obtain ⟨next, hstep, hrest⟩ := exec_cons.mp hrest
    have hfree : next = none := by
      simp only [callidStep, if_true] at hstep
      split at hstep
      · cases hstep
        rfl
      · cases hstep
    subst hfree
    exact created_of_delivered hrest

/-- The connection whose request has made the `callid`, which nobody has answered since. -/
def Creator (c : Core) (callid : UInt64) (owner : Nat) : Prop :=
  ∃ before after, c.record = before ++ .created callid owner :: after ∧
    Occurrence.delivered callid ∉ after ∧ ∀ con, Occurrence.created callid con ∉ after

theorem creator_of_exec {callid : UInt64} {owner : Nat} {record : List Occurrence}
    (h : exec (callidStep callid) none record = some (some owner)) :
    ∃ before after, record = before ++ .created callid owner :: after ∧
      Occurrence.delivered callid ∉ after ∧ ∀ con, Occurrence.created callid con ∉ after := by
  -- the newest occurrence is the last one, so the induction takes them off from the end
  induction record using List.reverseRecOn with
  | nil => cases h
  | append_singleton os o ih =>
      obtain ⟨entry, hos, hlast⟩ := exec_append.mp h
      have hstep := exec_singleton.mp hlast
      by_cases hmade : o = .created callid owner
      · subst hmade
        exact ⟨os, [], rfl, by simp, by simp⟩
      · have hother : entry = some owner ∧ o ≠ .delivered callid ∧ ∀ con, o ≠ .created callid con := by
          cases o with
          | created i con =>
              simp only [callidStep] at hstep
              split at hstep
              · rename_i hi
                subst hi
                split at hstep
                · cases hstep
                · cases hstep
                  exact absurd rfl hmade
              · rename_i hi
                refine ⟨Option.some.inj hstep, by simp, fun con' heq => ?_⟩
                cases heq
                exact hi rfl
          | delivered i =>
              simp only [callidStep] at hstep
              split at hstep
              · split at hstep
                · cases hstep
                · cases hstep
              · rename_i hi
                refine ⟨Option.some.inj hstep, fun heq => ?_, by simp⟩
                cases heq
                exact hi rfl
          | called con cinfo msgid writes => exact ⟨Option.some.inj hstep, by simp, by simp⟩
          | answered con cinfo msgid error result => exact ⟨Option.some.inj hstep, by simp, by simp⟩
          | finished con msgid error result => exact ⟨Option.some.inj hstep, by simp, by simp⟩
          | raised con m => exact ⟨Option.some.inj hstep, by simp, by simp⟩
        obtain ⟨rfl, hdel, hcre⟩ := hother
        obtain ⟨before, after, hrec, hd, hc⟩ := ih hos
        refine ⟨before, after ++ [o], by rw [hrec]; simp, ?_, ?_⟩
        · rw [List.mem_append, not_or, List.mem_singleton]
          exact ⟨hd, fun heq => hdel heq.symm⟩
        · intro con
          rw [List.mem_append, not_or, List.mem_singleton]
          exact ⟨hc con, fun heq => hcre con heq.symm⟩

/-- **The table is where the machines are**, and the result that a frame hands over is for a `callid` that
is pending, and for no other frame. -/
structure Tracked (c : Core) : Prop where
  entry : ∀ callid, exec (callidStep callid) none c.record = some (c.callids callid)
  awaited : ∀ callid ∈ forwarded c.stack, (c.callids callid).isSome = true
  once : (forwarded c.stack).Nodup

theorem forwarded_callFrames (stack : List Frame) : forwarded (callFrames stack) = forwarded stack := by
  unfold forwarded callFrames
  rw [List.filterMap_filter]
  congr 1
  funext f
  cases f <;> rfl

section Tracking

variable {W : World} {c c' : Core}

/-- What leaves the table, and the calls on the stack. -/
theorem Tracked.extend {os : List Occurrence} (h : Tracked c) (hids : c'.callids = c.callids)
    (hframes : callFrames c'.stack = callFrames c.stack) (hrec : c'.record = c.record ++ os)
    (hos : ∀ o ∈ os, Occurrence.aside o = true) : Tracked c' := by
  have hforward : forwarded c'.stack = forwarded c.stack := by
    rw [← forwarded_callFrames, hframes, forwarded_callFrames]
  refine ⟨fun callid => ?_, fun callid hin => ?_, ?_⟩
  · rw [hrec, hids]
    exact exec_append.mpr ⟨_, h.entry callid, exec_aside callid _ hos⟩
  · rw [hids]
    exact h.awaited callid (hforward ▸ hin)
  · rw [hforward]
    exact h.once

theorem Tracked.passes (h : Tracked c) (hp : Passes Anyone c c') : Tracked c' :=
  h.extend hp.callids hp.frames (hp.record.trans (List.append_nil _).symm) (by simp)

theorem Tracked.notified (h : Tracked c) (hn : Notified c c') : Tracked c' := by
  have hsame := hn.same
  exact h.extend (by rw [hsame]) (by rw [hsame]) (by rw [hsame, List.append_nil]) (by simp)

theorem Tracked.broadcast {name : Option Bytes} {args : List Object} (h : Tracked c)
    (hb : broadcastEvent W c name args = .ok c') : Tracked c' := by
  rcases broadcastEvent_cases hb with rfl | ⟨n, d, _, hn, rfl⟩
  · exact h
  · have hraise : Tracked (c.raise (cstr n) args) := by
      refine h.extend rfl rfl rfl fun o ho => ?_
      obtain ⟨id, _, rfl⟩ := List.mem_map.mp ho
      rfl
    have hsent := hraise.notified (notified_notify hn)
    exact ⟨hsent.entry, hsent.awaited, hsent.once⟩

/-- `handle_run` makes an entry for a `callid` that has none. -/
theorem Tracked.putCallid {callid : UInt64} {id : Nat} (h : Tracked c) (hfree : c.callids callid = none) :
    Tracked (c.putCallid callid id) := by
  refine ⟨fun i => ?_, fun i hin => ?_, h.once⟩
  · refine exec_append.mpr ⟨_, h.entry i, exec_singleton.mpr ?_⟩
    show callidStep i (c.callids i) (.created callid id) = some (if i = callid then some id else c.callids i)
    by_cases hi : i = callid
    · subst hi
      simp [callidStep, hfree]
    · simp [callidStep, hi, Ne.symm hi]
  · show (if i = callid then some id else c.callids i).isSome = true
    split
    · rfl
    · exact h.awaited i hin

/-- `handle_result` deletes the entry of a `callid` that is pending, and that no other frame waits for. -/
theorem Tracked.deliver {callid : UInt64} (h : Tracked c) (hpending : (c.callids callid).isSome = true)
    (hno : callid ∉ forwarded c.stack) : Tracked (c.deliver callid) := by
  refine ⟨fun i => ?_, fun i hin => ?_, h.once⟩
  · refine exec_append.mpr ⟨_, h.entry i, exec_singleton.mpr ?_⟩
    show callidStep i (c.callids i) (.delivered callid) = some (if i = callid then none else c.callids i)
    by_cases hi : i = callid
    · subst hi
      simp [callidStep, hpending]
    · simp [callidStep, hi, Ne.symm hi]
  · show (if i = callid then none else c.callids i).isSome = true
    rw [if_neg (by rintro rfl; exact hno hin)]
    exact h.awaited i hin

theorem Tracked.returned {e : RequestEvent} {target cinfo : Nat} {kind : CallKind} {callid : UInt64}
    {below : List Frame} {con : Connection} (h : Tracked c)
    (hs : c.stack = .call e target cinfo kind callid :: below) :
    Tracked ({ c with stack := below }.setConnection target con) := by
  have hsub : (forwarded below).Sublist (forwarded c.stack) := by
    rw [hs]
    exact (List.sublist_cons_self _ below).filterMap _
  exact ⟨h.entry, fun i hin => h.awaited i (hsub.subset hin), h.once.sublist hsub⟩

/-- A request is sent, and its acknowledgement waited for. -/
theorem Tracked.waitFor {e : RequestEvent} {id : Nat} {msgid : UInt64} {kind : CallKind}
    {callid : UInt64} (h : Tracked c)
    (hres : kind = .result → (c.callids callid).isSome = true ∧ callid ∉ forwarded c.stack) :
    Tracked (c.waitFor e id msgid kind callid) := by
  have hids : (c.waitFor e id msgid kind callid).callids = c.callids := by
    show (c.modify id _).callids = c.callids
    unfold modify
    split <;> rfl
  refine ⟨fun i => ?_, fun i hin => ?_, ?_⟩
  · rw [waitFor_record, hids]
    exact exec_append.mpr ⟨_, h.entry i, exec_aside i _ (by simp [Occurrence.aside])⟩
  · rw [hids]
    rw [waitFor_stack] at hin
    cases kind with
    | run => exact h.awaited i hin
    | result =>
        rcases List.mem_cons.mp hin with rfl | hin
        · exact (hres rfl).1
        · exact h.awaited i hin
  · rw [waitFor_stack]
    cases kind with
    | run => exact h.once
    | result => exact List.nodup_cons.mpr ⟨(hres rfl).2, h.once⟩

/-- The fresh `callid` of a request that is handled is not in the table. -/
def FreshCallids (W : World) (c : Core) : Prop :=
  ∀ e ∈ c.taken, ∀ callid ∈ enters W e, c.callids callid = none

/-- No result is handled for a `callid` whose result has been forwarded and not been acknowledged. -/
def ResultsInTurn (W : World) (c : Core) : Prop :=
  ∀ e ∈ c.taken, ∀ callid ∈ resolves W e, callid ∉ forwarded c.stack

theorem Asks.pending {e : RequestEvent} {callid : UInt64} {key : Bytes}
    (h : Asks W c e .result callid key) : (c.callids callid).isSome = true := by
  cases h with
  | result heff howner ho => rw [howner]; rfl

/-- **The table is where the machines are at every place of a move** that handles a fresh `callid`, or a
result in its turn. -/
theorem Tracked.at {c₀ : Core} {l : Label} {k : List Hold} (h : Tracked c₀) (ha : At W c₀ l k c)
    (hfresh : FreshCallids W c₀) (hturn : ResultsInTurn W c₀) : Tracked c := by
  induction ha with
  | start => exact h
  | pushLoop hs hf =>
      refine h.passes (passes_push _ ?_)
      cases hf <;> rfl
  | popLoop hs hf =>
      refine h.passes (passes_pop hs ?_ fun _ _ => trivial)
      cases hf <;> rfl
  | popParse hs => exact h.passes (passes_pop hs rfl fun _ _ => trivial)
  | unpacked hs hc hn hr => exact h.passes (passes_unpacked hc _)
  | @response id cinfo con below obj rest msgid error result hs hc hn hr hnew =>
      have hpop : Tracked { c₀ with stack := below } :=
        h.passes (passes_pop hs rfl fun _ _ => trivial)
      have hc' : { c₀ with stack := below }.connections id = some con := hc
      have hun := hpop.passes (passes_unpacked hc' rest)
      exact hun.extend rfl rfl rfl (by simp [Occurrence.aside])
  | @mismatch id con below obj rest msgid error result hs hc hn hr hnew =>
      have hpop : Tracked { c₀ with stack := below } :=
        h.passes (passes_pop hs rfl fun _ _ => trivial)
      have hc' : { c₀ with stack := below }.connections id = some con := hc
      have hun := hpop.passes (passes_unpacked hc' rest)
      have hset : Tracked (({ c₀ with stack := below }.unpacked id con rest).callSetError
        con.callvector) := ⟨hun.entry, hun.awaited, hun.once⟩
      exact hset.passes (passes_connectionClose _ trivial)
  | dequeue hs ht => exact h.passes (passes_tables _ _ _ _ _ _ _ rfl fun _ _ h => h)
  | returned hs hc hi hr hf => exact (h.returned hs).notified (notified_flush hf)
  | @closeReturned id below hs =>
      have hpop : Tracked { c₀ with stack := below } :=
        h.passes (passes_pop hs rfl fun _ _ => trivial)
      exact hpop.passes (passes_closeReturned _ trivial)
  | read hc hu hl hfit hab => exact h.passes (passes_readCb hc (fun _ => trivial) hab)
  | eof hc hu hl => exact h.passes (passes_eofCb hc trivial)
  | create hu => exact ⟨h.entry, h.awaited, h.once⟩
  | tick hc ho => exact h.passes (passes_setConnection hc ⟨rfl, rfl, rfl⟩ fun _ => ⟨rfl, rfl⟩)
  | decref _ ih => exact ih.passes (passes_decref _ _)
  | error sent bytes env _ hh hc hl hcause ih =>
      refine ih.passes (passes_posted hc ?_)
      rintro rfl
      rcases hcause with hcause | hcause <;> cases hcause
  | newRequest _ hp hv hprep ih => exact ih.passes (passes_newRequest _ _ _)
  | enqueue _ ih => exact ih.passes (passes_tables _ _ _ _ _ _ _ rfl fun _ _ h => h)
  | invoke _ ih => exact ih.passes (passes_tables _ _ _ _ _ _ _ rfl fun _ _ h => h)
  | subscribe event _ hc ho ih => exact ih.passes (passes_connectionSubscribe _ _ _)
  | unsubscribe _ hu ih => exact ih.passes (passes_unsubscribe hu)
  | broadcast _ hn hf hb ih => exact ih.broadcast hb
  | putCallid _ ht heff hids hconns ih =>
      refine ih.putCallid ?_
      rw [hids]
      exact hfresh _ ht.taken _ (enters_run heff)
  | answer sent bytes env _ hm hc hl ih => exact ih.passes (passes_posted hc (by simp))
  | silent _ hm ih => exact ih.passes (passes_decref _ _)
  | target _ ht ha hs hkey hc ih =>
      exact ih.passes (passes_setConnection hc ⟨rfl, rfl, rfl⟩ fun _ => ⟨rfl, rfl⟩)
  | @unsent l k c e id con request kind callid key msgid bytes env _ ht ha hkey hc hl ih =>
      have hposted : Tracked (c.posted W id con (serializeRequest msgid kind.method request) .request
          false bytes env).clear :=
        ih.passes (passes_posted hc (by simp))
      exact hposted.extend rfl rfl rfl (by simp [Occurrence.aside])
  | wait msgid request bytes env _ ht ha hkey hs hids hc hl ih =>
      refine (ih.passes (passes_posted hc (by simp))).waitFor ?_
      rintro rfl
      refine ⟨?_, ?_⟩
      · have hpending := ha.pending
        rw [← hids rfl] at hpending
        exact hpending
      · show _ ∉ forwarded _
        exact hs ▸ hturn _ ht.taken _ ha.resolves
  | finished _ hs hi hr hout hrec htrace ih => exact ih.extend rfl rfl rfl (by simp [Occurrence.aside])
  | deliver _ hr hids ih =>
      cases hr with
      | now ht ha hs =>
          refine ih.deliver ?_ ?_
          · rw [hids]
            exact ha.pending
          · rw [hs]
            exact hturn _ ht.taken _ ha.resolves
      | later hs =>
          -- the frame that has been taken off was the only one for this `callid`
          have hawaited := h.awaited
          have honce := h.once
          rw [hs] at hawaited honce
          refine ih.deliver ?_ (List.nodup_cons.mp honce).1
          rw [hids]
          exact hawaited _ List.mem_cons_self

end Tracking

/-! ## §4 Where results go -/

/-- **The requests that a move has written**: each goes to the connection under which the registry has the
key that its handler asks for. -/
def Requests (W : World) (c₀ c : Core) : Prop :=
  ∃ ws, c.trace = c₀.trace ++ ws ∧ ∀ w ∈ ws, w.cause = .request → w.sent = true →
    ∃ e kind callid key, Takes c₀ e ∧ Asks W c₀ e kind callid key ∧ c₀.pluginkeys key = some w.con

section Requesting

variable {W : World} {c₀ c c' : Core}

theorem Requests.extend {ws : List Write} (h : Requests W c₀ c) (ht : c'.trace = c.trace ++ ws)
    (hws : ∀ w ∈ ws, w.cause = .request → w.sent = true →
      ∃ e kind callid key, Takes c₀ e ∧ Asks W c₀ e kind callid key ∧ c₀.pluginkeys key = some w.con) :
    Requests W c₀ c' := by
  obtain ⟨old, hold, hall⟩ := h
  refine ⟨old ++ ws, by rw [ht, hold, List.append_assoc], fun w hw => ?_⟩
  rcases List.mem_append.mp hw with hw | hw
  · exact hall w hw
  · exact hws w hw

theorem Requests.same (h : Requests W c₀ c) (ht : c'.trace = c.trace) : Requests W c₀ c' :=
  h.extend (ht.trans (List.append_nil _).symm) (by simp)

theorem Requests.notified (h : Requests W c₀ c) (hn : Notified c c') : Requests W c₀ c' := by
  obtain ⟨ws, hws, hcause⟩ := hn.trace
  refine h.extend hws fun w hw hreq => ?_
  rw [hcause w hw] at hreq
  cases hreq

theorem Requests.posted {id : Nat} {con : Connection} {m : MsgpackObject} {cause : Cause} {sent : Bool}
    {bytes : Bytes} {env : WriteEnv} (h : Requests W c₀ c)
    (hreq : cause = .request → sent = true →
      ∃ e kind callid key, Takes c₀ e ∧ Asks W c₀ e kind callid key ∧ c₀.pluginkeys key = some id) :
    Requests W c₀ (c.posted W id con m cause sent bytes env) := by
  refine h.extend rfl fun w hw => ?_
  rw [List.mem_singleton.mp hw]
  exact hreq

theorem Requests.broadcast {name : Option Bytes} {args : List Object} (h : Requests W c₀ c)
    (hb : broadcastEvent W c name args = .ok c') : Requests W c₀ c' := by
  rcases broadcastEvent_cases hb with rfl | ⟨n, d, _, hn, rfl⟩
  · exact h
  · have hraise : Requests W c₀ (c.raise (cstr n) args) := h.same rfl
    exact (hraise.notified (notified_notify hn)).same rfl

theorem requests_at {l : Label} {k : List Hold} (ha : At W c₀ l k c) : Requests W c₀ c := by
  have hnone : Requests W c₀ c₀ := ⟨[], (List.append_nil _).symm, by simp⟩
  -- On the way to `c`: only `wait` writes a request that was sent, and it names the call that it is for.
  induction ha with
  | start => exact hnone
  | pushLoop hs hf => exact hnone.same rfl
  | popLoop hs hf => exact hnone.same rfl
  | popParse hs => exact hnone.same rfl
  | unpacked hs hc hn hr => exact hnone.same rfl
  | response hs hc hn hr hnew => exact hnone.same rfl
  | mismatch hs hc hn hr hnew => exact hnone.same (connectionClose_trace _ _)
  | dequeue hs ht => exact hnone.same rfl
  | @returned e target cinfo kind callid below con info c hs hc hi hr hf =>
      have hset : Requests W c₀ ({ c₀ with stack := below }.setConnection target (popped con)) :=
        hnone.same rfl
      exact hset.notified (notified_flush hf)
  | closeReturned hs => exact hnone.same (closeReturned_trace _ _)
  | read hc hu hl hfit hab => exact hnone.same (readCb_trace W _ _ _ _ _)
  | eof hc hu hl => exact hnone.same (connectionClose_trace _ _)
  | create hu => exact hnone.same rfl
  | tick hc ho => exact hnone.same rfl
  | decref _ ih => exact ih.same (decref_record _ _).2
  | @error l k c id con msgid err cause sent bytes env _ hh hc hl hcause ih =>
      have hposted : Requests W c₀ (c.posted W id con
          (serializeResponse msgid (some (validationError err)) .nil) cause sent bytes env) := by
        refine ih.posted fun hreq => ?_
        rcases hcause with hcause | hcause <;> rw [hreq] at hcause <;> cases hcause
      exact hposted.same rfl
  | newRequest _ hp hv hprep ih => exact ih.same (modify_record _ _ _).2
  | enqueue _ ih => exact ih.same rfl
  | invoke _ ih => exact ih.same rfl
  | subscribe event _ hc ho ih => exact ih.same (connectionSubscribe_trace _ _ _)
  | unsubscribe _ hu ih => exact ih.same (unsubscribe_trace hu)
  | broadcast _ hn hf hb ih => exact ih.broadcast hb
  | putCallid _ ht heff hids hconns ih => exact ih.same rfl
  | @answer l k c e con err res sent bytes env _ hm hc hl ih =>
      have hposted : Requests W c₀ (c.posted W e.con con (serializeResponse e.msgid err res)
          (.response e.tag) sent bytes env) := ih.posted fun hreq => by cases hreq
      exact hposted.same rfl
  | silent _ hm ih => exact ih.same (decref_record _ _).2
  | target _ ht ha hs hkey hc ih => exact ih.same rfl
  | @unsent l k c e id con request kind callid key msgid bytes env _ ht ha hkey hc hl ih =>
      have hposted : Requests W c₀ (c.posted W id con (serializeRequest msgid kind.method request) .request
          false bytes env) :=
        ih.posted fun _ hsent => by cases hsent
      exact hposted.same rfl
  | @wait l k c e id con kind callid key msgid request bytes env _ ht ha hkey hs hids hc hl ih =>
      have hposted : Requests W c₀ (c.posted W id con (serializeRequest msgid kind.method request)
        .request true bytes env) := ih.posted fun _ _ => ⟨e, kind, callid, key, ht, ha, hkey⟩
      exact hposted.same (waitFor_trace _ _ _ _ _ _)
  | finished _ hs hi hr hout hrec htrace ih => exact ih.same rfl
  | deliver _ hr hids ih => exact ih.same rfl

/-- The requests that a move has written, also when the process has ended in it. -/
theorem requests_step {l : Label} (hs : c.step W l = some c') : Requests W c c' := by
  rcases step_at hs with ha | hd
  · exact requests_at ha
  · obtain ⟨k, d, ha, hf⟩ := hd.faded
    obtain ⟨ws, hws, hout⟩ := hf.trace
    refine (requests_at ha).extend hws fun w hw hreq hsent => ?_
    rcases hout w hw with hcause | hunsent
    · rw [hreq] at hcause
      cases hcause
    · rw [hsent] at hunsent
      cases hunsent

end Requesting

/-- **Where the results that a move forwards go**: every request that the handler of a result has sent goes
to a connection that `P` relates to the key of the connection whose request has made the `callid`. -/
def ForwardedTo (W : World) (P : Core → Bytes → Nat → Prop) (c c' : Core) : Prop :=
  ∀ e ∈ c.taken, ∀ callid ∈ resolves W e, ∀ w ∈ c'.trace.drop c.trace.length, w.cause = .request →
    w.sent = true → ∃ owner o, Creator c callid owner ∧ c.connections owner = some o ∧
      P c o.pluginkey w.con

/-- The connection under which the registry has the key. -/
def RegisteredUnder (c : Core) (key : Bytes) (id : Nat) : Prop := c.pluginkeys key = some id

/-- The connection has authenticated with the key. -/
def AuthenticatedUnder (c : Core) (key : Bytes) (id : Nat) : Prop :=
  ∃ con, c.connections id = some con ∧ AuthenticatedAs con key

theorem Tracked.forwardedTo {W : World} {c c' : Core} {l : Label} (h : Tracked c)
    (hs : c.step W l = some c') : ForwardedTo W RegisteredUnder c c' := by
  intro e he callid hcallid w hw hreq hsent
  obtain ⟨ws, hws, hall⟩ := requests_step hs
  rw [hws, List.drop_left] at hw
  obtain ⟨e', kind, callid', key, ht, ha, hkey⟩ := hall w hw hreq hsent
  have heq : e' = e := Option.some.inj (ht.taken.symm.trans he)
  subst heq
  cases ha with
  | run heff => simp [resolves, heff] at hcallid
  | result heff howner ho =>
      have hid : callid' = callid := by simpa [resolves, heff] using hcallid
      subst hid
      have hentry := h.entry callid'
      rw [howner] at hentry
      exact ⟨_, _, creator_of_exec hentry, ho, hkey⟩

end Core

open Core

/-- **A call is answered at most once**, in every run in which fresh `callid`s are not in the table and no
result is handled for a `callid` whose result waits for its acknowledgement. Every forwarded result goes
to the plugin whose request has made the `callid`: to the connection that is registered under its key, and
that has authenticated with it unless a rejected packet was entered into the registry. -/
theorem call_answered_once {W : World} {ls : List Label}
    (hfresh : Along (Core.step W) (fun c _ _ => FreshCallids W c) Core.init ls)
    (hturn : Along (Core.step W) (fun c _ _ => ResultsInTurn W c) Core.init ls) :
    Always (Core.step W) AnsweredOnce Core.init ls ∧
    Along (Core.step W) (fun c _ c' => ForwardedTo W RegisteredUnder c c') Core.init ls ∧
    (Along (Core.step W) (fun c l _ => entersRejected W c l = false) Core.init ls →
      Along (Core.step W) (fun c _ c' => ForwardedTo W AuthenticatedUnder c c') Core.init ls) := by
  have hinit : Tracked Core.init := ⟨fun _ => rfl, fun _ h => (nomatch h), List.nodup_nil⟩
  have hG := hfresh.and hturn
  have halways := always_placed (I := Tracked) (J := AnsweredOnce)
    (G := fun c _ => FreshCallids W c ∧ ResultsInTurn W c) hinit
    (fun _ _ _ _ _ h hg ha => h.at ha hg.1 hg.2) (fun c c' h hf => ?_) hG
  -- Each request went to the connection that was in the table under the key of the call.
  · have hto : Along (Core.step W) (fun c _ c' => ForwardedTo W RegisteredUnder c c') Core.init ls := by
      refine along_of_invariant (I := fun c => c.halt = none → Tracked c)
        (G := fun _ _ c' => AnsweredOnce c' ∧ (c'.halt = none → Ordered [] c' ∧ Tracked c')) ?_
        (fun _ => hinit) halways.2
      intro c l c' h hc' hs
      exact ⟨fun hrun => (hc'.2 hrun).2, (h (running_of_step hs)).forwardedTo hs⟩
    refine ⟨⟨halways.1.1, halways.2.imp fun _ _ _ h => h.1⟩, hto, fun hreg => ?_⟩
    -- A key that is registered is the one its connection has authenticated with.
    have hsound : Always (Core.step W) RegistrySound Core.init ls :=
      ⟨registered_init.sound, (registry_kept hreg).imp fun _ _ _ h => h.1⟩
    refine (hto.and hsound.along).imp fun c _ c' h e he callid hcallid w hw hreq hsent => ?_
    obtain ⟨owner, o, hcreator, ho, hkey⟩ := h.1 e he callid hcallid w hw hreq hsent
    exact ⟨owner, o, hcreator, ho, h.2 o.pluginkey w.con hkey⟩
  · -- the process has ended: the record is what it was, with notifications behind it
    obtain ⟨os, hos, hraised⟩ := hf.record
    refine answeredOnce_of_exec fun callid => ?_
    rw [hos, hf.callids]
    refine exec_append.mpr ⟨_, h.entry callid, exec_aside callid _ fun o ho => ?_⟩
    obtain ⟨id, m, rfl⟩ := hraised o ho
    rfl

/-- A result for the `callid` has been delivered. -/
def Occurrence.isDelivery (callid : UInt64) : Occurrence → Bool
  | .delivered i => i == callid
  | _ => false

/-- A request has made the `callid`. -/
def Occurrence.isCreation (callid : UInt64) : Occurrence → Bool
  | .created i _ => i == callid
  | _ => false

theorem Occurrence.eq_of_isDelivery {callid : UInt64} {o : Occurrence} (h : o.isDelivery callid = true) :
    o = .delivered callid := by
  unfold isDelivery at h
  split at h
  · rw [beq_iff_eq.mp h]
  · cases h

/-- A plugin calls itself and answers the call. -/
def Sample.settledCall : List Label :=
  .turn :: (Sample.connect 1 (Sample.fill 32 3) ++
    Sample.sends 1 5 (Sample.run 9 (Sample.pluginkey "03")) :: (Sample.turns 6 ++
      Sample.sends 1 9 (Sample.response 1 (.array [.positiveInteger 7])) :: Sample.turns 5))

/-- Then it hands the result over, and acknowledges it. -/
def Sample.answeredOnce : List Label :=
  Sample.settledCall ++ Sample.sends 1 13 (Sample.result 10 7) :: (Sample.turns 6 ++
    Sample.sends 1 17 (Sample.response 2 (.array [.positiveInteger 7])) :: Sample.turns 3)

-- The tests go through the events: to try every `callid` would be the other way to decide these.
instance (W : World) (c : Core) : Decidable (FreshCallids W c) :=
  decidable_of_iff (c.taken.all (fun e => (enters W e).all fun callid => (c.callids callid).isNone) = true)
    (by simp [FreshCallids, Option.all_eq_true])

instance (W : World) (c : Core) : Decidable (ResultsInTurn W c) :=
  decidable_of_iff
    (c.taken.all (fun e => (resolves W e).all fun callid => !(forwarded c.stack).contains callid) = true)
    (by simp [ResultsInTurn, Option.all_eq_true])

/-- **A run that meets the condition**: the result is delivered, once. -/
theorem call_answered_once_sample :
    Along (Core.step Sample.world) (fun c _ _ => FreshCallids Sample.world c) Core.init
        Sample.answeredOnce ∧
      Along (Core.step Sample.world) (fun c _ _ => ResultsInTurn Sample.world c) Core.init
        Sample.answeredOnce ∧
      ∃ c, exec (Core.step Sample.world) Core.init Sample.answeredOnce = some c ∧
        c.record.countP (Occurrence.isDelivery 7) = 1 ∧ AnsweredOnce c := by
  have hboth : Along (Core.step Sample.world)
      (fun c _ _ => FreshCallids Sample.world c ∧ ResultsInTurn Sample.world c)
      Core.init Sample.answeredOnce := by
    rw [Sample.answeredOnce, Sample.settledCall, List.cons_append, List.append_assoc]
    apply Sample.along_connect rfl <;> decide +kernel
  have hfresh := hboth.imp fun _ _ _ h => h.1
  have hturn := hboth.imp fun _ _ _ h => h.2
  have hrun : (exec (Core.step Sample.world) Core.init Sample.answeredOnce).any
      (fun c => decide (c.record.countP (Occurrence.isDelivery 7) = 1)) = true := by
    rw [Sample.answeredOnce, Sample.settledCall, List.cons_append, List.append_assoc,
      Sample.exec_connect_append rfl]
    decide +kernel
  obtain ⟨c, hex, hc⟩ := (Option.any_eq_true _ _).mp hrun
  exact ⟨hfresh, hturn, c, hex, of_decide_eq_true hc, (call_answered_once hfresh hturn).1.exec hex⟩

/-- It hands the result over twice, and acknowledges both when both have been forwarded. -/
def Sample.answeredTwice : List Label :=
  Sample.settledCall ++ Sample.sends 1 13 (Sample.result 10 7) :: .turn :: .turn ::
    Sample.sends 1 17 (Sample.result 11 7) :: (Sample.turns 8 ++
      Sample.sends 1 21 (Sample.response 3 (.array [.positiveInteger 7])) :: (Sample.turns 5 ++
        Sample.sends 1 25 (Sample.response 2 (.array [.positiveInteger 7])) :: Sample.turns 3))

/-- **A call is answered twice**: both results are delivered after the one request that has made the
`callid`, which was not in the table. -/
theorem result_delivered_twice :
    Along (Core.step Sample.world) (fun c _ _ => FreshCallids Sample.world c) Core.init
        Sample.answeredTwice ∧
      ∃ c, exec (Core.step Sample.world) Core.init Sample.answeredTwice = some c ∧ c.halt = none ∧
        ¬ AnsweredOnce c := by
  have hfresh : Along (Core.step Sample.world) (fun c _ _ => FreshCallids Sample.world c) Core.init
      Sample.answeredTwice := by
    rw [Sample.answeredTwice, Sample.settledCall, List.cons_append, List.append_assoc]
    apply Sample.along_connect rfl <;> decide +kernel
  have hrun : (exec (Core.step Sample.world) Core.init Sample.answeredTwice).any (fun c =>
      c.halt.isNone && (c.record[8]?).any (Occurrence.isDelivery 7) &&
        (c.record.drop 9).any (Occurrence.isDelivery 7) &&
        (c.record.drop 9).all fun o => !o.isCreation 7) = true := by
    rw [Sample.answeredTwice, Sample.settledCall, List.cons_append, List.append_assoc,
      Sample.exec_connect_append rfl]
    decide +kernel
  obtain ⟨c, hex, hc⟩ := (Option.any_eq_true _ _).mp hrun
  simp only [Bool.and_eq_true, Option.any_eq_true, List.any_eq_true, List.all_eq_true] at hc
  obtain ⟨⟨⟨hlive, o, hfirst, ho⟩, o', hsecond, ho'⟩, hno⟩ := hc
  refine ⟨hfresh, c, hex, Option.isNone_iff_eq_none.mp hlive, fun honce => ?_⟩
  cases Occurrence.eq_of_isDelivery ho
  cases Occurrence.eq_of_isDelivery ho'
  obtain ⟨hlt, hget⟩ := List.getElem?_eq_some_iff.mp hfirst
  obtain ⟨between, after, hrest⟩ := List.append_of_mem hsecond
  have hsplit : c.record = c.record.take 8 ++ .delivered 7 :: (between ++ .delivered 7 :: after) := by
    rw [← hrest, ← hget, ← List.drop_eq_getElem_cons hlt, List.take_append_drop]
  obtain ⟨con, hcreated⟩ := honce.again 7 _ between after hsplit
  -- There would have to be a second request between the two deliveries, but none is recorded there.
  have hin : Occurrence.created 7 con ∈ c.record.drop 9 := by
    rw [hrest]
    exact List.mem_append_left _ hcreated
  have hnot := hno _ hin
  cases hnot

end SploneBox
