/-
# SploneBox.Invariant — predicates that every move keeps.

`Closed` is the list of closure conditions of a predicate on the places of a move, coarser than `At`: a
predicate that is about references, the registry or the trace does not look at the calls between plugins, so
whatever is assigned there is one condition (`quiet`). `Closed.step` says that a predicate with these
conditions is kept by every move.

The operations that a claim wants to restrict have a parameter: `G` holds of the move and the core it starts
in, `N` of the events that are broadcast and of the keys of the plugins that are called, `K` of the cores and
connections that `connection_close` is entered with; `F` says that a move may end the process outside of
`crypto_write` and of the receiving half. `E` is what is known when the process ends, `B` an invariant that is
already known.
-/
import SploneBox.Moves

namespace SploneBox

open Lib.Machine

namespace Core

/-! ## §1 Assignments that no claim is about -/

/-- The two connections agree in everything but the fields that only requests and calls use; a closed
connection gets no new subscription. -/
structure SameConn (a b : Connection) : Prop where
  tunnel : b.tunnel = a.tunnel
  refcount : b.refcount = a.refcount
  released : b.released = a.released
  events : ∀ n ∈ b.subscribedEvents.names, n ∈ a.subscribedEvents.names ∨ a.tunnel.closed = false

/-- The two cores agree in everything but such fields and the tables of the handlers. -/
structure Quiet (c c' : Core) : Prop where
  nextConId : c'.nextConId = c.nextConId
  pluginkeys : c'.pluginkeys = c.pluginkeys
  sbuf : c'.sbuf = c.sbuf
  queue : c'.queue = c.queue
  stack : c'.stack = c.stack
  halt : c'.halt = c.halt
  received : c'.received = c.received
  trace : c'.trace = c.trace
  connections : ∀ id, Option.Rel SameConn (c.connections id) (c'.connections id)

theorem SameConn.refl (a : Connection) : SameConn a a := ⟨rfl, rfl, rfl, fun _ h => Or.inl h⟩

theorem sameConn_rel_refl (o : Option Connection) : Option.Rel SameConn o o := by
  cases o with
  | none => exact .none
  | some con => exact .some (SameConn.refl con)

/-- Replacing a connection by one that agrees with it is quiet. -/
theorem quiet_setConnection {c : Core} {id : Nat} {con con' : Connection}
    (h : c.connections id = some con) (hs : SameConn con con') : Quiet c (c.setConnection id con') := by
  refine ⟨rfl, rfl, rfl, rfl, rfl, rfl, rfl, rfl, fun i => ?_⟩
  by_cases hi : i = id
  · subst hi
    rw [h, setConnection_self]
    exact .some hs
  · rw [setConnection_ne con' hi]
    exact sameConn_rel_refl (c.connections i)

theorem quiet_modify (c : Core) (id : Nat) {f : Connection → Connection}
    (hs : ∀ con, c.connections id = some con → SameConn con (f con)) : Quiet c (c.modify id f) := by
  unfold modify
  split
  · rename_i con hcon
    exact quiet_setConnection hcon (hs con hcon)
  · exact ⟨rfl, rfl, rfl, rfl, rfl, rfl, rfl, rfl, fun i => sameConn_rel_refl _⟩

/-- Assigning to the tables of the handlers is quiet. -/
theorem quiet_tables (c : Core) (events : StringSet) (callids : UInt64 → Option Nat)
    (calls : List Callinfo) (decoded : Nat) (invoked : List (Nat × Handler))
    (record : List Occurrence) :
    Quiet c { c with
      eventStrings := events
      callids := callids
      calls := calls
      decoded := decoded
      invoked := invoked
      record := record } :=
  ⟨rfl, rfl, rfl, rfl, rfl, rfl, rfl, rfl, fun _ => sameConn_rel_refl _⟩

theorem quiet_unpacked {c : Core} {id : Nat} {con : Connection} (hc : c.connections id = some con)
    (rest : Bytes) : Quiet c (c.unpacked id con rest) := by
  have hs : SameConn con { con with mpac := rest } := ⟨rfl, rfl, rfl, fun _ hn => Or.inl hn⟩
  obtain ⟨h₁, h₂, h₃, h₄, h₅, h₆, h₇, h₈, h₉⟩ := quiet_setConnection hc hs
  exact ⟨h₁, h₂, h₃, h₄, h₅, h₆, h₇, h₈, h₉⟩

theorem quiet_connectionHandleResponse (W : World) (c : Core) (id cinfo : Nat) (msgid : UInt64)
    (error result : MsgpackObject) :
    Quiet c (c.connectionHandleResponse W id cinfo msgid error result) :=
  quiet_tables c _ _ _ _ _ _

theorem quiet_callSetError (c : Core) (callvector : List Nat) : Quiet c (c.callSetError callvector) :=
  quiet_tables c _ _ _ _ _ _

theorem quiet_pushCallinfo (c : Core) (id : Nat) (msgid : UInt64) :
    Quiet c (c.pushCallinfo id msgid) := by
  obtain ⟨h₁, h₂, h₃, h₄, h₅, h₆, h₇, h₈, h₉⟩ := quiet_modify c id
    (f := fun con => { con with
      callvector := con.callvector ++ [c.calls.length]
      pendingRequests := con.pendingRequests + 1 })
    fun _ _ => ⟨rfl, rfl, rfl, fun _ hn => Or.inl hn⟩
  exact ⟨h₁, h₂, h₃, h₄, h₅, h₆, h₇, h₈, h₉⟩

theorem parsed_stack (c : Core) (id : Nat) (con : Connection) (r : ParseResult) :
    (c.parsed id con r).stack = c.stack := by
  unfold parsed
  dsimp only
  split <;> rfl

theorem parsed_self (c : Core) (id : Nat) (con : Connection) (r : ParseResult) :
    (c.parsed id con r).connections id =
      some { con with tunnel := r.tunnel, refcount := con.refcount + 1 } := by
  unfold parsed
  dsimp only
  split <;> exact setConnection_self _ _ _

/-! ## §2 The conditions -/

/-- What a move sends to others: the events that it broadcasts, and the keys of the plugins it calls. -/
structure Aim where
  event : Bytes → Prop
  key : Bytes → Prop

/-- Any event, any plugin. -/
def Aim.any : Aim := ⟨fun _ => True, fun _ => True⟩

/-- The move sends nothing but this. -/
structure Aims (W : World) (c : Core) (l : Label) (N : Aim) : Prop where
  event : ∀ name, broadcasting W c l = some name → N.event name
  key : ∀ key, asking W c = some key → N.key key

theorem aims_any (W : World) (c : Core) (l : Label) : Aims W c l .any :=
  ⟨fun _ _ => trivial, fun _ _ => trivial⟩

/-- The connections that a message is written to: those in use, and the subscribers of a broadcast. -/
def Reached (N : Aim) (k : List Hold) (c : Core) (id : Nat) : Prop :=
  Held k c id ∨ ∃ con name, c.connections id = some con ∧ N.event name ∧
    name ∈ con.subscribedEvents.names

/-- The process has ended, with what is known about its end. -/
def Ended (E : Core → Prop) (c : Core) : Prop := E c ∧ c.halt.isSome = true

/-- **The operations a move is made of.** -/
structure Closed (W : World) (N : Aim) (K : Core → Nat → Prop) (G : Core → Label → Prop)
    (F : Prop) (E : Core → Prop) (B I : List Hold → Core → Prop) : Prop where
  quiet : ∀ {k c c'}, B k c → I k c → Quiet c c' → I k c'
  stop : ∀ {k c} (h : Halt), F → Idle k → B k c → I k c → E (c.stop h)
  /-- The process ends in a handler. -/
  crash : ∀ {k c} (h : Halt), F → B k c → I k c → E (c.stop h)
  /-- The process ends in `crypto_write`. -/
  exited : ∀ {k c}, B k c → I k c → (∃ w ∈ c.trace, w.sent = false) → E (c.stop (.exit 1))
  pack : ∀ {k c} (m : MsgpackObject), B k c → I k c → I (.packed m :: k) (c.pack m)
  clear : ∀ {k c m}, Cleared k → B (.packed m :: k) c → I (.packed m :: k) c → I k c.clear
  /-- When a request could not be written, the buffer stays full and the reference is kept. -/
  unsent : ∀ {k c m id}, B (.packed m :: .ref id :: k) c → I (.packed m :: .ref id :: k) c →
    (∃ w ∈ c.trace, w.sent = false) → I k c
  write : ∀ {k c con} (w : Write) (data : Bytes) (env : WriteEnv), B k c → I k c → Reached N k c w.con →
    c.connections w.con = some con → con.released = false → w.closed = con.tunnel.closed →
    (∀ t, w.cause ≠ .response t) →
    I k (c.written con (SploneBox.cryptoWrite W.server con.tunnel.cc data env) w)
  answer : ∀ {k c e m con} (w : Write) (data : Bytes) (env : WriteEnv), Cleared k →
    B (.packed m :: .request e :: k) c → I (.packed m :: .request e :: k) c → e.msgid ≠ noResponse →
    (∃ err res, m = serializeResponse e.msgid err res) →
    c.connections e.con = some con → con.released = false → w.con = e.con →
    w.closed = con.tunnel.closed → w.cause = .response e.tag → w.data = c.sbuf →
    I (.packed m :: .ref e.con :: k)
      (c.written con (SploneBox.cryptoWrite W.server con.tunnel.cc data env) w)
  silent : ∀ {k c e}, B (.request e :: k) c → I (.request e :: k) c → e.msgid = noResponse →
    I k (c.decref e.con)
  /-- A write to a stream that is gone. -/
  lost : ∀ {k c w}, B k c → I k c → Reached N k c w.con → w.sent = false →
    (∀ con, c.connections w.con = some con → con.released = true ∧ w.closed = con.tunnel.closed) →
    E ((c.wrote w).stop (.fault .useAfterFree))
  decref : ∀ {k c id}, B (.ref id :: k) c → I (.ref id :: k) c → I k (c.decref id)
  newRequest : ∀ {k c id v} (obj : MsgpackObject) (func : Handler) (args : List Object), B k c →
    I k c → Held k c id → msgpackRpcValidate obj = .ok v →
    I (.request ⟨id, c.received.length, func, args, v.responseId⟩ :: k)
      (c.newRequest id ⟨id, obj, v.responseId⟩)
  enqueue : ∀ {k c e}, B (.request e :: k) c → I (.request e :: k) c →
    I k { c with queue := c.queue ++ [e] }
  dequeue : ∀ {c q e rest}, B [] c → I [] c → takeEvent q c.queue = some (e, rest) →
    I [.request e] { c with queue := rest }
  /-- The reference to the connection that a request is sent to. -/
  target : ∀ {k c id con key queue rest} (msgid : UInt32), B k c → I k c → N.key key →
    c.stack = .drain queue :: rest → c.pluginkeys key = some id → c.connections id = some con →
    I (.ref id :: k) (c.setConnection id { con with refcount := con.refcount + 1, msgid := msgid })
  pushCall : ∀ {k c e id queue rest} (cinfo : Nat) (kind : CallKind) (callid : UInt64),
    B (.ref id :: .request e :: k) c → I (.ref id :: .request e :: k) c →
    c.stack = .drain queue :: rest →
    I k { c with stack := .call e id cinfo kind callid :: c.stack }
  popCall : ∀ {c e target cinfo kind callid rest}, B [] c → I [] c →
    c.stack = .call e target cinfo kind callid :: rest →
    I [.ref target, .request e] { c with stack := rest }
  pushLoop : ∀ {c f}, B [] c → I [] c → LoopHead c.stack → LoopFrame f →
    I [] { c with stack := f :: c.stack }
  popLoop : ∀ {c f rest}, B [] c → I [] c → c.stack = f :: rest → LoopFrame f →
    I [] { c with stack := rest }
  popParse : ∀ {c id rest}, B [] c → I [] c → c.stack = .parse id :: rest →
    I [.ref id] { c with stack := rest }
  close : ∀ {c id con}, B [.ref id] c → I [.ref id] c → c.connections id = some con →
    con.tunnel.closed = false → K c id → c.inUvRun = true → I [] (c.connectionClose id)
  closeReturned : ∀ {c id rest}, G c .turn → B [] c → I [] c → c.stack = .close id :: rest →
    I [] ({ c with stack := rest }.closeReturned id)
  read : ∀ {c id con} (seg : Bytes) (env : ReadEnv), G c (.read id seg env) → B [] c → I [] c →
    c.connections id = some con → c.inUvRun = true → con.released = false →
    seg.length ≤ inputstreamAllocCb con.tunnel.istream →
    ((c.parseData W con seg env).outcome = .duplicate → con.tunnel.closed = false →
      K (c.parsed id con (c.parseData W con seg env)) id) →
    (c.parseData W con seg env).outcome ≠ .aborted → I [] (c.readCb W id con seg env)
  /-- A failed assertion in the receiving half. -/
  aborted : ∀ {c id con} (seg : Bytes) (env : ReadEnv), G c (.read id seg env) → B [] c → I [] c →
    c.connections id = some con → (c.parseData W con seg env).outcome = .aborted →
    E ((c.parsed id con (c.parseData W con seg env)).stop .abort)
  eof : ∀ {c id con}, B [] c → I [] c → c.connections id = some con → c.inUvRun = true →
    (con.tunnel.closed = false →
      K (c.setConnection id { con with refcount := con.refcount + 1, reading := false }) id) →
    I [] (c.eofCb id con)
  create : ∀ {c} (env : CreateEnv), B [] c → I [] c → c.inUvRun = true → I [] (c.create env)
  tick : ∀ {c id con} (fresh : Key), B [] c → I [] c → c.connections id = some con →
    con.tunnel.closed = false →
    I [] (c.setConnection id { con with tunnel := { con.tunnel with
      cc := cryptoUpdateMinutekey con.tunnel.cc fresh
      history := { con.tunnel.history with
        minutekeys := fresh :: con.tunnel.history.minutekeys } } })

/-- What is known when nothing is known. -/
def Top : List Hold → Core → Prop := fun _ _ => True

variable {W : World} {N : Aim} {K : Core → Nat → Prop} {G : Core → Label → Prop} {F : Prop}
  {E : Core → Prop} {B I : List Hold → Core → Prop}

/-- An invariant that is kept wherever a known one holds is kept together with it. -/
theorem Closed.and (hB : Closed W N K G F (fun _ => True) Top B) (hI : Closed W N K G F E B I) :
    Closed W N K G F E Top (fun k c => B k c ∧ I k c) where
  quiet := fun _ h hq => ⟨hB.quiet trivial h.1 hq, hI.quiet h.1 h.2 hq⟩
  stop := fun s hf hk _ h => hI.stop s hf hk h.1 h.2
  crash := fun s hf _ h => hI.crash s hf h.1 h.2
  exited := fun _ h hw => hI.exited h.1 h.2 hw
  pack := fun m _ h => ⟨hB.pack m trivial h.1, hI.pack m h.1 h.2⟩
  clear := fun hk _ h => ⟨hB.clear hk trivial h.1, hI.clear hk h.1 h.2⟩
  unsent := fun _ h hw => ⟨hB.unsent trivial h.1 hw, hI.unsent h.1 h.2 hw⟩
  write := fun w data env _ h hr hc hl hw hn =>
    ⟨hB.write w data env trivial h.1 hr hc hl hw hn, hI.write w data env h.1 h.2 hr hc hl hw hn⟩
  answer := fun w data env hk _ h hm he hc hl hid hw hn hd =>
    ⟨hB.answer w data env hk trivial h.1 hm he hc hl hid hw hn hd,
      hI.answer w data env hk h.1 h.2 hm he hc hl hid hw hn hd⟩
  silent := fun _ h hm => ⟨hB.silent trivial h.1 hm, hI.silent h.1 h.2 hm⟩
  lost := fun _ h hr hs hw => hI.lost h.1 h.2 hr hs hw
  decref := fun _ h => ⟨hB.decref trivial h.1, hI.decref h.1 h.2⟩
  newRequest := fun obj f a _ h hh hv =>
    ⟨hB.newRequest obj f a trivial h.1 hh hv, hI.newRequest obj f a h.1 h.2 hh hv⟩
  enqueue := fun _ h => ⟨hB.enqueue trivial h.1, hI.enqueue h.1 h.2⟩
  dequeue := fun _ h ht => ⟨hB.dequeue trivial h.1 ht, hI.dequeue h.1 h.2 ht⟩
  target := fun m _ h hn hs hp hc =>
    ⟨hB.target m trivial h.1 hn hs hp hc, hI.target m h.1 h.2 hn hs hp hc⟩
  pushCall := fun i kd cid _ h hs =>
    ⟨hB.pushCall i kd cid trivial h.1 hs, hI.pushCall i kd cid h.1 h.2 hs⟩
  popCall := fun _ h hs => ⟨hB.popCall trivial h.1 hs, hI.popCall h.1 h.2 hs⟩
  pushLoop := fun _ h hs hf => ⟨hB.pushLoop trivial h.1 hs hf, hI.pushLoop h.1 h.2 hs hf⟩
  popLoop := fun _ h hs hf => ⟨hB.popLoop trivial h.1 hs hf, hI.popLoop h.1 h.2 hs hf⟩
  popParse := fun _ h hs => ⟨hB.popParse trivial h.1 hs, hI.popParse h.1 h.2 hs⟩
  close := fun _ h hc ho hk hs =>
    ⟨hB.close trivial h.1 hc ho hk hs, hI.close h.1 h.2 hc ho hk hs⟩
  closeReturned := fun hg _ h hs =>
    ⟨hB.closeReturned hg trivial h.1 hs, hI.closeReturned hg h.1 h.2 hs⟩
  read := fun seg env hg _ h hc hs hl hf hk ho =>
    ⟨hB.read seg env hg trivial h.1 hc hs hl hf hk ho, hI.read seg env hg h.1 h.2 hc hs hl hf hk ho⟩
  aborted := fun seg env hg _ h hc ho => hI.aborted seg env hg h.1 h.2 hc ho
  eof := fun _ h hc hs hk => ⟨hB.eof trivial h.1 hc hs hk, hI.eof h.1 h.2 hc hs hk⟩
  create := fun env _ h hs => ⟨hB.create env trivial h.1 hs, hI.create env h.1 h.2 hs⟩
  tick := fun fresh _ h hc ho => ⟨hB.tick fresh trivial h.1 hc ho, hI.tick fresh h.1 h.2 hc ho⟩

/-- A closed predicate stays closed when more is asked of the moves and less is known at the end. -/
theorem Closed.mono {H : Core → Label → Prop} {D : Core → Prop} (h : Closed W N K G F E B I)
    (hG : ∀ c l, H c l → G c l) (hE : ∀ c, E c → D c) : Closed W N K H F D B I where
  quiet := h.quiet
  stop := fun s hf hk hb hi => hE _ (h.stop s hf hk hb hi)
  crash := fun s hf hb hi => hE _ (h.crash s hf hb hi)
  exited := fun hb hi hw => hE _ (h.exited hb hi hw)
  pack := h.pack
  clear := h.clear
  unsent := h.unsent
  write := h.write
  answer := h.answer
  silent := h.silent
  lost := fun hb hi hr hs hw => hE _ (h.lost hb hi hr hs hw)
  decref := h.decref
  newRequest := h.newRequest
  enqueue := h.enqueue
  dequeue := h.dequeue
  target := h.target
  pushCall := h.pushCall
  popCall := h.popCall
  pushLoop := h.pushLoop
  popLoop := h.popLoop
  popParse := h.popParse
  close := h.close
  closeReturned := fun hg => h.closeReturned (hG _ _ hg)
  read := fun seg env hg => h.read seg env (hG _ _ hg)
  aborted := fun seg env hg hb hi hc ho => hE _ (h.aborted seg env (hG _ _ hg) hb hi hc ho)
  eof := h.eof
  create := h.create
  tick := h.tick

/-! ## §3 Messages -/

section Rules

variable (h : Closed W N K G F E Top I)
include h

theorem Closed.stopped {k : List Hold} {c : Core} (s : Halt) (hf : F) (hk : Idle k) (hI : I k c) :
    Ended E (c.stop s) :=
  ⟨h.stop s hf hk trivial hI, rfl⟩

theorem Closed.crashed {k : List Hold} {c : Core} (s : Halt) (hf : F) (hI : I k c) :
    Ended E (c.stop s) :=
  ⟨h.crash s hf trivial hI, rfl⟩

/-- `crypto_write` with a message that is not a response. -/
theorem Closed.cryptoWrite {k : List Hold} {c : Core} {id : Nat} {data : List MsgpackObject}
    {cause : Cause} (hI : I k c) (hr : Reached N k c id) (hcause : ∀ t, cause ≠ .response t) :
    Ends (fun x => I k x.1 ∧ x.1.stack = c.stack ∧ (x.2 = false → ∃ w ∈ x.1.trace, w.sent = false) ∧
        SameEvents c x.1)
      (Ended E) (c.cryptoWrite W id data cause) := by
  have hmove := cryptoWrite_move (W := W) c id data cause
  generalize c.cryptoWrite W id data cause = x at hmove ⊢
  cases hmove with
  | returned sent bytes env hc hl =>
      refine ⟨h.write _ bytes env trivial hI hr hc hl rfl hcause, rfl, ?_, sameEvents_setConnection hc rfl⟩
      intro hs
      exact ⟨_, List.mem_append_right _ List.mem_cons_self, hs⟩
  | exited bytes env hc hl =>
      refine ⟨h.exited trivial (h.write _ bytes env trivial hI hr hc hl rfl hcause) ?_, rfl⟩
      exact ⟨_, List.mem_append_right _ List.mem_cons_self, rfl⟩
  | lost w hid hsent hw =>
      subst hid
      exact ⟨h.lost trivial hI hr hsent hw, rfl⟩

/-- The loop over the subscribers. -/
theorem Closed.notify {k : List Hold} {name : Bytes} (hN : N.event name) :
    ∀ (ids : List Nat) {c : Core}, I k c →
      (∀ id ∈ ids, ∃ con, c.connections id = some con ∧ name ∈ con.subscribedEvents.names) →
      Ends (fun c' => I k c' ∧ c'.stack = c.stack) (Ended E) (notify W ids c)
  | [], c, hI, _ => ⟨hI, rfl⟩
  | id :: ids, c, hI, hsub => by
      obtain ⟨con, hc, hname⟩ := hsub id List.mem_cons_self
      unfold Core.notify
      rw [hc]
      dsimp only
      split
      · have hq : Quiet c (c.setConnection id
            { con with delayedNotifications := con.delayedNotifications ++ [c.sbuf] }) :=
          quiet_setConnection hc ⟨rfl, rfl, rfl, fun _ hn => Or.inl hn⟩
        refine Closed.notify hN ids (h.quiet trivial hI hq) ?_
        intro i hi
        obtain ⟨con', hc', hname'⟩ := hsub i (List.mem_cons_of_mem _ hi)
        by_cases hid : i = id
        · subst hid
          exact ⟨_, setConnection_self _ _ _, hname⟩
        · exact ⟨con', (setConnection_ne _ hid).trans hc', hname'⟩
      · have hr : Reached N k c id := Or.inr ⟨con, name, hc, hN, hname⟩
        refine Ends.bind (h.cryptoWrite hI hr (fun t ht => by cases ht)) ?_
        rintro ⟨c', sent⟩ ⟨hI', hs, _, hev⟩
        have hrest : ∀ i ∈ ids, ∃ con, c'.connections i = some con ∧
            name ∈ con.subscribedEvents.names := by
          intro i hi
          obtain ⟨con', hc', hname'⟩ := hsub i (List.mem_cons_of_mem _ hi)
          have hmap := hev.2 i
          rw [hc', Option.map_some, Option.map_eq_some_iff] at hmap
          obtain ⟨con₂, hc₂, he⟩ := hmap
          exact ⟨con₂, hc₂, by rw [he]; exact hname'⟩
        have hloop := Closed.notify hN ids hI' hrest
        rw [← hs]
        exact hloop

theorem Closed.broadcastEvent {k : List Hold} {c : Core} (name : Option Bytes) (args : List Object)
    (hk : Cleared k) (hI : I k c) (hN : ∀ n, name = some n → N.event (cstr n))
    (hF : name = none → c.anyUsed = true → F) :
    Ends (fun c' => I k c' ∧ c'.stack = c.stack) (Ended E) (broadcastEvent W c name args) := by
  unfold Core.broadcastEvent
  cases name with
  | none =>
      dsimp only
      split
      · rename_i hused
        exact h.crashed _ (hF rfl hused) hI
      · exact ⟨hI, rfl⟩
  | some name =>
      dsimp only
      split
      · exact ⟨hI, rfl⟩
      · have hnote := h.quiet trivial hI (quiet_tables c c.eventStrings c.callids c.calls c.decoded c.invoked
          (c.record ++ (c.subscribers (cstr name)).map
            (.raised · (serializeRequest 0 (cstr name) args))))
        have hp := h.pack (serializeRequest 0 (cstr name) args) trivial hnote
        have hsub : ∀ id ∈ c.subscribers (cstr name), ∃ con,
            (c.pack (serializeRequest 0 (cstr name) args)).connections id = some con ∧
              cstr name ∈ con.subscribedEvents.names := by
          intro id hid
          have hany := (List.mem_filter.mp hid).2
          obtain ⟨con, hc, hn⟩ := (Option.any_eq_true _ _).mp hany
          exact ⟨con, hc, by simpa using hn⟩
        refine Ends.bind (h.notify (hN name rfl) _ hp hsub) ?_
        rintro c' ⟨hI', hs⟩
        exact ⟨h.clear hk trivial hI', hs⟩

theorem Closed.sendDelayed {k : List Hold} {id : Nat} :
    ∀ (buffers : List (List MsgpackObject)) {c : Core}, I k c → Held k c id →
      Ends (I k) (Ended E) (sendDelayed W id buffers c)
  | [], c, hI, _ => hI
  | buffer :: buffers, c, hI, hh => by
      unfold Core.sendDelayed
      refine Ends.bind (h.cryptoWrite hI (Or.inl hh) (fun t ht => by cases ht)) ?_
      rintro ⟨c', sent⟩ ⟨hI', hs, _⟩
      exact Closed.sendDelayed buffers hI' (hh.of_stack hs)

theorem Closed.sendDelayedNotifications {k : List Hold} {c : Core} {id : Nat} (con : Connection)
    (hI : I k c) (hh : Held k c id) :
    Ends (I k) (Ended E) (sendDelayedNotifications W c id con) := by
  refine Ends.bind (h.sendDelayed con.delayedNotifications hI hh) ?_
  intro c' hI'
  exact h.quiet trivial hI' (quiet_modify _ _ fun _ _ => ⟨rfl, rfl, rfl, fun _ hn => Or.inl hn⟩)

theorem Closed.connectionSubscribe {k : List Hold} {c : Core} {id : Nat} {con : Connection}
    (event : Bytes) (hI : I k c) (hc : c.connections id = some con)
    (ho : con.tunnel.closed = false) : I k (c.connectionSubscribe id event) := by
  have hmod : ∀ c' : Core, c'.connections id = some con → I k c' →
      I k (c'.modify id fun con =>
        if con.subscribedEvents.names.contains event then con
        else { con with subscribedEvents := ⟨true, con.subscribedEvents.names ++ [event]⟩ }) := by
    intro c' hc' hI'
    refine h.quiet trivial hI' (quiet_modify _ _ fun con' hcon => ?_)
    rw [hc'] at hcon
    cases hcon
    split
    · exact SameConn.refl con
    · exact ⟨rfl, rfl, rfl, fun _ _ => Or.inr ho⟩
  unfold Core.connectionSubscribe
  dsimp only
  split
  · exact hmod c hc hI
  · exact hmod _ hc (h.quiet trivial hI (quiet_tables c _ _ _ _ _ _))

theorem Closed.unsubscribe {k : List Hold} {c c' : Core} {id : Nat} {event : Bytes} (hI : I k c)
    (hu : c.unsubscribe id event = .ok c') : I k c' := by
  have hmod : I k (c.modify id fun con => { con with
      subscribedEvents := { con.subscribedEvents with
        names := con.subscribedEvents.names.filter (· != event) } }) :=
    h.quiet trivial hI (quiet_modify _ _ fun con _ =>
      ⟨rfl, rfl, rfl, fun n hn => Or.inl (List.mem_filter.mp hn).1⟩)
  unfold Core.unsubscribe at hu
  dsimp only at hu
  split at hu
  · split at hu
    · cases hu
      exact hmod
    · cases hu
      exact h.quiet trivial hmod (quiet_tables _ _ _ _ _ _ _)
  · split at hu
    · cases hu
    · cases hu
      exact hI

theorem Closed.connectionClose {c : Core} {id : Nat} {con : Connection} (hI : I [.ref id] c)
    (hc : c.connections id = some con) (hK : con.tunnel.closed = false → K c id)
    (hu : c.inUvRun = true) : I [] (c.connectionClose id) := by
  cases ho : con.tunnel.closed with
  | true =>
      rw [connectionClose_closed hc ho]
      exact h.decref trivial hI
  | false => exact h.close trivial hI hc ho (hK ho) hu

/-! ## §4 Moves -/

/-- The flush at the end of a call. -/
theorem Closed.flushNotifications {k : List Hold} {c : Core} {id : Nat} (con : Connection) (hI : I k c)
    (hh : Held k c id) : Ends (I k) (Ended E) (flushNotifications W c id con) := by
  unfold Core.flushNotifications
  split
  · exact h.sendDelayedNotifications con hI hh
  · exact hI

/-- A call returns: its frame goes, and the flush is done with its references. -/
theorem Closed.returned {c₀ : Core} {e : RequestEvent} {target cinfo : Nat} {kind : CallKind}
    {callid : UInt64} {below : List Frame} {con : Connection} (hI : I [] c₀)
    (hs : c₀.stack = .call e target cinfo kind callid :: below)
    (hc : c₀.connections target = some con) :
    Ends (I [.ref target, .request e]) (Ended E)
      (Core.flushNotifications W ({ c₀ with stack := below }.setConnection target (popped con)) target
        (popped con)) := by
  refine h.flushNotifications _ ?_ (Or.inl ⟨.ref target, by simp, rfl⟩)
  exact h.quiet trivial (h.popCall trivial hI hs)
    (quiet_setConnection hc ⟨rfl, rfl, rfl, fun _ hn => Or.inl hn⟩)

/-- A message that is not a response has been packed and given to `crypto_write`. -/
theorem Closed.posted {k : List Hold} {c : Core} {id : Nat} {con : Connection} {m : MsgpackObject}
    {cause : Cause} {sent : Bool} {bytes : Bytes} {env : WriteEnv} (hI : I k c) (hh : Held k c id)
    (hc : c.connections id = some con) (hl : con.released = false)
    (hcause : ∀ t, cause ≠ .response t) :
    I (.packed m :: k) (c.posted W id con m cause sent bytes env) := by
  have hheld : Held (.packed m :: k) (c.pack m) id := by
    rcases hh with ⟨x, hx, hid⟩ | hh
    · exact Or.inl ⟨x, List.mem_cons_of_mem _ hx, hid⟩
    · exact Or.inr hh
  exact h.write ⟨id, _, _, _, cause, sent⟩ bytes env trivial (h.pack m trivial hI) (Or.inl hheld) hc hl
    rfl hcause

theorem Closed.postedAnswer {k : List Hold} {c : Core} {e : RequestEvent} {con : Connection}
    {err : Option ApiError} {res : Object} {sent : Bool} {bytes : Bytes} {env : WriteEnv}
    (hk : Cleared k) (hI : I (.request e :: k) c) (hm : e.msgid ≠ noResponse)
    (hc : c.connections e.con = some con) (hl : con.released = false) :
    I (.packed (serializeResponse e.msgid err res) :: .ref e.con :: k)
      (c.posted W e.con con (serializeResponse e.msgid err res) (.response e.tag) sent bytes env) :=
  h.answer ⟨e.con, _, _, _, _, sent⟩ bytes env hk trivial (h.pack _ trivial hI) hm ⟨_, _, rfl⟩ hc hl rfl
    rfl rfl rfl

/-- A request has been written, and its answer is waited for. -/
theorem Closed.wait {k : List Hold} {c : Core} {e : RequestEvent} {id : Nat} {con : Connection}
    {m : MsgpackObject} {msgid : UInt64} {kind : CallKind} {callid : UInt64} {bytes : Bytes}
    {env : WriteEnv} {queue : Option Nat} {below : List Frame}
    (hk : Cleared (.ref id :: .request e :: k)) (hI : I (.ref id :: .request e :: k) c)
    (hs : c.stack = .drain queue :: below) (hc : c.connections id = some con)
    (hl : con.released = false) :
    I k ((c.posted W id con m .request true bytes env).clear.waitFor e id msgid kind callid) := by
  have hp : I (.ref id :: .request e :: k) (c.posted W id con m .request true bytes env).clear :=
    h.clear hk trivial (h.posted hI (Or.inl ⟨.ref id, by simp, rfl⟩) hc hl (fun t ht => by cases ht))
  generalize hd : (c.posted W id con m .request true bytes env).clear = d at hp ⊢
  have hsd : d.stack = .drain queue :: below := by
    rw [← hd]
    exact hs
  have hq := quiet_pushCallinfo d id msgid
  have hn := quiet_tables (d.pushCallinfo id msgid) (d.pushCallinfo id msgid).eventStrings
    (d.pushCallinfo id msgid).callids (d.pushCallinfo id msgid).calls (d.pushCallinfo id msgid).decoded
    (d.pushCallinfo id msgid).invoked
    ((d.pushCallinfo id msgid).record ++ [.called id d.calls.length msgid d.trace.length])
  have hI' := h.quiet trivial (h.quiet trivial hp hq) hn
  exact h.pushCall d.calls.length kind callid trivial hI' (hq.stack.trans hsd)

variable {c₀ : Core} {l : Label}

/-- The name of a broadcast and the handlers that end the process, as the closure conditions want
them. -/
theorem Closed.broadcast {k : List Hold} {c : Core} {name : Option Bytes} (args : List Object)
    (hN : Aims W c₀ l N) (hF : Fatal W c₀ l → F) (hk : Cleared k) (hI : I k c)
    (hn : ∀ n, name = some n → broadcasting W c₀ l = some (cstr n))
    (hf : name = none → c.anyUsed = true → crashing W c₀ l = true) :
    Ends (fun c' => I k c' ∧ c'.stack = c.stack) (Ended E) (Core.broadcastEvent W c name args) :=
  h.broadcastEvent name args hk hI (fun n hname => hN.event _ (hn n hname)) fun hname hused =>
    hF (Or.inl (hf hname hused))

/-- **A closed predicate holds at every place of a move** that starts in it. -/
theorem Closed.at (hshape : Shape c₀.stack) (hI : I [] c₀) {k : List Hold} {c : Core}
    (ha : At W c₀ l k c) (hG : G c₀ l) (hN : Aims W c₀ l N) (hF : Fatal W c₀ l → F)
    (hK : ∀ id c' con, entering W c₀ l = some (id, c') → c'.connections id = some con →
      con.tunnel.closed = false → K c' id) :
    Cleared k ∧ I k c := by
  induction ha with
  | start => exact ⟨cleared_nil, hI⟩
  | pushLoop hs hf => exact ⟨cleared_nil, h.pushLoop trivial hI hs hf⟩
  | popLoop hs hf => exact ⟨cleared_nil, h.popLoop trivial hI hs hf⟩
  | popParse hs => exact ⟨cleared_nil.ref _, h.popParse trivial hI hs⟩
  | unpacked hs hc hn hr => exact ⟨cleared_nil, h.quiet trivial hI (quiet_unpacked hc _)⟩
  | @response id cinfo con below obj rest msgid error result hs hc hn hr hnew =>
      have hc' : { c₀ with stack := below }.connections id = some con := hc
      have hI' := h.quiet trivial (h.popParse trivial hI hs) (quiet_unpacked hc' rest)
      refine ⟨cleared_nil.ref _, ?_⟩
      exact h.quiet trivial hI' (quiet_connectionHandleResponse W _ _ _ _ _ _)
  | @mismatch id con below obj rest msgid error result hs hc hn hr hnew =>
      have hc' : { c₀ with stack := below }.connections id = some con := hc
      have hI' := h.quiet trivial (h.popParse trivial hI hs) (quiet_unpacked hc' rest)
      have hI₂ := h.quiet trivial hI' (quiet_callSetError _ con.callvector)
      have hu : uvRun below = true := by
        rw [hs] at hshape
        exact hshape.1
      have hself : (({ c₀ with stack := below }.unpacked id con rest).callSetError con.callvector).connections
          id = some { con with mpac := rest } := setConnection_self _ _ _
      refine ⟨cleared_nil, h.connectionClose hI₂ hself (hK id _ _ ?_ hself) hu⟩
      simp [entering, hs, hc, mismatched, hn, hr, hnew]
  | dequeue hs ht => exact ⟨cleared_nil.request _, h.dequeue trivial hI ht⟩
  | returned hs hc hi hr hf =>
      have hret := h.returned hI hs hc
      rw [hf] at hret
      exact ⟨(cleared_nil.request _).ref _, hret⟩
  | closeReturned hs => exact ⟨cleared_nil, h.closeReturned hG trivial hI hs⟩
  | @read id con seg env hc hu hl hfit hab =>
      refine ⟨cleared_nil, h.read seg env hG trivial hI hc hu hl hfit ?_ hab⟩
      intro hdup ho
      have hself := parsed_self c₀ id con (c₀.parseData W con seg env)
      refine hK id _ _ ?_ hself ((parseData_closed W c₀ con seg env).trans ho)
      simp only [entering, hc, Option.bind_some, hdup, if_true]
  | @eof id con hc hu hl =>
      have hself := setConnection_self c₀ id { con with refcount := con.refcount + 1, reading := false }
      refine ⟨cleared_nil, h.eof trivial hI hc hu fun ho => hK id _ _ ?_ hself ho⟩
      simp only [entering, hc, Option.map_some]
  | create hu => exact ⟨cleared_nil, h.create _ trivial hI hu⟩
  | tick hc ho => exact ⟨cleared_nil, h.tick _ trivial hI hc ho⟩
  | decref _ ih =>
      obtain ⟨hk, hI'⟩ := ih hG hN hF hK
      exact ⟨fun m hm => hk m (List.mem_cons_of_mem _ hm), h.decref trivial hI'⟩
  | error sent bytes env _ hh hc hl hcause ih =>
      obtain ⟨hk, hI'⟩ := ih hG hN hF hK
      refine ⟨hk, h.clear hk trivial (h.posted hI' hh hc hl ?_)⟩
      rintro t rfl
      rcases hcause with hcause | hcause <;> cases hcause
  | newRequest _ hp hv hprep ih =>
      obtain ⟨hk, hI'⟩ := ih hG hN hF hK
      exact ⟨hk.request _, h.newRequest _ _ _ trivial hI' (Or.inr hp) hv⟩
  | enqueue _ ih =>
      obtain ⟨hk, hI'⟩ := ih hG hN hF hK
      exact ⟨fun m hm => hk m (List.mem_cons_of_mem _ hm), h.enqueue trivial hI'⟩
  | invoke _ ih =>
      obtain ⟨hk, hI'⟩ := ih hG hN hF hK
      exact ⟨hk, h.quiet trivial hI' (quiet_tables _ _ _ _ _ _ _)⟩
  | subscribe event _ hc ho ih =>
      obtain ⟨hk, hI'⟩ := ih hG hN hF hK
      exact ⟨hk, h.connectionSubscribe event hI' hc ho⟩
  | unsubscribe _ hu ih =>
      obtain ⟨hk, hI'⟩ := ih hG hN hF hK
      exact ⟨hk, h.unsubscribe hI' hu⟩
  | broadcast _ hn hf hb ih =>
      obtain ⟨hk, hI'⟩ := ih hG hN hF hK
      have hbroad := h.broadcast ‹List Object› hN hF hk hI' hn hf
      rw [hb] at hbroad
      exact ⟨hk, hbroad.1⟩
  | putCallid _ ht heff hids hconns ih =>
      obtain ⟨hk, hI'⟩ := ih hG hN hF hK
      exact ⟨hk, h.quiet trivial hI' (quiet_tables _ _ _ _ _ _ _)⟩
  | answer sent bytes env _ hm hc hl ih =>
      obtain ⟨hk, hI'⟩ := ih hG hN hF hK
      have hk' := fun m hm => hk m (List.mem_cons_of_mem _ hm)
      exact ⟨Cleared.ref hk' _, h.clear (Cleared.ref hk' _) trivial (h.postedAnswer hk' hI' hm hc hl)⟩
  | silent _ hm ih =>
      obtain ⟨hk, hI'⟩ := ih hG hN hF hK
      exact ⟨fun m hm => hk m (List.mem_cons_of_mem _ hm), h.silent trivial hI' hm⟩
  | target _ ht ha hs hkey hc ih =>
      obtain ⟨hk, hI'⟩ := ih hG hN hF hK
      have hasked := hN.key _ (asking_eq ht ha)
      obtain ⟨queue, below, left, hdrain, _⟩ := ht
      exact ⟨hk.ref _, h.target _ trivial hI' hasked (hs.trans hdrain) hkey hc⟩
  | @unsent l k c e id con request kind callid key msgid bytes env _ ht ha hkey hc hl ih =>
      obtain ⟨hk, hI'⟩ := ih hG hN hF hK
      have hp : I (.packed (serializeRequest msgid kind.method request) :: .ref id :: .request e :: k)
          (c.posted W id con (serializeRequest msgid kind.method request) .request false bytes env) :=
        h.posted hI' (Or.inl ⟨.ref _, by simp, rfl⟩) hc hl (fun t ht => by cases ht)
      have hI₂ := h.unsent trivial hp ⟨_, List.mem_append_right _ List.mem_cons_self, rfl⟩
      refine ⟨fun m hm => hk m (List.mem_cons_of_mem _ hm), ?_⟩
      exact h.quiet trivial hI₂ (quiet_tables _ _ _ _ _ _ _)
  | wait msgid request bytes env _ ht ha hkey hs hids hc hl ih =>
      obtain ⟨hk, hI'⟩ := ih hG hN hF hK
      obtain ⟨queue, below, left, hdrain, _⟩ := ht
      refine ⟨fun m hm => hk m (List.mem_cons_of_mem _ (List.mem_cons_of_mem _ hm)), ?_⟩
      exact h.wait hk hI' (hs.trans hdrain) hc hl
  | finished _ hs hi hr hout hrec htrace ih =>
      obtain ⟨hk, hI'⟩ := ih hG hN hF hK
      exact ⟨hk, h.quiet trivial hI' (quiet_tables _ _ _ _ _ _ _)⟩
  | deliver _ hr hids ih =>
      obtain ⟨hk, hI'⟩ := ih hG hN hF hK
      exact ⟨hk, h.quiet trivial hI' (quiet_tables _ _ _ _ _ _ _)⟩

/-- What is known at the end of a process that dies in a move. -/
theorem Closed.died (hshape : Shape c₀.stack) (hI : I [] c₀) {c : Core} (hd : Died W c₀ l c)
    (hG : G c₀ l) (hN : Aims W c₀ l N) (hF : Fatal W c₀ l → F)
    (hK : ∀ id c' con, entering W c₀ l = some (id, c') → c'.connections id = some con →
      con.tunnel.closed = false → K c' id) : Ended E c := by
  cases hd with
  | stop s ha hk hw => exact h.stopped s (hF (Or.inr hw)) hk (h.at hshape hI ha hG hN hF hK).2
  | crash s ha hf => exact h.crashed s (hF (Or.inl hf)) (h.at hshape hI ha hG hN hF hK).2
  | exited bytes env ha hh hc hl hcause =>
      have hI' := (h.at hshape hI ha hG hN hF hK).2
      refine ⟨h.exited trivial (h.posted hI' hh hc hl hcause) ?_, rfl⟩
      exact ⟨_, List.mem_append_right _ List.mem_cons_self, rfl⟩
  | answerExited bytes env ha hm hc hl =>
      obtain ⟨hk, hI'⟩ := h.at hshape hI ha hG hN hF hK
      have hk' := fun m hm => hk m (List.mem_cons_of_mem _ hm)
      refine ⟨h.exited trivial (h.postedAnswer hk' hI' hm hc hl) ?_, rfl⟩
      exact ⟨_, List.mem_append_right _ List.mem_cons_self, rfl⟩
  | lost m ha hh hsent hw =>
      have hp := h.pack m trivial (h.at hshape hI ha hG hN hF hK).2
      refine ⟨h.lost trivial hp (Or.inl ?_) hsent hw, rfl⟩
      rcases hh with ⟨x, hx, hid⟩ | hh
      · exact Or.inl ⟨x, List.mem_cons_of_mem _ hx, hid⟩
      · exact Or.inr hh
  | broadcast ha hn hf hb =>
      obtain ⟨hk, hI'⟩ := h.at hshape hI ha hG hN hF hK
      have hbroad := h.broadcast ‹List Object› hN hF hk hI' hn hf
      rw [hb] at hbroad
      exact hbroad
  | returned hs hc hf =>
      have hret := h.returned hI hs hc
      rw [hf] at hret
      exact hret
  | gone s hs hc => exact h.crashed s (hF (Or.inl (by simp [crashing, hs, hc]))) (h.popCall trivial hI hs)
  | aborted hc hab => exact ⟨h.aborted _ _ hG trivial hI hc hab, rfl⟩

/-- **A closed predicate is kept by every move**, or the process ends in it. -/
theorem Closed.step (hshape : ∀ {c}, I [] c → Shape c.stack) {c c' : Core} {l : Label} (hI : I [] c)
    (hs : c.step W l = some c') (hG : G c l) (hN : Aims W c l N) (hF : Fatal W c l → F)
    (hK : ∀ id d con, entering W c l = some (id, d) → d.connections id = some con →
      con.tunnel.closed = false → K d id) :
    I [] c' ∨ Ended E c' := by
  rcases step_at hs with ha | hd
  · exact Or.inl (h.at (hshape hI) hI ha hG hN hF hK).2
  · exact Or.inr (h.died (hshape hI) hI hd hG hN hF hK)

end Rules

/-! ## §5 Callbacks that return -/

/-- What a predicate needs in order to be kept by the ways out of a `parse_cb`: the reference is given
back, `connection_close` takes it, or the decode loop does. -/
structure Returns (K : Core → Nat → Prop) (I : List Hold → Core → Prop) : Prop where
  quiet : ∀ {k c c'}, I k c → Quiet c c' → I k c'
  decref : ∀ {k c id}, I (.ref id :: k) c → I k (c.decref id)
  close : ∀ {c id con}, I [.ref id] c → c.connections id = some con → con.tunnel.closed = false →
    K c id → c.inUvRun = true → I [] (c.connectionClose id)
  pushParse : ∀ {c id}, I [.ref id] c → c.inUvRun = true → I [] { c with stack := .parse id :: c.stack }

section Returning

variable (h : Returns K I)
include h

theorem Returns.connectionClose {c : Core} {id : Nat} {con : Connection} (hI : I [.ref id] c)
    (hc : c.connections id = some con) (hK : con.tunnel.closed = false → K c id)
    (hu : c.inUvRun = true) : I [] (c.connectionClose id) := by
  cases ho : con.tunnel.closed with
  | true =>
      rw [connectionClose_closed hc ho]
      exact h.decref hI
  | false => exact h.close hI hc ho (hK ho) hu

theorem Returns.eofCb {c : Core} {id : Nat} {con : Connection}
    (hI : I [.ref id] (c.setConnection id { con with refcount := con.refcount + 1, reading := false }))
    (hK : con.tunnel.closed = false →
      K (c.setConnection id { con with refcount := con.refcount + 1, reading := false }) id)
    (hu : c.inUvRun = true) : I [] (c.eofCb id con) :=
  h.connectionClose hI (setConnection_self _ _ _) hK hu

theorem Returns.readCb {c : Core} {id : Nat} {con : Connection} {seg : Bytes} {env : ReadEnv}
    (hI : I [.ref id] (c.parsed id con (c.parseData W con seg env))) (hu : c.inUvRun = true)
    (hK : (c.parseData W con seg env).outcome = .duplicate → con.tunnel.closed = false →
      K (c.parsed id con (c.parseData W con seg env)) id)
    (hab : (c.parseData W con seg env).outcome ≠ .aborted) : I [] (c.readCb W id con seg env) := by
  have hself := parsed_self c id con (c.parseData W con seg env)
  have hu' : (c.parsed id con (c.parseData W con seg env)).inUvRun = true := by
    unfold inUvRun
    rw [parsed_stack]
    exact hu
  have hflag := parseData_closed W c con seg env
  unfold Core.readCb
  dsimp only
  cases hout : (c.parseData W con seg env).outcome with
  | ended => exact h.decref hI
  | duplicate =>
      exact h.connectionClose hI hself (fun ho => hK hout (hflag.symm.trans ho)) hu'
  | aborted => exact absurd hout hab
  | decode plain =>
      have hq := quiet_modify (c.parsed id con (c.parseData W con seg env)) id
        (f := fun con => { con with mpac := con.mpac ++ plain })
        fun _ _ => ⟨rfl, rfl, rfl, fun _ hn => Or.inl hn⟩
      refine h.pushParse (h.quiet hI hq) ?_
      unfold inUvRun
      rw [hq.stack]
      exact hu'

end Returning

end Core

end SploneBox

