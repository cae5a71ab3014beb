/-
# SploneBox.Broadcast — who is told of an event.

The calls that matter for a broadcast, in any order: handlers of the connections subscribe and unsubscribe,
broadcasts go out, requests to a connection start and end, connections come, close and go. `Hearing` is the
core together with what the last subscribe or unsubscribe of each connection was for each name; nobody looks
at that.

`api_subscribe` and `api_unsubscribe` copy at most 512 bytes of a name, `api_broadcast` takes all of it. A
connection that was closed keeps its subscriptions until it is freed. And `broadcast_event` does not look at
what `crypto_write` returns: a subscriber whose output stream is full (`outputstream_write`), or for whose
packet there is no memory, misses the event. Where nothing of this happens (`Plain`), a broadcast goes to
exactly the open connections that asked for it (`broadcast_reaches_subscribers`); a notification counts as
written if `crypto_write` returned 0 for it (`sentTo`).

The three slips have a run each, §5.
-/
import SploneBox.SendBuffer

namespace SploneBox

open Lib.Machine

/-- What a handler or the event loop does to the subscriptions. The event names are as the handlers get them. -/
inductive EventCall where
  | accept (env : CreateEnv)
  | subscribe (id : Nat) (event : Bytes)
  | unsubscribe (id : Nat) (event : Bytes)
  | broadcast (event : Bytes) (args : List Object)
  | wait (id : Nat)
  | wake (id : Nat)
  | close (id : Nat)
  | release (id : Nat)
  | free (id : Nat)

namespace Core

/-! ## §1 The calls -/

/-- The operation that a handler of the connection `id` ends in; `connection_subscribe` and
`connection_unsubscribe` abort for a connection that is gone or closed. -/
def perform (W : World) (c : Core) (id : Nat) : Effect → Except Core Core
  | .broadcast event args => broadcastEvent W c event args
  | .subscribe event =>
      match c.connections id with
      | none => .error (c.stop .abort)
      | some con => if con.tunnel.closed then .error (c.stop .abort) else .ok (c.connectionSubscribe id event)
  | .unsubscribe event =>
      match c.connections id with
      | none => .error (c.stop .abort)
      | some con => if con.tunnel.closed then .error (c.stop .abort) else c.unsubscribe id event
  | _ => .ok c

/-- One call. `wait` and `wake` are the two ends of `loop_process_events_until` for a request to the
connection. -/
def eventCall (W : World) (c : Core) : EventCall → Except Core Core
  | .accept env => .ok (c.create env)
  | .subscribe id event => perform W c id (handleSubscribe [.string ⟨some event, event.length⟩])
  | .unsubscribe id event => perform W c id (handleUnsubscribe [.string ⟨some event, event.length⟩])
  | .broadcast event args => perform W c 0 (handleBroadcast [.string ⟨some event, event.length⟩, .array args])
  | .wait id => .ok (c.modify id fun con => { con with pendingRequests := con.pendingRequests + 1 })
  | .wake id =>
      match c.connections id with
      | none => .ok c
      | some con => flushNotifications W (c.setConnection id (popped con)) id (popped con)
  | .close id => .ok (c.modify id fun con => { con with tunnel := { con.tunnel with closed := true } })
  | .release id => .ok (c.modify id fun con => { con with released := con.tunnel.closed })
  | .free id =>
      match c.connections id with
      | none => .ok c
      | some con => .ok (c.freeConnection id con)

end Core

namespace Core

/-- The connections of the list that have no request pending; `broadcast_event` writes to these at once. -/
def idle (c : Core) (ids : List Nat) : List Nat :=
  ids.filter fun id => (c.connections id).any fun con => con.pendingRequests = 0

/-- **No write of the loop fails**: `crypto_write` of the data returns -1 for none of the idle connections.
These are the next calls of `crypto_write`, one for each of them in turn. -/
def Unfailing (W : World) (c : Core) (data : List MsgpackObject) (ids : List Nat) : Prop :=
  ∀ p ∈ (c.idle ids).zipIdx c.trace.length, ∀ con ∈ c.connections p.1,
    (SploneBox.cryptoWrite W.server con.tunnel.cc (data.flatMap W.msgpack.pack) (W.writes p.2)).outcome ≠
    .failed

instance (W : World) (c : Core) (data : List MsgpackObject) (ids : List Nat) :
    Decidable (Unfailing W c data ids) :=
  inferInstanceAs (Decidable (∀ p ∈ (c.idle ids).zipIdx c.trace.length, ∀ con ∈ c.connections p.1, _))

end Core

/-- The core, and whether the last of a connection's calls for a name was a subscribe. -/
structure Hearing where
  core : Core
  latest : Nat → Bytes → Bool

namespace Hearing

open Core

def init : Hearing := ⟨Core.init, fun _ _ => false⟩

/-- The names of a call are C strings. -/
def remember (latest : Nat → Bytes → Bool) : EventCall → Nat → Bytes → Bool
  | .subscribe id event => fun i n => if i = id ∧ n = cstr event then true else latest i n
  | .unsubscribe id event => fun i n => if i = id ∧ n = cstr event then false else latest i n
  | _ => latest

def step (W : World) (s : Hearing) (call : EventCall) : Option Hearing :=
  if s.core.halt.isSome then none
  else some ⟨settle (eventCall W s.core call), remember s.latest call⟩

/-- Nobody who has been closed and not yet freed wants to hear of the event. -/
def Quiet (s : Hearing) (name : Bytes) : Prop :=
  ∀ id ∈ s.core.ids, ∀ con ∈ s.core.connections id, con.tunnel.closed = true → s.latest id name = false

instance (s : Hearing) (name : Bytes) : Decidable (s.Quiet name) :=
  inferInstanceAs (Decidable (∀ id ∈ s.core.ids, ∀ con ∈ s.core.connections id,
    con.tunnel.closed = true → s.latest id name = false))

/-- **The calls the code gets right**: the names that are subscribed and unsubscribed fit into the 512 bytes,
nobody who has been closed and not yet freed wants to hear of a broadcast, and none of its writes fails. -/
def Plain (W : World) (s : Hearing) : EventCall → Prop
  | .subscribe _ event => (cstr event).length ≤ methodMaxlen
  | .unsubscribe _ event => (cstr event).length ≤ methodMaxlen
  | .broadcast event args => s.Quiet (cstr event) ∧
      Unfailing W s.core [serializeRequest 0 (cstr event) (copyItems args)] (s.core.subscribers (cstr event))
  | _ => True

instance (W : World) (s : Hearing) : ∀ call, Decidable (s.Plain W call)
  | .subscribe _ event => inferInstanceAs (Decidable ((cstr event).length ≤ methodMaxlen))
  | .unsubscribe _ event => inferInstanceAs (Decidable ((cstr event).length ≤ methodMaxlen))
  | .broadcast event args => inferInstanceAs (Decidable (s.Quiet (cstr event) ∧
      Unfailing W s.core [serializeRequest 0 (cstr event) (copyItems args)] (s.core.subscribers (cstr event))))
  | .accept _ | .wait _ | .wake _ | .close _ | .release _ | .free _ => .isTrue trivial

/-- The open connections whose last call for the name was a subscribe. -/
def Wants (s : Hearing) (id : Nat) (name : Bytes) : Prop :=
  (∃ con, s.core.connections id = some con ∧ con.tunnel.closed = false) ∧ s.latest id name = true

end Hearing

namespace Core

/-- What is kept for the connection `id`. -/
def keptFor (c : Core) (id : Nat) : List (List MsgpackObject) :=
  match c.connections id with
  | some con => con.delayedNotifications
  | none => []

/-- The notifications that were written to the connection: `crypto_write` returned 0. -/
def sentTo (id : Nat) (ws : List Write) : List (List MsgpackObject) := writtenTo id (ws.filter fun w => w.sent)

/-- **What a connection is told** between two states: `told id` are the payloads written to it or queued for
it. -/
def Tells (c c' : Core) (told : Nat → List (List MsgpackObject)) : Prop :=
  ∃ ws, c'.trace = c.trace ++ ws ∧ ∀ id, ∃ queued, keptFor c' id = keptFor c id ++ queued ∧
    sentTo id ws ++ queued = told id

variable {W : World} {c c' : Core}

/-! ## §2 The loop over the subscribers -/

@[simp] theorem sentTo_append (id : Nat) (ws ws' : List Write) :
    sentTo id (ws ++ ws') = sentTo id ws ++ sentTo id ws' := by
  unfold sentTo
  rw [List.filter_append, writtenTo_append]

theorem tells_refl (c : Core) : Tells c c fun _ => [] :=
  ⟨[], (List.append_nil _).symm, fun _ => ⟨[], (List.append_nil _).symm, rfl⟩⟩

theorem keptFor_setConnection {id : Nat} {con : Connection} (i : Nat) :
    keptFor (c.setConnection id con) i = if i = id then con.delayedNotifications else keptFor c i := by
  unfold keptFor
  by_cases hi : i = id
  · subst hi
    rw [if_pos rfl, setConnection_self]
  · rw [if_neg hi, setConnection_ne con hi]

/-- The notification is queued. -/
theorem tells_queue {id : Nat} {con : Connection} (hc : c.connections id = some con) :
    Tells c (c.setConnection id { con with delayedNotifications := con.delayedNotifications ++ [c.sbuf] })
      fun i => if i = id then [c.sbuf] else [] := by
  refine ⟨[], (List.append_nil _).symm, ?_⟩
  intro i
  refine ⟨if i = id then [c.sbuf] else [], ?_, rfl⟩
  rw [keptFor_setConnection]
  by_cases hi : i = id
  · subst hi
    rw [if_pos rfl, if_pos rfl]
    unfold keptFor
    rw [hc]
  · rw [if_neg hi, if_neg hi, List.append_nil]

/-- The notification is written. -/
theorem tells_written {con : Connection} {w : Write} (r : WriteResult) (hc : c.connections w.con = some con)
    (hcause : w.cause = .notification) (hsent : w.sent = true) :
    Tells c (c.written con r w) fun i => if i = w.con then [w.data] else [] := by
  refine ⟨[w], rfl, ?_⟩
  intro i
  refine ⟨[], ?_, ?_⟩
  · show keptFor (c.setConnection w.con _) i = _
    rw [keptFor_setConnection, List.append_nil]
    by_cases hi : i = w.con
    · subst hi
      rw [if_pos rfl]
      unfold keptFor
      rw [hc]
    · rw [if_neg hi]
  · by_cases hi : i = w.con
    · simp [sentTo, writtenTo, notifies, hi, hcause, hsent]
    · simp [sentTo, writtenTo, notifies, hi, Ne.symm hi, hsent]

/-- Two parts of a run that do not tell the same connection. -/
theorem Tells.trans {d : Core} {told told' : Nat → List (List MsgpackObject)} (h : Tells c c' told)
    (h' : Tells c' d told') (hone : ∀ i, told i = [] ∨ told' i = []) :
    Tells c d fun i => told i ++ told' i := by
  obtain ⟨ws, hws, htold⟩ := h
  obtain ⟨ws', hws', htold'⟩ := h'
  refine ⟨ws ++ ws', by rw [hws', hws, List.append_assoc], ?_⟩
  intro i
  obtain ⟨queued, hkept, hall⟩ := htold i
  obtain ⟨queued', hkept', hall'⟩ := htold' i
  refine ⟨queued ++ queued', by rw [hkept', hkept, List.append_assoc], ?_⟩
  dsimp only
  rw [sentTo_append, ← hall, ← hall']
  rcases hone i with hnone | hnone
  · rw [← hall, List.append_eq_nil_iff] at hnone
    rw [hnone.1, hnone.2]
    rfl
  · rw [← hall', List.append_eq_nil_iff] at hnone
    rw [hnone.1, hnone.2]
    simp

/-- The process has ended in `exit(1)`, which only `crypto_write` calls here. -/
def Exited (c : Core) : Prop := c.halt = some (.exit 1)

/-- `crypto_write` of a notification to a connection whose stream exists, if it does not return -1. -/
theorem tells_cryptoWrite {id : Nat} {con : Connection} {data : List MsgpackObject}
    (hc : c.connections id = some con) (hl : con.released = false)
    (hwrite : (SploneBox.cryptoWrite W.server con.tunnel.cc (data.flatMap W.msgpack.pack)
      (W.writes c.trace.length)).outcome ≠ .failed) :
    Ends (fun x => Tells c x.1 (fun i => if i = id then [data] else []) ∧ Notified c x.1 ∧
        (∀ i, i ≠ id → x.1.connections i = c.connections i) ∧ x.1.trace.length = c.trace.length + 1) Exited
      (c.cryptoWrite W id data .notification) := by
  unfold Core.cryptoWrite
  rw [hc]
  dsimp only
  rw [if_neg (Bool.eq_false_iff.mp hl)]
  generalize SploneBox.cryptoWrite W.server con.tunnel.cc (data.flatMap W.msgpack.pack)
    (W.writes c.trace.length) = r at hwrite ⊢
  split
  · refine ⟨tells_written r hc rfl rfl, notified_written r _ hc rfl, ?_, ?_⟩
    · exact fun i hi => setConnection_ne _ hi
    · exact List.length_append
  · rename_i hfailed
    exact absurd hfailed hwrite
  · exact rfl

/-- The write to the first connection of the list. -/
theorem Unfailing.first {id : Nat} {ids : List Nat} {con : Connection} {data : List MsgpackObject}
    (h : Unfailing W c data (id :: ids)) (hc : c.connections id = some con) (hidle : con.pendingRequests = 0) :
    (SploneBox.cryptoWrite W.server con.tunnel.cc (data.flatMap W.msgpack.pack)
      (W.writes c.trace.length)).outcome ≠ .failed := by
  refine h (id, c.trace.length) ?_ con hc
  have hcons : c.idle (id :: ids) = id :: c.idle ids := by simp [idle, hc, hidle]
  rw [hcons, List.zipIdx_cons]
  exact List.mem_cons_self

/-- The writes to the others, after the first connection has been told. -/
theorem Unfailing.rest {d : Core} {id : Nat} {ids : List Nat} {data : List MsgpackObject}
    (h : Unfailing W c data (id :: ids)) (hnotin : id ∉ ids)
    (hother : ∀ i, i ≠ id → d.connections i = c.connections i)
    (htrace : d.trace.length = c.trace.length + (c.idle [id]).length) : Unfailing W d data ids := by
  have hne : ∀ i ∈ ids, i ≠ id := by
    rintro i hi rfl
    exact hnotin hi
  have hidle : d.idle ids = c.idle ids := List.filter_congr fun i hi => by rw [hother i (hne i hi)]
  have hall : c.idle (id :: ids) = c.idle [id] ++ c.idle ids := by
    unfold idle
    rw [← List.filter_append, List.singleton_append]
  intro p hp con hc
  rw [hidle, htrace] at hp
  have hmem : p.1 ∈ ids := (List.mem_filter.mp (List.fst_mem_of_mem_zipIdx hp)).1
  rw [hother p.1 (hne p.1 hmem)] at hc
  refine h p ?_ con hc
  rw [hall, List.zipIdx_append]
  exact List.mem_append_right _ hp

/-- A connection in use stays in use. -/
theorem Notified.in_use (h : Notified c c') {i : Nat}
    (hc : ∃ con, c.connections i = some con ∧ con.released = false) :
    ∃ con, c'.connections i = some con ∧ con.released = false := by
  obtain ⟨con, hc, hl⟩ := hc
  have hrel := h.connections i
  rw [hc] at hrel
  generalize ho : c'.connections i = o at hrel
  cases hrel with
  | some hab =>
      refine ⟨_, rfl, ?_⟩
      rw [hab.same]
      exact hl

/-- **The loop over the subscribers** tells each of them once. -/
theorem tells_notify {m : MsgpackObject} : ∀ (ids : List Nat) {c : Core}, ids.Nodup → c.sbuf = [m] →
    (∀ i ∈ ids, ∃ con, c.connections i = some con ∧ con.released = false) → Unfailing W c [m] ids →
    Ends (fun c' => Tells c c' (fun i => if i ∈ ids then [[m]] else []) ∧ Notified c c') Exited (notify W ids c)
  | [], c, _, _, _, _ => by
      refine ⟨?_, Notified.refl c⟩
      simp only [List.not_mem_nil, if_false]
      exact tells_refl c
  | id :: ids, c, hnodup, hsbuf, huse, hwrites => by
      obtain ⟨hnotin, hnodup⟩ := List.nodup_cons.mp hnodup
      obtain ⟨con, hc, hl⟩ := huse id List.mem_cons_self
      -- the rest of the loop, after one subscriber has been told
      have hrest : ∀ d, Tells c d (fun i => if i = id then [[m]] else []) → Notified c d →
          Unfailing W d [m] ids →
          Ends (fun c' => Tells c c' (fun i => if i ∈ id :: ids then [[m]] else []) ∧ Notified c c') Exited
            (notify W ids d) := by
        intro d htells hn hwrites'
        have hsbuf' : d.sbuf = [m] := by
          rw [hn.same]
          exact hsbuf
        have hloop := tells_notify ids hnodup hsbuf'
          (fun i hi => hn.in_use (huse i (List.mem_cons_of_mem id hi))) hwrites'
        cases hx : notify W ids d with
        | error e =>
            rw [hx] at hloop
            exact hloop
        | ok c' =>
            rw [hx] at hloop
            refine ⟨?_, hn.trans hloop.2⟩
            have hboth := htells.trans hloop.1 ?_
            · refine cast ?_ hboth
              congr 1
              funext i
              by_cases hi : i = id
              · subst hi
                simp [hnotin]
              · simp [hi]
            · intro i
              by_cases hi : i = id
              · subst hi
                exact Or.inr (if_neg hnotin)
              · exact Or.inl (if_neg hi)
      unfold Core.notify
      rw [hc]
      dsimp only
      split
      · rename_i hpending
        have hqueue := tells_queue hc
        rw [hsbuf] at hqueue
        rw [hsbuf]
        refine hrest _ hqueue ⟨rfl, renotified_setConnection hc ⟨rfl, rfl⟩,
          [], by simp [setConnection], by simp⟩ ?_
        refine hwrites.rest hnotin (fun i hi => setConnection_ne _ hi) ?_
        have hbusy : c.idle [id] = [] := by simp [idle, hc, hpending]
        rw [hbusy]
        rfl
      · rename_i hpending
        have hpending : con.pendingRequests = 0 := not_not.mp hpending
        rw [hsbuf]
        refine (tells_cryptoWrite hc hl (hwrites.first hc hpending)).bind ?_
        rintro ⟨d, sent⟩ ⟨htells, hn, hother, htrace⟩
        refine hrest d htells hn (hwrites.rest hnotin hother ?_)
        have hidle : c.idle [id] = [id] := by simp [idle, hc, hpending]
        rw [hidle]
        exact htrace

end Core

/-! ## §3 The subscriptions are the latest calls -/

open Core

/-- The tables of the connections are what their last calls say. -/
structure Tracks (s : Hearing) : Prop where
  sbuf : s.core.sbuf = []
  names : ∀ id con, s.core.connections id = some con → ∀ n,
    n ∈ con.subscribedEvents.names ↔ s.latest id n = true
  fresh : ∀ id, s.core.nextConId ≤ id → s.core.connections id = none ∧ ∀ n, s.latest id n = false
  released : ∀ id con, s.core.connections id = some con → con.released = true → con.tunnel.closed = true
  unused : s.core.eventStrings.used = false → s.core.eventStrings.names = [] ∧
    ∀ id con, s.core.connections id = some con → con.subscribedEvents.names = []

/-- What changes no subscription. -/
theorem Tracks.same {s : Hearing} {c : Core} (h : Tracks s) (hsbuf : c.sbuf = [])
    (hnext : c.nextConId = s.core.nextConId) (hused : c.eventStrings.used = s.core.eventStrings.used)
    (hempty : s.core.eventStrings.names = [] → c.eventStrings.names = [])
    (hconn : ∀ id con', c.connections id = some con' → ∃ con, s.core.connections id = some con ∧
      con'.subscribedEvents = con.subscribedEvents ∧
      ((con.released = true → con.tunnel.closed = true) → con'.released = true → con'.tunnel.closed = true)) :
    Tracks ⟨c, s.latest⟩ := by
  refine ⟨hsbuf, ?_, ?_, ?_, ?_⟩
  -- Every connection was there before, with the events that it was subscribed to.
  · intro id con' hc' n
    obtain ⟨con, hc, hnames, _⟩ := hconn id con' hc'
    rw [hnames]
    exact h.names id con hc n
  · intro id hid
    have hid' : s.core.nextConId ≤ id := hnext ▸ hid
    refine ⟨?_, (h.fresh id hid').2⟩
    cases hc' : c.connections id with
    | none => rfl
    | some con' =>
        obtain ⟨con, hc, _⟩ := hconn id con' hc'
        rw [(h.fresh id hid').1] at hc
        cases hc
  · intro id con' hc'
    obtain ⟨con, hc, _, hclosed⟩ := hconn id con' hc'
    exact hclosed (h.released id con hc)
  · intro hnone
    obtain ⟨hstrings, hsubs⟩ := h.unused (hused ▸ hnone)
    refine ⟨hempty hstrings, ?_⟩
    intro id con' hc'
    obtain ⟨con, hc, hnames, _⟩ := hconn id con' hc'
    rw [hnames]
    exact hsubs id con hc

/-- An assignment to other fields of a connection. -/
theorem Tracks.modify {s : Hearing} (h : Tracks s) (id : Nat) {f : Connection → Connection}
    (hnames : ∀ con, (f con).subscribedEvents = con.subscribedEvents)
    (hclosed : ∀ con, (con.released = true → con.tunnel.closed = true) →
      (f con).released = true → (f con).tunnel.closed = true) :
    Tracks ⟨s.core.modify id f, s.latest⟩ := by
  obtain ⟨hsbuf, hnext⟩ := modify_frame s.core id f
  have hstrings : (s.core.modify id f).eventStrings = s.core.eventStrings := by
    unfold Core.modify
    split <;> rfl
  refine h.same (hsbuf.trans h.sbuf) hnext (by rw [hstrings]) (fun hnone => hstrings ▸ hnone) ?_
  · intro i con' hc'
    rw [modify_connections] at hc'
    split at hc'
    · rename_i hi
      subst hi
      obtain ⟨con, hc, rfl⟩ := Option.map_eq_some_iff.mp hc'
      exact ⟨con, hc, hnames con, hclosed con⟩
    · exact ⟨con', hc', rfl, fun h => h⟩

theorem Tracks.notified {s : Hearing} {c : Core} (h : Tracks s) (hn : Notified s.core c) :
    Tracks ⟨c, s.latest⟩ := by
  have hsame := hn.same
  refine h.same ?_ ?_ ?_ ?_ ?_
  · rw [hsame]
    exact h.sbuf
  · rw [hsame]
  · rw [hsame]
  · rw [hsame]
    exact id
  · intro id con' hc'
    have hrel := hn.connections id
    rw [hc'] at hrel
    generalize ho : s.core.connections id = o at hrel
    cases hrel with
    | some hab =>
        refine ⟨_, rfl, ?_, ?_⟩
        · rw [hab.same]
        · intro hclosed hrel'
          rw [hab.closed]
          refine hclosed ?_
          rw [hab.same] at hrel'
          exact hrel'

/-- A new connection. -/
theorem Tracks.accept {s : Hearing} (h : Tracks s) (env : CreateEnv) :
    Tracks ⟨s.core.create env, s.latest⟩ := by
  have hnew : ∀ id con', (s.core.create env).connections id = some con' →
      (id = s.core.nextConId ∧ con'.subscribedEvents.names = [] ∧ con'.released = false) ∨
        s.core.connections id = some con' := by
    intro id con' hc'
    rcases setConnection_cases hc' with ⟨rfl, rfl⟩ | ⟨_, hc⟩
    · exact Or.inl ⟨rfl, rfl, rfl⟩
    · exact Or.inr hc
  refine ⟨h.sbuf, ?_, ?_, ?_, ?_⟩
  -- The new connection is subscribed to nothing, and no event has been asked for under its number.
  · intro id con' hc' n
    rcases hnew id con' hc' with ⟨rfl, hnames, _⟩ | hc
    · rw [hnames, (h.fresh _ (Nat.le_refl _)).2 n]
      simp
    · exact h.names id con' hc n
  · intro id hid
    have hlt : s.core.nextConId < id := hid
    refine ⟨?_, (h.fresh id hlt.le).2⟩
    exact (setConnection_ne _ hlt.ne').trans (h.fresh id hlt.le).1
  · intro id con' hc' hrel
    rcases hnew id con' hc' with ⟨_, _, hopen⟩ | hc
    · rw [hopen] at hrel
      cases hrel
    · exact h.released id con' hc hrel
  · intro hused
    refine ⟨(h.unused hused).1, ?_⟩
    intro id con' hc'
    rcases hnew id con' hc' with ⟨_, hnames, _⟩ | hc
    · exact hnames
    · exact (h.unused hused).2 id con' hc

/-- A connection is freed. -/
theorem Tracks.free {s : Hearing} (h : Tracks s) (id : Nat) (con : Connection) :
    Tracks ⟨s.core.freeConnection id con, s.latest⟩ := by
  refine h.same h.sbuf rfl rfl ?_ ?_
  · intro hnone
    show List.filter _ s.core.eventStrings.names = []
    rw [hnone]
    rfl
  intro i con' hc'
  have hne : i ≠ id := by
    rintro rfl
    simp [freeConnection, dropEvents] at hc'
  have hc : s.core.connections i = some con' := by
    simpa [freeConnection, dropEvents, hne] using hc'
  exact ⟨con', hc, rfl, fun h => h⟩

theorem cstr_take (b : Bytes) (k : Nat) : cstr (b.take k) = (cstr b).take k := by
  unfold cstr
  induction b generalizing k with
  | nil => simp
  | cons x b ih =>
      cases k with
      | zero => rfl
      | succ k =>
          rw [List.take_succ_cons]
          by_cases hx : x = 0
          · simp [hx]
          · simp [hx, ih]

/-- A name that fits is registered as it is. -/
theorem eventName_eq {event : Bytes} (h : (cstr event).length ≤ methodMaxlen) :
    eventName ⟨some event, event.length⟩ = cstr event := by
  unfold eventName
  dsimp only [Option.getD_some]
  rw [cstr_take, List.take_of_length_le]
  have hle : (cstr event).length ≤ event.length := (List.takeWhile_sublist _).length_le
  exact le_min hle h

/-- The tables after one of a connection's calls for the name `event`: the name is among its names iff `on`,
and the rest is as before. -/
theorem Tracks.named {s : Hearing} {c : Core} {id : Nat} {event : Bytes} {on : Bool} (h : Tracks s)
    (hsbuf : c.sbuf = s.core.sbuf) (hnext : c.nextConId = s.core.nextConId)
    (hlt : id < s.core.nextConId)
    (hother : ∀ i, i ≠ id → c.connections i = s.core.connections i)
    (hself : ∀ con', c.connections id = some con' → ∃ con, s.core.connections id = some con ∧
      con' = { con with subscribedEvents := con'.subscribedEvents } ∧
      ∀ n, n ∈ con'.subscribedEvents.names ↔ if n = event then on = true else n ∈ con.subscribedEvents.names)
    (hunused : c.eventStrings.used = false → s.core.eventStrings.used = false ∧ on = false ∧
      c.eventStrings.names = []) :
    Tracks ⟨c, fun i n => if i = id ∧ n = event then on else s.latest i n⟩ := by
  refine ⟨hsbuf.trans h.sbuf, ?_, ?_, ?_, ?_⟩
  · intro i con' hc' n
    -- The subscription that changes is that of `id` to `event`; every other one is left alone.
    by_cases hi : i = id
    · subst hi
      obtain ⟨con, hc, _, hnames⟩ := hself con' hc'
      rw [hnames n]
      by_cases hn : n = event
      · simp [hn]
      · simp [hn, h.names i con hc n]
    · rw [hother i hi] at hc'
      simp only [hi, false_and, if_false]
      exact h.names i con' hc' n
  · intro i hi
    have hi' : s.core.nextConId ≤ i := hnext ▸ hi
    have hne : i ≠ id := (Nat.lt_of_lt_of_le hlt hi').ne'
    simp only [hne, false_and, if_false]
    exact ⟨(hother i hne).trans (h.fresh i hi').1, (h.fresh i hi').2⟩
  · intro i con' hc' hrel
    by_cases hi : i = id
    · subst hi
      obtain ⟨con, hc, hsame, _⟩ := hself con' hc'
      rw [hsame] at hrel ⊢
      exact h.released i con hc hrel
    · rw [hother i hi] at hc'
      exact h.released i con' hc' hrel
  · intro hnone
    obtain ⟨hused, hoff, hempty⟩ := hunused hnone
    refine ⟨hempty, ?_⟩
    intro i con' hc'
    by_cases hi : i = id
    · subst hi
      obtain ⟨con, hc, _, hnames⟩ := hself con' hc'
      refine List.eq_nil_iff_forall_not_mem.mpr ?_
      intro n hn
      have hmem := (hnames n).mp hn
      rw [(h.unused hused).2 i con hc] at hmem
      simp [hoff] at hmem
    · rw [hother i hi] at hc'
      exact (h.unused hused).2 i con' hc'

theorem Tracks.lt {s : Hearing} (h : Tracks s) {id : Nat} {con : Connection}
    (hc : s.core.connections id = some con) : id < s.core.nextConId := by
  by_contra hle
  rw [(h.fresh id (Nat.le_of_not_lt hle)).1] at hc
  cases hc

/-- `connection_subscribe`. -/
theorem Tracks.subscribe {s : Hearing} (h : Tracks s) {id : Nat} {con : Connection} (event : Bytes)
    (hc : s.core.connections id = some con) :
    Tracks ⟨s.core.connectionSubscribe id event,
      fun i n => if i = id ∧ n = event then true else s.latest i n⟩ := by
  unfold connectionSubscribe
  -- whether the string is new makes no difference to the connections
  generalize hd : (if s.core.eventStrings.names.contains event then s.core
    else { s.core with eventStrings := ⟨true, s.core.eventStrings.names ++ [event]⟩ }) = d
  have hsame : d = { s.core with eventStrings := d.eventStrings } := by
    rw [← hd]
    split <;> rfl
  have hconn : d.connections = s.core.connections := by rw [hsame]
  have hsbuf : d.sbuf = s.core.sbuf := by rw [hsame]
  have hnext : d.nextConId = s.core.nextConId := by rw [hsame]
  dsimp only
  obtain ⟨hsbuf', hnext'⟩ := modify_frame d id fun con =>
    if con.subscribedEvents.names.contains event then con
    else { con with subscribedEvents := ⟨true, con.subscribedEvents.names ++ [event]⟩ }
  refine h.named (hsbuf'.trans hsbuf) (hnext'.trans hnext) (h.lt hc) ?_ ?_ ?_
  · intro i hi
    rw [modify_connections, if_neg hi, hconn]
  · intro con' hc'
    rw [modify_connections, if_pos rfl, hconn, hc] at hc'
    cases hc'
    refine ⟨con, hc, ?_, ?_⟩
    · dsimp only
      split <;> rfl
    · intro n
      dsimp only
      split
      · rename_i hmem
        by_cases hn : n = event
        · subst hn
          simpa using hmem
        · simp [hn]
      · simp only [List.mem_append, List.mem_singleton]
        by_cases hn : n = event
        · simp [hn]
        · simp [hn]
  · -- the table of the strings is in use once somebody has subscribed
    intro hnone
    exfalso
    have hused : d.eventStrings.used = false := by
      rw [← hnone]
      unfold Core.modify
      split <;> rfl
    rw [← hd] at hused
    split at hused
    · rename_i hmem
      rw [(h.unused hused).1] at hmem
      cases hmem
    · cases hused

/-- `unsubscribe`: the string of the name is known, or no table is in use, or `NULL` is compared. -/
theorem Tracks.unsubscribe {s : Hearing} (h : Tracks s) {id : Nat} {con : Connection} (event : Bytes)
    (hc : s.core.connections id = some con) :
    Ends (fun c => Tracks ⟨c, fun i n => if i = id ∧ n = event then false else s.latest i n⟩)
      (fun d => d.halt ≠ none) (s.core.unsubscribe id event) := by
  -- the strings that are left do not matter
  have hdrop : ∀ strings : StringSet, (strings.used = false → s.core.eventStrings.used = false ∧
      strings.names = []) →
      Tracks ⟨{ s.core.modify id fun con => { con with
        subscribedEvents := { con.subscribedEvents with
          names := con.subscribedEvents.names.filter (· != event) } } with eventStrings := strings },
        fun i n => if i = id ∧ n = event then false else s.latest i n⟩ := by
    intro strings hstrings
    obtain ⟨hsbuf, hnext⟩ := modify_frame s.core id fun con => { con with
      subscribedEvents := { con.subscribedEvents with
        names := con.subscribedEvents.names.filter (· != event) } }
    refine h.named hsbuf hnext (h.lt hc) ?_ ?_ ?_
    · intro i hi
      show (s.core.modify id _).connections i = _
      rw [modify_connections, if_neg hi]
    · intro con' hc'
      change (s.core.modify id _).connections id = _ at hc'
      rw [modify_connections, if_pos rfl, hc] at hc'
      cases hc'
      refine ⟨con, hc, rfl, ?_⟩
      intro n
      by_cases hn : n = event
      · simp [hn]
      · simp [hn]
    · intro hnone
      obtain ⟨hused, hempty⟩ := hstrings hnone
      exact ⟨hused, rfl, hempty⟩
  have hstrings : (s.core.modify id fun con => { con with
      subscribedEvents := { con.subscribedEvents with
        names := con.subscribedEvents.names.filter (· != event) } }).eventStrings = s.core.eventStrings := by
    unfold Core.modify
    split <;> rfl
  unfold Core.unsubscribe
  split
  · dsimp only
    split
    · have hkeep := hdrop s.core.eventStrings fun hused => ⟨hused, (h.unused hused).1⟩
      rw [← hstrings] at hkeep
      exact hkeep
    · refine hdrop _ ?_
      intro hused
      rw [hstrings] at hused ⊢
      refine ⟨hused, ?_⟩
      rw [(h.unused hused).1]
      rfl
  · split
    · exact nofun
    · rename_i hused
      -- nobody has subscribed to anything
      have hnone : s.core.eventStrings.used = false := by
        rw [not_or] at hused
        exact Bool.eq_false_iff.mpr hused.1
      refine h.named rfl rfl (h.lt hc) (fun _ _ => rfl) ?_ fun _ => ⟨hnone, rfl, (h.unused hnone).1⟩
      intro con' hc'
      refine ⟨con', hc', rfl, ?_⟩
      intro n
      rw [(h.unused hnone).2 id con' hc']
      simp

/-! ## §4 A broadcast -/

namespace Core

variable {W : World} {c : Core}

theorem mem_ids {id : Nat} {con : Connection} (hlt : id < c.nextConId) (hc : c.connections id = some con) :
    id ∈ c.ids := by
  unfold ids
  rw [List.mem_filter, List.mem_range, hc]
  exact ⟨hlt, rfl⟩

theorem subscribers_nodup (c : Core) (event : Bytes) : (c.subscribers event).Nodup :=
  (List.nodup_range.filter _).filter _

theorem mem_subscribers {id : Nat} {event : Bytes} : id ∈ c.subscribers event ↔ id < c.nextConId ∧
    ∃ con, c.connections id = some con ∧ event ∈ con.subscribedEvents.names := by
  unfold subscribers ids
  rw [List.mem_filter, List.mem_filter, List.mem_range]
  cases c.connections id with
  | none => simp
  | some con => simp

/-- `broadcast_event` on an empty buffer, of an event whose subscribers all have their streams. -/
theorem tells_broadcastEvent (name : Bytes) (args : List Object) (hsbuf : c.sbuf = [])
    (huse : ∀ i ∈ c.subscribers (cstr name), ∃ con, c.connections i = some con ∧ con.released = false)
    (hwrites : Unfailing W c [serializeRequest 0 (cstr name) args] (c.subscribers (cstr name))) :
    Ends (fun c' => Tells c c' (fun i => if i ∈ c.subscribers (cstr name)
        then [[serializeRequest 0 (cstr name) args]] else []) ∧
        ∃ record, Notified { c with record := record } c') Exited (broadcastEvent W c (some name) args) := by
  unfold broadcastEvent
  dsimp only
  split
  · rename_i hnone
    refine ⟨?_, c.record, Notified.refl c⟩
    simp only [hnone, List.not_mem_nil, if_false]
    exact tells_refl c
  · have hpacked : ((c.note ((c.subscribers (cstr name)).map
        (.raised · (serializeRequest 0 (cstr name) args)))).pack (serializeRequest 0 (cstr name) args)).sbuf =
        [serializeRequest 0 (cstr name) args] := by
      show c.sbuf ++ _ = _
      rw [hsbuf]
      rfl
    refine (tells_notify (c.subscribers (cstr name)) (subscribers_nodup c _) hpacked huse hwrites).bind ?_
    intro d ⟨htells, hn⟩
    refine ⟨htells,
      c.record ++ (c.subscribers (cstr name)).map (.raised · (serializeRequest 0 (cstr name) args)), ?_,
      hn.connections, hn.trace⟩
    -- the buffer is cleared again
    refine (congrArg Core.clear hn.same).trans ?_
    unfold Core.clear
    rw [← hsbuf]
    rfl

end Core

namespace Hearing

variable {W : World} {s : Hearing}

/-- The subscribers of an event are the open connections that want to hear of it. -/
theorem wants_iff (h : Tracks s) {name : Bytes} (hquiet : s.Quiet name) (id : Nat) :
    s.Wants id name ↔ id ∈ s.core.subscribers name := by
  rw [mem_subscribers]
  constructor
  · rintro ⟨⟨con, hc, _⟩, hlatest⟩
    exact ⟨h.lt hc, con, hc, (h.names id con hc _).mpr hlatest⟩
  · rintro ⟨hlt, con, hc, hmem⟩
    have hlatest := (h.names id con hc _).mp hmem
    refine ⟨⟨con, hc, ?_⟩, hlatest⟩
    refine Bool.eq_false_iff.mpr ?_
    intro hclosed
    rw [hquiet id (mem_ids hlt hc) con hc hclosed] at hlatest
    cases hlatest

/-- **What a broadcast has to do**, unless it ends the process: each open connection whose last call for the
name was a subscribe is written or queued one notification with the name, and no other connection is. -/
def Reaches (s : Hearing) : EventCall → Hearing → Prop
  | .broadcast event args, s' => Exited s'.core ∨ ∃ told, Tells s.core s'.core told ∧ ∀ id,
      (s.Wants id (cstr event) → told id = [[serializeRequest 0 (cstr event) (copyItems args)]]) ∧
      (¬ s.Wants id (cstr event) → told id = [])
  | _, _ => True

/-- The streams of the subscribers exist. -/
theorem in_use_of_wants (h : Tracks s) {name : Bytes} (hquiet : s.Quiet name) :
    ∀ i ∈ s.core.subscribers name, ∃ con, s.core.connections i = some con ∧ con.released = false := by
  intro i hi
  obtain ⟨⟨con, hc, hopen⟩, _⟩ := (wants_iff h hquiet i).mpr hi
  refine ⟨con, hc, Bool.eq_false_iff.mpr ?_⟩
  intro hrel
  rw [h.released i con hc hrel] at hopen
  cases hopen

/-- **One call** that the code gets right. -/
theorem tracks_eventCall (h : Tracks s) (call : EventCall) (hplain : s.Plain W call) :
    Ends (fun c => Tracks ⟨c, remember s.latest call⟩ ∧ s.Reaches call ⟨c, remember s.latest call⟩)
      (fun d => d.halt ≠ none ∧ s.Reaches call ⟨d, remember s.latest call⟩) (eventCall W s.core call) := by
  cases call with
  | accept env => exact ⟨h.accept env, trivial⟩
  | subscribe id event =>
      show Ends _ _ (perform W s.core id (.subscribe (eventName _)))
      rw [eventName_eq hplain]
      unfold perform
      dsimp only
      -- No connection is under the number: the process is aborted.
      split
      · exact ⟨nofun, trivial⟩
      rename_i con hc
      split
      · exact ⟨nofun, trivial⟩
      · exact ⟨h.subscribe _ hc, trivial⟩
  | unsubscribe id event =>
      show Ends _ _ (perform W s.core id (.unsubscribe (eventName _)))
      rw [eventName_eq hplain]
      unfold perform
      dsimp only
      split
      · exact ⟨nofun, trivial⟩
      rename_i con hc
      split
      · exact ⟨nofun, trivial⟩
      · have hun := h.unsubscribe (cstr event) hc
        generalize s.core.unsubscribe id (cstr event) = x at hun ⊢
        cases x with
        | ok c => exact ⟨hun, trivial⟩
        | error d => exact ⟨hun, trivial⟩
  | broadcast event args =>
      show Ends _ _ (broadcastEvent W s.core (some event) (copyItems args))
      obtain ⟨hquiet, hwrites⟩ := hplain
      have htold := tells_broadcastEvent event (copyItems args) h.sbuf (in_use_of_wants h hquiet) hwrites
      generalize broadcastEvent W s.core (some event) (copyItems args) = x at htold ⊢
      cases x with
      -- Out of memory ends the process; otherwise each open subscriber has been told.
      | error d =>
          refine ⟨?_, Or.inl htold⟩
          rw [show d.halt = some (.exit 1) from htold]
          exact nofun
      | ok c =>
          obtain ⟨htells, record, hn⟩ := htold
          refine ⟨?_, Or.inr ⟨_, htells, ?_⟩⟩
          · have hrecord : Tracks ⟨{ s.core with record := record }, s.latest⟩ := ⟨h.1, h.2, h.3, h.4, h.5⟩
            exact hrecord.notified hn
          · intro id
            rw [wants_iff h hquiet id]
            exact ⟨fun hmem => if_pos hmem, fun hmem => if_neg hmem⟩
  | wait id => exact ⟨h.modify id (fun _ => rfl) (fun _ h => h), trivial⟩
  | wake id =>
      unfold eventCall
      dsimp only
      split
      · exact ⟨h, trivial⟩
      rename_i con hc
      have hpop : Tracks ⟨s.core.modify id popped, s.latest⟩ := h.modify id (fun _ => rfl) (fun _ h => h)
      -- A wake-up of a connection that is gone does nothing.
      unfold Core.modify at hpop
      rw [hc] at hpop
      have hhalts := halts_flushNotifications (W := W) (s.core.setConnection id (popped con)) id (popped con)
      cases hx : flushNotifications W (s.core.setConnection id (popped con)) id (popped con) with
      | error d =>
          rw [hx] at hhalts
          exact ⟨hhalts, trivial⟩
      | ok c => exact ⟨hpop.notified (notified_flush hx), trivial⟩
  | close id => exact ⟨h.modify id (fun _ => rfl) (fun _ _ _ => rfl), trivial⟩
  | release id => exact ⟨h.modify id (fun _ => rfl) (fun _ _ hrel => hrel), trivial⟩
  | free id =>
      unfold eventCall
      dsimp only
      split
      · exact ⟨h, trivial⟩
      · exact ⟨h.free id _, trivial⟩

theorem tracks_init : Tracks init :=
  ⟨rfl, fun _ _ hc => (nomatch hc), fun _ _ => ⟨rfl, fun _ => rfl⟩, fun _ _ hc => (nomatch hc),
    fun _ => ⟨rfl, fun _ _ hc => (nomatch hc)⟩⟩

/-- **Broadcast.** In every run of the calls the code gets right, from no connections on, every broadcast
reaches the open connections that want to hear of it, and nobody else. -/
theorem broadcast_reaches_subscribers (W : World) (calls : List EventCall)
    (hplain : Along (step W) (fun s call _ => s.Plain W call) init calls) :
    Along (step W) Reaches init calls := by
  refine along_of_invariant (I := fun s => s.core.halt = none → Tracks s) ?_ (fun _ => tracks_init) hplain
  intro s call s' htracks hcall hs
  unfold step at hs
  split at hs
  · cases hs
  rename_i hhalt
  cases hs
  have hone := tracks_eventCall (W := W) (htracks (Option.not_isSome_iff_eq_none.mp hhalt)) call hcall
  generalize eventCall W s.core call = x at hone ⊢
  cases x with
  | ok c => exact ⟨fun _ => hone.1, hone.2⟩
  | error d => exact ⟨fun hrun => absurd hrun hone.1, hone.2⟩

/-- Three connections subscribe, the second takes it back, the third has a request pending and the fourth never
asked. -/
def Sample.subscribers : List EventCall :=
  List.replicate 4 (.accept Sample.create) ++
    [.subscribe 1 (text "a"), .subscribe 2 (text "a"), .subscribe 3 (text "a"),
      .unsubscribe 2 (text "a"), .wait 3, .broadcast (text "a") []]

/-- **One is written to, one has the notification queued**, the others hear nothing. -/
theorem broadcast_reaches_subscribers_sample :
    Along (step Sample.world) Reaches init Sample.subscribers ∧
      (exec (step Sample.world) init Sample.subscribers).any (fun s => s.core.halt.isNone &&
        decide (s.core.trace.map (fun w => (w.con, w.sent)) = [(1, true)] ∧
          (List.range 5).map (fun id => (keptFor s.core id).length) = [0, 0, 0, 1, 0])) = true := by
  have hplain :
      Along (step Sample.world) (fun s call _ => s.Plain Sample.world call) init Sample.subscribers := by
    decide +kernel
  refine ⟨broadcast_reaches_subscribers Sample.world Sample.subscribers hplain, ?_⟩
  decide +kernel

/-! ## §5 The calls it gets wrong -/

/-- The step of a run after its first calls. -/
theorem reaches_last {call : EventCall} : ∀ {calls : List EventCall} {s t t' : Hearing},
    Along (step W) Reaches s (calls ++ [call]) → exec (step W) s calls = some t → step W t call = some t' →
    t.Reaches call t'
  | [], s, t, t', halong, hex, hs => by
      cases hex
      exact (halong t' hs).1
  | first :: calls, s, t, t', halong, hex, hs => by
      obtain ⟨s₁, hs₁, hrest⟩ := exec_cons.mp hex
      exact reaches_last (halong s₁ hs₁).2 hrest hs

/-- A broadcast after which nothing more was written or is kept told nobody. -/
theorem Reaches.told_nobody {event : Bytes} {args : List Object} {s' : Hearing} {id : Nat}
    (h : s.Reaches (.broadcast event args) s') (hrun : s'.core.halt = none)
    (hsent : (sentTo id s'.core.trace).length = (sentTo id s.core.trace).length)
    (hkept : (keptFor s'.core id).length = (keptFor s.core id).length) :
    ¬ s.Wants id (cstr event) := by
  intro hwants
  rcases h with hexit | ⟨told, ⟨ws, hws, htells⟩, htold⟩
  · rw [hexit] at hrun
    cases hrun
  · have hnone : sentTo id ws = [] := by
      rw [hws, sentTo_append, List.length_append] at hsent
      exact List.length_eq_zero_iff.mp (by omega)
    obtain ⟨queued, hqueued, hall⟩ := htells id
    have hnot : queued = [] := by
      rw [hqueued, List.length_append] at hkept
      exact List.length_eq_zero_iff.mp (by omega)
    rw [(htold id).1 hwants, hnone, hnot] at hall
    cases hall

/-- The connection is open and its last call for the name was a subscribe, and the broadcast leaves it without
the event: nothing more was written to it or is kept for it. -/
def misses (W : World) (s : Hearing) (id : Nat) (event : Bytes) : Bool :=
  s.latest id (cstr event) && (s.core.connections id).any (fun con => !con.tunnel.closed) &&
    (step W s (.broadcast event [])).any fun s' : Hearing => s'.core.halt.isNone &&
      decide ((sentTo id s'.core.trace).length = (sentTo id s.core.trace).length ∧
        (keptFor s'.core id).length = (keptFor s.core id).length)

theorem not_reaches_of_misses {calls : List EventCall} {id : Nat} {event : Bytes}
    (h : (exec (step W) init calls).any (fun s => s.misses W id event) = true) :
    ¬ Along (step W) Reaches init (calls ++ [.broadcast event []]) := by
  intro halong
  obtain ⟨s, hex, hs⟩ := (Option.any_eq_true _ _).mp h
  unfold misses at hs
  simp only [Bool.and_eq_true] at hs
  obtain ⟨⟨hlatest, hcon⟩, hstep⟩ := hs
  obtain ⟨con, hc, hopen⟩ := (Option.any_eq_true _ _).mp hcon
  obtain ⟨s', hs', hstate⟩ := (Option.any_eq_true _ _).mp hstep
  simp only [Bool.and_eq_true, decide_eq_true_eq, Option.isNone_iff_eq_none] at hstate
  obtain ⟨hhalt, hsent, hkept⟩ := hstate
  refine (reaches_last halong hex hs').told_nobody hhalt hsent hkept ?_
  exact ⟨⟨con, hc, by simpa using hopen⟩, hlatest⟩

/-- A name of 513 bytes. -/
def Sample.longName : Bytes := List.replicate 513 97

def Sample.longSubscription : List EventCall :=
  [.accept Sample.create, .subscribe 1 Sample.longName]

/-- **A subscriber that is not told**: its name was cut off. -/
theorem long_name_told_nobody :
    ¬ Along (step Sample.world) Reaches init (Sample.longSubscription ++ [.broadcast Sample.longName []]) := by
  have hrun : (exec (step Sample.world) init Sample.longSubscription).any
      (fun s => s.misses Sample.world 1 Sample.longName) = true := by
    decide +kernel
  exact not_reaches_of_misses hrun

/-- The output streams are full: `outputstream_write` returns -1. -/
def Sample.fullStreams : World := { Sample.world with writes := fun _ => ⟨true, true, false⟩ }

def Sample.subscription : List EventCall := [.accept Sample.create, .subscribe 1 (text "a")]

/-- **A subscriber that misses the event**: the write fails, and nothing is kept for later. -/
theorem failed_write_told_nobody :
    ¬ Along (step Sample.fullStreams) Reaches init (Sample.subscription ++ [.broadcast (text "a") []]) := by
  have hrun : (exec (step Sample.fullStreams) init Sample.subscription).any
      (fun s => s.misses Sample.fullStreams 1 (text "a")) = true := by
    decide +kernel
  exact not_reaches_of_misses hrun

/-- A subscriber with a pending request closes. -/
def Sample.closedSubscriber : List EventCall :=
  [.accept Sample.create, .subscribe 1 (text "a"), .wait 1, .close 1]

/-- A closed connection has the notification queued. -/
theorem closed_subscriber_told :
    ¬ Along (step Sample.world) Reaches init (Sample.closedSubscriber ++ [.broadcast (text "a") []]) := by
  intro halong
  have hrun : (exec (step Sample.world) init Sample.closedSubscriber).any (fun s =>
      (s.core.connections 1).any (fun con => con.tunnel.closed) &&
        (step Sample.world s (.broadcast (text "a") [])).any fun s' => s'.core.halt.isNone &&
          !(keptFor s'.core 1).isEmpty && (keptFor s.core 1).isEmpty) = true := by
    decide +kernel
  obtain ⟨s, hex, hs⟩ := (Option.any_eq_true _ _).mp hrun
  simp only [Bool.and_eq_true] at hs
  obtain ⟨hcon, hstep⟩ := hs
  obtain ⟨con, hc, hclosed⟩ := (Option.any_eq_true _ _).mp hcon
  obtain ⟨s', hs', hstate⟩ := (Option.any_eq_true _ _).mp hstep
  simp only [Bool.and_eq_true, List.isEmpty_iff, Option.isNone_iff_eq_none] at hstate
  obtain ⟨⟨hhalt, hkept'⟩, hkept⟩ := hstate
  -- The connection is closed, so it wants nothing, yet it has been told.
  have hnot : ¬ s.Wants 1 (cstr (text "a")) := by
    rintro ⟨⟨con', hc', hopen⟩, _⟩
    rw [hc] at hc'
    cases hc'
    rw [hclosed] at hopen
    cases hopen
  rcases reaches_last halong hex hs' with hexit | ⟨told, ⟨ws, hws, htells⟩, htold⟩
  · rw [hexit] at hhalt
    cases hhalt
  · obtain ⟨queued, hqueued, hall⟩ := htells 1
    rw [(htold 1).2 hnot, List.append_eq_nil_iff] at hall
    rw [hqueued, hkept, hall.2] at hkept'
    cases hkept'

end Hearing

end SploneBox
