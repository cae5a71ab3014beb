/-
# SploneBox.Notifications — the order in which a connection is told of events.

A notification that is raised for a connection is written at once, or kept in `delayed_notifications` while a
request to the connection is pending; `connection_send_request` writes what was kept when the last of them
has returned. `InOrder` says that nothing is lost, repeated or overtaken: what was written to a connection and
what is kept for it are together what was raised for it. `Owing` is the same statement in the middle of a
loop, with what the loop still has to write.

`connection_send_event` with a connection id is called by no handler. `Act` lets it be called between any two
moves of the core.
-/
import SploneBox.Calls

namespace SploneBox

open Lib.Machine

namespace Core

/-! ## §1 `connection_send_event` -/

/-- `connection_send_event`: whether the connection was found. Id 0 is a broadcast. -/
def connectionSendEvent (W : World) (c : Core) (id : Nat) (name : Option Bytes) (args : List Object) :
    Except Core (Core × Bool) :=
  if id = 0 then do
    let c ← broadcastEvent W c name args
    return (c, true)
  else
    match c.connections id with
    | none => .ok (c, false)
    | some con =>
        if con.tunnel.closed then .ok (c, false)
        else do
          -- `cstring_to_string` of `NULL` is empty
          let m := serializeRequest 0 ((name.map cstr).getD []) args
          let c ← notify W [id] ((c.note [.raised id m]).pack m)
          return (c.clear, true)

end Core

/-- A move of the core, or a call of `connection_send_event` between two of them. -/
inductive Act where
  | move (l : Label)
  | sendEvent (id : Nat) (name : Option Bytes) (args : List Object)

namespace Core

def act (W : World) (c : Core) : Act → Option Core
  | .move l => c.step W l
  | .sendEvent id name args =>
      if c.halt.isSome then none
      else some (settle (Prod.fst <$> connectionSendEvent W c id name args))

/-! ## §2 What is owed -/

/-- The message, if the occurrence raises one for the connection. -/
def raisedFor (id : Nat) : Occurrence → Option MsgpackObject
  | .raised i m => if i = id then some m else none
  | _ => none

/-- The notifications addressed to the connection, in the order in which they were raised. -/
def raisedTo (id : Nat) (os : List Occurrence) : List MsgpackObject := os.filterMap (raisedFor id)

/-- What the call of `crypto_write` wrote, if it was a notification to the connection. -/
def notifies (id : Nat) (w : Write) : Option (List MsgpackObject) :=
  if w.con = id ∧ w.cause = .notification then some w.data else none

/-- The notifications written to the connection. -/
def writtenTo (id : Nat) (ws : List Write) : List (List MsgpackObject) := ws.filterMap (notifies id)

/-- **Notifications keep their order.** What was written to a connection and what is kept for it are what was
raised for it, one message in each write; nothing was written while a request was pending; and nothing is kept
when none is. -/
structure InOrder (c : Core) : Prop where
  order : ∀ id con, c.connections id = some con →
    writtenTo id c.trace ++ con.delayedNotifications = (raisedTo id c.record).map fun m => [m]
  idle : ∀ w ∈ c.trace, w.cause = .notification → w.pending = 0
  flushed : ∀ id con, c.connections id = some con → con.pendingRequests = 0 →
    con.delayedNotifications = []

/-- What was written to a connection and what it is owed are what was raised for it. -/
structure Owing (owed : Nat → Connection → List (List MsgpackObject)) (c : Core) : Prop where
  order : ∀ id con, c.connections id = some con →
    writtenTo id c.trace ++ owed id con = (raisedTo id c.record).map fun m => [m]
  fresh : ∀ id, c.nextConId ≤ id → writtenTo id c.trace = [] ∧ raisedTo id c.record = []
  idle : ∀ w ∈ c.trace, w.cause = .notification → w.pending = 0

/-- Nothing is kept for a connection without pending requests. -/
def Flushed (c : Core) : Prop := ∀ id con, c.connections id = some con → con.pendingRequests = 0 →
  con.delayedNotifications = []

/-- What is kept for a connection. -/
def kept (_ : Nat) (con : Connection) : List (List MsgpackObject) := con.delayedNotifications

/-- The state between two operations: the buffer is empty, and a connection is owed what is kept for it. -/
structure Orderly (c : Core) : Prop where
  sbuf : c.sbuf = []
  owing : Owing kept c
  flushed : Flushed c

theorem Orderly.inOrder {c : Core} (h : Orderly c) : InOrder c :=
  ⟨h.owing.order, h.owing.idle, h.flushed⟩

@[simp] theorem writtenTo_append (id : Nat) (ws ws' : List Write) :
    writtenTo id (ws ++ ws') = writtenTo id ws ++ writtenTo id ws' := List.filterMap_append

@[simp] theorem raisedTo_append (id : Nat) (os os' : List Occurrence) :
    raisedTo id (os ++ os') = raisedTo id os ++ raisedTo id os' := List.filterMap_append

/-- Writes that are no notifications. -/
theorem writtenTo_other {ws : List Write} (h : ∀ w ∈ ws, w.cause ≠ .notification) (id : Nat) :
    writtenTo id ws = [] := by
  refine List.filterMap_eq_nil_iff.mpr ?_
  intro w hw
  exact if_neg fun hc => h w hw hc.2

theorem raisedTo_map (id : Nat) (m : MsgpackObject) (ids : List Nat) :
    (raisedTo id (ids.map (.raised · m))).map (fun m => [m]) = List.replicate (ids.count id) [m] := by
  induction ids with
  | nil => rfl
  | cons i ids ih =>
      unfold raisedTo at ih ⊢
      by_cases hi : i = id
      · subst hi
        rw [List.map_cons, List.filterMap_cons_some (b := m) (by simp [raisedFor]), List.map_cons, ih,
          List.count_cons_self, List.replicate_succ]
      · rw [List.map_cons, List.filterMap_cons_none (by simp [raisedFor, hi]), ih,
          List.count_cons_of_ne hi]

/-! ## §3 Writing and keeping -/

variable {W : World} {c c' : Core}

/-- A notification is written: the connection is owed one less. -/
theorem Owing.written {owed owed' : Nat → Connection → List (List MsgpackObject)} {con : Connection}
    {w : Write} (h : Owing owed c) (r : WriteResult) (hc : c.connections w.con = some con)
    (hcause : w.cause = .notification) (hpending : w.pending = 0) (hlt : w.con < c.nextConId)
    (hself : owed w.con con = w.data :: owed' w.con { con with tunnel := afterWrite con.tunnel r })
    (hother : ∀ i con, i ≠ w.con → owed' i con = owed i con) : Owing owed' (c.written con r w) := by
  have htrace : ∀ i, writtenTo i (c.written con r w).trace =
      writtenTo i c.trace ++ if i = w.con then [w.data] else [] := by
    intro i
    show writtenTo i (c.trace ++ [w]) = _
    rw [writtenTo_append]
    congr 1
    by_cases hi : i = w.con
    · simp [writtenTo, notifies, hi, hcause]
    · simp [writtenTo, notifies, hi, Ne.symm hi]
  refine ⟨?_, ?_, ?_⟩
  · intro i con₁ hc₁
    rw [htrace]
    rcases setConnection_cases hc₁ with ⟨rfl, rfl⟩ | ⟨hi, hc₁⟩
    · rw [if_pos rfl, List.append_assoc, List.singleton_append, ← hself]
      exact h.order w.con con hc
    · rw [if_neg hi, List.append_nil, hother i con₁ hi]
      exact h.order i con₁ hc₁
  · intro i hi
    have hne : i ≠ w.con := (Nat.lt_of_lt_of_le hlt hi).ne'
    rw [htrace, if_neg hne, List.append_nil]
    exact h.fresh i hi
  · intro w' hw'
    rcases List.mem_append.mp hw' with hw' | hw'
    · exact h.idle w' hw'
    · rw [List.mem_singleton.mp hw']
      exact fun _ => hpending

/-- A connection is replaced, and owed the same. -/
theorem Owing.setConnection {owed owed' : Nat → Connection → List (List MsgpackObject)} {id : Nat}
    {con con' : Connection} (h : Owing owed c) (hc : c.connections id = some con)
    (hself : owed' id con' = owed id con) (hother : ∀ i con, i ≠ id → owed' i con = owed i con) :
    Owing owed' (c.setConnection id con') := by
  refine ⟨?_, h.fresh, h.idle⟩
  intro i con₁ hc₁
  rcases setConnection_cases hc₁ with ⟨rfl, rfl⟩ | ⟨hi, hc₁⟩
  · rw [hself]
    exact h.order i con hc
  · rw [hother i con₁ hi]
    exact h.order i con₁ hc₁

/-- The connection after a write has the same requests and the same notifications. -/
theorem Flushed.setConnection {id : Nat} {con' : Connection} (h : Flushed c)
    (hcon' : con'.pendingRequests = 0 → con'.delayedNotifications = []) :
    Flushed (c.setConnection id con') := by
  intro i con₁ hc₁
  rcases setConnection_cases hc₁ with ⟨rfl, rfl⟩ | ⟨_, hc₁⟩
  · exact hcon'
  · exact h i con₁ hc₁

/-- **One notification** goes to a connection without pending requests. -/
theorem owing_cryptoWrite {owed owed' : Nat → Connection → List (List MsgpackObject)} {d : Core} {id : Nat}
    {con : Connection} {data : List MsgpackObject} {sent : Bool} (h : Owing owed c)
    (hw : c.cryptoWrite W id data .notification = .ok (d, sent)) (hc : c.connections id = some con)
    (hpending : con.pendingRequests = 0) (hlt : id < c.nextConId)
    (hself : ∀ tunnel, owed id con = data :: owed' id { con with tunnel := tunnel })
    (hother : ∀ i con, i ≠ id → owed' i con = owed i con) :
    Owing owed' d ∧ ∃ tunnel w, d = (c.setConnection id { con with tunnel := tunnel }).wrote w := by
  have hmove := cryptoWrite_move (W := W) c id data .notification
  rw [hw] at hmove
  cases hmove with
  | @returned con₁ _ bytes env hc₁ hl =>
      rw [hc] at hc₁
      cases hc₁
      exact ⟨h.written _ hc rfl hpending hlt (hself _) hother, _, _, rfl⟩

/-- What the connections are owed while `broadcast_event` has the connections `ids` left. -/
def announced (m : MsgpackObject) (ids : List Nat) (id : Nat) (con : Connection) : List (List MsgpackObject) :=
  con.delayedNotifications ++ List.replicate (ids.count id) [m]

theorem announced_other {m : MsgpackObject} {id : Nat} {ids : List Nat} (i : Nat) (con : Connection)
    (hi : i ≠ id) : announced m ids i con = announced m (id :: ids) i con := by
  unfold announced
  rw [List.count_cons_of_ne (Ne.symm hi)]

/-- **The loop over the subscribers** pays what it has announced. -/
theorem owing_notify {m : MsgpackObject} : ∀ (ids : List Nat) {c c' : Core}, c.sbuf = [m] →
    (∀ i ∈ ids, i < c.nextConId) → Owing (announced m ids) c → Flushed c → notify W ids c = .ok c' →
    Owing kept c' ∧ Flushed c'
  | [], c, c', _, _, hown, hfl, hn => by
      cases hn
      refine ⟨⟨?_, hown.fresh, hown.idle⟩, hfl⟩
      intro i con hc
      have horder := hown.order i con hc
      simp only [announced, List.count_nil, List.replicate_zero, List.append_nil] at horder
      exact horder
  | id :: ids, c, c', hsbuf, hlt, hown, hfl, hn => by
      have hrest : ∀ i ∈ ids, i < c.nextConId := fun i hi => hlt i (List.mem_cons_of_mem id hi)
      unfold Core.notify at hn
      split at hn
      · cases hn
      rename_i con hc
      split at hn
      · rename_i hpending
        have hkeep : Owing (announced m ids) (c.setConnection id
            { con with delayedNotifications := con.delayedNotifications ++ [c.sbuf] }) := by
          refine hown.setConnection hc ?_ announced_other
          unfold announced
          rw [hsbuf, List.count_cons_self, List.replicate_succ, List.append_assoc, List.singleton_append]
        have hfl' : Flushed (c.setConnection id
            { con with delayedNotifications := con.delayedNotifications ++ [c.sbuf] }) :=
          hfl.setConnection fun h0 => absurd h0 hpending
        exact owing_notify ids (c := c.setConnection id _) hsbuf hrest hkeep hfl' hn
      · rename_i hpending
        have hpending : con.pendingRequests = 0 := not_not.mp hpending
        cases hw : c.cryptoWrite W id c.sbuf .notification with
        | error d =>
            rw [hw] at hn
            cases hn
        | ok x =>
            rw [hw] at hn
            -- nothing is kept, so the message is the next one
            have hself : ∀ tunnel, announced m (id :: ids) id con =
                c.sbuf :: announced m ids id { con with tunnel := tunnel } := by
              intro tunnel
              unfold announced
              rw [hsbuf, hfl id con hc hpending, List.count_cons_self, List.replicate_succ]
              rfl
            obtain ⟨d, sent⟩ := x
            obtain ⟨hown', tunnel, w, rfl⟩ := owing_cryptoWrite hown hw hc hpending
              (hlt id List.mem_cons_self) hself announced_other
            have hfl' : Flushed (c.setConnection id { con with tunnel := tunnel }) :=
              hfl.setConnection (hfl id con hc)
            exact owing_notify ids (c := (c.setConnection id _).wrote w) hsbuf hrest hown' hfl' hn

/-- What the connections are owed while `send_delayed_notifications` has the buffers left. -/
def unsentTo (target : Nat) (buffers : List (List MsgpackObject)) (id : Nat) (con : Connection) :
    List (List MsgpackObject) :=
  if id = target then buffers else con.delayedNotifications

theorem unsentTo_other {target : Nat} {buffers : List (List MsgpackObject)} (i : Nat) (con : Connection)
    (hi : i ≠ target) : unsentTo target buffers i con = con.delayedNotifications := if_neg hi

/-- **The loop over the kept notifications** writes them in their order. -/
theorem owing_sendDelayed {target : Nat} : ∀ (buffers : List (List MsgpackObject)) {c c' : Core}
    {con : Connection}, c.connections target = some con → con.pendingRequests = 0 → target < c.nextConId →
    Owing (unsentTo target buffers) c → sendDelayed W target buffers c = .ok c' →
    Owing (unsentTo target []) c' ∧ c'.sbuf = c.sbuf ∧
      ∀ i, i ≠ target → c'.connections i = c.connections i
  | [], c, c', con, _, _, _, hown, hs => by
      cases hs
      exact ⟨hown, rfl, fun _ _ => rfl⟩
  | buffer :: buffers, c, c', con, hc, hpending, hlt, hown, hs => by
      unfold Core.sendDelayed at hs
      cases hw : c.cryptoWrite W target buffer .notification with
      | error d =>
          rw [hw] at hs
          cases hs
      | ok x =>
          rw [hw] at hs
          have hself : ∀ tunnel, unsentTo target (buffer :: buffers) target con =
              buffer :: unsentTo target buffers target { con with tunnel := tunnel } := by
            intro tunnel
            unfold unsentTo
            rw [if_pos rfl, if_pos rfl]
          have hother : ∀ i con, i ≠ target →
              unsentTo target buffers i con = unsentTo target (buffer :: buffers) i con := by
            intro i con hi
            rw [unsentTo_other i con hi, unsentTo_other i con hi]
          obtain ⟨d, sent⟩ := x
          obtain ⟨hown', tunnel, w, rfl⟩ := owing_cryptoWrite hown hw hc hpending hlt hself hother
          obtain ⟨hown₂, hsbuf, hframe⟩ := owing_sendDelayed buffers
            (c := (c.setConnection target { con with tunnel := tunnel }).wrote w)
            (setConnection_self _ _ _) hpending hlt hown' hs
          exact ⟨hown₂, hsbuf, fun i hi => (hframe i hi).trans (setConnection_ne _ hi)⟩

/-! ## §4 The operations of a move -/

/-- What has nothing to do with calls and notifications. -/
theorem Orderly.passes (h : Orderly c) (hp : Passes Anyone c c') : Orderly c' := by
  obtain ⟨ws, htrace, hws⟩ := hp.trace
  have hwritten : ∀ id, writtenTo id c'.trace = writtenTo id c.trace := by
    intro id
    rw [htrace, writtenTo_append, writtenTo_other hws, List.append_nil]
  refine ⟨?_, ⟨?_, ?_, ?_⟩, ?_⟩
  · rcases hp.sbuf with hs | hs
    · exact hs.trans h.sbuf
    · exact hs
  · intro id con' hc'
    obtain ⟨con, hc, hsame, _⟩ := hp.connections id con' hc'
    rw [hwritten, hp.record]
    show _ ++ con'.delayedNotifications = _
    rw [hsame.delayedNotifications]
    exact h.owing.order id con hc
  · intro id hid
    rw [hp.nextConId] at hid
    rw [hwritten, hp.record]
    exact h.owing.fresh id hid
  · intro w hw
    rw [htrace] at hw
    rcases List.mem_append.mp hw with hw | hw
    · exact h.owing.idle w hw
    · exact fun hcause => absurd hcause (hws w hw)
  · intro id con' hc' h0
    obtain ⟨con, hc, hsame, _⟩ := hp.connections id con' hc'
    rw [hsame.delayedNotifications]
    rw [hsame.pendingRequests] at h0
    exact h.flushed id con hc h0

/-- Assignments to the tables of the handlers and to the calls, and a record that is no notification. -/
theorem Orderly.note {os : List Occurrence} (h : Orderly c) (hos : ∀ id, raisedTo id os = [])
    (callids : UInt64 → Option Nat) (calls : List Callinfo) :
    Orderly ({ c with callids := callids, calls := calls }.note os) := by
  have hrecord : ∀ id, raisedTo id (c.record ++ os) = raisedTo id c.record := by
    intro id
    rw [raisedTo_append, hos, List.append_nil]
  refine ⟨h.sbuf, ⟨?_, ?_, h.owing.idle⟩, h.flushed⟩
  · intro id con hc
    show _ = (raisedTo id (c.record ++ os)).map _
    rw [hrecord]
    exact h.owing.order id con hc
  · intro id hid
    show _ ∧ raisedTo id (c.record ++ os) = []
    rw [hrecord]
    exact h.owing.fresh id hid

/-- **A notification is raised** for the connections `ids`, and the loop goes over them. -/
theorem Orderly.notify {ids : List Nat} {m : MsgpackObject} {d : Core} (h : Orderly c)
    (hlt : ∀ i ∈ ids, i < c.nextConId)
    (hn : notify W ids ((c.note (ids.map (.raised · m))).pack m) = .ok d) : Orderly d.clear := by
  have hraised : ∀ id, (raisedTo id (c.record ++ ids.map (.raised · m))).map (fun m => [m]) =
      (raisedTo id c.record).map (fun m => [m]) ++ List.replicate (ids.count id) [m] := by
    intro id
    rw [raisedTo_append, List.map_append, raisedTo_map]
  have hown : Owing (announced m ids) ((c.note (ids.map (.raised · m))).pack m) := by
    refine ⟨?_, ?_, h.owing.idle⟩
    · intro id con hc
      have horder : writtenTo id c.trace ++ con.delayedNotifications = _ := h.owing.order id con hc
      show writtenTo id c.trace ++ announced m ids id con = (raisedTo id (c.record ++ _)).map _
      unfold announced
      rw [hraised, ← List.append_assoc, horder]
    · intro id hid
      refine ⟨(h.owing.fresh id hid).1, ?_⟩
      have hcount : ids.count id = 0 :=
        List.count_eq_zero_of_not_mem fun hin => absurd (hlt id hin) (Nat.not_lt.mpr hid)
      have hnone := hraised id
      rw [(h.owing.fresh id hid).2, hcount] at hnone
      exact List.map_eq_nil_iff.mp hnone
  have hsbuf : ((c.note (ids.map (.raised · m))).pack m).sbuf = [m] := by
    show c.sbuf ++ [m] = [m]
    rw [h.sbuf]
    rfl
  obtain ⟨hown', hfl'⟩ := owing_notify ids hsbuf hlt hown h.flushed hn
  exact ⟨rfl, ⟨hown'.order, hown'.fresh, hown'.idle⟩, hfl'⟩

theorem modify_frame (c : Core) (id : Nat) (f : Connection → Connection) :
    (c.modify id f).sbuf = c.sbuf ∧ (c.modify id f).nextConId = c.nextConId := by
  unfold modify
  split
  · exact ⟨rfl, rfl⟩
  · exact ⟨rfl, rfl⟩

/-- **A call returns**, and what was kept for its connection is written if it was the last. -/
theorem Orderly.returned {target : Nat} {con : Connection} {below : List Frame} (h : Orderly c)
    (hc : c.connections target = some con) (hlt : target < c.nextConId)
    (hf : flushNotifications W ({ c with stack := below }.setConnection target (popped con)) target
      (popped con) = .ok c') : Orderly c' := by
  unfold flushNotifications sendDelayedNotifications at hf
  split at hf
  · rename_i hpending
    cases hs : sendDelayed W target (popped con).delayedNotifications
        ({ c with stack := below }.setConnection target (popped con)) with
    | error d =>
        rw [hs] at hf
        cases hf
    | ok d =>
        rw [hs] at hf
        cases hf
        have hpop : Owing (unsentTo target con.delayedNotifications)
            ({ c with stack := below }.setConnection target (popped con)) := by
          have hown : Owing kept { c with stack := below } := ⟨h.owing.order, h.owing.fresh, h.owing.idle⟩
          refine hown.setConnection hc (if_pos rfl) ?_
          intro i con₁ hi
          exact unsentTo_other i con₁ hi
        obtain ⟨hown, hsbuf, hframe⟩ :=
          owing_sendDelayed (c := { c with stack := below }.setConnection target (popped con)) _
            (setConnection_self _ _ _) hpending hlt hpop hs
        -- the connection is in the table again, with nothing kept
        have hconn :
            ∀ i con', (d.modify target fun con => { con with delayedNotifications := [] }).connections i =
            some con' → (i ≠ target → c.connections i = some con') ∧
              (i = target → con'.delayedNotifications = []) ∧ ∃ con₁, d.connections i = some con₁ := by
          intro i con' hc'
          rw [modify_connections] at hc'
          split at hc'
          · rename_i hi
            subst hi
            obtain ⟨con₁, hd, rfl⟩ := Option.map_eq_some_iff.mp hc'
            exact ⟨fun hi => absurd rfl hi, fun _ => rfl, con₁, hd⟩
          · rename_i hi
            have hsame : c.connections i = some con' :=
              (setConnection_ne (c := { c with stack := below }) _ hi).symm.trans ((hframe i hi).symm.trans hc')
            exact ⟨fun _ => hsame, fun heq => absurd heq hi, con', hc'⟩
        obtain ⟨hrec, htrace⟩ := modify_record d target fun con => { con with delayedNotifications := [] }
        refine ⟨?_, ⟨?_, ?_, ?_⟩, ?_⟩
        · rw [(modify_frame d target _).1, hsbuf]
          exact h.sbuf
        · intro i con' hc'
          obtain ⟨_, hnone, con₁, hd⟩ := hconn i con' hc'
          have horder := hown.order i con₁ hd
          rw [hrec, htrace]
          by_cases hi : i = target
          · subst hi
            unfold unsentTo at horder
            rw [if_pos rfl] at horder
            unfold kept
            rw [hnone rfl]
            exact horder
          · rw [modify_connections, if_neg hi, hd] at hc'
            cases hc'
            rw [unsentTo_other i con' hi] at horder
            exact horder
        · intro i hi
          rw [hrec, htrace]
          rw [(modify_frame d target _).2] at hi
          exact hown.fresh i hi
        · rw [htrace]
          exact hown.idle
        · intro i con' hc' h0
          obtain ⟨hsame, hnone, _⟩ := hconn i con' hc'
          by_cases hi : i = target
          · exact hnone hi
          · exact h.flushed i con' (hsame hi) h0
  · rename_i hpending
    cases hf
    have hown : Owing kept { c with stack := below } := ⟨h.owing.order, h.owing.fresh, h.owing.idle⟩
    refine ⟨h.sbuf, hown.setConnection hc rfl fun _ _ _ => rfl, ?_⟩
    have hfl : Flushed { c with stack := below } := h.flushed
    exact hfl.setConnection fun h0 => absurd h0 hpending

/-- A call is made: nothing more is written to the connection. -/
theorem Orderly.waitFor {e : RequestEvent} {id : Nat} {msgid : UInt64} {kind : CallKind} {callid : UInt64}
    (h : Orderly c) : Orderly (c.waitFor e id msgid kind callid) := by
  have hrecord : ∀ i, raisedTo i (c.waitFor e id msgid kind callid).record = raisedTo i c.record := by
    intro i
    rw [waitFor_record, raisedTo_append]
    exact List.append_nil _
  refine ⟨?_, ⟨?_, ?_, ?_⟩, ?_⟩
  · show (c.modify id _).sbuf = []
    rw [(modify_frame c id _).1]
    exact h.sbuf
  · intro i con' hc'
    rw [waitFor_trace, hrecord]
    obtain ⟨con, hc, ⟨_, rfl⟩ | ⟨_, rfl⟩⟩ := waitFor_connections hc'
    · exact h.owing.order i con' hc
    · exact h.owing.order i con hc
  · intro i hi
    rw [waitFor_trace, hrecord]
    have hi' : (c.modify id _).nextConId ≤ i := hi
    rw [(modify_frame c id _).2] at hi'
    exact h.owing.fresh i hi'
  · rw [waitFor_trace]
    exact h.owing.idle
  · intro i con' hc' h0
    obtain ⟨con, hc, ⟨_, rfl⟩ | ⟨_, rfl⟩⟩ := waitFor_connections hc'
    · exact h.flushed i con' hc h0
    · exact absurd h0 (Nat.succ_ne_zero _)

/-- A new connection has been told of nothing. -/
theorem Orderly.create (h : Orderly c) (env : CreateEnv) : Orderly (c.create env) := by
  refine ⟨h.sbuf, ⟨?_, ?_, h.owing.idle⟩, ?_⟩
  · intro i con' hc'
    rcases create_cases hc' with ⟨rfl, _, _, hnone, _⟩ | hc
    · obtain ⟨hw, hr⟩ := h.owing.fresh c.nextConId (Nat.le_refl _)
      show writtenTo c.nextConId c.trace ++ con'.delayedNotifications = (raisedTo c.nextConId c.record).map _
      rw [hw, hr, hnone]
      rfl
    · exact h.owing.order i con' hc
  · intro i hi
    exact h.owing.fresh i (Nat.le_of_succ_le hi)
  · intro i con' hc' h0
    rcases create_cases hc' with ⟨_, _, _, hnone, _⟩ | hc
    · exact hnone
    · exact h.flushed i con' hc h0

/-! ## §5 Whole runs -/

theorem AllSent.of_append {ws : List Write} (h : AllSent c') (ht : c'.trace = c.trace ++ ws) : AllSent c := by
  intro w hw
  exact h w (by rw [ht]; exact List.mem_append_left ws hw)

theorem not_allSent {w : Write} (hw : w ∈ c.trace) (hsent : w.sent = false) : ¬ AllSent c := by
  intro h
  rw [h w hw] at hsent
  cases hsent

/-- The order is kept as long as all writes succeed. -/
def Steady (c : Core) : Prop := AllSent c → Orderly c

theorem Steady.passes (h : Steady c) (hp : Passes Anyone c c') : Steady c' := by
  intro hsent
  obtain ⟨ws, htrace, _⟩ := hp.trace
  exact (h (hsent.of_append htrace)).passes hp

theorem subscribers_lt {name : Bytes} : ∀ i ∈ c.subscribers name, i < c.nextConId := by
  intro i hi
  exact List.mem_range.mp (List.mem_filter.mp (List.mem_filter.mp hi).1).1

/-- **A broadcast.** -/
theorem Steady.broadcast {name : Option Bytes} {args : List Object} (h : Steady c)
    (hb : broadcastEvent W c name args = .ok c') : Steady c' := by
  intro hsent
  rcases broadcastEvent_cases hb with rfl | ⟨n, d, rfl, hn, rfl⟩
  · exact h hsent
  · obtain ⟨ws, htrace, _⟩ := (notified_notify hn).trace
    exact (h (hsent.of_append htrace)).notify subscribers_lt hn

theorem Steady.waitFor {e : RequestEvent} {id : Nat} {msgid : UInt64} {kind : CallKind} {callid : UInt64}
    (h : Steady c) : Steady (c.waitFor e id msgid kind callid) := by
  intro hsent
  unfold AllSent at hsent
  rw [waitFor_trace] at hsent
  exact (h hsent).waitFor

/-- **Every place of a move** keeps the order. -/
theorem Steady.at {c₀ : Core} {l : Label} {k : List Hold} (h : Steady c₀) (hb : Balanced [] c₀)
    (ha : At W c₀ l k c) : Steady c := by
  have hlt : ∀ i con, c₀.connections i = some con → i < c₀.nextConId := by
    intro i con hc
    by_contra hge
    rw [hb.fresh i (Nat.le_of_not_lt hge)] at hc
    cases hc
  induction ha with
  | start => exact h
  | pushLoop hs hf =>
      refine h.passes (passes_push _ ?_)
      cases hf <;> rfl
  | popLoop hs hf =>
      refine h.passes (passes_pop hs ?_ fun _ _ => trivial)
      cases hf <;> rfl
  | popParse hs => exact h.passes (passes_pop hs rfl fun _ _ => trivial)
  | unpacked hs hc hn hr => exact h.passes (passes_unpacked hc _)
  | @response id cinfo con below obj rest msgid error result hs hc hn hr hnew =>
      have hpop : Steady { c₀ with stack := below } := h.passes (passes_pop hs rfl fun _ _ => trivial)
      have hc' : { c₀ with stack := below }.connections id = some con := hc
      intro hsent
      exact (hpop.passes (passes_unpacked hc' rest) hsent).note (fun _ => rfl) _ _
  | @mismatch id con below obj rest msgid error result hs hc hn hr hnew =>
      have hpop : Steady { c₀ with stack := below } := h.passes (passes_pop hs rfl fun _ _ => trivial)
      have hc' : { c₀ with stack := below }.connections id = some con := hc
      have hset : Steady (({ c₀ with stack := below }.unpacked id con rest).callSetError con.callvector) := by
        intro hsent
        obtain ⟨hsbuf, hown, hfl⟩ := hpop.passes (passes_unpacked hc' rest) hsent
        exact ⟨hsbuf, ⟨hown.order, hown.fresh, hown.idle⟩, hfl⟩
      exact hset.passes (passes_connectionClose _ trivial)
  | dequeue hs ht => exact h.passes (passes_tables _ _ _ _ _ _ _ rfl fun _ _ h => h)
  | returned hs hc hi hr hf =>
      intro hsent
      obtain ⟨ws, htrace, _⟩ := (notified_flush hf).trace
      exact (h (hsent.of_append htrace)).returned hc (hlt _ _ hc) hf
  | @closeReturned id below hs =>
      have hpop : Steady { c₀ with stack := below } := h.passes (passes_pop hs rfl fun _ _ => trivial)
      exact hpop.passes (passes_closeReturned _ trivial)
  | read hc hu hl hfit hab => exact h.passes (passes_readCb hc (fun _ => trivial) hab)
  | eof hc hu hl => exact h.passes (passes_eofCb hc trivial)
  | create hu => exact fun hsent => (h hsent).create _
  | tick hc ho => exact h.passes (passes_setConnection hc ⟨rfl, rfl, rfl⟩ fun _ => ⟨rfl, rfl⟩)
  | decref _ ih => exact ih.passes (passes_decref _ _)
  | error sent bytes env _ hh hc hl hcause ih =>
      refine ih.passes (passes_posted hc ?_)
      rintro rfl
      rcases hcause with hcause | hcause <;> cases hcause
  | newRequest _ hp hv hprep ih => exact ih.passes (passes_newRequest _ _ _)
  | enqueue _ ih => exact ih.passes (passes_tables _ _ _ _ _ _ _ rfl fun _ _ h => h)
  | invoke _ ih => exact ih.passes (passes_tables _ _ _ _ _ _ _ rfl fun _ _ h => h)
  | subscribe event _ hc ho ih => exact ih.passes (passes_connectionSubscribe _ _ _)
  | unsubscribe _ hu ih => exact ih.passes (passes_unsubscribe hu)
  | broadcast _ hn hf hb' ih => exact ih.broadcast hb'
  | putCallid _ ht heff hids hconns ih => exact fun hsent => (ih hsent).note (fun _ => rfl) _ _
  | answer sent bytes env _ hm hc hl ih => exact ih.passes (passes_posted hc (by simp))
  | silent _ hm ih => exact ih.passes (passes_decref _ _)
  | target _ ht ha hs hkey hc ih =>
      exact ih.passes (passes_setConnection hc ⟨rfl, rfl, rfl⟩ fun _ => ⟨rfl, rfl⟩)
  | unsent msgid bytes env _ ht ha hkey hc hl ih =>
      exact fun hsent => absurd hsent (not_allSent (List.mem_append_right _ List.mem_cons_self) rfl)
  | wait msgid request bytes env _ ht ha hkey hs hids hc hl ih =>
      exact (ih.passes (passes_posted hc (by simp))).waitFor
  | finished _ hs hi hr hout hrec htrace ih => exact fun hsent => (ih hsent).note (fun _ => rfl) _ _
  | deliver _ hr hids ih => exact fun hsent => (ih hsent).note (fun _ => rfl) _ _

theorem Steady.stop (h : Steady c) (s : Halt) : Steady (c.stop s) := by
  intro hsent
  obtain ⟨hsbuf, hown, hfl⟩ := h hsent
  exact ⟨hsbuf, ⟨hown.order, hown.fresh, hown.idle⟩, hfl⟩

/-- A `crypto_write` that failed has ended the process. -/
def Broken (c : Core) : Prop := (∃ w ∈ c.trace, w.sent = false) ∧ c.halt ≠ none

theorem broken_last {w : Write} (h : w.sent = false) (s : Halt) : Broken ((c.wrote w).stop s) :=
  ⟨⟨w, List.mem_append_right _ List.mem_cons_self, h⟩, nofun⟩

theorem Broken.steady (h : Broken c) : Steady c := by
  obtain ⟨⟨w, hw, hsent⟩, _⟩ := h
  exact fun hall => absurd hall (not_allSent hw hsent)

theorem broken_of_cryptoWrite {id : Nat} {data : List MsgpackObject} {cause : Cause}
    (h : c.cryptoWrite W id data cause = .error c') : Broken c' := by
  have hmove := cryptoWrite_move (W := W) c id data cause
  rw [h] at hmove
  cases hmove with
  | exited bytes env hc hl => exact broken_last rfl _
  | lost w hid hsent hw => exact broken_last hsent _

theorem broken_of_notify : ∀ (ids : List Nat) {c c' : Core},
    (∀ i ∈ ids, (c.connections i).isSome = true) → notify W ids c = .error c' → Broken c'
  | [], c, c', _, h => by cases h
  | id :: ids, c, c', hin, h => by
      -- the loop does not take a connection out of the table
      have hstay : ∀ d, Notified c d → ∀ i ∈ ids, (d.connections i).isSome = true := by
        intro d hn i hi
        have hrel := hn.connections i
        have hsome := hin i (List.mem_cons_of_mem id hi)
        generalize c.connections i = o at hrel hsome
        generalize d.connections i = o' at hrel ⊢
        cases hrel with
        | none => cases hsome
        | some _ => rfl
      unfold Core.notify at h
      split at h
      · rename_i hnone
        have hsome := hin id List.mem_cons_self
        rw [hnone] at hsome
        cases hsome
      · rename_i con hc
        split at h
        · have hdelay : Notified c (c.setConnection id
              { con with delayedNotifications := con.delayedNotifications ++ [c.sbuf] }) :=
            ⟨rfl, renotified_setConnection hc ⟨rfl, rfl⟩, [], by simp [setConnection], by simp⟩
          exact broken_of_notify ids (hstay _ hdelay) h
        · cases hw : c.cryptoWrite W id c.sbuf .notification with
          | error d =>
              rw [hw] at h
              cases h
              exact broken_of_cryptoWrite hw
          | ok x =>
              rw [hw] at h
              exact broken_of_notify ids (hstay _ (notified_cryptoWrite hw)) h

theorem broken_of_sendDelayed {target : Nat} : ∀ (buffers : List (List MsgpackObject)) {c c' : Core},
    sendDelayed W target buffers c = .error c' → Broken c'
  | [], c, c', h => by cases h
  | buffer :: buffers, c, c', h => by
      unfold Core.sendDelayed at h
      cases hw : c.cryptoWrite W target buffer .notification with
      | error d =>
          rw [hw] at h
          cases h
          exact broken_of_cryptoWrite hw
      | ok x =>
          rw [hw] at h
          exact broken_of_sendDelayed buffers h

theorem subscribers_isSome {name : Bytes} : ∀ i ∈ c.subscribers name, (c.connections i).isSome = true := by
  intro i hi
  exact (List.mem_filter.mp (List.mem_filter.mp hi).1).2

/-- **A broadcast that ends the process**: a write has failed, or the name was `NULL`. -/
theorem Steady.broadcast_error {name : Option Bytes} {args : List Object} (h : Steady c)
    (hb : broadcastEvent W c name args = .error c') : Steady c' := by
  unfold broadcastEvent at hb
  split at hb
  · split at hb
    · cases hb
      exact h.stop _
    · cases hb
  · rename_i n
    split at hb
    · cases hb
    · change notify W (c.subscribers (cstr n)) (c.raise (cstr n) args) >>= _ = _ at hb
      cases hd : notify W (c.subscribers (cstr n)) (c.raise (cstr n) args) with
      | error d =>
          rw [hd] at hb
          cases hb
          exact (broken_of_notify (c := c.raise (cstr n) args) _
            (fun i hi => subscribers_isSome (c := c) i hi) hd).steady
      | ok d =>
          rw [hd] at hb
          cases hb

/-- **A move that ends the process** keeps the order. -/
theorem Steady.died {c₀ : Core} {l : Label} (h : Steady c₀) (hb : Balanced [] c₀) (hd : Died W c₀ l c') :
    Steady c' := by
  have hat : ∀ {k c}, At W c₀ l k c → Steady c := fun ha => h.at hb ha
  cases hd with
  | stop s ha hk => exact (hat ha).stop s
  | crash s ha hf => exact (hat ha).stop s
  | exited bytes env ha hh hc hl hcause => exact (broken_last rfl _).steady
  | answerExited bytes env ha hm hc hl => exact (broken_last rfl _).steady
  | lost m ha hh hsent hw => exact (broken_last hsent _).steady
  | broadcast ha hn hf hbr => exact (hat ha).broadcast_error hbr
  | @returned e target cinfo kind callid below con c' hs hc hf =>
      unfold flushNotifications sendDelayedNotifications at hf
      split at hf
      · cases hsd : sendDelayed W target (popped con).delayedNotifications
            ({ c₀ with stack := below }.setConnection target (popped con)) with
        | error d =>
            rw [hsd] at hf
            cases hf
            exact (broken_of_sendDelayed _ hsd).steady
        | ok d =>
            rw [hsd] at hf
            cases hf
      · cases hf
  | gone s hs hc =>
      intro hsent
      obtain ⟨hsbuf, hown, hfl⟩ := h hsent
      exact ⟨hsbuf, ⟨hown.order, hown.fresh, hown.idle⟩, hfl⟩
  | aborted hc hab => exact (h.passes (passes_parsed _ _ hc)).stop _

/-- The loops over notifications keep the references. -/
theorem Ordered.notified {k : List Hold} (h : Ordered k c) (hn : Notified c c') : Ordered k c' := by
  have hsame := hn.same
  refine ⟨?_, h.2.congr ?_ ?_ ?_⟩
  · rw [hsame]
    exact h.1
  · rw [hsame]
  · intro id
    have hrel := hn.connections id
    generalize c.connections id = o at hrel ⊢
    generalize c'.connections id = o' at hrel ⊢
    cases hrel with
    | none => exact .none
    | some hab =>
        refine .some ⟨?_, hab.closed⟩
        rw [hab.same]
  · intro id
    rw [hsame]

/-- **`connection_send_event`** keeps the order, and the references if the process survives it. -/
theorem sendEvent_steady (h : Steady c) (hord : Ordered [] c) (id : Nat) (name : Option Bytes)
    (args : List Object) : Ends (fun x => Steady x.1 ∧ Ordered [] x.1)
      (fun d => Steady d ∧ d.halt ≠ none) (connectionSendEvent W c id name args) := by
  unfold connectionSendEvent
  split
  · have hcast := (ordered_closed W .any (fun _ _ => True) (fun _ _ => True) True).broadcastEvent
      name args cleared_nil hord (fun _ _ => trivial) (fun _ _ => trivial)
    cases hb : broadcastEvent W c name args with
    | ok d =>
        rw [hb] at hcast
        exact ⟨h.broadcast hb, hcast.1⟩
    | error d =>
        rw [hb] at hcast
        exact ⟨h.broadcast_error hb, Option.isSome_iff_ne_none.mp hcast.2⟩
  split
  · exact ⟨h, hord⟩
  rename_i con hc
  split
  · exact ⟨h, hord⟩
  generalize serializeRequest 0 ((name.map cstr).getD []) args = m
  dsimp only
  have hin : ∀ i ∈ [id], (c.connections i).isSome = true := by
    intro i hi
    rw [List.mem_singleton.mp hi, hc]
    rfl
  have hlt : ∀ i ∈ [id], i < c.nextConId := by
    intro i hi
    by_contra hge
    have hsome := hin i hi
    rw [hord.2.fresh i (Nat.le_of_not_lt hge)] at hsome
    cases hsome
  cases hn : notify W [id] ((c.note [.raised id m]).pack m) with
  | ok d =>
      have hnotified := notified_notify hn
      obtain ⟨ws, htrace, _⟩ := hnotified.trace
      refine ⟨fun hsent => (h (hsent.of_append htrace)).notify hlt hn, ?_⟩
      have hraised : Ordered [] ((c.note [.raised id m]).pack m) :=
        ⟨hord.1, hord.2.covered, hord.2.positive, hord.2.fresh⟩
      have hd : Ordered [] d := hraised.notified hnotified
      exact ⟨hd.1, hd.2.covered, hd.2.positive, hd.2.fresh⟩
  | error d =>
      have hbroken := broken_of_notify (c := (c.note [.raised id m]).pack m) [id] hin hn
      exact ⟨hbroken.steady, hbroken.2⟩

/-- **A move or a call** keeps the order, and leaves the references in order unless it ends the process. -/
theorem steady_act {a : Act} (h : Steady c) (hord : Ordered [] c) (hs : c.act W a = some c') :
    Steady c' ∧ (c'.halt = none → Ordered [] c') := by
  cases a with
  | move l =>
      rcases hord.step hs with ⟨hord', ha⟩ | ⟨hd, hend⟩
      · exact ⟨h.at hord.2 ha, fun _ => hord'⟩
      · exact ⟨h.died hord.2 hd, fun hrun => absurd hrun hend⟩
  | sendEvent id name args =>
      simp only [act] at hs
      split at hs
      · cases hs
      · cases hs
        have hends := sendEvent_steady (W := W) h hord id name args
        generalize connectionSendEvent W c id name args = x at hends ⊢
        cases x with
        | ok y => exact ⟨hends.1, fun _ => hends.2⟩
        | error d => exact ⟨hends.1, fun hrun => absurd hrun hends.2⟩

/-- Once the process has ended nothing happens. -/
theorem running_of_act {a : Act} (hs : c.act W a = some c') : c.halt = none := by
  cases a with
  | move l => exact running_of_step hs
  | sendEvent id name args =>
      simp only [act] at hs
      split at hs
      · cases hs
      · rename_i hhalt
        exact Option.isNone_iff_eq_none.mp (by simpa using hhalt)

theorem orderly_init : Orderly Core.init :=
  ⟨rfl, ⟨fun _ _ hc => (nomatch hc), fun _ _ => ⟨rfl, rfl⟩, fun _ hw => (nomatch hw)⟩,
    fun _ _ hc => (nomatch hc)⟩

end Core

open Core

/-- **Notification order.** In every state of every run, with `connection_send_event` called anywhere, in which
no `crypto_write` has failed: the notifications written to a connection and those kept for it are exactly those
raised for it, each once and in the order in which they were raised; none was written while a request to the
connection was pending; and when none is pending nothing is kept. -/
theorem notifications_in_order {W : World} {as : List Act} {c : Core}
    (hex : exec (Core.act W) Core.init as = some c) (hsent : ∀ w ∈ c.trace, w.sent = true) : InOrder c := by
  have halways : Always (Core.act W) (fun c => Steady c ∧ (c.halt = none → Ordered [] c)) Core.init as := by
    refine always_of_step ?_ ⟨fun _ => orderly_init, fun _ => ordered_init⟩
    rintro c a c' ⟨h, hord⟩ hs
    exact steady_act h (hord (running_of_act hs)) hs
  obtain ⟨hsteady, _⟩ := halways.exec hex
  exact (hsteady hsent).inOrder

/-- A plugin calls itself and answers the call; it is told of three events, of the last two while the call
waits. -/
def Sample.delayedEvents : List Act :=
  (Label.turn :: Sample.connect 1 (Sample.fill 32 3)).map .move ++
    .sendEvent 1 (some (text "a")) [] :: .move (Sample.sends 1 5 (Sample.run 9 (Sample.pluginkey "03"))) ::
    (Sample.turns 6).map .move ++
    .sendEvent 1 (some (text "b")) [] :: .sendEvent 1 (some (text "c")) [] ::
    .move (Sample.sends 1 9 (Sample.response 1 (.array [.positiveInteger 7]))) :: (Sample.turns 3).map .move

/-- The plugin is connected by moves. -/
theorem Sample.act_connect {W : World} (hW : W.server = Sample.server) :
    exec (Core.act W) Core.init ((Label.turn :: Sample.connect 1 (Sample.fill 32 3)).map .move) =
      some Sample.connected :=
  (exec_map (fun _ _ => rfl) _ _).trans (Sample.exec_connect hW)

/-- **Three notifications in their order**, and nothing kept. -/
theorem notifications_in_order_sample :
    ∃ c con, exec (Core.act Sample.world) Core.init Sample.delayedEvents = some c ∧
      c.connections 1 = some con ∧ con.delayedNotifications = [] ∧ (writtenTo 1 c.trace).length = 3 ∧
      writtenTo 1 c.trace = (raisedTo 1 c.record).map fun m => [m] := by
  have hrun : (exec (Core.act Sample.world) Core.init Sample.delayedEvents).any (fun c =>
      c.trace.all (fun w => w.sent) && decide ((writtenTo 1 c.trace).length = 3) &&
        (c.connections 1).any fun con => decide (con.pendingRequests = 0)) = true := by
    rw [Sample.delayedEvents, List.append_assoc, exec_append_of (Sample.act_connect rfl)]
    decide +kernel
  obtain ⟨c, hex, hc⟩ := (Option.any_eq_true _ _).mp hrun
  simp only [Bool.and_eq_true, List.all_eq_true, decide_eq_true_eq] at hc
  obtain ⟨⟨hsent, hlen⟩, hcon⟩ := hc
  obtain ⟨con, hcon, hpending⟩ := (Option.any_eq_true _ _).mp hcon
  have hin := notifications_in_order hex hsent
  have hnone := hin.flushed 1 con hcon (of_decide_eq_true hpending)
  have horder := hin.order 1 con hcon
  rw [hnone, List.append_nil] at horder
  exact ⟨c, con, hex, hcon, hnone, hlen, horder⟩

end SploneBox
