/-
# SploneBox.Progress — the thread comes to the end of its work.

Between two callbacks of libuv the thread decodes what it was given, runs the events that are queued and
returns from calls that were answered. Every such move makes the work left smaller (`work`): a decoded
message takes bytes and adds at most one event, an event that is run adds at most one call, and the loops
are started only when there is something to do. So the thread ends up waiting (`Waits`), in the main loop
with nothing queued or in a call that was not answered, unless the process ends before.
-/
import SploneBox.Lifetime
import Mathlib.Algebra.Order.BigOperators.Group.List

namespace SploneBox

open Lib.Machine

namespace Core

/-! ## §1 The work left -/

/-- What the unpacker of a connection has not decoded yet. -/
def undecoded (c : Core) (id : Nat) : Nat := ((c.connections id).map fun con => con.mpac.length).getD 0

def undecodedTotal (c : Core) : Nat := ((List.range c.nextConId).map c.undecoded).sum

/-- The queue of the loop that runs on this stack. -/
def headQueue : List Frame → Option Nat
  | .call _ target _ _ _ :: _ => some target
  | _ => none

/-- What the frames weigh. A `uv_run` weighs more than the start of the loop that it returns to; so does
the drain of a queue that is not the one of the loop. -/
def stackWeight : List Frame → Nat
  | [] => 0
  | .poll :: rest => 3 + stackWeight rest
  | .drain queue :: rest => (if queue = headQueue rest then 1 else 4) + stackWeight rest
  | _ :: rest => 1 + stackWeight rest

/-- Whether a call has not been answered yet. -/
def unanswered (c : Core) (cinfo : Nat) : Bool := !(c.calls[cinfo]?).any fun info => info.returned

/-- Whether the next move starts a loop. -/
def loops (c : Core) : Bool :=
  match c.stack with
  | [] => true
  | .call _ _ cinfo _ _ :: _ => c.unanswered cinfo
  | _ => false

/-- The work left. -/
def work (c : Core) : Nat :=
  7 * c.undecodedTotal + 4 * c.queue.length + stackWeight c.stack + if c.loops then 2 else 0

/-- The thread waits: the loop that the next move starts finds no event in its queue. -/
inductive Waits (c : Core) : Prop
  | main (hs : c.stack = []) (hq : c.queue = [])
  | call {e : RequestEvent} {target cinfo : Nat} {kind : CallKind} {callid : UInt64} {below : List Frame}
      (hs : c.stack = .call e target cinfo kind callid :: below) (hr : c.unanswered cinfo = true)
      (hq : takeEvent (some target) c.queue = none)

/-! ## §2 What adds no work -/

/-- No event, no bytes and no frame are added. -/
structure Settles (c c' : Core) : Prop where
  nextConId : c'.nextConId = c.nextConId
  stack : c'.stack = c.stack
  queue : c'.queue.length ≤ c.queue.length
  undecoded : ∀ id, c'.undecoded id ≤ c.undecoded id

variable {W : World} {c c' d : Core} {id : Nat} {con con' : Connection}

theorem settles_of_eq (hnext : c'.nextConId = c.nextConId) (hstack : c'.stack = c.stack)
    (hqueue : c'.queue = c.queue) (hconns : c'.connections = c.connections) : Settles c c' := by
  refine ⟨hnext, hstack, by rw [hqueue], fun id => ?_⟩
  unfold undecoded
  rw [hconns]

theorem Settles.refl (c : Core) : Settles c c := settles_of_eq rfl rfl rfl rfl

theorem Settles.trans (h : Settles c c') (h' : Settles c' d) : Settles c d :=
  ⟨h'.nextConId.trans h.nextConId, h'.stack.trans h.stack, h'.queue.trans h.queue,
    fun id => (h'.undecoded id).trans (h.undecoded id)⟩

/-- What runs after a computation that adds no work adds none to what there was at its start. -/
theorem Settles.ends (h : Settles c c') {x : Except Core Core} (hx : Ends (Settles c') (fun _ => True) x) :
    Ends (Settles c) (fun _ => True) x := by
  cases x with
  | ok d => exact h.trans hx
  | error d => trivial

theorem undecoded_setConnection (c : Core) (id : Nat) (con : Connection) :
    (c.setConnection id con).undecoded id = con.mpac.length := by
  unfold undecoded
  rw [setConnection_self]
  rfl

theorem undecoded_of_some (hc : c.connections id = some con) : c.undecoded id = con.mpac.length := by
  unfold undecoded
  rw [hc]
  rfl

theorem undecoded_ne {i : Nat} (hi : i ≠ id) : (c.setConnection id con).undecoded i = c.undecoded i := by
  unfold undecoded
  rw [setConnection_ne con hi]

theorem settles_setConnection (hc : c.connections id = some con)
    (hm : con'.mpac.length ≤ con.mpac.length) : Settles c (c.setConnection id con') := by
  refine ⟨rfl, rfl, le_rfl, fun i => ?_⟩
  by_cases hi : i = id
  · subst hi
    rw [undecoded_setConnection, undecoded_of_some hc]
    exact hm
  · rw [undecoded_ne hi]

theorem settles_modify (c : Core) (id : Nat) {f : Connection → Connection}
    (hf : ∀ con, (f con).mpac = con.mpac) : Settles c (c.modify id f) := by
  unfold modify
  split
  · rename_i con hc
    exact settles_setConnection hc (by rw [hf])
  · exact Settles.refl c

theorem settles_decref (c : Core) (id : Nat) : Settles c (c.decref id) := by
  unfold decref
  split
  · rename_i con hc
    split
    · refine ⟨rfl, rfl, List.length_filter_le _ _, fun i => ?_⟩
      show (((if i = id then none else c.connections i).map fun con => con.mpac.length).getD 0) ≤ _
      split
      · exact Nat.zero_le _
      · exact le_rfl
    · exact settles_setConnection hc le_rfl
  · exact Settles.refl c

theorem Notified.settles (h : Notified c c') : Settles c c' := by
  refine ⟨by rw [h.same], by rw [h.same], by rw [h.same], fun id => ?_⟩
  have hrel := h.connections id
  unfold undecoded
  generalize c.connections id = x at hrel ⊢
  generalize c'.connections id = y at hrel ⊢
  cases hrel with
  | none => exact le_rfl
  | some hab =>
      rw [hab.same]
      exact le_rfl

theorem settles_written (r : WriteResult) (w : Write) (hc : c.connections w.con = some con) :
    Settles c (c.written con r w) := by
  have hset : Settles c (c.setConnection w.con { con with tunnel := afterWrite con.tunnel r }) :=
    settles_setConnection hc le_rfl
  exact hset.trans (settles_of_eq rfl rfl rfl rfl)

theorem settles_cryptoWrite (c : Core) (id : Nat) (data : List MsgpackObject) (cause : Cause) :
    Ends (fun x => Settles c x.1) (fun _ => True) (c.cryptoWrite W id data cause) := by
  have hmove := cryptoWrite_move (W := W) c id data cause
  generalize c.cryptoWrite W id data cause = x at hmove ⊢
  cases hmove with
  | returned sent bytes env hc hl => exact settles_written _ _ hc
  | exited bytes env hc hl => trivial
  | lost w hid hsent hw => trivial

theorem settles_sendError (c : Core) (id : Nat) (msgid : UInt64) (err : String) (cause : Cause) :
    Ends (Settles c) (fun _ => True) (c.sendError W id msgid err cause) := by
  unfold sendError
  refine Ends.bind (settles_cryptoWrite _ id _ cause) ?_
  rintro ⟨d, sent⟩ hd
  have hpack : Settles c (c.pack (serializeResponse msgid (some (validationError err)) .nil)) :=
    settles_of_eq rfl rfl rfl rfl
  exact (hpack.trans hd).trans (settles_of_eq rfl rfl rfl rfl)

theorem settles_broadcastEvent (c : Core) (name : Option Bytes) (args : List Object) :
    Ends (Settles c) (fun _ => True) (broadcastEvent W c name args) := by
  cases hb : broadcastEvent W c name args with
  | error d => trivial
  | ok c' =>
      rcases broadcastEvent_cases hb with rfl | ⟨n, d, _, hd, rfl⟩
      · exact Settles.refl c'
      · have hraise : Settles c (c.raise (cstr n) args) := settles_of_eq rfl rfl rfl rfl
        exact (hraise.trans (notified_notify hd).settles).trans (settles_of_eq rfl rfl rfl rfl)

theorem settles_respond (c : Core) (e : RequestEvent) (r : Reply) :
    Ends (Settles c) (fun _ => True) (respond W c e r) := by
  unfold respond
  split
  · exact settles_decref c e.con
  · refine Ends.bind (settles_cryptoWrite _ e.con _ _) ?_
    rintro ⟨d, sent⟩ hd
    have hpack : Settles c (c.pack (serializeResponse e.msgid r.error r.result)) :=
      settles_of_eq rfl rfl rfl rfl
    have hclear : Settles d d.clear := settles_of_eq rfl rfl rfl rfl
    exact ((hpack.trans hd).trans hclear).trans (settles_decref _ _)

theorem settles_acknowledge (c : Core) (e : RequestEvent) (kind : CallKind) (callid : UInt64)
    (result : Object) (error : Option ApiError) :
    Ends (Settles c) (fun _ => True) (acknowledge W c e kind callid result error) := by
  unfold acknowledge
  dsimp only
  split
  · have hdeliver : Settles c (c.deliver callid) := settles_of_eq rfl rfl rfl rfl
    exact hdeliver.ends (settles_respond _ e _)
  · exact settles_respond c e _

theorem settles_connectionSubscribe (c : Core) (id : Nat) (event : Bytes) :
    Settles c (c.connectionSubscribe id event) := by
  unfold connectionSubscribe
  dsimp only
  have hmod : ∀ d : Core, Settles d (d.modify id fun con =>
      if con.subscribedEvents.names.contains event then con
      else { con with subscribedEvents := ⟨true, con.subscribedEvents.names ++ [event]⟩ }) := by
    intro d
    refine settles_modify d id fun con => ?_
    split <;> rfl
  split
  · exact hmod c
  · refine Settles.trans ?_ (hmod _)
    exact settles_of_eq rfl rfl rfl rfl

theorem settles_unsubscribe (c : Core) (id : Nat) (event : Bytes) :
    Ends (Settles c) (fun _ => True) (c.unsubscribe id event) := by
  unfold unsubscribe
  split
  · dsimp only
    have hmod : Settles c (c.modify id fun con => { con with
        subscribedEvents := { con.subscribedEvents with
          names := con.subscribedEvents.names.filter (· != event) } }) := settles_modify c id fun _ => rfl
    split
    · exact hmod
    · exact hmod.trans (settles_of_eq rfl rfl rfl rfl)
  · split
    · trivial
    · exact Settles.refl c

theorem settles_closeReturned (c : Core) (id : Nat) : Settles c (c.closeReturned id) := by
  have hmod : Settles c (c.modify id fun con => { con with released := true }) :=
    settles_modify c id fun _ => rfl
  exact (hmod.trans (settles_decref _ _)).trans (settles_decref _ _)

theorem settles_flush (h : flushNotifications W c id con = .ok c') : Settles c c' :=
  (notified_flush h).settles

/-- Nothing is added, or a call that waits. -/
inductive Handles (c c' : Core) : Prop
  | done (h : Settles c c')
  | called (e : RequestEvent) (target cinfo : Nat) (kind : CallKind) (callid : UInt64)
      (hs : c'.stack = .call e target cinfo kind callid :: c.stack)
      (h : Settles c { c' with stack := c.stack })

theorem Settles.handles (h : Settles c c') {x : Except Core Core}
    (hx : Ends (Handles c') (fun _ => True) x) : Ends (Handles c) (fun _ => True) x := by
  cases x with
  | error d => trivial
  | ok d =>
      cases hx with
      | done hd => exact .done (h.trans hd)
      | called e target cinfo kind callid hs hd =>
          refine .called e target cinfo kind callid (by rw [hs, h.stack]) ?_
          rw [h.stack] at hd
          exact h.trans hd

theorem handles_of_settles {x : Except Core Core} (hx : Ends (Settles c) (fun _ => True) x) :
    Ends (Handles c) (fun _ => True) x := by
  cases x with
  | error d => trivial
  | ok d => exact .done hx

theorem handles_connectionSendRequest (c : Core) (e : RequestEvent) (kind : CallKind) (callid : UInt64)
    (pluginkey : Bytes) (request : List Object) :
    Ends (Handles c) (fun _ => True) (connectionSendRequest W c e kind callid pluginkey request) := by
  unfold connectionSendRequest
  split
  · exact handles_of_settles (settles_acknowledge c e kind callid _ _)
  · rename_i id hkey
    split
    · exact handles_of_settles (settles_acknowledge c e kind callid _ _)
    · rename_i con hc
      have hset : Settles c (c.setConnection id { con with
          refcount := con.refcount + 1
          msgid := con.msgid + 1 }) := settles_setConnection hc le_rfl
      refine Ends.bind (settles_cryptoWrite _ id _ _) ?_
      rintro ⟨d, sent⟩ hd
      have hpack : Settles c ((c.setConnection id { con with
          refcount := con.refcount + 1
          msgid := con.msgid + 1 }).pack (serializeRequest con.msgid.toUInt64 kind.method request)) :=
        hset.trans (settles_of_eq rfl rfl rfl rfl)
      have hd' : Settles c d := hpack.trans hd
      dsimp only
      split
      · have hnote : Settles c (d.note [.finished id con.msgid.toUInt64 none .nil]) :=
          hd'.trans (settles_of_eq rfl rfl rfl rfl)
        exact handles_of_settles (hnote.ends (settles_acknowledge _ e kind callid _ _))
      · have hclear : Settles c d.clear := hd'.trans (settles_of_eq rfl rfl rfl rfl)
        have hpush : Settles d.clear (d.clear.pushCallinfo id con.msgid.toUInt64) := by
          unfold pushCallinfo
          refine Settles.trans (settles_modify d.clear id fun _ => ?_) (settles_of_eq rfl rfl rfl rfl)
          rfl
        have hall := hclear.trans hpush
        refine .called e id d.clear.calls.length kind callid ?_ ?_
        · show _ :: (d.clear.pushCallinfo id con.msgid.toUInt64).stack = _
          rw [hall.stack]
        · exact hall.trans (settles_of_eq rfl hall.stack.symm rfl rfl)

/-- **A handler adds at most one call.** -/
theorem handles_connectionRequestEvent (c : Core) (e : RequestEvent) :
    Ends (Handles c) (fun _ => True) (connectionRequestEvent W c e) := by
  unfold connectionRequestEvent
  split
  · trivial
  rename_i con hc
  have hinv : Settles c { c with invoked := c.invoked ++ [(e.tag, e.func)] } :=
    settles_of_eq rfl rfl rfl rfl
  refine hinv.handles ?_
  dsimp only
  split
  · exact handles_of_settles (settles_respond _ e _)
  · split
    · trivial
    · exact handles_of_settles (settles_respond _ e _)
  · refine handles_of_settles (Ends.bind (settles_broadcastEvent _ _ _) ?_)
    intro d hd
    exact hd.ends (settles_respond d e _)
  · split
    · trivial
    · exact handles_of_settles ((settles_connectionSubscribe _ e.con _).ends (settles_respond _ e _))
  · split
    · trivial
    · refine handles_of_settles (Ends.bind (settles_unsubscribe _ e.con _) ?_)
      intro d hd
      exact hd.ends (settles_respond d e _)
  · rename_i callid target verify request heff
    have hput : Settles { c with invoked := c.invoked ++ [(e.tag, e.func)] }
        ({ c with invoked := c.invoked ++ [(e.tag, e.func)] }.putCallid callid e.con) :=
      settles_of_eq rfl rfl rfl rfl
    split
    · trivial
    · exact handles_of_settles (hput.ends (settles_respond _ e _))
    · exact hput.handles (handles_connectionSendRequest _ e .run callid target request)
  · split
    · exact handles_of_settles (settles_respond _ e _)
    · split
      · trivial
      · exact handles_connectionSendRequest _ e .result _ _ _
  · trivial

theorem settles_finishCall (c : Core) (e : RequestEvent) (target cinfo : Nat) (kind : CallKind)
    (callid : UInt64) : Ends (Settles c) (fun _ => True) (finishCall W c e target cinfo kind callid) := by
  unfold finishCall
  split
  · rename_i con info hc hi
    have hpop : Settles c (c.setConnection target (popped con)) := settles_setConnection hc le_rfl
    have hflush : Ends (Settles c) (fun _ => True)
        (flushNotifications W (c.setConnection target (popped con)) target (popped con)) := by
      cases hf : flushNotifications W (c.setConnection target (popped con)) target (popped con) with
      | error d => trivial
      | ok d => exact hpop.trans (settles_flush hf)
    refine Ends.bind hflush ?_
    intro d hd
    have hnote : ∀ os, Settles c ((d.decref target).note os) := fun os =>
      (hd.trans (settles_decref d target)).trans (settles_of_eq rfl rfl rfl rfl)
    dsimp only
    split
    · exact (hnote _).ends (settles_acknowledge _ e kind callid _ _)
    · exact (hnote _).ends (settles_acknowledge _ e kind callid _ _)
  · trivial

/-! ## §3 Every move makes the work smaller -/

theorem Settles.total (h : Settles c c') : c'.undecodedTotal ≤ c.undecodedTotal := by
  unfold undecodedTotal
  rw [h.nextConId]
  exact List.sum_le_sum fun id _ => h.undecoded id

/-- The work that is not in the stack. -/
theorem Settles.amount (h : Settles c c') :
    7 * c'.undecodedTotal + 4 * c'.queue.length ≤ 7 * c.undecodedTotal + 4 * c.queue.length :=
  Nat.add_le_add (Nat.mul_le_mul_left 7 h.total) (Nat.mul_le_mul_left 4 h.queue)

/-- **A decoded message takes bytes.** -/
theorem unpacked_total {obj : MsgpackObject} {rest : Bytes}
    (hnext : ∀ bs obj rest, W.msgpack.next bs = .success obj rest → rest.length < bs.length)
    (hb : Balanced [] c) (hc : c.connections id = some con)
    (hn : W.msgpack.next con.mpac = .success obj rest) :
    (c.unpacked id con rest).undecodedTotal < c.undecodedTotal := by
  have hshort := hnext _ _ _ hn
  have hlt : id < c.nextConId := by
    by_contra hge
    rw [hb.fresh id (by omega)] at hc
    cases hc
  have hle : ∀ i, (c.unpacked id con rest).undecoded i ≤ c.undecoded i :=
    (@settles_setConnection _ _ _ { con with mpac := rest } hc (Nat.le_of_lt hshort)).undecoded
  refine List.sum_lt_sum _ _ (fun i _ => hle i) ⟨id, List.mem_range.mpr hlt, ?_⟩
  show (c.setConnection id { con with mpac := rest }).undecoded id < _
  rw [undecoded_setConnection, undecoded_of_some hc]
  exact hshort

/-- The loop that a move starts counts for two. -/
theorem work_le (c : Core) : c.work ≤
    7 * c.undecodedTotal + 4 * c.queue.length + stackWeight c.stack + 2 := by
  unfold work
  split <;> omega

theorem le_work (c : Core) :
    7 * c.undecodedTotal + 4 * c.queue.length + stackWeight c.stack ≤ c.work :=
  Nat.le_add_right _ _

theorem work_of_not_loops (h : c.loops = false) : c.work =
    7 * c.undecodedTotal + 4 * c.queue.length + stackWeight c.stack := by
  unfold work
  rw [h]
  rfl

theorem work_of_loops (h : c.loops = true) : c.work =
    7 * c.undecodedTotal + 4 * c.queue.length + stackWeight c.stack + 2 := by
  unfold work
  rw [h]
  rfl

theorem loops_of_uvRun (h : uvRun c.stack = true) : c.loops = false := by
  unfold loops
  split
  · rename_i hs
    rw [hs] at h
    cases h
  · rename_i hs
    rw [hs] at h
    cases h
  · rfl

theorem stackWeight_cons (f : Frame) (rest : List Frame) :
    1 + stackWeight rest ≤ stackWeight (f :: rest) := by
  cases f with
  | poll =>
      show _ ≤ 3 + _
      omega
  | drain queue =>
      show _ ≤ ite _ _ _ + _
      split <;> omega
  | _ => exact le_rfl

/-- A frame of `uv_run` or of `parse_cb` goes, and nothing is added. -/
theorem Settles.pop {f : Frame} {below : List Frame} (hs : c.stack = f :: below)
    (hu : uvRun below = true) (h : Settles { c with stack := below } c') : c'.work < c.work := by
  have hstack : c'.stack = below := h.stack
  have hamount := h.amount
  have hloops : c'.loops = false := loops_of_uvRun (by rw [hstack]; exact hu)
  have hle := le_work c
  have hf := stackWeight_cons f below
  rw [hs] at hle
  rw [work_of_not_loops hloops, hstack]
  change 7 * c'.undecodedTotal + 4 * c'.queue.length ≤ 7 * c.undecodedTotal + 4 * c.queue.length at hamount
  omega

theorem Handles.work_le (h : Handles c c') : c'.work ≤
    7 * c.undecodedTotal + 4 * c.queue.length + stackWeight c.stack + 3 := by
  have hup := Core.work_le c'
  cases h with
  | done h =>
      have hamount := h.amount
      rw [h.stack] at hup
      omega
  | called e target cinfo kind callid hs h =>
      have hamount := h.amount
      change 7 * c'.undecodedTotal + 4 * c'.queue.length ≤ _ at hamount
      have hweight : stackWeight (.call e target cinfo kind callid :: c.stack) = 1 + stackWeight c.stack :=
        rfl
      rw [hs, hweight] at hup
      omega

theorem takeEvent_length {q : Option Nat} {e : RequestEvent} : ∀ {queue left : List RequestEvent},
    takeEvent q queue = some (e, left) → left.length + 1 = queue.length
  | [], _, h => by cases h
  | x :: queue, left, h => by
      unfold takeEvent at h
      split at h
      · cases h
        rfl
      · obtain ⟨⟨e', left'⟩, ht, heq⟩ := Option.map_eq_some_iff.mp h
        cases heq
        rw [List.length_cons, List.length_cons, takeEvent_length ht]

/-- **An event is run.** The call that its handler may wait in weighs less than the event. -/
theorem Handles.work_lt {queue : Option Nat} {e : RequestEvent} {left : List RequestEvent}
    (ht : takeEvent queue c.queue = some (e, left)) (h : Handles { c with queue := left } c') :
    c'.work < c.work := by
  have hlen := takeEvent_length ht
  have hle := le_work c
  have hup := h.work_le
  change _ ≤ 7 * c.undecodedTotal + 4 * left.length + stackWeight c.stack + 3 at hup
  omega

/-- **A message is handled**: its event is queued, or its handler has run. -/
theorem work_connectionHandleRequest (c : Core) (id : Nat) (obj : MsgpackObject) :
    Ends (fun d => d.work ≤ 7 * c.undecodedTotal + 4 * c.queue.length + stackWeight c.stack + 6)
      (fun _ => True) (connectionHandleRequest W c id obj) := by
  unfold connectionHandleRequest
  split
  · trivial
  · rename_i v hv
    have hrefuse : Ends (Settles c) (fun _ => True) (refuseInvalid W c id v) := by
      unfold refuseInvalid
      split
      · exact settles_sendError c id _ _ _
      · exact Settles.refl c
    refine Ends.bind hrefuse ?_
    intro d hd
    unfold dispatchRequest
    split
    · trivial
    · rename_i dispatcher args hprep
      have hnew : Settles c (d.newRequest id ⟨id, obj, v.responseId⟩) := by
        have hrec : Settles d { d with received := d.received ++ [⟨id, obj, v.responseId⟩] } :=
          settles_of_eq rfl rfl rfl rfl
        exact (hd.trans hrec).trans (settles_modify _ id fun _ => rfl)
      dsimp only
      split
      · have hrun := hnew.handles (handles_connectionRequestEvent (W := W) _
          ⟨id, d.received.length, dispatcher.func, args, v.responseId⟩)
        generalize connectionRequestEvent W _ _ = x at hrun ⊢
        cases x with
        | error d => trivial
        | ok d' => exact hrun.work_le.trans (by omega)
      · have hamount := hnew.amount
        have hup := work_le { d.newRequest id ⟨id, obj, v.responseId⟩ with
          queue := (d.newRequest id ⟨id, obj, v.responseId⟩).queue ++
            [⟨id, d.received.length, dispatcher.func, args, v.responseId⟩] }
        change _ ≤ 7 * (d.newRequest id ⟨id, obj, v.responseId⟩).undecodedTotal +
          4 * ((d.newRequest id ⟨id, obj, v.responseId⟩).queue ++ _).length +
            stackWeight (d.newRequest id ⟨id, obj, v.responseId⟩).stack + 2 at hup
        rw [hnew.stack, List.length_append, List.length_singleton] at hup
        exact hup.trans (by omega)

/-- One round of the decode loop. -/
theorem work_parseObject {below : List Frame}
    (hnext : ∀ bs obj rest, W.msgpack.next bs = .success obj rest → rest.length < bs.length)
    (h : Ordered [] c) (hs : c.stack = .parse id :: below) (hc : c.connections id = some con) :
    Ends (fun d => d.work < c.work) (fun _ => True) (parseObject W { c with stack := below } id con) := by
  obtain ⟨hshape, hb⟩ := h
  have hu : uvRun below = true := by
    rw [hs] at hshape
    exact hshape.1
  have hle := le_work c
  have hweight : stackWeight c.stack = 1 + stackWeight below := by
    rw [hs]
    rfl
  unfold parseObject
  split
  · trivial
  split
  · exact (settles_decref { c with stack := below } id).pop hs hu
  · refine Ends.bind (settles_sendError { c with stack := below } id _ _ _) ?_
    intro d hd
    exact (hd.trans (settles_decref d id)).pop hs hu
  · rename_i obj rest hn
    have htotal := unpacked_total hnext hb hc hn
    have hun : Settles { c with stack := below } ({ c with stack := below }.unpacked id con rest) := by
      have hshort := hnext _ _ _ hn
      have hset : Settles { c with stack := below }
          ({ c with stack := below }.setConnection id { con with mpac := rest }) :=
        settles_setConnection hc (Nat.le_of_lt hshort)
      exact hset.trans (settles_of_eq rfl rfl rfl rfl)
    dsimp only
    split
    · rename_i msgid error result hresp
      split
      · rename_i cinfo hnewest
        refine Settles.pop hs hu (hun.trans (Settles.trans ?_ (settles_decref _ id)))
        exact settles_of_eq rfl rfl rfl rfl
      · -- the frame of `connection_close` weighs less than the message
        show work _ < _
        have herr : Settles { c with stack := below }
            (({ c with stack := below }.unpacked id con rest).callSetError con.callvector) :=
          hun.trans (settles_of_eq rfl rfl rfl rfl)
        unfold connectionClose
        split
        · exact herr.pop hs hu
        · split
          · exact (herr.trans (settles_decref _ id)).pop hs hu
          · rename_i con' hc' hopen
            generalize hd : ({ c with stack := below }.unpacked id con rest).callSetError con.callvector = d
              at hc' ⊢
            have hcalls : Settles (c.unpacked id con rest) { d with stack := c.stack } := by
              rw [← hd]
              exact settles_of_eq rfl rfl rfl rfl
            have hset := @settles_setConnection _ _ _ { con' with
              tunnel := { con'.tunnel with closed := true } } hc' le_rfl
            have hamount := (hcalls.amount).trans' hset.amount
            have hbelow : d.stack = below := by
              rw [← hd]
              rfl
            refine Nat.lt_of_le_of_lt (work_le _) ?_
            show 7 * _ + 4 * _ + stackWeight (.close id :: d.stack) + 2 < _
            have hclose : stackWeight (.close id :: d.stack) = 1 + stackWeight below := by
              rw [hbelow]
              rfl
            rw [hclose]
            change _ ≤ 7 * (c.unpacked id con rest).undecodedTotal + 4 * c.queue.length at hamount
            change 7 * (d.setConnection id _).undecodedTotal + 4 * (d.setConnection id _).queue.length ≤ _
              at hamount
            refine Nat.lt_of_le_of_lt (Nat.add_le_add_right (Nat.add_le_add_right hamount _) _) ?_
            omega
    · have hframe : { { c with stack := below }.unpacked id con rest with
          stack := .parse id :: ({ c with stack := below }.unpacked id con rest).stack } =
          c.unpacked id con rest := by
        simp only [Core.unpacked, setConnection, hs]
      rw [hframe]
      have hrun := work_connectionHandleRequest (W := W) (c.unpacked id con rest) id obj
      generalize connectionHandleRequest W (c.unpacked id con rest) id obj = x at hrun ⊢
      cases x with
      | error d => trivial
      | ok d =>
          refine Nat.lt_of_le_of_lt hrun ?_
          change 7 * _ + 4 * c.queue.length + stackWeight c.stack + 6 < _
          omega

/-- A loop is started, and the frame weighs less than its start. -/
theorem work_drain (hl : c.loops = true) :
    work { c with stack := .drain (headQueue c.stack) :: c.stack } < c.work := by
  have hdrain : loops { c with stack := .drain (headQueue c.stack) :: c.stack } = false := rfl
  rw [work_of_not_loops hdrain, work_of_loops hl]
  show 7 * c.undecodedTotal + 4 * c.queue.length + (ite _ _ _ + stackWeight c.stack) < _
  rw [if_pos rfl]
  omega

/-- **A move of the thread** makes the work smaller, or the thread waits. -/
theorem turn_work
    (hnext : ∀ bs obj rest, W.msgpack.next bs = .success obj rest → rest.length < bs.length)
    (h : Ordered [] c) (hw : ¬ Waits c) (ht : c.turn W = .ok c') : Waits c' ∨ c'.work < c.work := by
  have hshape := h.1
  unfold turn at ht
  cases hs : c.stack with
  | nil =>
      rw [hs] at ht
      have hl : c.loops = true := by
        unfold loops
        rw [hs]
      cases hq : c.queue with
      | nil => exact absurd (.main hs hq) hw
      | cons e es =>
          unfold loopProcessEvents at ht
          rw [hq] at ht
          cases ht
          have hlt := work_drain hl
          rw [hs] at hlt
          right
          rw [← hq, hs]
          exact hlt
  | cons f below =>
      rw [hs] at ht hshape
      have hle := le_work c
      have hcons := stackWeight_cons f below
      cases f with
      | poll =>
          cases ht
          right
          refine Nat.lt_of_le_of_lt (work_le _) ?_
          show 7 * c.undecodedTotal + 4 * c.queue.length + stackWeight below + 2 < _
          have hpoll : stackWeight c.stack = 3 + stackWeight below := by
            rw [hs]
            rfl
          omega
      | close id =>
          cases ht
          right
          exact (settles_closeReturned { c with stack := below } id).pop hs hshape.1
      | parse id =>
          dsimp only at ht
          split at ht
          · cases ht
          · rename_i con hc
            have hwork := work_parseObject hnext h hs hc
            rw [ht] at hwork
            exact Or.inr hwork
      | drain queue =>
          dsimp only at ht
          split at ht
          · rename_i hnone
            cases ht
            by_cases hq : queue = headQueue below
            · -- the loop finds nothing more, and its head waits or has been answered
              subst hq
              cases hshape.1 with
              | main =>
                  refine Or.inl (.main rfl ?_)
                  show c.queue = []
                  cases hq : c.queue with
                  | nil => rfl
                  | cons e es =>
                      rw [hq] at hnone
                      cases hnone
              | call e target cinfo kind callid rest =>
                  cases hr : c.unanswered cinfo with
                  | true => exact Or.inl (.call rfl hr hnone)
                  | false =>
                      right
                      have hl : loops { c with stack := .call e target cinfo kind callid :: rest } = false := hr
                      rw [work_of_not_loops hl]
                      show 7 * c.undecodedTotal + 4 * c.queue.length +
                        stackWeight (.call e target cinfo kind callid :: rest) < _
                      rw [hs] at hle
                      omega
            · right
              refine Nat.lt_of_le_of_lt (work_le _) ?_
              show 7 * c.undecodedTotal + 4 * c.queue.length + stackWeight below + 2 < _
              have hdrain : stackWeight c.stack = 4 + stackWeight below := by
                rw [hs]
                show ite _ _ _ + _ = _
                rw [if_neg hq]
              omega
          · rename_i e left htake
            have hrun := handles_connectionRequestEvent (W := W) { c with queue := left } e
            rw [hs, ht] at hrun
            rw [← hs] at hrun
            exact Or.inr (Handles.work_lt htake hrun)
      | call e target cinfo kind callid =>
          dsimp only at ht
          split at ht
          · have hfinish := settles_finishCall (W := W) { c with stack := below } e target cinfo kind callid
            rw [ht] at hfinish
            obtain ⟨queue, rest, hbelow⟩ := hshape.1
            have hstack : c'.stack = below := hfinish.stack
            have hl : c'.loops = false := by
              unfold loops
              rw [hstack, hbelow]
            have hamount := hfinish.amount
            change _ ≤ 7 * c.undecodedTotal + 4 * c.queue.length at hamount
            right
            rw [work_of_not_loops hl, hstack]
            rw [hs] at hle
            omega
          · rename_i hr
            have hr : c.unanswered cinfo = true := by
              unfold unanswered
              rw [Bool.not_eq_true']
              exact Bool.eq_false_of_not_eq_true hr
            have hl : c.loops = true := by
              unfold loops
              rw [hs]
              exact hr
            cases htake : takeEvent (some target) c.queue with
            | none => exact absurd (.call hs hr htake) hw
            | some x =>
                unfold loopProcessEvents at ht
                rw [htake] at ht
                cases ht
                have hlt := work_drain hl
                rw [hs] at hlt
                right
                rw [hs]
                exact hlt

/-- **The thread comes to the end of its work**: it waits after finitely many moves, or the process has
ended. -/
theorem thread_waits
    (hnext : ∀ bs obj rest, W.msgpack.next bs = .success obj rest → rest.length < bs.length)
    (h : Ordered [] c) (hrun : c.halt = none) :
    ∃ n c', exec (Core.step W) c (List.replicate n .turn) = some c' ∧ (c'.halt ≠ none ∨ Waits c') := by
  refine exec_of_measure (I := fun c => Ordered [] c ∧ c.halt = none)
    (Q := fun c => c.halt ≠ none ∨ Waits c) work ?_ (c.work + 1) (Nat.lt_succ_self _) ⟨h, hrun⟩
  rintro c ⟨hord, hhalt⟩ hwait
  have hstep : c.step W .turn = some (settle (c.turn W)) := by
    unfold Core.step
    rw [hhalt]
    rfl
  refine ⟨_, hstep, ?_⟩
  by_cases hend : (settle (c.turn W)).halt = none
  · rcases hord.step hstep with ⟨hord', _⟩ | ⟨_, hend'⟩
    · cases ht : c.turn W with
      | error d =>
          have hd := @At.turn W c
          rw [ht] at hd hend
          exact absurd hend (hord.died hd)
      | ok d =>
          rw [ht] at hord' hend
          rcases turn_work hnext hord (fun hw => hwait (Or.inr hw)) ht with hw | hlt
          · exact Or.inl (Or.inr hw)
          · exact Or.inr ⟨⟨hord', hend⟩, hlt⟩
    · exact absurd hend hend'
  · exact Or.inl (Or.inl hend)

end Core

end SploneBox
