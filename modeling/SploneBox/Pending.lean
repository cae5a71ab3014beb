/-
# SploneBox.Pending — which calls are pending.

`handle_run` enters its `callid` before it knows anything: then come the two questions to the database, the
registry, the write, and the wait for the acknowledgement, with the event loop inside. Each of them can end
the handler with an error, and none of these ends takes the entry back. What a move does to a call is a
`CallMove`; the table follows it one way (`CallMove.table`), the account of the calls that have been made,
have not failed and have not been answered follows it another way (`CallMove.account`). `pending_calls_iff`
says along which runs the two are the same.
-/
import SploneBox.Callids
import SploneBox.Gate

namespace SploneBox

open Lib.Machine

/-! ## §1 The account -/

/-- What a move does to a call: the request goes out, for the connection `owner`; it is dropped, after its
`callid` has been made; the plugin acknowledges it, or it fails; its result has been handed over. -/
inductive CallMove where
  | called (callid : UInt64) (owner : Nat)
  | dropped (callid : UInt64) (owner : Nat)
  | acknowledged (callid : UInt64)
  | failed (callid : UInt64)
  | answered (callid : UInt64)

/-- A call that has been made: the connection whose request has made it, and whether the plugin has
acknowledged it. -/
structure PendingCall where
  owner : Nat
  acknowledged : Bool

/-- What the code does to `callids`. -/
def CallMove.table (callids : UInt64 → Option Nat) : CallMove → UInt64 → Option Nat
  | .called callid owner => Function.update callids callid (some owner)
  | .dropped callid owner => Function.update callids callid (some owner)
  | .acknowledged _ => callids
  | .failed _ => callids
  | .answered callid => Function.update callids callid none

/-- **The account of pending calls**: a call is on it from the moment it goes out, until it fails or is
answered. -/
def CallMove.account (account : UInt64 → Option PendingCall) : CallMove → UInt64 → Option PendingCall
  | .called callid owner => Function.update account callid (some ⟨owner, false⟩)
  | .dropped _ _ => account
  | .acknowledged callid =>
      Function.update account callid ((account callid).map fun call => { call with acknowledged := true })
  | .failed callid => Function.update account callid none
  | .answered callid => Function.update account callid none

namespace Core

/-- `crypto_write` returns 0: the stream is there, and the nonce, the memory and the write are got. -/
def writes (W : World) (c : Core) (con : Connection) (data : List MsgpackObject) : Bool :=
  !con.released &&
    match (SploneBox.cryptoWrite W.server con.tunnel.cc (data.flatMap W.msgpack.pack)
      (W.writes c.trace.length)).outcome with
    | .sent _ => true
    | _ => false

/-- The request goes out: the plugin is connected, and the buffer is written to it. -/
def sends (W : World) (c : Core) (kind : CallKind) (key : Bytes) (request : List Object) : Bool :=
  (c.pluginkeys key).any fun id => (c.connections id).any fun con =>
    c.writes W con (c.sbuf ++ [serializeRequest con.msgid.toUInt64 kind.method request])

/-- What a request that is taken from the queue does. -/
def requestMove (W : World) (c : Core) (e : RequestEvent) : Option CallMove :=
  match e.func.call (W.handlers e.tag) e.args with
  | .run callid key (.ok none) request =>
      if c.sends W .run key request then some (.called callid e.con) else some (.dropped callid e.con)
  | .run callid _ _ _ => some (.dropped callid e.con)
  | _ => none

/-- What the return from a call does: the answer is the acknowledgement when it is the array of the `callid`. -/
def returnMove (W : World) (kind : CallKind) (callid : UInt64) (info : Callinfo) : Option CallMove :=
  let done := !info.errored && (SploneBox.acknowledged kind callid (asArray W info.result) none).error.isNone
  match kind with
  | .run => if done then some (.acknowledged callid) else some (.failed callid)
  | .result => if done then some (.answered callid) else none

/-- What the next move does to a call. -/
def callMove (W : World) (c : Core) : Label → Option CallMove
  | .turn =>
      match c.stack with
      | .drain queue :: _ => (takeEvent queue c.queue).bind fun x => c.requestMove W x.1
      | .call _ _ cinfo kind callid :: _ =>
          (c.calls[cinfo]?).bind fun info => if info.returned then returnMove W kind callid info else none
      | _ => none
  | _ => none

end Core

/-- A core and the account of its calls. -/
structure Accounted where
  core : Core
  account : UInt64 → Option PendingCall

/-- One move, and what it does to the account. -/
def Accounted.step (W : World) (s : Accounted) (l : Label) : Option Accounted :=
  (s.core.step W l).map fun core => ⟨core, (s.core.callMove W l).elim s.account (CallMove.account s.account)⟩

/-- The core after `connection_init`: nobody has called. -/
def Accounted.init : Accounted := ⟨Core.init, fun _ => none⟩

/-- A call that waits for its acknowledgement. -/
def Frame.runs : Frame → Option UInt64
  | .call _ _ _ .run callid => some callid
  | _ => none

namespace Core

/-- The `callid`s whose `handle_run` has not returned. -/
def awaited (stack : List Frame) : List UInt64 := stack.filterMap Frame.runs

theorem awaited_callFrames (stack : List Frame) : awaited (callFrames stack) = awaited stack := by
  unfold awaited callFrames
  rw [List.filterMap_filter]
  congr 1
  funext f
  cases f <;> rfl

end Core

/-- **The table and the account agree**, and a call that is not acknowledged has its handler on the stack. -/
structure Accounted.Settled (s : Accounted) : Prop where
  table : ∀ callid, s.core.callids callid = (s.account callid).map PendingCall.owner
  awaited : ∀ callid call, s.account callid = some call → call.acknowledged = false →
      callid ∈ Core.awaited s.core.stack

/-- The moves that leave no entry behind: a request is dropped when its `callid` has been the caller's before,
a call fails when its `callid` has been answered. -/
def CallMove.Settles (callids : UInt64 → Option Nat) : CallMove → Prop
  | .dropped callid owner => callids callid = some owner
  | .failed callid => callids callid = none
  | _ => True

/-- **The moves after which the account holds**: a request whose `callid` has been made goes out, and a call
is acknowledged. -/
def Core.SettlesCalls (W : World) (c : Core) (l : Label) : Prop := ∀ m ∈ c.callMove W l, m.Settles c.callids

/-! ## §2 The two updates -/

/-- **One move keeps the table and the account together** exactly when it settles. -/
theorem CallMove.agree_iff {callids : UInt64 → Option Nat} {account : UInt64 → Option PendingCall}
    (h : ∀ i, callids i = (account i).map PendingCall.owner) (m : CallMove) :
    (∀ i, m.table callids i = (m.account account i).map PendingCall.owner) ↔ m.Settles callids := by
  cases m with
  | called callid owner =>
      refine ⟨fun _ => trivial, fun _ i => ?_⟩
      show Function.update callids callid (some owner) i =
          (Function.update account callid (some ⟨owner, false⟩) i).map _
      rw [Function.update_apply, Function.update_apply]
      split
      · rfl
      · exact h i
  | dropped callid owner =>
      show (∀ i, Function.update callids callid (some owner) i = (account i).map _) ↔
          callids callid = some owner
      constructor
      · intro hall
        rw [h callid, ← hall callid, Function.update_self]
      · intro hsame i
        rw [Function.update_apply, ← h i]
        split
        · rename_i hi
          rw [hi, hsame]
        · rfl
  | acknowledged callid =>
      refine ⟨fun _ => trivial, fun _ i => ?_⟩
      show callids i = (Function.update account callid _ i).map _
      rw [Function.update_apply, h i]
      split
      · rename_i hi
        rw [hi, Option.map_map]
        rfl
      · rfl
  | failed callid =>
      show (∀ i, callids i = (Function.update account callid none i).map _) ↔ callids callid = none
      constructor
      · intro hall
        rw [hall callid, Function.update_self]
        rfl
      · intro hnone i
        rw [Function.update_apply]
        split
        · rename_i hi
          rw [hi, hnone]
          rfl
        · exact h i
  | answered callid =>
      refine ⟨fun _ => trivial, fun _ i => ?_⟩
      show Function.update callids callid none i = (Function.update account callid none i).map _
      rw [Function.update_apply, Function.update_apply]
      split
      · rfl
      · exact h i

namespace Core

/-! ## §3 What leaves the calls alone -/

/-- The table is the same, and so are the calls on the stack. -/
structure Leaves (c c' : Core) : Prop where
  callids : c'.callids = c.callids
  frames : callFrames c'.stack = callFrames c.stack

theorem Leaves.refl (c : Core) : Leaves c c := ⟨rfl, rfl⟩

theorem Leaves.trans {c c' d : Core} (h : Leaves c c') (h' : Leaves c' d) : Leaves c d :=
  ⟨h'.callids.trans h.callids, h'.frames.trans h.frames⟩

theorem Passes.leaves {D : Nat → Prop} {c c' : Core} (h : Passes D c c') : Leaves c c' := ⟨h.callids, h.frames⟩

theorem Notified.leaves {c c' : Core} (h : Notified c c') : Leaves c c' := by
  constructor
  · rw [h.same]
  · rw [h.same]

theorem leaves_broadcast {W : World} {c c' : Core} {name : Option Bytes} {args : List Object}
    (hb : broadcastEvent W c name args = .ok c') : Leaves c c' := by
  rcases broadcastEvent_cases hb with rfl | ⟨n, d, _, hn, rfl⟩
  · exact Leaves.refl _
  · have hraise : Leaves c (c.raise (cstr n) args) := ⟨rfl, rfl⟩
    have hsent := hraise.trans (notified_notify hn).leaves
    exact ⟨hsent.callids, hsent.frames⟩

/-- The move handles no request that makes or answers a call, and no call returns in it. -/
structure Elsewhere (W : World) (c : Core) : Prop where
  request : ∀ e, Takes c e → enters W e = none ∧ resolves W e = none
  frame : ∀ e target cinfo kind callid below, c.stack ≠ .call e target cinfo kind callid :: below

section

variable {W : World} {c₀ c : Core} {l : Label} {k : List Hold}

theorem Elsewhere.not_asks {e : RequestEvent} {kind : CallKind} {callid : UInt64} {key : Bytes}
    (h : Elsewhere W c₀) (ht : Takes c₀ e) : ¬ Asks W c₀ e kind callid key := by
  rintro (heff | ⟨heff, howner, ho⟩)
  · have hnone := (h.request e ht).1
    rw [enters_run heff] at hnone
    cases hnone
  · have hnone := (h.request e ht).2
    simp [resolves, heff] at hnone

/-- **Only requests and returns touch the calls.** -/
theorem Leaves.at (ha : At W c₀ l k c) (h : Elsewhere W c₀) : Leaves c₀ c := by
  induction ha with
  | start => exact Leaves.refl c₀
  | pushLoop hs hf =>
      refine (passes_push (D := Anyone) _ ?_).leaves
      cases hf <;> rfl
  | popLoop hs hf =>
      refine (passes_pop (D := Anyone) hs ?_ fun _ _ => trivial).leaves
      cases hf <;> rfl
  | popParse hs => exact (passes_pop (D := Anyone) hs rfl fun _ _ => trivial).leaves
  | unpacked hs hc hn hr => exact (passes_unpacked (D := Anyone) hc _).leaves
  | @response id cinfo con below obj rest msgid error result hs hc hn hr hnew =>
      have hpop : Leaves c₀ { c₀ with stack := below } :=
        (passes_pop (D := Anyone) hs rfl fun _ _ => trivial).leaves
      exact ⟨rfl, hpop.frames⟩
  | @mismatch id con below obj rest msgid error result hs hc hn hr hnew =>
      have hpop : Leaves c₀ { c₀ with stack := below } :=
        (passes_pop (D := Anyone) hs rfl fun _ _ => trivial).leaves
      have hset : Leaves c₀ (({ c₀ with stack := below }.unpacked id con rest).callSetError con.callvector) :=
        ⟨rfl, hpop.frames⟩
      exact hset.trans (passes_connectionClose (D := Anyone) _ trivial).leaves
  | dequeue hs ht => exact ⟨rfl, rfl⟩
  | returned hs hc hi hr hf => exact absurd hs (h.frame _ _ _ _ _ _)
  | @closeReturned id below hs =>
      have hpop : Leaves c₀ { c₀ with stack := below } :=
        (passes_pop (D := Anyone) hs rfl fun _ _ => trivial).leaves
      exact hpop.trans (passes_closeReturned (D := Anyone) _ trivial).leaves
  | read hc hu hl hfit hab => exact (passes_readCb (D := Anyone) hc (fun _ => trivial) hab).leaves
  | eof hc hu hl => exact (passes_eofCb (D := Anyone) hc trivial).leaves
  | create hu => exact ⟨rfl, rfl⟩
  | tick hc ho => exact ⟨rfl, rfl⟩
  | decref _ ih => exact ih.trans (passes_decref (D := Anyone) _ _).leaves
  | error sent bytes env _ hh hc hl hcause ih => exact ih.trans ⟨rfl, rfl⟩
  | newRequest _ hp hv hprep ih => exact ih.trans (passes_newRequest (D := Anyone) _ _ _).leaves
  | enqueue _ ih => exact ih.trans ⟨rfl, rfl⟩
  | invoke _ ih => exact ih.trans ⟨rfl, rfl⟩
  | subscribe event _ hc ho ih => exact ih.trans (passes_connectionSubscribe (D := Anyone) _ _ _).leaves
  | unsubscribe _ hu ih => exact ih.trans (passes_unsubscribe (D := Anyone) hu).leaves
  | broadcast _ hn hf hb ih => exact ih.trans (leaves_broadcast hb)
  | putCallid _ ht heff hids hconns ih =>
      have hnone := (h.request _ ht).1
      rw [enters_run heff] at hnone
      cases hnone
  | answer sent bytes env _ hm hc hl ih => exact ih.trans ⟨rfl, rfl⟩
  | silent _ hm ih => exact ih.trans (passes_decref (D := Anyone) _ _).leaves
  | target _ ht ha hs hkey hc ih => exact absurd ha (h.not_asks ht)
  | unsent msgid bytes env _ ht ha hkey hc hl ih => exact absurd ha (h.not_asks ht)
  | wait msgid request bytes env _ ht ha hkey hs hids hc hl ih => exact absurd ha (h.not_asks ht)
  | finished _ hs hi hr hout hrec htrace ih => exact absurd hs (h.frame _ _ _ _ _ _)
  | deliver _ hr hids ih =>
      cases hr with
      | now ht ha hs => exact absurd ha (h.not_asks ht)
      | later hs => exact absurd hs (h.frame _ _ _ _ _ _)

end

/-! ## §4 Requests and returns -/

section

variable {W : World}

/-- What runs behind a part that leaves the calls alone. -/
theorem Leaves.ends {α : Type} {c c' : Core} (h : Leaves c c') {f : α → Core} {x : Except Core α}
    (hx : Ends (fun a => Leaves c' (f a)) (fun _ => True) x) : Ends (fun a => Leaves c (f a))
    (fun _ => True) x := by
  cases x with
  | ok a => exact h.trans hx
  | error d => trivial

theorem cryptoWrite_leaves (c : Core) (id : Nat) (data : List MsgpackObject) (cause : Cause) :
    Ends (fun x => Leaves c x.1) (fun _ => True) (c.cryptoWrite W id data cause) := by
  have hmove := cryptoWrite_move (W := W) c id data cause
  generalize c.cryptoWrite W id data cause = x at hmove ⊢
  cases hmove with
  | returned sent bytes env hc hl => exact ⟨rfl, rfl⟩
  | exited bytes env hc hl => trivial
  | lost w hid hsent hw hdata hcause => trivial

theorem decref_leaves (c : Core) (id : Nat) : Leaves c (c.decref id) :=
  (passes_decref (D := Anyone) c id).leaves

theorem respond_leaves (c : Core) (e : RequestEvent) (r : Reply) : Ends (Leaves c) (fun _ => True)
    (respond W c e r) := by
  unfold respond
  split
  · exact decref_leaves c e.con
  · have hpack : Leaves c (c.pack (serializeResponse e.msgid r.error r.result)) := ⟨rfl, rfl⟩
    refine Ends.bind (hpack.ends (cryptoWrite_leaves _ e.con _ (.response e.tag))) ?_
    rintro ⟨c', sent⟩ hc'
    have hclear : Leaves c c'.clear := ⟨hc'.callids, hc'.frames⟩
    exact hclear.trans (decref_leaves c'.clear e.con)

/-- An answer that is not the acknowledgement of a result leaves the entry in the table. -/
theorem acknowledge_leaves (c : Core) (e : RequestEvent) {kind : CallKind} {callid : UInt64} {result : Object}
    {error : Option ApiError}
    (h : ¬ (kind = .result ∧
      (SploneBox.acknowledged kind callid (asArray W result) error).error.isNone = true)) :
    Ends (Leaves c) (fun _ => True) (acknowledge W c e kind callid result error) := by
  unfold acknowledge
  dsimp only
  rw [if_neg h]
  exact respond_leaves c e _

theorem acknowledged_error (kind : CallKind) (callid : UInt64) (items : List Object) (err : ApiError) :
    (SploneBox.acknowledged kind callid items (some err)).error.isNone = false := rfl

/-- Nothing is no acknowledgement. -/
theorem acknowledged_empty (kind : CallKind) (callid : UInt64) :
    (SploneBox.acknowledged kind callid (asArray W .nil) none).error.isNone = false := rfl

/-- `crypto_write` where it returns 0. -/
theorem cryptoWrite_writes {c : Core} {id : Nat} {con : Connection} {data : List MsgpackObject} (cause : Cause)
    (hc : c.connections id = some con) (h : c.writes W con data = true) :
    ∃ c', c.cryptoWrite W id data cause = .ok (c', true) ∧ Leaves c c' := by
  unfold writes at h
  obtain ⟨hl, hsent⟩ := (Bool.and_eq_true _ _).mp h
  rw [Bool.not_eq_true'] at hl
  unfold cryptoWrite
  rw [hc]
  simp only [hl]
  split at hsent
  · rename_i packet hout
    rw [hout]
    exact ⟨_, rfl, rfl, rfl⟩
  · cases hsent

/-- `crypto_write` where it does not. -/
theorem cryptoWrite_fails {c : Core} {id : Nat} {con : Connection} {data : List MsgpackObject} (cause : Cause)
    (hc : c.connections id = some con) (h : c.writes W con data = false) :
    Ends (fun x => x.2 = false ∧ Leaves c x.1) (fun _ => True) (c.cryptoWrite W id data cause) := by
  unfold writes at h
  unfold cryptoWrite
  rw [hc]
  dsimp only
  split
  · trivial
  · rename_i hl
    rw [Bool.eq_false_of_not_eq_true hl] at h
    split
    · rename_i packet hout
      rw [hout] at h
      cases h
    · exact ⟨rfl, rfl, rfl⟩
    · trivial

/-- A request that does not go out ends its handler, with an error, at once. -/
theorem connectionSendRequest_unsent {c : Core} (e : RequestEvent) {kind : CallKind} (callid : UInt64)
    {key : Bytes} {request : List Object} (h : c.sends W kind key request = false) :
    Ends (Leaves c) (fun _ => True) (connectionSendRequest W c e kind callid key request) := by
  unfold sends at h
  cases hkey : c.pluginkeys key with
  | none =>
      unfold connectionSendRequest
      rw [hkey]
      exact acknowledge_leaves c e (by simp [acknowledged_error])
  | some id =>
      rw [hkey, Option.any_some] at h
      cases hc : c.connections id with
      | none =>
          unfold connectionSendRequest
          rw [hkey]
          dsimp only
          rw [hc]
          exact acknowledge_leaves c e (by simp [acknowledged_error])
      | some con =>
          rw [hc, Option.any_some] at h
          rw [connectionSendRequest_packs hkey hc]
          have hpack : Leaves c ((c.setConnection id (addressed con)).pack
            (serializeRequest con.msgid.toUInt64 kind.method request)) := ⟨rfl, rfl⟩
          refine Ends.bind (cryptoWrite_fails .request (setConnection_self c id (addressed con)) h) ?_
          rintro ⟨c', sent⟩ ⟨rfl, hc'⟩
          have hnote : Leaves c (c'.note [.finished id (c.caller con).next none .nil]) :=
            hpack.trans ⟨hc'.callids, hc'.frames⟩
          exact hnote.ends (acknowledge_leaves _ e (by simp [acknowledged_empty]))

theorem waitFor_callids (c : Core) (e : RequestEvent) (id : Nat) (msgid : UInt64) (kind : CallKind)
    (callid : UInt64) :
    (c.waitFor e id msgid kind callid).callids = c.callids := by
  unfold waitFor pushCallinfo modify
  split <;> rfl

/-- A request that goes out leaves its handler waiting on the stack. -/
theorem connectionSendRequest_sent {c : Core} (e : RequestEvent) {kind : CallKind} (callid : UInt64)
    {key : Bytes} {request : List Object} (h : c.sends W kind key request = true) :
    ∃ id cinfo c', connectionSendRequest W c e kind callid key request = .ok c' ∧ c'.callids = c.callids ∧
      callFrames c'.stack = .call e id cinfo kind callid :: callFrames c.stack := by
  unfold sends at h
  obtain ⟨id, hkey, hcon⟩ := (Option.any_eq_true _ _).mp h
  obtain ⟨con, hc, hwrites⟩ := (Option.any_eq_true _ _).mp hcon
  obtain ⟨c', hw, hleaves⟩ := cryptoWrite_writes (c := (c.setConnection id (addressed con)).pack
    (serializeRequest con.msgid.toUInt64 kind.method request)) .request
    (setConnection_self c id (addressed con)) hwrites
  have hsend : connectionSendRequest W c e kind callid key request =
      .ok (c'.clear.waitFor e id (c.caller con).next kind callid) := by
    rw [connectionSendRequest_packs hkey hc]
    have hw' :
        cryptoWrite W
          ((c.setConnection id (addressed con)).pack ((c.caller con).message kind.method request)) id
        (c.sbuf ++ [(c.caller con).message kind.method request]) .request = .ok (c', true) := hw
    rw [hw']
    rfl
  refine ⟨id, c'.clear.calls.length, _, hsend, ?_, ?_⟩
  · rw [waitFor_callids]
    exact hleaves.callids
  · rw [waitFor_stack]
    exact congrArg (List.cons _) hleaves.frames

/-- **What a move does to the table and to the calls that wait**: the table follows the move, a call waits
until it is acknowledged or fails, and one that has gone out waits. -/
structure Tallies (c : Core) (m : Option CallMove) (c' : Core) : Prop where
  callids : c'.callids = m.elim c.callids (CallMove.table c.callids)
  awaited : ∀ callid ∈ awaited c.stack,
    callid ∈ awaited c'.stack ∨ m = some (.acknowledged callid) ∨ m = some (.failed callid)
  called : ∀ callid owner, m = some (.called callid owner) → callid ∈ Core.awaited c'.stack

theorem Leaves.awaited {c c' : Core} (h : Leaves c c') : awaited c'.stack = awaited c.stack := by
  rw [← awaited_callFrames, h.frames, awaited_callFrames]

theorem Leaves.tallies {c c' : Core} (h : Leaves c c') : Tallies c none c' := by
  refine ⟨h.callids, ?_, ?_⟩
  · intro callid hin
    exact Or.inl (h.awaited ▸ hin)
  · intro callid owner hm
    cases hm

theorem entered_callids (c : Core) (e : RequestEvent) (callid : UInt64) :
    (c.entered e callid).callids = Function.update c.callids callid (some e.con) := by
  funext i
  rw [Function.update_apply]
  rfl

/-- A run request that is taken from the queue. -/
theorem tallies_run {c : Core} {e : RequestEvent} {con : Connection} {callid : UInt64} {key : Bytes}
    {verify : Except Fault (Option ApiError)} {request : List Object} (hcon : c.connections e.con = some con)
    (heff : e.func.call (W.handlers e.tag) e.args = .run callid key verify request) :
    Ends (Tallies c (c.requestMove W e)) (fun _ => True) (connectionRequestEvent W c e) := by
  have hentered := entered_callids c e callid
  -- a handler that ends at once leaves its entry behind
  have hdropped : c.requestMove W e = some (.dropped callid e.con) → ∀ c',
      Leaves (c.entered e callid) c' → Tallies c (c.requestMove W e) c' := by
    intro hm c' hleaves
    refine ⟨?_, fun i hin => Or.inl ?_, ?_⟩
    · rw [hleaves.callids, hentered, hm]
      rfl
    · rw [hleaves.awaited]
      exact hin
    · intro i owner hcalled
      rw [hm] at hcalled
      cases hcalled
  cases verify with
  | error f =>
      -- the question to the database ends the process
      unfold connectionRequestEvent
      rw [hcon]
      simp only [heff]
      trivial
  | ok verdict =>
      rw [connectionRequestEvent_run hcon heff]
      cases verdict with
      | some err =>
          have hmove : c.requestMove W e = some (.dropped callid e.con) := by simp only [requestMove, heff]
          have hends := respond_leaves (W := W) (c.entered e callid) e ⟨.array [], some err⟩
          exact hends.imp (hdropped hmove)
      | none =>
          have hmove : c.requestMove W e =
              if c.sends W .run key request then some (.called callid e.con)
                else some (.dropped callid e.con) := by
            simp only [requestMove, heff]
          cases hsends : c.sends W .run key request with
          | false =>
              rw [hsends] at hmove
              have hsends' : (c.entered e callid).sends W .run key request = false := hsends
              exact (connectionSendRequest_unsent e callid hsends').imp (hdropped hmove)
          | true =>
              rw [hsends] at hmove
              have hm : c.requestMove W e = some (.called callid e.con) := hmove
              have hsends' : (c.entered e callid).sends W .run key request = true := hsends
              obtain ⟨id, cinfo, c', hsend, hids, hframes⟩ := connectionSendRequest_sent e callid hsends'
              have hawaited : Core.awaited c'.stack = callid :: Core.awaited c.stack := by
                rw [← awaited_callFrames, hframes]
                exact congrArg (List.cons callid) (awaited_callFrames c.stack)
              show Ends _ _ (connectionSendRequest W _ e .run callid key request)
              rw [hsend]
              refine ⟨?_, ?_, ?_⟩
              · rw [hids, hentered, hm]
                rfl
              · intro i hin
                rw [hawaited]
                exact Or.inl (List.mem_cons_of_mem callid hin)
              · intro i owner hcalled
                rw [hm] at hcalled
                cases hcalled
                rw [hawaited]
                exact List.mem_cons_self

/-- A request for a result that is taken from the queue. -/
theorem tallies_result {c : Core} {e : RequestEvent} {callid : UInt64} {request : List Object}
    (heff : e.func.call (W.handlers e.tag) e.args = .result callid request) :
    Ends (Tallies c (c.requestMove W e)) (fun _ => True) (connectionRequestEvent W c e) := by
  have hmove : c.requestMove W e = none := by
    simp only [requestMove, heff]
  rw [hmove]
  -- the call for the result may wait, but it is no run
  have hsend : ∀ (d : Core) (key : Bytes), d.callids = c.callids → d.stack = c.stack →
      Ends (Tallies c none) (fun _ => True) (connectionSendRequest W d e .result callid key request) := by
    intro d key hids hstack
    have hleaves : Leaves c d := ⟨hids, by rw [hstack]⟩
    cases hsends : d.sends W .result key request with
    | false => exact (hleaves.ends (connectionSendRequest_unsent e callid hsends)).imp fun c' hc' => hc'.tallies
    | true =>
        obtain ⟨id, cinfo, c', hsend, hids', hframes⟩ := connectionSendRequest_sent e callid hsends
        rw [hsend]
        have hawaited : Core.awaited c'.stack = Core.awaited c.stack := by
          rw [← awaited_callFrames, hframes, ← hstack]
          exact awaited_callFrames d.stack
        refine ⟨hids'.trans hids, ?_, ?_⟩
        · intro i hin
          rw [hawaited]
          exact Or.inl hin
        · intro i owner hcalled
          cases hcalled
  have hrespond : ∀ (d : Core) (r : Reply), d.callids = c.callids → d.stack = c.stack →
      Ends (Tallies c none) (fun _ => True) (respond W d e r) := by
    intro d r hids hstack
    have hleaves : Leaves c d := ⟨hids, by rw [hstack]⟩
    exact (hleaves.ends (respond_leaves d e r)).imp fun c' hc' => hc'.tallies
  unfold connectionRequestEvent
  split
  · trivial
  · rw [heff]
    dsimp only
    split
    · exact hrespond _ _ rfl rfl
    · split
      · trivial
      · exact hsend _ _ rfl rfl

/-- The table once a call has returned, and the frame is off the stack. -/
theorem tallies_popped {c c' : Core} {e : RequestEvent} {target cinfo : Nat} {kind : CallKind} {callid : UInt64}
    {below : List Frame} {info : Callinfo} (hs : c.stack = .call e target cinfo kind callid :: below)
    (hids : c'.callids = (returnMove W kind callid info).elim c.callids (CallMove.table c.callids))
    (hframes : callFrames c'.stack = callFrames below) : Tallies c (returnMove W kind callid info) c' := by
  have hawaited : Core.awaited c'.stack = Core.awaited below := by
    rw [← awaited_callFrames, hframes, awaited_callFrames]
  refine ⟨hids, ?_, ?_⟩
  · intro i hin
    rw [hs] at hin
    rw [hawaited]
    cases kind with
    | result => exact Or.inl hin
    | run =>
        rcases List.mem_cons.mp hin with rfl | hin
        · unfold returnMove
          dsimp only
          split
          · exact Or.inr (Or.inl rfl)
          · exact Or.inr (Or.inr rfl)
        · exact Or.inl hin
  · intro i owner hcalled
    unfold returnMove at hcalled
    dsimp only at hcalled
    split at hcalled
    · split at hcalled <;> cases hcalled
    · split at hcalled <;> cases hcalled

theorem returnMove_table {kind : CallKind} {callid : UInt64} {info : Callinfo} (callids : UInt64 → Option Nat)
    (h : ¬ (kind = .result ∧ info.errored = false ∧
      (SploneBox.acknowledged kind callid (asArray W info.result) none).error.isNone = true)) :
    (returnMove W kind callid info).elim callids (CallMove.table callids) = callids := by
  unfold returnMove
  dsimp only
  split
  · split <;> rfl
  · split
    · rename_i hdone
      rw [Bool.and_eq_true, Bool.not_eq_true'] at hdone
      exact absurd ⟨rfl, hdone⟩ h
    · rfl

/-- What is left of a handler once its call has returned. -/
theorem tallies_acknowledge {c d : Core} {e : RequestEvent} {target cinfo : Nat} {kind : CallKind}
    {callid : UInt64} {below : List Frame} {info : Callinfo}
    (hs : c.stack = .call e target cinfo kind callid :: below) (herr : info.errored = false)
    (hids : d.callids = c.callids) (hframes : callFrames d.stack = callFrames below) :
    Ends (Tallies c (returnMove W kind callid info)) (fun _ => True)
      (acknowledge W d e kind callid info.result none) := by
  by_cases hdone :
    kind = .result ∧ (SploneBox.acknowledged kind callid (asArray W info.result) none).error.isNone = true
  · obtain ⟨rfl, hok⟩ := hdone
    have hmove : returnMove W .result callid info = some (.answered callid) := by
      simp [returnMove, herr, Option.isNone_iff_eq_none.mp hok]
    unfold acknowledge
    dsimp only
    rw [if_pos ⟨rfl, hok⟩]
    refine (respond_leaves (d.deliver callid) e _).imp fun c' hc' =>
      tallies_popped hs ?_ (hc'.frames.trans hframes)
    rw [hc'.callids, hmove]
    funext i
    show (if i = callid then none else d.callids i) = Function.update c.callids callid none i
    rw [Function.update_apply, hids]
  · refine (acknowledge_leaves d e hdone).imp fun c' hc' => tallies_popped hs ?_ (hc'.frames.trans hframes)
    rw [returnMove_table c.callids fun h => hdone ⟨h.1, h.2.2⟩]
    exact hc'.callids.trans hids

/-- A call returns. -/
theorem tallies_finishCall {c : Core} {e : RequestEvent} {target cinfo : Nat} {kind : CallKind}
    {callid : UInt64} {below : List Frame} {info : Callinfo}
    (hs : c.stack = .call e target cinfo kind callid :: below) (hi : c.calls[cinfo]? = some info) :
    Ends (Tallies c (returnMove W kind callid info)) (fun _ => True)
      (finishCall W { c with stack := below } e target cinfo kind callid) := by
  unfold finishCall
  split
  · rename_i con info' hc hi'
    obtain rfl : info' = info := Option.some.inj (hi'.symm.trans hi)
    have hpop :
        Leaves ({ c with stack := below }) ({ c with stack := below }.setConnection target (popped con)) :=
          ⟨rfl, rfl⟩
    refine Ends.bind (P := Leaves { c with stack := below }) ?_ ?_
    · show Ends _ _ (flushNotifications W ({ c with stack := below }.setConnection target (popped con)) target
          (popped con))
      cases hflush : flushNotifications W ({ c with stack := below }.setConnection target (popped con)) target
        (popped con) with
      | ok d => exact hpop.trans (notified_flush hflush).leaves
      | error d => trivial
    · intro d hd
      have hdecref : Leaves { c with stack := below } (d.decref target) := hd.trans (decref_leaves d target)
      dsimp only
      split
      · rename_i herr
        have hnote : Leaves { c with stack := below } ((d.decref target).note
          [.finished target info'.msgid (some (callError info'.result)) .nil]) := ⟨hdecref.callids,
          hdecref.frames⟩
        refine (acknowledge_leaves _ e (by simp [acknowledged_error])).imp fun c' hc' => ?_
        refine tallies_popped hs ?_ ((hnote.trans hc').frames)
        rw [returnMove_table c.callids (by simp [herr])]
        exact (hnote.trans hc').callids
      · rename_i herr
        exact tallies_acknowledge hs (Bool.eq_false_of_not_eq_true herr) hdecref.callids hdecref.frames
  · trivial

/-! ## §5 Moves -/

theorem loopProcessEvents_leaves (c : Core) (queue : Option Nat) :
    Ends (Leaves c) (fun _ => True) (c.loopProcessEvents queue) := by
  unfold loopProcessEvents
  split
  · exact (passes_push (D := Anyone) c rfl).leaves
  · split
    · trivial
    · exact (passes_push (D := Anyone) c rfl).leaves

/-- Callbacks run inside `uv_run`. -/
theorem step_inUvRun {c c' : Core} {l : Label} (hs : c.step W l = some c') (hl : l ≠ .turn) :
    c.inUvRun = true := by
  unfold Core.step at hs
  split at hs
  · cases hs
  cases l with
  | turn => exact absurd rfl hl
  | accept env =>
      dsimp only at hs
      split at hs
      · assumption
      · cases hs
  | read id seg env =>
      dsimp only at hs
      split at hs
      · cases hs
      · split at hs
        · cases hs
        · rename_i hok
          simp only [not_or, Bool.not_eq_true, Bool.not_eq_false'] at hok
          exact hok.1
  | eof id =>
      dsimp only at hs
      split at hs
      · cases hs
      · split at hs
        · cases hs
        · rename_i hok
          simp only [not_or, Bool.not_eq_true, Bool.not_eq_false'] at hok
          exact hok.1
  | tick id fresh =>
      dsimp only at hs
      split at hs
      · cases hs
      · split at hs
        · cases hs
        · rename_i hok
          simp only [not_or, Bool.not_eq_true, Bool.not_eq_false'] at hok
          exact hok.1

/-- The stack is not that of a queue or of a call. -/
theorem elsewhere_of_stack {c : Core} (hdrain : ∀ queue below, c.stack ≠ .drain queue :: below)
    (hcall : ∀ e target cinfo kind callid below, c.stack ≠ .call e target cinfo kind callid :: below) :
    Elsewhere W c := by
  refine ⟨?_, hcall⟩
  rintro e ⟨queue, below, left, hs, -⟩
  exact absurd hs (hdrain queue below)

/-- A request that neither makes nor answers a call is taken from the queue. -/
theorem elsewhere_of_taken {c : Core} {queue : Option Nat} {below : List Frame}
    (hs : c.stack = .drain queue :: below) (h : ∀ e left, takeEvent queue c.queue = some (e, left) →
      enters W e = none ∧ resolves W e = none) : Elsewhere W c := by
  refine ⟨?_, ?_⟩
  · rintro e ⟨queue', below', left, hs', ht⟩
    rw [hs] at hs'
    cases hs'
    exact h e left ht
  · intro e target cinfo kind callid below' hs'
    rw [hs] at hs'
    cases hs'

/-- A request is taken from a queue, or the queue is empty. -/
theorem tallies_drain {c c' : Core} {queue : Option Nat} {below : List Frame} (ha : At W c .turn [] c')
    (hturn : c.turn W = .ok c') (hs : c.stack = .drain queue :: below) :
    Tallies c ((takeEvent queue c.queue).bind fun x => c.requestMove W x.1) c' := by
  cases ht : takeEvent queue c.queue with
  | none =>
      refine (Leaves.at ha (elsewhere_of_taken hs ?_)).tallies
      intro e left h
      rw [ht] at h
      cases h
  | some x =>
      obtain ⟨e, left⟩ := x
      have hevent : connectionRequestEvent W { c with queue := left } e = .ok c' := by
        rw [← hturn]
        unfold turn
        rw [hs]
        dsimp only
        rw [ht]
      have hends : Ends (Tallies c (c.requestMove W e)) (fun _ => True)
          (connectionRequestEvent W { c with queue := left } e) →
          Tallies c (c.requestMove W e) c' := by
        intro h
        rw [hevent] at h
        exact h
      -- nothing but the queue is different
      have hqueue : ∀ d, Tallies { c with queue := left } (requestMove W { c with queue := left } e) d →
          Tallies c (c.requestMove W e) d := fun d h => ⟨h.callids, h.awaited, h.called⟩
      rw [Option.bind_some]
      cases heff : e.func.call (W.handlers e.tag) e.args with
      | run callid key verify request =>
          apply hends
          cases hcon : c.connections e.con with
          | none =>
              unfold connectionRequestEvent
              dsimp only
              rw [hcon]
              trivial
          | some con =>
              have hcon' : ({ c with queue := left } : Core).connections e.con = some con := hcon
              exact (tallies_run hcon' heff).imp hqueue
      | result callid request => exact hends ((tallies_result heff).imp hqueue)
      | _ =>
          have hmove : c.requestMove W e = none := by
            simp only [requestMove, heff]
          rw [hmove]
          refine (Leaves.at ha (elsewhere_of_taken hs ?_)).tallies
          intro e' left' h
          rw [ht] at h
          cases h
          simp [enters, resolves, heff]

/-- **The table follows every move** that the process survives. -/
theorem step_tallies {c c' : Core} {l : Label} (hord : Ordered [] c) (hs : c.step W l = some c')
    (hlive : c'.halt = none) :
    Tallies c (c.callMove W l) c' := by
  have ha : At W c l [] c' := by
    rcases hord.step hs with ⟨-, ha⟩ | ⟨-, hend⟩
    · exact ha
    · exact absurd hlive hend
  by_cases hl : l = .turn
  · subst hl
    have hturn := turn_returns hord hs hlive
    have hends : ∀ {m}, Ends (Tallies c m) (fun _ => True) (c.turn W) → Tallies c m c' := by
      intro m h
      rw [hturn] at h
      exact h
    unfold callMove
    cases hstack : c.stack with
    | nil =>
        exact (Leaves.at ha (elsewhere_of_stack (by simp [hstack]) (by simp [hstack]))).tallies
    | cons f below =>
        cases f with
        | poll => exact (Leaves.at ha (elsewhere_of_stack (by simp [hstack]) (by simp [hstack]))).tallies
        | close id => exact (Leaves.at ha (elsewhere_of_stack (by simp [hstack]) (by simp [hstack]))).tallies
        | parse id => exact (Leaves.at ha (elsewhere_of_stack (by simp [hstack]) (by simp [hstack]))).tallies
        | drain queue => exact tallies_drain ha hturn hstack
        | call e target cinfo kind callid =>
            apply hends
            unfold turn
            rw [hstack]
            dsimp only
            cases hi : c.calls[cinfo]? with
            | none => exact (loopProcessEvents_leaves c (some target)).imp fun d hd => hd.tallies
            | some info =>
                rw [Option.any_some, Option.bind_some]
                split
                · exact tallies_finishCall hstack hi
                · exact (loopProcessEvents_leaves c (some target)).imp fun d hd => hd.tallies
  · have huv := step_inUvRun hs hl
    have hmove : c.callMove W l = none := by
      cases l with
      | turn => exact absurd rfl hl
      | _ => rfl
    rw [hmove]
    refine (Leaves.at ha (elsewhere_of_stack ?_ ?_)).tallies
    · intro queue below hstack
      rw [inUvRun, hstack] at huv
      cases huv
    · intro e target cinfo kind callid below hstack
      rw [inUvRun, hstack] at huv
      cases huv

end

end Core

open Core

/-! ## §6 Runs -/

theorem Accounted.step_core {W : World} {s s' : Accounted} {l : Label} (hs : s.step W l = some s') :
    s.core.step W l = some s'.core ∧
      s'.account = (s.core.callMove W l).elim s.account (CallMove.account s.account) := by
  obtain ⟨core, hcore, rfl⟩ := Option.map_eq_some_iff.mp hs
  exact ⟨hcore, rfl⟩

/-- A call that is not acknowledged waits, also behind the move. -/
theorem Accounted.Settled.waits {s : Accounted} {c' : Core} {m : Option CallMove} (h : s.Settled)
    (ht : Tallies s.core m c') {callid : UInt64} {call : PendingCall}
    (hcall : m.elim s.account (CallMove.account s.account) callid = some call)
    (hack : call.acknowledged = false) : callid ∈ Core.awaited c'.stack := by
  -- an entry that the move has left alone waited before it
  have hkept : s.account callid = some call → m ≠ some (.acknowledged callid) → m ≠ some (.failed callid) →
      callid ∈ Core.awaited c'.stack := by
    intro hold hnoack hnofail
    rcases ht.awaited callid (h.awaited callid call hold hack) with hin | hm | hm
    · exact hin
    · exact absurd hm hnoack
    · exact absurd hm hnofail
  cases m with
  | none => exact hkept hcall (by simp) (by simp)
  | some m =>
      cases m with
      | called i owner =>
          by_cases hi : callid = i
          · subst hi
            exact ht.called callid owner rfl
          · have hcall' : Function.update s.account i (some ⟨owner, false⟩) callid = some call := hcall
            rw [Function.update_of_ne hi] at hcall'
            exact hkept hcall' (by simp) (by simp)
      | dropped i owner => exact hkept hcall (by simp) (by simp)
      | acknowledged i =>
          have hcall' : Function.update s.account i ((s.account i).map fun call =>
              { call with acknowledged := true }) callid =
            some call := hcall
          by_cases hi : callid = i
          · subst hi
            rw [Function.update_self] at hcall'
            obtain ⟨old, -, rfl⟩ := Option.map_eq_some_iff.mp hcall'
            cases hack
          · rw [Function.update_of_ne hi] at hcall'
            exact hkept hcall' (by simp [Ne.symm hi]) (by simp)
      | failed i =>
          have hcall' : Function.update s.account i none callid = some call := hcall
          by_cases hi : callid = i
          · subst hi
            rw [Function.update_self] at hcall'
            cases hcall'
          · rw [Function.update_of_ne hi] at hcall'
            exact hkept hcall' (by simp) (by simp [Ne.symm hi])
      | answered i =>
          have hcall' : Function.update s.account i none callid = some call := hcall
          by_cases hi : callid = i
          · subst hi
            rw [Function.update_self] at hcall'
            cases hcall'
          · rw [Function.update_of_ne hi] at hcall'
            exact hkept hcall' (by simp) (by simp)

/-- **One move.** The account holds behind it exactly when the move settles. -/
theorem Accounted.Settled.step_iff {W : World} {s s' : Accounted} {l : Label} (h : s.Settled)
    (hord : Ordered [] s.core) (hlive : s'.core.halt = none) (hs : s.step W l = some s') :
    s'.Settled ↔ s.core.SettlesCalls W l := by
  obtain ⟨hcore, haccount⟩ := Accounted.step_core hs
  have ht := step_tallies hord hcore hlive
  have htable : (∀ callid, s'.core.callids callid = (s'.account callid).map PendingCall.owner) ↔
      s.core.SettlesCalls W l := by
    rw [ht.callids, haccount, SettlesCalls]
    cases s.core.callMove W l with
    | none => exact ⟨fun _ m hm => absurd hm (Option.not_mem_none m), fun _ => h.table⟩
    | some m =>
        refine (CallMove.agree_iff h.table m).trans ⟨fun hm m' hm' => ?_, fun hm => hm m rfl⟩
        cases hm'
        exact hm
  refine ⟨fun hs' => htable.mp hs'.table, fun hsettles => ⟨htable.mpr hsettles, ?_⟩⟩
  intro callid call hcall hack
  rw [haccount] at hcall
  exact h.waits ht hcall hack

/-- Every move of a run that the process survives starts in order, and is survived. -/
theorem Accounted.along_live {W : World} : ∀ {ls : List Label} {s t : Accounted}, Ordered [] s.core →
    exec (Accounted.step W) s ls = some t → t.core.halt = none →
    Along (Accounted.step W) (fun s _ s' => Ordered [] s.core ∧ s'.core.halt = none) s ls
  | [], _, _, _, _, _ => trivial
  | l :: ls, s, t, hord, hrun, hlive => by
      intro s' hs
      obtain ⟨s₁, hs₁, hrest⟩ := exec_cons.mp hrun
      obtain rfl : s₁ = s' := Option.some.inj (hs₁.symm.trans hs)
      have hcore := (Accounted.step_core hs).1
      have hlive' : s₁.core.halt = none := by
        cases ls with
        | nil =>
            cases hrest
            exact hlive
        | cons l' ls =>
            obtain ⟨s₂, hs₂, -⟩ := exec_cons.mp hrest
            exact running_of_step (Accounted.step_core hs₂).1
      rcases hord.step hcore with ⟨hord', -⟩ | ⟨-, hend⟩
      · exact ⟨⟨hord, hlive'⟩, Accounted.along_live hord' hrest hlive⟩
      · exact absurd hlive' hend

/-- **The table holds the calls that are pending**, exactly in the runs in which every request whose `callid`
has been made goes out, and every call is acknowledged, unless the entry is one that is there or gone anyway:
then each entry is that of a call which has been made, has not failed and has not been answered, in the name
of its caller, and the calls that are not acknowledged have their handler on the stack. -/
theorem pending_calls_iff {W : World} {ls : List Label} {s : Accounted}
    (hrun : exec (Accounted.step W) Accounted.init ls = some s) (hlive : s.core.halt = none) :
    Always (Accounted.step W) Accounted.Settled Accounted.init ls ↔
      Along (Accounted.step W) (fun s l _ => s.core.SettlesCalls W l) Accounted.init ls := by
  have hinit : Accounted.init.Settled := ⟨fun _ => rfl, fun _ _ h => (nomatch h)⟩
  refine always_iff_along_of (H := fun s _ s' => Ordered [] s.core ∧ s'.core.halt = none) ?_ hinit
    (Accounted.along_live ordered_init hrun hlive)
  intro s l s' h hH hs
  exact h.step_iff hH.1 hH.2 hs

instance (callids : UInt64 → Option Nat) (m : CallMove) : Decidable (m.Settles callids) :=
  match m with
  | .called _ _ => .isTrue trivial
  | .dropped callid owner => inferInstanceAs (Decidable (callids callid = some owner))
  | .acknowledged _ => .isTrue trivial
  | .failed callid => inferInstanceAs (Decidable (callids callid = none))
  | .answered _ => .isTrue trivial

instance (W : World) (c : Core) (l : Label) : Decidable (c.SettlesCalls W l) :=
  inferInstanceAs (Decidable (∀ m ∈ c.callMove W l, m.Settles c.callids))

theorem Accounted.step_quiet {W : World} {s : Accounted} {core : Core} {l : Label}
    (hs : s.core.step W l = some core) (hmove : s.core.callMove W l = none) :
    s.step W l = some ⟨core, s.account⟩ := by
  rw [Accounted.step, hs, hmove]
  rfl

/-- Nobody has called when the plugin is connected. -/
theorem Sample.accounted_connect {W : World} (hW : W.server = Sample.server) :
    exec (Accounted.step W) Accounted.init (.turn :: Sample.connect 1 (Sample.fill 32 3)) =
      some ⟨Sample.connected, fun _ => none⟩ := by
  have hturn : Accounted.init.step W .turn = some ⟨Sample.polling, fun _ => none⟩ :=
    Accounted.step_quiet rfl rfl
  have haccept : (Accounted.mk Sample.polling fun _ => none).step W (.accept Sample.create) =
      some ⟨Sample.afterAccept, fun _ => none⟩ := Accounted.step_quiet rfl rfl
  have hhello : (Accounted.mk Sample.afterAccept fun _ => none).step W (.read 1 Sample.hello Sample.env) =
      some ⟨Sample.afterHello, fun _ => none⟩ := Accounted.step_quiet (Sample.step_afterAccept hW) rfl
  have hinitiate : (Accounted.mk Sample.afterHello fun _ => none).step W
      (.read 1 (Sample.initiate (Sample.fill 32 3)) Sample.env) = some ⟨Sample.connected, fun _ => none⟩ :=
    Accounted.step_quiet (Sample.step_afterHello hW) rfl
  exact exec_cons.mpr ⟨_, hturn,
    exec_cons.mpr ⟨_, haccept, exec_cons.mpr ⟨_, hhello, exec_singleton.mpr hinitiate⟩⟩⟩

/-- **A run that settles**: a plugin calls itself and acknowledges the call, which is pending then. -/
theorem pending_calls_sample :
    ∃ s, exec (Accounted.step Sample.world) Accounted.init Sample.settledCall = some s ∧
      s.core.callids 7 = some 1 ∧
      Always (Accounted.step Sample.world) Accounted.Settled Accounted.init Sample.settledCall := by
  have hsettles :
      Along (Accounted.step Sample.world) (fun s l _ => s.core.SettlesCalls Sample.world l) Accounted.init
      Sample.settledCall := by
    exact along_append_of (Sample.accounted_connect rfl) (by decide +kernel) (by decide +kernel)
  have hrun : (exec (Accounted.step Sample.world) Accounted.init Sample.settledCall).any
      (fun s => s.core.halt.isNone && decide (s.core.callids 7 = some 1)) = true := by
    rw [Sample.settledCall, ← List.cons_append, exec_append_of (Sample.accounted_connect rfl)]
    decide +kernel
  obtain ⟨s, hex, hs⟩ := (Option.any_eq_true _ _).mp hrun
  obtain ⟨hlive, hentry⟩ := (Bool.and_eq_true _ _).mp hs
  exact ⟨s, hex, of_decide_eq_true hentry,
    (pending_calls_iff hex (Option.isNone_iff_eq_none.mp hlive)).mpr hsettles⟩

/-- **A call that failed and is in the table**: the plugin that is asked for is not there, and the request is
answered with an error. -/
theorem failed_call_pending :
    ∃ s, exec (Accounted.step Sample.world) Accounted.init Sample.strayCall = some s ∧ s.core.halt = none ∧
      s.core.callids 7 = some 1 ∧ (s.account 7).isNone = true ∧ ¬ s.Settled := by
  have hrun : (exec (Accounted.step Sample.world) Accounted.init Sample.strayCall).any
      (fun s => s.core.halt.isNone && (s.account 7).isNone && decide (s.core.callids 7 = some 1)) = true := by
    rw [Sample.strayCall, ← List.cons_append, exec_append_of (Sample.accounted_connect rfl)]
    decide +kernel
  obtain ⟨s, hex, hs⟩ := (Option.any_eq_true _ _).mp hrun
  simp only [Bool.and_eq_true] at hs
  obtain ⟨⟨hlive, hnone⟩, hentry⟩ := hs
  refine ⟨s, hex, Option.isNone_iff_eq_none.mp hlive, of_decide_eq_true hentry, hnone, fun hsettled => ?_⟩
  have htable := hsettled.table 7
  rw [of_decide_eq_true hentry, Option.isNone_iff_eq_none.mp hnone] at htable
  cases htable

end SploneBox
