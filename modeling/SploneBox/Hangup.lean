/-
# SploneBox.Hangup — the calls that wait for a connection when it is closed.

`connection_close` leaves the `callvector` alone. Of the three places that call it for a connection that
is open, `call_set_error` marks the calls first; the end of the stream and a key that is registered
already do not. A call to a connection that was closed in one of these two ways waits for a response that
cannot come: its streams have been freed, and the loop it sits in ends only when `returned` is set.

The condition under which closing completes the calls is therefore about the two callbacks: when they
close a connection, its calls have returned.
-/
import SploneBox.Calls

namespace SploneBox

open Lib.Machine

namespace Core

/-! ## §1 What closes nothing -/

/-- **A closed connection is one whose calls have returned**, and whose streams have been freed or are
about to be. -/
structure Completed (c : Core) : Prop where
  shut : ∀ id con, c.connections id = some con → con.tunnel.closed = true →
    con.released = true ∨ Frame.close id ∈ c.stack
  returned : ∀ id con, c.connections id = some con → con.tunnel.closed = true →
    ∀ i ∈ con.callvector, ∃ info, c.calls[i]? = some info ∧ info.returned = true

section Completing

variable {W : World} {c c' : Core}

/-- Connections that are not closed lose calls at most, and calls that have returned stay so. -/
theorem Completed.extend (h : Completed c)
    (hcalls : ∀ (i : Nat) (info : Callinfo), c.calls[i]? = some info → info.returned = true →
      ∃ info', c'.calls[i]? = some info' ∧ info'.returned = true)
    (hcloses : ∀ id, Frame.close id ∈ c.stack → Frame.close id ∈ c'.stack)
    (hconns : ∀ id con', c'.connections id = some con' → ∃ con, c.connections id = some con ∧
      (∀ i ∈ con'.callvector, i ∈ con.callvector) ∧ SameClosing con con') : Completed c' := by
  refine ⟨fun id con' hc' hcl => ?_, fun id con' hc' hcl i hi => ?_⟩
  · obtain ⟨con, hc, _, hsame⟩ := hconns id con' hc'
    rcases h.shut id con hc (hsame.1.symm.trans hcl) with hrel | hframe
    · exact Or.inl (hsame.2.trans hrel)
    · exact Or.inr (hcloses id hframe)
  · obtain ⟨con, hc, hsub, hsame⟩ := hconns id con' hc'
    obtain ⟨info, hinfo, hret⟩ := h.returned id con hc (hsame.1.symm.trans hcl) i (hsub i hi)
    exact hcalls i info hinfo hret

theorem Completed.passes (h : Completed c) (hp : Passes Noone c c') : Completed c' := by
  refine h.extend (fun i info hi hr => ⟨info, by rw [hp.calls]; exact hi, hr⟩)
    (fun id hid => hp.closes id not_false hid) fun id con' hc' => ?_
  obtain ⟨con, hc, hs, hf⟩ := hp.connections id con' hc'
  exact ⟨con, hc, fun i hi => hs.callvector ▸ hi, hf not_false⟩

theorem Completed.notified (h : Completed c) (hn : Notified c c') : Completed c' := by
  refine h.extend (fun i info hi hr => ⟨info, by rw [hn.same]; exact hi, hr⟩)
    (fun id hid => by rw [hn.same]; exact hid) fun id con' hc' => ?_
  have hrel := hn.connections id
  rw [hc'] at hrel
  generalize hc : c.connections id = x at hrel
  cases hrel with
  | some hab =>
      refine ⟨_, rfl, fun i hi => ?_, hab.closed, ?_⟩
      · rw [hab.same] at hi
        exact hi
      · rw [hab.same]

/-- Assignments to fields that closing does not use. -/
theorem Completed.assign (h : Completed c) (callids : UInt64 → Option Nat) (sbuf : List MsgpackObject)
    (record : List Occurrence) :
    Completed { c with callids := callids, sbuf := sbuf, record := record } :=
  ⟨h.shut, h.returned⟩

theorem Completed.broadcast {name : Option Bytes} {args : List Object} (h : Completed c)
    (hb : broadcastEvent W c name args = .ok c') : Completed c' := by
  rcases broadcastEvent_cases hb with rfl | ⟨n, d, _, hn, rfl⟩
  · exact h
  · have hraise : Completed (c.raise (cstr n) args) := h.assign c.callids _ _
    exact (hraise.notified (notified_notify hn)).assign _ _ _

theorem Completed.unsent {id : Nat} {con : Connection} {m : MsgpackObject} {bytes : Bytes}
    {env : WriteEnv} (h : Completed c) (hc : c.connections id = some con) :
    Completed (c.posted W id con m .request false bytes env) := by
  have hp : Passes Noone c (c.posted W id con m .request false bytes env).clear :=
    passes_posted hc (by simp)
  exact (h.passes hp).assign _ (c.sbuf ++ [m]) _

theorem Completed.response (h : Completed c) (id cinfo : Nat) (msgid : UInt64)
    (error result : MsgpackObject) :
    Completed (c.connectionHandleResponse W id cinfo msgid error result) := by
  refine h.extend (fun i info hi hr => ?_) (fun _ hid => hid)
    fun _ con' hc => ⟨con', hc, fun _ hi => hi, SameClosing.refl con'⟩
  rcases connectionHandleResponse_calls W c id cinfo msgid error result i with
    ⟨_, hsame⟩ | ⟨_, errored, obj, _, hmap⟩
  · exact ⟨info, hsame.trans hi, hr⟩
  · rw [hi] at hmap
    exact ⟨_, hmap, rfl⟩

theorem Completed.callSetError (h : Completed c) (callvector : List Nat) :
    Completed (c.callSetError callvector) := by
  refine h.extend (fun i info hi hr => ?_) (fun _ hid => hid)
    fun _ con' hc => ⟨con', hc, fun _ hi => hi, SameClosing.refl con'⟩
  have hmap := callErrored_foldl callvector c.calls i
  rw [hi] at hmap
  refine ⟨_, hmap, ?_⟩
  dsimp only
  split
  · rfl
  · exact hr

theorem Completed.returned_call {e : RequestEvent} {target cinfo : Nat} {kind : CallKind}
    {callid : UInt64} {below : List Frame} {con : Connection} (h : Completed c)
    (hs : c.stack = .call e target cinfo kind callid :: below)
    (hc : c.connections target = some con) :
    Completed ({ c with stack := below }.setConnection target (popped con)) := by
  refine h.extend (fun i info hi hr => ⟨info, hi, hr⟩) (fun id hid => ?_) fun id con' hc' => ?_
  · rw [hs] at hid
    rcases List.mem_cons.mp hid with hid | hid
    · cases hid
    · exact hid
  · rcases setConnection_cases hc' with ⟨rfl, rfl⟩ | ⟨_, hc'⟩
    · exact ⟨con, hc, fun i hi => (List.dropLast_sublist _).subset hi, rfl, rfl⟩
    · exact ⟨con', hc', fun _ hi => hi, SameClosing.refl con'⟩

/-! ## §2 Calls to open connections -/

/-- The streams of a connection that is called exist, so it is open: the thread is in no
`connection_close`. -/
theorem Completed.called_open {c₀ : Core} (h : Completed c) (hshape : Shape c₀.stack) {e : RequestEvent}
    (ht : Takes c₀ e) (hs : c.stack = c₀.stack) {id : Nat} {con : Connection}
    (hc : c.connections id = some con) (hl : con.released = false) : con.tunnel.closed = false := by
  obtain ⟨queue, below, left, hdrain, _⟩ := ht
  rw [hdrain] at hshape
  by_contra hclosed
  rcases h.shut id con hc (Bool.eq_true_of_not_eq_false hclosed) with hrel | hframe
  · rw [hl] at hrel
    cases hrel
  · rw [hs, hdrain] at hframe
    rcases List.mem_cons.mp hframe with hframe | hframe
    · cases hframe
    · have hzero := @no_closes id _ hshape.2 hshape.1
      rw [closes, List.countP_eq_zero] at hzero
      exact hzero _ hframe (by simp [Frame.isClose])

theorem Completed.waitFor {e : RequestEvent} {id : Nat} {msgid : UInt64} {kind : CallKind}
    {callid : UInt64} (h : Completed c)
    (ho : ∀ con, c.connections id = some con → con.tunnel.closed = false) :
    Completed (c.waitFor e id msgid kind callid) := by
  refine ⟨fun i con' hc' hcl => ?_, fun i con' hc' hcl j hj => ?_⟩
  · obtain ⟨con, hc, ⟨_, rfl⟩ | ⟨rfl, rfl⟩⟩ := waitFor_connections hc'
    · rcases h.shut i con' hc hcl with hrel | hframe
      · exact Or.inl hrel
      · rw [waitFor_stack]
        exact Or.inr (List.mem_cons_of_mem _ hframe)
    · rw [ho con hc] at hcl
      cases hcl
  · obtain ⟨con, hc, ⟨_, rfl⟩ | ⟨rfl, rfl⟩⟩ := waitFor_connections hc'
    · obtain ⟨info, hinfo, hret⟩ := h.returned i con' hc hcl j hj
      refine ⟨info, ?_, hret⟩
      rw [waitFor_calls, List.getElem?_append_left (List.getElem?_eq_some_iff.mp hinfo).1]
      exact hinfo
    · rw [ho con hc] at hcl
      cases hcl

/-! ## §3 What closes a connection -/

/-- Every call of the connection has returned. -/
def allReturned (c : Core) (con : Connection) : Bool :=
  con.callvector.all fun i => (c.calls[i]?).any Callinfo.returned

theorem allReturned_iff {con : Connection} : allReturned c con = true ↔
    ∀ i ∈ con.callvector, ∃ info, c.calls[i]? = some info ∧ info.returned = true := by
  simp only [allReturned, List.all_eq_true, Option.any_eq_true]

/-- `connection_close`, for a connection whose calls have returned. -/
theorem Completed.connectionClose {id : Nat} {con : Connection} (h : Completed c)
    (hc : c.connections id = some con)
    (hret : con.tunnel.closed = false → allReturned c con = true) :
    Completed (c.connectionClose id) := by
  cases ho : con.tunnel.closed with
  | true =>
      rw [connectionClose_closed hc ho]
      exact h.passes (passes_decref c id)
  | false =>
      rw [connectionClose_open hc ho]
      refine ⟨fun i con' hc' hcl => ?_, fun i con' hc' hcl => ?_⟩
      · rcases setConnection_cases hc' with ⟨rfl, _⟩ | ⟨_, hc'⟩
        · exact Or.inr List.mem_cons_self
        · rcases h.shut i con' hc' hcl with hrel | hframe
          · exact Or.inl hrel
          · exact Or.inr (List.mem_cons_of_mem _ hframe)
      · rcases setConnection_cases hc' with ⟨_, rfl⟩ | ⟨_, hc'⟩
        · exact allReturned_iff.mp (hret ho)
        · exact h.returned i con' hc' hcl

/-- `connection_close` returns: the streams have been freed. -/
theorem Completed.closeReturned {id : Nat} {below : List Frame} (h : Completed c)
    (hs : c.stack = .close id :: below) : Completed ({ c with stack := below }.closeReturned id) := by
  have hrel : Completed ({ c with stack := below }.modify id fun con => { con with released := true }) := by
    refine ⟨fun i con' hc' hcl => ?_, fun i con' hc' hcl => ?_⟩
    · rw [modify_connections] at hc'
      split at hc'
      · obtain ⟨con, _, rfl⟩ := Option.map_eq_some_iff.mp hc'
        exact Or.inl rfl
      · rename_i hi
        -- Another connection keeps its own frame, which is not the one that is taken off.
        rcases h.shut i con' hc' hcl with hrel | hframe
        · exact Or.inl hrel
        · rw [hs] at hframe
          rw [modify_stack]
          rcases List.mem_cons.mp hframe with hframe | hframe
          · cases hframe
            exact absurd rfl hi
          · exact Or.inr hframe
    · have hcalls : ({ c with stack := below }.modify id fun con => { con with
          released := true }).calls = c.calls := by
        unfold modify
        split <;> rfl
      rw [hcalls]
      rw [modify_connections] at hc'
      split at hc'
      · rename_i hi
        obtain ⟨con, hc, rfl⟩ := Option.map_eq_some_iff.mp hc'
        exact h.returned id con hc hcl
      · exact h.returned i con' hc' hcl
  exact (hrel.passes (passes_decref _ id)).passes (passes_decref _ id)

theorem Completed.create (h : Completed c) (env : CreateEnv) : Completed (c.create env) := by
  refine ⟨fun id con' hc' hcl => ?_, fun id con' hc' hcl => ?_⟩
  · rcases create_cases hc' with ⟨_, _, _, _, ht⟩ | hc
    · rw [ht] at hcl
      cases hcl
    · exact h.shut id con' hc hcl
  · rcases create_cases hc' with ⟨_, _, _, _, ht⟩ | hc
    · rw [ht] at hcl
      cases hcl
    · exact h.returned id con' hc hcl

/-- The open connection that a callback closes: at the end of its stream, or because its key is
registered already. -/
def hangsUp (W : World) (c : Core) : Label → Option Connection
  | .eof id => (c.connections id).filter fun con => !con.tunnel.closed
  | .read id seg env => (c.connections id).filter fun con =>
      !con.tunnel.closed && decide ((c.parseData W con seg env).outcome = .duplicate)
  | _ => none

/-- **Closed connections stay settled at every place of a move** whose callback closes no connection
under its calls. -/
theorem Completed.at {c₀ : Core} {l : Label} {k : List Hold} (h : Completed c₀) (hm : Matched W c₀)
    (hshape : Shape c₀.stack) (ha : At W c₀ l k c)
    (hq : ∀ con ∈ hangsUp W c₀ l, allReturned c₀ con = true) : Completed c := by
  induction ha with
  | start => exact h
  | pushLoop hs hf =>
      refine h.passes (passes_push _ ?_)
      cases hf <;> rfl
  | popLoop hs hf =>
      refine h.passes (passes_pop hs ?_ ?_)
      · cases hf <;> rfl
      · rintro id rfl
        cases hf
  | popParse hs => exact h.passes (passes_pop hs rfl fun _ hf => by cases hf)
  | unpacked hs hc hn hr => exact h.passes (passes_unpacked hc _)
  | @response id cinfo con below obj rest msgid error result hs hc hn hr hnew =>
      have hpop : Completed { c₀ with stack := below } :=
        h.passes (passes_pop hs rfl fun _ hf => by cases hf)
      have hc' : { c₀ with stack := below }.connections id = some con := hc
      exact (hpop.passes (passes_unpacked hc' rest)).response _ _ _ _ _
  | @mismatch id con below obj rest msgid error result hs hc hn hr hnew =>
      have hpop : Completed { c₀ with stack := below } :=
        h.passes (passes_pop hs rfl fun _ hf => by cases hf)
      have hc' : { c₀ with stack := below }.connections id = some con := hc
      -- `call_set_error` has marked every call of the connection as returned before it is closed.
      refine ((hpop.passes (passes_unpacked hc' rest)).callSetError con.callvector).connectionClose
        (setConnection_self _ _ _) fun _ => ?_
      refine allReturned_iff.mpr fun i hi => ?_
      obtain ⟨info, hinfo⟩ := hm.vector_known hc hi
      have hmap := callErrored_foldl con.callvector c₀.calls i
      rw [hinfo] at hmap
      refine ⟨_, hmap, ?_⟩
      dsimp only
      rw [if_pos hi]
  | dequeue hs ht => exact h.passes (passes_tables _ _ _ _ _ _ _ rfl fun _ _ h => h)
  | returned hs hc hi hr hf => exact (h.returned_call hs hc).notified (notified_flush hf)
  | closeReturned hs => exact h.closeReturned hs
  | @read id con seg env hc hu hl hfit hab =>
      -- A plugin that is connected already is hung up on, and the condition is about just this.
      by_cases hdup : (c₀.parseData W con seg env).outcome = .duplicate
      · have hp : Completed (c₀.parsed id con (c₀.parseData W con seg env)) :=
          h.passes (passes_parsed seg env hc)
        have hclose : Completed ((c₀.parsed id con (c₀.parseData W con seg env)).connectionClose id) := by
          refine hp.connectionClose (parsed_self _ _ _ _) fun ho => ?_
          have hcalls : (c₀.parsed id con (c₀.parseData W con seg env)).calls = c₀.calls :=
            (passes_parsed (D := Noone) seg env hc).calls
          have ho' : con.tunnel.closed = false := (parseData_closed W c₀ con seg env).symm.trans ho
          have hall := hq con (by simp [hangsUp, hc, ho', hdup])
          unfold allReturned at hall ⊢
          rw [hcalls]
          exact hall
        unfold Core.readCb
        dsimp only
        rw [hdup]
        exact hclose
      · exact h.passes (passes_readCb hc (fun hd => absurd hd hdup) hab)
  | @eof id con hc hu hl =>
      have hset : Completed (c₀.setConnection id { con with
          refcount := con.refcount + 1
          reading := false }) := h.passes (passes_setConnection hc ⟨rfl, rfl, rfl⟩ fun _ => ⟨rfl, rfl⟩)
      refine hset.connectionClose (setConnection_self _ _ _) fun ho => ?_
      exact hq con (by simpa [hangsUp, hc] using ho)
  | create hu => exact h.create _
  | tick hc ho => exact h.passes (passes_setConnection hc ⟨rfl, rfl, rfl⟩ fun _ => ⟨rfl, rfl⟩)
  | decref _ ih => exact (ih hq).passes (passes_decref _ _)
  | error sent bytes env _ hh hc hl hcause ih =>
      refine (ih hq).passes (passes_posted hc ?_)
      rintro rfl
      rcases hcause with hcause | hcause <;> cases hcause
  | newRequest _ hp hv hprep ih => exact (ih hq).passes (passes_newRequest _ _ _)
  | enqueue _ ih => exact (ih hq).passes (passes_tables _ _ _ _ _ _ _ rfl fun _ _ h => h)
  | invoke _ ih => exact (ih hq).passes (passes_tables _ _ _ _ _ _ _ rfl fun _ _ h => h)
  | subscribe event _ hc ho ih => exact (ih hq).passes (passes_connectionSubscribe _ _ _)
  | unsubscribe _ hu ih => exact (ih hq).passes (passes_unsubscribe hu)
  | broadcast _ hn hf hb' ih => exact (ih hq).broadcast hb'
  | putCallid _ ht heff hids hconns ih => exact (ih hq).assign _ _ _
  | answer sent bytes env _ hm' hc hl ih => exact (ih hq).passes (passes_posted hc (by simp))
  | silent _ hm' ih => exact (ih hq).passes (passes_decref _ _)
  | target _ ht ha hs hkey hc ih =>
      exact (ih hq).passes (passes_setConnection hc ⟨rfl, rfl, rfl⟩ fun _ => ⟨rfl, rfl⟩)
  | unsent msgid bytes env _ ht ha hkey hc hl ih => exact ((ih hq).unsent hc).assign _ _ _
  | wait msgid request bytes env _ ht ha hkey hs hids hc hl ih =>
      refine ((ih hq).passes (passes_posted hc (by simp))).waitFor fun con' hc' => ?_
      -- A request that was sent was sent to an open connection.
      have ho := (ih hq).called_open hshape ht hs hc hl
      rcases setConnection_cases hc' with ⟨_, rfl⟩ | ⟨hne, _⟩
      · exact ho
      · exact absurd rfl hne
  | finished _ hs hi hr hout hrec htrace ih => exact (ih hq).assign _ _ _
  | deliver _ hr hids ih => exact (ih hq).assign _ _ _

end Completing

/-- **A closed connection leaves no call behind**: each call of its vector has returned, with an error
unless its own response had come, and so has every call that waits for it on the stack. -/
structure CallsCompleted (c : Core) : Prop where
  vector : ∀ id con, c.connections id = some con → con.tunnel.closed = true → ∀ i ∈ con.callvector,
    ∃ info, c.calls[i]? = some info ∧ info.returned = true ∧
      (info.errored = true ∨ ∃ error result, .answered id i info.msgid error result ∈ c.record)
  frames : ∀ e target cinfo kind callid con, Frame.call e target cinfo kind callid ∈ c.stack →
    c.connections target = some con → con.tunnel.closed = true →
    ∃ info, c.calls[cinfo]? = some info ∧ info.returned = true

theorem Completed.completed {W : World} {c : Core} (h : Completed c) (hm : Matched W c) :
    CallsCompleted c := by
  refine ⟨fun id con hc hcl i hi => ?_, fun e target cinfo kind callid con hf hc hcl => ?_⟩
  · obtain ⟨info, hinfo, hret⟩ := h.returned id con hc hcl i hi
    refine ⟨info, hinfo, hret, ?_⟩
    by_cases herr : info.errored = true
    · exact Or.inl herr
    · rw [hm.vector id con hc, List.mem_reverse] at hi
      obtain ⟨e, kind, callid, hf⟩ := mem_waiting hi
      obtain ⟨before, between, after, n, result, hrec, _⟩ :=
        hm.answered e id i kind callid hf info hinfo hret (Bool.eq_false_of_not_eq_true herr)
      refine Or.inr ⟨.nil, result, ?_⟩
      rw [hrec]
      simp
  · refine h.returned target con hc hcl cinfo ?_
    rw [hm.vector target con hc, List.mem_reverse]
    exact List.mem_filterMap.mpr ⟨_, hf, by simp [Frame.waits]⟩

end Core

open Core

/-- **Closing completes the calls**, in every run in which no callback closes a connection under a call
that has not returned. -/
theorem closing_completes_calls {W : World} {ls : List Label}
    (hq : Along (Core.step W) (fun c l _ => ∀ con ∈ hangsUp W c l, allReturned c con = true)
      Core.init ls) :
    Always (Core.step W) (fun c => c.halt = none → CallsCompleted c) Core.init ls := by
  have halways := always_running (W := W) (I := fun c => Matched W c ∧ Completed c)
    (G := fun c l => ∀ con ∈ hangsUp W c l, allReturned c con = true)
    ⟨matched_init W, fun _ _ hc => (nomatch hc), fun _ _ hc => (nomatch hc)⟩ ?_ hq
  · have hcompleted : ∀ c : Core, (c.halt = none → Ordered [] c ∧ Matched W c ∧ Completed c) →
        c.halt = none → CallsCompleted c :=
      fun c h hrun => (h hrun).2.2.completed (h hrun).2.1
    exact ⟨hcompleted _ halways.1, halways.2.imp fun _ _ _ => hcompleted _⟩
  · rintro c l c' hord ⟨hm, hs⟩ hg ha
    exact ⟨hm.at hord.2 ha, hs.at hm hord.1 ha hg⟩

/-- A plugin calls itself, and sends a response with another id. -/
def Sample.mismatchedCall : List Label :=
  .turn :: (Sample.connect 1 (Sample.fill 32 3) ++
    Sample.sends 1 5 (Sample.run 9 (Sample.pluginkey "03")) :: (Sample.turns 6 ++
      [Sample.sends 1 9 (Sample.response 2 .nil), .turn]))

/-- **A run that meets the condition**: the connection is closed because of the response, and its call
has returned. -/
theorem closing_completes_calls_sample :
    Along (Core.step Sample.world)
        (fun c l _ => ∀ con ∈ hangsUp Sample.world c l, allReturned c con = true) Core.init
        Sample.mismatchedCall ∧
      ∃ c con, exec (Core.step Sample.world) Core.init Sample.mismatchedCall = some c ∧
        c.connections 1 = some con ∧ con.tunnel.closed = true ∧ con.callvector = [0] ∧
        ∃ info, c.calls[0]? = some info ∧ info.returned = true := by
  have hquiet : Along (Core.step Sample.world)
      (fun c l _ => ∀ con ∈ hangsUp Sample.world c l, allReturned c con = true) Core.init
      Sample.mismatchedCall := by
    apply Sample.along_connect rfl <;> decide +kernel
  have hrun : (exec (Core.step Sample.world) Core.init Sample.mismatchedCall).any (fun c =>
      c.halt.isNone && (c.connections 1).any fun con =>
        con.tunnel.closed && decide (con.callvector = [0])) = true := by
    rw [Sample.mismatchedCall, Sample.exec_connect_append rfl]
    decide +kernel
  obtain ⟨c, hex, hc⟩ := (Option.any_eq_true _ _).mp hrun
  obtain ⟨hlive, hany⟩ := Bool.and_eq_true_iff.mp hc
  obtain ⟨con, hcon, hclosed⟩ := (Option.any_eq_true _ _).mp hany
  obtain ⟨hcl, hvec⟩ := Bool.and_eq_true_iff.mp hclosed
  have hvec := of_decide_eq_true hvec
  have hdone := (closing_completes_calls hquiet).exec hex (Option.isNone_iff_eq_none.mp hlive)
  obtain ⟨info, hinfo, hret, _⟩ := hdone.vector 1 con hcon hcl 0 (by rw [hvec]; simp)
  exact ⟨hquiet, c, con, hex, hcon, hcl, hvec, info, hinfo, hret⟩

/-- A plugin calls itself, and leaves. -/
def Sample.abandonedCall : List Label :=
  .turn :: (Sample.connect 1 (Sample.fill 32 3) ++
    Sample.sends 1 5 (Sample.run 9 (Sample.pluginkey "03")) :: (Sample.turns 6 ++
      .eof 1 :: Sample.turns 3))

/-- **A call that waits for ever**: its connection is closed and the streams are freed, the call is on the
stack and has not returned. -/
theorem abandoned_call_waits :
    ∃ c con, exec (Core.step Sample.world) Core.init Sample.abandonedCall = some c ∧ c.halt = none ∧
      c.connections 1 = some con ∧ con.tunnel.closed = true ∧ con.released = true ∧
      0 ∈ con.callvector ∧ ∃ info, c.calls[0]? = some info ∧ info.returned = false := by
  have hrun : (exec (Core.step Sample.world) Core.init Sample.abandonedCall).any (fun c =>
      c.halt.isNone && ((c.connections 1).any fun con =>
        con.tunnel.closed && con.released && decide (0 ∈ con.callvector)) &&
      (c.calls[0]?).any fun info => !info.returned) = true := by
    rw [Sample.abandonedCall, Sample.exec_connect_append rfl]
    decide +kernel
  obtain ⟨c, hex, hc⟩ := (Option.any_eq_true _ _).mp hrun
  simp only [Bool.and_eq_true, Option.any_eq_true, decide_eq_true_eq, Bool.not_eq_true'] at hc
  obtain ⟨⟨hlive, con, hcon, ⟨hcl, hrel⟩, hvec⟩, info, hinfo, hret⟩ := hc
  exact ⟨c, con, hex, Option.isNone_iff_eq_none.mp hlive, hcon, hcl, hrel, hvec, info, hinfo, hret⟩

end SploneBox
