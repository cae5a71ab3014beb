/-
# SploneBox.Polling — the event loop is never polled inside itself.

`loop_poll_events` counts how often it is running and aborts when it is entered a second time. The counter is
the number of `poll` frames on the stack. A handler that waits starts a loop of its own, so it must not run
inside `uv_run`; the dispatch table decides which handlers do. `Shape` has the nesting, and what follows from
it is said here of whole runs: where a loop starts nothing polls, a call waits outside of every `uv_run`, and
what `parse_cb` runs at once never waits.
-/
import SploneBox.Calls
import SploneBox.Progress

namespace SploneBox

open Lib.Machine

namespace Core

/-! ## §1 The nesting of frames -/

/-- `loop->recursive`. -/
def recursive (c : Core) : Nat := c.stack.countP Frame.isPoll

/-- The frames that run inside `uv_run`, and `uv_run` itself. -/
def Frame.inUvRun : Frame → Bool
  | .poll => true
  | .close _ => true
  | .parse _ => true
  | _ => false

/-- **Loops start outside of `uv_run`**: below the head of a loop nothing polls. -/
theorem no_uvRun_of_loopHead {stack : List Frame} (h : Shape stack) (hh : LoopHead stack) :
    ∀ f ∈ stack, Frame.inUvRun f = false := by
  induction hn : stack.length using Nat.strong_induction_on generalizing stack with
  | _ n ih =>
      cases hh with
      | main =>
          intro f hf
          cases hf
      | call e target cinfo kind callid rest =>
          -- a call is made from the event queue, and the queue is processed in a loop
          obtain ⟨⟨queue, below, rfl⟩, hhead, hshape⟩ := h
          intro f hf
          rcases List.mem_cons.mp hf with rfl | hf
          · rfl
          rcases List.mem_cons.mp hf with rfl | hf
          · rfl
          · refine ih below.length ?_ hshape hhead rfl f hf
            rw [← hn, List.length_cons, List.length_cons]
            omega

theorem no_polls {stack : List Frame} (h : Shape stack) (hh : LoopHead stack) :
    stack.countP Frame.isPoll = 0 := by
  rw [List.countP_eq_zero]
  intro f hf hpoll
  have hout := no_uvRun_of_loopHead h hh f hf
  cases f with
  | poll => cases hout
  | _ => cases hpoll

/-- At most one frame polls. -/
theorem polls_le_one {stack : List Frame} (h : Shape stack) : stack.countP Frame.isPoll ≤ 1 := by
  induction stack with
  | nil => exact Nat.zero_le _
  | cons f rest ih =>
      cases f with
      | poll => rw [List.countP_cons_of_pos rfl, no_polls h.2 h.1]
      | drain queue => exact ih h.2
      | close id => exact ih h.2
      | parse id => exact ih h.2
      | call e target cinfo kind callid => exact ih h.2

/-- The part of a stack below a frame has its shape too. -/
theorem Shape.below : ∀ {above below : List Frame} {f : Frame}, Shape (above ++ f :: below) →
    Shape (f :: below)
  | [], _, _, h => h
  | .poll :: _, _, _, h => Shape.below h.2
  | .drain _ :: _, _, _, h => Shape.below h.2
  | .close _ :: _, _, _, h => Shape.below h.2
  | .parse _ :: _, _, _, h => Shape.below h.2
  | .call _ _ _ _ _ :: _, _, _, h => Shape.below h.2

theorem loopHead_of_loops {c : Core} (h : c.loops = true) : LoopHead c.stack := by
  unfold loops at h
  split at h
  · rename_i hs
    rw [hs]
    exact .main
  · rename_i e target cinfo kind callid rest hs
    rw [hs]
    exact .call e target cinfo kind callid rest
  · cases h

/-! ## §2 What `parse_cb` runs -/

variable {W : World} {c c' : Core} {id : Nat} {con : Connection}

/-- A handler that never waits: it answers, or broadcasts an event and answers. -/
def Handler.waitless (func : Handler) : Prop :=
  ∀ env args, (∃ r, func.call env args = .reply r) ∨ ∃ name a, func.call env args = .broadcast name a

theorem waitless_of_runsInRead {func : Handler} (h : func.runsInRead) : Handler.waitless func := by
  intro env args
  rcases h with rfl | rfl | rfl
  · exact Or.inl ⟨_, rfl⟩
  · exact Or.inl ⟨_, rfl⟩
  · exact handleBroadcast_cases args

theorem settles_waitless {e : RequestEvent} (h : Handler.waitless e.func) :
    Ends (Settles c) (fun _ => True) (connectionRequestEvent W c e) := by
  unfold connectionRequestEvent
  split
  · trivial
  have hinv : Settles c { c with invoked := c.invoked ++ [(e.tag, e.func)] } :=
    settles_of_eq rfl rfl rfl rfl
  refine hinv.ends ?_
  dsimp only
  rcases h (W.handlers e.tag) e.args with ⟨r, heff⟩ | ⟨name, a, heff⟩
  · rw [heff]
    exact settles_respond _ e _
  · rw [heff]
    refine Ends.bind (settles_broadcastEvent _ name a) ?_
    intro d hd
    exact hd.ends (settles_respond d e _)

/-- **Handling a message inside `parse_cb` leaves the stack as it is.** -/
theorem connectionHandleRequest_stack (c : Core) (id : Nat) (obj : MsgpackObject) :
    Ends (fun d => d.stack = c.stack) (fun _ => True) (connectionHandleRequest W c id obj) := by
  unfold connectionHandleRequest
  split
  · trivial
  · rename_i v hv
    have hrefuse : Ends (Settles c) (fun _ => True) (refuseInvalid W c id v) := by
      unfold refuseInvalid
      split
      · exact settles_sendError c id _ _ _
      · exact Settles.refl c
    refine Ends.bind hrefuse ?_
    intro d hd
    unfold dispatchRequest
    split
    · trivial
    · rename_i dispatcher args hprep
      have hnew : (d.newRequest id ⟨id, obj, v.responseId⟩).stack = c.stack := by
        have hinc := settles_modify { d with received := d.received ++ [⟨id, obj, v.responseId⟩] } id
          (f := fun con => { con with refcount := con.refcount + 1 }) fun _ => rfl
        exact hinc.stack.trans hd.stack
      dsimp only
      split
      · rename_i hasync
        have hrun := settles_waitless (W := W) (c := d.newRequest id ⟨id, obj, v.responseId⟩)
          (e := ⟨id, d.received.length, dispatcher.func, args, v.responseId⟩)
          (waitless_of_runsInRead (prepareRequest_async hprep hasync))
        generalize connectionRequestEvent W _ _ = x at hrun ⊢
        cases x with
        | error d' => trivial
        | ok d' => exact hrun.stack.trans hnew
      · exact hnew

/-- What a round of `parse_cb` that the process survives comes to, in a core whose frame is off the stack. -/
inductive Parsed (W : World) (c : Core) (id : Nat) (con : Connection) : Core → Prop
  /-- The unpacker has no whole object. -/
  | more (hn : W.msgpack.next con.mpac = .more) : Parsed W c id con (c.decref id)
  /-- The bytes are no object, and the plugin is told so. -/
  | undecodable {d : Core} (msg : String) (hn : W.msgpack.next con.mpac = .parseError)
      (hsend : sendError W c id 0 msg .undecodable = .ok d) : Parsed W c id con (d.decref id)
  /-- The object answers the newest call. -/
  | response {obj : MsgpackObject} {rest : Bytes} {msgid : UInt64} {error result : MsgpackObject} {cinfo : Nat}
      (hn : W.msgpack.next con.mpac = .success obj rest) (hr : rpcResponse obj = some (msgid, error, result))
      (hv : c.newestCall con msgid = some cinfo) :
      Parsed W c id con
        (((c.unpacked id con rest).connectionHandleResponse W id cinfo msgid error result).decref id)
  /-- It answers another one, and the connection is closed. -/
  | mismatch {obj : MsgpackObject} {rest : Bytes} {msgid : UInt64} {error result : MsgpackObject}
      (hn : W.msgpack.next con.mpac = .success obj rest) (hr : rpcResponse obj = some (msgid, error, result))
      (hv : c.newestCall con msgid = none) :
      Parsed W c id con (((c.unpacked id con rest).callSetError con.callvector).connectionClose id)
  /-- It is handled as a request, and the next round follows. -/
  | request {obj : MsgpackObject} {rest : Bytes} {d : Core} (hn : W.msgpack.next con.mpac = .success obj rest)
      (hr : rpcResponse obj = none)
      (hgo : connectionHandleRequest W
        { c.unpacked id con rest with stack := .parse id :: (c.unpacked id con rest).stack } id obj = .ok d) :
      Parsed W c id con d

theorem parsed_of_parseObject (h : parseObject W c id con = .ok c') : Parsed W c id con c' := by
  unfold parseObject at h
  split at h
  · cases h
  split at h
  · rename_i hn
    cases h
    exact .more hn
  · rename_i hn
    cases hsend : sendError W c id 0
        "Invalid msgpack payload. This error can also happen when deserializing an object with high level of nesting"
        .undecodable with
    | error d =>
        rw [hsend] at h
        cases h
    | ok d =>
        rw [hsend] at h
        cases h
        exact .undecodable _ hn hsend
  · rename_i obj rest hn
    dsimp only at h
    split at h
    · rename_i msgid error result hr
      split at h
      · rename_i cinfo hv
        cases h
        exact .response hn hr hv
      · rename_i hv
        cases h
        exact .mismatch hn hr hv
    · rename_i hr
      exact .request hn hr h

/-- **A turn of `parse_cb` is a round of it**, on a connection that is there. -/
theorem parsed_of_turn {below : List Frame} (hs : c.stack = .parse id :: below) (ht : c.turn W = .ok c') :
    ∃ con, c.connections id = some con ∧ Parsed W { c with stack := below } id con c' := by
  unfold turn at ht
  rw [hs] at ht
  dsimp only at ht
  split at ht
  · cases ht
  · rename_i con hc
    exact ⟨con, hc, parsed_of_parseObject ht⟩

/-- **A move of `parse_cb` makes no call**: its own frame may go, or become one of `connection_close`. -/
theorem parse_calls {below : List Frame} (hs : c.stack = .parse id :: below)
    (ht : c.turn W = .ok c') : callFrames c'.stack = callFrames c.stack := by
  have hbelow : callFrames c.stack = callFrames below := by
    rw [hs]
    rfl
  obtain ⟨con, -, hparsed⟩ := parsed_of_turn hs ht
  cases hparsed with
  | more => rw [decref_stack, hbelow]
  | undecodable msg hn hsend =>
      have hstack := settles_sendError (W := W) { c with stack := below } id 0 msg .undecodable
      rw [hsend] at hstack
      rw [decref_stack, hstack.stack, hbelow]
  | response =>
      rw [decref_stack, hbelow]
      rfl
  | mismatch =>
      unfold connectionClose
      split
      · exact hbelow.symm
      · split
        · rw [decref_stack, hbelow]
          rfl
        · exact hbelow.symm
  | @request obj rest d hn hr hgo =>
      have hrun := connectionHandleRequest_stack (W := W) { { c with stack := below }.unpacked id con rest with
        stack := .parse id :: ({ c with stack := below }.unpacked id con rest).stack } id obj
      rw [hgo] at hrun
      rw [show c'.stack = .parse id :: below from hrun, hs]

/-! ## §3 Every run -/

/-- **The nesting of a running core.** -/
structure PollsOnce (c : Core) : Prop where
  /-- Where the next move starts a loop, nothing polls. -/
  idle : c.loops = true → c.recursive = 0
  once : c.recursive ≤ 1
  /-- A call was made from the event queue, outside of every `uv_run`. -/
  outside : ∀ above e target cinfo kind callid below,
    c.stack = above ++ .call e target cinfo kind callid :: below →
      (∃ queue rest, below = .drain queue :: rest) ∧ ∀ f ∈ below, Frame.inUvRun f = false

theorem Ordered.pollsOnce (h : Ordered [] c) : PollsOnce c := by
  refine ⟨fun hl => no_polls h.1 (loopHead_of_loops hl), polls_le_one h.1,
    fun above e target cinfo kind callid below hs => ?_⟩
  have hshape := h.1
  rw [hs] at hshape
  have hcall := hshape.below
  refine ⟨hcall.1, fun f hf => ?_⟩
  exact no_uvRun_of_loopHead hcall (.call e target cinfo kind callid below) f (List.mem_cons_of_mem _ hf)

/-- A move that starts a loop does not end the process. -/
theorem loops_survives (h : Shape c.stack) (hl : c.loops = true) (hrun : c.halt = none) :
    (settle (c.turn W)).halt = none := by
  have hpoll : c.stack.any Frame.isPoll = false := by
    have hzero := no_polls h (loopHead_of_loops hl)
    rw [List.countP_eq_zero] at hzero
    rw [List.any_eq_false]
    exact hzero
  have hloop : ∀ queue, (settle (c.loopProcessEvents queue)).halt = none := by
    intro queue
    unfold loopProcessEvents
    split
    · exact hrun
    · rw [hpoll]
      exact hrun
  unfold loops at hl
  unfold turn
  split at hl
  · rename_i hs
    rw [hs]
    exact hloop none
  · rename_i e target cinfo kind callid rest hs
    rw [hs]
    unfold unanswered at hl
    rw [Bool.not_eq_true'] at hl
    dsimp only
    rw [hl]
    exact hloop (some target)
  · cases hl

/-- What a move does to the nesting: the start of a loop survives, and a move of `parse_cb` makes no call. -/
structure KeepsNesting (c : Core) (l : Label) (c' : Core) : Prop where
  polled : l = .turn → c.loops = true → c'.halt = none
  inside : ∀ id below, l = .turn → c.stack = .parse id :: below → c'.halt = none →
    callFrames c'.stack = callFrames c.stack

end Core

open Core

/-- **The event loop is never polled recursively.** In every state of every run the nesting is right, every
move keeps it, and whatever `parse_cb` runs at once is a handler that does not wait. -/
theorem loop_not_polled_recursively (W : World) (ls : List Label) :
    Always (Core.step W) (fun c => c.halt = none → PollsOnce c) Core.init ls ∧
      Along (Core.step W) KeepsNesting Core.init ls ∧
      ∀ obj d args, prepareRequest obj = .ok (d, args) → d.async = true → Handler.waitless d.func := by
  have halways : Always (Core.step W) (fun c => c.halt = none → Ordered [] c ∧ True) Core.init ls :=
    always_running trivial (fun _ _ _ _ _ _ _ => trivial) along_true
  refine ⟨⟨fun h => (halways.1 h).1.pollsOnce, halways.2.imp fun _ _ _ h hrun => (h hrun).1.pollsOnce⟩, ?_,
    fun obj d args hprep hasync => waitless_of_runsInRead (prepareRequest_async hprep hasync)⟩
  refine along_of_invariant (I := fun _ => True) ?_ trivial halways.along
  intro c l c' _ hord hs
  have hrun := running_of_step hs
  obtain ⟨hord, _⟩ := hord hrun
  refine ⟨trivial, fun hl hloops => ?_, fun id below hl hstack hend => ?_⟩
  · subst hl
    unfold Core.step at hs
    rw [hrun] at hs
    cases hs
    exact loops_survives hord.1 hloops hrun
  · subst hl
    unfold Core.step at hs
    rw [hrun] at hs
    cases hs
    cases ht : c.turn W with
    | ok d => exact parse_calls hstack ht
    | error d =>
        have hd := @At.turn W c
        rw [ht] at hd hend
        exact absurd hend (hord.died hd)

end SploneBox
