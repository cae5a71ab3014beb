/-
# SploneBox.Undecoded — the bytes that the unpackers hold.

A packet that has been opened puts its bytes into the unpacker of the connection and pushes a `parse_cb`, whose
loop takes the values out again. No other function touches what an unpacker holds: a handler, a write, the close
of a connection and the return from a call leave the bytes of every connection that stays as they are
(`SameMpac`).

So a complete value can only be left behind where the loop ends. It ends when there is no complete value, with
the connection closed, or behind a response to the newest call. In the last case it does not look whether more
has come: a value behind such a response stays in the unpacker until the connection sends again. `strands` says
for each move whether it leaves one. In a run in which no move does, an open connection whose `parse_cb` has
returned has nothing left to decode (`Decoded`): what was received is handled.
-/
import SploneBox.Hangup
import SploneBox.Polling

namespace SploneBox

open Lib.Machine

namespace Core

variable {W : World} {id : Nat} {below : List Frame}

/-! ## §1 What leaves the bytes alone -/

/-- The connection has the same bytes to decode, and is not open again. -/
def SameBytes (a b : Connection) : Prop := b.mpac = a.mpac ∧ (b.tunnel.closed = false → a.tunnel.closed = false)

/-- The connections that are still there have the same bytes to decode. -/
def SameMpac (c c' : Core) : Prop :=
  ∀ id con', c'.connections id = some con' → ∃ con, c.connections id = some con ∧ SameBytes con con'

theorem SameBytes.refl (a : Connection) : SameBytes a a := ⟨rfl, fun h => h⟩

theorem SameBytes.trans {a b d : Connection} (h : SameBytes a b) (h' : SameBytes b d) : SameBytes a d :=
  ⟨h'.1.trans h.1, fun ho => h.2 (h'.2 ho)⟩

theorem SameMpac.of_eq {c c' : Core} (h : c'.connections = c.connections) : SameMpac c c' := by
  intro id con' hc
  exact ⟨con', by rw [← h, hc], SameBytes.refl con'⟩

theorem SameMpac.trans {c c' d : Core} (h : SameMpac c c') (h' : SameMpac c' d) : SameMpac c d := by
  intro id con'' hc
  obtain ⟨con', hc', hsame'⟩ := h' id con'' hc
  obtain ⟨con, hc, hsame⟩ := h id con' hc'
  exact ⟨con, hc, hsame.trans hsame'⟩

theorem SameMpac.ends {c c' : Core} (h : SameMpac c c') {x : Except Core Core}
    (hx : Ends (SameMpac c') (fun _ => True) x) : Ends (SameMpac c) (fun _ => True) x := by
  cases x with
  | ok d => exact h.trans hx
  | error d => trivial

theorem sameMpac_setConnection {c : Core} {i : Nat} {con con' : Connection} (hc : c.connections i = some con)
    (h : SameBytes con con') : SameMpac c (c.setConnection i con') := by
  intro id con'' hc''
  by_cases hi : id = i
  · subst hi
    obtain rfl := Option.some.inj ((setConnection_self c id con').symm.trans hc'')
    exact ⟨con, hc, h⟩
  · rw [setConnection_ne con' hi] at hc''
    exact ⟨con'', hc'', SameBytes.refl con''⟩

theorem sameMpac_modify (c : Core) (i : Nat) {f : Connection → Connection} (hf : ∀ con, SameBytes con (f con)) :
    SameMpac c (c.modify i f) := by
  unfold modify
  split
  · next con hc => exact sameMpac_setConnection hc (hf con)
  · exact SameMpac.of_eq rfl

theorem sameMpac_decref (c : Core) (i : Nat) : SameMpac c (c.decref i) := by
  unfold decref
  split
  · next con hc =>
      split
      · intro id con' hc'
        have hsome : (if id = i then none else c.connections id) = some con' := hc'
        split at hsome
        · cases hsome
        · exact ⟨con', hsome, SameBytes.refl con'⟩
      · exact sameMpac_setConnection hc ⟨rfl, fun ho => ho⟩
  · exact SameMpac.of_eq rfl

theorem sameMpac_cryptoWrite (c : Core) (i : Nat) (data : List MsgpackObject) (cause : Cause) :
    Ends (fun x => SameMpac c x.1) (fun _ => True) (c.cryptoWrite W i data cause) := by
  have hmove := cryptoWrite_move (W := W) c i data cause
  generalize c.cryptoWrite W i data cause = x at hmove ⊢
  cases hmove with
  | returned sent bytes env hc hl => exact sameMpac_setConnection hc ⟨rfl, fun ho => ho⟩
  | exited bytes env hc hl => trivial
  | lost w hid hsent hw hdata hcause => trivial

theorem SameMpac.of_notified {c c' : Core} (h : Notified c c') : SameMpac c c' := by
  intro id con' hc'
  have hrel := h.connections id
  rw [hc'] at hrel
  generalize c.connections id = o at hrel ⊢
  cases hrel with
  | @some con con' hsame => exact ⟨con, rfl, by rw [hsame.same], fun ho => hsame.closed ▸ ho⟩

theorem sameMpac_broadcastEvent (c : Core) (name : Option Bytes) (args : List Object) :
    Ends (SameMpac c) (fun _ => True) (broadcastEvent W c name args) := by
  cases hb : broadcastEvent W c name args with
  | error d => trivial
  | ok c' =>
      rcases broadcastEvent_cases hb with rfl | ⟨n, d, -, hn, rfl⟩
      · exact SameMpac.of_eq rfl
      · have hraise : SameMpac c (c.raise (cstr n) args) := SameMpac.of_eq rfl
        exact hraise.trans ((SameMpac.of_notified (notified_notify hn)).trans (SameMpac.of_eq rfl))

theorem sameMpac_respond (c : Core) (e : RequestEvent) (r : Reply) : Ends (SameMpac c) (fun _ => True)
    (respond W c e r) := by
  unfold respond
  split
  · exact sameMpac_decref c e.con
  · have hpack : SameMpac c (c.pack (serializeResponse e.msgid r.error r.result)) := SameMpac.of_eq rfl
    refine Ends.bind (P := fun x => SameMpac c x.1) ?_ ?_
    · have hw := sameMpac_cryptoWrite (W := W) (c.pack (serializeResponse e.msgid r.error r.result)) e.con
        (c.pack (serializeResponse e.msgid r.error r.result)).sbuf (.response e.tag)
      generalize Core.cryptoWrite W _ e.con _ _ = x at hw ⊢
      cases x with
      | ok x => exact hpack.trans hw
      | error d => trivial
    · rintro ⟨c', sent⟩ hc'
      have hclear : SameMpac c c'.clear := hc'.trans (SameMpac.of_eq rfl)
      exact hclear.trans (sameMpac_decref c'.clear e.con)

/-- A handler that runs at once leaves the bytes of every connection as they are. -/
theorem sameMpac_waitless {c : Core} {e : RequestEvent} (h : Handler.waitless e.func) :
    Ends (SameMpac c) (fun _ => True) (connectionRequestEvent W c e) := by
  unfold connectionRequestEvent
  split
  · trivial
  have hinvoked : SameMpac c { c with invoked := c.invoked ++ [(e.tag, e.func)] } := SameMpac.of_eq rfl
  refine hinvoked.ends ?_
  dsimp only
  rcases h (W.handlers e.tag) e.args with ⟨r, heff⟩ | ⟨name, a, heff⟩
  · rw [heff]
    exact sameMpac_respond _ e r
  · rw [heff]
    refine Ends.bind (sameMpac_broadcastEvent _ name a) ?_
    intro d hd
    exact hd.ends (sameMpac_respond d e _)

theorem sameMpac_sendError (c : Core) (i : Nat) (msgid : UInt64) (err : String) (cause : Cause) :
    Ends (SameMpac c) (fun _ => True) (c.sendError W i msgid err cause) := by
  unfold sendError
  dsimp only
  have hpack : SameMpac c (c.pack (serializeResponse msgid (some (validationError err)) .nil)) :=
    SameMpac.of_eq rfl
  have hw :=
    sameMpac_cryptoWrite (W := W) (c.pack (serializeResponse msgid (some (validationError err)) .nil)) i
    (c.pack (serializeResponse msgid (some (validationError err)) .nil)).sbuf cause
  generalize Core.cryptoWrite W _ i _ cause = x at hw ⊢
  cases x with
  | ok x => exact (hpack.trans hw).trans (SameMpac.of_eq rfl)
  | error d => trivial

theorem sameMpac_refuseInvalid (c : Core) (i : Nat) (v : Validation) :
    Ends (SameMpac c) (fun _ => True) (refuseInvalid W c i v) := by
  unfold refuseInvalid
  split
  · exact sameMpac_sendError c i _ _ _
  · exact SameMpac.of_eq rfl

theorem sameMpac_newRequest (c : Core) (i : Nat) (m : Message) : SameMpac c (c.newRequest i m) := by
  have hreceived : SameMpac c { c with received := c.received ++ [m] } := SameMpac.of_eq rfl
  exact hreceived.trans (sameMpac_modify _ i fun _ => ⟨rfl, fun ho => ho⟩)

theorem sameMpac_connectionHandleRequest (c : Core) (i : Nat) (obj : MsgpackObject) :
    Ends (SameMpac c) (fun _ => True) (connectionHandleRequest W c i obj) := by
  unfold connectionHandleRequest
  split
  · trivial
  · next v hv =>
      refine Ends.bind (sameMpac_refuseInvalid c i v) ?_
      intro d hd
      unfold dispatchRequest
      split
      · trivial
      · next dispatcher args hprep =>
          have hnew := sameMpac_newRequest d i ⟨i, obj, v.responseId⟩
          dsimp only
          split
          · next hasync =>
              exact (hd.trans hnew).ends
                (sameMpac_waitless (waitless_of_runsInRead (prepareRequest_async hprep hasync)))
          · exact (hd.trans hnew).trans (SameMpac.of_eq rfl)

theorem sameMpac_connectionSubscribe (c : Core) (i : Nat) (event : Bytes) :
    SameMpac c (c.connectionSubscribe i event) := by
  have hmod : ∀ d : Core, SameMpac d (d.modify i fun con =>
      if con.subscribedEvents.names.contains event then con
      else { con with subscribedEvents := ⟨true, con.subscribedEvents.names ++ [event]⟩ }) := by
    intro d
    refine sameMpac_modify d i fun con => ?_
    split
    · exact SameBytes.refl con
    · exact ⟨rfl, fun ho => ho⟩
  unfold connectionSubscribe
  dsimp only
  split
  · exact hmod c
  · exact (SameMpac.of_eq rfl).trans (hmod _)

theorem sameMpac_unsubscribe {c c' : Core} {i : Nat} {event : Bytes} (hu : c.unsubscribe i event = .ok c') :
    SameMpac c c' := by
  have hmod : SameMpac c (c.modify i fun con => { con with
      subscribedEvents := { con.subscribedEvents with
        names := con.subscribedEvents.names.filter (· != event) } }) :=
    sameMpac_modify c i fun _ => ⟨rfl, fun ho => ho⟩
  unfold unsubscribe at hu
  dsimp only at hu
  split at hu
  · split at hu
    · cases hu
      exact hmod
    · cases hu
      exact hmod.trans (SameMpac.of_eq rfl)
  · split at hu
    · cases hu
    · cases hu
      exact SameMpac.of_eq rfl

theorem sameMpac_posted {c : Core} {i : Nat} {con : Connection} {m : MsgpackObject} {cause : Cause}
    {sent : Bool} {bytes : Bytes} {env : WriteEnv} (hc : c.connections i = some con) :
    SameMpac c (c.posted W i con m cause sent bytes env) :=
  sameMpac_setConnection hc ⟨rfl, fun ho => ho⟩

theorem sameMpac_waitFor (c : Core) (e : RequestEvent) (i : Nat) (msgid : UInt64) (kind : CallKind)
    (callid : UInt64) : SameMpac c (c.waitFor e i msgid kind callid) := by
  intro j con' hc'
  obtain ⟨con, hc, ⟨-, rfl⟩ | ⟨-, rfl⟩⟩ := waitFor_connections hc'
  · exact ⟨_, hc, SameBytes.refl _⟩
  · exact ⟨con, hc, rfl, fun ho => ho⟩

theorem sameMpac_connectionClose (c : Core) (i : Nat) : SameMpac c (c.connectionClose i) := by
  unfold connectionClose
  split
  · exact SameMpac.of_eq rfl
  · next con hc =>
      split
      · exact sameMpac_decref c i
      · have hset : SameMpac c (c.setConnection i { con with tunnel := { con.tunnel with closed := true } }) :=
          sameMpac_setConnection hc ⟨rfl, fun ho => nomatch ho⟩
        exact hset.trans (SameMpac.of_eq rfl)

/-- `connection_close` leaves the connection closed. -/
theorem closed_connectionClose {c : Core} {i : Nat} {con' : Connection}
    (hc' : (c.connectionClose i).connections i = some con') : con'.tunnel.closed = true := by
  obtain ⟨con, hc, -, hopen⟩ := sameMpac_connectionClose c i i con' hc'
  cases hcl : con.tunnel.closed with
  | true =>
      by_contra hno
      rw [hopen (Bool.eq_false_of_not_eq_true hno)] at hcl
      cases hcl
  | false =>
      rw [connectionClose_open hc hcl] at hc'
      obtain rfl := Option.some.inj ((setConnection_self _ _ _).symm.trans hc')
      rfl

theorem sameMpac_closeReturned (c : Core) (i : Nat) : SameMpac c (c.closeReturned i) := by
  have hrel : SameMpac c (c.modify i fun con => { con with released := true }) :=
    sameMpac_modify c i fun _ => ⟨rfl, fun ho => ho⟩
  exact (hrel.trans (sameMpac_decref _ i)).trans (sameMpac_decref _ i)

/-- The receiving half of `parse_cb`. -/
theorem sameMpac_parsed {c : Core} {i : Nat} {con : Connection} (seg : Bytes) (env : ReadEnv)
    (hc : c.connections i = some con) : SameMpac c (c.parsed i con (c.parseData W con seg env)) := by
  have hset : SameMpac c (c.setConnection i { con with
      tunnel := (c.parseData W con seg env).tunnel
      refcount := con.refcount + 1 }) :=
    sameMpac_setConnection hc ⟨rfl, fun ho => (parseData_closed W c con seg env).symm.trans ho⟩
  unfold parsed
  dsimp only
  split
  · exact hset.trans (SameMpac.of_eq rfl)
  · exact hset

/-! ## §2 What is left to decode -/

/-- **Nothing waits to be decoded**: an open connection that is in no `parse_cb` has no complete value in its
unpacker. -/
def Decoded (W : World) (c : Core) : Prop :=
  ∀ i con, c.connections i = some con → con.tunnel.closed = false → Frame.parse i ∉ c.stack →
    ∀ obj rest, W.msgpack.next con.mpac ≠ .success obj rest

/-- A move that leaves the bytes alone and takes no `parse_cb` off the stack. -/
theorem Decoded.move {c c' : Core} (h : Decoded W c) (hs : SameMpac c c')
    (hframes : ∀ i, Frame.parse i ∈ c.stack → Frame.parse i ∈ c'.stack) : Decoded W c' := by
  intro i con' hc' ho hf
  obtain ⟨con, hc, hmpac, hopen⟩ := hs i con' hc'
  rw [hmpac]
  exact h i con hc (hopen ho) fun hin => hf (hframes i hin)

theorem Decoded.same {c c' : Core} (h : Decoded W c) (hs : SameMpac c c') (hstack : c'.stack = c.stack) :
    Decoded W c' :=
  h.move hs fun _ hin => hstack ▸ hin

/-- Another frame than a `parse_cb` goes. -/
theorem Decoded.pop {c : Core} {f : Frame} (h : Decoded W c) (hs : c.stack = f :: below)
    (hf : ∀ i, f ≠ .parse i) : Decoded W { c with stack := below } := by
  refine h.move (SameMpac.of_eq rfl) ?_
  intro i hin
  rw [hs] at hin
  rcases List.mem_cons.mp hin with hin | hin
  · exact absurd hin.symm (hf i)
  · exact hin

theorem Decoded.push {c : Core} (h : Decoded W c) (f : Frame) : Decoded W { c with stack := f :: c.stack } :=
  h.move (SameMpac.of_eq rfl) fun _ hin => List.mem_cons_of_mem _ hin

theorem Decoded.connectionClose {c : Core} (h : Decoded W c) (i : Nat) : Decoded W (c.connectionClose i) := by
  refine h.move (sameMpac_connectionClose c i) ?_
  intro j hin
  unfold Core.connectionClose
  split
  · exact hin
  · split
    · rw [decref_stack]
      exact hin
    · exact List.mem_cons_of_mem _ hin

theorem Decoded.readCb {c : Core} {i : Nat} {con : Connection} {seg : Bytes} {env : ReadEnv} (h : Decoded W c)
    (hc : c.connections i = some con) (hab : (c.parseData W con seg env).outcome ≠ .aborted) :
    Decoded W (c.readCb W i con seg env) := by
  have hparsed : Decoded W (c.parsed i con (c.parseData W con seg env)) :=
    h.same (sameMpac_parsed seg env hc) (parsed_stack _ _ _ _)
  unfold Core.readCb
  dsimp only
  split
  · exact hparsed.same (sameMpac_decref _ i) (decref_stack _ i)
  · exact hparsed.connectionClose i
  · next hout => exact absurd hout hab
  · next plain _ =>
      -- The bytes of the connection are for the `parse_cb` that is pushed.
      intro j con' hc' ho hf
      have hne : j ≠ i := by
        rintro rfl
        exact hf List.mem_cons_self
      refine hparsed j con' ?_ ho ?_
      · exact ((modify_connections _ i _ j).trans (if_neg hne)).symm.trans hc'
      · rw [← modify_stack _ i fun con => { con with mpac := con.mpac ++ plain }]
        exact fun hin => hf (List.mem_cons_of_mem _ hin)

/-- **Nothing waits at any place of a move**, unless the move starts in a `parse_cb`. -/
theorem Decoded.at {c₀ c : Core} {l : Label} {k : List Hold} (h : Decoded W c₀)
    (hempty : ∀ obj rest, W.msgpack.next [] ≠ .success obj rest)
    (hparse : ∀ i below, c₀.stack ≠ .parse i :: below) (ha : At W c₀ l k c) : Decoded W c := by
  induction ha with
  | start => exact h
  | pushLoop hs hf => exact h.push _
  | popLoop hs hf => exact h.pop hs (by rintro i rfl; cases hf)
  | popParse hs => exact absurd hs (hparse _ _)
  | unpacked hs => exact absurd hs (hparse _ _)
  | response hs => exact absurd hs (hparse _ _)
  | mismatch hs => exact absurd hs (hparse _ _)
  | dequeue hs ht => exact h.same (SameMpac.of_eq rfl) rfl
  | @returned e target cinfo kind callid below con info c hs hc hi hr hf =>
      have hpop : Decoded W ({ c₀ with stack := below }.setConnection target (popped con)) :=
        (h.pop hs nofun).same (sameMpac_setConnection hc ⟨rfl, fun ho => ho⟩) rfl
      have hn := notified_flush hf
      exact hpop.same (SameMpac.of_notified hn) (by rw [hn.same])
  | closeReturned hs => exact (h.pop hs nofun).same (sameMpac_closeReturned _ _) (closeReturned_stack _ _)
  | read hc hu hl hfit hab => exact h.readCb hc hab
  | @eof i con hc hu hl =>
      have hset : Decoded W (c₀.setConnection i { con with refcount := con.refcount + 1, reading := false }) :=
        h.same (sameMpac_setConnection hc ⟨rfl, fun ho => ho⟩) rfl
      exact hset.connectionClose i
  | @create env hu =>
      intro i con' hc' ho hf
      rcases setConnection_cases hc' with ⟨-, rfl⟩ | ⟨-, hc⟩
      · exact hempty
      · exact h i con' hc ho hf
  | tick hc ho => exact h.same (sameMpac_setConnection hc ⟨rfl, fun ho => ho⟩) rfl
  | decref _ ih => exact ih.same (sameMpac_decref _ _) (decref_stack _ _)
  | error sent bytes env _ hh hc hl hcause ih =>
      exact ih.same ((sameMpac_posted hc).trans (SameMpac.of_eq rfl)) rfl
  | newRequest _ hp hv hprep ih => exact ih.same (sameMpac_newRequest _ _ _) (modify_stack _ _ _)
  | enqueue _ ih => exact ih.same (SameMpac.of_eq rfl) rfl
  | invoke _ ih => exact ih.same (SameMpac.of_eq rfl) rfl
  | subscribe event _ hc ho ih =>
      exact ih.same (sameMpac_connectionSubscribe _ _ _) (settles_connectionSubscribe _ _ _).stack
  | @unsubscribe _ _ c c' i event _ hu ih =>
      have hsettles := settles_unsubscribe c i event
      rw [hu] at hsettles
      exact ih.same (sameMpac_unsubscribe hu) hsettles.stack
  | @broadcast _ _ c c' name args _ hn hf hb ih =>
      have hsame := sameMpac_broadcastEvent (W := W) c name args
      have hsettles := settles_broadcastEvent (W := W) c name args
      rw [hb] at hsame hsettles
      exact ih.same hsame hsettles.stack
  | putCallid _ ht heff hids hconns ih => exact ih.same (SameMpac.of_eq rfl) rfl
  | answer sent bytes env _ hm hc hl ih => exact ih.same ((sameMpac_posted hc).trans (SameMpac.of_eq rfl)) rfl
  | silent _ hm ih => exact ih.same (sameMpac_decref _ _) (decref_stack _ _)
  | target _ ht ha hs hkey hc ih => exact ih.same (sameMpac_setConnection hc ⟨rfl, fun ho => ho⟩) rfl
  | unsent msgid bytes env _ ht ha hkey hc hl ih =>
      exact ih.same ((sameMpac_posted hc).trans (SameMpac.of_eq rfl)) rfl
  | wait msgid request bytes env _ ht ha hkey hs hids hc hl ih =>
      refine Decoded.move ?_ (sameMpac_waitFor _ _ _ _ _ _) ?_
      · exact ih.same ((sameMpac_posted hc).trans (SameMpac.of_eq rfl)) rfl
      · intro i hin
        rw [waitFor_stack]
        exact List.mem_cons_of_mem _ hin
  | finished _ hs hi hr hout hrec htrace ih => exact ih.same (SameMpac.of_eq rfl) rfl
  | deliver _ hr hids ih => exact ih.same (SameMpac.of_eq rfl) rfl

/-! ## §3 The moves of `parse_cb` -/

/-- No callback runs while the loop does. -/
theorem parse_only_turn {c c' : Core} {l : Label} (hs : c.stack = .parse id :: below)
    (h : c.step W l = some c') : l = .turn := by
  have huv : c.inUvRun = false := by
    unfold inUvRun
    rw [hs]
    rfl
  unfold Core.step at h
  split at h
  · cases h
  cases l with
  | turn => rfl
  | accept env => simp [huv] at h
  | read id seg env =>
      dsimp only at h
      split at h
      · cases h
      · simp [huv] at h
  | eof id =>
      dsimp only at h
      split at h
      · cases h
      · simp [huv] at h
  | tick id fresh =>
      dsimp only at h
      split at h
      · cases h
      · simp [huv] at h

/-- A move that handles a response to the newest call and leaves a complete value behind it. -/
def strands (W : World) (c : Core) : Label → Bool
  | .turn =>
      match c.stack with
      | .parse i :: _ => (c.connections i).any fun con =>
          match W.msgpack.next con.mpac with
          | .success obj rest =>
              match rpcResponse obj, W.msgpack.next rest with
              | some (msgid, _, _), .success _ _ => (c.newestCall con msgid).isSome
              | _, _ => false
          | _ => false
      | _ => false
  | _ => false

/-- Inside `uv_run` there is one `parse_cb` at most. -/
theorem no_parse_of_uvRun {i : Nat} {stack : List Frame} (hshape : Shape stack) (hu : uvRun stack = true) :
    Frame.parse i ∉ stack := by
  induction stack with
  | nil => exact List.not_mem_nil
  | cons f rest ih =>
      intro hin
      cases f with
      | poll =>
          rcases List.mem_cons.mp hin with hin | hin
          · cases hin
          · cases no_uvRun_of_loopHead hshape.2 hshape.1 _ hin
      | close j =>
          rcases List.mem_cons.mp hin with hin | hin
          · cases hin
          · exact ih hshape.2 hshape.1 hin
      | parse j => cases hu
      | drain queue => cases hu
      | call e target cinfo kind callid => cases hu

/-- How a round of `parse_cb` leaves its connection: the loop goes on, it is closed, there is nothing left, or
there is what stands behind a response to the newest call. -/
inductive Left (W : World) (c c' : Core) (id : Nat) (con : Connection) (left : Bytes) : Prop
  | parsing (hf : Frame.parse id ∈ c'.stack)
  | closed (hcl : ∀ con', c'.connections id = some con' → con'.tunnel.closed = true)
  | empty (hn : ∀ obj rest, W.msgpack.next left ≠ .success obj rest)
  | behind {obj : MsgpackObject} {msgid : UInt64} {error result : MsgpackObject} {cinfo : Nat}
      (hn : W.msgpack.next con.mpac = .success obj left) (hr : rpcResponse obj = some (msgid, error, result))
      (hv : c.newestCall con msgid = some cinfo)

/-- A round of `parse_cb` takes bytes from its own connection only. -/
theorem Parsed.left {c c' : Core} {con : Connection} (h : Parsed W c id con c')
    (hc : c.connections id = some con) :
    ∃ left, SameMpac (c.setConnection id { con with mpac := left }) c' ∧ Left W c c' id con left := by
  have hself : c.setConnection id { con with mpac := con.mpac } = c := by
    unfold setConnection
    congr 1
    funext i
    split
    · next hi => rw [hi, hc]
    · rfl
  cases h with
  | more hn =>
      refine ⟨con.mpac, ?_, .empty fun obj rest heq => nomatch hn.symm.trans heq⟩
      rw [hself]
      exact sameMpac_decref c id
  | @undecodable d msg hn hsend =>
      have hmpac := sameMpac_sendError (W := W) c id 0 msg .undecodable
      rw [hsend] at hmpac
      refine ⟨con.mpac, ?_, .empty fun obj rest heq => nomatch hn.symm.trans heq⟩
      rw [hself]
      exact SameMpac.trans hmpac (sameMpac_decref d id)
  | @response obj rest msgid error result cinfo hn hr hv =>
      exact ⟨rest, (SameMpac.of_eq rfl).trans (sameMpac_decref _ id), .behind hn hr hv⟩
  | @mismatch obj rest msgid error result hn hr hv =>
      exact ⟨rest, (SameMpac.of_eq rfl).trans (sameMpac_connectionClose _ id),
        .closed fun con' hc' => closed_connectionClose hc'⟩
  | @request obj rest d hn hr hgo =>
      have hstack := connectionHandleRequest_stack (W := W)
        { c.unpacked id con rest with stack := .parse id :: (c.unpacked id con rest).stack } id obj
      have hmpac := sameMpac_connectionHandleRequest (W := W)
        { c.unpacked id con rest with stack := .parse id :: (c.unpacked id con rest).stack } id obj
      rw [hgo] at hstack hmpac
      refine ⟨rest, (SameMpac.of_eq rfl).trans hmpac, .parsing ?_⟩
      rw [show c'.stack = _ from hstack]
      exact List.mem_cons_self

/-- **A move of `parse_cb`** that strands nothing: its frame goes when there is nothing left, or when the
connection is closed. -/
theorem Decoded.parse {c c' : Core} (h : Decoded W c) (hshape : Shape c.stack)
    (hs : c.stack = .parse id :: below) (hstrands : strands W c .turn = false) (ht : c.turn W = .ok c') :
    Decoded W c' := by
  obtain ⟨con, hc, hparsed⟩ := parsed_of_turn hs ht
  obtain ⟨left, hsame, hleft⟩ := hparsed.left hc
  rw [hs] at hshape
  intro i con' hc' ho hf
  obtain ⟨con₀, hc₀, hmpac, hopen⟩ := hsame i con' hc'
  rw [hmpac]
  rcases setConnection_cases hc₀ with ⟨rfl, rfl⟩ | ⟨hi, hc₀⟩
  · cases hleft with
    | parsing hin => exact absurd hin hf
    | closed hcl =>
        rw [hcl con' hc'] at ho
        cases ho
    | empty hn => exact hn
    | @behind obj msgid error result cinfo hn hr hv =>
        intro obj' rest hnext
        have hv' : c.newestCall con msgid = some cinfo := hv
        have hnext' : W.msgpack.next left = .success obj' rest := hnext
        have hstranded : strands W c .turn = true := by
          simp only [strands, hs, hc, Option.any_some, hn, hr, hnext', hv', Option.isSome_some]
        rw [hstrands] at hstranded
        cases hstranded
  · -- the other connections are in no `parse_cb`
    refine h i con₀ hc₀ (hopen ho) ?_
    rw [hs]
    intro hin
    rcases List.mem_cons.mp hin with hin | hin
    · exact hi (Frame.parse.inj hin)
    · exact no_parse_of_uvRun hshape.2 hshape.1 hin

/-- **What has been received is decoded**, move by move. -/
theorem Decoded.step {c c' : Core} {l : Label} (h : Decoded W c) (hord : Ordered [] c)
    (hempty : ∀ obj rest, W.msgpack.next [] ≠ .success obj rest) (hstrands : strands W c l = false)
    (hs : c.step W l = some c') (ha : At W c l [] c') (hlive : c'.halt = none) : Decoded W c' := by
  by_cases hparse : ∃ i below, c.stack = .parse i :: below
  · obtain ⟨i, below, hstack⟩ := hparse
    obtain rfl := parse_only_turn hstack hs
    exact h.parse hord.1 hstack hstrands (turn_returns hord hs hlive)
  · exact h.at hempty (fun i below hstack => hparse ⟨i, below, hstack⟩) ha

end Core

end SploneBox
