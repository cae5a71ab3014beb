/-
# SploneBox.References — the reference counts, to the last reference.

`Balanced` says that a count is never too small, which is what memory safety needs. Here the counts are
exact. A connection has a reference of its own until `connection_close` gives it up, one for each `parse_cb`,
for each request event and for each call that waits for it, and one more for each request that
`connection_send_request` could not write: it returns at once there and keeps what it has taken (`leaked`).
So the counts are those of the holders in exactly the runs in which no request is left unwritten.
-/
import SploneBox.Calls
import SploneBox.Lifetime

namespace SploneBox

open Lib.Machine

namespace Core

/-! ## §1 The counts -/

/-- A request to the connection that could not be written. -/
def Write.leaks (id : Nat) (w : Write) : Bool := decide (w.cause = .request) && !w.sent && w.con == id

/-- The references that `connection_send_request` has kept. -/
def leaked (c : Core) (id : Nat) : Nat := c.trace.countP (Write.leaks id)

/-- **Every reference has a holder, or was kept.** -/
def Counted (k : List Hold) (c : Core) : Prop :=
  ∀ id, countOf (c.connections id) = refs k c id + c.leaked id

variable {W : World} {k k' : List Hold} {c c' : Core} {id : Nat} {con con' : Connection}

/-- References move between the queue, the stack, the running code and those that are kept. -/
theorem Counted.congr (h : Counted k c)
    (hconn : ∀ id, Option.Rel (fun a b => b.refcount = a.refcount ∧
      b.tunnel.closed = a.tunnel.closed) (c.connections id) (c'.connections id))
    (hrefs : ∀ id, queueRefs c'.queue id + stackRefs c'.stack id + heldRefs k' id + c'.leaked id =
      queueRefs c.queue id + stackRefs c.stack id + heldRefs k id + c.leaked id) : Counted k' c' := by
  intro id
  have hcount := h id
  have heq := hrefs id
  have hrel := hconn id
  unfold refs at hcount ⊢
  generalize c.connections id = o at hrel hcount
  generalize c'.connections id = o' at hrel ⊢
  cases hrel with
  | none =>
      simp only [ownRef, countOf] at hcount ⊢
      omega
  | some hab =>
      simp only [ownRef, countOf, hab.1, hab.2] at hcount ⊢
      omega

theorem sameRefs_refl (c : Core) (id : Nat) : Option.Rel (fun a b : Connection =>
    b.refcount = a.refcount ∧ b.tunnel.closed = a.tunnel.closed) (c.connections id) (c.connections id) := by
  cases c.connections id with
  | none => exact .none
  | some con => exact .some ⟨rfl, rfl⟩

/-- Only the queue, the stack and the running code have changed. -/
theorem Counted.move (h : Counted k c) (queue : List RequestEvent) (stack : List Frame)
    (hrefs : ∀ id, queueRefs queue id + stackRefs stack id + heldRefs k' id =
      queueRefs c.queue id + stackRefs c.stack id + heldRefs k id) :
    Counted k' { c with queue := queue, stack := stack } := by
  refine h.congr (sameRefs_refl c) fun id => ?_
  have heq := hrefs id
  have hleak : leaked { c with queue := queue, stack := stack } id = c.leaked id := rfl
  rw [hleak]
  exact congrArg (· + c.leaked id) heq

theorem Counted.hold (h : Counted k c) (hk : ∀ i, heldRefs k' i = heldRefs k i) : Counted k' c :=
  h.move c.queue c.stack fun id => congrArg _ (hk id)

theorem Counted.quiet (h : Counted k c) (hq : Quiet c c') : Counted k c' := by
  refine h.congr hq.same_refs fun id => ?_
  unfold leaked
  rw [hq.queue, hq.stack, hq.trace]

/-- The counts after one connection has been replaced: only its own line changes. -/
theorem Counted.setConnection (h : Counted k c) (hc : c.connections id = some con)
    (hother : ∀ i, i ≠ id → heldRefs k' i = heldRefs k i)
    (hself : ownRef (some con') + heldRefs k' id + con.refcount =
      ownRef (some con) + heldRefs k id + con'.refcount) : Counted k' (c.setConnection id con') := by
  intro i
  have hcount := h i
  have hleak : (c.setConnection id con').leaked i = c.leaked i := rfl
  unfold refs at hcount ⊢
  rw [hleak]
  by_cases hi : i = id
  · subst hi
    rw [setConnection_self]
    rw [hc] at hcount
    simp only [countOf, SploneBox.Core.setConnection] at hcount ⊢
    omega
  · rw [setConnection_ne con' hi]
    have heq := hother i hi
    simp only [SploneBox.Core.setConnection]
    omega

/-- A reference more, in the count and in the hand. -/
theorem Counted.incref (h : Counted k c) (hc : c.connections id = some con)
    (hcount : con'.refcount = con.refcount + 1)
    (hclosed : con'.tunnel.closed = con.tunnel.closed) :
    Counted (.ref id :: k) (c.setConnection id con') := by
  refine h.setConnection hc ?_ ?_
  · intro i hi
    rw [heldRefs_ref, if_neg (Ne.symm hi)]
    rfl
  · have hown : ownRef (some con') = ownRef (some con) := by simp only [ownRef, hclosed]
    rw [heldRefs_ref, if_pos rfl, hown]
    omega

/-- **`decref`.** A connection whose last reference this was has no events left. -/
theorem Counted.decref (h : Counted (.ref id :: k) c) (hb : Balanced (.ref id :: k) c) :
    Counted k (c.decref id) := by
  obtain ⟨con, hc, hone⟩ := hb.exists_of_hold List.mem_cons_self rfl
  have hcount := h id
  unfold refs at hcount
  rw [hc, heldRefs_ref, if_pos rfl] at hcount
  simp only [countOf] at hcount
  have hother : ∀ i, i ≠ id → heldRefs k i = heldRefs (.ref id :: k) i := by
    intro i hi
    rw [heldRefs_ref, if_neg (Ne.symm hi)]
    rfl
  unfold SploneBox.Core.decref
  rw [hc]
  dsimp only
  split
  · rename_i hlast
    intro i
    have hleak : (c.freeConnection id con).leaked i = c.leaked i := rfl
    have hstack : (c.freeConnection id con).stack = c.stack := rfl
    unfold refs
    rw [hleak, hstack]
    by_cases hi : i = id
    · subst hi
      have hgone : (c.freeConnection i con).connections i = none := if_pos rfl
      have hqueue : queueRefs (c.freeConnection i con).queue i ≤ queueRefs c.queue i :=
        List.Sublist.countP_le List.filter_sublist
      rw [hgone]
      simp only [ownRef, countOf]
      omega
    · have hsame : (c.freeConnection id con).connections i = c.connections i := if_neg hi
      have hqueue : queueRefs (c.freeConnection id con).queue i = queueRefs c.queue i := by
        show (c.queue.filter _).countP _ = _
        rw [List.countP_filter]
        refine List.countP_congr fun e _ => ?_
        simp only [Bool.and_eq_true, beq_iff_eq, bne_iff_ne, ne_eq, and_iff_left_iff_imp]
        rintro rfl
        exact hi
      have hold := h i
      unfold refs at hold
      rw [← hother i hi] at hold
      rw [hsame, hqueue]
      exact hold
  · rename_i hlast
    refine h.setConnection hc hother ?_
    have hown : ownRef (some { con with refcount := con.refcount - 1 }) = ownRef (some con) := rfl
    rw [hown, heldRefs_ref, if_pos rfl]
    dsimp only
    omega

/-! ## §2 The operations -/

theorem leaked_append {ws : List Write} (ht : c'.trace = c.trace ++ ws) (id : Nat) :
    c'.leaked id = c.leaked id + ws.countP (Write.leaks id) := by
  unfold leaked
  rw [ht, List.countP_append]

theorem Counted.notified (h : Counted k c) (hn : Notified c c') : Counted k c' := by
  obtain ⟨ws, hws, hcause⟩ := hn.trace
  have hzero : ∀ id, ws.countP (Write.leaks id) = 0 := by
    intro id
    rw [List.countP_eq_zero]
    intro w hw
    simp [Write.leaks, hcause w hw]
  refine h.congr (fun id => ?_) fun id => ?_
  · have hrel := hn.connections id
    generalize c.connections id = o at hrel ⊢
    generalize c'.connections id = o' at hrel ⊢
    cases hrel with
    | none => exact .none
    | some hab =>
        refine .some ⟨?_, hab.closed⟩
        rw [hab.same]
  · rw [leaked_append hws, hzero, hn.same]
    rfl

theorem Counted.broadcast {name : Option Bytes} {args : List Object} (h : Counted k c)
    (hb : broadcastEvent W c name args = .ok c') : Counted k c' := by
  rcases broadcastEvent_cases hb with rfl | ⟨n, d, _, hn, rfl⟩
  · exact h
  · have hraise : Counted k (c.raise (cstr n) args) := h.congr (sameRefs_refl c) fun _ => rfl
    exact (hraise.notified (notified_notify hn)).congr (sameRefs_refl d) fun _ => rfl

/-- A message has been written; a request that was not sent takes the reference with it. -/
theorem Counted.posted {m : MsgpackObject} {cause : Cause} {sent : Bool} {bytes : Bytes} {env : WriteEnv}
    (h : Counted k c) (hc : c.connections id = some con)
    (hk : ∀ i, heldRefs k' i + (if cause = .request ∧ sent = false ∧ id = i then 1 else 0) = heldRefs k i) :
    Counted k' (c.posted W id con m cause sent bytes env) := by
  refine h.congr (fun i => ?_) fun i => ?_
  · by_cases hi : i = id
    · subst hi
      have hnew : (c.posted W i con m cause sent bytes env).connections i = some _ :=
        setConnection_self (c.pack m) _ _
      rw [hc, hnew]
      exact .some ⟨rfl, rfl⟩
    · have hsame : (c.posted W id con m cause sent bytes env).connections i = c.connections i :=
        setConnection_ne _ hi
      rw [hsame]
      exact sameRefs_refl c i
  · have htrace : (c.posted W id con m cause sent bytes env).trace = c.trace ++
      [⟨id, con.tunnel.closed, con.pendingRequests, c.sbuf ++ [m], cause, sent⟩] := rfl
    have hleak : [Write.mk id con.tunnel.closed con.pendingRequests (c.sbuf ++ [m]) cause sent].countP
        (Write.leaks i) = if cause = .request ∧ sent = false ∧ id = i then 1 else 0 := by
      rw [List.countP_singleton]
      congr 1
      simp [Write.leaks, and_assoc]
    rw [leaked_append htrace, hleak, ← hk i]
    show queueRefs c.queue i + stackRefs c.stack i + _ + _ = _
    omega

theorem Counted.posted_same {m : MsgpackObject} {cause : Cause} {sent : Bool} {bytes : Bytes}
    {env : WriteEnv} (h : Counted k c) (hc : c.connections id = some con)
    (hk : ∀ i, heldRefs k' i = heldRefs k i) (hcause : cause = .request → sent = true) :
    Counted k' (c.posted W id con m cause sent bytes env) := by
  refine h.posted hc fun i => ?_
  rw [hk i, if_neg]
  · rfl
  · rintro ⟨hreq, hunsent, _⟩
    rw [hcause hreq] at hunsent
    cases hunsent

/-- Assignments to the buffer, to the record and to the tables of the handlers. -/
theorem Counted.assign (h : Counted k c) (hconn : c'.connections = c.connections)
    (hqueue : c'.queue = c.queue) (hstack : c'.stack = c.stack) (htrace : c'.trace = c.trace) :
    Counted k c' := by
  refine h.congr (fun id => ?_) fun id => ?_
  · rw [hconn]
    exact sameRefs_refl c id
  · unfold leaked
    rw [hqueue, hstack, htrace]

theorem Counted.newRequest (h : Counted k c) (hb : Balanced k c) (hh : Held k c id) (m : Message)
    (e : RequestEvent) (he : e.con = id) : Counted (.request e :: k) (c.newRequest id m) := by
  obtain ⟨con, hc, _⟩ := hb.exists_of_held hh
  have hnew : c.newRequest id m = { c with received := c.received ++ [m] }.setConnection id
      { con with refcount := con.refcount + 1 } := by
    unfold SploneBox.Core.newRequest SploneBox.Core.incref modify
    dsimp only
    rw [hc]
  have hside : Counted k { c with received := c.received ++ [m] } := h.assign rfl rfl rfl rfl
  have hinc : Counted (.ref id :: k) ({ c with received := c.received ++ [m] }.setConnection id
      { con with refcount := con.refcount + 1 }) := hside.incref hc rfl rfl
  rw [hnew]
  exact hinc.hold fun i => by rw [heldRefs_request, heldRefs_ref, he]

/-- Closing turns the connection's own reference into one of `connection_close`. -/
theorem Counted.close (h : Counted [.ref id] c) (hc : c.connections id = some con)
    (ho : con.tunnel.closed = false) : Counted [] (c.connectionClose id) := by
  have hset : Counted [.ref id, .ref id]
      (c.setConnection id { con with tunnel := { con.tunnel with closed := true } }) := by
    refine h.setConnection hc ?_ ?_
    · intro i hi
      simp only [heldRefs_ref, if_neg (Ne.symm hi)]
    · simp only [heldRefs_ref, ownRef, ho, if_true, Bool.false_eq_true, if_false]
      omega
  rw [connectionClose_open hc ho]
  refine hset.move c.queue (.close id :: c.stack) fun i => ?_
  simp only [stackRefs_cons, heldRefs_ref, Frame.refs, SploneBox.Core.setConnection]
  split <;> omega

theorem Counted.closeReturned {below : List Frame} (h : Counted [] c) (hb : Balanced [] c)
    (hs : c.stack = .close id :: below) : Counted [] ({ c with stack := below }.closeReturned id) := by
  have hpop : Counted [.ref id, .ref id] { c with stack := below } := by
    refine h.move c.queue below fun i => ?_
    rw [hs]
    simp only [stackRefs_cons, heldRefs_ref, Frame.refs]
    split <;> omega
  have hrel : Counted [.ref id, .ref id]
      ({ c with stack := below }.modify id fun con => { con with released := true }) := by
    unfold modify
    split
    · rename_i con hc
      exact hpop.setConnection hc (fun _ _ => rfl) rfl
    · exact hpop
  have hboth := hb.popClose hs
  exact (hrel.decref hboth).decref hboth.decref

theorem Counted.create (h : Counted [] c) (hb : Balanced [] c) (env : CreateEnv) :
    Counted [] (c.create env) := by
  have hnone : c.connections c.nextConId = none := hb.fresh _ le_rfl
  intro i
  have hcount := h i
  have hleak : (c.create env).leaked i = c.leaked i := rfl
  unfold refs at hcount ⊢
  rw [hleak]
  by_cases hi : i = c.nextConId
  · subst hi
    have hself : (c.create env).connections c.nextConId = some _ := setConnection_self _ _ _
    rw [hnone] at hcount
    rw [hself]
    have hown : ownRef (some (⟨connectionCreate env, 1, 1, [], 0, [], [], ⟨false, []⟩, true, false⟩ :
        Connection)) = 1 := rfl
    simp only [ownRef, countOf] at hcount
    change 1 = 1 + queueRefs c.queue _ + stackRefs c.stack _ + heldRefs [] _ + _
    omega
  · have hsame : (c.create env).connections i = c.connections i := setConnection_ne _ hi
    rw [hsame]
    exact hcount

theorem counted_returns (K : Core → Nat → Prop) :
    Returns K (fun k c => Ordered k c ∧ Counted k c) where
  quiet := fun h hq => ⟨(ordered_returns K).quiet h.1 hq, h.2.quiet hq⟩
  decref := fun h => ⟨(ordered_returns K).decref h.1, h.2.decref h.1.2⟩
  close := fun h hc ho hK hu => ⟨(ordered_returns K).close h.1 hc ho hK hu, h.2.close hc ho⟩
  pushParse := fun h hu => ⟨(ordered_returns K).pushParse h.1 hu, h.2.move _ _ fun i => by
    rw [stackRefs_cons, heldRefs_ref]
    simp only [Frame.refs]
    omega⟩

/-- **The counts are exact at every place of a move.** -/
theorem Counted.at {c₀ : Core} {l : Label} (hord : Ordered [] c₀) (h : Counted [] c₀)
    (ha : At W c₀ l k c) : Counted k c := by
  induction ha with
  | start => exact h
  | pushLoop hs hf =>
      refine h.move _ _ fun i => ?_
      rw [stackRefs_cons]
      cases hf <;> simp [Frame.refs]
  | popLoop hs hf =>
      refine h.move _ _ fun i => ?_
      rw [hs, stackRefs_cons]
      cases hf <;> simp [Frame.refs]
  | popParse hs =>
      refine h.move _ _ fun i => ?_
      rw [hs, stackRefs_cons, heldRefs_ref]
      simp only [Frame.refs]
      omega
  | unpacked hs hc hn hr => exact h.quiet (quiet_unpacked hc _)
  | @response id cinfo con below obj rest msgid error result hs hc hn hr hnew =>
      have hpop : Counted [.ref id] { c₀ with stack := below } := by
        refine h.move _ _ fun i => ?_
        rw [hs, stackRefs_cons, heldRefs_ref]
        simp only [Frame.refs]
        omega
      have hc' : { c₀ with stack := below }.connections id = some con := hc
      exact (hpop.quiet (quiet_unpacked hc' rest)).quiet (quiet_connectionHandleResponse W _ _ _ _ _ _)
  | @mismatch id con below obj rest msgid error result hs hc hn hr hnew =>
      have hplace : At W c₀ .turn [.ref id] { c₀ with stack := below } := .popParse hs
      have hpop : Counted [.ref id] { c₀ with stack := below } := by
        refine h.move _ _ fun i => ?_
        rw [hs, stackRefs_cons, heldRefs_ref]
        simp only [Frame.refs]
        omega
      have hc' : { c₀ with stack := below }.connections id = some con := hc
      have hu : uvRun below = true := by
        have hshape := hord.1
        rw [hs] at hshape
        exact hshape.1
      have hquiet : Ordered [.ref id] (({ c₀ with stack := below }.unpacked id con rest).callSetError
          con.callvector) ∧ Counted [.ref id] (({ c₀ with stack := below }.unpacked id con rest).callSetError
            con.callvector) :=
        (counted_returns fun _ _ => True).quiet
          ((counted_returns fun _ _ => True).quiet ⟨hord.at hplace, hpop⟩ (quiet_unpacked hc' rest))
          (quiet_callSetError _ _)
      exact ((counted_returns fun _ _ => True).connectionClose hquiet (setConnection_self _ _ _)
        (fun _ => trivial) hu).2
  | dequeue hs ht =>
      refine h.move _ _ fun i => ?_
      rw [heldRefs_request, queueRefs_takeEvent i ht]
      omega
  | @returned e target cinfo kind callid below con info d hs hc hi hr hf =>
      have hpop : Counted [.ref target, .request e] { c₀ with stack := below } := by
        refine h.move _ _ fun i => ?_
        rw [hs, stackRefs_cons, heldRefs_ref, heldRefs_request]
        simp only [Frame.refs]
        omega
      have hset : Counted [.ref target, .request e]
          ({ c₀ with stack := below }.setConnection target (popped con)) :=
        hpop.setConnection hc (fun _ _ => rfl) rfl
      exact hset.notified (notified_flush hf)
  | closeReturned hs => exact h.closeReturned hord.2 hs
  | @read id con seg env hc hu hl hfit hab =>
      have hflag := parseData_closed W c₀ con seg env
      have hset : Counted [.ref id] (c₀.setConnection id { con with
          tunnel := (c₀.parseData W con seg env).tunnel
          refcount := con.refcount + 1 }) := h.incref hc rfl hflag
      have hparsed : Counted [.ref id] (c₀.parsed id con (c₀.parseData W con seg env)) := by
        unfold parsed
        dsimp only
        split
        · exact hset.assign rfl rfl rfl rfl
        · exact hset
      have hplace : Ordered [.ref id] (c₀.parsed id con (c₀.parseData W con seg env)) :=
        ⟨by rw [parsed_stack]; exact hord.1, hord.2.parsed hc hflag⟩
      exact ((counted_returns fun _ _ => True).readCb ⟨hplace, hparsed⟩ hu (fun _ _ => trivial) hab).2
  | @eof id con hc hu hl =>
      have hplace : Ordered [.ref id]
          (c₀.setConnection id { con with refcount := con.refcount + 1, reading := false }) :=
        ⟨hord.1, hord.2.incref hc rfl rfl⟩
      exact ((counted_returns fun _ _ => True).eofCb ⟨hplace, h.incref hc rfl rfl⟩ (fun _ => trivial) hu).2
  | create hu => exact h.create hord.2 _
  | tick hc ho => exact h.setConnection hc (fun _ _ => rfl) rfl
  | decref hp ih => exact ih.decref (hord.at hp).2
  | @error l k c id con msgid err cause sent bytes env hp hh hc hl hcause ih =>
      have hpost : Counted k (c.posted W id con (serializeResponse msgid (some (validationError err)) .nil)
          cause sent bytes env) := by
        refine ih.posted_same hc (fun _ => rfl) ?_
        rintro rfl
        rcases hcause with hcause | hcause <;> cases hcause
      exact hpost.assign rfl rfl rfl rfl
  | newRequest hp hparse hv hprep ih => exact ih.newRequest (hord.at hp).2 (Or.inr hparse) _ _ rfl
  | enqueue hp ih =>
      refine ih.move _ _ fun i => ?_
      rw [heldRefs_request, queueRefs_append]
      omega
  | invoke hp ih => exact ih.assign rfl rfl rfl rfl
  | @subscribe l k c id con event hp hc ho ih =>
      have hmod : ∀ d : Core, Counted k d → Counted k (d.modify id fun con =>
          if con.subscribedEvents.names.contains event then con
          else { con with subscribedEvents := ⟨true, con.subscribedEvents.names ++ [event]⟩ }) := by
        intro d hd
        unfold modify
        split
        · rename_i con' hc'
          refine hd.setConnection hc' (fun _ _ => rfl) ?_
          dsimp only
          split <;> rfl
        · exact hd
      unfold connectionSubscribe
      dsimp only
      split
      · exact hmod c ih
      · exact hmod _ (ih.assign rfl rfl rfl rfl)
  | @unsubscribe l k c c' id event hp hu ih =>
      have hmod : Counted k (c.modify id fun con => { con with
          subscribedEvents := { con.subscribedEvents with
            names := con.subscribedEvents.names.filter (· != event) } }) :=
        ih.quiet (quiet_modify _ _ fun con _ =>
          ⟨rfl, rfl, rfl, fun n hn => Or.inl (List.mem_filter.mp hn).1⟩)
      unfold SploneBox.Core.unsubscribe at hu
      dsimp only at hu
      split at hu
      · split at hu
        · cases hu
          exact hmod
        · cases hu
          exact hmod.assign rfl rfl rfl rfl
      · split at hu
        · cases hu
        · cases hu
          exact ih
  | broadcast hp hn hf hb ih => exact ih.broadcast hb
  | putCallid hp ht heff hids hconns ih => exact ih.assign rfl rfl rfl rfl
  | @answer l k c e con err res sent bytes env hp hm hc hl ih =>
      have hpost : Counted (.ref e.con :: k) (c.posted W e.con con (serializeResponse e.msgid err res)
          (.response e.tag) sent bytes env) := by
        refine ih.posted_same hc (fun i => ?_) fun hreq => by cases hreq
        rw [heldRefs_ref, heldRefs_request]
      exact hpost.assign rfl rfl rfl rfl
  | @silent l k c e hp hm ih =>
      have hspent : Counted (.ref e.con :: k) c := ih.hold fun i => by rw [heldRefs_ref, heldRefs_request]
      exact hspent.decref (hord.at hp).2.spent
  | target hp ht ha hs hkey hc ih => exact ih.incref hc rfl rfl
  | @unsent l k c e id con request kind callid key msgid bytes env hp ht ha hkey hc hl ih =>
      have hpost : Counted (.request e :: k) (c.posted W id con
          (serializeRequest msgid kind.method request) .request false bytes env) := by
        refine ih.posted hc fun i => ?_
        rw [heldRefs_ref]
        simp
      exact hpost.assign rfl rfl rfl rfl
  | @wait l k c e id con kind callid key msgid request bytes env hp ht ha hkey hs hids hc hl ih =>
      have hpost : Counted (.ref id :: .request e :: k) (c.posted W id con
          (serializeRequest msgid kind.method request) .request true bytes env) :=
        ih.posted_same hc (fun _ => rfl) fun _ => rfl
      have hclear : Counted (.ref id :: .request e :: k) (c.posted W id con
          (serializeRequest msgid kind.method request) .request true bytes env).clear :=
        hpost.assign rfl rfl rfl rfl
      have hpush := hclear.quiet (quiet_pushCallinfo _ id msgid)
      generalize hd : (c.posted W id con (serializeRequest msgid kind.method request) .request true bytes
        env).clear = d at hpush ⊢
      have hmove : Counted k { d.pushCallinfo id msgid with
          stack := .call e id d.calls.length kind callid :: (d.pushCallinfo id msgid).stack } := by
        refine hpush.move (d.pushCallinfo id msgid).queue _ fun i => ?_
        rw [stackRefs_cons, heldRefs_ref, heldRefs_request]
        simp only [Frame.refs]
        omega
      exact hmove.assign rfl rfl rfl rfl
  | finished hp hs hi hr hout hrec htrace ih => exact ih.assign rfl rfl rfl rfl
  | deliver hp hr hids ih => exact ih.assign rfl rfl rfl rfl

/-! ## §3 Every run -/

/-- The `parse_cb` activations of a connection, those that wait in `connection_close` included. -/
def Frame.isParse (id : Nat) : Frame → Bool
  | .parse i => i == id
  | .close i => i == id
  | _ => false

/-- The calls that wait for a connection. -/
def Frame.callsTo (id : Nat) : Frame → Bool
  | .call _ target _ _ _ => target == id
  | _ => false

/-- The requests of a connection that wait for a call. -/
def Frame.worksFor (id : Nat) : Frame → Bool
  | .call e _ _ _ _ => e.con == id
  | _ => false

/-- **Who holds a connection**: `parse_cb` activations, request events in the queue and in calls, and
`connection_send_request` frames. -/
def holders (c : Core) (id : Nat) : Nat :=
  c.stack.countP (Frame.isParse id) + (c.queue.countP (fun e => e.con == id) +
    c.stack.countP (Frame.worksFor id)) + c.stack.countP (Frame.callsTo id)

theorem stackRefs_eq (id : Nat) : ∀ stack : List Frame, stackRefs stack id =
    stack.countP (Frame.isParse id) + stack.countP (Frame.worksFor id) + stack.countP (Frame.callsTo id) +
      closes stack id
  | [] => rfl
  | f :: stack => by
      have ih := stackRefs_eq id stack
      rw [stackRefs_cons, ih, closes_cons, List.countP_cons, List.countP_cons, List.countP_cons]
      cases f with
      | poll => simp [Frame.refs, Frame.isParse, Frame.worksFor, Frame.callsTo, Frame.isClose]
      | drain queue => simp [Frame.refs, Frame.isParse, Frame.worksFor, Frame.callsTo, Frame.isClose]
      | parse i =>
          simp only [Frame.refs, Frame.isParse, Frame.worksFor, Frame.callsTo, Frame.isClose, beq_iff_eq,
            Bool.false_eq_true, if_false]
          omega
      | close i =>
          simp only [Frame.refs, Frame.isParse, Frame.worksFor, Frame.callsTo, Frame.isClose, beq_iff_eq,
            Bool.false_eq_true, if_false]
          split <;> omega
      | call e target cinfo kind callid =>
          simp only [Frame.refs, Frame.isParse, Frame.worksFor, Frame.callsTo, Frame.isClose, beq_iff_eq,
            Bool.false_eq_true, if_false]
          omega

/-- **The reference count of a connection**: its own reference, which `connection_close` gives up when it
returns, the holders, and what was kept for requests that could not be written. -/
structure RefcountExact (c : Core) : Prop where
  count : ∀ id con, c.connections id = some con → con.refcount =
    (if con.tunnel.closed then 0 else 1) + closes c.stack id + c.holders id + c.leaked id
  /-- The count is that of the holders exactly if nothing was kept and no `connection_close` is running. -/
  matches_iff : ∀ id con, c.connections id = some con →
    (con.refcount = (if con.tunnel.closed then 0 else 1) + c.holders id ↔
      c.leaked id = 0 ∧ closes c.stack id = 0)
  /-- A connection that was freed has no holder. -/
  freed : ∀ id, c.connections id = none → c.holders id = 0 ∧ c.leaked id = 0
  /-- A closed connection that was not freed is held. -/
  held : ∀ id con, c.connections id = some con → con.tunnel.closed = true → closes c.stack id = 0 →
    0 < c.holders id + c.leaked id

theorem Counted.exact (h : Counted [] c) (hb : Balanced [] c) : RefcountExact c := by
  have hcount : ∀ id, countOf (c.connections id) =
      ownRef (c.connections id) + closes c.stack id + c.holders id + c.leaked id := by
    intro id
    have hid := h id
    have hheld : heldRefs [] id = 0 := rfl
    unfold refs at hid
    rw [stackRefs_eq, hheld] at hid
    unfold holders
    change countOf (c.connections id) = ownRef (c.connections id) + closes c.stack id +
      (_ + (queueRefs c.queue id + _) + _) + _
    omega
  refine ⟨fun id con hc => ?_, fun id con hc => ?_, fun id hc => ?_, fun id con hc hcl hret => ?_⟩
  · have hid := hcount id
    rw [hc] at hid
    exact hid
  · have hid := hcount id
    rw [hc] at hid
    simp only [countOf, ownRef] at hid
    constructor
    · intro hmatch
      omega
    · rintro ⟨hleak, hret⟩
      omega
  · have hid := hcount id
    rw [hc] at hid
    simp only [countOf, ownRef] at hid
    omega
  · have hid := hcount id
    have hpos := hb.positive id con hc
    rw [hc, hret] at hid
    simp only [countOf, ownRef, hcl, if_true] at hid
    omega

/-! ## §4 Who is freed -/

/-- The connections that were open are in the table: open, or in the hands of a `connection_close`. -/
def Stays (c₀ c : Core) : Prop :=
  ∀ id con, c₀.connections id = some con → con.tunnel.closed = false →
    ∃ con', c.connections id = some con' ∧ (con'.tunnel.closed = false ∨ 0 < closes c.stack id)

variable {c₀ : Core}

theorem Stays.refl (c : Core) : Stays c c := fun _ con hc ho => ⟨con, hc, Or.inl ho⟩

theorem Stays.trans {d : Core} (h : Stays c₀ c)
    (hconn : ∀ id con, c.connections id = some con → ∃ con', d.connections id = some con' ∧
      con'.tunnel.closed = con.tunnel.closed)
    (hcl : ∀ id, closes c.stack id ≤ closes d.stack id) : Stays c₀ d := by
  intro id con hc ho
  obtain ⟨con', hc', hstay⟩ := h id con hc ho
  obtain ⟨con'', hc'', hflag⟩ := hconn id con' hc'
  refine ⟨con'', hc'', ?_⟩
  rcases hstay with hopen | hclosing
  · exact Or.inl (hflag.trans hopen)
  · exact Or.inr (Nat.lt_of_lt_of_le hclosing (hcl id))

/-- Assignments to other parts of the core. -/
theorem Stays.assign {d : Core} (h : Stays c₀ c) (hconn : d.connections = c.connections)
    (hstack : d.stack = c.stack) : Stays c₀ d :=
  h.trans (fun id con hc => ⟨con, by rw [hconn]; exact hc, rfl⟩) fun id => by rw [hstack]

theorem Stays.set (h : Stays c₀ c) (hc : c.connections id = some con)
    (hflag : con'.tunnel.closed = con.tunnel.closed) : Stays c₀ (c.setConnection id con') := by
  refine h.trans (fun i con₁ hc₁ => ?_) fun _ => le_rfl
  by_cases hi : i = id
  · subst hi
    rw [hc] at hc₁
    cases hc₁
    exact ⟨con', setConnection_self c i con', hflag⟩
  · exact ⟨con₁, (setConnection_ne con' hi).trans hc₁, rfl⟩

theorem Stays.modify (h : Stays c₀ c) {f : Connection → Connection}
    (hf : ∀ con, (f con).tunnel.closed = con.tunnel.closed) : Stays c₀ (c.modify id f) := by
  unfold Core.modify
  split
  · rename_i con hc
    exact h.set hc (hf con)
  · exact h

theorem Stays.notified (h : Stays c₀ c) (hn : Notified c c') : Stays c₀ c' := by
  refine h.trans (fun id con hc => ?_) fun id => by rw [hn.same]
  have hrel := hn.connections id
  rw [hc] at hrel
  generalize c'.connections id = o at hrel ⊢
  cases hrel with
  | some hab => exact ⟨_, rfl, hab.closed⟩

theorem Stays.posted {m : MsgpackObject} {cause : Cause} {sent : Bool} {bytes : Bytes} {env : WriteEnv}
    (h : Stays c₀ c) (hc : c.connections id = some con) :
    Stays c₀ (c.posted W id con m cause sent bytes env) := by
  have hset : Stays c₀ (c.setConnection id { con with
      tunnel := afterWrite con.tunnel (SploneBox.cryptoWrite W.server con.tunnel.cc bytes env) }) :=
    h.set hc rfl
  exact hset.assign rfl rfl

/-- **A connection is not freed while it is open**: its own reference is counted. -/
theorem Stays.decref (h : Stays c₀ c) (hb : Balanced (.ref id :: k) c) : Stays c₀ (c.decref id) := by
  intro i con hc ho
  obtain ⟨con', hc', hstay⟩ := h i con hc ho
  have hcov := hb.covered i
  unfold refs at hcov
  rw [hc', heldRefs_ref] at hcov
  simp only [countOf, ownRef] at hcov
  have htwo := two_closes_le i c.stack
  unfold Core.decref
  by_cases hi : i = id
  · subst hi
    rw [hc']
    dsimp only
    rw [if_pos rfl] at hcov
    have hnot : con'.refcount - 1 ≠ 0 := by
      rcases hstay with hopen | hclosing
      · rw [hopen] at hcov
        simp only [Bool.false_eq_true, if_false] at hcov
        omega
      · omega
    rw [if_neg hnot]
    exact ⟨_, setConnection_self _ _ _, hstay⟩
  · split
    · split
      · rename_i con₁ _ _
        have hsame : (c.freeConnection id con₁).connections i = c.connections i := if_neg hi
        exact ⟨con', hsame.trans hc', hstay⟩
      · exact ⟨con', (setConnection_ne _ hi).trans hc', hstay⟩
    · exact ⟨con', hc', hstay⟩

theorem Stays.connectionClose (h : Stays c₀ c) (hb : Balanced [.ref id] c)
    (hc : c.connections id = some con) : Stays c₀ (c.connectionClose id) := by
  cases ho : con.tunnel.closed with
  | true =>
      rw [connectionClose_closed hc ho]
      exact h.decref hb
  | false =>
      rw [connectionClose_open hc ho]
      intro i con₁ hc₁ ho₁
      obtain ⟨con', hc', hstay⟩ := h i con₁ hc₁ ho₁
      have hclose : closes (.close id :: c.stack) i = closes c.stack i + if id == i then 1 else 0 :=
        closes_cons _ _ _
      by_cases hi : i = id
      · subst hi
        refine ⟨_, setConnection_self _ _ _, Or.inr ?_⟩
        show 0 < closes (.close i :: c.stack) i
        rw [hclose, beq_self_eq_true, if_pos rfl]
        omega
      · refine ⟨con', (setConnection_ne _ hi).trans hc', hstay.imp_right fun hpos => ?_⟩
        show 0 < closes (.close id :: c.stack) i
        rw [hclose]
        omega

theorem Stays.closeReturned {below : List Frame} (hord : Ordered [] c)
    (hs : c.stack = .close id :: below) : Stays c ({ c with stack := below }.closeReturned id) := by
  -- an open connection keeps its own reference, whatever this one gives back
  have hpop : Stays c { c with stack := below } := fun _ con hc ho => ⟨con, hc, Or.inl ho⟩
  have hrel : Stays c ({ c with stack := below }.modify id fun con => { con with released := true }) :=
    hpop.modify fun _ => rfl
  have hboth := hord.2.popClose hs
  exact (hrel.decref hboth).decref hboth.decref

theorem Stays.at {l : Label} (hord : Ordered [] c₀) (ha : At W c₀ l k c) : Stays c₀ c := by
  have hstart : Stays c₀ c₀ := Stays.refl c₀
  have hpopped : ∀ stack, Stays c₀ { c₀ with stack := stack } :=
    fun _ _ con hc ho => ⟨con, hc, Or.inl ho⟩
  induction ha with
  | start => exact hstart
  | pushLoop hs hf => exact hpopped _
  | popLoop hs hf => exact hpopped _
  | popParse hs => exact hpopped _
  | @unpacked id con below obj rest hs hc hn hr =>
      have hset : Stays c₀ (c₀.setConnection id { con with mpac := rest }) := hstart.set hc rfl
      exact hset.assign rfl rfl
  | @response id cinfo con below obj rest msgid error result hs hc hn hr hnew =>
      have hset : Stays c₀ ({ c₀ with stack := below }.setConnection id { con with mpac := rest }) :=
        (hpopped below).set hc rfl
      exact hset.assign rfl rfl
  | @mismatch id con below obj rest msgid error result hs hc hn hr hnew =>
      have hset : Stays c₀ ({ c₀ with stack := below }.setConnection id { con with mpac := rest }) :=
        (hpopped below).set hc rfl
      have herr : Stays c₀ (({ c₀ with stack := below }.unpacked id con rest).callSetError con.callvector) :=
        hset.assign rfl rfl
      have hplace : At W c₀ .turn [.ref id] { c₀ with stack := below } := .popParse hs
      have hc' : { c₀ with stack := below }.connections id = some con := hc
      have hb : Balanced [.ref id] (({ c₀ with stack := below }.unpacked id con rest).callSetError
          con.callvector) :=
        ((hord.at hplace).2.quiet (quiet_unpacked hc' rest)).quiet (quiet_callSetError _ _)
      exact herr.connectionClose hb (setConnection_self _ _ _)
  | dequeue hs ht => exact hstart.assign rfl rfl
  | @returned e target cinfo kind callid below con info d hs hc hi hr hf =>
      have hset : Stays c₀ ({ c₀ with stack := below }.setConnection target (popped con)) :=
        (hpopped below).set hc rfl
      exact hset.notified (notified_flush hf)
  | closeReturned hs => exact Stays.closeReturned hord hs
  | @read id con seg env hc hu hl hfit hab =>
      have hflag := parseData_closed W c₀ con seg env
      have hset : Stays c₀ (c₀.setConnection id { con with
          tunnel := (c₀.parseData W con seg env).tunnel
          refcount := con.refcount + 1 }) := hstart.set hc hflag
      have hparsed : Stays c₀ (c₀.parsed id con (c₀.parseData W con seg env)) := by
        unfold parsed
        dsimp only
        split
        · exact hset.assign rfl rfl
        · exact hset
      have hb : Balanced [.ref id] (c₀.parsed id con (c₀.parseData W con seg env)) :=
        hord.2.parsed hc hflag
      have hself := parsed_self c₀ id con (c₀.parseData W con seg env)
      unfold readCb
      dsimp only
      split
      · exact hparsed.decref hb
      · exact hparsed.connectionClose hb hself
      · exact hparsed.assign rfl rfl
      · rename_i plain _
        have hmpac : Stays c₀ ((c₀.parsed id con (c₀.parseData W con seg env)).modify id fun con =>
          { con with mpac := con.mpac ++ plain }) := hparsed.modify fun _ => rfl
        refine hmpac.trans (fun i con₁ hc₁ => ⟨con₁, hc₁, rfl⟩) fun i => ?_
        show _ ≤ closes (.parse id :: _) i
        rw [closes_cons]
        exact Nat.le_add_right _ _
  | @eof id con hc hu hl =>
      have hset : Stays c₀ (c₀.setConnection id { con with
          refcount := con.refcount + 1
          reading := false }) := hstart.set hc rfl
      exact hset.connectionClose (hord.2.incref hc rfl rfl) (setConnection_self _ _ _)
  | @create env hu =>
      intro id con hc ho
      have hid : id ≠ c₀.nextConId := by
        rintro rfl
        rw [hord.2.fresh _ le_rfl] at hc
        cases hc
      exact ⟨con, (setConnection_ne _ hid).trans hc, Or.inl ho⟩
  | tick hc ho => exact hstart.set hc rfl
  | decref hp ih => exact ih.decref (hord.at hp).2
  | @error l k c id con msgid err cause sent bytes env hp hh hc hl hcause ih =>
      have hpost : Stays c₀ (c.posted W id con (serializeResponse msgid (some (validationError err)) .nil)
          cause sent bytes env) := ih.posted hc
      exact hpost.assign rfl rfl
  | @newRequest l k c id obj v d args hp hparse hv hprep ih =>
      have hrec : Stays c₀ { c with received := c.received ++ [⟨id, obj, v.responseId⟩] } :=
        ih.assign rfl rfl
      exact hrec.modify fun _ => rfl
  | enqueue hp ih => exact ih.assign rfl rfl
  | invoke hp ih => exact ih.assign rfl rfl
  | @subscribe l k c id con event hp hc ho ih =>
      have hmod : ∀ d : Core, Stays c₀ d → Stays c₀ (d.modify id fun con =>
          if con.subscribedEvents.names.contains event then con
          else { con with subscribedEvents := ⟨true, con.subscribedEvents.names ++ [event]⟩ }) := by
        intro d hd
        refine hd.modify fun con => ?_
        split <;> rfl
      unfold connectionSubscribe
      dsimp only
      split
      · exact hmod c ih
      · exact hmod _ (ih.assign rfl rfl)
  | @unsubscribe l k c c' id event hp hu ih =>
      have hmod : Stays c₀ (c.modify id fun con => { con with
          subscribedEvents := { con.subscribedEvents with
            names := con.subscribedEvents.names.filter (· != event) } }) := ih.modify fun _ => rfl
      unfold SploneBox.Core.unsubscribe at hu
      dsimp only at hu
      split at hu
      · split at hu
        · cases hu
          exact hmod
        · cases hu
          exact hmod.assign rfl rfl
      · split at hu
        · cases hu
        · cases hu
          exact ih
  | @broadcast l k c c' name args hp hn hf hb ih =>
      rcases broadcastEvent_cases hb with rfl | ⟨n, d, _, hd, rfl⟩
      · exact ih
      · have hraise : Stays c₀ (c.raise (cstr n) args) := ih.assign rfl rfl
        exact (hraise.notified (notified_notify hd)).assign rfl rfl
  | putCallid hp ht heff hids hconns ih => exact ih.assign rfl rfl
  | @answer l k c e con err res sent bytes env hp hm hc hl ih =>
      have hpost : Stays c₀ (c.posted W e.con con (serializeResponse e.msgid err res) (.response e.tag) sent
          bytes env) := ih.posted hc
      exact hpost.assign rfl rfl
  | silent hp hm ih => exact ih.decref (hord.at hp).2.spent
  | target hp ht ha hs hkey hc ih => exact ih.set hc rfl
  | @unsent l k c e id con request kind callid key msgid bytes env hp ht ha hkey hc hl ih =>
      have hpost : Stays c₀ (c.posted W id con (serializeRequest msgid kind.method request) .request false
          bytes env) := ih.posted hc
      exact hpost.assign rfl rfl
  | @wait l k c e id con kind callid key msgid request bytes env hp ht ha hkey hs hids hc hl ih =>
      have hsent : Stays c₀ (c.posted W id con (serializeRequest msgid kind.method request) .request true
          bytes env) := ih.posted hc
      have hpost : Stays c₀ (c.posted W id con (serializeRequest msgid kind.method request) .request true
          bytes env).clear := hsent.assign rfl rfl
      generalize (c.posted W id con (serializeRequest msgid kind.method request) .request true bytes
        env).clear = d at hpost ⊢
      have hpush : Stays c₀ (d.modify id fun con => { con with
          callvector := con.callvector ++ [d.calls.length]
          pendingRequests := con.pendingRequests + 1 }) := hpost.modify fun _ => rfl
      refine hpush.trans (fun i con₁ hc₁ => ⟨con₁, hc₁, rfl⟩) fun i => ?_
      show _ ≤ closes (.call _ _ _ _ _ :: _) i
      rw [closes_cons]
      exact Nat.le_add_right _ _
  | finished hp hs hi hr hout hrec htrace ih => exact ih.assign rfl rfl
  | deliver hp hr hids ih => exact ih.assign rfl rfl

/-- A move frees only connections that were closed before it, and only when nobody holds them any more. -/
def FreesClosed (c c' : Core) : Prop :=
  ∀ id con, c.connections id = some con → c'.connections id = none → c'.halt = none →
    con.tunnel.closed = true ∧ c'.holders id = 0

end Core

open Core

/-- **Reference counts are exact.** In every state of every run, the count of a connection is one for itself
while it is open or its `connection_close` has not returned, one for each holder, and one for each request that
`connection_send_request` could not write to it. So as long as every request is written, connections are freed
exactly when they are closed and nobody holds them. -/
theorem refcounts_exact (W : World) (ls : List Label) :
    Always (Core.step W) (fun c => c.halt = none → RefcountExact c) Core.init ls ∧
      Along (Core.step W) (fun c _ c' => FreesClosed c c') Core.init ls := by
  have hinit : Counted [] Core.init := fun _ => rfl
  have halways : Always (Core.step W) (fun c => c.halt = none → Ordered [] c ∧ Counted [] c) Core.init ls :=
    always_running hinit (fun _ _ _ hord hcount _ ha => hcount.at hord ha)
      (@along_true _ _ (Core.step W) _ _)
  refine ⟨⟨fun h => (halways.1 h).2.exact (halways.1 h).1.2,
    halways.2.imp fun _ _ _ h hrun => (h hrun).2.exact (h hrun).1.2⟩, ?_⟩
  refine along_of_invariant (I := fun _ => True) ?_ trivial (halways.along.and halways.2)
  rintro c l c' _ ⟨hc, hc'⟩ hs
  refine ⟨trivial, fun id con hcon hgone hend => ?_⟩
  obtain ⟨hord, _⟩ := hc (running_of_step hs)
  obtain ⟨hord', hcount'⟩ := hc' hend
  refine ⟨?_, ((hcount'.exact hord'.2).freed id hgone).1⟩
  by_contra hopen
  rcases hord.step hs with ⟨_, ha⟩ | ⟨_, hdead⟩
  · obtain ⟨con', hcon', _⟩ := Stays.at hord ha id con hcon (Bool.eq_false_of_not_eq_true hopen)
    rw [hgone] at hcon'
    cases hcon'
  · exact hdead hend

/-- The plugin of `unwrittenCall` goes away afterwards. -/
def Sample.unwrittenCallClosed : List Label := Sample.unwrittenCall ++ [.turn, .turn, .eof 1, .turn]

/-- **A connection that is never freed**: it is closed, nobody holds it, and it still has the reference that
`connection_send_request` took for a request that it could not write. -/
theorem refcount_kept : ∃ c con,
    exec (Core.step Sample.mute) Core.init Sample.unwrittenCallClosed = some c ∧ c.halt = none ∧
      c.connections 1 = some con ∧ con.tunnel.closed = true ∧ closes c.stack 1 = 0 ∧
        c.holders 1 = 0 ∧ con.refcount = 1 := by
  have hrun : (exec (Core.step Sample.mute) Core.init Sample.unwrittenCallClosed).any (fun c =>
      c.halt.isNone && (c.connections 1).any (fun con =>
        con.tunnel.closed && con.refcount == 1) && closes c.stack 1 == 0 && c.holders 1 == 0) = true := by
    rw [Sample.unwrittenCallClosed, Sample.unwrittenCall, List.cons_append, List.append_assoc,
      Sample.exec_connect_append rfl]
    decide +kernel
  obtain ⟨c, hex, hc⟩ := (Option.any_eq_true _ _).mp hrun
  simp only [Bool.and_eq_true, beq_iff_eq, Option.any_eq_true] at hc
  obtain ⟨⟨⟨hlive, con, hcon, hclosed, hcount⟩, hret⟩, hheld⟩ := hc
  exact ⟨c, con, hex, Option.isNone_iff_eq_none.mp hlive, hcon, hclosed, hret, hheld, hcount⟩

end SploneBox
