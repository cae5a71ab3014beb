/-
# SploneBox.Lifetime — references, closed connections, and writes to streams that are gone.

A connection lives as long as its `refcount` is not zero; its streams live until `connection_close` has
run. `Balanced` says that every reference is counted: the connection's own one while it is open, one
for each queued or running request, one for each `parse_cb` and each call that waits for an answer, two
for a `connection_close` in progress (its own and that of the `parse_cb` that called it). It is an
invariant of every run, and so is the shape of the stack.

A stream that is gone is used exactly because the two lifetimes differ. What matters is who may still write
when a connection is closed (`Used`): a request that waits for its answer, a call, a second `parse_cb`. A
notification keeps a reference too, but only to give it back. Where nobody of the first kind is left, and no
event, call or data comes to the connection afterwards, no closed connection is ever written to
(`no_write_after_close`).
-/
import Mathlib.Algebra.Order.BigOperators.Group.List
import SploneBox.Invariant
import SploneBox.Plugin

namespace SploneBox

open Lib.Machine

/-- The connection that a move reads data from. -/
def Label.source : Label → Option Nat
  | .read id _ _ => some id
  | _ => none

namespace Core

/-! ## §1 The stack -/

theorem modify_stack (c : Core) (id : Nat) (f : Connection → Connection) :
    (c.modify id f).stack = c.stack := by
  unfold modify
  split <;> rfl

theorem closeReturned_stack (c : Core) (id : Nat) : (c.closeReturned id).stack = c.stack := by
  unfold closeReturned
  rw [decref_stack, decref_stack, modify_stack]

theorem connectionClose_open {c : Core} {id : Nat} {con : Connection}
    (hc : c.connections id = some con) (ho : con.tunnel.closed = false) :
    c.connectionClose id =
      { c.setConnection id { con with tunnel := { con.tunnel with closed := true } } with
        stack := .close id :: c.stack } := by
  unfold connectionClose
  rw [hc]
  simp only [ho, Bool.false_eq_true, if_false]
  rfl

theorem eofCb_open {c : Core} {id : Nat} {con : Connection} (ho : con.tunnel.closed = false) :
    c.eofCb id con =
      { (c.setConnection id { con with refcount := con.refcount + 1, reading := false }).setConnection id
          { con with
            tunnel := { con.tunnel with closed := true }
            refcount := con.refcount + 1
            reading := false } with
        stack := .close id :: c.stack } := by
  unfold eofCb
  have hself := setConnection_self c id { con with refcount := con.refcount + 1, reading := false }
  exact connectionClose_open hself ho

theorem eofCb_closed {c : Core} {id : Nat} {con : Connection} (ho : con.tunnel.closed = true) :
    c.eofCb id con =
      (c.setConnection id { con with refcount := con.refcount + 1, reading := false }).decref id := by
  unfold eofCb connectionClose
  rw [setConnection_self]
  exact if_pos ho

theorem shape_returns (K : Core → Nat → Prop) : Returns K (fun _ c => Shape c.stack) where
  quiet := fun h hq => by rw [hq.stack]; exact h
  decref := fun h => by rw [decref_stack]; exact h
  close := fun h hc ho _ hs => by
    rw [connectionClose_open hc ho]
    exact ⟨hs, h⟩
  pushParse := fun h hs => ⟨hs, h⟩

/-- **The stack has its shape in every state.** -/
theorem shape_closed (W : World) (N : Aim) (K : Core → Nat → Prop)
    (G : Core → Label → Prop) (F : Prop) :
    Closed W N K G F (fun _ => True) Top (fun _ c => Shape c.stack) where
  quiet := fun _ h hq => (shape_returns K).quiet (k := []) h hq
  stop := fun _ _ _ _ _ => trivial
  crash := fun _ _ _ _ => trivial
  exited := fun _ _ _ => trivial
  pack := fun _ _ h => h
  clear := fun _ _ h => h
  unsent := fun _ h _ => h
  write := fun _ _ _ _ h _ _ _ _ _ => h
  answer := fun _ _ _ _ _ h _ _ _ _ _ _ _ _ => h
  silent := fun _ h _ => by rw [decref_stack]; exact h
  lost := fun _ _ _ _ _ => trivial
  decref := fun _ h => by rw [decref_stack]; exact h
  newRequest := fun _ _ _ _ h _ _ => by
    unfold newRequest incref
    rw [modify_stack]
    exact h
  enqueue := fun _ h => h
  dequeue := fun _ h _ => h
  target := fun _ _ h _ _ _ _ => h
  pushCall := fun _ _ _ _ h hs => ⟨⟨_, _, hs⟩, h⟩
  popCall := fun _ h hs => by
    rw [hs] at h
    exact h.2
  pushLoop := fun _ h hs hf => by
    cases hf with
    | poll => exact ⟨hs, h⟩
    | drain queue => exact ⟨hs, h⟩
  popLoop := fun _ h hs hf => by
    rw [hs] at h
    cases hf with
    | poll => exact h.2
    | drain queue => exact h.2
  popParse := fun _ h hs => by
    rw [hs] at h
    exact h.2
  close := fun _ h hc ho hK hs => (shape_returns K).close h hc ho hK hs
  closeReturned := fun _ _ h hs => by
    rw [closeReturned_stack]
    rw [hs] at h
    exact h.2
  read := fun seg env _ _ h _ hu _ _ hK hab => by
    refine (shape_returns K).readCb ?_ hu hK hab
    rw [parsed_stack]
    exact h
  aborted := fun _ _ _ _ _ _ _ => trivial
  eof := fun _ h _ hu hK => (shape_returns K).eofCb h hK hu
  create := fun _ _ h _ => h
  tick := fun _ _ h _ _ => h

/-! ## §2 References -/

/-- The references to `id` that the running code holds. -/
def heldRefs (k : List Hold) (id : Nat) : Nat := k.countP fun h => h.con == some id

/-- The references to `id` that a waiting function holds. -/
def Frame.refs (id : Nat) : Frame → Nat
  | .parse i => if i = id then 1 else 0
  | .close i => if i = id then 2 else 0
  | .call e target _ _ _ => (if e.con = id then 1 else 0) + if target = id then 1 else 0
  | _ => 0

def stackRefs (stack : List Frame) (id : Nat) : Nat := (stack.map (Frame.refs id)).sum

def queueRefs (queue : List RequestEvent) (id : Nat) : Nat := queue.countP fun e => e.con == id

/-- The reference of a connection to itself, while it is open. -/
def ownRef (o : Option Connection) : Nat :=
  match o with
  | some con => if con.tunnel.closed then 0 else 1
  | none => 0

def countOf (o : Option Connection) : Nat :=
  match o with
  | some con => con.refcount
  | none => 0

/-- The references to the connection `id`. -/
def refs (k : List Hold) (c : Core) (id : Nat) : Nat :=
  ownRef (c.connections id) + queueRefs c.queue id + stackRefs c.stack id + heldRefs k id

/-- **Every reference is counted**; a connection in the table has one. -/
structure Balanced (k : List Hold) (c : Core) : Prop where
  covered : ∀ id, refs k c id ≤ countOf (c.connections id)
  positive : ∀ id con, c.connections id = some con → 0 < con.refcount
  fresh : ∀ id, c.nextConId ≤ id → c.connections id = none

/-- Only these parts of a core matter for the balance. -/
theorem Balanced.congr {k k' : List Hold} {c c' : Core} (h : Balanced k c)
    (hn : c.nextConId ≤ c'.nextConId)
    (hconn : ∀ id, Option.Rel (fun a b => b.refcount = a.refcount ∧
      b.tunnel.closed = a.tunnel.closed) (c.connections id) (c'.connections id))
    (hrefs : ∀ id, queueRefs c'.queue id + stackRefs c'.stack id + heldRefs k' id ≤
      queueRefs c.queue id + stackRefs c.stack id + heldRefs k id) : Balanced k' c' := by
  refine ⟨fun id => ?_, fun id con' hc' => ?_, fun id hid => ?_⟩
  · have hcov := h.covered id
    have hle := hrefs id
    have hrel := hconn id
    unfold refs at hcov ⊢
    generalize c.connections id = o at hrel hcov
    generalize c'.connections id = o' at hrel ⊢
    cases hrel with
    | none => omega
    | some hab =>
        simp only [ownRef, countOf, hab.1, hab.2] at hcov ⊢
        omega
  · have hrel := hconn id
    rw [hc'] at hrel
    generalize ho : c.connections id = o at hrel
    cases hrel with
    | some hab =>
        rw [hab.1]
        exact h.positive id _ ho
  · have hrel := hconn id
    rw [h.fresh id (hn.trans hid)] at hrel
    generalize c'.connections id = o' at hrel ⊢
    cases hrel
    rfl

theorem Quiet.same_refs {c c' : Core} (hq : Quiet c c') (id : Nat) :
    Option.Rel (fun a b => b.refcount = a.refcount ∧ b.tunnel.closed = a.tunnel.closed)
      (c.connections id) (c'.connections id) := by
  have hrel := hq.connections id
  generalize c.connections id = o at hrel ⊢
  generalize c'.connections id = o' at hrel ⊢
  cases hrel with
  | none => exact .none
  | some hab => exact .some ⟨hab.refcount, by rw [hab.tunnel]⟩

theorem Balanced.quiet {k : List Hold} {c c' : Core} (h : Balanced k c) (hq : Quiet c c') :
    Balanced k c' :=
  h.congr hq.nextConId.ge hq.same_refs fun id => by rw [hq.queue, hq.stack]

/-- A connection that is referred to is in the table. -/
theorem Balanced.exists_of_refs {k : List Hold} {c : Core} {id : Nat} (h : Balanced k c)
    (hone : 0 < stackRefs c.stack id + heldRefs k id) : ∃ con, c.connections id = some con ∧
      ownRef (some con) + 1 ≤ con.refcount := by
  have hcov := h.covered id
  unfold refs at hcov
  cases hc : c.connections id with
  | none =>
      rw [hc] at hcov
      simp only [ownRef, countOf] at hcov
      omega
  | some con =>
      rw [hc] at hcov
      refine ⟨con, rfl, ?_⟩
      simp only [countOf] at hcov
      omega

theorem heldRefs_pos {k : List Hold} {x : Hold} {id : Nat} (hx : x ∈ k) (hid : x.con = some id) :
    0 < heldRefs k id :=
  List.countP_pos_iff.mpr ⟨x, hx, by simp [hid]⟩

theorem Balanced.exists_of_hold {k : List Hold} {c : Core} {id : Nat} {x : Hold} (h : Balanced k c)
    (hx : x ∈ k) (hid : x.con = some id) : ∃ con, c.connections id = some con ∧
      ownRef (some con) + 1 ≤ con.refcount :=
  h.exists_of_refs (Nat.add_pos_right _ (heldRefs_pos hx hid))

theorem Balanced.exists_of_held {k : List Hold} {c : Core} {id : Nat} (h : Balanced k c)
    (hh : Held k c id) : ∃ con, c.connections id = some con ∧
      ownRef (some con) + 1 ≤ con.refcount := by
  rcases hh with ⟨x, hx, hid⟩ | hp
  · exact h.exists_of_hold hx (Hold.con_of_user hid)
  · refine h.exists_of_refs ?_
    have hmem : Frame.refs id (.parse id) ∈ c.stack.map (Frame.refs id) := List.mem_map_of_mem hp
    have hle := List.le_sum_of_mem hmem
    have hval : Frame.refs id (.parse id) = 1 := if_pos rfl
    unfold stackRefs
    omega

/-- The balance after one connection has been replaced: only its own line changes. -/
theorem Balanced.setConnection {k k' : List Hold} {c : Core} {id : Nat} {con con' : Connection}
    (h : Balanced k c) (hc : c.connections id = some con) (hpos : 0 < con'.refcount)
    (hother : ∀ i, i ≠ id → heldRefs k' i ≤ heldRefs k i)
    (hself : ownRef (some con') + heldRefs k' id + con.refcount ≤
      ownRef (some con) + heldRefs k id + con'.refcount) :
    Balanced k' (c.setConnection id con') := by
  refine ⟨fun i => ?_, fun i con₁ h₁ => ?_, fun i hi => ?_⟩
  · have hcov := h.covered i
    unfold refs at hcov ⊢
    by_cases hi : i = id
    · subst hi
      rw [setConnection_self]
      rw [hc] at hcov
      simp only [countOf, SploneBox.Core.setConnection] at hcov ⊢
      omega
    · rw [setConnection_ne con' hi]
      have hle := hother i hi
      simp only [SploneBox.Core.setConnection]
      omega
  · rcases setConnection_cases h₁ with ⟨rfl, rfl⟩ | ⟨-, h₁⟩
    · exact hpos
    · exact h.positive i con₁ h₁
  · by_cases hid : i = id
    · subst hid
      rw [h.fresh i hi] at hc
      cases hc
    · rw [setConnection_ne con' hid]
      exact h.fresh i hi

theorem heldRefs_ref (k : List Hold) (id i : Nat) :
    heldRefs (.ref id :: k) i = heldRefs k i + if id = i then 1 else 0 := by
  simp [heldRefs, Hold.con, List.countP_cons]

theorem heldRefs_request (k : List Hold) (e : RequestEvent) (i : Nat) :
    heldRefs (.request e :: k) i = heldRefs k i + if e.con = i then 1 else 0 := by
  simp [heldRefs, Hold.con, List.countP_cons]

theorem heldRefs_packed (k : List Hold) (m : MsgpackObject) (i : Nat) :
    heldRefs (.packed m :: k) i = heldRefs k i := by
  simp [heldRefs, Hold.con]

theorem stackRefs_cons (f : Frame) (stack : List Frame) (i : Nat) :
    stackRefs (f :: stack) i = Frame.refs i f + stackRefs stack i := by
  simp [stackRefs]

theorem queueRefs_append (queue : List RequestEvent) (e : RequestEvent) (i : Nat) :
    queueRefs (queue ++ [e]) i = queueRefs queue i + if e.con = i then 1 else 0 := by
  simp [queueRefs, List.countP_cons]

/-- Taking an event out of a queue. -/
theorem takeEvent_perm {q : Option Nat} {e : RequestEvent} : ∀ {queue rest : List RequestEvent},
    takeEvent q queue = some (e, rest) → queue.Perm (e :: rest)
  | [], _, h => by cases h
  | x :: queue, rest, h => by
      unfold takeEvent at h
      split at h
      · cases h
        exact List.Perm.refl _
      · obtain ⟨⟨e', rest'⟩, ht, heq⟩ := Option.map_eq_some_iff.mp h
        cases heq
        exact ((takeEvent_perm ht).cons x).trans (List.Perm.swap e' x rest')

/-- Taking an event out of the queue takes out its reference. -/
theorem queueRefs_takeEvent {q : Option Nat} {e : RequestEvent} (i : Nat) {queue rest : List RequestEvent}
    (h : takeEvent q queue = some (e, rest)) :
    queueRefs queue i = queueRefs rest i + if e.con = i then 1 else 0 := by
  unfold queueRefs
  rw [(takeEvent_perm h).countP_eq, List.countP_cons]
  simp only [beq_iff_eq]

/-- A freed connection is out of the table, and so are its events. -/
theorem Balanced.free {k : List Hold} {c : Core} {id : Nat} {con : Connection} (h : Balanced k c)
    (hnone : queueRefs c.queue id + stackRefs c.stack id + heldRefs k id = 1)
    (hk : 0 < heldRefs k id) {k' : List Hold}
    (hk' : ∀ i, i ≠ id → heldRefs k' i ≤ heldRefs k i) (hk0 : heldRefs k' id = 0) :
    Balanced k' (c.freeConnection id con) := by
  have hqueue : ∀ i, queueRefs (c.freeConnection id con).queue i ≤ queueRefs c.queue i := by
    intro i
    exact List.Sublist.countP_le List.filter_sublist
  refine ⟨fun i => ?_, fun i con₁ h₁ => ?_, fun i hi => ?_⟩
  · have hcov := h.covered i
    have hq := hqueue i
    have hst : (c.freeConnection id con).stack = c.stack := rfl
    unfold refs at hcov ⊢
    by_cases hi : i = id
    · subst hi
      have hgone : (c.freeConnection i con).connections i = none := if_pos rfl
      rw [hgone, hst, hk0]
      simp only [ownRef, countOf]
      omega
    · have hsame : (c.freeConnection id con).connections i = c.connections i := if_neg hi
      have hle := hk' i hi
      rw [hsame, hst]
      omega
  · by_cases hi : i = id
    · subst hi
      have hgone : (c.freeConnection i con).connections i = none := if_pos rfl
      rw [hgone] at h₁
      cases h₁
    · have hsame : (c.freeConnection id con).connections i = c.connections i := if_neg hi
      rw [hsame] at h₁
      exact h.positive i con₁ h₁
  · by_cases hid : i = id
    · exact if_pos hid
    · exact (if_neg hid).trans (h.fresh i hi)

/-- **`decref` of a reference that was held.** The connection is freed when this was the last one. -/
theorem Balanced.decref {k : List Hold} {c : Core} {id : Nat} (h : Balanced (.ref id :: k) c) :
    Balanced k (c.decref id) := by
  obtain ⟨con, hc, hone⟩ := h.exists_of_hold List.mem_cons_self rfl
  have hcov := h.covered id
  unfold refs at hcov
  rw [hc, heldRefs_ref, if_pos rfl] at hcov
  simp only [countOf] at hcov
  have hother : ∀ i, i ≠ id → heldRefs k i ≤ heldRefs (.ref id :: k) i := by
    intro i hi
    rw [heldRefs_ref]
    omega
  unfold SploneBox.Core.decref
  rw [hc]
  dsimp only
  split
  · rename_i hlast
    refine h.free ?_ ?_ hother ?_
    · rw [heldRefs_ref, if_pos rfl]
      omega
    · rw [heldRefs_ref, if_pos rfl]
      omega
    · omega
  · rename_i hlast
    refine h.setConnection hc (by dsimp only; omega) hother ?_
    have hown : ownRef (some { con with refcount := con.refcount - 1 }) = ownRef (some con) := rfl
    rw [hown, heldRefs_ref, if_pos rfl]
    dsimp only
    omega

/-- A reference more, in the count and in the hand. -/
theorem Balanced.incref {k : List Hold} {c : Core} {id : Nat} {con con' : Connection}
    (h : Balanced k c) (hc : c.connections id = some con)
    (hcount : con'.refcount = con.refcount + 1)
    (hclosed : con'.tunnel.closed = con.tunnel.closed) :
    Balanced (.ref id :: k) (c.setConnection id con') := by
  refine h.setConnection hc (by omega) ?_ ?_
  · intro i hi
    rw [heldRefs_ref, if_neg (Ne.symm hi)]
    omega
  · have hown : ownRef (some con') = ownRef (some con) := by simp only [ownRef, hclosed]
    rw [heldRefs_ref, if_pos rfl, hown]
    omega

/-- References move between the queue, the stack and the running code. -/
theorem Balanced.move {k k' : List Hold} {c : Core} (h : Balanced k c) (queue : List RequestEvent)
    (stack : List Frame)
    (hrefs : ∀ id, queueRefs queue id + stackRefs stack id + heldRefs k' id ≤
      queueRefs c.queue id + stackRefs c.stack id + heldRefs k id) :
    Balanced k' { c with queue := queue, stack := stack } := by
  refine h.congr (le_refl c.nextConId) (fun id => ?_) hrefs
  dsimp only
  cases c.connections id with
  | none => exact .none
  | some con => exact .some ⟨rfl, rfl⟩

theorem Balanced.hold {k k' : List Hold} {c : Core} (h : Balanced k c)
    (hk : ∀ i, heldRefs k' i ≤ heldRefs k i) : Balanced k' c :=
  h.move c.queue c.stack fun id => Nat.add_le_add_left (hk id) _

/-- A request that is done with has its reference left. -/
theorem Balanced.spent {k : List Hold} {c : Core} {e : RequestEvent} (h : Balanced (.request e :: k) c) :
    Balanced (.ref e.con :: k) c :=
  h.hold fun i => by rw [heldRefs_ref, heldRefs_request]

theorem Balanced.written {k : List Hold} {c : Core} {con : Connection} (h : Balanced k c) (w : Write)
    (r : WriteResult) (hc : c.connections w.con = some con) : Balanced k (c.written con r w) := by
  refine h.congr (le_refl c.nextConId) (fun id => ?_) fun id => le_rfl
  by_cases hid : id = w.con
  · subst hid
    have hnew : (c.written con r w).connections w.con =
        some { con with tunnel := afterWrite con.tunnel r } := setConnection_self _ _ _
    rw [hc, hnew]
    exact .some ⟨rfl, rfl⟩
  · have hsame : (c.written con r w).connections id = c.connections id := setConnection_ne _ hid
    rw [hsame]
    cases c.connections id with
    | none => exact .none
    | some con => exact .some ⟨rfl, rfl⟩

theorem Balanced.parsed {c : Core} {id : Nat} {con : Connection} (h : Balanced [] c)
    (hc : c.connections id = some con) {r : ParseResult}
    (hr : r.tunnel.closed = con.tunnel.closed) : Balanced [.ref id] (c.parsed id con r) := by
  have hnew := h.incref (c := c) hc (rfl : ({ con with tunnel := r.tunnel, refcount := con.refcount + 1 } :
    Connection).refcount = _) hr
  unfold SploneBox.Core.parsed
  dsimp only
  split
  · exact ⟨hnew.covered, hnew.positive, hnew.fresh⟩
  · exact hnew

theorem Balanced.newRequest {k : List Hold} {c : Core} {id : Nat} (h : Balanced k c)
    (hh : Held k c id) (m : Message) (e : RequestEvent) (he : e.con = id) :
    Balanced (.request e :: k) (c.newRequest id m) := by
  obtain ⟨con, hc, _⟩ := h.exists_of_held hh
  have hnew : c.newRequest id m = { c with received := c.received ++ [m] }.setConnection id
      { con with refcount := con.refcount + 1 } := by
    unfold SploneBox.Core.newRequest SploneBox.Core.incref modify
    dsimp only
    rw [hc]
  have hside : Balanced k { c with received := c.received ++ [m] } :=
    ⟨h.covered, h.positive, h.fresh⟩
  have hinc : Balanced (.ref id :: k) ({ c with received := c.received ++ [m] }.setConnection id
      { con with refcount := con.refcount + 1 }) := hside.incref hc rfl rfl
  rw [hnew]
  exact hinc.hold fun i => by rw [heldRefs_request, heldRefs_ref, he]

/-- Closing turns the connection's own reference into one of `connection_close`. -/
theorem Balanced.close {c : Core} {id : Nat} {con : Connection} (h : Balanced [.ref id] c)
    (hc : c.connections id = some con) (ho : con.tunnel.closed = false) :
    Balanced [] (c.connectionClose id) := by
  have hpos := h.positive id con hc
  have hset : Balanced [.ref id, .ref id]
      (c.setConnection id { con with tunnel := { con.tunnel with closed := true } }) := by
    refine h.setConnection hc hpos ?_ ?_
    · intro i hi
      simp only [heldRefs_ref, if_neg (Ne.symm hi)]
      omega
    · simp only [heldRefs_ref, ownRef, ho, if_true, Bool.false_eq_true, if_false]
      omega
  rw [connectionClose_open hc ho]
  refine hset.move c.queue (.close id :: c.stack) fun i => ?_
  simp only [stackRefs_cons, heldRefs_ref, Frame.refs, SploneBox.Core.setConnection]
  split <;> omega

/-- The two references of a `connection_close` that returns. -/
theorem Balanced.popClose {c : Core} {id : Nat} {rest : List Frame} (h : Balanced [] c)
    (hs : c.stack = .close id :: rest) : Balanced [.ref id, .ref id]
      ({ c with stack := rest }.modify id fun con => { con with released := true }) := by
  have hpop : Balanced [.ref id, .ref id] { c with stack := rest } := by
    refine h.move c.queue rest fun i => ?_
    rw [hs]
    simp only [stackRefs_cons, heldRefs_ref, Frame.refs]
    split <;> omega
  unfold modify
  split
  · rename_i con hc
    exact hpop.setConnection hc (hpop.positive id con hc) (fun _ _ => le_rfl) le_rfl
  · exact hpop

theorem Balanced.closeReturned {c : Core} {id : Nat} {rest : List Frame} (h : Balanced [] c)
    (hs : c.stack = .close id :: rest) : Balanced [] ({ c with stack := rest }.closeReturned id) :=
  (h.popClose hs).decref.decref

theorem Balanced.create {c : Core} (h : Balanced [] c) (env : CreateEnv) :
    Balanced [] (c.create env) := by
  have hnone : c.connections c.nextConId = none := h.fresh _ le_rfl
  have hzero := h.covered c.nextConId
  unfold refs at hzero
  rw [hnone] at hzero
  simp only [ownRef, countOf] at hzero
  refine ⟨fun i => ?_, fun i con hc => ?_, fun i hi => ?_⟩
  · have hcov := h.covered i
    unfold refs at hcov ⊢
    by_cases hi : i = c.nextConId
    · subst hi
      have hself : (c.create env).connections c.nextConId = some _ := setConnection_self _ _ _
      rw [hself]
      simp only [ownRef, countOf, SploneBox.Core.create, SploneBox.Core.setConnection]
      split <;> omega
    · have hsame : (c.create env).connections i = c.connections i := setConnection_ne _ hi
      rw [hsame]
      exact hcov
  · by_cases hi : i = c.nextConId
    · subst hi
      have hself : (c.create env).connections c.nextConId = some _ := setConnection_self _ _ _
      rw [hself] at hc
      cases hc
      exact Nat.one_pos
    · have hsame : (c.create env).connections i = c.connections i := setConnection_ne _ hi
      rw [hsame] at hc
      exact h.positive i con hc
  · have hi' : c.nextConId + 1 ≤ i := hi
    have hsame : (c.create env).connections i = c.connections i := setConnection_ne _ (by omega)
    rw [hsame]
    exact h.fresh i (by omega)

theorem balanced_returns (K : Core → Nat → Prop) : Returns K Balanced where
  quiet := fun h hq => h.quiet hq
  decref := fun h => h.decref
  close := fun h hc ho _ _ => h.close hc ho
  pushParse := fun h _ => h.move _ _ fun i => by
    rw [stackRefs_cons, heldRefs_ref]
    simp only [Frame.refs]
    omega

/-- **References are counted in every state.** -/
theorem balanced_closed (W : World) (N : Aim) (K : Core → Nat → Prop)
    (G : Core → Label → Prop) (F : Prop) (B : List Hold → Core → Prop) :
    Closed W N K G F (fun _ => True) B Balanced where
  quiet := fun _ h hq => h.quiet hq
  stop := fun _ _ _ _ _ => trivial
  crash := fun _ _ _ _ => trivial
  exited := fun _ _ _ => trivial
  pack := fun {k c} m _ h => by
    have hk : Balanced (.packed m :: k) c := h.hold fun i => (heldRefs_packed k m i).le
    exact ⟨hk.covered, hk.positive, hk.fresh⟩
  clear := fun {k c m} _ _ h => by
    have hk : Balanced k c := h.hold fun i => (heldRefs_packed k m i).ge
    exact ⟨hk.covered, hk.positive, hk.fresh⟩
  unsent := fun _ h _ => h.hold fun i => by
    rw [heldRefs_packed, heldRefs_ref]
    omega
  write := fun w _ _ _ h _ hc _ _ _ => h.written w _ hc
  answer := fun w _ _ _ _ h _ _ hc _ hid _ _ _ => by
    rw [← hid] at hc
    refine (h.written w _ hc).hold fun i => ?_
    rw [heldRefs_packed, heldRefs_packed, heldRefs_ref, heldRefs_request]
  silent := fun _ h _ => h.spent.decref
  lost := fun _ _ _ _ _ => trivial
  decref := fun _ h => h.decref
  newRequest := fun _ _ _ _ h hh _ => h.newRequest hh _ _ rfl
  enqueue := fun _ h => h.move _ _ fun i => by
    rw [heldRefs_request, queueRefs_append]
    omega
  dequeue := fun _ h ht => h.move _ _ fun i => by
    rw [heldRefs_request, queueRefs_takeEvent i ht]
    omega
  target := fun _ _ h _ _ _ hc => h.incref hc rfl rfl
  pushCall := fun _ _ _ _ h _ => h.move _ _ fun i => by
    rw [stackRefs_cons, heldRefs_ref, heldRefs_request]
    simp only [Frame.refs]
    omega
  popCall := fun _ h hs => h.move _ _ fun i => by
    rw [hs, stackRefs_cons, heldRefs_ref, heldRefs_request]
    simp only [Frame.refs]
    omega
  pushLoop := fun _ h _ hf => h.move _ _ fun i => by
    rw [stackRefs_cons]
    cases hf <;> simp [Frame.refs]
  popLoop := fun _ h hs _ => h.move _ _ fun i => by
    rw [hs, stackRefs_cons]
    omega
  popParse := fun _ h hs => h.move _ _ fun i => by
    rw [hs, stackRefs_cons, heldRefs_ref]
    simp only [Frame.refs]
    omega
  close := fun _ h hc ho _ _ => h.close hc ho
  closeReturned := fun _ _ h hs => h.closeReturned hs
  read := fun seg env _ _ h hc hu _ _ hK hab =>
    (balanced_returns K).readCb (h.parsed hc (parseData_closed W _ _ seg env)) hu hK hab
  aborted := fun _ _ _ _ _ _ _ => trivial
  eof := fun _ h hc hu hK => (balanced_returns K).eofCb (h.incref hc rfl rfl) hK hu
  create := fun env _ h _ => h.create env
  tick := fun {c id con} _ _ h hc _ => by
    have hpos : 0 < con.refcount := h.positive id con hc
    exact h.setConnection hc hpos (fun _ _ => le_rfl) le_rfl

/-- Every call of `crypto_write` was successful. -/
def AllSent (c : Core) : Prop := ∀ w ∈ c.trace, w.sent = true

/-- What holds of every state: the shape of the stack and the balance. -/
def Ordered (k : List Hold) (c : Core) : Prop := Shape c.stack ∧ Balanced k c

theorem ordered_closed (W : World) (N : Aim) (K : Core → Nat → Prop)
    (G : Core → Label → Prop) (F : Prop) : Closed W N K G F (fun _ => True) Top Ordered :=
  (shape_closed W N K G F).and (balanced_closed W N K G F _)

theorem ordered_returns (K : Core → Nat → Prop) : Returns K Ordered where
  quiet := fun h hq => ⟨(shape_returns K).quiet (k := []) h.1 hq, h.2.quiet hq⟩
  decref := fun h => ⟨(shape_returns K).decref (k := []) h.1, h.2.decref⟩
  close := fun h hc ho hK hu => ⟨(shape_returns K).close h.1 hc ho hK hu, h.2.close hc ho⟩
  pushParse := fun h hu => ⟨⟨hu, h.1⟩, (balanced_returns K).pushParse h.2 hu⟩

theorem ordered_init : Ordered [] Core.init :=
  ⟨trivial, fun _ => le_rfl, fun _ _ hc => (nomatch hc), fun _ _ => rfl⟩

/-- No label is enabled once the process has ended. -/
theorem step_of_halted {W : World} {c : Core} {l : Label} (h : c.halt.isSome = true) :
    c.step W l = none := by
  unfold Core.step
  exact if_pos h

/-- The states of a run: ordered, or the process has ended. -/
def Alive (c : Core) : Prop := Ordered [] c ∨ c.halt.isSome = true

theorem alive_step {W : World} {c c' : Core} {l : Label} (h : Alive c) (hs : c.step W l = some c') :
    Alive c' := by
  rcases h with h | h
  · have hclosed := ordered_closed W .any (fun _ _ => True) (fun _ _ => True) True
    rcases hclosed.step (fun h => h.1) h hs trivial (aims_any W c l) (fun _ => trivial)
      (fun _ _ _ _ _ _ => trivial) with h' | h'
    · exact Or.inl h'
    · exact Or.inr h'.2
  · rw [step_of_halted h] at hs
    cases hs

/-- A state in which a label is enabled is ordered. -/
theorem Alive.ordered {W : World} {c c' : Core} {l : Label} (h : Alive c)
    (hs : c.step W l = some c') : Ordered [] c := by
  rcases h with h | h
  · exact h
  · rw [step_of_halted h] at hs
    cases hs

/-- Every place of a move that starts in order is in order. -/
theorem Ordered.at {W : World} {c₀ : Core} {l : Label} {k : List Hold} {c : Core}
    (h : Ordered [] c₀) (ha : At W c₀ l k c) : Ordered k c := by
  have hclosed := ordered_closed W .any (fun _ _ => True) (fun _ _ => True) True
  exact (hclosed.at h.1 h ha trivial (aims_any W c₀ l) (fun _ => trivial) fun _ _ _ _ _ _ => trivial).2

/-- A label is enabled only while the process runs. -/
theorem running_of_step {W : World} {c c' : Core} {l : Label} (hs : c.step W l = some c') :
    c.halt = none := by
  by_contra hhalt
  rw [step_of_halted (Option.isSome_iff_ne_none.mpr hhalt)] at hs
  cases hs

theorem modify_halt (c : Core) (id : Nat) (f : Connection → Connection) : (c.modify id f).halt = c.halt := by
  unfold modify
  split <;> rfl

theorem connectionClose_halt (c : Core) (id : Nat) : (c.connectionClose id).halt = c.halt := by
  unfold connectionClose
  split
  · rfl
  · split
    · exact decref_halt c id
    · rfl

theorem parsed_halt (c : Core) (id : Nat) (con : Connection) (r : ParseResult) :
    (c.parsed id con r).halt = c.halt := by
  unfold Core.parsed
  dsimp only
  split <;> rfl

theorem readCb_halt {W : World} {c : Core} {id : Nat} {con : Connection} {seg : Bytes} {env : ReadEnv}
    (hab : (c.parseData W con seg env).outcome ≠ .aborted) : (c.readCb W id con seg env).halt = c.halt := by
  have hparsed := parsed_halt c id con (c.parseData W con seg env)
  unfold Core.readCb
  dsimp only
  split
  · exact (decref_halt _ id).trans hparsed
  · exact (connectionClose_halt _ id).trans hparsed
  · next hout => exact absurd hout hab
  · exact (modify_halt _ id _).trans hparsed

/-- **The process runs at every place of a move.** -/
theorem At.halt_eq {W : World} {c₀ c : Core} {l : Label} {k : List Hold} (ha : At W c₀ l k c) :
    c.halt = c₀.halt := by
  induction ha with
  | start => rfl
  | pushLoop hs hf => rfl
  | popLoop hs hf => rfl
  | popParse hs => rfl
  | unpacked hs hc hn hr => rfl
  | response hs hc hn hr hnew => rfl
  | mismatch hs hc hn hr hnew => exact connectionClose_halt _ _
  | dequeue hs ht => rfl
  | returned hs hc hi hr hf =>
      rw [(notified_flush hf).same]
      rfl
  | closeReturned hs => exact ((decref_halt _ _).trans (decref_halt _ _)).trans (modify_halt _ _ _)
  | read hc hu hl hfit hab => exact readCb_halt hab
  | eof hc hu hl => exact connectionClose_halt _ _
  | create hu => rfl
  | tick hc ho => rfl
  | decref _ ih => exact (decref_halt _ _).trans ih
  | error sent bytes env _ hh hc hl hcause ih => exact ih
  | newRequest _ hp hv hprep ih => exact (modify_halt _ _ _).trans ih
  | enqueue _ ih => exact ih
  | invoke _ ih => exact ih
  | @subscribe _ _ c id con event _ hc ho ih =>
      refine Eq.trans ?_ ih
      unfold Core.connectionSubscribe
      dsimp only
      split
      · exact modify_halt _ _ _
      · exact modify_halt _ _ _
  | @unsubscribe _ _ c c' id event _ hu ih =>
      refine Eq.trans ?_ ih
      unfold Core.unsubscribe at hu
      dsimp only at hu
      split at hu
      · split at hu
        · cases hu
          exact modify_halt _ _ _
        · cases hu
          exact modify_halt _ _ _
      · split at hu
        · cases hu
        · cases hu
          rfl
  | broadcast _ hn hf hb ih =>
      refine Eq.trans ?_ ih
      rcases broadcastEvent_cases hb with rfl | ⟨n, d, -, hd, rfl⟩
      · rfl
      · show d.halt = _
        rw [(notified_notify hd).same]
        rfl
  | putCallid _ ht heff hids hconns ih => exact ih
  | answer sent bytes env _ hm hc hl ih => exact ih
  | silent _ hm ih => exact (decref_halt _ _).trans ih
  | target _ ht ha hs hkey hc ih => exact ih
  | unsent msgid bytes env _ ht ha hkey hc hl ih => exact ih
  | wait msgid request bytes env _ ht ha hkey hs hids hc hl ih => exact (modify_halt _ _ _).trans ih
  | finished _ hs hi hr hout hrec htrace ih => exact ih
  | deliver _ hr hids ih => exact ih

/-- A move that ends the process ends it. -/
theorem Ordered.died {W : World} {c c' : Core} {l : Label} (h : Ordered [] c) (hd : Died W c l c') :
    c'.halt ≠ none := by
  have hclosed := ordered_closed W .any (fun _ _ => True) (fun _ _ => True) True
  have hend := hclosed.died h.1 h hd trivial (aims_any W c l) (fun _ => trivial)
    fun _ _ _ _ _ _ => trivial
  exact Option.isSome_iff_ne_none.mp hend.2

/-- A move leaves the core in order, or the process has ended in it. -/
theorem Ordered.step {W : World} {c c' : Core} {l : Label} (h : Ordered [] c)
    (hs : c.step W l = some c') : Ordered [] c' ∧ At W c l [] c' ∨ Died W c l c' ∧ c'.halt ≠ none := by
  rcases step_at hs with ha | hd
  · exact Or.inl ⟨h.at ha, ha⟩
  · exact Or.inr ⟨hd, h.died hd⟩

/-- The functions that can end the process have returned, when it goes on. -/
theorem turn_returns {W : World} {c c' : Core} (hord : Ordered [] c) (hs : c.step W .turn = some c')
    (hlive : c'.halt = none) :
    c.turn W = .ok c' := by
  have hstep : c.step W .turn = some (settle (c.turn W)) := by
    unfold Core.step
    rw [running_of_step hs]
    rfl
  have hsettle : settle (c.turn W) = c' := Option.some.inj (hstep.symm.trans hs)
  have hdied := @At.turn W c
  cases ht : c.turn W with
  | ok d =>
      rw [ht] at hsettle
      exact congrArg Except.ok hsettle
  | error d =>
      rw [ht] at hsettle hdied
      have hd : d = c' := hsettle
      exact absurd (hd ▸ hlive) (hord.died hdied)

/-- **Invariants of the running process.** What holds at the start and is kept by every move that meets
`G` and that the process survives holds in every state of a run of such moves in which it runs. -/
theorem always_running {W : World} {I : Core → Prop} {G : Core → Label → Prop} {ls : List Label}
    (hinit : I Core.init)
    (hkeep : ∀ c l c', Ordered [] c → I c → G c l → At W c l [] c' → I c')
    (hG : Along (Core.step W) (fun c l _ => G c l) Core.init ls) :
    Always (Core.step W) (fun c => c.halt = none → Ordered [] c ∧ I c) Core.init ls := by
  refine always_of_along (G := fun c l _ => G c l) ?_ (fun _ => ⟨ordered_init, hinit⟩) hG
  intro c l c' hc hg hs hrun'
  obtain ⟨hord, hI⟩ := hc (running_of_step hs)
  rcases hord.step hs with ⟨hord', ha⟩ | ⟨_, hend⟩
  · exact ⟨hord', hkeep c l c' hord hI hg ha⟩
  · exact absurd hrun' hend

/-- **Invariants of every state.** Let `I` hold at every place of a move that meets `G`, and let `J` be what
is left of it when the process ends. Then `J` holds in every state of a run of such moves. -/
theorem always_placed {W : World} {I J : Core → Prop} {G : Core → Label → Prop} {ls : List Label}
    (hinit : I Core.init)
    (hat : ∀ c₀ l k c, Ordered [] c₀ → I c₀ → G c₀ l → At W c₀ l k c → I c)
    (hfade : ∀ c c', I c → Faded c c' → J c')
    (hG : Along (Core.step W) (fun c l _ => G c l) Core.init ls) :
    Always (Core.step W) (fun c => J c ∧ (c.halt = none → Ordered [] c ∧ I c)) Core.init ls := by
  have hkept : ∀ c, I c → J c := fun c h => hfade c c h (faded_of_eq rfl rfl rfl rfl)
  refine always_of_along (G := fun c l _ => G c l) ?_ ⟨hkept _ hinit, fun _ => ⟨ordered_init, hinit⟩⟩ hG
  rintro c l c' ⟨_, hc⟩ hg hs
  obtain ⟨hord, hI⟩ := hc (running_of_step hs)
  rcases hord.step hs with ⟨hord', ha⟩ | ⟨hd, hend⟩
  · have hI' := hat c l [] c' hord hI hg ha
    exact ⟨hkept c' hI', fun _ => ⟨hord', hI'⟩⟩
  · obtain ⟨k, d, ha, hf⟩ := hd.faded
    exact ⟨hfade d c' (hat c l k d hord hI hg ha) hf, fun hrun => absurd hrun hend⟩

/-! ## §3 Closed connections -/

def Frame.isClose (id : Nat) : Frame → Bool
  | .close i => i == id
  | _ => false

/-- The `connection_close` activations of the connection `id`. -/
def closes (stack : List Frame) (id : Nat) : Nat := stack.countP (Frame.isClose id)

theorem closes_cons (f : Frame) (stack : List Frame) (id : Nat) :
    closes (f :: stack) id = closes stack id + if Frame.isClose id f then 1 else 0 := by
  simp [closes, List.countP_cons]

theorem two_isClose_le (f : Frame) (id : Nat) :
    2 * (if Frame.isClose id f then 1 else 0) ≤ Frame.refs id f := by
  cases f with
  | close i =>
      simp only [Frame.isClose, Frame.refs, beq_iff_eq]
      split <;> omega
  | poll => simp [Frame.isClose]
  | parse i => simp [Frame.isClose]
  | drain queue => simp [Frame.isClose]
  | call e target cinfo kind callid => simp [Frame.isClose]

theorem two_closes_le (id : Nat) : ∀ stack : List Frame, 2 * closes stack id ≤ stackRefs stack id
  | [] => le_rfl
  | f :: stack => by
      have ih := two_closes_le id stack
      have hf := two_isClose_le f id
      rw [closes_cons, stackRefs_cons]
      omega

theorem two_closes_lt {id : Nat} : ∀ {stack : List Frame}, Frame.parse id ∈ stack →
    2 * closes stack id + 1 ≤ stackRefs stack id
  | f :: stack, h => by
      rw [closes_cons, stackRefs_cons]
      rcases List.mem_cons.mp h with rfl | h
      · have hrest := two_closes_le id stack
        simp only [Frame.isClose, Frame.refs, if_true, Bool.false_eq_true, if_false]
        omega
      · have ih := two_closes_lt h
        have hf := two_isClose_le f id
        omega

/-- Under the event queue there is no `connection_close`. -/
theorem no_closes {id : Nat} {stack : List Frame} (h : Shape stack) (hh : LoopHead stack) :
    closes stack id = 0 := by
  induction hn : stack.length using Nat.strong_induction_on generalizing stack with
  | _ n ih =>
      cases hh with
      | main => rfl
      | call e target cinfo kind callid rest =>
          obtain ⟨⟨queue, below, rfl⟩, hrest⟩ := h
          have hshort : below.length < n := by
            rw [← hn, List.length_cons, List.length_cons]
            omega
          have hbelow := ih below.length hshort hrest.2 hrest.1 rfl
          simp [closes_cons, hbelow, Frame.isClose]

/-- The loops over the table meet every connection. -/
theorem Balanced.mem_subscribers {k : List Hold} {c : Core} {id : Nat} {con : Connection}
    {name : Bytes} (h : Balanced k c) (hc : c.connections id = some con)
    (hn : name ∈ con.subscribedEvents.names) : id ∈ c.subscribers name := by
  have hlt : id < c.nextConId := by
    by_contra hge
    rw [h.fresh id (Nat.le_of_not_lt hge)] at hc
    cases hc
  refine List.mem_filter.mpr ⟨List.mem_filter.mpr ⟨List.mem_range.mpr hlt, ?_⟩, ?_⟩
  · rw [hc]
    rfl
  · rw [hc]
    simpa using hn

/-- Whether a waiting function may still write to the connection: a `parse_cb` does in its decode loop, and
`connection_send_request` does when it returns, to the plugin it has called and to the one it has called for. -/
def Frame.uses (id : Nat) : Frame → Bool
  | .parse i => i == id
  | .call e target _ _ _ => e.answers == some id || target == id
  | _ => false

/-- Somebody may still write to the connection: the running code, a request in the queue that gets an answer,
or a waiting function. -/
def Used (k : List Hold) (c : Core) (id : Nat) : Prop :=
  (∃ x ∈ k, x.user = some id) ∨ (∃ e ∈ c.queue, e.answers = some id) ∨ ∃ f ∈ c.stack, Frame.uses id f = true

instance (k : List Hold) (c : Core) (id : Nat) : Decidable (Used k c id) :=
  inferInstanceAs (Decidable (_ ∨ _ ∨ _))

variable {N : Aim} {k k' : List Hold} {c c' : Core} {id : Nat}

theorem Held.used (h : Held k c id) : Used k c id := by
  rcases h with h | h
  · exact Or.inl h
  · exact Or.inr (Or.inr ⟨.parse id, h, beq_self_eq_true id⟩)

theorem used_cons {x : Hold} : Used (x :: k) c id ↔ x.user = some id ∨ Used k c id := by
  simp only [Used, List.exists_mem_cons_iff, or_assoc]

theorem used_pop {f : Frame} {below : List Frame} (hs : c.stack = f :: below) :
    Used k c id ↔ Frame.uses id f = true ∨ Used k { c with stack := below } id := by
  simp only [Used, hs, List.exists_mem_cons_iff]
  rw [or_left_comm (b := Frame.uses id f = true), or_left_comm (b := Frame.uses id f = true)]

theorem used_push {f : Frame} :
    Used k { c with stack := f :: c.stack } id ↔ Frame.uses id f = true ∨ Used k c id :=
  used_pop (c := { c with stack := f :: c.stack }) rfl

/-- The connection stays open, or stays closed; the streams of an open one are kept, and a closed one gets no
subscription. -/
structure SameLife (a b : Connection) : Prop where
  closed : b.tunnel.closed = a.tunnel.closed
  released : b.released = a.released ∨ a.tunnel.closed = true
  events : ∀ n ∈ b.subscribedEvents.names, n ∈ a.subscribedEvents.names ∨ a.tunnel.closed = false

/-- **What keeps writes off closed connections**: nobody uses one, no event of `N` and no call to a key of `N`
reaches one, and only a closed connection is without its streams. -/
structure Guarded (N : Aim) (k : List Hold) (c : Core) : Prop where
  used : ∀ id con, c.connections id = some con → Used k c id → con.tunnel.closed = false
  shut : ∀ id con, c.connections id = some con → Frame.close id ∈ c.stack → con.tunnel.closed = true
  streams : ∀ id con, c.connections id = some con → con.tunnel.closed = false → con.released = false
  heard : ∀ id con name, c.connections id = some con → N.event name →
    name ∈ con.subscribedEvents.names → con.tunnel.closed = false
  called : ∀ id con key, c.connections id = some con → N.key key → c.pluginkeys key = some id →
    con.tunnel.closed = false
  unwritten : ∀ w ∈ c.trace, w.closed = false

/-- What is written to is open. -/
theorem Guarded.reached_open (h : Guarded N k c) (hb : Balanced k c) (hr : Reached N k c id) :
    ∃ con, c.connections id = some con ∧ con.tunnel.closed = false := by
  rcases hr with hh | ⟨con, name, hc, hN, hname⟩
  · obtain ⟨con, hc, _⟩ := hb.exists_of_held hh
    exact ⟨con, hc, h.used id con hc hh.used⟩
  · exact ⟨con, hc, h.heard id con name hc hN hname⟩

/-- **The guard is kept** while connections keep their lives, nobody new uses a closed one, and no closed one
is written to. -/
theorem Guarded.congr (h : Guarded N k c)
    (hconns : ∀ i con', c'.connections i = some con' → ∃ con, c.connections i = some con ∧ SameLife con con')
    (hused : ∀ i con', c'.connections i = some con' → Used k' c' i →
      Used k c i ∨ con'.tunnel.closed = false)
    (hclose : ∀ i, Frame.close i ∈ c'.stack → Frame.close i ∈ c.stack)
    (hkeys : ∀ key i, c'.pluginkeys key = some i → c.pluginkeys key = some i)
    (htrace : ∀ w ∈ c'.trace, w.closed = false) : Guarded N k' c' := by
  refine ⟨fun i con' hc' hu => ?_, fun i con' hc' hf => ?_, fun i con' hc' ho => ?_,
    fun i con' name hc' hN hn => ?_, fun i con' key hc' hN hk => ?_, htrace⟩
  all_goals obtain ⟨con, hc, hs⟩ := hconns i con' hc'
  · rcases hused i con' hc' hu with hu | ho
    · exact hs.closed.trans (h.used i con hc hu)
    · exact ho
  · exact hs.closed.trans (h.shut i con hc (hclose i hf))
  · have hopen := hs.closed.symm.trans ho
    rcases hs.released with hr | hcl
    · exact hr.trans (h.streams i con hc hopen)
    · rw [hopen] at hcl
      cases hcl
  · rcases hs.events name hn with hold | hopen
    · exact hs.closed.trans (h.heard i con name hc hN hold)
    · exact hs.closed.trans hopen
  · exact hs.closed.trans (h.called i con key hc hN (hkeys key i hk))

/-- The running code holds other things. -/
theorem Guarded.hold (h : Guarded N k c)
    (hk : ∀ i con, c.connections i = some con → (∃ x ∈ k', x.user = some i) →
      Used k c i ∨ con.tunnel.closed = false) : Guarded N k' c := by
  refine h.congr (fun i con hc => ⟨con, hc, rfl, Or.inl rfl, fun _ hn => Or.inl hn⟩) (fun i con hc hu => ?_)
    (fun _ hf => hf) (fun _ _ hk => hk) h.unwritten
  rcases hu with hu | hu
  · exact hk i con hc hu
  · exact Or.inl (Or.inr hu)

/-- What is done with. -/
theorem Guarded.spent {x : Hold} (h : Guarded N (x :: k) c) : Guarded N k c :=
  h.hold fun _ _ _ hx => Or.inl (used_cons.mpr (Or.inr (Or.inl hx)))

/-- One thing more is held, that lets the code write to no closed connection. -/
theorem Guarded.cons (h : Guarded N k c) {x : Hold}
    (hx : ∀ i con, c.connections i = some con → x.user = some i → Used k c i ∨ con.tunnel.closed = false) :
    Guarded N (x :: k) c := by
  refine h.hold fun i con hc hin => ?_
  rcases used_cons.mp (Or.inl hin) with hu | hu
  · exact hx i con hc hu
  · exact Or.inl hu

/-- A reference to an open connection. -/
theorem Guarded.take (h : Guarded N k c) {con : Connection} (hc : c.connections id = some con)
    (ho : con.tunnel.closed = false) : Guarded N (.ref id :: k) c := by
  refine h.cons fun i con' hc' hu => Or.inr ?_
  cases hu
  rw [hc] at hc'
  cases hc'
  exact ho

theorem Guarded.setConnection (h : Guarded N k c) {con con' : Connection}
    (hc : c.connections id = some con) (hs : SameLife con con') :
    Guarded N k (c.setConnection id con') := by
  refine h.congr (fun i con₁ h₁ => ?_) (fun _ _ _ hu => Or.inl hu) (fun _ hf => hf) (fun _ _ hk => hk)
    h.unwritten
  rcases setConnection_cases h₁ with ⟨rfl, rfl⟩ | ⟨_, h₁⟩
  · exact ⟨con, hc, hs⟩
  · exact ⟨con₁, h₁, rfl, Or.inl rfl, fun _ hn => Or.inl hn⟩

theorem Guarded.quiet (h : Guarded N k c) (hq : Quiet c c') : Guarded N k c' := by
  refine h.congr (fun i con' hc' => ?_) (fun i _ _ hu => Or.inl ?_) (fun i hf => ?_) (fun key i hk => ?_)
    fun w hw => ?_
  · have hrel := hq.connections i
    rw [hc'] at hrel
    generalize c.connections i = o at hrel
    cases hrel with
    | some hs => exact ⟨_, rfl, congrArg Tunnel.closed hs.tunnel, Or.inl hs.released, hs.events⟩
  · rw [Used, hq.queue, hq.stack] at hu
    exact hu
  · rw [hq.stack] at hf
    exact hf
  · rw [hq.pluginkeys] at hk
    exact hk
  · rw [hq.trace] at hw
    exact h.unwritten w hw

/-- Requests move between the queue, the stack and the running code. -/
theorem Guarded.move (h : Guarded N k c) (queue : List RequestEvent) (stack : List Frame)
    (hused : ∀ i, Used k' { c with queue := queue, stack := stack } i → Used k c i)
    (hclose : ∀ i, Frame.close i ∈ stack → Frame.close i ∈ c.stack) :
    Guarded N k' { c with queue := queue, stack := stack } :=
  h.congr (fun _ con hc => ⟨con, hc, rfl, Or.inl rfl, fun _ hn => Or.inl hn⟩)
    (fun i _ _ hu => Or.inl (hused i hu)) hclose (fun _ _ hk => hk) h.unwritten

/-- A waiting function is pushed; it uses nobody whom the running code did not use. -/
theorem Guarded.push (h : Guarded N k c) {f : Frame}
    (hused : ∀ i, Frame.uses i f = true ∨ Used k' c i → Used k c i) (hf : ∀ i, f ≠ .close i) :
    Guarded N k' { c with stack := f :: c.stack } := by
  refine h.move c.queue _ (fun i hu => hused i (used_push.mp hu)) fun i hin => ?_
  rcases List.mem_cons.mp hin with heq | hin
  · exact absurd heq.symm (hf i)
  · exact hin

/-- A waiting function returns; the running code takes over whom it uses. -/
theorem Guarded.pop (h : Guarded N k c) {f : Frame} {below : List Frame} (hs : c.stack = f :: below)
    (hused : ∀ i, Used k' { c with stack := below } i →
      Frame.uses i f = true ∨ Used k { c with stack := below } i) :
    Guarded N k' { c with stack := below } := by
  refine h.move c.queue _ (fun i hu => (used_pop hs).mpr (hused i hu)) fun i hin => ?_
  rw [hs]
  exact List.mem_cons_of_mem _ hin

theorem Guarded.enqueue {e : RequestEvent} (h : Guarded N (.request e :: k) c) :
    Guarded N k { c with queue := c.queue ++ [e] } := by
  refine h.move _ c.stack (fun i hu => used_cons.mpr ?_) fun _ hf => hf
  rcases hu with hu | ⟨x, hx, hu⟩ | hu
  · exact Or.inr (Or.inl hu)
  · rcases List.mem_append.mp hx with hx | hx
    · exact Or.inr (Or.inr (Or.inl ⟨x, hx, hu⟩))
    · cases List.mem_singleton.mp hx
      exact Or.inl hu
  · exact Or.inr (Or.inr (Or.inr hu))

theorem Guarded.dequeue {e : RequestEvent} {queue : Option Nat} {rest : List RequestEvent} (h : Guarded N [] c)
    (ht : takeEvent queue c.queue = some (e, rest)) : Guarded N [.request e] { c with queue := rest } := by
  have hperm := takeEvent_perm ht
  refine h.move _ c.stack (fun i hu => ?_) fun _ hf => hf
  rcases used_cons.mp hu with hu | hu | ⟨x, hx, hu⟩ | hu
  · exact Or.inr (Or.inl ⟨e, hperm.mem_iff.mpr List.mem_cons_self, hu⟩)
  · exact Or.inl hu
  · exact Or.inr (Or.inl ⟨x, hperm.mem_iff.mpr (List.mem_cons_of_mem e hx), hu⟩)
  · exact Or.inr (Or.inr hu)

/-- The call has the reference of its target and that of the request it works for. -/
theorem uses_call {e : RequestEvent} {target cinfo : Nat} {kind : CallKind} {callid : UInt64} :
    Frame.uses id (.call e target cinfo kind callid) = true ∨ Used k c id ↔
      Used (.ref target :: .request e :: k) c id := by
  simp only [used_cons, Hold.user, Frame.uses, Bool.or_eq_true, beq_iff_eq, Option.some.injEq]
  rw [or_assoc, or_left_comm]

theorem uses_parse {i : Nat} :
    Frame.uses id (.parse i) = true ∨ Used k c id ↔ Used (.ref i :: k) c id := by
  simp only [used_cons, Hold.user, Frame.uses, beq_iff_eq, Option.some.injEq]

theorem Guarded.written (h : Guarded N k c) {con : Connection} (w : Write) (r : WriteResult)
    (hc : c.connections w.con = some con) (ho : con.tunnel.closed = false)
    (hw : w.closed = con.tunnel.closed) : Guarded N k (c.written con r w) := by
  have hset : Guarded N k (c.setConnection w.con { con with tunnel := afterWrite con.tunnel r }) :=
    h.setConnection hc ⟨rfl, Or.inl rfl, fun _ hn => Or.inl hn⟩
  refine ⟨hset.used, hset.shut, hset.streams, hset.heard, hset.called, fun w' hw' => ?_⟩
  rcases List.mem_append.mp hw' with hold | hnew
  · exact h.unwritten w' hold
  · rw [List.mem_singleton.mp hnew, hw]
    exact ho

/-- A connection that is freed takes its requests with it. -/
theorem Guarded.free (h : Guarded N k c) (con : Connection) : Guarded N k (c.freeConnection id con) := by
  refine h.congr (fun i con' hc' => ?_) (fun i _ _ hu => Or.inl ?_) (fun _ hf => hf) (fun key i hk => ?_)
    h.unwritten
  · by_cases hi : i = id
    · have hgone : (c.freeConnection id con).connections i = none := if_pos hi
      rw [hgone] at hc'
      cases hc'
    · have hsame : (c.freeConnection id con).connections i = c.connections i := if_neg hi
      exact ⟨con', hsame.symm.trans hc', rfl, Or.inl rfl, fun _ hn => Or.inl hn⟩
  · rcases hu with hu | ⟨e, he, hu⟩ | hu
    · exact Or.inl hu
    · exact Or.inr (Or.inl ⟨e, (List.mem_filter.mp he).1, hu⟩)
    · exact Or.inr (Or.inr hu)
  · by_cases hkey : key = con.pluginkey
    · have hgone : (c.freeConnection id con).pluginkeys key = none := if_pos hkey
      rw [hgone] at hk
      cases hk
    · have hsame : (c.freeConnection id con).pluginkeys key = c.pluginkeys key := if_neg hkey
      exact hsame.symm.trans hk

theorem Guarded.decref (h : Guarded N k c) : Guarded N k (c.decref id) := by
  unfold SploneBox.Core.decref
  split
  · rename_i con hc
    split
    · exact h.free con
    · exact h.setConnection hc ⟨rfl, Or.inl rfl, fun _ hn => Or.inl hn⟩
  · exact h

/-- `decref` of a held reference does not free an open connection, which keeps its own. -/
theorem decref_open {con : Connection} (hb : Balanced (.ref id :: k) c)
    (hc : c.connections id = some con) (ho : con.tunnel.closed = false) :
    c.decref id = c.setConnection id { con with refcount := con.refcount - 1 } := by
  obtain ⟨con', hc', hone⟩ := hb.exists_of_hold List.mem_cons_self rfl
  rw [hc] at hc'
  cases hc'
  have hown : ownRef (some con) = 1 := by simp [ownRef, ho]
  unfold decref
  rw [hc]
  exact if_neg (by omega)

theorem Guarded.newRequest (h : Guarded N k c) (hh : Held k c id) (m : Message) (e : RequestEvent)
    (he : e.con = id) : Guarded N (.request e :: k) (c.newRequest id m) := by
  have hside : Guarded N (.request e :: k) { c with received := c.received ++ [m] } := by
    have hcore : Guarded N k { c with received := c.received ++ [m] } :=
      ⟨h.used, h.shut, h.streams, h.heard, h.called, h.unwritten⟩
    refine hcore.cons fun i con hc hu => Or.inl ?_
    rw [← RequestEvent.con_of_answers hu, he]
    exact hh.used
  unfold SploneBox.Core.newRequest SploneBox.Core.incref modify
  split
  · rename_i con hc
    exact hside.setConnection hc ⟨rfl, Or.inl rfl, fun _ hn => Or.inl hn⟩
  · exact hside

/-- `connection_close` is entered when nobody else uses the connection, in a move that sends nothing. -/
def ClosesAlone (N : Aim) (c : Core) (id : Nat) : Prop :=
  ¬ Used [] c id ∧ (∀ name, ¬ N.event name) ∧ ∀ key, ¬ N.key key

theorem Guarded.close (h : Guarded N [.ref id] c) {con : Connection} (hc : c.connections id = some con)
    (ho : con.tunnel.closed = false) (halone : ClosesAlone N c id) :
    Guarded N [] (c.connectionClose id) := by
  obtain ⟨hunused, hevent, hkey⟩ := halone
  rw [connectionClose_open hc ho]
  refine ⟨fun i con₁ h₁ hu => ?_, fun i con₁ h₁ hf => ?_, fun i con₁ h₁ ho₁ => ?_,
    fun _ _ name _ hN => absurd hN (hevent name), fun _ _ key _ hN => absurd hN (hkey key), h.unwritten⟩
  · have hold : Used [] c i := by
      rcases used_push.mp hu with hu | hu
      · cases hu
      · exact hu
    rcases setConnection_cases h₁ with ⟨rfl, rfl⟩ | ⟨_, h₁⟩
    · exact absurd hold hunused
    · exact h.used i con₁ h₁ (used_cons.mpr (Or.inr hold))
  · rcases setConnection_cases h₁ with ⟨rfl, rfl⟩ | ⟨hi, h₁⟩
    · rfl
    · rcases List.mem_cons.mp hf with heq | hf
      · cases heq
        exact absurd rfl hi
      · exact h.shut i con₁ h₁ hf
  · rcases setConnection_cases h₁ with ⟨rfl, rfl⟩ | ⟨_, h₁⟩
    · cases ho₁
    · exact h.streams i con₁ h₁ ho₁

theorem Guarded.closeReturned (h : Guarded N [] c) {rest : List Frame} (hs : c.stack = .close id :: rest) :
    Guarded N [] ({ c with stack := rest }.closeReturned id) := by
  have hpop : Guarded N [] { c with stack := rest } := h.pop hs fun _ hu => Or.inr hu
  have hrel : Guarded N [] ({ c with stack := rest }.modify id fun con => { con with released := true }) := by
    unfold modify
    split
    · rename_i con hc
      have hshut := h.shut id con hc (by rw [hs]; exact List.mem_cons_self)
      exact hpop.setConnection hc ⟨rfl, Or.inr hshut, fun _ hn => Or.inl hn⟩
    · exact hpop
  exact hrel.decref.decref

theorem Guarded.create (h : Guarded N [] c) (hb : Balanced [] c) (env : CreateEnv) :
    Guarded N [] (c.create env) := by
  have hnone : Frame.close c.nextConId ∉ c.stack := by
    intro hf
    have hpos : 0 < closes c.stack c.nextConId :=
      List.countP_pos_iff.mpr ⟨_, hf, beq_self_eq_true c.nextConId⟩
    have hcov := hb.covered c.nextConId
    have hle := two_closes_le c.nextConId c.stack
    unfold refs at hcov
    rw [hb.fresh _ le_rfl] at hcov
    simp only [countOf] at hcov
    omega
  refine ⟨fun i con₁ h₁ hu => ?_, fun i con₁ h₁ hf => ?_, fun i con₁ h₁ ho => ?_,
    fun i con₁ name h₁ hN hn => ?_, fun i con₁ key h₁ hN hk => ?_, h.unwritten⟩
  all_goals rcases setConnection_cases h₁ with ⟨rfl, rfl⟩ | ⟨_, h₁⟩
  · rfl
  · exact h.used i con₁ h₁ hu
  · exact absurd hf hnone
  · exact h.shut i con₁ h₁ hf
  · rfl
  · exact h.streams i con₁ h₁ ho
  · rfl
  · exact h.heard i con₁ name h₁ hN hn
  · rfl
  · exact h.called i con₁ key h₁ hN hk

/-- Data is read from open connections only. -/
def ReadsOpen (c : Core) (l : Label) : Prop :=
  ∀ id ∈ l.source, ∀ con ∈ c.connections id, con.tunnel.closed = false

theorem guarded_returns (N : Aim) :
    Returns (ClosesAlone N) (fun k c => Ordered k c ∧ Guarded N k c) where
  quiet := fun h hq => ⟨(ordered_returns (ClosesAlone N)).quiet h.1 hq, h.2.quiet hq⟩
  decref := fun h => ⟨(ordered_returns (ClosesAlone N)).decref h.1, h.2.spent.decref⟩
  close := fun h hc ho hK hu =>
    ⟨(ordered_returns (ClosesAlone N)).close h.1 hc ho hK hu, h.2.close hc ho hK⟩
  pushParse := fun h hu => ⟨(ordered_returns (ClosesAlone N)).pushParse h.1 hu,
    h.2.push (fun _ => uses_parse.mp) fun _ hf => by cases hf⟩

theorem Guarded.parsed (h : Guarded N [] c) {W : World} {con : Connection} (seg : Bytes) (env : ReadEnv)
    (hc : c.connections id = some con) (ho : con.tunnel.closed = false) :
    Guarded N [.ref id] (c.parsed id con (c.parseData W con seg env)) := by
  have hflag := parseData_closed W c con seg env
  have hset : Guarded N [] (c.setConnection id { con with
      tunnel := (c.parseData W con seg env).tunnel
      refcount := con.refcount + 1 }) :=
    h.setConnection hc ⟨hflag, Or.inl rfl, fun _ hn => Or.inl hn⟩
  have hheld : Guarded N [.ref id] (c.setConnection id { con with
      tunnel := (c.parseData W con seg env).tunnel
      refcount := con.refcount + 1 }) := hset.take (setConnection_self _ _ _) (hflag.trans ho)
  unfold SploneBox.Core.parsed
  dsimp only
  split
  · refine ⟨hheld.used, hheld.shut, hheld.streams, hheld.heard, fun i con' key hc' hN hk => ?_,
      hheld.unwritten⟩
    dsimp only at hk
    split at hk
    · cases hk
      have hself : (c.setConnection id { con with
          tunnel := (c.parseData W con seg env).tunnel
          refcount := con.refcount + 1 }).connections id = some con' := hc'
      rw [setConnection_self] at hself
      cases hself
      exact hflag.trans ho
    · exact hheld.called i con' key hc' hN hk
  · exact hheld

/-- The end of the stream of a closed connection changes nothing but `reading`. -/
theorem quiet_eofCb {con : Connection} (hc : c.connections id = some con)
    (ho : con.tunnel.closed = true) (hpos : 0 < con.refcount) : Quiet c (c.eofCb id con) := by
  have hcount : con.refcount + 1 - 1 ≠ 0 := by omega
  have heq : c.eofCb id con = c.setConnection id { con with reading := false } := by
    rw [eofCb_closed ho]
    unfold SploneBox.Core.decref
    rw [setConnection_self]
    dsimp only
    rw [if_neg hcount]
    unfold SploneBox.Core.setConnection
    congr 1
    funext i
    by_cases hi : i = id
    · simp [hi]
    · simp [hi]
  rw [heq]
  exact quiet_setConnection hc ⟨rfl, rfl, rfl, fun _ hn => Or.inl hn⟩

/-- **The guard is kept** as long as `connection_close` is entered with nobody left who uses the connection,
and data is read from open connections. -/
theorem guarded_closed (W : World) (N : Aim) :
    Closed W N (ClosesAlone N) ReadsOpen True (fun c => ∀ w ∈ c.trace, w.closed = false) Ordered
      (Guarded N) where
  quiet := fun _ h hq => h.quiet hq
  stop := fun _ _ _ _ h => h.unwritten
  crash := fun _ _ _ h => h.unwritten
  exited := fun _ h _ => h.unwritten
  pack := fun m _ h => by
    have hk := h.cons (x := .packed m) fun _ _ _ hu => by cases hu
    exact ⟨hk.used, hk.shut, hk.streams, hk.heard, hk.called, hk.unwritten⟩
  clear := fun _ _ h =>
    have hk := h.spent
    ⟨hk.used, hk.shut, hk.streams, hk.heard, hk.called, hk.unwritten⟩
  unsent := fun _ h _ => h.spent.spent
  write := fun w _ _ hb h hr hc _ hw _ => by
    obtain ⟨con', hc', ho⟩ := h.reached_open hb.2 hr
    rw [hc] at hc'
    cases hc'
    exact h.written w _ hc ho hw
  answer := fun {k c e m con} w _ _ _ hb h hm _ hc _ hid hw _ _ => by
    have hheld : Held (.packed m :: .request e :: k) c e.con :=
      Or.inl ⟨.request e, by simp, RequestEvent.answers_eq hm⟩
    obtain ⟨con', hc', ho⟩ := h.reached_open hb.2 (Or.inl hheld)
    rw [hc] at hc'
    cases hc'
    have hkept : Guarded N (.packed m :: .ref e.con :: k) c := by
      refine (h.spent.spent.take hc ho).cons fun _ _ _ hu => by cases hu
    rw [← hid] at hc
    exact hkept.written w _ hc ho hw
  silent := fun _ h _ => h.spent.decref
  lost := fun hb h hr _ hw => by
    obtain ⟨con, hc, ho⟩ := h.reached_open hb.2 hr
    have hlost := (hw con hc).1
    rw [h.streams _ con hc ho] at hlost
    cases hlost
  decref := fun _ h => h.spent.decref
  newRequest := fun _ _ _ _ h hh _ => h.newRequest hh _ _ rfl
  enqueue := fun _ h => h.enqueue
  dequeue := fun _ h ht => h.dequeue ht
  target := fun {_ _ id con key _ _} _ _ h hN _ hkey hc =>
    have hheld := h.take hc (h.called id con key hc hN hkey)
    hheld.setConnection hc ⟨rfl, Or.inl rfl, fun _ hn => Or.inl hn⟩
  pushCall := fun _ _ _ _ h _ => h.push (fun _ => uses_call.mp) fun _ hf => by cases hf
  popCall := fun _ h hs => h.pop hs fun _ => uses_call.mpr
  pushLoop := fun _ h _ hf => h.push (fun i hu => by cases hf <;> simpa [Frame.uses] using hu) fun i heq => by
    rw [heq] at hf
    cases hf
  popLoop := fun _ h hs _ => h.pop hs fun _ hu => Or.inr hu
  popParse := fun _ h hs => h.pop hs fun _ => uses_parse.mpr
  close := fun _ h hc ho hK _ => h.close hc ho hK
  closeReturned := fun _ _ h hs => h.closeReturned hs
  read := fun {c id con} seg env hG hb h hc hu _ _ hK hab => by
    have hord : Ordered [.ref id] (c.parsed id con (c.parseData W con seg env)) :=
      ⟨by rw [parsed_stack]; exact hb.1, hb.2.parsed hc (parseData_closed W c con seg env)⟩
    have hguard := h.parsed (W := W) seg env hc (hG id rfl con hc)
    exact ((guarded_returns N).readCb ⟨hord, hguard⟩ hu hK hab).2
  aborted := fun {c id con} seg env hG _ h hc _ =>
    (h.parsed (W := W) seg env hc (hG id rfl con hc)).unwritten
  eof := fun {c id con} hb h hc hu hK => by
    have hmarked : Guarded N []
        (c.setConnection id { con with refcount := con.refcount + 1, reading := false }) :=
      h.setConnection hc ⟨rfl, Or.inl rfl, fun _ hn => Or.inl hn⟩
    cases ho : con.tunnel.closed with
    | true =>
        rw [eofCb_closed ho]
        exact hmarked.decref
    | false =>
        have hord : Ordered [.ref id]
            (c.setConnection id { con with refcount := con.refcount + 1, reading := false }) :=
          ⟨hb.1, hb.2.incref hc rfl rfl⟩
        have hheld := hmarked.take (setConnection_self _ _ _) ho
        exact ((guarded_returns N).eofCb ⟨hord, hheld⟩ hK hu).2
  create := fun env hb h _ => h.create hb.2 env
  tick := fun _ _ h hc _ => h.setConnection hc ⟨rfl, Or.inl rfl, fun _ hn => Or.inl hn⟩

/-- A message that is a response is not handled as a request. -/
theorem nextMessage_of_mismatched {W : World} {con con' : Connection}
    (h : mismatched W c con = some con') : nextMessage W con = none := by
  unfold mismatched at h
  unfold nextMessage
  split at h
  · split at h
    · rename_i hresp
      simp [hresp]
    · cases h
  · cases h

/-- A move that enters `connection_close` broadcasts nothing. -/
theorem broadcasting_of_entering {W : World} {l : Label} {x : Nat × Core}
    (h : entering W c l = some x) : broadcasting W c l = none := by
  cases l with
  | turn =>
      simp only [entering] at h
      simp only [broadcasting]
      split at h
      · rename_i id below hs
        obtain ⟨con, hc, hx⟩ := Option.bind_eq_some_iff.mp h
        obtain ⟨con', hm, _⟩ := Option.map_eq_some_iff.mp hx
        simp only [hs, hc, Option.bind_some, nextMessage_of_mismatched hm, Option.bind_none]
      · cases h
  | accept env => rfl
  | read id seg env => rfl
  | eof id => rfl
  | tick id fresh => rfl

/-- What the move sends. -/
def aim (W : World) (c : Core) (l : Label) : Aim :=
  ⟨fun name => broadcasting W c l = some name, fun key => asking W c = some key⟩

/-- Nothing is sent between two moves. -/
def Aim.nothing : Aim := ⟨fun _ => False, fun _ => False⟩

theorem asking_of_inUvRun (W : World) (h : c.inUvRun = true) : asking W c = none := by
  unfold inUvRun at h
  unfold asking
  cases hs : c.stack with
  | nil => rfl
  | cons f below =>
      rw [hs] at h
      cases f with
      | drain queue => cases h
      | _ => rfl

/-- A move that enters `connection_close` calls no plugin. -/
theorem asking_of_entering {W : World} {l : Label} {x : Nat × Core} (hs : c.step W l = some c')
    (h : entering W c l = some x) : asking W c = none := by
  unfold Core.step at hs
  split at hs
  · cases hs
  cases l with
  | turn =>
      simp only [entering] at h
      split at h
      · rename_i hstack
        simp only [asking, hstack]
      · cases h
  | accept env => cases h
  | tick id fresh => cases h
  | read id seg env =>
      dsimp only at hs
      split at hs
      · cases hs
      · split at hs
        · cases hs
        · rename_i hgo
          exact asking_of_inUvRun W (by simpa using fun hu => hgo (Or.inl hu))
  | eof id =>
      dsimp only at hs
      split at hs
      · cases hs
      · split at hs
        · cases hs
        · rename_i hgo
          exact asking_of_inUvRun W (by simpa using fun hu => hgo (Or.inl hu))

end Core

open Core

/-- **The moves that keep the lifetime of a connection and that of its streams together.** -/
structure CloseQuiet (W : World) (c : Core) (l : Label) : Prop where
  /-- An open connection is closed when nobody uses it: none of its requests that gets an answer is queued or
  running, no call to it is waiting, and no second `parse_cb` runs for it. Its notifications may be queued. -/
  alone : ∀ x ∈ entering W c l, ∀ con ∈ x.2.connections x.1, con.tunnel.closed = false → ¬ Used [] x.2 x.1
  /-- No event is broadcast to a connection that was closed. -/
  silent : ∀ name ∈ broadcasting W c l, ∀ id ∈ c.subscribers name, ∀ con ∈ c.connections id,
    con.tunnel.closed = false
  /-- No plugin is called whose connection was closed. -/
  called : ∀ key ∈ asking W c, ∀ id ∈ c.pluginkeys key, ∀ con ∈ c.connections id, con.tunnel.closed = false
  /-- No data is read from a connection that was closed. -/
  unread : ReadsOpen c l

instance (W : World) (c : Core) (l : Label) : Decidable (CloseQuiet W c l) :=
  decidable_of_iff
    ((∀ x ∈ entering W c l, ∀ con ∈ x.2.connections x.1, con.tunnel.closed = false → ¬ Used [] x.2 x.1) ∧
      (∀ name ∈ broadcasting W c l, ∀ id ∈ c.subscribers name, ∀ con ∈ c.connections id,
        con.tunnel.closed = false) ∧
      (∀ key ∈ asking W c, ∀ id ∈ c.pluginkeys key, ∀ con ∈ c.connections id, con.tunnel.closed = false) ∧
      ∀ id ∈ l.source, ∀ con ∈ c.connections id, con.tunnel.closed = false)
    ⟨fun h => ⟨h.1, h.2.1, h.2.2.1, h.2.2.2⟩, fun h => ⟨h.1, h.2, h.3, h.4⟩⟩

/-- The states of a run of such moves: guarded, or the process has ended. -/
def Sound (c : Core) : Prop :=
  (Ordered [] c ∧ Guarded .nothing [] c) ∨ Ended (fun c => ∀ w ∈ c.trace, w.closed = false) c

theorem Sound.unwritten {c : Core} (h : Sound c) : ∀ w ∈ c.trace, w.closed = false := by
  rcases h with ⟨_, h⟩ | h
  · exact h.unwritten
  · exact h.1

theorem sound_init : Sound Core.init := by
  refine Or.inl ⟨ordered_init, fun _ _ hc => (nomatch hc), fun _ _ hc => (nomatch hc), fun _ _ hc =>
    (nomatch hc), fun _ _ _ hc => (nomatch hc), fun _ _ _ hc => (nomatch hc), fun w hw => ?_⟩
  exact absurd hw List.not_mem_nil

theorem sound_step {W : World} {c c' : Core} {l : Label} (h : Sound c) (hq : CloseQuiet W c l)
    (hs : c.step W l = some c') : Sound c' := by
  rcases h with ⟨hord, hguard⟩ | hend
  · have hN : Guarded (aim W c l) [] c := by
      refine ⟨hguard.used, hguard.shut, hguard.streams, fun id con name hc hb hn => ?_,
        fun id con key hc ha hk => hq.called key ha id hk con hc, hguard.unwritten⟩
      exact hq.silent name hb id (hord.2.mem_subscribers hc hn) con hc
    have hclosed := (ordered_closed W (aim W c l) _ _ _).and (guarded_closed W (aim W c l))
    have hkeep := hclosed.step (fun h => h.1.1) ⟨hord, hN⟩ hs hq.unread ⟨fun _ hb => hb, fun _ ha => ha⟩
      (fun _ => trivial) fun id d con hen hc ho => by
        refine ⟨hq.alone (id, d) hen con hc ho, fun name hb => ?_, fun key ha => ?_⟩
        · cases (broadcasting_of_entering hen).symm.trans hb
        · cases (asking_of_entering hs hen).symm.trans ha
    rcases hkeep with ⟨hord', hg⟩ | hend
    · exact Or.inl ⟨hord', hg.used, hg.shut, hg.streams, fun _ _ _ _ hf => hf.elim, fun _ _ _ _ hf => hf.elim,
        hg.unwritten⟩
    · exact Or.inr hend
  · rw [step_of_halted hend.2] at hs
    cases hs

/-- **No write after close**, in every run that never closes a connection under those who still use it. -/
theorem no_write_after_close {W : World} {ls : List Label}
    (hq : Along (Core.step W) (fun c l _ => CloseQuiet W c l) Core.init ls) :
    Always (Core.step W) (fun c => ∀ w ∈ c.trace, w.closed = false) Core.init ls := by
  have hsound : Always (Core.step W) Sound Core.init ls :=
    always_of_along (G := fun c l _ => CloseQuiet W c l)
      (fun _ _ _ h hg hs => sound_step h hg hs) sound_init hq
  exact ⟨hsound.1.unwritten, hsound.2.imp fun _ _ _ h => h.unwritten⟩

/-- A plugin registers and is answered. It sends a notification and leaves, with the notification in the
queue. -/
def Sample.answeredThenClosed : List Label :=
  .turn :: (Sample.connect 1 (Sample.fill 32 3) ++
    [Sample.sends 1 5 (requestMessage 1 (text "register") [.str [65]]), .turn, .turn, .turn, .turn,
      .turn, .turn, .turn, Sample.sends 1 7 (notificationMessage (text "register") [.str [65]]), .turn,
      .turn, .eof 1, .turn, .turn, .turn, .turn, .turn])

/-- **A run that meets the condition**: a request is answered before its connection is closed, and a
notification is handled after that. -/
theorem no_write_after_close_sample :
    Along (Core.step Sample.world) (fun c l _ => CloseQuiet Sample.world c l) Core.init
        Sample.answeredThenClosed ∧
      ∃ c, exec (Core.step Sample.world) Core.init Sample.answeredThenClosed = some c ∧
        c.trace.length = 1 ∧ c.ids = [] ∧ ∀ w ∈ c.trace, w.closed = false := by
  have hquiet : Along (Core.step Sample.world) (fun c l _ => CloseQuiet Sample.world c l) Core.init
      Sample.answeredThenClosed := by
    apply Sample.along_connect rfl <;> decide +kernel
  have hrun : (exec (Core.step Sample.world) Core.init Sample.answeredThenClosed).any
      (fun c => decide (c.trace.length = 1 ∧ c.ids = [])) = true := by
    rw [Sample.answeredThenClosed, Sample.exec_connect_append rfl]
    decide +kernel
  obtain ⟨c, hex, hc⟩ := (Option.any_eq_true _ _).mp hrun
  obtain ⟨hlen, hids⟩ := of_decide_eq_true hc
  exact ⟨hquiet, c, hex, hlen, hids, (no_write_after_close hquiet).exec hex⟩

/-- A plugin registers and leaves before the queue is processed. -/
def Sample.closedThenAnswered : List Label :=
  .turn :: (Sample.connect 1 (Sample.fill 32 3) ++
    [Sample.sends 1 5 (requestMessage 1 (text "register") [.str [65]]), .turn, .turn, .eof 1, .turn,
      .turn, .turn, .turn])

/-- **The response of a request that was queued when its connection was closed** is written to the
closed connection. -/
theorem response_written_after_close :
    ∃ c, exec (Core.step Sample.world) Core.init Sample.closedThenAnswered = some c ∧
      ∃ w ∈ c.trace, w.con = 1 ∧ w.closed = true ∧ w.cause = .response 0 := by
  have hrun : (exec (Core.step Sample.world) Core.init Sample.closedThenAnswered).any
      (fun c => decide (∃ w ∈ c.trace, w.con = 1 ∧ w.closed = true ∧ w.cause = .response 0)) = true := by
    rw [Sample.closedThenAnswered, Sample.exec_connect_append rfl]
    decide +kernel
  obtain ⟨c, hex, hc⟩ := (Option.any_eq_true _ _).mp hrun
  exact ⟨c, hex, of_decide_eq_true hc⟩

end SploneBox
