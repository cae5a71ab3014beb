/-
# SploneBox.Multiqueue — a parent queue and its children, as linked nodes.

An event that is put into a child queue is two nodes: an item in the ring of the child, and a link in the ring
of the parent that names the child. A `get` on the parent takes the link it finds first and then the first
item of the child it names, without asking whether the two belong together; a `get` on the child takes its
first item and follows the pointer in it to the link. Both are the same event since the links to a child stand
in the parent in the order of the child's items.

`Fifo` is what the queues are for: one list of events with the queue each was put into. `Represents` says how
the nodes lie for such a list, every operation keeps it (`step_simulates`), and a run never uses memory that
is not allocated and never fails an assertion (`multiqueue_is_one_fifo`). Which addresses `MALLOC` returns is
part of the operation.
-/
import SploneBox.Lib.Rings

namespace SploneBox

open Lib.Rings

variable {ε : Type}

/-! ## §1 Nodes -/

/-- The address of a `QUEUE`: the `headtail` of a multiqueue, or the `node` of an item. -/
inductive NodeAddr where
  | headtail (queue : Nat)
  | node (item : Nat)
deriving DecidableEq

/-- `multiqueueitem`: `link` says which member of `data` is there. An item in a queue without a parent has no
pointer to a link. -/
inductive MultiqueueItem (ε : Type) where
  | link (queue : Nat)
  | item (event : ε) (parent : Option Nat)

/-- What ends the program. -/
inductive QueueFault where
  | notAllocated
  | wrongMember
  | assertion
  | unfinished
deriving DecidableEq

/-- The memory: the links of all nodes, the items, and the `parent` of each multiqueue. -/
structure QueueHeap (ε : Type) where
  links : Links NodeAddr
  items : Nat → Option (MultiqueueItem ε)
  queues : Nat → Option (Option Nat)

namespace QueueHeap

/-- The item at an address. -/
def item (s : QueueHeap ε) (a : Nat) : Except QueueFault (MultiqueueItem ε) :=
  match s.items a with
  | some i => .ok i
  | none => .error .notAllocated

/-- `this->parent`. -/
def parent (s : QueueHeap ε) (this : Nat) : Except QueueFault (Option Nat) :=
  match s.queues this with
  | some p => .ok p
  | none => .error .notAllocated

/-- `MALLOC` and the assignments. -/
def setItem (s : QueueHeap ε) (a : Nat) (i : Option (MultiqueueItem ε)) : QueueHeap ε :=
  { s with items := fun x => if x = a then i else s.items x }

/-- `FREE(item)`. -/
def freeItem (s : QueueHeap ε) (a : Nat) : QueueHeap ε := s.setItem a none

/-- `QUEUE_INSERT_TAIL(&this->headtail, &item->node)`. -/
def insertTail (s : QueueHeap ε) (this a : Nat) : QueueHeap ε :=
  { s with links := s.links.insertTail (.headtail this) (.node a) }

/-- `QUEUE_REMOVE(&item->node)`. -/
def remove (s : QueueHeap ε) (a : Nat) : QueueHeap ε := { s with links := s.links.remove (.node a) }

/-- `multiqueue_node_data(QUEUE_HEAD(&this->headtail))`. -/
def headItem (s : QueueHeap ε) (this : Nat) : Except QueueFault Nat :=
  match s.links.next (.headtail this) with
  | .node a => .ok a
  | .headtail _ => .error .wrongMember

end QueueHeap

/-- `multiqueue_empty`. -/
def multiqueueEmpty (s : QueueHeap ε) (this : Nat) : Bool := s.links.empty (.headtail this)

/-! ## §2 The operations -/

/-- `multiqueue_new_child`, at the address `MALLOC` returns. -/
def multiqueueNewChild (s : QueueHeap ε) (parent rv : Nat) : Except QueueFault (QueueHeap ε) := do
  if (← s.parent parent).isSome then throw .assertion
  return { s with
    links := s.links.init (.headtail rv)
    queues := fun x => if x = rv then some (some parent) else s.queues x }

/-- `multiqueue_push`; `item` and `link` are what `MALLOC` returns. -/
def multiqueuePush (s : QueueHeap ε) (this : Nat) (e : ε) (item link : Nat) :
    Except QueueFault (QueueHeap ε) := do
  match ← s.parent this with
  | none => return (s.insertTail this item).setItem item (some (.item e none))
  | some parent =>
      return (((s.insertTail this item).setItem item (some (.item e (some link)))).insertTail parent
        link).setItem link
        (some (.link this))

/-- `multiqueue_remove` from the link on: the next node of the linked queue is taken. -/
def removeLinked (s : QueueHeap ε) (linked : Nat) : Except QueueFault (ε × QueueHeap ε) := do
  let _ ← s.parent linked
  if multiqueueEmpty s linked then throw .assertion
  let child ← s.headItem linked
  match ← s.item child with
  | .item e _ => return (e, (s.remove child).freeItem child)
  | .link _ => throw .wrongMember

/-- `multiqueue_remove`. -/
def multiqueueRemove (s : QueueHeap ε) (this : Nat) : Except QueueFault (ε × QueueHeap ε) := do
  let parent ← s.parent this
  if multiqueueEmpty s this then throw .assertion
  let a ← s.headItem this
  let i ← s.item a
  let s := s.remove a
  match i, parent with
  | .link _, some _ => throw .assertion
  | .link linked, none => do
      let (rv, s) ← removeLinked s linked
      return (rv, s.freeItem a)
  | .item e (some l), some _ => do
      let _ ← s.item l
      return (e, ((s.remove l).freeItem l).freeItem a)
  | .item _ none, some _ => throw .wrongMember
  | .item e _, none => return (e, s.freeItem a)

/-- `multiqueue_get`; `none` is `NILEVENT`. -/
def multiqueueGet (s : QueueHeap ε) (this : Nat) : Except QueueFault (Option ε × QueueHeap ε) := do
  if multiqueueEmpty s this then return (none, s)
  let (rv, s) ← multiqueueRemove s this
  return (some rv, s)

/-- The loop of `multiqueue_free`. -/
def freeLoop (this : Nat) (parent : Option Nat) : Nat → QueueHeap ε → Except QueueFault (QueueHeap ε)
  | 0, _ => .error .unfinished
  | fuel + 1, s =>
      if multiqueueEmpty s this then .ok s
      else do
        let a ← s.headItem this
        match ← s.item a, parent with
        | .item _ (some l), some _ => do
            let _ ← s.item l
            freeLoop this parent fuel ((((s.remove l).freeItem l).remove a).freeItem a)
        | _, some _ => throw .wrongMember
        | _, none => freeLoop this parent fuel ((s.remove a).freeItem a)

/-- `multiqueue_free`. -/
def multiqueueFree (fuel : Nat) (s : QueueHeap ε) (this : Nat) : Except QueueFault (QueueHeap ε) := do
  let parent ← s.parent this
  let s ← freeLoop this parent fuel s
  return { s with queues := fun x => if x = this then none else s.queues x }

/-- The address of the parent. -/
def parentQueue : Nat := 0

/-- What is done with the queues. -/
inductive QueueOp (ε : Type) where
  | newChild (child : Nat)
  | put (queue : Nat) (event : ε) (item link : Nat)
  | get (queue : Nat)
  | free (child : Nat)

/-- An operation, and the event it returns. -/
def queueStep (fuel : Nat) (s : QueueHeap ε) : QueueOp ε → Except QueueFault (QueueHeap ε × Option ε)
  | .newChild child => return (← multiqueueNewChild s parentQueue child, none)
  | .put queue event item link => return (← multiqueuePush s queue event item link, none)
  | .get queue => do
      let (event, s) ← multiqueueGet s queue
      return (s, event)
  | .free child => return (← multiqueueFree fuel s child, none)

/-- The queue is there when it is used, and `MALLOC` returns memory that is free. -/
def QueueHeap.allows (s : QueueHeap ε) : QueueOp ε → Bool
  | .newChild child => (s.queues child).isNone
  | .put queue _ item link => (s.queues queue).isSome && (s.items item).isNone && (s.items link).isNone &&
      item != link
  | .get queue => (s.queues queue).isSome
  | .free child => (s.queues child).isSome && child != parentQueue

/-- The memory after `multiqueue_new_parent`. -/
def queueInit (links : Links NodeAddr) : QueueHeap ε :=
  ⟨links.init (.headtail parentQueue), fun _ => none, fun x => if x = parentQueue then some none else none⟩

/-! ## §3 One list -/

/-- The events in the order they were put, each with its queue. `put` and `taken` are kept for what is said
about whole runs. -/
structure Fifo (ε : Type) where
  events : List (Nat × ε)
  put : List (Nat × ε)
  taken : List (Nat × ε)

/-- The part of a queue: everything for the parent, its own events for a child. -/
def ofQueue (queue : Nat) (x : Nat × ε) : Bool := queue = parentQueue ∨ x.1 = queue

/-- An operation on the list. -/
def Fifo.step (f : Fifo ε) : QueueOp ε → Fifo ε × Option ε
  | .newChild _ => (f, none)
  | .put queue event _ _ =>
      ({ f with events := f.events ++ [(queue, event)], put := f.put ++ [(queue, event)] }, none)
  | .get queue =>
      match f.events.find? (ofQueue queue) with
      | none => (f, none)
      | some x => ({ f with events := f.events.eraseP (ofQueue queue), taken := f.taken ++ [x] }, some x.2)
  | .free child =>
      ({ f with
          events := f.events.filter fun x => !ofQueue child x
          taken := f.taken ++ f.events.filter (ofQueue child) }, none)

/-! ## §4 How the nodes lie -/

/-- An event of the list with the addresses of its nodes. -/
structure Entry (ε : Type) where
  origin : Nat
  event : ε
  node : Nat
  link : Nat

namespace Entry

/-- The allocated addresses: an event of the parent has no link. -/
def addresses (e : Entry ε) : List Nat := if e.origin = parentQueue then [e.node] else [e.node, e.link]

/-- The node of the entry in the ring of a queue. -/
def addressIn (queue : Nat) (e : Entry ε) : Option Nat :=
  if queue = parentQueue then some (if e.origin = parentQueue then e.node else e.link)
  else if e.origin = queue then some e.node else none

/-- What is stored for the entry. -/
def Stored (s : QueueHeap ε) (e : Entry ε) : Prop :=
  if e.origin = parentQueue then s.items e.node = some (.item e.event none)
  else s.items e.node = some (.item e.event (some e.link)) ∧ s.items e.link = some (.link e.origin)

end Entry

/-- The nodes of the ring of a queue. -/
def nodesOf (es : List (Entry ε)) (queue : Nat) : List NodeAddr :=
  (es.filterMap (Entry.addressIn queue)).map .node

/-- The memory holds the entries. -/
structure Represents (s : QueueHeap ε) (es : List (Entry ε)) : Prop where
  parent : s.queues parentQueue = some none
  children : ∀ queue p, s.queues queue = some p → queue ≠ parentQueue → p = some parentQueue
  origins : ∀ e ∈ es, (s.queues e.origin).isSome = true
  rings : Family s.links .headtail (fun queue => (s.queues queue).isSome = true) (nodesOf es)
  nodup : (es.flatMap Entry.addresses).Nodup
  stored : ∀ e ∈ es, e.Stored s
  allocated : ∀ a, s.items a ≠ none → a ∈ es.flatMap Entry.addresses

theorem nodesOf_append (es es' : List (Entry ε)) (queue : Nat) :
    nodesOf (es ++ es') queue = nodesOf es queue ++ nodesOf es' queue := by
  simp [nodesOf]

theorem nodesOf_cons (e : Entry ε) (es : List (Entry ε)) (queue : Nat) :
    nodesOf (e :: es) queue = ((e.addressIn queue).map .node).toList ++ nodesOf es queue := by
  cases h : e.addressIn queue <;> simp [nodesOf, h]

/-- The entries of a queue have their nodes there. -/
theorem nodesOf_isEmpty (es : List (Entry ε)) (queue : Nat) :
    (nodesOf es queue).isEmpty = (es.filter fun e => ofQueue queue (e.origin, e.event)).isEmpty := by
  induction es with
  | nil => rfl
  | cons e es ih =>
      rw [nodesOf_cons]
      by_cases hp : queue = parentQueue
      · simp [Entry.addressIn, ofQueue, hp]
      · by_cases ho : e.origin = queue
        · simp [Entry.addressIn, ofQueue, hp, ho]
        · simpa [Entry.addressIn, ofQueue, hp, ho] using ih

theorem mem_nodesOf {es : List (Entry ε)} {queue a : Nat} (h : NodeAddr.node a ∈ nodesOf es queue) :
    a ∈ es.flatMap Entry.addresses := by
  obtain ⟨a', hmem, heq⟩ := List.mem_map.mp h
  cases heq
  obtain ⟨e, he, haddress⟩ := List.mem_filterMap.mp hmem
  refine List.mem_flatMap.mpr ⟨e, he, ?_⟩
  unfold Entry.addressIn at haddress
  unfold Entry.addresses
  by_cases hp : queue = parentQueue
  · rw [if_pos hp] at haddress
    cases haddress
    by_cases ho : e.origin = parentQueue <;> simp [ho]
  · rw [if_neg hp] at haddress
    by_cases ho : e.origin = queue
    · rw [if_pos ho] at haddress
      cases haddress
      by_cases ho : e.origin = parentQueue <;> simp [ho]
    · rw [if_neg ho] at haddress
      cases haddress

theorem headtail_notMem_nodesOf (es : List (Entry ε)) (queue queue' : Nat) :
    NodeAddr.headtail queue ∉ nodesOf es queue' := by
  simp [nodesOf]

section

variable {s : QueueHeap ε} {es : List (Entry ε)}

/-- Free memory is not in a ring. -/
theorem Represents.fresh (h : Represents s es) {a : Nat} (ha : s.items a = none) (queue : Nat) :
    NodeAddr.node a ∉ NodeAddr.headtail queue :: nodesOf es queue := by
  intro hmem
  rcases List.mem_cons.mp hmem with heq | hmem
  · cases heq
  · obtain ⟨e, he, hmem⟩ := List.mem_flatMap.mp (mem_nodesOf hmem)
    have hstored := h.stored e he
    unfold Entry.Stored at hstored
    unfold Entry.addresses at hmem
    by_cases ho : e.origin = parentQueue
    · rw [if_pos ho] at hstored hmem
      rw [List.mem_singleton.mp hmem, hstored] at ha
      cases ha
    · rw [if_neg ho] at hstored hmem
      rcases List.mem_cons.mp hmem with rfl | hmem
      · rw [hstored.1] at ha
        cases ha
      · rw [List.mem_singleton.mp hmem, hstored.2] at ha
        cases ha

theorem Represents.empty_eq (h : Represents s es) {queue : Nat} (hq : (s.queues queue).isSome = true) :
    multiqueueEmpty s queue = (es.filter fun e => ofQueue queue (e.origin, e.event)).isEmpty := by
  rw [multiqueueEmpty, (h.rings.linked queue hq).empty_iff, nodesOf_isEmpty]

/-- What is stored for an entry depends on its addresses. -/
theorem Entry.Stored.congr {s' : QueueHeap ε} {e : Entry ε} (h : e.Stored s)
    (hsame : ∀ a ∈ e.addresses, s'.items a = s.items a) : e.Stored s' := by
  unfold Entry.Stored at h ⊢
  unfold Entry.addresses at hsame
  by_cases ho : e.origin = parentQueue
  · rw [if_pos ho] at h hsame ⊢
    rw [hsame e.node List.mem_cons_self]
    exact h
  · rw [if_neg ho] at h hsame ⊢
    rw [hsame e.node List.mem_cons_self, hsame e.link (by simp)]
    exact h

/-- Where an entry is on its own. -/
theorem addressIn_parent (e : Entry ε) :
    e.addressIn parentQueue = some (if e.origin = parentQueue then e.node else e.link) := if_pos rfl

theorem addressIn_origin {e : Entry ε} (h : e.origin ≠ parentQueue) : e.addressIn e.origin = some e.node := by
  unfold Entry.addressIn
  rw [if_neg h, if_pos rfl]

theorem addressIn_other {e : Entry ε} {queue : Nat} (hp : queue ≠ parentQueue) (ho : e.origin ≠ queue) :
    e.addressIn queue = none := by
  unfold Entry.addressIn
  rw [if_neg hp, if_neg ho]

/-- The nodes around an entry. -/
theorem nodesOf_mid {as bs : List (Entry ε)} {e : Entry ε} {queue a : Nat} (h : e.addressIn queue = some a) :
    nodesOf (as ++ e :: bs) queue = nodesOf as queue ++ .node a :: nodesOf bs queue := by
  rw [nodesOf_append, nodesOf_cons, h]
  rfl

theorem nodesOf_without {as bs : List (Entry ε)} {e : Entry ε} {queue : Nat} (h : e.addressIn queue = none) :
    nodesOf (as ++ e :: bs) queue = nodesOf (as ++ bs) queue := by
  rw [nodesOf_append, nodesOf_append, nodesOf_cons, h]
  rfl

section

variable {L : Links NodeAddr} {live : Nat → Prop} {as bs : List (Entry ε)} {e : Entry ε}

/-- An event of the parent is taken out of its ring. -/
theorem rings_own (h : Family L .headtail live (nodesOf (as ++ e :: bs))) (hlive : live parentQueue)
    (ho : e.origin = parentQueue) : Family (L.remove (.node e.node)) .headtail live (nodesOf (as ++ bs)) := by
  have hnode : e.addressIn parentQueue = some e.node := by
    rw [addressIn_parent, if_pos ho]
  refine (h.remove hlive (nodesOf_mid hnode)).congr fun queue _ => ?_
  by_cases hp : queue = parentQueue
  · rw [if_pos hp, hp, nodesOf_append]
  · rw [if_neg hp, nodesOf_without (addressIn_other hp fun heq => hp (heq.symm.trans ho))]

/-- The link is taken out of the ring of the parent, and then the item out of the ring of the child. -/
theorem rings_link_item (h : Family L .headtail live (nodesOf (as ++ e :: bs))) (hlive : live parentQueue)
    (hchild : live e.origin) (ho : e.origin ≠ parentQueue) :
    Family (L.remove (.node e.link)) .headtail live
        (fun queue => if queue = parentQueue then nodesOf (as ++ bs) queue else nodesOf (as ++ e :: bs) queue) ∧
      Family ((L.remove (.node e.link)).remove (.node e.node)) .headtail live (nodesOf (as ++ bs)) := by
  have hlink : e.addressIn parentQueue = some e.link := by
    rw [addressIn_parent, if_neg ho]
  have hfirst : Family (L.remove (.node e.link)) .headtail live
      (fun queue => if queue = parentQueue then nodesOf (as ++ bs) queue
        else nodesOf (as ++ e :: bs) queue) := by
    refine (h.remove hlive (nodesOf_mid hlink)).congr fun queue _ => ?_
    by_cases hp : queue = parentQueue
    · rw [if_pos hp, if_pos hp, hp, nodesOf_append]
    · rw [if_neg hp, if_neg hp]
  refine ⟨hfirst, ?_⟩
  have hmid :
      (if e.origin = parentQueue then nodesOf (as ++ bs) e.origin else nodesOf (as ++ e :: bs) e.origin) =
      nodesOf as e.origin ++ .node e.node :: nodesOf bs e.origin := by
    rw [if_neg ho, nodesOf_mid (addressIn_origin ho)]
  refine (hfirst.remove hchild hmid).congr fun queue _ => ?_
  by_cases hq : queue = e.origin
  · rw [if_pos hq, hq, nodesOf_append]
  · rw [if_neg hq]
    by_cases hp : queue = parentQueue
    · rw [if_pos hp]
    · rw [if_neg hp, nodesOf_without (addressIn_other hp (Ne.symm hq))]

/-- The item is taken out of the ring of the child, and then the link out of the ring of the parent. -/
theorem rings_item_link (h : Family L .headtail live (nodesOf (as ++ e :: bs))) (hlive : live parentQueue)
    (hchild : live e.origin) (ho : e.origin ≠ parentQueue) :
    Family ((L.remove (.node e.node)).remove (.node e.link)) .headtail live (nodesOf (as ++ bs)) := by
  have hlink : e.addressIn parentQueue = some e.link := by
    rw [addressIn_parent, if_neg ho]
  have hfirst := h.remove hchild (nodesOf_mid (addressIn_origin ho))
  have hmid : (if parentQueue = e.origin then nodesOf as e.origin ++ nodesOf bs e.origin
      else nodesOf (as ++ e :: bs) parentQueue) =
      nodesOf as parentQueue ++ .node e.link :: nodesOf bs parentQueue := by
    rw [if_neg (Ne.symm ho), nodesOf_mid hlink]
  refine (hfirst.remove hlive hmid).congr fun queue _ => ?_
  by_cases hp : queue = parentQueue
  · rw [if_pos hp, hp, nodesOf_append]
  · rw [if_neg hp]
    by_cases hq : queue = e.origin
    · rw [if_pos hq, hq, nodesOf_append]
    · rw [if_neg hq, nodesOf_without (addressIn_other hp (Ne.symm hq))]

end

/-- **An entry is dropped**: its nodes are out of the rings and its memory is free. -/
theorem Represents.drop {s' : QueueHeap ε} {as bs : List (Entry ε)} {e : Entry ε}
    (h : Represents s (as ++ e :: bs))
    (hrings : Family s'.links .headtail (fun queue => (s.queues queue).isSome = true) (nodesOf (as ++ bs)))
    (hitems : ∀ a, s'.items a = if a ∈ e.addresses then none else s.items a) (hqueues : s'.queues = s.queues) :
    Represents s' (as ++ bs) := by
  have hmem : ∀ x ∈ as ++ bs, x ∈ as ++ e :: bs := by
    intro x hx
    rcases List.mem_append.mp hx with hx | hx
    · exact List.mem_append_left _ hx
    · exact List.mem_append_right _ (List.mem_cons_of_mem _ hx)
  have hnodup := h.nodup
  rw [List.flatMap_append, List.flatMap_cons] at hnodup
  obtain ⟨has, hrest, hdisjoint⟩ := List.nodup_append.mp hnodup
  obtain ⟨he, hbs, hdisjoint'⟩ := List.nodup_append.mp hrest
  -- no other entry has an address of this one
  have hother : ∀ x ∈ as ++ bs, ∀ a ∈ x.addresses, a ∉ e.addresses := by
    intro x hx a ha hae
    rcases List.mem_append.mp hx with hx | hx
    · exact hdisjoint a (List.mem_flatMap.mpr ⟨x, hx, ha⟩) a (List.mem_append_left _ hae) rfl
    · exact hdisjoint' a hae a (List.mem_flatMap.mpr ⟨x, hx, ha⟩) rfl
  refine ⟨?_, ?_, ?_, ?_, ?_, ?_, ?_⟩
  · rw [hqueues]
    exact h.parent
  · rw [hqueues]
    exact h.children
  · intro x hx
    rw [hqueues]
    exact h.origins x (hmem x hx)
  · rw [hqueues]
    exact hrings
  · rw [List.flatMap_append]
    exact List.nodup_append.mpr ⟨has, hbs, fun a ha b hb => hdisjoint a ha b (List.mem_append_right _ hb)⟩
  · intro x hx
    refine (h.stored x (hmem x hx)).congr fun a ha => ?_
    rw [hitems a, if_neg (hother x hx a ha)]
  · intro a ha
    rw [hitems a] at ha
    by_cases hae : a ∈ e.addresses
    · rw [if_pos hae] at ha
      exact absurd rfl ha
    · rw [if_neg hae] at ha
      have hall := h.allocated a ha
      rw [List.flatMap_append, List.flatMap_cons] at hall
      rw [List.flatMap_append]
      rcases List.mem_append.mp hall with hmem | hmem
      · exact List.mem_append_left _ hmem
      · rcases List.mem_append.mp hmem with hmem | hmem
        · exact absurd hmem hae
        · exact List.mem_append_right _ hmem

/-- **An entry is added** at the end. -/
theorem Represents.add {s' : QueueHeap ε} {x : Entry ε} (h : Represents s es)
    (horigin : (s.queues x.origin).isSome = true) (hfree : ∀ a ∈ x.addresses, s.items a = none)
    (hnodup : x.addresses.Nodup)
    (hrings : Family s'.links .headtail (fun queue => (s.queues queue).isSome = true) (nodesOf (es ++ [x])))
    (hitems : ∀ a, a ∉ x.addresses → s'.items a = s.items a) (hstored : x.Stored s')
    (hqueues : s'.queues = s.queues) :
    Represents s' (es ++ [x]) := by
  have hnew : ∀ y ∈ es, ∀ a ∈ y.addresses, a ∉ x.addresses := by
    intro y hy a ha hax
    have hstored := h.stored y hy
    have hfree := hfree a hax
    unfold Entry.Stored at hstored
    unfold Entry.addresses at ha
    by_cases ho : y.origin = parentQueue
    · rw [if_pos ho] at hstored ha
      rw [List.mem_singleton.mp ha, hstored] at hfree
      cases hfree
    · rw [if_neg ho] at hstored ha
      rcases List.mem_cons.mp ha with rfl | ha
      · rw [hstored.1] at hfree
        cases hfree
      · rw [List.mem_singleton.mp ha, hstored.2] at hfree
        cases hfree
  have hflat : (es ++ [x]).flatMap Entry.addresses = es.flatMap Entry.addresses ++ x.addresses := by
    simp
  refine ⟨?_, ?_, ?_, ?_, ?_, ?_, ?_⟩
  · rw [hqueues]
    exact h.parent
  · rw [hqueues]
    exact h.children
  · intro y hy
    rw [hqueues]
    rcases List.mem_append.mp hy with hy | hy
    · exact h.origins y hy
    · rw [List.mem_singleton.mp hy]
      exact horigin
  · rw [hqueues]
    exact hrings
  · rw [hflat]
    refine List.nodup_append.mpr ⟨h.nodup, hnodup, ?_⟩
    rintro a ha b hb rfl
    obtain ⟨y, hy, hay⟩ := List.mem_flatMap.mp ha
    exact hnew y hy a hay hb
  · intro y hy
    rcases List.mem_append.mp hy with hy | hy
    · exact (h.stored y hy).congr fun a ha => hitems a (hnew y hy a ha)
    · rw [List.mem_singleton.mp hy]
      exact hstored
  · intro a ha
    rw [hflat]
    by_cases hax : a ∈ x.addresses
    · exact List.mem_append_right _ hax
    · rw [hitems a hax] at ha
      exact List.mem_append_left _ (h.allocated a ha)

theorem nodesOf_concat (es : List (Entry ε)) (x : Entry ε) (queue : Nat) :
    nodesOf (es ++ [x]) queue = nodesOf es queue ++ ((x.addressIn queue).map .node).toList := by
  rw [nodesOf_append, nodesOf_cons]
  exact congrArg _ (List.append_nil _)

/-- `multiqueue_push` adds an entry. -/
theorem push_represents (h : Represents s es) {queue item link : Nat} {e : ε}
    (hq : (s.queues queue).isSome = true) (hitem : s.items item = none) (hlink : s.items link = none)
    (hne : item ≠ link) :
    ∃ s', multiqueuePush s queue e item link = .ok s' ∧ Represents s' (es ++ [⟨queue, e, item, link⟩]) := by
  have hlive : (s.queues parentQueue).isSome = true := by
    rw [h.parent]
    rfl
  by_cases hp : queue = parentQueue
  · subst hp
    have hparent : s.parent parentQueue = .ok none := by
      unfold QueueHeap.parent
      rw [h.parent]
    refine ⟨(s.insertTail parentQueue item).setItem item (some (.item e none)), ?_, ?_⟩
    · unfold multiqueuePush
      rw [hparent]
      rfl
    · refine h.add hq ?_ (List.nodup_singleton item) ?_ ?_ ?_ rfl
      · intro a ha
        rw [List.mem_singleton.mp ha]
        exact hitem
      · refine (h.rings.insertTail hlive fun queue _ => h.fresh hitem queue).congr fun queue _ => ?_
        rw [nodesOf_concat]
        by_cases hq : queue = parentQueue
        · rw [if_pos hq, hq, addressIn_parent]
          rfl
        · rw [if_neg hq, addressIn_other hq (Ne.symm hq)]
          exact (List.append_nil _).symm
      · intro a ha
        have hai : a ≠ item := by
          rintro rfl
          exact ha (List.mem_singleton_self _)
        exact if_neg hai
      · exact if_pos rfl
  · obtain ⟨p, hqueue⟩ := Option.isSome_iff_exists.mp hq
    have hparent : s.parent queue = .ok (some parentQueue) := by
      unfold QueueHeap.parent
      rw [hqueue, h.children queue p hqueue hp]
    have haddresses : (Entry.mk queue e item link).addresses = [item, link] := if_neg hp
    refine ⟨(((s.insertTail queue item).setItem item (some (.item e (some link)))).insertTail parentQueue
      link).setItem link
      (some (.link queue)), ?_, ?_⟩
    · unfold multiqueuePush
      rw [hparent]
      rfl
    · refine h.add hq ?_ ?_ ?_ ?_ ?_ rfl
      · intro a ha
        rw [haddresses] at ha
        rcases List.mem_cons.mp ha with rfl | ha
        · exact hitem
        · rw [List.mem_singleton.mp ha]
          exact hlink
      · rw [haddresses]
        simpa using hne
      · have hfirst := h.rings.insertTail hq fun queue _ => h.fresh hitem queue
        refine (hfirst.insertTail hlive fun queue' _ => ?_).congr fun queue' _ => ?_
        · -- the link is in no ring, the one that has got the item included
          have hfresh := h.fresh hlink queue'
          by_cases hq' : queue' = queue
          · rw [if_pos hq', ← List.cons_append]
            intro hmem
            rcases List.mem_append.mp hmem with hmem | hmem
            · exact hfresh hmem
            · have heq := List.mem_singleton.mp hmem
              cases heq
              exact hne rfl
          · rw [if_neg hq']
            exact hfresh
        · rw [nodesOf_concat]
          by_cases hp' : queue' = parentQueue
          · have hpq : queue' ≠ queue := fun heq => hp (heq.symm.trans hp')
            rw [if_pos hp', if_neg hpq, hp', addressIn_parent]
            simp [hp]
          · rw [if_neg hp']
            by_cases hq' : queue' = queue
            · rw [if_pos hq', hq']
              have horigin : (Entry.mk queue e item link).addressIn queue = some item :=
                addressIn_origin (e := ⟨queue, e, item, link⟩) hp
              rw [horigin]
              rfl
            · rw [if_neg hq', addressIn_other hp' (Ne.symm hq')]
              exact (List.append_nil _).symm
      · intro a ha
        rw [haddresses] at ha
        have hal : a ≠ link := fun heq => ha (by simp [heq])
        have hai : a ≠ item := fun heq => ha (by simp [heq])
        exact (if_neg hal).trans (if_neg hai)
      · unfold Entry.Stored
        rw [if_neg hp]
        exact ⟨(if_neg hne).trans (if_pos rfl), if_pos rfl⟩

/-- The entry that a queue comes to first. -/
theorem Represents.first (h : Represents s es) {as bs : List (Entry ε)} {e : Entry ε} (hes : es = as ++ e :: bs)
    {queue a : Nat} (hq : (s.queues queue).isSome = true) (ha : e.addressIn queue = some a)
    (has : ∀ x ∈ as, x.addressIn queue = none) :
    multiqueueEmpty s queue = false ∧ s.headItem queue = .ok a := by
  have hnone : nodesOf as queue = [] := by
    unfold nodesOf
    rw [List.filterMap_eq_nil_iff.mpr has]
    rfl
  have hring := h.rings.linked queue hq
  rw [hes, nodesOf_mid ha, hnone] at hring
  refine ⟨?_, ?_⟩
  · rw [multiqueueEmpty, hring.empty_iff]
    rfl
  · unfold QueueHeap.headItem
    rw [hring.head_next]

theorem item_ok {a : Nat} {i : MultiqueueItem ε} (h : s.items a = some i) : s.item a = .ok i := by
  unfold QueueHeap.item
  rw [h]

/-- Both addresses of an entry are freed. -/
theorem freed_both (s : QueueHeap ε) {e : Entry ε} (ho : e.origin ≠ parentQueue) (a : Nat) :
    ((if a = e.node then none else if a = e.link then none else s.items a) =
      if a ∈ e.addresses then none else s.items a) ∧
    ((if a = e.link then none else if a = e.node then none else s.items a) =
      if a ∈ e.addresses then none else s.items a) := by
  have haddresses : e.addresses = [e.node, e.link] := if_neg ho
  rw [haddresses]
  by_cases hn : a = e.node
  · simp [hn]
  · by_cases hl : a = e.link
    · simp [hl]
    · simp [hn, hl]

/-- **The parent takes the first event** of all. -/
theorem remove_parent (h : Represents s es) {e : Entry ε} {bs : List (Entry ε)} (hes : es = e :: bs) :
    ∃ s', multiqueueRemove s parentQueue = .ok (e.event, s') ∧ Represents s' bs ∧ s'.queues = s.queues := by
  subst hes
  have hall : Represents s ([] ++ e :: bs) := h
  have hlive : (s.queues parentQueue).isSome = true := by
    rw [h.parent]
    rfl
  have hparent : s.parent parentQueue = .ok none := by
    unfold QueueHeap.parent
    rw [h.parent]
  obtain ⟨hempty, hhead⟩ := hall.first rfl hlive (addressIn_parent e) (fun _ hx => nomatch hx)
  have hstored := h.stored e List.mem_cons_self
  unfold Entry.Stored at hstored
  by_cases ho : e.origin = parentQueue
  · rw [if_pos ho] at hhead hstored
    refine ⟨(s.remove e.node).freeItem e.node, ?_, ?_, rfl⟩
    · unfold multiqueueRemove
      rw [hparent, hempty, hhead]
      dsimp only [bind, Except.bind]
      rw [if_neg Bool.false_ne_true, item_ok hstored]
      rfl
    · refine hall.drop (rings_own hall.rings hlive ho) (fun a => ?_) rfl
      have haddresses : e.addresses = [e.node] := if_pos ho
      simp only [haddresses, List.mem_singleton]
      rfl
  · rw [if_neg ho] at hhead hstored
    have hchild := h.origins e List.mem_cons_self
    obtain ⟨p, hqueue⟩ := Option.isSome_iff_exists.mp hchild
    obtain ⟨hrings₁, hrings₂⟩ := rings_link_item hall.rings hlive hchild ho
    -- the first item of the child is the one the link was put with
    have hring := hrings₁.linked e.origin hchild
    rw [if_neg ho, nodesOf_mid (addressIn_origin ho)] at hring
    have hlinked : removeLinked (s.remove e.link) e.origin =
        .ok (e.event, ((s.remove e.link).remove e.node).freeItem e.node) := by
      have hparent' : (s.remove e.link).parent e.origin = .ok p := by
        show (match s.queues e.origin with
          | some p => Except.ok p
          | none => Except.error QueueFault.notAllocated) = _
        rw [hqueue]
      have hempty' : multiqueueEmpty (s.remove e.link) e.origin = false := by
        rw [multiqueueEmpty]
        exact hring.empty_iff
      have hhead' : (s.remove e.link).headItem e.origin = .ok e.node := by
        unfold QueueHeap.headItem
        rw [show (s.remove e.link).links.next (.headtail e.origin) = .node e.node from hring.head_next]
      have hitem' : (s.remove e.link).item e.node = .ok (.item e.event (some e.link)) := item_ok hstored.1
      unfold removeLinked
      rw [hparent', hempty', hhead']
      dsimp only [bind, Except.bind]
      rw [if_neg Bool.false_ne_true, hitem']
      rfl
    refine ⟨((((s.remove e.link).remove e.node).freeItem e.node).freeItem e.link), ?_, ?_, rfl⟩
    · unfold multiqueueRemove
      rw [hparent, hempty, hhead]
      dsimp only [bind, Except.bind]
      rw [if_neg Bool.false_ne_true, item_ok hstored.2]
      dsimp only
      rw [hlinked]
      rfl
    · exact hall.drop hrings₂ (fun a => (freed_both s ho a).2) rfl

/-- **A child takes its own first event**, and the link with it. -/
theorem remove_child (h : Represents s es) {as bs : List (Entry ε)} {e : Entry ε} (hes : es = as ++ e :: bs)
    (ho : e.origin ≠ parentQueue) (has : ∀ x ∈ as, x.origin ≠ e.origin) :
    ∃ s', multiqueueRemove s e.origin = .ok (e.event, s') ∧ Represents s' (as ++ bs) ∧
      s'.queues = s.queues := by
  subst hes
  have hmem : e ∈ as ++ e :: bs := List.mem_append_right _ List.mem_cons_self
  have hlive : (s.queues parentQueue).isSome = true := by
    rw [h.parent]
    rfl
  have hchild := h.origins e hmem
  obtain ⟨p, hqueue⟩ := Option.isSome_iff_exists.mp hchild
  have hparent : s.parent e.origin = .ok (some parentQueue) := by
    unfold QueueHeap.parent
    rw [hqueue, h.children e.origin p hqueue ho]
  obtain ⟨hempty, hhead⟩ := h.first rfl hchild (addressIn_origin ho) fun x hx => addressIn_other ho (has x hx)
  have hstored := h.stored e hmem
  unfold Entry.Stored at hstored
  rw [if_neg ho] at hstored
  refine ⟨(((s.remove e.node).remove e.link).freeItem e.link).freeItem e.node, ?_, ?_, rfl⟩
  · have hlink : (s.remove e.node).item e.link = .ok (.link e.origin) := item_ok hstored.2
    unfold multiqueueRemove
    rw [hparent, hempty, hhead]
    dsimp only [bind, Except.bind]
    rw [if_neg Bool.false_ne_true, item_ok hstored.1]
    dsimp only
    rw [hlink]
    rfl
  · exact h.drop (rings_item_link h.rings hlive hchild ho) (fun a => (freed_both s ho a).1) rfl

/-- A turn of the loop of `multiqueue_free`. -/
theorem freeLoop_turn (h : Represents s es) {as bs : List (Entry ε)} {e : Entry ε} (hes : es = as ++ e :: bs)
    (ho : e.origin ≠ parentQueue) (has : ∀ x ∈ as, x.origin ≠ e.origin) (fuel : Nat) :
    ∃ s', freeLoop e.origin (some parentQueue) (fuel + 1) s = freeLoop e.origin (some parentQueue) fuel s' ∧
      Represents s' (as ++ bs) ∧ s'.queues = s.queues := by
  subst hes
  have hmem : e ∈ as ++ e :: bs := List.mem_append_right _ List.mem_cons_self
  have hlive : (s.queues parentQueue).isSome = true := by
    rw [h.parent]
    rfl
  have hchild := h.origins e hmem
  obtain ⟨hempty, hhead⟩ := h.first rfl hchild (addressIn_origin ho) fun x hx => addressIn_other ho (has x hx)
  have hstored := h.stored e hmem
  unfold Entry.Stored at hstored
  rw [if_neg ho] at hstored
  refine ⟨(((s.remove e.link).freeItem e.link).remove e.node).freeItem e.node, ?_, ?_, rfl⟩
  · rw [freeLoop, hempty, hhead]
    dsimp only [bind, Except.bind]
    rw [if_neg Bool.false_ne_true, item_ok hstored.1]
    dsimp only
    rw [item_ok hstored.2]
  · exact h.drop (rings_link_item h.rings hlive hchild ho).2 (fun a => (freed_both s ho a).1) rfl

/-- A list with an element of a kind has a first one. -/
theorem split_first {p : Entry ε → Bool} : ∀ {es : List (Entry ε)}, (es.filter p).isEmpty = false →
    ∃ as e bs, es = as ++ e :: bs ∧ p e = true ∧ ∀ x ∈ as, p x = false
  | [], h => nomatch h
  | e :: es, h => by
      cases hp : p e with
      | true => exact ⟨[], e, es, rfl, hp, fun _ hx => nomatch hx⟩
      | false =>
          rw [List.filter_cons_of_neg (by simp [hp])] at h
          obtain ⟨as, e', bs, rfl, he', has⟩ := split_first h
          refine ⟨e :: as, e', bs, rfl, he', ?_⟩
          intro x hx
          rcases List.mem_cons.mp hx with rfl | hx
          · exact hp
          · exact has x hx

/-- The loop of `multiqueue_free` takes out the events of the child, given as many turns as there are and one
more. -/
theorem freeLoop_represents {child : Nat} (hc : child ≠ parentQueue) (fuel : Nat) :
    ∀ {s : QueueHeap ε} {es : List (Entry ε)}, Represents s es → (s.queues child).isSome = true →
      (es.filter fun e => ofQueue child (e.origin, e.event)).length < fuel →
      ∃ s', freeLoop child (some parentQueue) fuel s = .ok s' ∧
        Represents s' (es.filter fun e => !ofQueue child (e.origin, e.event)) ∧ s'.queues = s.queues := by
  have hof : ∀ e : Entry ε, ofQueue child (e.origin, e.event) = true ↔ e.origin = child := by
    intro e
    simp [ofQueue, hc]
  induction fuel with
  | zero =>
      intro s es _ _ hfuel
      exact absurd hfuel (Nat.not_lt_zero _)
  | succ fuel ih =>
      intro s es h hchild hfuel
      cases hempty : (es.filter fun e => ofQueue child (e.origin, e.event)).isEmpty with
      | true =>
          have hnone := List.filter_eq_nil_iff.mp (List.isEmpty_iff.mp hempty)
          refine ⟨s, ?_, ?_, rfl⟩
          · rw [freeLoop, h.empty_eq hchild, hempty]
            rfl
          · rw [List.filter_eq_self.mpr]
            · exact h
            · intro e he
              simpa using hnone e he
      | false =>
          obtain ⟨as, e, bs, rfl, he, has⟩ := split_first hempty
          have ho : e.origin = child := (hof e).mp he
          subst ho
          obtain ⟨s₁, hturn, h₁, hqueues₁⟩ := freeLoop_turn h rfl hc (fun x hx heq => by
            have hx := has x hx
            rw [(hof x).mpr heq] at hx
            cases hx) fuel
          rw [List.filter_append, List.filter_cons_of_pos (by exact he)] at hfuel
          obtain ⟨s', hloop, h', hqueues'⟩ := ih h₁ (by rw [hqueues₁]; exact hchild) (by
            rw [List.filter_append]
            simp only [List.length_append, List.length_cons] at hfuel ⊢
            omega)
          refine ⟨s', hturn.trans hloop, ?_, hqueues'.trans hqueues₁⟩
          rw [List.filter_append, List.filter_cons_of_neg (by simp [he]), ← List.filter_append]
          exact h'

/-- `multiqueue_free` of a child leaves the other events. -/
theorem free_represents (h : Represents s es) {child fuel : Nat} (hc : child ≠ parentQueue)
    (hchild : (s.queues child).isSome = true)
    (hfuel : (es.filter fun e => ofQueue child (e.origin, e.event)).length < fuel) :
    ∃ s', multiqueueFree fuel s child = .ok s' ∧
      Represents s' (es.filter fun e => !ofQueue child (e.origin, e.event)) := by
  obtain ⟨p, hqueue⟩ := Option.isSome_iff_exists.mp hchild
  have hparent : s.parent child = .ok (some parentQueue) := by
    unfold QueueHeap.parent
    rw [hqueue, h.children child p hqueue hc]
  obtain ⟨s₁, hloop, h₁, hqueues₁⟩ := freeLoop_represents hc fuel h hchild hfuel
  refine ⟨{ s₁ with queues := fun x => if x = child then none else s₁.queues x }, ?_, ?_⟩
  · unfold multiqueueFree
    rw [hparent]
    dsimp only [bind, Except.bind]
    rw [hloop]
    rfl
  · have hlive : ∀ queue, (if queue = child then none else s₁.queues queue).isSome = true →
        (s₁.queues queue).isSome = true := by
      intro queue hq
      by_cases heq : queue = child
      · rw [if_pos heq] at hq
        cases hq
      · rw [if_neg heq] at hq
        exact hq
    refine ⟨?_, ?_, ?_, h₁.rings.mono hlive, h₁.nodup, h₁.stored, h₁.allocated⟩
    · exact (if_neg (Ne.symm hc)).trans h₁.parent
    · intro queue q hq hne
      change (if queue = child then none else s₁.queues queue) = some q at hq
      by_cases heq : queue = child
      · rw [if_pos heq] at hq
        cases hq
      · rw [if_neg heq] at hq
        exact h₁.children queue q hq hne
    · intro e he
      have hkept := (List.mem_filter.mp he).2
      have hne : e.origin ≠ child := by
        intro heq
        simp [ofQueue, heq] at hkept
      show (if e.origin = child then none else s₁.queues e.origin).isSome = true
      rw [if_neg hne]
      exact h₁.origins e he

/-- `multiqueue_new_child`. -/
theorem newChild_represents (h : Represents s es) {child : Nat} (hnew : s.queues child = none) :
    ∃ s', multiqueueNewChild s parentQueue child = .ok s' ∧ Represents s' es := by
  have hparent : s.parent parentQueue = .ok none := by
    unfold QueueHeap.parent
    rw [h.parent]
  have hc : child ≠ parentQueue := by
    intro heq
    rw [heq, h.parent] at hnew
    cases hnew
  have horigin : ∀ e ∈ es, e.origin ≠ child := by
    intro e he heq
    have hsome := h.origins e he
    rw [heq, hnew] at hsome
    cases hsome
  have hnone : nodesOf es child = [] := by
    unfold nodesOf
    rw [List.filterMap_eq_nil_iff.mpr fun e he => addressIn_other hc (horigin e he)]
    rfl
  refine ⟨{ s with links := s.links.init (.headtail child),
                   queues := fun x => if x = child then some (some parentQueue) else s.queues x }, ?_, ?_⟩
  · unfold multiqueueNewChild
    rw [hparent]
    rfl
  · refine ⟨?_, ?_, ?_, ?_, h.nodup, h.stored, h.allocated⟩
    · exact (if_neg (Ne.symm hc)).trans h.parent
    · intro queue p hq hne
      change (if queue = child then some (some parentQueue) else s.queues queue) = some p at hq
      by_cases heq : queue = child
      · rw [if_pos heq] at hq
        exact (Option.some.inj hq).symm
      · rw [if_neg heq] at hq
        exact h.children queue p hq hne
    · intro e he
      show (if e.origin = child then some (some parentQueue) else s.queues e.origin).isSome = true
      rw [if_neg (horigin e he)]
      exact h.origins e he
    · have hinit := h.rings.init (j := child) fun queue hq hmem => by
        rcases List.mem_cons.mp hmem with heq | hmem
        · cases heq
          rw [hnew] at hq
          cases hq
        · exact headtail_notMem_nodesOf es child queue hmem
      refine (hinit.mono ?_).congr ?_
      · intro queue hq
        change (if queue = child then some (some parentQueue) else s.queues queue).isSome = true at hq
        by_cases heq : queue = child
        · exact Or.inr heq
        · rw [if_neg heq] at hq
          exact Or.inl hq
      · intro queue _
        by_cases heq : queue = child
        · rw [if_pos heq, heq, hnone]
        · rw [if_neg heq]

theorem init_represents (links : Links NodeAddr) : Represents (queueInit links : QueueHeap ε) [] := by
  have hnone : Family links NodeAddr.headtail (fun _ : Nat => False) (fun _ => []) :=
    ⟨fun _ h => h.elim, fun _ _ h => h.elim⟩
  refine ⟨rfl, ?_, fun _ he => (nomatch he), ?_, List.nodup_nil, fun _ he => (nomatch he), ?_⟩
  · intro queue p hq hne
    rw [show (queueInit links : QueueHeap ε).queues queue = none from if_neg hne] at hq
    cases hq
  · refine ((hnone.init (j := parentQueue) fun _ h => h.elim).mono ?_).congr ?_
    · intro queue hq
      by_cases heq : queue = parentQueue
      · exact Or.inr heq
      · rw [show (queueInit links : QueueHeap ε).queues queue = none from if_neg heq] at hq
        cases hq
    · intro queue _
      by_cases heq : queue = parentQueue
      · rw [if_pos heq]
        rfl
      · rw [if_neg heq]
        rfl
  · intro a ha
    exact absurd rfl ha

end

/-! ## §5 The simulation -/

/-- The events of the entries. -/
def eventsOf (es : List (Entry ε)) : List (Nat × ε) := es.map fun e => (e.origin, e.event)

/-- The memory holds the list. -/
def Simulates (s : QueueHeap ε) (f : Fifo ε) : Prop := ∃ es, Represents s es ∧ f.events = eventsOf es

theorem find_first {as bs : List (Entry ε)} {e : Entry ε} {p : Nat × ε → Bool}
    (he : p (e.origin, e.event) = true) (has : ∀ x ∈ as, p (x.origin, x.event) = false) :
    (eventsOf (as ++ e :: bs)).find? p = some (e.origin, e.event) ∧
      (eventsOf (as ++ e :: bs)).eraseP p = eventsOf (as ++ bs) := by
  induction as with
  | nil => simp [eventsOf, he]
  | cons a as ih =>
      have ha := has a List.mem_cons_self
      obtain ⟨hfind, herase⟩ := ih fun x hx => has x (List.mem_cons_of_mem _ hx)
      refine ⟨?_, ?_⟩
      · show ((a.origin, a.event) :: eventsOf (as ++ e :: bs)).find? p = _
        rw [List.find?_cons_of_neg (by simp [ha])]
        exact hfind
      · show ((a.origin, a.event) :: eventsOf (as ++ e :: bs)).eraseP p = _
        rw [List.eraseP_cons_of_neg (by simp [ha]), herase]
        rfl

theorem filter_eventsOf (es : List (Entry ε)) (p : Nat × ε → Bool) :
    (eventsOf es).filter p = eventsOf (es.filter fun e => p (e.origin, e.event)) := by
  unfold eventsOf
  rw [List.filter_map]
  rfl

/-- A queue is empty when its part of the list is. -/
theorem Simulates.empty_eq {s : QueueHeap ε} {f : Fifo ε} (h : Simulates s f) {queue : Nat}
    (hq : (s.queues queue).isSome = true) :
    multiqueueEmpty s queue = (f.events.filter (ofQueue queue)).isEmpty := by
  obtain ⟨es, hrep, hevents⟩ := h
  rw [hevents, hrep.empty_eq hq, filter_eventsOf]
  unfold eventsOf
  rw [List.isEmpty_map]

theorem step_get_none {f : Fifo ε} {queue : Nat} (h : f.events.find? (ofQueue queue) = none) :
    f.step (.get queue) = (f, none) := by
  show (match f.events.find? (ofQueue queue) with | none => (f, none) | some x => _) = _
  rw [h]

theorem step_get_some {f : Fifo ε} {queue : Nat} {x : Nat × ε} (h : f.events.find? (ofQueue queue) = some x) :
    f.step (.get queue) =
      ({ f with events := f.events.eraseP (ofQueue queue), taken := f.taken ++ [x] }, some x.2) := by
  show (match f.events.find? (ofQueue queue) with | none => (f, none) | some x => _) = _
  rw [h]

theorem queueStep_get {s s' : QueueHeap ε} {queue fuel : Nat} {event : Option ε}
    (h : multiqueueGet s queue = .ok (event, s')) : queueStep fuel s (.get queue) = .ok (s', event) := by
  show (multiqueueGet s queue >>= _) = _
  rw [h]
  rfl

/-- `multiqueue_get` takes the oldest event of the queue. -/
theorem get_simulates {s : QueueHeap ε} {f : Fifo ε} (h : Simulates s f) {queue : Nat}
    (hq : (s.queues queue).isSome = true) (fuel : Nat) :
    ∃ s', queueStep fuel s (.get queue) = .ok (s', (f.step (.get queue)).2) ∧
      Simulates s' (f.step (.get queue)).1 := by
  have hempty := h.empty_eq hq
  obtain ⟨es, hrep, hevents⟩ := h
  rw [hevents, filter_eventsOf] at hempty
  cases hnone : (es.filter fun e => ofQueue queue (e.origin, e.event)).isEmpty with
  | true =>
      have hfind : f.events.find? (ofQueue queue) = none := by
        rw [hevents, List.find?_eq_none]
        intro x hx
        obtain ⟨e, he, rfl⟩ := List.mem_map.mp hx
        exact List.filter_eq_nil_iff.mp (List.isEmpty_iff.mp hnone) e he
      have htrue : multiqueueEmpty s queue = true := by
        rw [hempty, eventsOf, List.isEmpty_map, hnone]
      rw [step_get_none hfind]
      refine ⟨s, queueStep_get ?_, es, hrep, hevents⟩
      unfold multiqueueGet
      rw [htrue]
      rfl
  | false =>
      obtain ⟨as, e, bs, rfl, he, has⟩ := split_first hnone
      have hboth : (eventsOf (as ++ e :: bs)).find? (ofQueue queue) = some (e.origin, e.event) ∧
          (eventsOf (as ++ e :: bs)).eraseP (ofQueue queue) = eventsOf (as ++ bs) := find_first he has
      rw [← hevents] at hboth
      obtain ⟨hfind, herase⟩ := hboth
      have hfalse : multiqueueEmpty s queue = false := by
        rw [hempty, eventsOf, List.isEmpty_map, hnone]
      have hremove : ∃ s', multiqueueRemove s queue = .ok (e.event, s') ∧ Represents s' (as ++ bs) ∧
          s'.queues = s.queues := by
        by_cases hp : queue = parentQueue
        · have hnil : as = [] := by
            rw [List.eq_nil_iff_forall_not_mem]
            intro x hx
            have hx := has x hx
            simp [ofQueue, hp] at hx
          subst hnil
          rw [hp]
          exact remove_parent hrep rfl
        · have ho : e.origin = queue := by
            simpa [ofQueue, hp] using he
          subst ho
          refine remove_child hrep rfl hp fun x hx heq => ?_
          have hx := has x hx
          simp [ofQueue, heq] at hx
      obtain ⟨s', hget, hrep', -⟩ := hremove
      rw [step_get_some hfind]
      refine ⟨s', queueStep_get ?_, as ++ bs, hrep', herase⟩
      unfold multiqueueGet
      rw [hfalse, if_neg Bool.false_ne_true, hget]
      rfl

/-- **Every operation on the nodes is one on the list.** -/
theorem step_simulates {s : QueueHeap ε} {f : Fifo ε} (h : Simulates s f) {op : QueueOp ε}
    (hop : s.allows op = true) {fuel : Nat} (hfuel : f.events.length < fuel) :
    ∃ s', queueStep fuel s op = .ok (s', (f.step op).2) ∧ Simulates s' (f.step op).1 := by
  cases op with
  | newChild child =>
      obtain ⟨es, hrep, hevents⟩ := h
      obtain ⟨s', hnew, hrep'⟩ := newChild_represents hrep (Option.isNone_iff_eq_none.mp hop)
      refine ⟨s', ?_, es, hrep', hevents⟩
      show (multiqueueNewChild s parentQueue child >>= _) = _
      rw [hnew]
      rfl
  | put queue event item link =>
      obtain ⟨es, hrep, hevents⟩ := h
      simp only [QueueHeap.allows, Bool.and_eq_true, bne_iff_ne, Option.isNone_iff_eq_none] at hop
      obtain ⟨⟨⟨hq, hitem⟩, hlink⟩, hne⟩ := hop
      obtain ⟨s', hpush, hrep'⟩ := push_represents (e := event) hrep hq hitem hlink hne
      refine ⟨s', ?_, _, hrep', ?_⟩
      · show (multiqueuePush s queue event item link >>= _) = _
        rw [hpush]
        rfl
      · show f.events ++ [(queue, event)] = _
        rw [hevents]
        simp [eventsOf]
  | get queue => exact get_simulates h hop fuel
  | free child =>
      obtain ⟨es, hrep, hevents⟩ := h
      simp only [QueueHeap.allows, Bool.and_eq_true, bne_iff_ne] at hop
      have hlen : (es.filter fun e => ofQueue child (e.origin, e.event)).length < fuel := by
        have hle := List.length_filter_le (fun e => ofQueue child (e.origin, e.event)) es
        rw [hevents, eventsOf, List.length_map] at hfuel
        omega
      obtain ⟨s', hfree, hrep'⟩ := free_represents hrep hop.2 hop.1 hlen
      refine ⟨s', ?_, _, hrep', ?_⟩
      · show (multiqueueFree fuel s child >>= _) = _
        rw [hfree]
        rfl
      · show f.events.filter (fun x => !ofQueue child x) = _
        rw [hevents, filter_eventsOf]

/-! ## §6 Runs -/

/-- The operations one after the other, and what they return. -/
def queueRun (fuel : Nat) : QueueHeap ε → List (QueueOp ε) → Except QueueFault (QueueHeap ε × List (Option ε))
  | s, [] => .ok (s, [])
  | s, op :: ops => do
      let (s, out) ← queueStep fuel s op
      let (s, outs) ← queueRun fuel s ops
      return (s, out :: outs)

def Fifo.run : Fifo ε → List (QueueOp ε) → Fifo ε × List (Option ε)
  | f, [] => (f, [])
  | f, op :: ops => (((f.step op).1.run ops).1, (f.step op).2 :: ((f.step op).1.run ops).2)

/-- Every operation is allowed where it is done. -/
def allowedAlong (fuel : Nat) : QueueHeap ε → List (QueueOp ε) → Bool
  | _, [] => true
  | s, op :: ops =>
      s.allows op &&
        match queueStep fuel s op with
        | .ok (s, _) => allowedAlong fuel s ops
        | .error _ => true

/-- What was put into a queue is what was taken from it and what is still there, in this order. -/
def Fifo.Conserved (f : Fifo ε) : Prop :=
  ∀ queue, f.put.filter (fun x => x.1 = queue) = (f.taken ++ f.events).filter (fun x => x.1 = queue)

theorem eraseP_split {p : Nat × ε → Bool} : ∀ {xs : List (Nat × ε)} {x : Nat × ε}, xs.find? p = some x →
    ∃ as bs, xs = as ++ x :: bs ∧ xs.eraseP p = as ++ bs ∧ p x = true ∧ ∀ y ∈ as, p y = false
  | [], _, h => nomatch h
  | y :: xs, x, h => by
      cases hp : p y with
      | true =>
          rw [List.find?_cons_of_pos hp] at h
          cases h
          exact ⟨[], xs, rfl, List.eraseP_cons_of_pos hp, hp, fun _ hx => (nomatch hx)⟩
      | false =>
          rw [List.find?_cons_of_neg (by simp [hp])] at h
          obtain ⟨as, bs, rfl, herase, hx, has⟩ := eraseP_split h
          refine ⟨y :: as, bs, rfl, ?_, hx, ?_⟩
          · rw [List.eraseP_cons_of_neg (by simp [hp]), herase]
            rfl
          · intro z hz
            rcases List.mem_cons.mp hz with rfl | hz
            · exact hp
            · exact has z hz

/-- **No event is lost, duplicated or reordered within its queue.** -/
theorem Fifo.Conserved.step {f : Fifo ε} (h : f.Conserved) (op : QueueOp ε) : (f.step op).1.Conserved := by
  cases op with
  | newChild child => exact h
  | put queue event item link =>
      intro q
      show (f.put ++ [(queue, event)]).filter _ = (f.taken ++ (f.events ++ [(queue, event)])).filter _
      rw [List.filter_append, h q, ← List.append_assoc, List.filter_append (_ ++ _)]
  | get queue =>
      cases hfind : f.events.find? (ofQueue queue) with
      | none =>
          rw [step_get_none hfind]
          exact h
      | some x =>
          rw [step_get_some hfind]
          intro q
          obtain ⟨as, bs, hevents, herase, hx, has⟩ := eraseP_split hfind
          show f.put.filter _ = (f.taken ++ [x] ++ f.events.eraseP (ofQueue queue)).filter _
          rw [h q, herase, hevents]
          -- the entries before `x` are of other queues than `x`
          have hbefore : (x.1 = q) → as.filter (fun y => y.1 = q) = [] := by
            intro hxq
            rw [List.filter_eq_nil_iff]
            intro y hy
            have hy := has y hy
            by_cases hp : queue = parentQueue
            · simp [ofQueue, hp] at hy
            · have hxo : x.1 = queue := by simpa [ofQueue, hp] using hx
              have hyo : y.1 ≠ queue := by simpa [ofQueue, hp] using hy
              simpa using fun heq => hyo (heq.trans (hxq.symm.trans hxo))
          by_cases hxq : x.1 = q
          · simp [hxq, hbefore hxq]
          · simp [hxq]
  | free child =>
      intro q
      show f.put.filter _ = (f.taken ++ f.events.filter (ofQueue child) ++
        f.events.filter (fun x => !ofQueue child x)).filter _
      rw [h q]
      -- the events of `q` are all of the child, or none of them is
      by_cases hq : child = parentQueue ∨ q = child
      · have hall : ∀ x : Nat × ε, x.1 = q → ofQueue child x = true := by
          intro x hx
          simp only [ofQueue, decide_eq_true_eq]
          exact hq.imp_right fun heq => hx.trans heq
        have hfirst : ∀ x : Nat × ε, (decide (x.1 = q) && ofQueue child x) = decide (x.1 = q) := by
          intro x
          by_cases hx : x.1 = q <;> simp [hx, hall]
        have hsecond : ∀ x : Nat × ε, (decide (x.1 = q) && !ofQueue child x) = false := by
          intro x
          by_cases hx : x.1 = q <;> simp [hx, hall]
        simp [List.filter_filter, hfirst, hsecond]
      · have hnone : ∀ x : Nat × ε, x.1 = q → ofQueue child x = false := by
          intro x hx
          simp only [ofQueue, decide_eq_false_iff_not]
          exact fun hor => hq (hor.imp_right fun heq => hx.symm.trans heq)
        have hfirst : ∀ x : Nat × ε, (decide (x.1 = q) && ofQueue child x) = false := by
          intro x
          by_cases hx : x.1 = q <;> simp [hx, hnone]
        have hsecond : ∀ x : Nat × ε, (decide (x.1 = q) && !ofQueue child x) = decide (x.1 = q) := by
          intro x
          by_cases hx : x.1 = q <;> simp [hx, hnone]
        simp [List.filter_filter, hfirst, hsecond]

theorem step_length (f : Fifo ε) (op : QueueOp ε) : (f.step op).1.events.length ≤ f.events.length + 1 := by
  cases op with
  | newChild child => exact Nat.le_succ _
  | put queue event item link =>
      show (f.events ++ [(queue, event)]).length ≤ _
      rw [List.length_append]
      exact Nat.le_refl _
  | get queue =>
      cases hfind : f.events.find? (ofQueue queue) with
      | none =>
          rw [step_get_none hfind]
          exact Nat.le_succ _
      | some x =>
          rw [step_get_some hfind]
          exact Nat.le_succ_of_le List.length_eraseP_le
  | free child => exact Nat.le_succ_of_le (List.length_filter_le _ _)

/-- A run on the nodes is a run on the list. -/
theorem run_simulates {fuel : Nat} (ops : List (QueueOp ε)) :
    ∀ {s : QueueHeap ε} {f : Fifo ε}, Simulates s f → f.Conserved → allowedAlong fuel s ops = true →
      f.events.length + ops.length < fuel →
      ∃ s', queueRun fuel s ops = .ok (s', (f.run ops).2) ∧ Simulates s' (f.run ops).1 ∧
      (f.run ops).1.Conserved := by
  induction ops with
  | nil =>
      intro s f h hconserved _ _
      exact ⟨s, rfl, h, hconserved⟩
  | cons op ops ih =>
      intro s f h hconserved hallowed hfuel
      obtain ⟨hop, hrest⟩ := Bool.and_eq_true_iff.mp hallowed
      have hgrown := step_length f op
      simp only [List.length_cons] at hfuel
      obtain ⟨s₁, hstep, h₁⟩ := step_simulates h hop (show f.events.length < fuel by omega)
      rw [hstep] at hrest
      obtain ⟨s', hrun, h', hconserved'⟩ := ih h₁ (hconserved.step op) hrest (by omega)
      refine ⟨s', ?_, h', hconserved'⟩
      unfold queueRun
      rw [hstep]
      dsimp only [bind, Except.bind]
      rw [hrun]
      rfl

/-- **Parent and children are one FIFO.** With more turns for the loop of `multiqueue_free` than there are
operations, no run fails an assertion or uses memory that is free, each operation returns what it returns on
the list, the queues that are empty are those whose part is, and each queue's events come out as they were put
in. -/
theorem multiqueue_is_one_fifo (links : Links NodeAddr) (ops : List (QueueOp ε)) {fuel : Nat}
    (hfuel : ops.length < fuel) (hallowed : allowedAlong fuel (queueInit links) ops = true) :
    ∃ s f outs, Fifo.run ⟨[], [], []⟩ ops = (f, outs) ∧ queueRun fuel (queueInit links) ops = .ok (s, outs) ∧
      (∀ queue, (s.queues queue).isSome = true →
        multiqueueEmpty s queue = (f.events.filter (ofQueue queue)).isEmpty) ∧
      ∀ queue, f.put.filter (fun x => x.1 = queue) = (f.taken ++ f.events).filter (fun x => x.1 = queue) := by
  obtain ⟨s, hrun, hsim, hconserved⟩ := run_simulates (f := ⟨[], [], []⟩) ops ⟨[], init_represents links, rfl⟩
    (fun _ => rfl) hallowed (by simpa using hfuel)
  exact ⟨s, _, _, rfl, hrun, fun queue hq => hsim.empty_eq hq, hconserved⟩

/-- Two children and the parent: the parent's `get` finds the first event of the second child behind the one
that the first child has taken itself. -/
def Sample.queueOps : List (QueueOp Nat) :=
  [.newChild 1, .newChild 2, .put 1 10 100 101, .put 2 20 102 103, .put 0 30 104 105, .put 1 11 105 106,
    .get 1, .get 0, .free 1, .get 0, .get 0]

theorem multiqueue_is_one_fifo_sample :
    allowedAlong 12 (queueInit ⟨id, id⟩) Sample.queueOps = true ∧
    ∃ s f, Fifo.run ⟨[], [], []⟩ Sample.queueOps =
        (f, [none, none, none, none, none, none, some 10, some 20, none, some 30, none]) ∧
      queueRun 12 (queueInit ⟨id, id⟩) Sample.queueOps =
        .ok (s, [none, none, none, none, none, none, some 10, some 20, none, some 30, none]) := by
  have hallowed : allowedAlong 12 (queueInit ⟨id, id⟩) Sample.queueOps = true := by decide +kernel
  refine ⟨hallowed, ?_⟩
  obtain ⟨s, f, outs, hspec, hrun, -⟩ := multiqueue_is_one_fifo ⟨id, id⟩ Sample.queueOps (by decide) hallowed
  have houts : outs = [none, none, none, none, none, none, some 10, some 20, none, some 30, none] := by
    rw [show outs = (Fifo.run ⟨[], [], []⟩ Sample.queueOps).2 by rw [hspec]]
    decide +kernel
  subst houts
  exact ⟨s, f, hspec, hrun⟩

end SploneBox
