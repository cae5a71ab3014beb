/-
# SploneBox.EventStrings — the strings that all subscribers of an event share.

`Core` has the names of events by their contents. The source has one copy of each name on the heap:
`event_strings` maps it to itself, and so do the tables of all its subscribers. Nobody counts them;
`unsubscribe` looks at every connection before it frees the string. Here are the addresses: a table is a list
of pairs of addresses that is searched by what the keys point to, and to read through an address that is not
allocated ends the process.

`event_strings_interned` says that this never happens, that the table has exactly the strings somebody is
subscribed to, and that no other string is left on the heap. `pictures_step` says that the contents are those
of `Core`.
-/
import SploneBox.Calls

namespace SploneBox

open Lib.Machine

/-! ## §1 Tables of strings -/

/-- The strings on the heap by their addresses; `NULL` is 0. -/
abbrev StringHeap := Nat → Option Bytes

/-- An entry of a `hashmap(cstr_t, ptr_t)`: the addresses that are its key and its value. -/
abbrev StringEntry := Nat × Nat

/-- A `hashmap(cstr_t, ptr_t)`; `used` says that it has buckets. -/
structure StringTable where
  used : Bool
  entries : List StringEntry

namespace StringTable

/-- The string at an address. -/
def load (h : StringHeap) (p : Nat) : Except Fault Bytes :=
  match h p with
  | some name => .ok name
  | none => .error (if p = 0 then .nullPointer else .useAfterFree)

/-- The entry whose key has the contents `name`. Which keys are compared depends on their hashes; here all of
them are read. -/
def lookup (h : StringHeap) (name : Bytes) : List StringEntry → Except Fault (Option StringEntry)
  | [] => .ok none
  | e :: es => do
      let key ← load h e.1
      let found ← lookup h name es
      return if key = name then some e else found

/-- `hashmap_get`, for a name that the caller holds. -/
def get (h : StringHeap) (t : StringTable) (name : Bytes) : Except Fault Nat :=
  if t.used then do
    let found ← lookup h name t.entries
    return found.elim 0 Prod.snd
  else .ok 0

/-- `kh_get`: a table without buckets does not read the key. -/
def find (h : StringHeap) (t : StringTable) (key : Nat) : Except Fault (Option StringEntry) :=
  if t.used then do
    let name ← load h key
    lookup h name t.entries
  else .ok none

/-- `hashmap_has`. -/
def has (h : StringHeap) (t : StringTable) (key : Nat) : Except Fault Bool := do
  let found ← find h t key
  return found.isSome

/-- `hashmap_del`. -/
def del (h : StringHeap) (t : StringTable) (key : Nat) : Except Fault StringTable := do
  match ← find h t key with
  | some e => return { t with entries := t.entries.erase e }
  | none => return t

/-- `hashmap_put`: a key that is there stays, only its value is replaced. -/
def put (h : StringHeap) (t : StringTable) (key value : Nat) : Except Fault StringTable := do
  let name ← load h key
  match ← lookup h name t.entries with
  | some e => return ⟨true, t.entries.map fun e' => if e' = e then (e.1, value) else e'⟩
  | none => return ⟨true, t.entries ++ [(key, value)]⟩

/-- The table with the entry in it. -/
def withEntry (t : StringTable) (e : StringEntry) : StringTable :=
  ⟨true, if e ∈ t.entries then t.entries else t.entries ++ [e]⟩

/-- The contents of the keys. -/
def names (h : StringHeap) (t : StringTable) : List Bytes := t.entries.filterMap fun e => h e.1

end StringTable

/-! ## §2 The connections and their subscriptions -/

/-- A connection. -/
structure Subscriber where
  closed : Bool
  subscribedEvents : StringTable

/-- The heap and the tables. -/
structure Interned where
  heap : StringHeap
  eventStrings : StringTable
  nextConId : Nat
  connections : Nat → Option Subscriber
  halt : Option Halt

/-- The calls; `subscribe` is given the address of the block that `strdup` would allocate. -/
inductive StringCall where
  | create
  | subscribe (id : Nat) (event : Bytes) (block : Nat)
  | unsubscribe (id : Nat) (event : Bytes)
  | close (id : Nat)
  | free (id : Nat)

namespace Interned

/-- After `connection_init`. -/
def init : Interned where
  heap := fun _ => none
  eventStrings := ⟨false, []⟩
  nextConId := 1
  connections := fun _ => none
  halt := none

def setConnection (s : Interned) (id : Nat) (con : Subscriber) : Interned :=
  { s with connections := fun i => if i = id then some con else s.connections i }

def ids (s : Interned) : List Nat := (List.range s.nextConId).filter fun id => (s.connections id).isSome

/-- `box_strdup` of a string to the block. -/
def strdup (s : Interned) (event : Bytes) (block : Nat) : Interned :=
  { s with heap := fun p => if p = block then some event else s.heap p }

/-- `connection_create`. -/
def connectionCreate (s : Interned) : Interned :=
  { s.setConnection s.nextConId ⟨false, ⟨false, []⟩⟩ with nextConId := s.nextConId + 1 }

/-- The string of an event, with a new one if there is none. -/
def intern (s : Interned) (event : Bytes) (block : Nat) : Except Fault (Interned × Nat) := do
  let eventString ← s.eventStrings.get s.heap event
  if eventString ≠ 0 then return (s, eventString)
  else
    let s := s.strdup event block
    let table ← s.eventStrings.put s.heap block block
    return ({ s with eventStrings := table }, block)

/-- `connection_subscribe`, for a connection that is in the table and not closed. -/
def connectionSubscribe (s : Interned) (id : Nat) (con : Subscriber) (event : Bytes) (block : Nat) :
    Except Fault Interned := do
  let (s, eventString) ← s.intern event block
  let table ← con.subscribedEvents.put s.heap eventString eventString
  return s.setConnection id { con with subscribedEvents := table }

/-- The loop of `unsubscribe` over the connections: whether one of them has the string. -/
def anyHas (s : Interned) (eventString : Nat) : List Nat → Except Fault Bool
  | [] => .ok false
  | id :: ids =>
      match s.connections id with
      | none => anyHas s eventString ids
      | some con => do
          if ← con.subscribedEvents.has s.heap eventString then return true
          else anyHas s eventString ids

/-- The rest of `unsubscribe`: a string that no connection has is deleted and freed. -/
def sweep (s : Interned) (eventString : Nat) : Except Fault Interned := do
  if ← s.anyHas eventString s.ids then return s
  else
    let table ← s.eventStrings.del s.heap eventString
    return { s with
      eventStrings := table
      heap := fun p => if p = eventString then none else s.heap p }

/-- `connection_unsubscribe`, for a connection that is in the table and not closed: `unsubscribe` finds the
connection among the others. -/
def connectionUnsubscribe (s : Interned) (id : Nat) (con : Subscriber) (event : Bytes) :
    Except Fault Interned := do
  let eventString ← s.eventStrings.get s.heap event
  let table ← con.subscribedEvents.del s.heap eventString
  sweep (s.setConnection id { con with subscribedEvents := table }) eventString

/-- The loop of `free_connection` over the entries of its table `t`, which `unsubscribe` deletes from it. The
connection is no longer among the others. -/
def unsubscribeAll : List StringEntry → StringTable → Interned → Except Fault Interned
  | [], _, s => .ok s
  | e :: es, t, s =>
      if e ∈ t.entries then do
        let event ← StringTable.load s.heap e.2
        let eventString ← s.eventStrings.get s.heap event
        let t ← t.del s.heap eventString
        let s ← s.sweep eventString
        unsubscribeAll es t s
      else unsubscribeAll es t s

/-- `free_connection`. -/
def freeConnection (s : Interned) (id : Nat) (con : Subscriber) : Except Fault Interned :=
  unsubscribeAll con.subscribedEvents.entries con.subscribedEvents
    { s with connections := fun i => if i = id then none else s.connections i }

/-- The state after a call that can fault. -/
def settle (s : Interned) : Except Fault Interned → Interned
  | .ok s' => s'
  | .error f => { s with halt := some (.fault f) }

/-- A call for the connection `id`, which aborts if it is gone or closed. -/
def forOpen (s : Interned) (id : Nat) (f : Subscriber → Except Fault Interned) : Interned :=
  match s.connections id with
  | none => { s with halt := some .abort }
  | some con => if con.closed then { s with halt := some .abort } else s.settle (f con)

/-- One call. A block that is allocated is neither `NULL` nor in use. -/
def step (s : Interned) (call : StringCall) : Option Interned :=
  if s.halt.isSome then none
  else
    match call with
    | .create => some s.connectionCreate
    | .subscribe id event block =>
        if block = 0 ∨ (s.heap block).isSome then none
        else some (s.forOpen id fun con => s.connectionSubscribe id con event block)
    | .unsubscribe id event => some (s.forOpen id fun con => s.connectionUnsubscribe id con event)
    | .close id => (s.connections id).map fun con => s.setConnection id { con with closed := true }
    | .free id => (s.connections id).map fun con => s.settle (s.freeConnection id con)

/-- Whether some connection is subscribed to the event. -/
def subscribed (s : Interned) (event : Bytes) : Bool :=
  s.ids.any fun id => (s.connections id).any fun con => (con.subscribedEvents.names s.heap).contains event

/-! ## §3 Consistent tables -/

/-- A table whose strings are all interned. -/
structure Within (s : Interned) (t : StringTable) : Prop where
  sub : ∀ e ∈ t.entries, e ∈ s.eventStrings.entries
  nodup : t.entries.Nodup
  used : ∀ e ∈ t.entries, t.used = true

/-- **What holds of the strings**, where `P` tells which of them are still referred to by somebody who is not
among the connections. Each is at its own address, is on the heap once, and is referred to; there are no
others. -/
structure Consistent (s : Interned) (P : StringEntry → Prop) : Prop where
  null : s.heap 0 = none
  strings : Within s s.eventStrings
  self : ∀ e ∈ s.eventStrings.entries, e.2 = e.1 ∧ ∃ name, s.heap e.1 = some name
  distinct : ∀ e ∈ s.eventStrings.entries, ∀ e' ∈ s.eventStrings.entries, s.heap e.1 = s.heap e'.1 → e = e'
  owned : ∀ p name, s.heap p = some name → (p, p) ∈ s.eventStrings.entries
  tables : ∀ id con, s.connections id = some con → Within s con.subscribedEvents
  wanted : ∀ e ∈ s.eventStrings.entries, P e ∨
    ∃ id con, s.connections id = some con ∧ e ∈ con.subscribedEvents.entries
  fresh : ∀ id, s.nextConId ≤ id → s.connections id = none

/-- Nobody but the connections refers to a string. -/
abbrev Settled (s : Interned) : Prop := Consistent s fun _ => False

variable {s : Interned} {P : StringEntry → Prop} {t : StringTable} {e : StringEntry} {name : Bytes}

/-- Where every key can be read, the first one with the contents is found. -/
theorem lookup_eq {h : StringHeap} : ∀ {es : List StringEntry}, (∀ e ∈ es, ∃ name, h e.1 = some name) →
    StringTable.lookup h name es = .ok (es.find? fun e => decide (h e.1 = some name))
  | [], _ => rfl
  | e :: es, hlive => by
      obtain ⟨key, hkey⟩ := hlive e List.mem_cons_self
      have hrest := lookup_eq fun e' he' => hlive e' (List.mem_cons_of_mem e he')
      unfold StringTable.lookup StringTable.load
      rw [hkey, hrest]
      by_cases hname : key = name
      · subst hname
        rw [List.find?_cons_of_pos (by simpa using hkey)]
        exact congrArg Except.ok (if_pos rfl)
      · rw [List.find?_cons_of_neg (by simpa [hkey] using hname)]
        exact congrArg Except.ok (if_neg hname)

theorem Consistent.lookup (h : Consistent s P) (ht : Within s t) (he : e ∈ s.eventStrings.entries)
    (hname : s.heap e.1 = some name) :
    StringTable.lookup s.heap name t.entries = .ok (if e ∈ t.entries then some e else none) := by
  rw [lookup_eq fun e' he' => (h.self e' (ht.sub e' he')).2]
  congr 1
  -- the string with these contents is the only one
  have honly : ∀ e' ∈ t.entries, s.heap e'.1 = some name → e' = e := fun e' he' hname' =>
    h.distinct e' (ht.sub e' he') e he (hname'.trans hname.symm)
  by_cases hmem : e ∈ t.entries
  · rw [if_pos hmem]
    have hsome : (t.entries.find? fun e => decide (s.heap e.1 = some name)).isSome = true :=
      List.find?_isSome.mpr ⟨e, hmem, decide_eq_true hname⟩
    obtain ⟨e', hfind⟩ := Option.isSome_iff_exists.mp hsome
    have hname' := List.find?_some hfind
    rw [hfind, honly e' (List.mem_of_find?_eq_some hfind) (of_decide_eq_true hname')]
  · rw [if_neg hmem]
    refine List.find?_eq_none.mpr ?_
    intro e' he' hname'
    refine hmem ?_
    rw [← honly e' he' (of_decide_eq_true hname')]
    exact he'

theorem Consistent.get (h : Consistent s P) (he : e ∈ s.eventStrings.entries) (hname : s.heap e.1 = some name) :
    s.eventStrings.get s.heap name = .ok e.1 := by
  unfold StringTable.get
  rw [h.strings.used e he, if_pos rfl, h.lookup h.strings he hname, if_pos he]
  exact congrArg Except.ok (h.self e he).1

/-- A name that is not interned. -/
theorem Consistent.get_none (h : Consistent s P)
    (hnone : ∀ e ∈ s.eventStrings.entries, s.heap e.1 ≠ some name) :
    s.eventStrings.get s.heap name = .ok 0 := by
  unfold StringTable.get
  split
  · rw [lookup_eq fun e' he' => (h.self e' he').2,
      List.find?_eq_none.mpr fun e' he' hname => hnone e' he' (of_decide_eq_true hname)]
    rfl
  · rfl

theorem Consistent.find (h : Consistent s P) (ht : Within s t) (he : e ∈ s.eventStrings.entries) :
    t.find s.heap e.1 = .ok (if e ∈ t.entries then some e else none) := by
  obtain ⟨name, hname⟩ := (h.self e he).2
  unfold StringTable.find StringTable.load
  split
  · rw [hname]
    exact h.lookup ht he hname
  · rename_i hused
    rw [if_neg fun hmem => hused (ht.used e hmem)]

theorem Consistent.has (h : Consistent s P) (ht : Within s t) (he : e ∈ s.eventStrings.entries) :
    t.has s.heap e.1 = .ok (decide (e ∈ t.entries)) := by
  unfold StringTable.has
  rw [h.find ht he]
  by_cases hmem : e ∈ t.entries
  · simp [hmem, bind, Except.bind, pure, Except.pure]
  · simp [hmem, bind, Except.bind, pure, Except.pure]

theorem Consistent.del (h : Consistent s P) (ht : Within s t) (he : e ∈ s.eventStrings.entries) :
    t.del s.heap e.1 = .ok { t with entries := t.entries.erase e } := by
  unfold StringTable.del
  rw [h.find ht he]
  by_cases hmem : e ∈ t.entries
  · rw [if_pos hmem]
    rfl
  · rw [if_neg hmem, List.erase_of_not_mem hmem]
    rfl

theorem Consistent.put (h : Consistent s P) (ht : Within s t) (he : e ∈ s.eventStrings.entries) :
    t.put s.heap e.1 e.1 = .ok (t.withEntry e) := by
  obtain ⟨hself, name, hname⟩ := h.self e he
  unfold StringTable.put StringTable.load StringTable.withEntry
  rw [hname]
  show (StringTable.lookup s.heap name t.entries >>= _) = _
  rw [h.lookup ht he hname]
  have hpair : (e.1, e.1) = e := Prod.ext rfl hself.symm
  by_cases hmem : e ∈ t.entries
  · rw [if_pos hmem, if_pos hmem]
    show Except.ok (StringTable.mk true _) = _
    congr 2
    refine (List.map_congr_left ?_).trans (List.map_id _)
    intro e' _
    split
    · rename_i heq
      rw [heq, hpair]
      rfl
    · rfl
  · rw [if_neg hmem, if_neg hmem, hpair]
    rfl

/-! ## §4 The end of `unsubscribe` -/

/-- Whether a connection has the entry. -/
def refers (s : Interned) (e : StringEntry) : Bool :=
  s.ids.any fun id => (s.connections id).any fun con => decide (e ∈ con.subscribedEvents.entries)

/-- The string is deleted and freed. -/
def drop (s : Interned) (e : StringEntry) : Interned :=
  { s with
    eventStrings := { s.eventStrings with entries := s.eventStrings.entries.erase e }
    heap := fun p => if p = e.1 then none else s.heap p }

/-- What `sweep` does to an interned string. -/
def swept (s : Interned) (e : StringEntry) : Interned := if s.refers e then s else s.drop e

theorem refers_iff (h : Consistent s P) :
    s.refers e = true ↔ ∃ id con, s.connections id = some con ∧ e ∈ con.subscribedEvents.entries := by
  unfold refers ids
  rw [List.any_eq_true]
  constructor
  · rintro ⟨id, _, hany⟩
    obtain ⟨con, hc, hmem⟩ := (Option.any_eq_true _ _).mp hany
    exact ⟨id, con, hc, of_decide_eq_true hmem⟩
  · rintro ⟨id, con, hc, hmem⟩
    have hlt : id < s.nextConId := by
      by_contra hle
      rw [h.fresh id (Nat.le_of_not_lt hle)] at hc
      cases hc
    refine ⟨id, List.mem_filter.mpr ⟨List.mem_range.mpr hlt, by rw [hc]; rfl⟩, ?_⟩
    rw [hc]
    exact decide_eq_true hmem

theorem anyHas_eq (h : Consistent s P) (he : e ∈ s.eventStrings.entries) : ∀ ids : List Nat,
    s.anyHas e.1 ids = .ok (ids.any fun id => (s.connections id).any fun con =>
      decide (e ∈ con.subscribedEvents.entries))
  | [] => rfl
  | id :: ids => by
      have hrest := anyHas_eq h he ids
      unfold anyHas
      rw [List.any_cons]
      cases hc : s.connections id with
      | none => exact hrest
      | some con =>
          dsimp only
          rw [h.has (h.tables id con hc) he]
          by_cases hmem : e ∈ con.subscribedEvents.entries
          · simp [hmem, bind, Except.bind, pure, Except.pure]
          · simp [hmem, bind, Except.bind, hrest]

theorem sweep_eq (h : Consistent s P) (he : e ∈ s.eventStrings.entries) : s.sweep e.1 = .ok (s.swept e) := by
  unfold sweep swept
  rw [anyHas_eq h he]
  show (if s.refers e then _ else _) = _
  by_cases hr : s.refers e = true
  · rw [if_pos hr, if_pos hr]
    rfl
  · rw [if_neg hr, if_neg hr, h.del h.strings he]
    rfl

@[simp] theorem swept_connections : (s.swept e).connections = s.connections := by
  unfold swept
  split <;> rfl

@[simp] theorem swept_nextConId : (s.swept e).nextConId = s.nextConId := by
  unfold swept
  split <;> rfl

@[simp] theorem swept_halt : (s.swept e).halt = s.halt := by
  unfold swept
  split <;> rfl

/-- A table without the string. -/
theorem Within.drop (ht : Within s t) (hnot : e ∉ t.entries) : Within (s.drop e) t := by
  refine ⟨?_, ht.nodup, ht.used⟩
  intro e' he'
  have hne : e' ≠ e := by
    rintro rfl
    exact hnot he'
  exact (List.mem_erase_of_ne hne).mpr (ht.sub e' he')

theorem Within.swept (ht : Within s t) (hnot : e ∉ t.entries) : Within (s.swept e) t := by
  unfold Interned.swept
  split
  · exact ht
  · exact ht.drop hnot

/-- **A string that nobody has is freed**, and no other. -/
theorem Consistent.swept (h : Consistent s fun x => x = e ∨ P x) (he : e ∈ s.eventStrings.entries) :
    Consistent (s.swept e) P := by
  unfold Interned.swept
  by_cases hr : s.refers e = true
  · rw [if_pos hr]
    refine ⟨h.null, h.strings, h.self, h.distinct, h.owned, h.tables, ?_, h.fresh⟩
    intro x hx
    rcases h.wanted x hx with (rfl | hP) | hcon
    · exact Or.inr ((refers_iff h).mp hr)
    · exact Or.inl hP
    · exact Or.inr hcon
  · rw [if_neg hr]
    have hnobody : ∀ id con, s.connections id = some con → e ∉ con.subscribedEvents.entries :=
      fun id con hc hmem => hr ((refers_iff h).mpr ⟨id, con, hc, hmem⟩)
    -- what is left is at other addresses
    have hleft : ∀ x ∈ (s.drop e).eventStrings.entries, x ∈ s.eventStrings.entries ∧ x ≠ e ∧
        (s.drop e).heap x.1 = s.heap x.1 := by
      intro x hx
      obtain ⟨hne, hmem⟩ := h.strings.nodup.mem_erase_iff.mp hx
      refine ⟨hmem, hne, if_neg ?_⟩
      intro haddr
      exact hne (h.distinct x hmem e he (by rw [haddr]))
    refine ⟨?_, ⟨fun x hx => hx, h.strings.nodup.erase e, ?_⟩, ?_, ?_, ?_, ?_, ?_, h.fresh⟩
    · show (if 0 = e.1 then none else s.heap 0) = none
      split
      · rfl
      · exact h.null
    · intro x hx
      exact h.strings.used x (hleft x hx).1
    · intro x hx
      obtain ⟨hmem, _, hheap⟩ := hleft x hx
      rw [hheap]
      exact h.self x hmem
    · intro x hx y hy hsame
      obtain ⟨hx, _, hheapx⟩ := hleft x hx
      obtain ⟨hy, _, hheapy⟩ := hleft y hy
      rw [hheapx, hheapy] at hsame
      exact h.distinct x hx y hy hsame
    · intro p name hp
      change (if p = e.1 then none else s.heap p) = some name at hp
      split at hp
      · cases hp
      · rename_i hne
        have hpe : (p, p) ≠ e := fun heq => hne (congrArg Prod.fst heq)
        exact (List.mem_erase_of_ne hpe).mpr (h.owned p name hp)
    · intro id con hc
      exact (h.tables id con hc).drop (hnobody id con hc)
    · intro x hx
      obtain ⟨hmem, hne, _⟩ := hleft x hx
      rcases h.wanted x hmem with (heq | hP) | hcon
      · exact absurd heq hne
      · exact Or.inl hP
      · exact Or.inr hcon

theorem Consistent.mono {Q : StringEntry → Prop} (h : Consistent s P) (hPQ : ∀ x, P x → Q x) :
    Consistent s Q := by
  refine ⟨h.null, h.strings, h.self, h.distinct, h.owned, h.tables, ?_, h.fresh⟩
  intro x hx
  exact (h.wanted x hx).imp_left (hPQ x)

/-! ## §5 The calls -/

/-- **The loop of `free_connection`**: it goes through the table it deletes from, and in the end nobody refers
to its strings but the other connections. -/
theorem unsubscribeAll_eq : ∀ {es : List StringEntry} {t : StringTable} {s : Interned}, t.entries = es →
    Consistent s (· ∈ es) → Within s t →
    unsubscribeAll es t s = .ok (es.foldl swept s) ∧ Settled (es.foldl swept s)
  | [], t, s, _, h, _ => ⟨rfl, h.mono fun x hx => (List.not_mem_nil hx).elim⟩
  | e :: es, t, s, hes, h, ht => by
      have hmem : e ∈ t.entries := by
        rw [hes]
        exact List.mem_cons_self
      have he := ht.sub e hmem
      obtain ⟨hself, name, hname⟩ := h.self e he
      have herase : t.entries.erase e = es := by
        rw [hes, List.erase_cons_head]
      have hnot : e ∉ es := by
        have hnodup := ht.nodup
        rw [hes] at hnodup
        exact (List.nodup_cons.mp hnodup).1
      have hsub : Within s { t with entries := es } := by
        refine ⟨?_, ?_, ?_⟩
        · intro x hx
          exact ht.sub x (by rw [hes]; exact List.mem_cons_of_mem e hx)
        · rw [← herase]
          exact ht.nodup.erase e
        · intro x _
          exact ht.used e hmem
      -- The first entry is swept; the ones behind it stay consistent with the table that holds the rest.
      have hswept : Consistent (s.swept e) (· ∈ es) :=
        (h.mono fun x hx => List.mem_cons.mp hx).swept he
      have hrest := unsubscribeAll_eq rfl hswept (hsub.swept hnot)
      refine ⟨?_, hrest.2⟩
      unfold unsubscribeAll StringTable.load
      rw [if_pos hmem, hself, hname]
      show (s.eventStrings.get s.heap name >>= _) = _
      rw [h.get he hname]
      show (t.del s.heap e.1 >>= _) = _
      rw [h.del ht he, herase]
      show (s.sweep e.1 >>= _) = _
      rw [sweep_eq h he]
      exact hrest.1

/-- The string is new, in its own block. -/
def added (s : Interned) (event : Bytes) (block : Nat) : Interned :=
  { s.strdup event block with eventStrings := ⟨true, s.eventStrings.entries ++ [(block, block)]⟩ }

theorem intern_found {event : Bytes} {block : Nat} (h : Consistent s P) (he : e ∈ s.eventStrings.entries)
    (hname : s.heap e.1 = some event) : s.intern event block = .ok (s, e.1) := by
  have hnull : e.1 ≠ 0 := by
    intro hzero
    rw [hzero, h.null] at hname
    cases hname
  unfold intern
  rw [h.get he hname]
  exact if_pos hnull

/-- A new block leaves the strings as they are. -/
theorem Consistent.strdup_heap (h : Consistent s P) {event : Bytes} {block : Nat} (hblock : s.heap block = none)
    (he : e ∈ s.eventStrings.entries) : (s.strdup event block).heap e.1 = s.heap e.1 := by
  refine if_neg ?_
  intro heq
  obtain ⟨_, name, hname⟩ := h.self e he
  rw [heq, hblock] at hname
  cases hname

theorem intern_added {event : Bytes} {block : Nat} (h : Consistent s P) (hblock : s.heap block = none)
    (hnone : ∀ e ∈ s.eventStrings.entries, s.heap e.1 ≠ some event) :
    s.intern event block = .ok (s.added event block, block) := by
  have hlookup : StringTable.lookup (s.strdup event block).heap event s.eventStrings.entries = .ok none := by
    rw [lookup_eq ?_, List.find?_eq_none.mpr ?_]
    · intro e he hname
      have hname := of_decide_eq_true hname
      rw [h.strdup_heap hblock he] at hname
      exact hnone e he hname
    · intro e he
      rw [h.strdup_heap hblock he]
      exact (h.self e he).2
  have hload : StringTable.load (s.strdup event block).heap block = .ok event := by
    unfold StringTable.load strdup
    simp only [if_true]
  unfold intern
  rw [h.get_none hnone]
  show ((s.eventStrings.put (s.strdup event block).heap block block) >>= _) = _
  unfold StringTable.put
  rw [hload]
  show (StringTable.lookup (s.strdup event block).heap event s.eventStrings.entries >>= _) >>= _ = _
  rw [hlookup]
  rfl

/-- **A new string**: so far only the caller refers to it. -/
theorem Consistent.added (h : Settled s) {event : Bytes} {block : Nat} (hzero : block ≠ 0)
    (hblock : s.heap block = none) (hnone : ∀ e ∈ s.eventStrings.entries, s.heap e.1 ≠ some event) :
    Consistent (s.added event block) (· = (block, block)) := by
  have hnew : (s.added event block).heap block = some event := if_pos rfl
  have hold : ∀ x ∈ s.eventStrings.entries, (s.added event block).heap x.1 = s.heap x.1 :=
    fun x hx => h.strdup_heap hblock hx
  have hmem : ∀ x ∈ (s.added event block).eventStrings.entries,
      x ∈ s.eventStrings.entries ∨ x = (block, block) := fun x hx => by
    rcases List.mem_append.mp hx with hx | hx
    · exact Or.inl hx
    · exact Or.inr (List.mem_singleton.mp hx)
  -- Before the `strdup` nothing was in the block, so no entry of the table points to it.
  have hfresh : (block, block) ∉ s.eventStrings.entries := by
    intro hx
    obtain ⟨_, name, hname⟩ := h.self _ hx
    rw [hblock] at hname
    cases hname
  have hgrow : ∀ t, Within s t → Within (s.added event block) t := fun t ht =>
    ⟨fun x hx => List.mem_append_left _ (ht.sub x hx), ht.nodup, ht.used⟩
  refine ⟨?_, ⟨fun x hx => hx, ?_, fun _ _ => rfl⟩, ?_, ?_, ?_, ?_, ?_, h.fresh⟩
  · show (if 0 = block then some event else s.heap 0) = none
    rw [if_neg hzero.symm]
    exact h.null
  · refine List.nodup_append.mpr ⟨h.strings.nodup, List.pairwise_singleton _ _, ?_⟩
    intro x hx y hy
    rw [List.mem_singleton.mp hy]
    rintro rfl
    exact hfresh hx
  · intro x hx
    rcases hmem x hx with hx | rfl
    · rw [hold x hx]
      exact h.self x hx
    · exact ⟨rfl, event, hnew⟩
  -- No other interned string is the event: the table was searched for it first.
  · intro x hx y hy hsame
    rcases hmem x hx with hx | rfl
    · rcases hmem y hy with hy | rfl
      · rw [hold x hx, hold y hy] at hsame
        exact h.distinct x hx y hy hsame
      · rw [hold x hx, hnew] at hsame
        exact absurd hsame (hnone x hx)
    · rcases hmem y hy with hy | rfl
      · rw [hold y hy, hnew] at hsame
        exact absurd hsame.symm (hnone y hy)
      · rfl
  · intro p name hp
    by_cases hpb : p = block
    · subst hpb
      exact List.mem_append_right _ List.mem_cons_self
    · change (if p = block then some event else s.heap p) = some name at hp
      rw [if_neg hpb] at hp
      exact List.mem_append_left _ (h.owned p name hp)
  · intro id con hc
    exact hgrow _ (h.tables id con hc)
  · intro x hx
    rcases hmem x hx with hx | rfl
    · rcases h.wanted x hx with hfalse | hcon
      · exact hfalse.elim
      · exact Or.inr hcon
    · exact Or.inl rfl

theorem Within.withEntry (ht : Within s t) (he : e ∈ s.eventStrings.entries) : Within s (t.withEntry e) := by
  unfold StringTable.withEntry
  by_cases hmem : e ∈ t.entries
  · rw [if_pos hmem]
    exact ⟨ht.sub, ht.nodup, fun _ _ => rfl⟩
  · rw [if_neg hmem]
    refine ⟨?_, ?_, fun _ _ => rfl⟩
    · intro x hx
      rcases List.mem_append.mp hx with hx | hx
      · exact ht.sub x hx
      · rw [List.mem_singleton.mp hx]
        exact he
    · refine List.nodup_append.mpr ⟨ht.nodup, List.pairwise_singleton _ e, ?_⟩
      intro x hx y hy
      rw [List.mem_singleton.mp hy]
      rintro rfl
      exact hmem hx

theorem mem_withEntry {x : StringEntry} : x ∈ (t.withEntry e).entries ↔ x ∈ t.entries ∨ x = e := by
  unfold StringTable.withEntry
  by_cases hmem : e ∈ t.entries
  · rw [if_pos hmem]
    constructor
    · exact Or.inl
    · rintro (hx | rfl)
      · exact hx
      · exact hmem
  · rw [if_neg hmem]
    simp

/-- **A connection gets another table**, which has whatever it had but for `e`, and what `Q` allows is
referred to by somebody else. -/
theorem Consistent.setConnection {Q : StringEntry → Prop} {id : Nat} {con con' : Subscriber}
    (h : Consistent s P) (hc : s.connections id = some con) (ht : Within s con'.subscribedEvents)
    (hkept : ∀ x ∈ s.eventStrings.entries, P x ∨ x ∈ con.subscribedEvents.entries →
      Q x ∨ x ∈ con'.subscribedEvents.entries) : Consistent (s.setConnection id con') Q := by
  have hself : (s.setConnection id con').connections id = some con' := if_pos rfl
  refine ⟨h.null, ⟨h.strings.sub, h.strings.nodup, h.strings.used⟩, h.self, h.distinct, h.owned, ?_, ?_, ?_⟩
  · intro i con₁ hc₁
    change (if i = id then some con' else s.connections i) = some con₁ at hc₁
    split at hc₁
    · cases hc₁
      exact ⟨ht.sub, ht.nodup, ht.used⟩
    · have ht₁ := h.tables i con₁ hc₁
      exact ⟨ht₁.sub, ht₁.nodup, ht₁.used⟩
  · intro x hx
    have hown : P x ∨ x ∈ con.subscribedEvents.entries → Q x ∨
        ∃ i con₁, (s.setConnection id con').connections i = some con₁ ∧ x ∈ con₁.subscribedEvents.entries :=
      fun hx' => (hkept x hx hx').imp_right fun hmem => ⟨id, con', hself, hmem⟩
    -- The entry was kept by this connection, and has to be kept by it still, or by another one.
    rcases h.wanted x hx with hP | ⟨i, con₁, hc₁, hmem⟩
    · exact hown (Or.inl hP)
    · by_cases hi : i = id
      · subst hi
        rw [hc] at hc₁
        cases hc₁
        exact hown (Or.inr hmem)
      · exact Or.inr ⟨i, con₁, (if_neg hi).trans hc₁, hmem⟩
  · intro i hi
    have hnone := h.fresh i hi
    refine (if_neg ?_).trans hnone
    rintro rfl
    rw [hnone] at hc
    cases hc

/-- `connection_subscribe`: the connection has the string of the event, an old one or a new one. -/
theorem connectionSubscribe_eq (event : Bytes) (h : Settled s) {id : Nat} {con : Subscriber} {block : Nat}
    (hc : s.connections id = some con) (hzero : block ≠ 0) (hblock : s.heap block = none) :
    ∃ s₁ e, ((e ∈ s.eventStrings.entries ∧ s₁ = s) ∨
        ((∀ x ∈ s.eventStrings.entries, s.heap x.1 ≠ some event) ∧ e = (block, block) ∧
          s₁ = s.added event block)) ∧
      e ∈ s₁.eventStrings.entries ∧ s₁.heap e.1 = some event ∧ Consistent s₁ (· = e) ∧
      s.connectionSubscribe id con event block = .ok (s₁.setConnection id
        { con with subscribedEvents := con.subscribedEvents.withEntry e }) := by
  unfold Interned.connectionSubscribe
  by_cases hfound : ∃ e ∈ s.eventStrings.entries, s.heap e.1 = some event
  · obtain ⟨e, he, hname⟩ := hfound
    refine ⟨s, e, Or.inl ⟨he, rfl⟩, he, hname, h.mono fun x hx => hx.elim, ?_⟩
    rw [intern_found h he hname]
    show (con.subscribedEvents.put s.heap e.1 e.1 >>= _) = _
    rw [h.put (h.tables id con hc) he]
    rfl
  · have hnone : ∀ x ∈ s.eventStrings.entries, s.heap x.1 ≠ some event :=
      fun x hx hname => hfound ⟨x, hx, hname⟩
    have hadded := Consistent.added h hzero hblock hnone
    have hmem : (block, block) ∈ (s.added event block).eventStrings.entries :=
      List.mem_append_right _ List.mem_cons_self
    refine ⟨s.added event block, (block, block), Or.inr ⟨hnone, rfl, rfl⟩, hmem, if_pos rfl, hadded, ?_⟩
    rw [intern_added h hblock hnone]
    show (con.subscribedEvents.put (s.added event block).heap block block >>= _) = _
    rw [hadded.put (hadded.tables id con hc) hmem]
    rfl

/-- `connection_unsubscribe` of an event that is interned. -/
theorem connectionUnsubscribe_eq (h : Settled s) {id : Nat} {con : Subscriber} {event : Bytes}
    (hc : s.connections id = some con) (he : e ∈ s.eventStrings.entries) (hname : s.heap e.1 = some event) :
    Consistent (s.setConnection id { con with subscribedEvents :=
        { con.subscribedEvents with entries := con.subscribedEvents.entries.erase e } }) (· = e) ∧
      s.connectionUnsubscribe id con event = .ok ((s.setConnection id { con with subscribedEvents :=
        { con.subscribedEvents with entries := con.subscribedEvents.entries.erase e } }).swept e) := by
  have ht := h.tables id con hc
  have herased : Within s { con.subscribedEvents with entries := con.subscribedEvents.entries.erase e } :=
    ⟨fun x hx => ht.sub x (List.mem_of_mem_erase hx), ht.nodup.erase e,
      fun x hx => ht.used x (List.mem_of_mem_erase hx)⟩
  have hset : Consistent (s.setConnection id { con with subscribedEvents :=
      { con.subscribedEvents with entries := con.subscribedEvents.entries.erase e } }) (· = e) := by
    refine h.setConnection hc herased ?_
    rintro x _ (hfalse | hx)
    · exact hfalse.elim
    · by_cases hxe : x = e
      · exact Or.inl hxe
      · exact Or.inr ((List.mem_erase_of_ne hxe).mpr hx)
  refine ⟨hset, ?_⟩
  unfold Interned.connectionUnsubscribe
  rw [h.get he hname]
  show (con.subscribedEvents.del s.heap e.1 >>= _) = _
  rw [h.del ht he]
  exact sweep_eq hset he

/-! ## §6 Every run -/

/-- The process ending changes no table. -/
theorem Consistent.halted (h : Consistent s P) (halt : Option Halt) : Consistent { s with halt := halt } P :=
  ⟨h.null, ⟨h.strings.sub, h.strings.nodup, h.strings.used⟩, h.self, h.distinct, h.owned,
    fun id con hc => ⟨(h.tables id con hc).sub, (h.tables id con hc).nodup, (h.tables id con hc).used⟩,
    h.wanted, h.fresh⟩

theorem Consistent.create (h : Settled s) : Settled s.connectionCreate := by
  refine ⟨h.null, ⟨h.strings.sub, h.strings.nodup, h.strings.used⟩, h.self, h.distinct, h.owned, ?_, ?_, ?_⟩
  · intro id con hc
    change (if id = s.nextConId then some _ else s.connections id) = some con at hc
    split at hc
    · cases hc
      exact ⟨fun x hx => (List.not_mem_nil hx).elim, List.nodup_nil, fun x hx => (List.not_mem_nil hx).elim⟩
    · have ht := h.tables id con hc
      exact ⟨ht.sub, ht.nodup, ht.used⟩
  · intro x hx
    obtain hfalse | ⟨id, con, hc, hmem⟩ := h.wanted x hx
    · exact hfalse.elim
    · refine Or.inr ⟨id, con, (if_neg ?_).trans hc, hmem⟩
      rintro rfl
      rw [h.fresh _ (Nat.le_refl _)] at hc
      cases hc
  · intro id hid
    have hlt : s.nextConId < id := hid
    exact (if_neg hlt.ne').trans (h.fresh id hlt.le)

/-- The table of a connection that is being freed is all that refers to its strings besides the others. -/
theorem Consistent.unlist (h : Settled s) {id : Nat} {con : Subscriber} (hc : s.connections id = some con) :
    Consistent { s with connections := fun i => if i = id then none else s.connections i }
      (· ∈ con.subscribedEvents.entries) := by
  refine ⟨h.null, ⟨h.strings.sub, h.strings.nodup, h.strings.used⟩, h.self, h.distinct, h.owned, ?_, ?_, ?_⟩
  · intro i con' hc'
    change (if i = id then none else s.connections i) = some con' at hc'
    split at hc'
    · cases hc'
    · have ht := h.tables i con' hc'
      exact ⟨ht.sub, ht.nodup, ht.used⟩
  · intro x hx
    obtain hfalse | ⟨i, con', hc', hmem⟩ := h.wanted x hx
    · exact hfalse.elim
    · by_cases hi : i = id
      · subst hi
        rw [hc] at hc'
        cases hc'
        exact Or.inl hmem
      · exact Or.inr ⟨i, con', (if_neg hi).trans hc', hmem⟩
  · intro i hi
    show (if i = id then none else s.connections i) = none
    split
    · rfl
    · exact h.fresh i hi

/-- `free_connection`. -/
theorem freeConnection_eq (h : Settled s) {id : Nat} {con : Subscriber} (hc : s.connections id = some con) :
    s.freeConnection id con = .ok (con.subscribedEvents.entries.foldl swept
        { s with connections := fun i => if i = id then none else s.connections i }) ∧
      Settled (con.subscribedEvents.entries.foldl swept
        { s with connections := fun i => if i = id then none else s.connections i }) := by
  have ht := h.tables id con hc
  exact unsubscribeAll_eq rfl (h.unlist hc) ⟨ht.sub, ht.nodup, ht.used⟩

/-- An event somebody is subscribed to is interned. -/
theorem Consistent.interned (h : Consistent s P) {event : Bytes} (hsub : s.subscribed event = true) :
    ∃ e ∈ s.eventStrings.entries, s.heap e.1 = some event := by
  unfold subscribed at hsub
  obtain ⟨id, _, hany⟩ := List.any_eq_true.mp hsub
  obtain ⟨con, hc, hmem⟩ := (Option.any_eq_true _ _).mp hany
  obtain ⟨e, he, hname⟩ := List.mem_filterMap.mp (List.contains_iff_mem.mp hmem)
  exact ⟨e, (h.tables id con hc).sub e he, hname⟩

/-- The call is not an unsubscribe from an event that nobody is subscribed to. -/
def Known (s : Interned) : StringCall → Prop
  | .unsubscribe _ event => s.subscribed event = true
  | _ => True

instance (s : Interned) : ∀ call, Decidable (s.Known call)
  | .unsubscribe _ event => inferInstanceAs (Decidable (s.subscribed event = true))
  | .create | .subscribe _ _ _ | .close _ | .free _ => .isTrue trivial

/-- No read went through an address that was not allocated. -/
def NoFault (s : Interned) : Prop := ∀ f, s.halt ≠ some (.fault f)

/-- A call that aborts, or returns. -/
theorem settled_forOpen {id : Nat} {f : Subscriber → Except Fault Interned} (h : Settled s)
    (hf : ∀ con, s.connections id = some con → ∃ s', f con = .ok s' ∧ Settled s' ∧ s'.halt = s.halt)
    (hrun : s.halt = none) : Settled (s.forOpen id f) ∧ NoFault (s.forOpen id f) := by
  have habort : Settled { s with halt := some .abort } ∧ NoFault { s with halt := some .abort } :=
    ⟨h.halted _, fun _ => nofun⟩
  unfold forOpen
  split
  · exact habort
  rename_i con hc
  split
  · exact habort
  · obtain ⟨s', hs', hsettled, hhalt⟩ := hf con hc
    rw [hs']
    refine ⟨hsettled, ?_⟩
    intro g
    show s'.halt ≠ _
    rw [hhalt, hrun]
    exact nofun

theorem foldl_swept_halt (es : List StringEntry) (s : Interned) : (es.foldl swept s).halt = s.halt := by
  induction es generalizing s with
  | nil => rfl
  | cons e es ih => exact (ih (s.swept e)).trans swept_halt

/-- **One call keeps the strings consistent.** -/
theorem settled_step {call : StringCall} {s' : Interned} (h : Settled s) (hknown : s.Known call)
    (hs : s.step call = some s') : Settled s' ∧ NoFault s' := by
  unfold step at hs
  split at hs
  · cases hs
  rename_i hhalt
  have hrun : s.halt = none := Option.not_isSome_iff_eq_none.mp hhalt
  have hgoes : ∀ d : Interned, d.halt = s.halt → NoFault d := by
    intro d hd f
    rw [hd, hrun]
    exact nofun
  cases call with
  | create =>
      cases hs
      exact ⟨h.create, hgoes _ rfl⟩
  | subscribe id event block =>
      dsimp only at hs
      split at hs
      · cases hs
      rename_i hblock
      obtain ⟨hzero, hblock⟩ := not_or.mp hblock
      have hblock : s.heap block = none := Option.not_isSome_iff_eq_none.mp hblock
      cases hs
      refine settled_forOpen h ?_ hrun
      intro con hc
      -- The event is interned now, by this call or an earlier one; what is left is to note it in the
      -- connection.
      obtain ⟨s₁, e, hwhich, he, _, hcons, hsub⟩ := connectionSubscribe_eq event h hc hzero hblock
      have hc₁ : s₁.connections id = some con ∧ s₁.halt = s.halt := by
        rcases hwhich with ⟨_, rfl⟩ | ⟨_, _, rfl⟩
        · exact ⟨hc, rfl⟩
        · exact ⟨hc, rfl⟩
      refine ⟨_, hsub, ?_, hc₁.2⟩
      refine hcons.setConnection hc₁.1 ((hcons.tables id con hc₁.1).withEntry he) ?_
      rintro x _ (rfl | hx)
      · exact Or.inr (mem_withEntry.mpr (Or.inr rfl))
      · exact Or.inr (mem_withEntry.mpr (Or.inl hx))
  | unsubscribe id event =>
      cases hs
      refine settled_forOpen h ?_ hrun
      intro con hc
      -- Only here is the event needed to be known.
      obtain ⟨e, he, hname⟩ := h.interned hknown
      obtain ⟨hset, hun⟩ := connectionUnsubscribe_eq h hc he hname
      refine ⟨_, hun, ?_, swept_halt⟩
      exact (hset.mono fun x hx => Or.inl hx).swept he
  | close id =>
      obtain ⟨con, hc, rfl⟩ := Option.map_eq_some_iff.mp hs
      refine ⟨?_, hgoes _ rfl⟩
      exact h.setConnection hc (h.tables id con hc) fun x _ hx => hx
  | free id =>
      obtain ⟨con, hc, rfl⟩ := Option.map_eq_some_iff.mp hs
      obtain ⟨hfree, hsettled⟩ := freeConnection_eq h hc
      rw [hfree]
      exact ⟨hsettled, hgoes _ (foldl_swept_halt _ _)⟩

/-- **Interning.** The strings of `event_strings` are those of the subscriptions, every entry of a connection
is the entry of `event_strings` for its contents, on the heap are only strings that a connection has, and
nothing is read through an address that is not allocated. -/
structure Interning (s : Interned) : Prop where
  union : ∀ name, name ∈ s.eventStrings.names s.heap ↔
    ∃ id con, s.connections id = some con ∧ name ∈ con.subscribedEvents.names s.heap
  shared : ∀ id con, s.connections id = some con → ∀ e ∈ con.subscribedEvents.entries,
    ∃ name, s.heap e.1 = some name ∧ e.2 = e.1 ∧
      ∀ x ∈ s.eventStrings.entries, s.heap x.1 = some name ↔ x = e
  live : ∀ id con, s.connections id = some con → ∀ e ∈ con.subscribedEvents.entries, e ∈ s.eventStrings.entries
  kept : ∀ p name, s.heap p = some name →
    ∃ id con, s.connections id = some con ∧ (p, p) ∈ con.subscribedEvents.entries
  noFault : NoFault s

theorem Consistent.interning (h : Settled s) (hno : NoFault s) : Interning s := by
  have hwanted : ∀ e ∈ s.eventStrings.entries,
      ∃ id con, s.connections id = some con ∧ e ∈ con.subscribedEvents.entries :=
    fun e he => (h.wanted e he).resolve_left id
  refine ⟨?_, ?_, fun id con hc => (h.tables id con hc).sub, ?_, hno⟩
  · intro name
    constructor
    · intro hmem
      obtain ⟨e, he, hname⟩ := List.mem_filterMap.mp hmem
      obtain ⟨id, con, hc, hmem⟩ := hwanted e he
      exact ⟨id, con, hc, List.mem_filterMap.mpr ⟨e, hmem, hname⟩⟩
    · rintro ⟨id, con, hc, hmem⟩
      obtain ⟨e, he, hname⟩ := List.mem_filterMap.mp hmem
      exact List.mem_filterMap.mpr ⟨e, (h.tables id con hc).sub e he, hname⟩
  · intro id con hc e he
    have hmem := (h.tables id con hc).sub e he
    obtain ⟨hself, name, hname⟩ := h.self e hmem
    refine ⟨name, hname, hself, ?_⟩
    intro x hx
    constructor
    · intro hx'
      exact h.distinct x hx e hmem (hx'.trans hname.symm)
    · rintro rfl
      exact hname
  · intro p name hp
    exact hwanted (p, p) (h.owned p name hp)

theorem settled_init : Settled init :=
  ⟨rfl, ⟨fun _ hx => hx, List.nodup_nil, fun _ hx => (List.not_mem_nil hx).elim⟩,
    fun _ hx => (List.not_mem_nil hx).elim, fun _ hx => (List.not_mem_nil hx).elim, fun _ _ hp => (nomatch hp),
    fun _ _ hc => (nomatch hc), fun _ hx => (List.not_mem_nil hx).elim, fun _ _ => rfl⟩

/-- **Event strings.** From `connection_init` on, in every state that any sequence of calls reaches, the
strings are interned; the only condition is that nobody unsubscribes from an event without subscribers. -/
theorem event_strings_interned {calls : List StringCall}
    (hknown : Along step (fun s call _ => s.Known call) init calls) : Always step Interning init calls := by
  have halways : Always step (fun s => Settled s ∧ NoFault s) init calls := by
    refine always_of_along ?_ ⟨settled_init, fun _ => nofun⟩ hknown
    intro s call s' h hcall hs
    exact settled_step h.1 hcall hs
  refine ⟨halways.1.1.interning halways.1.2, halways.2.imp ?_⟩
  intro _ _ s' h
  exact h.1.interning h.2

/-- Two connections share a string and one has another. The first gives the shared one up, the second is
freed, and a third connection gets the block of the shared string for an event of its own. -/
def Sample.sharedString : List StringCall :=
  [.create, .create, .subscribe 1 (text "a") 8, .subscribe 2 (text "a") 16, .subscribe 1 (text "b") 24,
    .unsubscribe 1 (text "a"), .close 2, .free 2, .create, .subscribe 3 (text "c") 8]

/-- **Two strings are left**, the second at the address of the one that was freed. -/
theorem event_strings_interned_sample :
    ∃ s, exec step init Sample.sharedString = some s ∧ Interning s ∧
      s.eventStrings.entries = [(24, 24), (8, 8)] ∧ s.heap 8 = some (text "c") := by
  have hknown : Along step (fun s call _ => s.Known call) init Sample.sharedString := by
    decide +kernel
  have hrun : (exec step init Sample.sharedString).any (fun s =>
      decide (s.eventStrings.entries = [(24, 24), (8, 8)] ∧ s.heap 8 = some (text "c"))) = true := by
    decide +kernel
  obtain ⟨s, hex, hs⟩ := (Option.any_eq_true _ _).mp hrun
  obtain ⟨hentries, hheap⟩ := of_decide_eq_true hs
  exact ⟨s, hex, (event_strings_interned hknown).exec hex, hentries, hheap⟩

/-! ## §7 The names of `Core` -/

/-- What `Core` has of a table. -/
def picture (h : StringHeap) (t : StringTable) : StringSet := ⟨t.used, t.names h⟩

/-- The core has the same connections, and the contents of their tables. -/
structure Pictures (s : Interned) (c : Core) : Prop where
  strings : c.eventStrings = picture s.heap s.eventStrings
  nextConId : c.nextConId = s.nextConId
  connections : ∀ id, (c.connections id).map (fun con => (con.tunnel.closed, con.subscribedEvents)) =
    (s.connections id).map fun con => (con.closed, picture s.heap con.subscribedEvents)

/-- What the core does at a call. -/
def Mirrors (env : CreateEnv) (c : Core) : StringCall → Core → Prop
  | .create, c' => c' = c.create env
  | .subscribe id event _, c' => c' = c.connectionSubscribe id event
  | .unsubscribe id event, c' => c.unsubscribe id event = .ok c'
  | .close id, c' => c' = c.modify id fun con => { con with tunnel := { con.tunnel with closed := true } }
  | .free id, c' => ∃ con, c.connections id = some con ∧ c' = c.freeConnection id con

/-- An interned string is in a table iff its contents are. -/
theorem Consistent.mem_names (h : Consistent s P) (ht : Within s t) (he : e ∈ s.eventStrings.entries)
    (hname : s.heap e.1 = some name) : name ∈ t.names s.heap ↔ e ∈ t.entries := by
  constructor
  · intro hmem
    obtain ⟨x, hx, hxname⟩ := List.mem_filterMap.mp hmem
    rw [← h.distinct x (ht.sub x hx) e he (hxname.trans hname.symm)]
    exact hx
  · intro hmem
    exact List.mem_filterMap.mpr ⟨e, hmem, hname⟩

/-- The contents after the entry has gone. -/
theorem Consistent.names_erase (h : Consistent s P) (ht : Within s t) (he : e ∈ s.eventStrings.entries)
    (hname : s.heap e.1 = some name) :
    (t.entries.erase e).filterMap (fun x => s.heap x.1) = (t.names s.heap).filter (· != name) := by
  rw [ht.nodup.erase_eq_filter, List.filterMap_filter, StringTable.names, List.filter_filterMap]
  refine List.filterMap_congr ?_
  intro x hx
  obtain ⟨_, xname, hxname⟩ := h.self x (ht.sub x hx)
  rw [hxname]
  by_cases hxe : x = e
  · subst hxe
    rw [hname] at hxname
    cases hxname
    simp [Option.filter]
  · have hne : xname ≠ name := fun heq =>
      hxe (h.distinct x (ht.sub x hx) e he (by rw [hxname, heq, hname]))
    simp [hxe, hne, Option.filter]

/-- The contents after the entry has been put. -/
theorem Consistent.names_withEntry (h : Consistent s P) (ht : Within s t) (he : e ∈ s.eventStrings.entries)
    (hname : s.heap e.1 = some name) :
    (t.withEntry e).names s.heap =
      if (t.names s.heap).contains name then t.names s.heap else t.names s.heap ++ [name] := by
  unfold StringTable.withEntry
  by_cases hmem : e ∈ t.entries
  · have hcontains : (t.names s.heap).contains name = true :=
      List.contains_iff_mem.mpr ((h.mem_names ht he hname).mpr hmem)
    rw [if_pos hmem, if_pos hcontains]
    rfl
  · have hcontains : ¬ (t.names s.heap).contains name = true := fun hc =>
      hmem ((h.mem_names ht he hname).mp (List.contains_iff_mem.mp hc))
    rw [if_neg hmem, if_neg hcontains]
    show (t.entries ++ [e]).filterMap (fun x => s.heap x.1) = _
    rw [List.filterMap_append]
    simp [hname]
    rfl

/-- Whether a connection has the string, in the core. -/
theorem Pictures.subscribed {c : Core} (hp : Pictures s c) (h : Consistent s P)
    (he : e ∈ s.eventStrings.entries) (hname : s.heap e.1 = some name) : c.subscribed name = s.refers e := by
  have hids : c.ids = s.ids := by
    unfold Core.ids Interned.ids
    rw [hp.nextConId]
    refine List.filter_congr ?_
    intro id _
    have hconn := congrArg Option.isSome (hp.connections id)
    simpa using hconn
  unfold Core.subscribed refers
  rw [hids]
  congr 1
  funext id
  have hconn := hp.connections id
  cases hs : s.connections id with
  | none =>
      rw [hs] at hconn
      rw [Option.map_eq_none_iff.mp hconn]
      rfl
  | some con =>
      rw [hs] at hconn
      obtain ⟨con', hc', hpair⟩ := Option.map_eq_some_iff.mp hconn
      rw [hc']
      have hsub : con'.subscribedEvents.names = con.subscribedEvents.names s.heap := by
        rw [(Prod.mk.inj hpair).2]
        rfl
      -- A name in the one core is an entry that points to it in the other, and no two entries have one name.
      show con'.subscribedEvents.names.contains name = decide (e ∈ con.subscribedEvents.entries)
      rw [hsub, Bool.eq_iff_iff, List.contains_iff_mem, decide_eq_true_iff]
      exact h.mem_names (h.tables id con hs) he hname

/-- The contents of a table do not change with a heap that is the same at its keys. -/
theorem names_congr {h h' : StringHeap} (hsame : ∀ e ∈ t.entries, h' e.1 = h e.1) : t.names h' = t.names h :=
  List.filterMap_congr hsame

/-- **The end of `unsubscribe` in the core**: the contents leave the names unless somebody is subscribed. -/
theorem swept_names (h : Consistent s fun x => x = e ∨ P x) (he : e ∈ s.eventStrings.entries)
    (hname : s.heap e.1 = some name) :
    picture (s.swept e).heap (s.swept e).eventStrings = { picture s.heap s.eventStrings with
      names := (s.eventStrings.names s.heap).filter fun n => n != name || s.refers e } := by
  unfold swept
  by_cases hr : s.refers e = true
  · rw [if_pos hr]
    have hall : (s.eventStrings.names s.heap).filter (fun n => n != name || s.refers e) =
        s.eventStrings.names s.heap := List.filter_eq_self.mpr fun n _ => by rw [hr, Bool.or_true]
    rw [hall]
    rfl
  · rw [if_neg hr]
    have hfilter : (s.eventStrings.names s.heap).filter (fun n => n != name || s.refers e) =
        (s.eventStrings.names s.heap).filter (· != name) := by
      refine List.filter_congr fun n _ => ?_
      rw [Bool.eq_false_iff.mpr hr, Bool.or_false]
    rw [hfilter, ← h.names_erase h.strings he hname]
    show StringSet.mk s.eventStrings.used _ = StringSet.mk s.eventStrings.used _
    congr 1
    refine List.filterMap_congr ?_
    intro x hx
    obtain ⟨hne, hmem⟩ := h.strings.nodup.mem_erase_iff.mp hx
    refine if_neg fun haddr => ?_
    exact hne (h.distinct x hmem e he (by rw [haddr]))

/-- The tables of the connections keep their contents. -/
theorem swept_picture (h : Consistent s fun x => x = e ∨ P x) (he : e ∈ s.eventStrings.entries) {id : Nat}
    {con : Subscriber} (hc : s.connections id = some con) :
    picture (s.swept e).heap con.subscribedEvents = picture s.heap con.subscribedEvents := by
  unfold swept
  by_cases hr : s.refers e = true
  · rw [if_pos hr]
  · rw [if_neg hr]
    unfold picture
    rw [names_congr]
    intro x hx
    refine if_neg fun haddr => hr ((refers_iff h).mpr ⟨id, con, hc, ?_⟩)
    rw [← h.distinct x ((h.tables id con hc).sub x hx) e he (by rw [haddr])]
    exact hx

/-- The core after `unsubscribe` has removed a name, or has not. -/
theorem Pictures.swept {c : Core} (hp : Pictures s c) (h : Consistent s fun x => x = e ∨ P x)
    (he : e ∈ s.eventStrings.entries) (hname : s.heap e.1 = some name) :
    Pictures (s.swept e) { c with eventStrings := { c.eventStrings with
      names := c.eventStrings.names.filter fun n => n != name || c.subscribed name } } := by
  refine ⟨?_, ?_, ?_⟩
  · rw [swept_names h he hname]
    show StringSet.mk c.eventStrings.used _ = _
    rw [hp.subscribed h he hname, hp.strings]
    rfl
  · rw [swept_nextConId]
    exact hp.nextConId
  · intro id
    refine (hp.connections id).trans ?_
    rw [swept_connections]
    cases hc : s.connections id with
    | none => rfl
    | some con => simp only [Option.map_some, swept_picture h he hc]

/-- **The loop of `free_connection` in the core** is the filter of `dropEvents`. -/
theorem Pictures.foldl_swept : ∀ {es : List StringEntry} {s : Interned} {c : Core}, es.Nodup →
    (∀ e ∈ es, e ∈ s.eventStrings.entries) → Consistent s (· ∈ es) → Pictures s c →
    Pictures (es.foldl Interned.swept s) (c.dropEvents (es.filterMap fun e => s.heap e.1))
  | [], s, c, _, _, _, hp => by
      unfold Core.dropEvents
      have hall : c.eventStrings.names.filter (fun n => !(([] : List Bytes).contains n) || c.subscribed n) =
          c.eventStrings.names := List.filter_eq_self.mpr fun n _ => rfl
      show Pictures s { c with eventStrings := ⟨c.eventStrings.used, _⟩ }
      rw [List.filterMap_nil, hall]
      exact hp
  | e :: es, s, c, hnodup, hsub, h, hp => by
      obtain ⟨hnot, hnodup⟩ := List.nodup_cons.mp hnodup
      have he := hsub e List.mem_cons_self
      obtain ⟨_, name, hname⟩ := h.self e he
      have h' : Consistent s fun x => x = e ∨ x ∈ es := h.mono fun x hx => List.mem_cons.mp hx
      have hother : ∀ x ∈ es, x ≠ e := by
        rintro x hx rfl
        exact hnot hx
      -- the strings that are left in the table are where they were
      have hrest : ∀ x ∈ es, x ∈ (s.swept e).eventStrings.entries ∧ (s.swept e).heap x.1 = s.heap x.1 := by
        intro x hx
        have hmem := hsub x (List.mem_cons_of_mem e hx)
        unfold Interned.swept
        split
        · exact ⟨hmem, rfl⟩
        · refine ⟨(List.mem_erase_of_ne (hother x hx)).mpr hmem, if_neg fun haddr => hother x hx ?_⟩
          exact h.distinct x hmem e he (by rw [haddr])
      have hloop :=
        Pictures.foldl_swept hnodup (fun x hx => (hrest x hx).1) (h'.swept he) (hp.swept h' he hname)
      refine cast ?_ hloop
      congr 1
      have hnames : es.filterMap (fun x => (s.swept e).heap x.1) = es.filterMap fun x => s.heap x.1 :=
        List.filterMap_congr fun x hx => (hrest x hx).2
      have hcons : (e :: es).filterMap (fun x => s.heap x.1) = name :: es.filterMap fun x => s.heap x.1 := by
        rw [List.filterMap_cons, hname]
      rw [hnames, hcons]
      unfold Core.dropEvents
      show ({ c with eventStrings := ⟨c.eventStrings.used, _⟩ } : Core) =
        { c with eventStrings := ⟨c.eventStrings.used, _⟩ }
      congr 2
      show ((c.eventStrings.names.filter fun n => n != name || c.subscribed name).filter fun n =>
        !((es.filterMap fun x => s.heap x.1).contains n) || c.subscribed n) = _
      rw [List.filter_filter]
      refine List.filter_congr ?_
      intro n _
      rw [List.contains_cons]
      by_cases hn : n = name
      · subst hn
        cases c.subscribed n with
        | true => simp
        | false => simp
      · have hbeq : (n == name) = false := beq_eq_false_iff_ne.mpr hn
        simp [hbeq, hn]

theorem Pictures.setConnection {c : Core} {id : Nat} {con : Subscriber} {con' : Connection} (hp : Pictures s c)
    (hclosed : con'.tunnel.closed = con.closed)
    (hnames : con'.subscribedEvents = picture s.heap con.subscribedEvents) :
    Pictures (s.setConnection id con) (c.setConnection id con') := by
  refine ⟨hp.strings, hp.nextConId, ?_⟩
  intro i
  show ((if i = id then some con' else c.connections i).map _) =
    (if i = id then some con else s.connections i).map _
  split
  · simp only [Option.map_some, hclosed, hnames]
    rfl
  · exact hp.connections i

/-- The connection of the core. -/
theorem Pictures.connection {c : Core} (hp : Pictures s c) {id : Nat} {con : Subscriber}
    (hc : s.connections id = some con) : ∃ con', c.connections id = some con' ∧
      con'.tunnel.closed = con.closed ∧ con'.subscribedEvents = picture s.heap con.subscribedEvents := by
  have hconn := hp.connections id
  rw [hc] at hconn
  obtain ⟨con', hc', hpair⟩ := Option.map_eq_some_iff.mp hconn
  exact ⟨con', hc', (Prod.mk.inj hpair).1, (Prod.mk.inj hpair).2⟩

/-- A new string. -/
theorem Pictures.added {c : Core} (hp : Pictures s c) (h : Settled s) {event : Bytes} {block : Nat}
    (hblock : s.heap block = none) :
    Pictures (s.added event block) { c with eventStrings := ⟨true, c.eventStrings.names ++ [event]⟩ } := by
  have hold : ∀ t, Within s t → t.names (s.added event block).heap = t.names s.heap := fun t ht =>
    names_congr fun x hx => h.strdup_heap hblock (ht.sub x hx)
  refine ⟨?_, hp.nextConId, ?_⟩
  · show StringSet.mk true (c.eventStrings.names ++ [event]) = StringSet.mk true
      ((s.eventStrings.entries ++ [(block, block)]).filterMap fun e => (s.added event block).heap e.1)
    have hnew : (s.added event block).heap block = some event := if_pos rfl
    have hlast : [(block, block)].filterMap (fun e : StringEntry => (s.added event block).heap e.1) =
        [event] := by
      rw [List.filterMap_cons, hnew, List.filterMap_nil]
    rw [List.filterMap_append, hlast, hp.strings]
    congr 2
    exact (hold _ h.strings).symm
  · intro id
    refine (hp.connections id).trans ?_
    show _ = (s.connections id).map _
    cases hc : s.connections id with
    | none => rfl
    | some con => simp only [Option.map_some, picture, hold _ (h.tables id con hc)]

theorem running_of_forOpen {id : Nat} {f : Subscriber → Except Fault Interned}
    (hrun : (s.forOpen id f).halt = none) :
    ∃ con, s.connections id = some con ∧ con.closed = false ∧ s.forOpen id f = s.settle (f con) := by
  unfold forOpen at hrun ⊢
  cases hc : s.connections id with
  | none =>
      rw [hc] at hrun
      cases hrun
  | some con =>
      rw [hc] at hrun
      dsimp only at hrun ⊢
      by_cases hclosed : con.closed = true
      · rw [if_pos hclosed] at hrun
        cases hrun
      · exact ⟨con, rfl, Bool.eq_false_iff.mpr hclosed, if_neg hclosed⟩

/-- `connection_create`. -/
theorem Pictures.create {c : Core} (hp : Pictures s c) (env : CreateEnv) :
    Pictures s.connectionCreate (c.create env) := by
  refine ⟨hp.strings, congrArg (· + 1) hp.nextConId, ?_⟩
  intro id
  show ((if id = c.nextConId then some _ else c.connections id).map _) =
    (if id = s.nextConId then some _ else s.connections id).map _
  rw [hp.nextConId]
  split
  · rfl
  · exact hp.connections id

/-- The last step of `connection_subscribe`: the string is in the table of the connection. -/
theorem Pictures.withEntry {c : Core} {id : Nat} {con : Subscriber} {event : Bytes} (hp : Pictures s c)
    (h : Consistent s P) (hc : s.connections id = some con) (he : e ∈ s.eventStrings.entries)
    (hname : s.heap e.1 = some event) :
    Pictures (s.setConnection id { con with subscribedEvents := con.subscribedEvents.withEntry e })
      (c.modify id fun con => if con.subscribedEvents.names.contains event then con
        else { con with subscribedEvents := ⟨true, con.subscribedEvents.names ++ [event]⟩ }) := by
  obtain ⟨con', hc', hclosed, hnames⟩ := hp.connection hc
  have ht := h.tables id con hc
  have hput : picture s.heap (con.subscribedEvents.withEntry e) = StringSet.mk true
      (if (con.subscribedEvents.names s.heap).contains event then con.subscribedEvents.names s.heap
        else con.subscribedEvents.names s.heap ++ [event]) := by
    rw [← h.names_withEntry ht he hname]
    rfl
  unfold Core.modify
  rw [hc']
  refine hp.setConnection ?_ ?_
  · dsimp only
    split
    · exact hclosed
    · exact hclosed
  · dsimp only
    rw [hput, hnames]
    show (if (con.subscribedEvents.names s.heap).contains event then con'
        else _ : Connection).subscribedEvents = _
    split
    · rename_i hmem
      -- a table with a name in it has buckets
      rw [hnames]
      have hin := (h.mem_names ht he hname).mp (List.contains_iff_mem.mp hmem)
      show StringSet.mk con.subscribedEvents.used _ = _
      rw [ht.used e hin]
    · rfl

/-- `connection_subscribe`. -/
theorem Pictures.subscribe {c : Core} {id : Nat} {con : Subscriber} {event : Bytes} {block : Nat}
    (hp : Pictures s c) (h : Settled s) (hc : s.connections id = some con) (hzero : block ≠ 0)
    (hblock : s.heap block = none) :
    Pictures (s.settle (s.connectionSubscribe id con event block)) (c.connectionSubscribe id event) := by
  obtain ⟨s₁, e, hwhich, he, hname, hcons, hsub⟩ := connectionSubscribe_eq event h hc hzero hblock
  rw [hsub]
  unfold Core.connectionSubscribe
  have hstrings : c.eventStrings.names = s.eventStrings.names s.heap := by
    rw [hp.strings]
    rfl
  rcases hwhich with ⟨hmem, rfl⟩ | ⟨hnone, rfl, rfl⟩
  · have hcontains : c.eventStrings.names.contains event = true := by
      rw [hstrings]
      exact List.contains_iff_mem.mpr ((h.mem_names h.strings he hname).mpr hmem)
    rw [if_pos hcontains]
    exact hp.withEntry h hc he hname
  · have hcontains : ¬ c.eventStrings.names.contains event = true := by
      rw [hstrings, List.contains_iff_mem]
      intro hmem
      obtain ⟨x, hx, hxname⟩ := List.mem_filterMap.mp hmem
      exact hnone x hx hxname
    rw [if_neg hcontains]
    exact (hp.added h hblock).withEntry hcons hc he hname

/-- `connection_unsubscribe` of an event with subscribers. -/
theorem Pictures.unsubscribe {c : Core} {id : Nat} {con : Subscriber} {event : Bytes} (hp : Pictures s c)
    (h : Settled s) (hc : s.connections id = some con) (hsub : s.subscribed event = true) :
    ∃ c', c.unsubscribe id event = .ok c' ∧ Pictures (s.settle (s.connectionUnsubscribe id con event)) c' := by
  obtain ⟨e, he, hname⟩ := h.interned hsub
  obtain ⟨hset, hun⟩ := connectionUnsubscribe_eq h hc he hname
  obtain ⟨con', hc', hclosed, hnames⟩ := hp.connection hc
  have hcontains : c.eventStrings.names.contains event = true := by
    rw [hp.strings]
    exact List.contains_iff_mem.mpr ((h.mem_names h.strings he hname).mpr he)
  have herased : Pictures (s.setConnection id { con with subscribedEvents :=
      { con.subscribedEvents with entries := con.subscribedEvents.entries.erase e } })
      (c.modify id fun con => { con with subscribedEvents := { con.subscribedEvents with
        names := con.subscribedEvents.names.filter (· != event) } }) := by
    unfold Core.modify
    rw [hc']
    refine hp.setConnection hclosed ?_
    show StringSet.mk con'.subscribedEvents.used _ = StringSet.mk con.subscribedEvents.used _
    rw [hnames]
    congr 1
    exact (h.names_erase (h.tables id con hc) he hname).symm
  have hspare : Consistent (s.setConnection id { con with subscribedEvents :=
      { con.subscribedEvents with entries := con.subscribedEvents.entries.erase e } })
      fun x => x = e ∨ False := hset.mono fun x hx => Or.inl hx
  have hswept := herased.swept hspare he hname
  unfold Core.unsubscribe
  rw [if_pos hcontains, hun]
  -- the core removes the name, or does not
  generalize c.modify id _ = d at hswept ⊢
  dsimp only
  split
  · rename_i hd
    refine ⟨d, rfl, ?_⟩
    rw [hd] at hswept
    simp only [Bool.or_true, List.filter_true] at hswept
    exact hswept
  · rename_i hd
    refine ⟨_, rfl, ?_⟩
    rw [Bool.eq_false_iff.mpr hd] at hswept
    simp only [Bool.or_false] at hswept
    exact hswept

/-- `free_connection`. -/
theorem Pictures.free {c : Core} {id : Nat} {con : Subscriber} {con' : Connection} (hp : Pictures s c)
    (h : Settled s) (hc : s.connections id = some con)
    (hnames : con'.subscribedEvents = picture s.heap con.subscribedEvents) :
    Pictures (s.settle (s.freeConnection id con)) (c.freeConnection id con') := by
  have ht := h.tables id con hc
  rw [(freeConnection_eq h hc).1]
  unfold Core.freeConnection
  rw [hnames]
  refine Pictures.foldl_swept ht.nodup ht.sub (h.unlist hc) ⟨hp.strings, hp.nextConId, ?_⟩
  intro i
  show ((if i = id then none else c.connections i).map _) = (if i = id then none else s.connections i).map _
  split
  · rfl
  · exact hp.connections i

/-- **The core mirrors every call** that does not end the process. -/
theorem pictures_step {c : Core} {call : StringCall} {s' : Interned} (env : CreateEnv) (h : Settled s)
    (hp : Pictures s c) (hknown : s.Known call) (hs : s.step call = some s') (hrun : s'.halt = none) :
    ∃ c', Mirrors env c call c' ∧ Pictures s' c' := by
  unfold step at hs
  split at hs
  · cases hs
  cases call with
  | create =>
      cases hs
      exact ⟨_, rfl, hp.create env⟩
  | subscribe id event block =>
      dsimp only at hs
      split at hs
      · cases hs
      rename_i hblock
      obtain ⟨hzero, hblock⟩ := not_or.mp hblock
      cases hs
      obtain ⟨con, hc, _, heq⟩ := running_of_forOpen hrun
      rw [heq]
      exact ⟨_, rfl, hp.subscribe h hc hzero (Option.not_isSome_iff_eq_none.mp hblock)⟩
  | unsubscribe id event =>
      cases hs
      obtain ⟨con, hc, _, heq⟩ := running_of_forOpen hrun
      rw [heq]
      exact hp.unsubscribe h hc hknown
  | close id =>
      obtain ⟨con, hc, rfl⟩ := Option.map_eq_some_iff.mp hs
      obtain ⟨con', hc', hclosed, hnames⟩ := hp.connection hc
      refine ⟨_, rfl, ?_⟩
      unfold Core.modify
      rw [hc']
      exact hp.setConnection rfl hnames
  | free id =>
      obtain ⟨con, hc, rfl⟩ := Option.map_eq_some_iff.mp hs
      obtain ⟨con', hc', _, hnames⟩ := hp.connection hc
      exact ⟨_, ⟨con', hc', rfl⟩, hp.free h hc hnames⟩

end Interned

end SploneBox
