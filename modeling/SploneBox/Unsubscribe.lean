/-
# SploneBox.Unsubscribe — what `connection_unsubscribe` does for any name.

`unsubscribe` looks up the string of the event and asks the other tables for what it got. For an event without
subscribers that is `NULL`: where a table has buckets this faults, and elsewhere nothing happens. So the
strings stay consistent in every run (`settled_reachable`), and the pair of connection and name goes without a
query for `NULL` just when somebody is subscribed to the name (`unsubscribe_exact_iff`).
-/
import SploneBox.EventStrings

namespace SploneBox.Interned

open Lib.Machine

variable {s : Interned} {P : StringEntry → Prop}

/-! ## §1 Names that are not interned -/

theorem find_null {h : StringHeap} (hnull : h 0 = none) {t : StringTable} {r : Option StringEntry}
    (hr : t.find h 0 = .ok r) :
    r = none := by
  unfold StringTable.find StringTable.load at hr
  by_cases hused : t.used = true
  · rw [if_pos hused, hnull] at hr
    cases hr
  · rw [if_neg hused] at hr
    exact (Except.ok.inj hr).symm

theorem has_null {h : StringHeap} (hnull : h 0 = none) {t : StringTable} {b : Bool} (hb : t.has h 0 = .ok b) :
    b = false := by
  unfold StringTable.has at hb
  cases hfind : t.find h 0 with
  | error f =>
      rw [hfind] at hb
      cases hb
  | ok r =>
      rw [hfind, find_null hnull hfind] at hb
      exact (Except.ok.inj hb).symm

theorem del_null {h : StringHeap} (hnull : h 0 = none) {t t' : StringTable} (ht : t.del h 0 = .ok t') :
    t' = t := by
  unfold StringTable.del at ht
  cases hfind : t.find h 0 with
  | error f =>
      rw [hfind] at ht
      cases ht
  | ok r =>
      rw [hfind, find_null hnull hfind] at ht
      exact (Except.ok.inj ht).symm

theorem anyHas_null (hnull : s.heap 0 = none) :
    ∀ {ids : List Nat} {b : Bool}, s.anyHas 0 ids = .ok b → b = false
  | [], b, hb => (Except.ok.inj hb).symm
  | id :: ids, b, hb => by
      unfold anyHas at hb
      cases hc : s.connections id with
      | none =>
          rw [hc] at hb
          exact anyHas_null hnull hb
      | some con =>
          rw [hc] at hb
          dsimp only at hb
          cases hhas : con.subscribedEvents.has s.heap 0 with
          | error f =>
              rw [hhas] at hb
              cases hb
          | ok found =>
              rw [hhas, has_null hnull hhas] at hb
              exact anyHas_null hnull hb

theorem setConnection_self {id : Nat} {con : Subscriber} (hc : s.connections id = some con) :
    s.setConnection id con = s := by
  have hsame : (fun i => if i = id then some con else s.connections i) = s.connections := by
    funext i
    split
    · next hi => rw [hi, hc]
    · rfl
  unfold setConnection
  rw [hsame]

/-- Where the lookup of the name gives `NULL`, a call that returns has changed nothing. -/
theorem connectionUnsubscribe_null (hnull : s.heap 0 = none) {id : Nat} {con : Subscriber}
    (hc : s.connections id = some con) {event : Bytes} (hget : s.eventStrings.get s.heap event = .ok 0)
    {s' : Interned} (hs : s.connectionUnsubscribe id con event = .ok s') : s' = s := by
  unfold connectionUnsubscribe at hs
  rw [hget] at hs
  change (con.subscribedEvents.del s.heap 0 >>= _) = _ at hs
  cases hdel : con.subscribedEvents.del s.heap 0 with
  | error f =>
      rw [hdel] at hs
      cases hs
  | ok table =>
      obtain rfl := del_null hnull hdel
      rw [hdel] at hs
      change sweep (s.setConnection id con) 0 = _ at hs
      rw [setConnection_self hc, sweep] at hs
      cases hany : s.anyHas 0 s.ids with
      | error f =>
          rw [hany] at hs
          cases hs
      | ok b =>
          obtain rfl := anyHas_null hnull hany
          rw [hany] at hs
          change (s.eventStrings.del s.heap 0 >>= _) = _ at hs
          cases hdel' : s.eventStrings.del s.heap 0 with
          | error f =>
              rw [hdel'] at hs
              cases hs
          | ok table =>
              obtain rfl := del_null hnull hdel'
              rw [hdel'] at hs
              have hheap : (fun p => if p = 0 then none else s.heap p) = s.heap := by
                funext p
                split
                · next hp => rw [hp, hnull]
                · rfl
              have hs' := (Except.ok.inj hs).symm
              rw [hheap] at hs'
              exact hs'

/-- A name nobody is subscribed to is not interned. -/
theorem Consistent.not_interned (h : Settled s) {event : Bytes} (hsub : ¬ s.subscribed event = true) :
    ∀ e ∈ s.eventStrings.entries, s.heap e.1 ≠ some event := by
  intro e he hname
  obtain ⟨id, con, hc, hmem⟩ := (h.wanted e he).resolve_left id
  have hlt : id < s.nextConId := by
    by_contra hle
    rw [h.fresh id (Nat.le_of_not_lt hle)] at hc
    cases hc
  refine hsub (List.any_eq_true.mpr ⟨id, List.mem_filter.mpr ⟨List.mem_range.mpr hlt, by rw [hc]; rfl⟩, ?_⟩)
  rw [hc]
  exact List.contains_iff_mem.mpr (List.mem_filterMap.mpr ⟨e, hmem, hname⟩)

/-! ## §2 Every run -/

/-- **Any call keeps the strings consistent.** -/
theorem settled_step_any {call : StringCall} {s' : Interned} (h : Settled s) (hs : s.step call = some s') :
    Settled s' := by
  by_cases hknown : s.Known call
  · exact (settled_step h hknown hs).1
  · cases call with
    | unsubscribe id event =>
        unfold step at hs
        split at hs
        · cases hs
        · cases hs
          unfold forOpen
          split
          · exact h.halted _
          · next con hc =>
              split
              · exact h.halted _
              · show Settled (s.settle (s.connectionUnsubscribe id con event))
                cases hun : s.connectionUnsubscribe id con event with
                | error f => exact h.halted _
                | ok s' =>
                    have hget := h.get_none (h.not_interned hknown)
                    obtain rfl := connectionUnsubscribe_null h.null hc hget hun
                    exact h
    | create => exact absurd trivial hknown
    | subscribe _ _ _ => exact absurd trivial hknown
    | close _ => exact absurd trivial hknown
    | free _ => exact absurd trivial hknown

/-- The state is reached from `connection_init` by some calls. -/
def Reached (s : Interned) : Prop := ∃ calls, exec step init calls = some s

theorem settled_reachable (h : Reached s) : Settled s := by
  obtain ⟨calls, hex⟩ := h
  have hall : ∀ {calls : List StringCall} {s₀ : Interned}, Settled s₀ → exec step s₀ calls = some s →
      Settled s := by
    intro calls
    induction calls with
    | nil =>
        intro s₀ h₀ hex
        cases hex
        exact h₀
    | cons call calls ih =>
        intro s₀ h₀ hex
        obtain ⟨s₁, hstep, hrest⟩ := Option.bind_eq_some_iff.mp hex
        exact ih (settled_step_any h₀ hstep) hrest
  exact hall settled_init hex

/-! ## §3 Which names are unsubscribed from -/

/-- The connection is subscribed to the name. -/
def Subscribed (s : Interned) (id : Nat) (name : Bytes) : Prop :=
  ∃ con, s.connections id = some con ∧ name ∈ con.subscribedEvents.names s.heap

/-- What is asked of `connection_unsubscribe`: it returns, and has removed the pair or changed nothing; the
string that it asked the tables for is not `NULL`. -/
def Unsubscribes (s : Interned) (id : Nat) (con : Subscriber) (event : Bytes) : Prop :=
  ∃ key s', s.eventStrings.get s.heap event = .ok key ∧ key ≠ 0 ∧
    s.connectionUnsubscribe id con event = .ok s' ∧
    (∀ i name, Subscribed s' i name ↔ Subscribed s i name ∧ ¬ (i = id ∧ name = event)) ∧
    (¬ Subscribed s id event → s' = s)

/-- **The pair goes** when the name is interned. -/
theorem Consistent.unsubscribes (h : Settled s) {id : Nat} {con : Subscriber} (hc : s.connections id = some con)
    {event : Bytes} {e : StringEntry} (he : e ∈ s.eventStrings.entries) (hname : s.heap e.1 = some event) :
    Unsubscribes s id con event := by
  have hkey : e.1 ≠ 0 := by
    intro hzero
    rw [hzero, h.null] at hname
    cases hname
  obtain ⟨hset, hun⟩ := connectionUnsubscribe_eq h hc he hname
  have ht := h.tables id con hc
  -- the contents of the tables do not change with the string that may be freed
  have hnames : ∀ i con', (s.setConnection id { con with subscribedEvents :=
      { con.subscribedEvents with entries := con.subscribedEvents.entries.erase e } }).connections i =
        some con' →
      con'.subscribedEvents.names ((s.setConnection id { con with subscribedEvents :=
        { con.subscribedEvents with entries := con.subscribedEvents.entries.erase e } }).swept e).heap =
      con'.subscribedEvents.names s.heap := by
    intro i con' hc'
    have hpicture := swept_picture (hset.mono fun x hx => Or.inl hx) he hc' (P := fun _ => False)
    exact congrArg StringSet.names hpicture
  refine ⟨e.1, _, h.get he hname, hkey, hun, ?_, ?_⟩
  · intro i name
    unfold Subscribed
    rw [swept_connections]
    by_cases hi : i = id
    · subst hi
      have hself : (s.setConnection i { con with subscribedEvents :=
          { con.subscribedEvents with entries := con.subscribedEvents.entries.erase e } }).connections i =
            some _ := if_pos rfl
      have herase := h.names_erase ht he hname
      constructor
      · rintro ⟨con', hc', hmem⟩
        rw [hnames i con' hc'] at hmem
        rw [hself] at hc'
        cases hc'
        change name ∈ (con.subscribedEvents.entries.erase e).filterMap (fun x => s.heap x.1) at hmem
        rw [herase, List.mem_filter] at hmem
        exact ⟨⟨con, hc, hmem.1⟩, fun heq => by simp [heq.2] at hmem⟩
      · rintro ⟨⟨con', hc', hmem⟩, hne⟩
        rw [hc] at hc'
        cases hc'
        refine ⟨_, hself, ?_⟩
        rw [hnames i _ hself]
        change name ∈ (con.subscribedEvents.entries.erase e).filterMap (fun x => s.heap x.1)
        rw [herase, List.mem_filter]
        exact ⟨hmem, by simpa using fun heq => hne ⟨rfl, heq⟩⟩
    · have hother : (s.setConnection id { con with subscribedEvents :=
          { con.subscribedEvents with entries := con.subscribedEvents.entries.erase e } }).connections i =
            s.connections i :=
        if_neg hi
      constructor
      · rintro ⟨con', hc', hmem⟩
        rw [hnames i con' hc'] at hmem
        exact ⟨⟨con', hother ▸ hc', hmem⟩, fun heq => hi heq.1⟩
      · rintro ⟨⟨con', hc', hmem⟩, -⟩
        have hc'' := hother.trans hc'
        exact ⟨con', hc'', by rw [hnames i con' hc'']; exact hmem⟩
  · intro hnot
    have hmem : e ∉ con.subscribedEvents.entries := by
      intro hmem
      exact hnot ⟨con, hc, (h.mem_names ht he hname).mpr hmem⟩
    have hkept : s.setConnection id { con with subscribedEvents :=
        { con.subscribedEvents with entries := con.subscribedEvents.entries.erase e } } = s := by
      rw [List.erase_of_not_mem hmem]
      exact setConnection_self hc
    rw [hkept]
    -- somebody else has the string
    have hrefers : s.refers e = true := by
      obtain ⟨i, con', hc', hmem'⟩ := (h.wanted e he).resolve_left fun hfalse => hfalse
      exact (refers_iff h).mpr ⟨i, con', hc', hmem'⟩
    unfold Interned.swept
    rw [if_pos hrefers]

/-- **`connection_unsubscribe` does what it should** in a state that is reached, for a connection and any
name, if and only if somebody is subscribed to the name. -/
theorem unsubscribe_exact_iff (hreached : Reached s) {id : Nat} {con : Subscriber}
    (hc : s.connections id = some con) (event : Bytes) :
    Unsubscribes s id con event ↔ s.subscribed event = true := by
  have h := settled_reachable hreached
  constructor
  · rintro ⟨key, s', hget, hkey, -⟩
    by_contra hsub
    rw [h.get_none (h.not_interned hsub)] at hget
    exact hkey (Except.ok.inj hget).symm
  · intro hsub
    obtain ⟨e, he, hname⟩ := h.interned hsub
    exact h.unsubscribes hc he hname

/-- A connection that is subscribed to `a`. -/
def Sample.subscriber : List StringCall := [.create, .subscribe 1 (text "a") 8]

/-- `a` is unsubscribed from. -/
theorem unsubscribe_exact_iff_sample :
    ∃ s con, Reached s ∧ s.connections 1 = some con ∧ con.closed = false ∧ Unsubscribes s 1 con (text "a") := by
  have hrun : (exec step init Sample.subscriber).any (fun s =>
      (s.connections 1).any fun con => !con.closed && s.subscribed (text "a")) = true := by decide +kernel
  obtain ⟨s, hex, hs⟩ := (Option.any_eq_true _ _).mp hrun
  obtain ⟨con, hc, hcon⟩ := (Option.any_eq_true _ _).mp hs
  obtain ⟨hopen, hsub⟩ := (Bool.and_eq_true _ _).mp hcon
  exact ⟨s, con, ⟨_, hex⟩, hc, by simpa using hopen, (unsubscribe_exact_iff ⟨_, hex⟩ hc (text "a")).mpr hsub⟩

/-- To unsubscribe from `b`, which nobody is subscribed to, reads through `NULL`. -/
theorem unknown_event_faults : ∃ s con, Reached s ∧ s.connections 1 = some con ∧ con.closed = false ∧
    s.connectionUnsubscribe 1 con (text "b") = .error .nullPointer ∧ ¬ Unsubscribes s 1 con (text "b") := by
  have hrun : (exec step init Sample.subscriber).any (fun s => (s.connections 1).any fun con => !con.closed &&
      match s.connectionUnsubscribe 1 con (text "b") with
      | .error .nullPointer => true
      | _ => false) = true := by decide +kernel
  obtain ⟨s, hex, hs⟩ := (Option.any_eq_true _ _).mp hrun
  obtain ⟨con, hc, hcon⟩ := (Option.any_eq_true _ _).mp hs
  obtain ⟨hopen, hfault⟩ := (Bool.and_eq_true _ _).mp hcon
  have hfault : s.connectionUnsubscribe 1 con (text "b") = .error .nullPointer := by
    split at hfault
    · assumption
    · cases hfault
  refine ⟨s, con, ⟨_, hex⟩, hc, by simpa using hopen, hfault, ?_⟩
  rintro ⟨_, s', -, -, hun, -⟩
  rw [hfault] at hun
  cases hun

end SploneBox.Interned
