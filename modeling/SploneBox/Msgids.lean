/-
# SploneBox.Msgids — the ids of the requests on one connection.

`connection_send_request` numbers the requests of a connection with a 32-bit counter that begins at 1, and
keeps the id of each until the call returns. Here this is a machine of its own, with the ids that are pending
(`Caller`); `waitFor_caller` and `popped_caller` say that the core takes its steps. After 2³² - 1 requests the
counter is 0, with which a notification is made, and from then on the ids come round again:
`request_ids_valid_iff` says when a request is numbered well.
-/
import SploneBox.Moves

namespace SploneBox

open Lib.Machine

/-! ## §1 The counter -/

/-- The counter of a connection, and the ids in its `callvector`. -/
structure Caller where
  msgid : UInt32
  pending : List UInt64
deriving DecidableEq

/-- `connection_send_request` writes a request, or fails to, and it returns from the newest call. -/
inductive CallStep where
  | request (method : Bytes) (args : List Object) (written : Bool)
  | returned

namespace Caller

/-- After `connection_create`. -/
def init : Caller := ⟨1, []⟩

/-- `msgid = con->msgid++`. -/
def next (s : Caller) : UInt64 := s.msgid.toUInt64

/-- The message of the next request. -/
def message (s : Caller) (method : Bytes) (args : List Object) : MsgpackObject :=
  serializeRequest s.next method args

/-- One step. A call whose request is not written does not wait. -/
def step (s : Caller) : CallStep → Option Caller
  | .request _ _ written => some ⟨s.msgid + 1, if written then s.pending ++ [s.next] else s.pending⟩
  | .returned => if s.pending = [] then none else some { s with pending := s.pending.dropLast }

/-- **A request that is numbered well**: it has four elements, the first of them 0, and an id that is neither
0 nor that of a call that is pending. -/
def ValidRequest (s : Caller) : Prop :=
  (∀ method args, s.message method args =
    .array [.positiveInteger 0, .positiveInteger s.next, .str method, .array (itemsToMsgpack args)]) ∧
    s.next ≠ 0 ∧ s.next ∉ s.pending

/-! ## §2 How many calls there were -/

/-- How many calls were made, and which of them are pending; the first call has the number 0. -/
structure Tally where
  made : Nat
  pending : List Nat

/-- One more step. -/
def Tally.count (t : Tally) : CallStep → Tally
  | .request _ _ written => ⟨t.made + 1, if written then t.pending ++ [t.made] else t.pending⟩
  | .returned => { t with pending := t.pending.dropLast }

/-- The tally of a run. -/
def tally (steps : List CallStep) : Tally := steps.foldl Tally.count ⟨0, []⟩

/-- The id of the call number `k`. -/
def idOf (k : Nat) : UInt64 := (UInt32.ofNat (k + 1)).toUInt64

/-- The counter and the ids are those of the calls. -/
structure Counts (s : Caller) (t : Tally) : Prop where
  msgid : s.msgid = UInt32.ofNat (t.made + 1)
  pending : s.pending = t.pending.map idOf

theorem counts_step {s s' : Caller} {t : Tally} {l : CallStep} (h : Counts s t) (hs : s.step l = some s') :
    Counts s' (t.count l) := by
  obtain ⟨hmsgid, hpending⟩ := h
  have hnext : s.next = idOf t.made := congrArg UInt32.toUInt64 hmsgid
  cases l with
  | request method args written =>
      cases hs
      refine ⟨?_, ?_⟩
      · show s.msgid + 1 = UInt32.ofNat (t.made + 1 + 1)
        rw [hmsgid, UInt32.ofNat_add (t.made + 1) 1]
        rfl
      · show (if written then s.pending ++ [s.next] else s.pending) = _
        cases written with
        | true =>
            rw [if_pos rfl, hpending, hnext]
            show t.pending.map idOf ++ [t.made].map idOf = (t.pending ++ [t.made]).map idOf
            rw [List.map_append]
        | false => exact hpending
  | returned =>
      change (if s.pending = [] then none else some { s with pending := s.pending.dropLast }) = some s' at hs
      by_cases hnone : s.pending = []
      · rw [if_pos hnone] at hs
        cases hs
      · rw [if_neg hnone] at hs
        cases hs
        refine ⟨hmsgid, ?_⟩
        show s.pending.dropLast = _
        rw [hpending]
        exact List.map_dropLast.symm

/-- **The counter of every run.** -/
theorem counts_run {steps : List CallStep} {s : Caller} (h : exec step init steps = some s) :
    Counts s (tally steps) := by
  have hrun : ∀ (steps : List CallStep) {s₀ : Caller} {t : Tally}, Counts s₀ t → exec step s₀ steps = some s →
      Counts s (steps.foldl Tally.count t) := by
    intro steps
    induction steps with
    | nil =>
        intro s₀ t h₀ hex
        cases hex
        exact h₀
    | cons l steps ih =>
        intro s₀ t h₀ hex
        obtain ⟨s₁, hs, hrest⟩ := exec_cons.mp hex
        exact ih (counts_step h₀ hs) hrest
  exact hrun steps ⟨rfl, rfl⟩ h

/-! ## §3 Which requests are numbered well -/

theorem idOf_eq_iff (j k : Nat) : idOf j = idOf k ↔ j % 2 ^ 32 = k % 2 ^ 32 := by
  unfold idOf
  rw [← UInt64.toNat_inj, UInt32.toNat_toUInt64, UInt32.toNat_toUInt64, UInt32.toNat_ofNat',
    UInt32.toNat_ofNat']
  omega

theorem idOf_eq_zero_iff (k : Nat) : idOf k = 0 ↔ 2 ^ 32 ∣ k + 1 := by
  unfold idOf
  rw [← UInt64.toNat_inj, UInt32.toNat_toUInt64, UInt32.toNat_ofNat']
  exact Nat.dvd_iff_mod_eq_zero.symm

/-- The calls that are pending have been made. -/
theorem pending_lt (steps : List CallStep) : ∀ k ∈ (tally steps).pending, k < (tally steps).made := by
  have hrun : ∀ (steps : List CallStep) {t : Tally}, (∀ k ∈ t.pending, k < t.made) →
      ∀ k ∈ (steps.foldl Tally.count t).pending, k < (steps.foldl Tally.count t).made := by
    intro steps
    induction steps with
    | nil => exact fun h => h
    | cons l steps ih =>
        intro t h
        refine ih ?_
        cases l with
        | request method args written =>
            intro k hk
            show k < t.made + 1
            change k ∈ (if written then t.pending ++ [t.made] else t.pending) at hk
            split at hk
            · rcases List.mem_append.mp hk with hk | hk
              · exact (h k hk).trans (Nat.lt_succ_self _)
              · exact List.mem_singleton.mp hk ▸ Nat.lt_succ_self _
            · exact (h k hk).trans (Nat.lt_succ_self _)
        | returned => exact fun k hk => h k (List.dropLast_subset _ hk)
  exact hrun steps fun _ hk => (nomatch hk)

/-- **A request is numbered well** if and only if its place among all the calls of the connection is not a
multiple of 2³² and no call is pending that was made a multiple of 2³² calls before. The first 2³² - 1
requests are. -/
theorem request_ids_valid_iff {steps : List CallStep} {s : Caller} (h : exec step init steps = some s) :
    (s.ValidRequest ↔
      ¬ 2 ^ 32 ∣ (tally steps).made + 1 ∧
      ∀ k ∈ (tally steps).pending, k % 2 ^ 32 ≠ (tally steps).made % 2 ^ 32) ∧
      ((tally steps).made + 1 < 2 ^ 32 → s.ValidRequest) := by
  obtain ⟨hmsgid, hpending⟩ := counts_run h
  have hnext : s.next = idOf (tally steps).made := congrArg UInt32.toUInt64 hmsgid
  have hfresh : s.next ∉ s.pending ↔ ∀ k ∈ (tally steps).pending, k % 2 ^ 32 ≠ (tally steps).made % 2 ^ 32 := by
    rw [hpending, hnext, List.mem_map]
    constructor
    · intro hno k hk heq
      exact hno ⟨k, hk, (idOf_eq_iff _ _).mpr heq⟩
    · rintro hno ⟨k, hk, heq⟩
      exact hno k hk ((idOf_eq_iff _ _).mp heq)
  have hzero : s.next ≠ 0 ↔ ¬ 2 ^ 32 ∣ (tally steps).made + 1 := by
    rw [hnext, ne_eq, idOf_eq_zero_iff]
  have hvalid : s.ValidRequest ↔ s.next ≠ 0 ∧ s.next ∉ s.pending := by
    constructor
    · exact fun hvalid => hvalid.2
    · rintro ⟨hne, hno⟩
      exact ⟨fun method args => if_neg hne, hne, hno⟩
  rw [hvalid, hzero, hfresh]
  refine ⟨Iff.rfl, fun hfew => ⟨?_, ?_⟩⟩
  · intro hdvd
    exact absurd (Nat.le_of_dvd (Nat.succ_pos _) hdvd) (Nat.not_le.mpr hfew)
  · intro k hk
    have hlt := pending_lt steps k hk
    rw [Nat.mod_eq_of_lt (by omega), Nat.mod_eq_of_lt (by omega)]
    exact hlt.ne

/-- Two calls, the second inside the first, of which one has returned. -/
def Sample.nested : List CallStep := [.request [] [] true, .request [] [] true, .returned]

/-- The third request has the id 3. -/
theorem request_ids_valid_iff_sample : ∃ s, exec step init Sample.nested = some s ∧ s.next = 3 ∧
    s.ValidRequest := by
  have hex : exec step init Sample.nested = some ⟨3, [1]⟩ := by decide
  exact ⟨⟨3, [1]⟩, hex, rfl, (request_ids_valid_iff hex).2 (by decide)⟩

/-- Calls that return one after the other. -/
def inTurn (n : Nat) : List CallStep := (List.replicate n [CallStep.request [] [] true, .returned]).flatten

theorem exec_inTurn (n : Nat) (m : UInt32) : exec step ⟨m, []⟩ (inTurn n) = some ⟨m + UInt32.ofNat n, []⟩ := by
  induction n generalizing m with
  | zero =>
      show some (Caller.mk m []) = some ⟨m + 0, []⟩
      rw [UInt32.add_zero]
  | succ n ih =>
      have hrest := ih (m + 1)
      have hassoc : m + 1 + UInt32.ofNat n = m + UInt32.ofNat (n + 1) := by
        rw [UInt32.ofNat_add, UInt32.add_assoc, UInt32.add_comm 1]
        rfl
      rw [hassoc] at hrest
      exact hrest

/-- **The request after 2³² - 1 calls is a notification.** -/
theorem request_becomes_notification :
    ∃ steps s, exec step init steps = some s ∧ s.pending = [] ∧ ¬ s.ValidRequest ∧
      s.message [] [] = .array [.positiveInteger 2, .str [], .array []] := by
  have hwrap : (1 : UInt32) + UInt32.ofNat (2 ^ 32 - 1) = 0 := by decide
  refine ⟨inTurn (2 ^ 32 - 1), ⟨0, []⟩, ?_, rfl, fun hvalid => hvalid.2.1 rfl, rfl⟩
  have hrun := exec_inTurn (2 ^ 32 - 1) 1
  rw [hwrap] at hrun
  exact hrun

end Caller

/-! ## §4 The connections of the core -/

namespace Core

variable {W : World} {c : Core}

/-- The counter of a connection in the core, and the ids of the calls in its `callvector`. -/
def caller (c : Core) (con : Connection) : Caller :=
  ⟨con.msgid, con.callvector.filterMap fun i => (c.calls[i]?).map (·.msgid)⟩

/-- The connection that a request is sent to, with a reference more. -/
def addressed (con : Connection) : Connection :=
  { con with refcount := con.refcount + 1, msgid := con.msgid + 1 }

/-- **`connection_send_request` packs the next message**, and goes on as `crypto_write` tells. -/
theorem connectionSendRequest_packs {e : RequestEvent} {kind : CallKind} {callid : UInt64} {key : Bytes}
    {request : List Object} {id : Nat} {con : Connection} (hkey : c.pluginkeys key = some id)
    (hc : c.connections id = some con) :
    connectionSendRequest W c e kind callid key request =
      (((c.setConnection id (addressed con)).pack ((c.caller con).message kind.method request)).cryptoWrite W id
        (c.sbuf ++ [(c.caller con).message kind.method request]) .request >>= fun r =>
          if !r.2 then
            acknowledge W (r.1.note [.finished id (c.caller con).next none .nil]) e kind callid .nil none
          else .ok (r.1.clear.waitFor e id (c.caller con).next kind callid)) := by
  unfold connectionSendRequest
  rw [hkey]
  dsimp only
  rw [hc]
  rfl

/-- **The counter takes one step**, whether the request is written or not. -/
theorem addressed_caller {id : Nat} {con : Connection} {m : MsgpackObject} {data : List MsgpackObject}
    {c' : Core} {sent : Bool}
    (hw : ((c.setConnection id (addressed con)).pack m).cryptoWrite W id data .request = .ok (c', sent)) :
    ∃ con', c'.connections id = some con' ∧ c'.calls = c.calls ∧
      (c.caller con).step (.request [] [] false) = some (c'.caller con') := by
  have hmove := cryptoWrite_move (W := W) ((c.setConnection id (addressed con)).pack m) id data .request
  rw [hw] at hmove
  cases hmove with
  | @returned con₁ sent bytes env hc hl =>
      have hcon : con₁ = addressed con :=
        (Option.some.inj (hc.symm.trans (setConnection_self c id (addressed con))))
      subst hcon
      exact ⟨_, setConnection_self _ _ _, rfl, rfl⟩

/-- **A call that waits is pending** with the id it was sent with. -/
theorem waitFor_caller {e : RequestEvent} {id : Nat} {con : Connection} {kind : CallKind} {callid : UInt64}
    {msgid : UInt64} (hc : c.connections id = some con) (hold : ∀ i ∈ con.callvector, i < c.calls.length) :
    ∃ con', (c.waitFor e id msgid kind callid).connections id = some con' ∧
      (c.waitFor e id msgid kind callid).caller con' = ⟨con.msgid, (c.caller con).pending ++ [msgid]⟩ := by
  refine ⟨{ con with
    callvector := con.callvector ++ [c.calls.length]
    pendingRequests := con.pendingRequests + 1 }, ?_, ?_⟩
  · unfold waitFor pushCallinfo modify
    rw [hc]
    exact if_pos rfl
  · show Caller.mk con.msgid ((con.callvector ++ [c.calls.length]).filterMap fun i =>
      ((c.calls ++ [⟨msgid, false, false, .nil⟩])[i]?).map (·.msgid)) = _
    have hkeep :
        con.callvector.filterMap (fun i => ((c.calls ++ [⟨msgid, false, false, .nil⟩])[i]?).map (·.msgid)) =
        (c.caller con).pending := by
      refine List.filterMap_congr fun i hi => ?_
      rw [List.getElem?_append_left (hold i hi)]
    rw [List.filterMap_append, hkeep]
    simp

/-- **A call that returns is the newest one.** -/
theorem popped_caller {con : Connection} (hold : ∀ i ∈ con.callvector, i < c.calls.length)
    (hne : con.callvector ≠ []) :
    (c.caller con).step .returned = some (c.caller (popped con)) := by
  have hmap : ∀ is : List Nat, (∀ i ∈ is, i < c.calls.length) →
      (is.dropLast.filterMap fun i => (c.calls[i]?).map (·.msgid)) =
      (is.filterMap fun i => (c.calls[i]?).map (·.msgid)).dropLast := by
    intro is h
    rcases List.eq_nil_or_concat is with rfl | ⟨is, i, rfl⟩
    · rfl
    · have hi : i < c.calls.length := h i (by simp)
      rw [List.concat_eq_append, List.dropLast_concat, List.filterMap_append]
      simp [hi]
  have hpending : (c.caller con).pending ≠ [] := by
    obtain ⟨i, is, heq⟩ := List.exists_cons_of_ne_nil hne
    have hi : i < c.calls.length := hold i (by simp [heq])
    simp [caller, heq, hi]
  show (if (c.caller con).pending = [] then none
      else some { c.caller con with pending := (c.caller con).pending.dropLast }) = _
  rw [if_neg hpending]
  exact congrArg (fun p => some (Caller.mk con.msgid p)) (hmap con.callvector hold).symm

end Core

end SploneBox
