/-
# SploneBox.Registry — which connection a plugin key stands for.

`pluginkeys` has one entry per plugin, from the string in `con->cc.pluginkeystring` to the id of the
connection. `parse_cb` makes the entry after `crypto_recv_initiate`, `free_connection` deletes it. Both
go by the contents of the string, whatever it is:

* `parse_cb` does not stop when the packet is rejected, so the string that is entered may be the one
  the connection was created with;
* `free_connection` deletes by the string of a connection that never got one.

`registry_sound_iff` says that the first is the only way to an unsound entry, and `registration_persists`
that without the two an entry stays as long as its connection is open.

The table of the source keeps the address of the string. A rejected packet is also the only way to a string
that changes after it was entered: without it the table by contents, which `Core` has, and a table by addresses
are the same (`pluginkeys_by_address`).
-/
import SploneBox.Handshake
import SploneBox.Lifetime

namespace SploneBox

open Lib.Machine

namespace Core

variable {W : World} {c : Core} {id : Nat} {con : Connection} {seg : Bytes} {env : ReadEnv}

/-! ## §1 The initiate packet -/

/-- `crypto_recv_initiate` on what a segment brings: the context, and whether it returned 0. -/
def initiated (W : World) (con : Connection) (seg : Bytes) (env : ReadEnv) : CryptoContext × Bool :=
  cryptoRecvInitiate W.server con.tunnel.cc (initiateBytes con.tunnel seg env) env.db

/-- **The ways through the receiving half**, as far as the registry is concerned. -/
inductive Receipt (W : World) (c : Core) (con : Connection) (seg : Bytes) (env : ReadEnv)
    (r : ParseResult) : Prop
  | hello (hst : con.tunnel.cc.state = .initial) (hout : r.outcome = .ended)
      (hreg : r.register = false) (hst' : r.tunnel.cc.state ≠ .established)
      (hkey : r.tunnel.cc.pluginkeystring = con.tunnel.cc.pluginkeystring)
  | cleared (hst : con.tunnel.cc.state = .cookieSent) (hout : r.outcome = .duplicate)
      (hreg : r.register = false)
      (hknown : (c.pluginkeys (cstr (initiated W con seg env).1.pluginkeystring)).isSome = true)
      (hkey : r.tunnel.cc.pluginkeystring = zeros 17)
  | rejected (hst : con.tunnel.cc.state = .cookieSent) (hok : (initiated W con seg env).2 = false)
      (hout : r.outcome = .ended) (hreg : r.register = true)
      (hnew : c.pluginkeys con.pluginkey = none) (hst' : r.tunnel.cc.state = .initial)
      (hkey : r.tunnel.cc.pluginkeystring = con.tunnel.cc.pluginkeystring)
  | accepted (hst : con.tunnel.cc.state = .cookieSent) (hok : (initiated W con seg env).2 = true)
      (hout : r.outcome ≠ .duplicate) (hreg : r.register = true)
      (hnew : c.pluginkeys (cstr r.tunnel.cc.pluginkeystring) = none)
      (hst' : r.tunnel.cc.state = .established)
      (hstring : r.tunnel.cc.pluginkeystring = (initiated W con seg env).1.pluginkeystring)
      (hkey : ∃ key : Bytes, key.length = 8 ∧ cstr r.tunnel.cc.pluginkeystring = base16 key)
  | messages (hst : con.tunnel.cc.state = .established) (hout : r.outcome ≠ .duplicate)
      (hreg : r.register = false) (hst' : r.tunnel.cc.state = .established)
      (hkey : r.tunnel.cc.pluginkeystring = con.tunnel.cc.pluginkeystring)

theorem initiated_rejected (h : (initiated W con seg env).2 = false) :
    (initiated W con seg env).1.pluginkeystring = con.tunnel.cc.pluginkeystring := by
  rcases hr : initiated W con seg env with ⟨cc', ok⟩
  rw [hr] at h
  cases h
  show cc'.pluginkeystring = con.tunnel.cc.pluginkeystring
  rw [cryptoRecvInitiate_rejected hr]

theorem initiated_accepted (h : (initiated W con seg env).2 = true) :
    (initiated W con seg env).1.state = .established ∧
      ∃ key : Bytes, key.length = 8 ∧
        cstr (initiated W con seg env).1.pluginkeystring = base16 key := by
  rcases hr : initiated W con seg env with ⟨cc', ok⟩
  rw [hr] at h
  cases h
  obtain ⟨k, cookie, initiate, vouch, hspec⟩ :=
    cryptoRecvInitiate_established (initiateBytes_length con.tunnel seg env) hr
  have hbox := congrArg List.length ((W.server.nacl.open_iff _ _ _ _).mp hspec.initiate_opens)
  have hlen : initiate.length = 128 := by
    rw [W.server.nacl.box_length] at hbox
    simp only [field, List.length_take, List.length_drop, initiateBytes_length] at hbox
    omega
  rw [hspec.context]
  refine ⟨rfl, field initiate 24 8, by simp [field, hlen], ?_⟩
  exact cstr_base16Encode 17 _

/-- The message part does nothing for a connection that is not established. -/
theorem parseMessages_ended {S : Server} {t : Tunnel} (env : ReadEnv)
    (h : t.cc.state ≠ .established) : (parseMessages S t env).outcome = .ended := by
  unfold parseMessages
  rw [if_pos (Or.inr h)]

/-- The context after the branch for `TUNNEL_COOKIE_SENT`. -/
theorem parseInitiate_cc (W : World) (con : Connection) (seg : Bytes) (env : ReadEnv) :
    (parseInitiate W.server (con.tunnel.arrived seg env) env).cc =
      if (initiated W con seg env).2 then (initiated W con seg env).1
      else { (initiated W con seg env).1 with state := .initial } := rfl

theorem receipt (W : World) (c : Core) (con : Connection) (seg : Bytes) (env : ReadEnv) :
    Receipt W c con seg env (c.parseData W con seg env) := by
  have hcc := parseInitiate_cc W con seg env
  unfold parseData parseCb
  dsimp only
  split
  · rename_i hst
    have hspec := cryptoRecvHelloSendCookie_cases (S := W.server) con.tunnel.cc (stackBuffer 192
      (inputstreamRead (con.tunnel.arrived seg env).istream 192).2 env.stale) env.hello
    have hkey : (cryptoRecvHelloSendCookie W.server con.tunnel.cc (stackBuffer 192
        (inputstreamRead (con.tunnel.arrived seg env).istream 192).2 env.stale)
        env.hello).cc.pluginkeystring = con.tunnel.cc.pluginkeystring := by
      rw [hspec.frame]
    refine .hello hst rfl rfl ?_ hkey
    intro hest
    cases hok : (cryptoRecvHelloSendCookie W.server con.tunnel.cc (stackBuffer 192
        (inputstreamRead (con.tunnel.arrived seg env).istream 192).2 env.stale) env.hello).ok with
    | false =>
        have hsame := hspec.rejected hok
        exact absurd (hst.symm.trans (hsame.symm.trans hest)) (by decide)
    | true => exact absurd ((hspec.accepted hok).1.symm.trans hest) (by decide)
  · rename_i hst
    have hstring : (parseInitiate W.server (con.tunnel.arrived seg env) env).cc.pluginkeystring =
        (initiated W con seg env).1.pluginkeystring := by
      rw [hcc]
      split <;> rfl
    split
    · rename_i hknown
      refine .cleared hst rfl rfl ?_ rfl
      rw [← hstring]
      exact hknown
    · rename_i hknown
      have hnew : c.pluginkeys (cstr (initiated W con seg env).1.pluginkeystring) = none := by
        rw [← hstring]
        exact Option.not_isSome_iff_eq_none.mp hknown
      obtain ⟨hkst, hkey⟩ := parseMessages_key (S := W.server)
        (parseInitiate W.server (con.tunnel.arrived seg env) env)
        { env with registered := fun k => (c.pluginkeys k).isSome }
      have hdup := (parseMessages_outcome (S := W.server)
        (parseInitiate W.server (con.tunnel.arrived seg env) env)
        { env with registered := fun k => (c.pluginkeys k).isSome }).1
      cases hok : (initiated W con seg env).2 with
      | false =>
          have hinit : (parseInitiate W.server (con.tunnel.arrived seg env) env).cc.state =
              .initial := by
            rw [hcc, hok]
            rfl
          have hsame := initiated_rejected hok
          have hended := parseMessages_ended (S := W.server)
            { env with registered := fun k => (c.pluginkeys k).isSome } (hinit.trans_ne (by decide))
          refine .rejected hst hok hended rfl ?_ (hkst.trans hinit) ?_
          · rw [hsame] at hnew
            exact hnew
          · exact (hkey.trans hstring).trans hsame
      | true =>
          obtain ⟨hest, hbase⟩ := initiated_accepted hok
          have hfull := hkey.trans hstring
          refine .accepted hst hok hdup rfl ?_ (hkst.trans ?_) hfull ?_
          · rw [← hfull] at hnew
            exact hnew
          · rw [hcc, hok]
            exact hest
          · rw [← hfull] at hbase
            exact hbase
  · rename_i hst
    obtain ⟨hkst, hkey⟩ := parseMessages_key (S := W.server) (con.tunnel.arrived seg env)
      { env with registered := fun k => (c.pluginkeys k).isSome }
    obtain ⟨hdup, hreg⟩ := parseMessages_outcome (S := W.server) (con.tunnel.arrived seg env)
      { env with registered := fun k => (c.pluginkeys k).isSome }
    exact .messages hst hdup hreg (hkst.trans hst) hkey

/-! ## §2 Sound entries -/

/-- The connection has authenticated with the key `k`. -/
def AuthenticatedAs (con : Connection) (k : Bytes) : Prop :=
  con.tunnel.cc.state = .established ∧ con.pluginkey = k ∧
    ∃ key : Bytes, key.length = 8 ∧ k = base16 key

/-- **Every entry stands for a connection that has authenticated with its key.** -/
def RegistrySound (c : Core) : Prop :=
  ∀ k id, c.pluginkeys k = some id → ∃ con, c.connections id = some con ∧ AuthenticatedAs con k

/-- The two connections have the same state and the same string. -/
def SameKey (a b : Connection) : Prop :=
  b.tunnel.cc.state = a.tunnel.cc.state ∧ b.pluginkey = a.pluginkey

theorem SameKey.authenticatedAs {a b : Connection} {k : Bytes} (h : SameKey a b)
    (ha : AuthenticatedAs a k) : AuthenticatedAs b k :=
  ⟨h.1.trans ha.1, h.2.trans ha.2.1, ha.2.2⟩

/-- The registry depends on the states and strings of the connections only. -/
theorem RegistrySound.congr {c' : Core} (h : RegistrySound c) (hkeys : c'.pluginkeys = c.pluginkeys)
    (hconn : ∀ id con, c.connections id = some con →
      ∃ con', c'.connections id = some con' ∧ SameKey con con') : RegistrySound c' := by
  intro k id hk
  rw [hkeys] at hk
  obtain ⟨con, hc, hauth⟩ := h k id hk
  obtain ⟨con', hc', hsame⟩ := hconn id con hc
  exact ⟨con', hc', hsame.authenticatedAs hauth⟩

/-- One connection is replaced by another with the same state and string. -/
theorem RegistrySound.setConnection (h : RegistrySound c) {con con' : Connection}
    (hc : c.connections id = some con) (hs : SameKey con con') :
    RegistrySound (c.setConnection id con') := by
  refine h.congr rfl fun i con₁ h₁ => ?_
  by_cases hi : i = id
  · subst hi
    rw [hc] at h₁
    cases h₁
    exact ⟨con', setConnection_self _ _ _, hs⟩
  · exact ⟨con₁, (setConnection_ne con' hi).trans h₁, rfl, rfl⟩

theorem RegistrySound.quiet {c' : Core} (h : RegistrySound c) (hq : Quiet c c') :
    RegistrySound c' := by
  refine h.congr hq.pluginkeys fun i con₁ h₁ => ?_
  have hrel := hq.connections i
  rw [h₁] at hrel
  generalize c'.connections i = o at hrel
  cases hrel with
  | some hs => exact ⟨_, rfl, by rw [hs.tunnel], by unfold Connection.pluginkey; rw [hs.tunnel]⟩

/-- `free_connection` takes the entry of the connection with it. -/
theorem RegistrySound.free (h : RegistrySound c) {con : Connection}
    (hc : c.connections id = some con) : RegistrySound (c.freeConnection id con) := by
  intro k i hk
  have hk' : (if k = con.pluginkey then none else c.pluginkeys k) = some i := hk
  split at hk'
  · cases hk'
  · rename_i hne
    obtain ⟨con₁, h₁, hauth⟩ := h k i hk'
    have hi : i ≠ id := by
      rintro rfl
      rw [hc] at h₁
      cases h₁
      exact hne hauth.2.1.symm
    exact ⟨con₁, (if_neg hi : (c.freeConnection id con).connections i = _).trans h₁, hauth⟩

theorem RegistrySound.decref (h : RegistrySound c) : RegistrySound (c.decref id) := by
  unfold SploneBox.Core.decref
  split
  · rename_i con hc
    split
    · exact h.free hc
    · exact h.setConnection hc ⟨rfl, rfl⟩
  · exact h

theorem RegistrySound.modify (h : RegistrySound c) {f : Connection → Connection}
    (hf : ∀ con, SameKey con (f con)) : RegistrySound (c.modify id f) := by
  unfold SploneBox.Core.modify
  split
  · rename_i con hc
    exact h.setConnection hc (hf con)
  · exact h

theorem RegistrySound.connectionClose (h : RegistrySound c) : RegistrySound (c.connectionClose id) := by
  unfold SploneBox.Core.connectionClose
  split
  · exact h
  · rename_i con hc
    split
    · exact h.decref
    · exact h.setConnection hc ⟨rfl, rfl⟩

theorem RegistrySound.written (h : RegistrySound c) {con : Connection} (w : Write) (data : Bytes)
    (env : WriteEnv) (hc : c.connections w.con = some con) :
    RegistrySound (c.written con (SploneBox.cryptoWrite W.server con.tunnel.cc data env) w) := by
  obtain ⟨hframe, _, hst⟩ := cryptoWrite_frame (S := W.server) con.tunnel.cc data env
  refine RegistrySound.setConnection (c := c) h hc ⟨hst, ?_⟩
  show cstr (SploneBox.cryptoWrite W.server con.tunnel.cc data env).cc.pluginkeystring = con.pluginkey
  rw [hframe]
  rfl

/-- No entry stands for a connection that has not authenticated. -/
theorem RegistrySound.unregistered (h : RegistrySound c) (hc : c.connections id = some con)
    (hst : con.tunnel.cc.state ≠ .established) (k : Bytes) : c.pluginkeys k ≠ some id := by
  intro hk
  obtain ⟨con', hc', hauth⟩ := h k id hk
  rw [hc] at hc'
  cases hc'
  exact hst hauth.1

/-- A connection without an entry can be replaced by any other. -/
theorem RegistrySound.replace (h : RegistrySound c) (hno : ∀ k, c.pluginkeys k ≠ some id)
    (con' : Connection) : RegistrySound (c.setConnection id con') := by
  intro k i hk
  have hi : i ≠ id := by
    rintro rfl
    exact hno k hk
  obtain ⟨con₁, h₁, hauth⟩ := h k i hk
  exact ⟨con₁, (setConnection_ne con' hi).trans h₁, hauth⟩

/-- The move enters the string of a connection whose initiate packet was rejected. -/
def entersRejected (W : World) (c : Core) : Label → Bool
  | .read id seg env => (c.connections id).any fun con =>
      decide (con.tunnel.cc.state = .cookieSent) && !(initiated W con seg env).2 &&
        (c.pluginkeys con.pluginkey).isNone
  | _ => false

/-- The move brings an initiate packet that is rejected, or whose key is registered. -/
def refusesInitiate (W : World) (c : Core) : Label → Bool
  | .read id seg env => (c.connections id).any fun con =>
      decide (con.tunnel.cc.state = .cookieSent) && (!(initiated W con seg env).2 ||
        (c.pluginkeys (cstr (initiated W con seg env).1.pluginkeystring)).isSome)
  | _ => false

theorem RegistrySound.parsed (h : RegistrySound c) (hc : c.connections id = some con)
    (henter : entersRejected W c (.read id seg env) = false) :
    RegistrySound (c.parsed id con (c.parseData W con seg env)) := by
  have hreceipt := receipt W c con seg env
  generalize c.parseData W con seg env = r at hreceipt ⊢
  unfold SploneBox.Core.parsed
  cases hreceipt with
  | hello hst hout hreg hst' hkey =>
      rw [hreg]
      exact h.replace (h.unregistered hc (by rw [hst]; decide)) _
  | cleared hst hout hreg hknown hkey =>
      rw [hreg]
      exact h.replace (h.unregistered hc (by rw [hst]; decide)) _
  | rejected hst hok hout hreg hnew hst' hkey =>
      simp [entersRejected, hc, hst, hok, hnew] at henter
  | accepted hst hok hout hreg hnew hst' hstring hkey =>
      rw [hreg]
      intro k i hk
      have hno := h.unregistered hc (by rw [hst]; decide)
      have hk' : (if k = cstr r.tunnel.cc.pluginkeystring then some id else c.pluginkeys k) = some i :=
        hk
      split at hk'
      · rename_i heq
        cases hk'
        exact ⟨_, setConnection_self _ _ _, hst', heq.symm, by rw [heq]; exact hkey⟩
      · exact h.replace hno { con with tunnel := r.tunnel, refcount := con.refcount + 1 } k i hk'
  | messages hst hout hreg hst' hkey =>
      rw [hreg]
      refine h.setConnection hc ⟨hst'.trans hst.symm, ?_⟩
      show cstr r.tunnel.cc.pluginkeystring = con.pluginkey
      rw [hkey]
      rfl

theorem registry_returns (K : Core → Nat → Prop) : Returns K (fun _ c => RegistrySound c) where
  quiet := fun h hq => h.quiet hq
  decref := fun h => h.decref
  close := fun h _ _ _ _ => h.connectionClose
  pushParse := fun h _ => h

/-- **Entries stay sound** as long as no rejected packet enters one. -/
theorem registry_closed (W : World) (N : Aim) (K : Core → Nat → Prop) (F : Prop) :
    Closed W N K (fun c l => entersRejected W c l = false) F RegistrySound Ordered
      (fun _ c => RegistrySound c) where
  quiet := fun _ h hq => h.quiet hq
  stop := fun _ _ _ _ h => h
  crash := fun _ _ _ h => h
  exited := fun _ h _ => h
  pack := fun _ _ h => h
  clear := fun _ _ h => h
  unsent := fun _ h _ => h
  write := fun w data env _ h _ hc _ _ _ => h.written w data env hc
  answer := fun w data env _ _ h _ _ hc _ hid _ _ _ => by
    rw [← hid] at hc
    exact h.written w data env hc
  silent := fun _ h _ => h.decref
  lost := fun _ h _ _ _ => h
  decref := fun _ h => h.decref
  newRequest := fun {_ c _ _} _ _ _ _ h _ _ =>
    RegistrySound.modify (c := { c with received := c.received ++ [_] }) h fun _ => ⟨rfl, rfl⟩
  enqueue := fun _ h => h
  dequeue := fun _ h _ => h
  target := fun _ _ h _ _ _ hc => h.setConnection hc ⟨rfl, rfl⟩
  pushCall := fun _ _ _ _ h _ => h
  popCall := fun _ h _ => h
  pushLoop := fun _ h _ _ => h
  popLoop := fun _ h _ _ => h
  popParse := fun _ h _ => h
  close := fun _ h _ _ _ _ => h.connectionClose
  closeReturned := fun {c id rest} _ _ h _ => by
    have hreleased : RegistrySound
        ({ c with stack := rest }.modify id fun con => { con with released := true }) :=
      RegistrySound.modify (c := { c with stack := rest }) h fun _ => ⟨rfl, rfl⟩
    exact hreleased.decref.decref
  read := fun _ _ hG _ h hc hu _ _ hK hab => (registry_returns K).readCb (h.parsed hc hG) hu hK hab
  aborted := fun _ _ hG _ h hc _ => h.parsed hc hG
  eof := fun _ h hc hu hK => (registry_returns K).eofCb (h.setConnection hc ⟨rfl, rfl⟩) hK hu
  create := fun {c} env hb h _ => by
    refine RegistrySound.replace h (fun k hk => ?_) _
    obtain ⟨con, hc, _⟩ := h k c.nextConId hk
    rw [hb.2.fresh _ le_rfl] at hc
    cases hc
  tick := fun _ _ h hc _ => h.setConnection hc ⟨rfl, rfl⟩

/-! ## §3 What an initiate packet does to the registry -/

/-- The read callback behind a step. -/
theorem step_read_eq {c' : Core} (hs : c.step W (.read id seg env) = some c') :
    ∃ con, c.connections id = some con ∧ c' = c.readCb W id con seg env := by
  unfold Core.step at hs
  split at hs
  · cases hs
  dsimp only at hs
  split at hs
  · cases hs
  rename_i con hc
  split at hs
  · cases hs
  cases hs
  exact ⟨con, hc, rfl⟩

/-- The reference that a callback takes is not the last one. -/
theorem decref_taken {c : Core} {con : Connection} (hc : c.connections id = some con)
    (htwo : 2 ≤ con.refcount) :
    c.decref id = c.setConnection id { con with refcount := con.refcount - 1 } := by
  unfold decref
  rw [hc]
  exact if_neg (by omega)

/-- **A packet whose string is registered leaves the registry alone.** -/
theorem readCb_cleared (hpos : 0 < con.refcount)
    (hout : (c.parseData W con seg env).outcome = .duplicate)
    (hreg : (c.parseData W con seg env).register = false) :
    (c.readCb W id con seg env).pluginkeys = c.pluginkeys := by
  have hparsed : (c.parsed id con (c.parseData W con seg env)).pluginkeys = c.pluginkeys := by
    unfold parsed
    rw [hreg]
    rfl
  have hself := parsed_self c id con (c.parseData W con seg env)
  unfold readCb
  dsimp only
  rw [hout]
  dsimp only
  cases hcl : (c.parseData W con seg env).tunnel.closed with
  | true =>
      rw [connectionClose_closed hself hcl, decref_taken hself (by dsimp only; omega)]
      exact hparsed
  | false =>
      rw [connectionClose_open hself hcl]
      exact hparsed

/-- **A rejected packet whose string is not registered makes an unsound entry.** -/
theorem readCb_rejected (hpos : 0 < con.refcount) (hc : c.connections id = some con)
    (henter : entersRejected W c (.read id seg env) = true) :
    ¬ RegistrySound (c.readCb W id con seg env) := by
  simp only [entersRejected, hc, Option.any_some, Bool.and_eq_true, decide_eq_true_eq,
    Bool.not_eq_true', Option.isNone_iff_eq_none] at henter
  obtain ⟨⟨hst, hok⟩, hnew⟩ := henter
  have hreceipt := receipt W c con seg env
  have hself := parsed_self c id con (c.parseData W con seg env)
  unfold readCb
  dsimp only
  cases hreceipt with
  | hello hst' => exact absurd (hst.symm.trans hst') (by decide)
  | cleared _ _ _ hknown _ =>
      rw [initiated_rejected hok] at hknown
      have hnone : (c.pluginkeys con.pluginkey).isSome = true := hknown
      rw [hnew] at hnone
      cases hnone
  | rejected _ _ hout hreg _ hst' hkey =>
      rw [hout]
      dsimp only
      rw [decref_taken hself (by dsimp only; omega)]
      intro hsound
      have hentry : (c.parsed id con (c.parseData W con seg env)).pluginkeys
          (cstr (c.parseData W con seg env).tunnel.cc.pluginkeystring) = some id := by
        unfold parsed
        rw [hreg]
        exact if_pos rfl
      obtain ⟨con', hc', hauth⟩ := hsound _ id hentry
      rw [setConnection_self] at hc'
      cases hc'
      exact absurd (hst'.symm.trans hauth.1) (by decide)
  | accepted _ hok' => rw [hok] at hok'; cases hok'
  | messages hst' => exact absurd (hst.symm.trans hst') (by decide)

/-- The states of a run in which no rejected packet enters its string. -/
def Registered (c : Core) : Prop :=
  (Ordered [] c ∧ RegistrySound c) ∨ Ended RegistrySound c

theorem Registered.sound (h : Registered c) : RegistrySound c := by
  rcases h with h | h
  · exact h.2
  · exact h.1

theorem registered_init : Registered Core.init := Or.inl ⟨ordered_init, fun _ _ hk => (nomatch hk)⟩

theorem registered_step {c' : Core} {l : Label} (h : Registered c)
    (hG : entersRejected W c l = false) (hs : c.step W l = some c') : Registered c' := by
  rcases h with h | h
  · have hclosed := (ordered_closed W .any (fun _ _ => True) _ True).and
      (registry_closed W .any (fun _ _ => True) True)
    exact hclosed.step (fun h => h.1.1) h hs hG (aims_any W c l) (fun _ => trivial)
      fun _ _ _ _ _ _ => trivial
  · rw [step_of_halted h.2] at hs
    cases hs

/-- An initiate packet that is refused finds its string in the registry, or enters it. -/
theorem refused_unchanged {c' : Core} {l : Label} (hord : Ordered [] c)
    (hG : entersRejected W c l = false) (hrefuse : refusesInitiate W c l = true)
    (hs : c.step W l = some c') : c'.pluginkeys = c.pluginkeys := by
  cases l with
  | read id seg env =>
      obtain ⟨con, hc, rfl⟩ := step_read_eq hs
      have hpos := hord.2.positive id con hc
      simp only [refusesInitiate, hc, Option.any_some, Bool.and_eq_true, Bool.or_eq_true,
        decide_eq_true_eq, Bool.not_eq_true'] at hrefuse
      obtain ⟨hst, hrefuse⟩ := hrefuse
      cases receipt W c con seg env with
      | hello hst' => exact absurd (hst.symm.trans hst') (by decide)
      | cleared _ hout hreg => exact readCb_cleared hpos hout hreg
      | rejected _ hok _ _ hnew => simp [entersRejected, hc, hst, hok, hnew] at hG
      | accepted _ hok _ hreg hnew hst' hstring hkey =>
          rcases hrefuse with hno | hknown
          · rw [hok] at hno
            cases hno
          · rw [← hstring, hnew] at hknown
            cases hknown
      | messages hst' => exact absurd (hst.symm.trans hst') (by decide)
  | turn => cases hrefuse
  | accept env => cases hrefuse
  | eof id => cases hrefuse
  | tick id fresh => cases hrefuse

/-! ## §4 Entries that stay -/

/-- **Every connection that has authenticated is registered**, unless its key was registered already: then
its string has been cleared and it is closed. -/
def KeysHeld (c : Core) : Prop :=
  ∀ id con, c.connections id = some con → con.tunnel.cc.state = .established →
    (con.pluginkey = [] ∧ con.tunnel.closed = true) ∨
      (con.pluginkey ≠ [] ∧ c.pluginkeys con.pluginkey = some id)

/-- Nothing refers to a connection that has not authenticated but its own `connection_close`. -/
def Workless (k : List Hold) (c : Core) : Prop :=
  ∀ id con, c.connections id = some con → con.tunnel.cc.state ≠ .established →
    queueRefs c.queue id + stackRefs c.stack id + heldRefs k id ≤ 2 * closes c.stack id

/-- A connection whose string can be deleted: it has authenticated, or its string is no key. -/
def Deletable (c : Core) (id : Nat) : Prop :=
  ∀ con, c.connections id = some con →
    con.tunnel.cc.state = .established ∨ c.pluginkeys con.pluginkey = none

theorem KeysHeld.congr {c' : Core} (h : KeysHeld c) (hkeys : c'.pluginkeys = c.pluginkeys)
    (hconn : ∀ id con', c'.connections id = some con' → ∃ con, c.connections id = some con ∧
      SameKey con con' ∧ (con.tunnel.closed = true → con'.tunnel.closed = true)) : KeysHeld c' := by
  intro id con' hc' hest
  obtain ⟨con, hc, hsame, hcl⟩ := hconn id con' hc'
  rw [hkeys, hsame.2]
  rcases h id con hc (hsame.1.symm.trans hest) with ⟨hnil, hclosed⟩ | hreg
  · exact Or.inl ⟨hnil, hcl hclosed⟩
  · exact Or.inr hreg

/-- One connection is replaced. -/
theorem KeysHeld.setConnection (h : KeysHeld c) {con con' : Connection}
    (hc : c.connections id = some con) (hs : SameKey con con')
    (hcl : con.tunnel.closed = true → con'.tunnel.closed = true) :
    KeysHeld (c.setConnection id con') := by
  refine h.congr rfl fun i con₁ h₁ => ?_
  rcases setConnection_cases h₁ with ⟨rfl, rfl⟩ | ⟨_, h₁⟩
  · exact ⟨con, hc, hs, hcl⟩
  · exact ⟨con₁, h₁, ⟨rfl, rfl⟩, fun h => h⟩

theorem Quiet.back {c c' : Core} {con' : Connection} (hq : Quiet c c')
    (hc' : c'.connections id = some con') :
    ∃ con, c.connections id = some con ∧ SameConn con con' := by
  have hrel := hq.connections id
  rw [hc'] at hrel
  generalize c.connections id = o at hrel
  cases hrel with
  | some hs => exact ⟨_, rfl, hs⟩

theorem SameConn.sameKey {a b : Connection} (h : SameConn a b) : SameKey a b := by
  refine ⟨by rw [h.tunnel], ?_⟩
  unfold Connection.pluginkey
  rw [h.tunnel]

theorem KeysHeld.quiet {c' : Core} (h : KeysHeld c) (hq : Quiet c c') : KeysHeld c' := by
  refine h.congr hq.pluginkeys fun i con' hc' => ?_
  obtain ⟨con, hc, hs⟩ := hq.back hc'
  exact ⟨con, hc, hs.sameKey, fun hcl => by rw [hs.tunnel]; exact hcl⟩

theorem KeysHeld.free (h : KeysHeld c) {con : Connection} (hc : c.connections id = some con)
    (hd : Deletable c id) : KeysHeld (c.freeConnection id con) := by
  intro i con₁ h₁ hest
  have hi : i ≠ id := by
    rintro rfl
    have hgone : (c.freeConnection i con).connections i = none := if_pos rfl
    rw [hgone] at h₁
    cases h₁
  have h₁ : c.connections i = some con₁ :=
    (if_neg hi : (c.freeConnection id con).connections i = _).symm.trans h₁
  rcases h i con₁ h₁ hest with hcleared | ⟨hne, hreg⟩
  · exact Or.inl hcleared
  · refine Or.inr ⟨hne, ?_⟩
    have hother : con₁.pluginkey ≠ con.pluginkey := by
      intro heq
      rw [heq] at hreg hne
      rcases hd con hc with hest' | hnone
      · rcases h id con hc hest' with ⟨hnil, _⟩ | ⟨_, hreg'⟩
        · exact hne hnil
        · rw [hreg] at hreg'
          exact hi (Option.some.inj hreg')
      · rw [hnone] at hreg
        cases hreg
    exact (if_neg hother : (c.freeConnection id con).pluginkeys con₁.pluginkey = _).trans hreg

theorem KeysHeld.decref (h : KeysHeld c) (hd : Deletable c id) : KeysHeld (c.decref id) := by
  unfold SploneBox.Core.decref
  split
  · rename_i con hc
    split
    · exact h.free hc hd
    · exact h.setConnection hc ⟨rfl, rfl⟩ fun h => h
  · exact h

theorem Deletable.decref (h : Deletable c id) : Deletable (c.decref id) id := by
  unfold SploneBox.Core.decref
  split
  · rename_i con hc
    split
    · intro con' hc'
      have hgone : (c.freeConnection id con).connections id = none := if_pos rfl
      rw [hgone] at hc'
      cases hc'
    · intro con' hc'
      rw [setConnection_self] at hc'
      cases hc'
      exact h con hc
  · exact h

theorem Workless.congr {k k' : List Hold} {c' : Core} (h : Workless k c)
    (hconn : ∀ id con', c'.connections id = some con' → con'.tunnel.cc.state ≠ .established →
      ∃ con, c.connections id = some con ∧ con.tunnel.cc.state ≠ .established)
    (hrefs : ∀ id, queueRefs c'.queue id + stackRefs c'.stack id + heldRefs k' id +
        2 * closes c.stack id ≤
      queueRefs c.queue id + stackRefs c.stack id + heldRefs k id + 2 * closes c'.stack id) :
    Workless k' c' := by
  intro id con' hc' hst
  obtain ⟨con, hc, hst'⟩ := hconn id con' hc' hst
  have hle := h id con hc hst'
  have hmove := hrefs id
  omega

/-- Only these parts of a core matter for a move of references. -/
theorem Workless.move {k k' : List Hold} (h : Workless k c) (queue : List RequestEvent)
    (stack : List Frame)
    (hrefs : ∀ id, queueRefs queue id + stackRefs stack id + heldRefs k' id +
        2 * closes c.stack id ≤
      queueRefs c.queue id + stackRefs c.stack id + heldRefs k id + 2 * closes stack id) :
    Workless k' { c with queue := queue, stack := stack } :=
  h.congr (fun _ con' hc' hst => ⟨con', hc', hst⟩) hrefs

theorem Workless.hold {k k' : List Hold} (h : Workless k c)
    (hk : ∀ i, heldRefs k' i ≤ heldRefs k i) : Workless k' c :=
  h.congr (fun _ con' hc' hst => ⟨con', hc', hst⟩) fun id => by
    have hle := hk id
    omega

theorem Workless.setConnection {k : List Hold} (h : Workless k c) {con con' : Connection}
    (hc : c.connections id = some con) (hs : con'.tunnel.cc.state = con.tunnel.cc.state) :
    Workless k (c.setConnection id con') := by
  refine h.congr (fun i con₁ h₁ hst => ?_) fun i => le_rfl
  rcases setConnection_cases h₁ with ⟨rfl, rfl⟩ | ⟨_, h₁⟩
  · exact ⟨con, hc, by rw [← hs]; exact hst⟩
  · exact ⟨con₁, h₁, hst⟩

theorem Workless.decref {k : List Hold} (h : Workless k c) : Workless k (c.decref id) := by
  unfold SploneBox.Core.decref
  split
  · rename_i con hc
    split
    · refine h.congr (fun i con₁ h₁ hst => ?_) fun i => ?_
      · by_cases hi : i = id
        · have hgone : (c.freeConnection id con).connections i = none := if_pos hi
          rw [hgone] at h₁
          cases h₁
        · have hsame : (c.freeConnection id con).connections i = c.connections i := if_neg hi
          exact ⟨con₁, hsame.symm.trans h₁, hst⟩
      · have hle : queueRefs (c.freeConnection id con).queue i ≤ queueRefs c.queue i :=
          List.Sublist.countP_le List.filter_sublist
        have hst : (c.freeConnection id con).stack = c.stack := rfl
        rw [hst]
        omega
    · exact h.setConnection hc rfl
  · exact h

/-- **What the running code works for has authenticated.** -/
theorem Workless.established {k : List Hold} (h : Workless k c) (hh : Held k c id)
    (hc : c.connections id = some con) : con.tunnel.cc.state = .established := by
  by_contra hst
  have hle := h id con hc hst
  have htwo := two_closes_le id c.stack
  rcases hh with ⟨x, hx, hid⟩ | hp
  · have hpos := heldRefs_pos hx (Hold.con_of_user hid)
    omega
  · have hlt := two_closes_lt hp
    omega

/-- What is kept in a run that enters no rejected packet and deletes no key by accident. -/
structure Kept (k : List Hold) (c : Core) : Prop where
  keys : KeysHeld c
  work : Workless k c

theorem Kept.setConnection {k : List Hold} (h : Kept k c) {con con' : Connection}
    (hc : c.connections id = some con) (hs : SameKey con con')
    (hcl : con.tunnel.closed = true → con'.tunnel.closed = true) :
    Kept k (c.setConnection id con') :=
  ⟨h.keys.setConnection hc hs hcl, h.work.setConnection hc hs.1⟩

theorem Kept.move {k k' : List Hold} (h : Kept k c) (queue : List RequestEvent) (stack : List Frame)
    (hrefs : ∀ id, queueRefs queue id + stackRefs stack id + heldRefs k' id +
        2 * closes c.stack id ≤
      queueRefs c.queue id + stackRefs c.stack id + heldRefs k id + 2 * closes stack id) :
    Kept k' { c with queue := queue, stack := stack } :=
  ⟨h.keys, h.work.move queue stack hrefs⟩

theorem Kept.hold {k k' : List Hold} (h : Kept k c) (hk : ∀ i, heldRefs k' i ≤ heldRefs k i) :
    Kept k' c := ⟨h.keys, h.work.hold hk⟩

theorem Kept.quiet {k : List Hold} {c' : Core} (h : Kept k c) (hq : Quiet c c') : Kept k c' := by
  refine ⟨h.keys.quiet hq, h.work.congr (fun i con' hc' hst => ?_) fun i => ?_⟩
  · obtain ⟨con, hc, hs⟩ := hq.back hc'
    exact ⟨con, hc, by rw [← hs.sameKey.1]; exact hst⟩
  · rw [hq.queue, hq.stack]

theorem Kept.decref {k : List Hold} (h : Kept (.ref id :: k) c) : Kept k (c.decref id) := by
  have hd : Deletable c id := fun con hc =>
    Or.inl (h.work.established (Or.inl ⟨.ref id, List.mem_cons_self, rfl⟩) hc)
  refine ⟨h.keys.decref hd, (h.work.hold fun i => ?_).decref⟩
  rw [heldRefs_ref]
  omega

theorem Kept.written {k : List Hold} (h : Kept k c) {con : Connection} (w : Write) (data : Bytes)
    (env : WriteEnv) (hc : c.connections w.con = some con) :
    Kept k (c.written con (SploneBox.cryptoWrite W.server con.tunnel.cc data env) w) := by
  obtain ⟨hframe, _, hst⟩ := cryptoWrite_frame (S := W.server) con.tunnel.cc data env
  have hset : Kept k (c.setConnection w.con { con with
      tunnel := afterWrite con.tunnel (SploneBox.cryptoWrite W.server con.tunnel.cc data env) }) := by
    refine h.setConnection hc ⟨hst, ?_⟩ fun h => h
    show cstr (SploneBox.cryptoWrite W.server con.tunnel.cc data env).cc.pluginkeystring = con.pluginkey
    rw [hframe]
    rfl
  exact ⟨hset.keys, hset.work⟩

/-- A connection and the stack above it are replaced; the new connection is registered or cleared. -/
theorem Kept.update (h : Kept [] c) {c' : Core} {con' : Connection}
    (hself : c'.connections id = some con') (hother : ∀ i, i ≠ id → c'.connections i = c.connections i)
    (hqueue : c'.queue = c.queue)
    (hkeys : ∀ i con₁, i ≠ id → c.connections i = some con₁ → con₁.pluginkey ≠ [] →
      c.pluginkeys con₁.pluginkey = some i → c'.pluginkeys con₁.pluginkey = some i)
    (hheld : con'.tunnel.cc.state = .established →
      (con'.pluginkey = [] ∧ con'.tunnel.closed = true) ∨
        (con'.pluginkey ≠ [] ∧ c'.pluginkeys con'.pluginkey = some id))
    (hstack : ∀ i, i ≠ id → stackRefs c'.stack i = stackRefs c.stack i ∧
      closes c'.stack i = closes c.stack i)
    (hidle : con'.tunnel.cc.state ≠ .established →
      queueRefs c.queue id + stackRefs c'.stack id ≤ 2 * closes c'.stack id) : Kept [] c' := by
  refine ⟨fun i con₁ h₁ hest => ?_, fun i con₁ h₁ hst => ?_⟩
  · by_cases hi : i = id
    · subst hi
      rw [hself] at h₁
      cases h₁
      exact hheld hest
    · rw [hother i hi] at h₁
      rcases h.keys i con₁ h₁ hest with hcleared | ⟨hne, hreg⟩
      · exact Or.inl hcleared
      · exact Or.inr ⟨hne, hkeys i con₁ hi h₁ hne hreg⟩
  · rw [hqueue]
    by_cases hi : i = id
    · subst hi
      rw [hself] at h₁
      cases h₁
      exact hidle hst
    · rw [hother i hi] at h₁
      rw [(hstack i hi).1, (hstack i hi).2]
      exact h.work i con₁ h₁ hst

theorem cstr_zeros (n : Nat) : cstr (zeros n) = [] := by
  cases n with
  | zero => rfl
  | succ n => rfl

theorem base16_ne_nil {key : Bytes} (h : key.length = 8) : base16 key ≠ [] := by
  intro hnil
  have hlen := base16_length key
  rw [hnil, h] at hlen
  cases hlen

theorem parsed_ne (r : ParseResult) {i : Nat} (hi : i ≠ id) :
    (c.parsed id con r).connections i = c.connections i := by
  unfold parsed
  dsimp only
  split <;> exact setConnection_ne _ hi

theorem parsed_keys (r : ParseResult) (k : Bytes) : (c.parsed id con r).pluginkeys k =
    if r.register then
      if k = cstr r.tunnel.cc.pluginkeystring then some id else c.pluginkeys k
    else c.pluginkeys k := by
  unfold parsed
  dsimp only
  split <;> rfl

theorem parsed_queue (r : ParseResult) : (c.parsed id con r).queue = c.queue := by
  unfold parsed
  dsimp only
  split <;> rfl

/-- What the receiving half leaves of a connection that does not get a new frame. -/
structure Settled (c : Core) (id : Nat) (con : Connection) (r : ParseResult) (c' : Core) : Prop where
  self : ∃ con', c'.connections id = some con' ∧ con'.tunnel.cc = r.tunnel.cc ∧
    (r.outcome = .duplicate ∨ con.tunnel.closed = true → con'.tunnel.closed = true)
  other : ∀ i, i ≠ id → c'.connections i = c.connections i
  queue : c'.queue = c.queue
  keys : c'.pluginkeys = (c.parsed id con r).pluginkeys
  stack : c'.stack = c.stack ∨ c'.stack = .close id :: c.stack ∨
    (∃ plain, r.outcome = .decode plain) ∧ c'.stack = .parse id :: c.stack

theorem readCb_settled (hpos : 0 < con.refcount)
    (hab : (c.parseData W con seg env).outcome ≠ .aborted) :
    Settled c id con (c.parseData W con seg env) (c.readCb W id con seg env) := by
  have hself := parsed_self c id con (c.parseData W con seg env)
  have hother : ∀ i, i ≠ id → (c.parsed id con (c.parseData W con seg env)).connections i =
      c.connections i := fun i hi => parsed_ne _ hi
  have hqueue : (c.parsed id con (c.parseData W con seg env)).queue = c.queue := parsed_queue _
  have hstack := parsed_stack c id con (c.parseData W con seg env)
  have hflag := parseData_closed W c con seg env
  have hclosed : (c.parseData W con seg env).outcome ≠ .duplicate →
      (c.parseData W con seg env).outcome = .duplicate ∨ con.tunnel.closed = true →
      (c.parseData W con seg env).tunnel.closed = true := by
    rintro hne (hdup | hcl)
    · exact absurd hdup hne
    · exact hflag.trans hcl
  unfold readCb
  dsimp only
  cases hout : (c.parseData W con seg env).outcome with
  | ended =>
      dsimp only
      rw [decref_taken hself (by dsimp only; omega)]
      exact ⟨⟨_, setConnection_self _ _ _, rfl, hclosed (by rw [hout]; simp)⟩,
        fun i hi => (setConnection_ne _ hi).trans (hother i hi), hqueue, rfl, Or.inl hstack⟩
  | duplicate =>
      dsimp only
      cases hcl : (c.parseData W con seg env).tunnel.closed with
      | true =>
          rw [connectionClose_closed hself hcl, decref_taken hself (by dsimp only; omega)]
          exact ⟨⟨_, setConnection_self _ _ _, rfl, fun _ => hcl⟩,
            fun i hi => (setConnection_ne _ hi).trans (hother i hi), hqueue, rfl, Or.inl hstack⟩
      | false =>
          rw [connectionClose_open hself hcl]
          exact ⟨⟨_, setConnection_self _ _ _, rfl, fun _ => rfl⟩,
            fun i hi => (setConnection_ne _ hi).trans (hother i hi), hqueue, rfl,
            Or.inr (Or.inl (congrArg _ hstack))⟩
  | aborted => exact absurd hout hab
  | decode plain =>
      have hmod : ((c.parsed id con (c.parseData W con seg env)).modify id
          fun con => { con with mpac := con.mpac ++ plain }) =
          (c.parsed id con (c.parseData W con seg env)).setConnection id
            { con with
              tunnel := (c.parseData W con seg env).tunnel
              refcount := con.refcount + 1
              mpac := con.mpac ++ plain } := by
        unfold modify
        rw [hself]
      dsimp only
      rw [hmod]
      exact ⟨⟨_, setConnection_self _ _ _, rfl, hclosed (by rw [hout]; simp)⟩,
        fun i hi => (setConnection_ne _ hi).trans (hother i hi), hqueue, rfl,
        Or.inr (Or.inr ⟨⟨plain, hout⟩, congrArg _ hstack⟩)⟩

/-- **What data does to the keys**, when no rejected packet is entered. -/
theorem Kept.read (h : Kept [] c) (hpos : 0 < con.refcount) (hc : c.connections id = some con)
    (hG : entersRejected W c (.read id seg env) = false)
    (hab : (c.parseData W con seg env).outcome ≠ .aborted) :
    Kept [] (c.readCb W id con seg env) := by
  have hset : Settled c id con (c.parseData W con seg env) (c.readCb W id con seg env) :=
    readCb_settled hpos hab
  have hreceipt := receipt W c con seg env
  have hold : con.tunnel.cc.state ≠ .established →
      queueRefs c.queue id + stackRefs c.stack id ≤ 2 * closes c.stack id := by
    intro hst
    exact h.work id con hc hst
  generalize c.readCb W id con seg env = c' at hset ⊢
  generalize c.parseData W con seg env = r at hset hreceipt
  obtain ⟨con', hc', hcc, hdup⟩ := hset.self
  have hkey : con'.pluginkey = cstr r.tunnel.cc.pluginkeystring := by
    unfold Connection.pluginkey
    rw [hcc]
  have hstack : ∀ i, i ≠ id → stackRefs c'.stack i = stackRefs c.stack i ∧
      closes c'.stack i = closes c.stack i := by
    intro i hi
    rcases hset.stack with hs | hs | ⟨_, hs⟩
    · rw [hs]
      exact ⟨rfl, rfl⟩
    · rw [hs, stackRefs_cons, closes_cons]
      simp [Frame.refs, Frame.isClose, Ne.symm hi]
    · rw [hs, stackRefs_cons, closes_cons]
      simp [Frame.refs, Frame.isClose, Ne.symm hi]
  -- a connection that has not authenticated gets no frame of the decode loop
  have hidle : con.tunnel.cc.state ≠ .established → (∀ plain, r.outcome ≠ .decode plain) →
      queueRefs c.queue id + stackRefs c'.stack id ≤ 2 * closes c'.stack id := by
    intro hst hplain
    have hle := hold hst
    rcases hset.stack with hs | hs | ⟨⟨plain, hs⟩, _⟩
    · rw [hs]
      exact hle
    · rw [hs, stackRefs_cons, closes_cons]
      simp only [Frame.refs, Frame.isClose, if_true, beq_self_eq_true]
      omega
    · exact absurd hs (hplain plain)
  have hsame : r.register = false → c'.pluginkeys = c.pluginkeys := by
    intro hreg
    rw [hset.keys]
    funext k
    rw [parsed_keys, hreg]
    rfl
  cases hreceipt with
  | hello hst hout hreg hst' hkey' =>
      refine h.update hc' hset.other hset.queue (fun i con₁ _ _ _ hr => by rw [hsame hreg]; exact hr)
        (fun hest => absurd (hcc ▸ hest) hst') hstack fun _ => ?_
      exact hidle (by rw [hst]; decide) (fun plain hp => by rw [hout] at hp; cases hp)
  | cleared hst hout hreg hknown hkey' =>
      refine h.update hc' hset.other hset.queue (fun i con₁ _ _ _ hr => by rw [hsame hreg]; exact hr)
        (fun _ => Or.inl ⟨?_, hdup (Or.inl hout)⟩) hstack fun _ => ?_
      · rw [hkey, hkey']
        exact cstr_zeros 17
      · exact hidle (by rw [hst]; decide) (fun plain hp => by rw [hout] at hp; cases hp)
  | rejected hst hok hout hreg hnew hst' hkey' =>
      simp [entersRejected, hc, hst, hok, hnew] at hG
  | accepted hst hok hout hreg hnew hst' hstring hkey' =>
      obtain ⟨key, hlen, hbase⟩ := hkey'
      have hentry : ∀ k, c'.pluginkeys k =
          if k = cstr r.tunnel.cc.pluginkeystring then some id else c.pluginkeys k := by
        intro k
        rw [hset.keys, parsed_keys, hreg]
        rfl
      refine h.update hc' hset.other hset.queue (fun i con₁ _ _ _ hr => ?_) (fun _ => Or.inr ⟨?_, ?_⟩)
        hstack fun hst₁ => ?_
      · rw [hentry, if_neg]
        · exact hr
        · intro heq
          rw [heq, hnew] at hr
          cases hr
      · rw [hkey, hbase]
        exact base16_ne_nil hlen
      · rw [hentry, hkey, if_pos rfl]
      · rw [hcc] at hst₁
        exact absurd hst' hst₁
  | messages hst hout hreg hst' hkey' =>
      have hpk : con'.pluginkey = con.pluginkey := by
        rw [hkey, hkey']
        rfl
      refine h.update hc' hset.other hset.queue (fun i con₁ _ _ _ hr => by rw [hsame hreg]; exact hr)
        (fun _ => ?_) hstack fun hst₁ => ?_
      · rw [hpk, hsame hreg]
        rcases h.keys id con hc hst with ⟨hnil, hcl⟩ | hr
        · exact Or.inl ⟨hnil, hdup (Or.inr hcl)⟩
        · exact Or.inr hr
      · rw [hcc] at hst₁
        exact absurd hst' hst₁

/-- The keys, when the process ends in the receiving half. -/
theorem KeysHeld.aborted (h : KeysHeld c) (hc : c.connections id = some con)
    (hab : (c.parseData W con seg env).outcome = .aborted) :
    KeysHeld ((c.parsed id con (c.parseData W con seg env)).stop .abort) := by
  have hreceipt := receipt W c con seg env
  have hflag := parseData_closed W c con seg env
  have hself := parsed_self c id con (c.parseData W con seg env)
  have hne : ∀ i, i ≠ id → (c.parsed id con (c.parseData W con seg env)).connections i =
      c.connections i := fun i hi => parsed_ne _ hi
  have hkeys : ∀ k, (c.parsed id con (c.parseData W con seg env)).pluginkeys k = _ := parsed_keys _
  generalize c.parseData W con seg env = r at *
  intro i con₁ h₁ hest
  have h₁ : (c.parsed id con r).connections i = some con₁ := h₁
  show _ ∨ (_ ∧ (c.parsed id con r).pluginkeys con₁.pluginkey = some i)
  rw [hkeys]
  cases hreceipt with
  | hello _ hout => rw [hab] at hout; cases hout
  | cleared _ hout => rw [hab] at hout; cases hout
  | rejected _ _ hout => rw [hab] at hout; cases hout
  | accepted hst hok hout hreg hnew hst' hstring hkey =>
      obtain ⟨key, hlen, hbase⟩ := hkey
      rw [hreg, if_pos rfl]
      by_cases hi : i = id
      · subst hi
        rw [hself] at h₁
        cases h₁
        refine Or.inr ⟨?_, if_pos rfl⟩
        show cstr r.tunnel.cc.pluginkeystring ≠ []
        rw [hbase]
        exact base16_ne_nil hlen
      · rw [hne i hi] at h₁
        rcases h i con₁ h₁ hest with hcleared | ⟨hnil, hr⟩
        · exact Or.inl hcleared
        · refine Or.inr ⟨hnil, ?_⟩
          rw [if_neg]
          · exact hr
          · intro heq
            rw [heq, hnew] at hr
            cases hr
  | messages hst hout hreg hst' hkey =>
      rw [hreg, if_neg (by simp)]
      by_cases hi : i = id
      · subst hi
        rw [hself] at h₁
        cases h₁
        have hpk : ({ con with tunnel := r.tunnel, refcount := con.refcount + 1 } :
            Connection).pluginkey = con.pluginkey := by
          unfold Connection.pluginkey
          dsimp only
          rw [hkey]
        rw [hpk]
        rcases h i con hc hst with ⟨hnil, hcl⟩ | hr
        · exact Or.inl ⟨hnil, hflag.trans hcl⟩
        · exact Or.inr hr
      · rw [hne i hi] at h₁
        exact h i con₁ h₁ hest

/-- The running code takes something for a connection that has authenticated. -/
theorem Kept.take {k : List Hold} (h : Kept k c) {x : Hold} (hx : x.con = some id)
    (hest : ∀ con, c.connections id = some con → con.tunnel.cc.state = .established) :
    Kept (x :: k) c := by
  refine ⟨h.keys, fun i con hc hst => ?_⟩
  have hi : i ≠ id := by
    rintro rfl
    exact hst (hest con hc)
  have hheld : heldRefs (x :: k) i = heldRefs k i := by
    simp [heldRefs, hx, Ne.symm hi]
  rw [hheld]
  exact h.work i con hc hst

/-- The move deletes the string of a connection that has not authenticated, and it is a key. -/
def deletesOther (c : Core) : Label → Bool
  | .turn =>
      match c.stack with
      | .close id :: _ => (c.connections id).any fun con =>
          decide (con.tunnel.cc.state ≠ .established) && (c.pluginkeys con.pluginkey).isSome
      | _ => false
  | _ => false

theorem Kept.closeReturned (h : Kept [] c) {rest : List Frame} (hs : c.stack = .close id :: rest)
    (hG : deletesOther c .turn = false) : Kept [] ({ c with stack := rest }.closeReturned id) := by
  have hpop : Kept [] { c with stack := rest } := by
    refine h.move c.queue rest fun i => ?_
    rw [hs, stackRefs_cons, closes_cons]
    simp only [Frame.refs, Frame.isClose, beq_iff_eq]
    split <;> omega
  have hdel : Deletable c id := by
    intro con hc
    simp only [deletesOther, hs, hc, Option.any_some, Bool.and_eq_false_iff, decide_eq_false_iff_not,
      not_not, Option.isSome_eq_false_iff, Option.isNone_iff_eq_none] at hG
    exact hG
  have hrel : Kept [] ({ c with stack := rest }.modify id fun con => { con with released := true }) ∧
      Deletable ({ c with stack := rest }.modify id fun con => { con with released := true }) id := by
    unfold modify
    split
    · rename_i con hc
      refine ⟨hpop.setConnection hc ⟨rfl, rfl⟩ fun h => h, fun con' hc' => ?_⟩
      rw [setConnection_self] at hc'
      cases hc'
      exact hdel con hc
    · exact ⟨hpop, hdel⟩
  have hone := hrel.1.keys.decref hrel.2
  exact ⟨hone.decref hrel.2.decref, hrel.1.work.decref.decref⟩

theorem Kept.connectionClose (h : Kept [.ref id] c) (hc : c.connections id = some con)
    (ho : con.tunnel.closed = false) : Kept [] (c.connectionClose id) := by
  have hset : Kept [.ref id]
      (c.setConnection id { con with tunnel := { con.tunnel with closed := true } }) :=
    h.setConnection hc ⟨rfl, rfl⟩ fun _ => rfl
  rw [connectionClose_open hc ho]
  refine hset.move c.queue (.close id :: c.stack) fun i => ?_
  simp only [SploneBox.Core.setConnection, stackRefs_cons, closes_cons, heldRefs_ref, Frame.refs,
    Frame.isClose, beq_iff_eq]
  have hnil : heldRefs [] i = 0 := rfl
  split <;> omega

theorem Kept.eofCb (h : Kept [] c) (hpos : 0 < con.refcount) (hc : c.connections id = some con) :
    Kept [] (c.eofCb id con) := by
  cases ho : con.tunnel.closed with
  | true => exact h.quiet (quiet_eofCb hc ho hpos)
  | false =>
      have hset : Kept [] (c.setConnection id
          { con with refcount := con.refcount + 1, reading := false }) :=
        h.setConnection hc ⟨rfl, rfl⟩ fun h => h
      have hset' : Kept [] ((c.setConnection id
          { con with refcount := con.refcount + 1, reading := false }).setConnection id
          { con with
            tunnel := { con.tunnel with closed := true }
            refcount := con.refcount + 1
            reading := false }) :=
        hset.setConnection (setConnection_self _ _ _) ⟨rfl, rfl⟩ fun _ => rfl
      rw [eofCb_open ho]
      refine hset'.move c.queue (.close id :: c.stack) fun i => ?_
      simp only [SploneBox.Core.setConnection, stackRefs_cons, closes_cons, Frame.refs, Frame.isClose,
        beq_iff_eq]
      split <;> omega

theorem Kept.create (h : Kept [] c) (hb : Balanced [] c) (env : CreateEnv) :
    Kept [] (c.create env) := by
  have hzero := hb.covered c.nextConId
  unfold refs at hzero
  rw [hb.fresh _ le_rfl] at hzero
  simp only [countOf, ownRef] at hzero
  refine h.update (setConnection_self _ _ _) (fun i hi => setConnection_ne _ hi) rfl
    (fun _ _ _ _ _ hr => hr) (fun hest => ?_) (fun _ _ => ⟨rfl, rfl⟩) fun _ => ?_
  · cases hest
  · show queueRefs c.queue c.nextConId + stackRefs c.stack c.nextConId ≤ _
    omega

/-- **Keys are kept** as long as no rejected packet is entered and no key is deleted with a connection
that has not authenticated. -/
theorem kept_closed (W : World) (N : Aim) (K : Core → Nat → Prop) (F : Prop) :
    Closed W N K (fun c l => entersRejected W c l = false ∧ deletesOther c l = false) F
      KeysHeld (fun k c => Ordered k c ∧ RegistrySound c) Kept where
  quiet := fun _ h hq => h.quiet hq
  stop := fun _ _ _ _ h => h.keys
  crash := fun _ _ _ h => h.keys
  exited := fun _ h _ => h.keys
  pack := fun m _ h => by
    have hk := h.hold fun i => (heldRefs_packed _ m i).le
    exact ⟨hk.keys, hk.work⟩
  clear := fun _ _ h => by
    have hk := h.hold fun i => (heldRefs_packed _ _ i).ge
    exact ⟨hk.keys, hk.work⟩
  unsent := fun _ h _ => h.hold fun i => by
    rw [heldRefs_packed, heldRefs_ref]
    omega
  write := fun w data env _ h _ hc _ _ _ => h.written w data env hc
  answer := fun w data env _ _ h _ _ hc _ hid _ _ _ => by
    rw [← hid] at hc
    refine (h.written w data env hc).hold fun i => ?_
    rw [heldRefs_packed, heldRefs_packed, heldRefs_ref, heldRefs_request]
  silent := fun {k c e} _ h _ => by
    have hspent : Kept (.ref e.con :: k) c := h.hold fun i => by rw [heldRefs_ref, heldRefs_request]
    exact hspent.decref
  lost := fun _ h _ _ _ => h.keys
  decref := fun _ h => h.decref
  newRequest := fun {k c id v} obj func args _ h hh _ => by
    have hest : ∀ con, c.connections id = some con → con.tunnel.cc.state = .established :=
      fun con hc => h.work.established hh hc
    have htake : Kept (.request ⟨id, c.received.length, func, args, v.responseId⟩ :: k)
        { c with received := c.received ++ [⟨id, obj, v.responseId⟩] } := by
      have ht := h.take (x := .request ⟨id, c.received.length, func, args, v.responseId⟩) rfl hest
      exact ⟨ht.keys, ht.work⟩
    unfold newRequest incref modify
    split
    · rename_i con hc
      exact htake.setConnection hc ⟨rfl, rfl⟩ fun h => h
    · exact htake
  enqueue := fun _ h => h.move _ _ fun i => by
    rw [heldRefs_request, queueRefs_append]
    omega
  dequeue := fun _ h ht => h.move _ _ fun i => by
    rw [heldRefs_request, queueRefs_takeEvent i ht]
    omega
  target := fun {k c id con key _ _} msgid hb h _ _ hkey hc => by
    have hest : ∀ con', c.connections id = some con' → con'.tunnel.cc.state = .established := by
      intro con' hc'
      obtain ⟨con₁, h₁, hauth⟩ := hb.2 key id hkey
      rw [hc'] at h₁
      cases h₁
      exact hauth.1
    exact (h.take (x := .ref id) rfl hest).setConnection hc ⟨rfl, rfl⟩ fun h => h
  pushCall := fun _ _ _ _ h _ => h.move _ _ fun i => by
    rw [stackRefs_cons, closes_cons, heldRefs_ref, heldRefs_request]
    simp only [Frame.refs, Frame.isClose]
    omega
  popCall := fun _ h hs => h.move _ _ fun i => by
    rw [hs, stackRefs_cons, closes_cons, heldRefs_ref, heldRefs_request]
    simp only [Frame.refs, Frame.isClose, Bool.false_eq_true, if_false]
    omega
  pushLoop := fun _ h _ hf => h.move _ _ fun i => by
    rw [stackRefs_cons, closes_cons]
    cases hf <;> simp [Frame.refs, Frame.isClose]
  popLoop := fun _ h hs hf => h.move _ _ fun i => by
    rw [hs, stackRefs_cons, closes_cons]
    cases hf <;> simp [Frame.refs, Frame.isClose]
  popParse := fun _ h hs => h.move _ _ fun i => by
    rw [hs, stackRefs_cons, closes_cons, heldRefs_ref]
    simp only [Frame.refs, Frame.isClose, Bool.false_eq_true, if_false]
    omega
  close := fun _ h hc ho _ _ => h.connectionClose hc ho
  closeReturned := fun hG _ h hs => h.closeReturned hs hG.2
  read := fun _ _ hG hb h hc _ _ _ _ hab => h.read (hb.1.2.positive _ _ hc) hc hG.1 hab
  aborted := fun _ _ _ _ h hc ho => h.keys.aborted hc ho
  eof := fun hb h hc _ _ => h.eofCb (hb.1.2.positive _ _ hc) hc
  create := fun env hb h _ => h.create hb.1.2 env
  tick := fun _ _ h hc _ => h.setConnection hc ⟨rfl, rfl⟩ fun h => h

/-! ## §5 One registered connection -/

/-- The connection `id` is in the table with the key `k`, and open or in its `connection_close`. -/
def Follows (id : Nat) (k : Bytes) (c : Core) : Prop :=
  ∃ con, c.connections id = some con ∧ con.tunnel.cc.state = .established ∧ con.pluginkey = k ∧
    (con.tunnel.closed = false ∨ 0 < closes c.stack id)

/-- The end of the process leaves the connection in the table. -/
def FollowsEnd (id : Nat) (k : Bytes) (c : Core) : Prop :=
  ∃ con, c.connections id = some con ∧ con.tunnel.cc.state = .established ∧ con.pluginkey = k

theorem Follows.ended {k : Bytes} (h : Follows id k c) : FollowsEnd id k c := by
  obtain ⟨con, hc, hest, hkey, _⟩ := h
  exact ⟨con, hc, hest, hkey⟩

/-- A connection is replaced, and `connection_close` does not return. -/
theorem Follows.congr {k : Bytes} {c' : Core} (h : Follows id k c)
    (hconn : ∀ con, c.connections id = some con → ∃ con', c'.connections id = some con' ∧
      SameKey con con' ∧
      (con.tunnel.closed = false → con'.tunnel.closed = false ∨ 0 < closes c'.stack id))
    (hstack : closes c.stack id ≤ closes c'.stack id) : Follows id k c' := by
  obtain ⟨con, hc, hest, hkey, hopen⟩ := h
  obtain ⟨con', hc', hsame, hcl⟩ := hconn con hc
  refine ⟨con', hc', hsame.1.trans hest, hsame.2.trans hkey, ?_⟩
  rcases hopen with ho | hpos
  · exact hcl ho
  · exact Or.inr (by omega)

theorem Follows.setConnection {k : Bytes} {i : Nat} (h : Follows id k c) {con con' : Connection}
    (hc : c.connections i = some con) (hs : SameKey con con')
    (hcl : con'.tunnel.closed = con.tunnel.closed) : Follows id k (c.setConnection i con') := by
  refine h.congr (fun con₁ h₁ => ?_) le_rfl
  by_cases hi : id = i
  · subst hi
    rw [hc] at h₁
    cases h₁
    exact ⟨con', setConnection_self _ _ _, hs, fun ho => Or.inl (hcl.trans ho)⟩
  · exact ⟨con₁, (setConnection_ne con' hi).trans h₁, ⟨rfl, rfl⟩, fun ho => Or.inl ho⟩

theorem Follows.move {k : Bytes} (h : Follows id k c) (queue : List RequestEvent)
    (stack : List Frame) (hs : closes c.stack id ≤ closes stack id) :
    Follows id k { c with queue := queue, stack := stack } :=
  h.congr (fun con hc => ⟨con, hc, ⟨rfl, rfl⟩, fun ho => Or.inl ho⟩) hs

theorem Follows.quiet {k : Bytes} {c' : Core} (h : Follows id k c) (hq : Quiet c c') :
    Follows id k c' := by
  refine h.congr (fun con hc => ?_) (by rw [hq.stack])
  have hrel := hq.connections id
  rw [hc] at hrel
  generalize c'.connections id = o at hrel
  cases hrel with
  | some hs => exact ⟨_, rfl, hs.sameKey, fun ho => Or.inl (by rw [hs.tunnel]; exact ho)⟩

/-- A connection that is not the last reference's stays. -/
theorem Follows.decref_other {k : Bytes} {i : Nat} (h : Follows id k c) (hi : id ≠ i) :
    Follows id k (c.decref i) := by
  refine h.congr (fun con hc => ⟨con, ?_, ⟨rfl, rfl⟩, fun ho => Or.inl ho⟩) (by rw [decref_stack])
  unfold SploneBox.Core.decref
  split
  · split
    · exact (if_neg hi).trans hc
    · exact (setConnection_ne _ hi).trans hc
  · exact hc

theorem Follows.decref_kept {k : Bytes} (h : Follows id k c)
    (htwo : ∀ con, c.connections id = some con → 2 ≤ con.refcount) : Follows id k (c.decref id) := by
  obtain ⟨con, hc, _⟩ := h.ended
  rw [decref_taken hc (htwo con hc)]
  exact h.setConnection hc ⟨rfl, rfl⟩ rfl

theorem Follows.decref {k : Bytes} {i : Nat} {hs : List Hold} (h : Follows id k c)
    (hb : Balanced (.ref i :: hs) c) : Follows id k (c.decref i) := by
  by_cases hi : id = i
  · subst hi
    refine h.decref_kept fun con hc => ?_
    have hcov := hb.covered id
    have hle := two_closes_le id c.stack
    unfold refs at hcov
    rw [hc, heldRefs_ref, if_pos rfl] at hcov
    simp only [countOf] at hcov
    obtain ⟨con₁, h₁, _, _, hopen⟩ := h
    rw [hc] at h₁
    cases h₁
    rcases hopen with ho | hpos
    · simp only [ownRef, ho, Bool.false_eq_true, if_false] at hcov
      omega
    · omega
  · exact h.decref_other hi

theorem Follows.connectionClose {k : Bytes} {i : Nat} (h : Follows id k c) {con : Connection}
    (hc : c.connections i = some con) (ho : con.tunnel.closed = false) :
    Follows id k (c.connectionClose i) := by
  rw [connectionClose_open hc ho]
  refine h.congr (fun con₁ h₁ => ?_) (by rw [closes_cons]; omega)
  by_cases hi : id = i
  · subst hi
    rw [hc] at h₁
    cases h₁
    refine ⟨_, setConnection_self _ _ _, ⟨rfl, rfl⟩, fun _ => Or.inr ?_⟩
    rw [closes_cons]
    simp [Frame.isClose]
  · exact ⟨con₁, (setConnection_ne _ hi).trans h₁, ⟨rfl, rfl⟩, fun ho => Or.inl ho⟩

/-- `connection_close` does not free a connection that is still open. -/
theorem Follows.closeReturned {k : Bytes} {i : Nat} {rest : List Frame} (h : Follows id k c)
    (hb : Balanced [] c) (hs : c.stack = .close i :: rest)
    (hopen : ∀ con, c.connections id = some con → con.tunnel.closed = false) :
    Follows id k ({ c with stack := rest }.closeReturned i) := by
  obtain ⟨con, hc, hest, hkey⟩ := h.ended
  have ho := hopen con hc
  have hpop : Follows id k { c with stack := rest } := ⟨con, hc, hest, hkey, Or.inl ho⟩
  unfold SploneBox.Core.closeReturned
  by_cases hi : id = i
  · subst hi
    have hthree : 3 ≤ con.refcount := by
      have hcov := hb.covered id
      unfold refs at hcov
      rw [hc, hs, stackRefs_cons] at hcov
      simp only [countOf, ownRef, ho, Frame.refs, if_true, Bool.false_eq_true, if_false] at hcov
      omega
    have hmod : ({ c with stack := rest }.modify id fun con => { con with released := true }) =
        { c with stack := rest }.setConnection id { con with released := true } := by
      unfold SploneBox.Core.modify
      dsimp only
      rw [hc]
    have hrel : Follows id k
        ({ c with stack := rest }.setConnection id { con with released := true }) :=
      hpop.setConnection hc ⟨rfl, rfl⟩ rfl
    rw [hmod]
    have hone : Follows id k
        (({ c with stack := rest }.setConnection id { con with released := true }).decref id) := by
      refine hrel.decref_kept fun con' hc' => ?_
      rw [setConnection_self] at hc'
      cases hc'
      dsimp only
      omega
    refine hone.decref_kept fun con' hc' => ?_
    rw [decref_taken (setConnection_self _ _ _) (by dsimp only; omega), setConnection_self] at hc'
    cases hc'
    dsimp only
    omega
  · have hrel : Follows id k
        ({ c with stack := rest }.modify i fun con => { con with released := true }) := by
      unfold SploneBox.Core.modify
      split
      · rename_i con' hc'
        exact hpop.setConnection hc' ⟨rfl, rfl⟩ rfl
      · exact hpop
    exact (hrel.decref_other hi).decref_other hi

theorem Follows.parsed {k : Bytes} {i : Nat} (h : Follows id k c) (hc : c.connections i = some con) :
    Follows id k (c.parsed i con (c.parseData W con seg env)) := by
  have hreceipt := receipt W c con seg env
  have hflag := parseData_closed W c con seg env
  have hself := parsed_self c i con (c.parseData W con seg env)
  have hne : ∀ j, j ≠ i → (c.parsed i con (c.parseData W con seg env)).connections j =
      c.connections j := fun j hj => parsed_ne _ hj
  refine h.congr (fun con₁ h₁ => ?_) (by rw [parsed_stack])
  by_cases hi : id = i
  · subst hi
    obtain ⟨con₂, h₂, hest, _⟩ := h
    rw [hc] at h₁ h₂
    cases h₁
    cases h₂
    refine ⟨_, hself, ?_, fun ho => Or.inl (hflag.trans ho)⟩
    cases hreceipt with
    | messages hst hout hreg hst' hkey =>
        refine ⟨hst'.trans hst.symm, ?_⟩
        show cstr (c.parseData W con seg env).tunnel.cc.pluginkeystring = con.pluginkey
        rw [hkey]
        rfl
    | hello hst => exact absurd (hest.symm.trans hst) (by decide)
    | cleared hst => exact absurd (hest.symm.trans hst) (by decide)
    | rejected hst => exact absurd (hest.symm.trans hst) (by decide)
    | accepted hst => exact absurd (hest.symm.trans hst) (by decide)
  · exact ⟨con₁, (hne id hi).trans h₁, ⟨rfl, rfl⟩, fun ho => Or.inl ho⟩

theorem Follows.written {k : Bytes} (h : Follows id k c) {con : Connection} (w : Write) (data : Bytes)
    (env : WriteEnv) (hc : c.connections w.con = some con) :
    Follows id k (c.written con (SploneBox.cryptoWrite W.server con.tunnel.cc data env) w) := by
  obtain ⟨hframe, _, hst⟩ := cryptoWrite_frame (S := W.server) con.tunnel.cc data env
  refine Follows.setConnection (c := c) h hc ⟨hst, ?_⟩ rfl
  show cstr (SploneBox.cryptoWrite W.server con.tunnel.cc data env).cc.pluginkeystring = con.pluginkey
  rw [hframe]
  rfl

theorem follows_returns (id : Nat) (k : Bytes) (K : Core → Nat → Prop) :
    Returns K (fun hs c => Ordered hs c ∧ Follows id k c) where
  quiet := fun h hq => ⟨(ordered_returns K).quiet h.1 hq, h.2.quiet hq⟩
  decref := fun h => ⟨(ordered_returns K).decref h.1, h.2.decref h.1.2⟩
  close := fun h hc ho hK hu =>
    ⟨(ordered_returns K).close h.1 hc ho hK hu, h.2.connectionClose hc ho⟩
  pushParse := fun h hu => ⟨(ordered_returns K).pushParse h.1 hu,
    h.2.move _ _ (by rw [closes_cons]; omega)⟩

/-- **An open connection that has authenticated stays in the table with its key**, through every move. -/
theorem follows_closed (W : World) (N : Aim) (K : Core → Nat → Prop) (F : Prop) (id : Nat)
    (k : Bytes) :
    Closed W N K (fun c _ => ∀ con, c.connections id = some con → con.tunnel.closed = false) F
      (FollowsEnd id k) Ordered (fun _ c => Follows id k c) where
  quiet := fun _ h hq => h.quiet hq
  stop := fun _ _ _ _ h => h.ended
  crash := fun _ _ _ h => h.ended
  exited := fun _ h _ => h.ended
  pack := fun _ _ h => h
  clear := fun _ _ h => h
  unsent := fun _ h _ => h
  write := fun w data env _ h _ hc _ _ _ => h.written w data env hc
  answer := fun w data env _ _ h _ _ hc _ hid _ _ _ => by
    rw [← hid] at hc
    exact h.written w data env hc
  silent := fun hb h _ => h.decref hb.2.spent
  lost := fun _ h _ _ _ => h.ended
  decref := fun hb h => h.decref hb.2
  newRequest := fun {_ c i v} obj _ _ _ h _ _ => by
    have hside : Follows id k { c with received := c.received ++ [⟨i, obj, v.responseId⟩] } := h
    unfold newRequest incref modify
    split
    · rename_i con hc
      exact hside.setConnection hc ⟨rfl, rfl⟩ rfl
    · exact hside
  enqueue := fun _ h => h
  dequeue := fun _ h _ => h
  target := fun _ _ h _ _ _ hc => h.setConnection hc ⟨rfl, rfl⟩ rfl
  pushCall := fun _ _ _ _ h _ => h.move _ _ (by rw [closes_cons]; omega)
  popCall := fun _ h hs => h.move _ _ (by rw [hs, closes_cons]; simp [Frame.isClose])
  pushLoop := fun _ h _ _ => h.move _ _ (by rw [closes_cons]; omega)
  popLoop := fun _ h hs hf => h.move _ _ (by
    rw [hs, closes_cons]
    cases hf <;> simp [Frame.isClose])
  popParse := fun _ h hs => h.move _ _ (by rw [hs, closes_cons]; simp [Frame.isClose])
  close := fun _ h hc ho _ _ => h.connectionClose hc ho
  closeReturned := fun hG hb h hs => h.closeReturned hb.2 hs hG
  read := fun seg env _ hb h hc hu _ _ hK hab =>
    ((follows_returns id k K).readCb
      ⟨⟨by rw [parsed_stack]; exact hb.1, hb.2.parsed hc (parseData_closed W _ _ seg env)⟩,
        h.parsed hc⟩ hu hK hab).2
  aborted := fun _ _ _ _ h hc _ => (h.parsed hc).ended
  eof := fun hb h hc hu hK =>
    ((follows_returns id k K).eofCb ⟨⟨hb.1, hb.2.incref hc rfl rfl⟩,
      h.setConnection hc ⟨rfl, rfl⟩ rfl⟩ hK hu).2
  create := fun {c} env hb h _ => by
    refine h.congr (fun con hc => ⟨con, ?_, ⟨rfl, rfl⟩, fun ho => Or.inl ho⟩) le_rfl
    refine (setConnection_ne _ ?_).trans hc
    rintro rfl
    rw [hb.2.fresh _ le_rfl] at hc
    cases hc
  tick := fun _ _ h hc _ => h.setConnection hc ⟨rfl, rfl⟩ rfl

end Core

open Core

/-- The registry is sound, and refused packets leave it alone, as long as no rejected packet is entered. -/
theorem registry_kept {W : World} {ls : List Label}
    (hG : Along (Core.step W) (fun c l _ => entersRejected W c l = false) Core.init ls) :
    Along (Core.step W) (fun c l c' => RegistrySound c' ∧
      (refusesInitiate W c l = true → c'.pluginkeys = c.pluginkeys)) Core.init ls := by
  refine along_of_invariant (I := Registered) ?_ registered_init hG
  intro c l c' h hg hs
  have h' := registered_step h hg hs
  refine ⟨h', h'.sound, fun hrefuse => ?_⟩
  rcases h with h | h
  · exact refused_unchanged h.1 hg hrefuse hs
  · rw [step_of_halted h.2] at hs
    cases hs

/-- An entry made for the connection, whose string is `k` by now: what a table that keeps the addresses of the
strings finds under `k`. -/
def EnteredAt (c : Core) (k : Bytes) (id : Nat) : Prop :=
  (∃ k', c.pluginkeys k' = some id) ∧ ∃ con, c.connections id = some con ∧ con.pluginkey = k

/-- **Keys or addresses**: as long as no rejected packet is entered, what is entered under a string is what is
found by the strings as they are now, so it makes no difference which of them the table keeps. -/
theorem pluginkeys_by_address {W : World} {ls : List Label}
    (hG : Along (Core.step W) (fun c l _ => entersRejected W c l = false) Core.init ls) :
    Always (Core.step W) (fun c => ∀ k id, c.pluginkeys k = some id ↔ EnteredAt c k id) Core.init ls := by
  have hkeys : ∀ c : Core, RegistrySound c → ∀ k id, c.pluginkeys k = some id ↔ EnteredAt c k id := by
    intro c hsound k id
    constructor
    · intro hk
      obtain ⟨con, hc, -, hkey, -⟩ := hsound k id hk
      exact ⟨⟨k, hk⟩, con, hc, hkey⟩
    · rintro ⟨⟨k', hk'⟩, con, hc, hkey⟩
      -- the string has not changed since the entry was made
      obtain ⟨con', hc', -, hkey', -⟩ := hsound k' id hk'
      rw [hc] at hc'
      cases hc'
      rw [← hkey, hkey']
      exact hk'
  exact ⟨hkeys _ registered_init.sound, (registry_kept hG).imp fun _ _ c' h => hkeys c' h.1⟩

/-- **The registry is sound exactly as long as no rejected packet is entered**: in a run every entry
stands for a connection that has authenticated with its key, and every refused packet leaves the
registry unchanged, iff no initiate packet is rejected on a connection whose string is not registered. -/
theorem registry_sound_iff (W : World) (ls : List Label) :
    (Always (Core.step W) RegistrySound Core.init ls ∧
      Along (Core.step W) (fun c l c' => refusesInitiate W c l = true → c'.pluginkeys = c.pluginkeys)
        Core.init ls) ↔
      Along (Core.step W) (fun c l _ => entersRejected W c l = false) Core.init ls := by
  constructor
  · rintro ⟨hsound, _⟩
    refine along_of_invariant (I := Alive) (G := fun _ _ c' => RegistrySound c') ?_ (Or.inl ordered_init)
      hsound.2
    intro c l c' halive hsound' hs
    refine ⟨alive_step halive hs, ?_⟩
    by_contra henter
    cases l with
    | read id seg env =>
        obtain ⟨con, hc, rfl⟩ := step_read_eq hs
        have hpos := (halive.ordered hs).2.positive id con hc
        exact readCb_rejected hpos hc (by simpa using henter) hsound'
    | turn => exact henter rfl
    | accept env => exact henter rfl
    | eof id => exact henter rfl
    | tick id fresh => exact henter rfl
  · intro hG
    have hkeep := registry_kept hG
    exact ⟨⟨registered_init.sound, hkeep.imp fun _ _ _ h => h.1⟩, hkeep.imp fun _ _ _ h => h.2⟩

/-- 256 bytes that are no initiate packet. -/
def Sample.forged : Bytes := zeros 256

/-- **A rejected packet is entered**: the connection that was created with an empty string is
registered under it, and has not authenticated. -/
theorem rejected_initiate_registered :
    ∃ c, exec (Core.step Sample.world) Core.init
        [.turn, .accept Sample.create, .read 1 Sample.hello Sample.env,
          .read 1 Sample.forged Sample.env] = some c ∧
      c.pluginkeys [] = some 1 ∧ ¬ RegistrySound c := by
  have hrun : (exec (Core.step Sample.world) Core.init
      [.turn, .accept Sample.create, .read 1 Sample.hello Sample.env,
        .read 1 Sample.forged Sample.env]).any
      (fun c => decide (c.pluginkeys [] = some 1) &&
        (c.connections 1).all fun con => decide (con.tunnel.cc.state = .initial)) = true := by
    decide +kernel
  obtain ⟨c, hex, hc⟩ := (Option.any_eq_true _ _).mp hrun
  simp only [Bool.and_eq_true, decide_eq_true_eq] at hc
  refine ⟨c, hex, hc.1, fun hsound => ?_⟩
  obtain ⟨con, hcon, hauth⟩ := hsound [] 1 hc.1
  have hst : con.tunnel.cc.state = .initial := by
    simpa [hcon] using hc.2
  exact absurd (hst.symm.trans hauth.1) (by decide)

/-- The entry of an open connection that has authenticated stays as long as the connection is open. -/
def EntriesStay (c c' : Core) : Prop :=
  ∀ id con, c.connections id = some con → con.tunnel.cc.state = .established →
    con.tunnel.closed = false → c.pluginkeys con.pluginkey = some id →
    ∃ con', c'.connections id = some con' ∧ con'.pluginkey = con.pluginkey ∧
      (con'.tunnel.closed = false → c'.pluginkeys con.pluginkey = some id)

/-- No two open connections have authenticated with the same key. -/
def KeysDistinct (c : Core) : Prop :=
  ∀ id id' con con', c.connections id = some con → c.connections id' = some con' →
    con.tunnel.cc.state = .established → con'.tunnel.cc.state = .established →
    con.tunnel.closed = false → con'.tunnel.closed = false → con.pluginkey = con'.pluginkey → id = id'

theorem keysDistinct_of_held {c : Core} (h : KeysHeld c) : KeysDistinct c := by
  intro id id' con con' hc hc' hest hest' ho ho' hkey
  rcases h id con hc hest with ⟨_, hcl⟩ | ⟨_, hreg⟩
  · rw [ho] at hcl
    cases hcl
  rcases h id' con' hc' hest' with ⟨_, hcl⟩ | ⟨_, hreg'⟩
  · rw [ho'] at hcl
    cases hcl
  rw [hkey, hreg'] at hreg
  exact (Option.some.inj hreg).symm

/-- The states of a run that enters no rejected packet and deletes no key by accident. -/
def Persistent (c : Core) : Prop :=
  ((Ordered [] c ∧ RegistrySound c) ∧ Kept [] c) ∨ Ended KeysHeld c

theorem Persistent.keys {c : Core} (h : Persistent c) : KeysHeld c := by
  rcases h with h | h
  · exact h.2.keys
  · exact h.1

theorem persistent_init : Persistent Core.init :=
  Or.inl ⟨⟨ordered_init, fun _ _ hk => (nomatch hk)⟩, fun _ _ hc => (nomatch hc),
    fun _ _ hc => (nomatch hc)⟩

theorem persistent_step {W : World} {c c' : Core} {l : Label} (h : Persistent c)
    (hG : entersRejected W c l = false ∧ deletesOther c l = false) (hs : c.step W l = some c') :
    Persistent c' := by
  rcases h with h | h
  · have hreg := ((ordered_closed W .any (fun _ _ => True) _ True).and
      (registry_closed W .any (fun _ _ => True) True)).mono
      (H := fun c l => entersRejected W c l = false ∧ deletesOther c l = false)
      (D := fun _ => True) (fun _ _ hg => hg.1) fun _ _ => trivial
    have hkept := hreg.and (kept_closed W .any (fun _ _ => True) True)
    exact hkept.step (fun h => h.1.1.1) h hs hG (aims_any W c l) (fun _ => trivial)
      fun _ _ _ _ _ _ => trivial
  · rw [step_of_halted h.2] at hs
    cases hs

theorem entriesStay_step {W : World} {c c' : Core} {l : Label} (hord : Ordered [] c)
    (hkeys : KeysHeld c') (hs : c.step W l = some c') : EntriesStay c c' := by
  intro id con hc hest ho _
  have hfollow : Ordered [] c ∧ Follows id con.pluginkey c := ⟨hord, con, hc, hest, rfl, Or.inl ho⟩
  have hclosed := (ordered_closed W .any (fun _ _ => True) _ True).and
    (follows_closed W .any (fun _ _ => True) True id con.pluginkey)
  have hopen : ∀ con', c.connections id = some con' → con'.tunnel.closed = false := by
    intro con' hc'
    rw [hc] at hc'
    cases hc'
    exact ho
  have hend : FollowsEnd id con.pluginkey c' := by
    rcases hclosed.step (fun h => h.1.1) hfollow hs hopen (aims_any W c l) (fun _ => trivial)
      (fun _ _ _ _ _ _ => trivial) with h' | h'
    · exact h'.2.ended
    · exact h'.1
  obtain ⟨con', hc', hest', hkey⟩ := hend
  refine ⟨con', hc', hkey, fun ho' => ?_⟩
  rcases hkeys id con' hc' hest' with ⟨_, hcl⟩ | ⟨_, hreg⟩
  · rw [ho'] at hcl
    cases hcl
  · rw [← hkey]
    exact hreg

/-- **Registration persists**, in every run that enters no rejected packet and frees no connection that
has not authenticated while its string is a key: the entry of an open connection stays, and no two open
connections have authenticated with one key. -/
theorem registration_persists {W : World} {ls : List Label}
    (hG : Along (Core.step W)
      (fun c l _ => entersRejected W c l = false ∧ deletesOther c l = false) Core.init ls) :
    Along (Core.step W) (fun c _ c' => EntriesStay c c') Core.init ls ∧
      Always (Core.step W) KeysDistinct Core.init ls := by
  have hkeep : Along (Core.step W) (fun c _ c' => EntriesStay c c' ∧ KeysDistinct c') Core.init ls := by
    refine along_of_invariant (I := Persistent) ?_ persistent_init hG
    intro c l c' h hg hs
    have h' := persistent_step h hg hs
    refine ⟨h', ?_, keysDistinct_of_held h'.keys⟩
    rcases h with h | h
    · exact entriesStay_step h.1.1 h'.keys hs
    · rw [step_of_halted h.2] at hs
      cases hs
  exact ⟨hkeep.imp fun _ _ _ h => h.1, keysDistinct_of_held persistent_init.keys, hkeep.imp fun _ _ _ h => h.2⟩

/-- Two plugins connect; the second shows the key of the first, and is refused. -/
def Sample.twoPlugins : List Label :=
  .turn :: (Sample.connect 1 (Sample.fill 32 3) ++ Sample.connect 2 (Sample.fill 32 3) ++ [.turn])

/-- **A run that meets the condition**: the second plugin is closed, the entry of the first stays. -/
theorem registration_persists_sample :
    Along (Core.step Sample.world)
        (fun c l _ => entersRejected Sample.world c l = false ∧ deletesOther c l = false) Core.init
        Sample.twoPlugins ∧
      ∃ c, exec (Core.step Sample.world) Core.init Sample.twoPlugins = some c ∧
        c.pluginkeys (base16 (List.replicate 8 3)) = some 1 ∧ c.ids = [1] ∧ KeysDistinct c := by
  have hcond : Along (Core.step Sample.world)
      (fun c l _ => entersRejected Sample.world c l = false ∧ deletesOther c l = false) Core.init
      Sample.twoPlugins := by
    rw [Sample.twoPlugins, List.append_assoc]
    apply Sample.along_connect rfl <;> decide +kernel
  have hrun : (exec (Core.step Sample.world) Core.init Sample.twoPlugins).any
      (fun c => decide (c.pluginkeys (base16 (List.replicate 8 3)) = some 1 ∧ c.ids = [1])) = true := by
    rw [Sample.twoPlugins, List.append_assoc, Sample.exec_connect_append rfl]
    decide +kernel
  obtain ⟨c, hex, hc⟩ := (Option.any_eq_true _ _).mp hrun
  obtain ⟨hkey, hids⟩ := of_decide_eq_true hc
  exact ⟨hcond, c, hex, hkey, hids, (registration_persists hcond).2.exec hex⟩

/-- A plugin connects; another connection, whose block has the bytes of its key where `pluginkeystring`
is, is accepted and ends before it has sent anything. -/
def Sample.recycledKey : List Label :=
  .turn :: (Sample.connect 1 (Sample.fill 32 3) ++
    [.accept (Sample.createWith (base16 (List.replicate 8 3))), .eof 2, .turn])

/-- **The entry of an open plugin is deleted with a connection that never authenticated.** -/
theorem recycled_key_deleted :
    ∃ c, exec (Core.step Sample.world) Core.init Sample.recycledKey = some c ∧
      c.ids = [1] ∧ c.pluginkeys (base16 (List.replicate 8 3)) = none ∧
      ∃ con, c.connections 1 = some con ∧ con.tunnel.closed = false ∧
        AuthenticatedAs con (base16 (List.replicate 8 3)) := by
  have hrun : (exec (Core.step Sample.world) Core.init Sample.recycledKey).any
      (fun c => decide (c.ids = [1] ∧ c.pluginkeys (base16 (List.replicate 8 3)) = none) &&
        (c.connections 1).any fun con => decide (con.tunnel.closed = false ∧
          con.tunnel.cc.state = .established ∧ con.pluginkey = base16 (List.replicate 8 3))) =
      true := by
    rw [Sample.recycledKey, Sample.exec_connect_append rfl]
    decide +kernel
  obtain ⟨c, hex, hc⟩ := (Option.any_eq_true _ _).mp hrun
  simp only [Bool.and_eq_true, decide_eq_true_eq] at hc
  obtain ⟨con, hcon, hall⟩ := (Option.any_eq_true _ _).mp hc.2
  obtain ⟨ho, hest, hkey⟩ := of_decide_eq_true hall
  exact ⟨c, hex, hc.1.1, hc.1.2, con, hcon, ho, hest, hkey, List.replicate 8 3, rfl, rfl⟩

end SploneBox
