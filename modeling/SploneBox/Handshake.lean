/-
# SploneBox.Handshake — how a connection becomes established.

The conclusion spans two packets and a timer: the hello that left the short-term key and the cookie, the
rotations of the minute key, and the initiate packet that has to fit both. `HandshakeInv` is what the
connection remembers between them, whatever else happened — failed hellos that cleared the keys, failed
initiates that fell back to the initial state, ticks, writes: the two minute keys are the two newest of
the connection's own keys, the cookies were sealed under its own keys, and in the cookie-sent state the
short-term key is the one of the last accepted hello.

`established_by_initiate` assumes of the secretbox what is assumed of an ideal one, for the fresh keys of
this connection: a cookie that opens under one of them was sealed under it. That keeps out the initial
`lastminutekey`, which is random and never current.
-/
import SploneBox.Replay

namespace SploneBox

open Lib.Machine

/-! ## §1 The invariant -/

variable {S : Server}

/-- The minute keys in the context are the newest keys of the connection: the one of
`connection_create` with the random `lastminutekey`, or the last two of the timer. -/
def MinuteKeys (env : CreateEnv) (t : Tunnel) : Prop :=
  (t.history.minutekeys = [t.cc.minutekey] ∧ t.cc.minutekey = env.minutekey ∧
      t.cc.lastminutekey = env.lastminutekey) ∨
    ∃ rest, t.history.minutekeys = t.cc.minutekey :: t.cc.lastminutekey :: rest

/-- What a connection remembers between a hello and an initiate packet. -/
structure HandshakeInv (env : CreateEnv) (t : Tunnel) : Prop where
  keys : MinuteKeys env t
  cookies : ∀ c ∈ t.history.cookies, c.minutekey ∈ t.history.minutekeys
  hello : t.cc.state = .cookieSent → t.history.hello = some t.cc.clientshorttermpk

theorem MinuteKeys.current {env : CreateEnv} {t : Tunnel} (h : MinuteKeys env t) :
    t.history.minutekeys[0]? = some t.cc.minutekey := by
  rcases h with ⟨hk, _, _⟩ | ⟨rest, hk⟩
  · rw [hk]
    rfl
  · rw [hk]
    rfl

/-- A change that leaves the minute keys, the cookies and the handshake as they are. -/
theorem HandshakeInv.of_eq {env : CreateEnv} {t t' : Tunnel} (h : HandshakeInv env t)
    (hkeys : t'.history.minutekeys = t.history.minutekeys)
    (hcookies : t'.history.cookies = t.history.cookies)
    (hmk : t'.cc.minutekey = t.cc.minutekey) (hlk : t'.cc.lastminutekey = t.cc.lastminutekey)
    (hhello : t'.cc.state = .cookieSent → t.cc.state = .cookieSent ∧
      t'.history.hello = t.history.hello ∧ t'.cc.clientshorttermpk = t.cc.clientshorttermpk) :
    HandshakeInv env t' := by
  refine ⟨?_, ?_, ?_⟩
  · unfold MinuteKeys
    rw [hkeys, hmk, hlk]
    exact h.keys
  · rw [hkeys, hcookies]
    exact h.cookies
  · intro hst
    obtain ⟨hst', hh, hpk⟩ := hhello hst
    rw [hh, hpk]
    exact h.hello hst'

/-- The result of `crypto_recv_initiate` in the record of the connection: accepted or not, the minute
keys and the short-term key are the ones before, and the state is not the cookie-sent one. -/
theorem parseInitiate_frame (t : Tunnel) (env : ReadEnv) :
    (parseInitiate S t env).cc.minutekey = t.cc.minutekey ∧
      (parseInitiate S t env).cc.lastminutekey = t.cc.lastminutekey ∧
      (parseInitiate S t env).cc.state ≠ .cookieSent := by
  unfold parseInitiate
  dsimp only
  rcases hr : cryptoRecvInitiate S t.cc (stackBuffer 256 (inputstreamRead t.istream 256).2 env.stale)
    env.db with ⟨cc, ok⟩
  cases ok with
  | false =>
      rw [cryptoRecvInitiate_rejected hr]
      exact ⟨rfl, rfl, by simp⟩
  | true =>
      obtain ⟨_, _, _, _, hspec⟩ :=
        cryptoRecvInitiate_established (by simp [stackBuffer, Buffer.length_eq]) hr
      rw [hspec.context]
      exact ⟨rfl, rfl, by simp⟩

/-- **The invariant survives every operation.** -/
theorem handshake_closed (env : CreateEnv) : Closed S (HandshakeInv env) where
  segment := fun _ _ _ h _ => ⟨h.keys, h.cookies, h.hello⟩
  hello := by
    intro t renv h hst
    have hspec := cryptoRecvHelloSendCookie_cases (S := S) t.cc
      (stackBuffer 192 (inputstreamRead t.istream 192).2 renv.stale) renv.hello
    have hmk : (parseHello S t renv).cc.minutekey = t.cc.minutekey := by
      simp only [parseHello]
      rw [hspec.frame]
    have hlk : (parseHello S t renv).cc.lastminutekey = t.cc.lastminutekey := by
      simp only [parseHello]
      rw [hspec.frame]
    refine ⟨?_, ?_, ?_⟩
    · unfold MinuteKeys
      rw [hmk, hlk]
      exact h.keys
    · -- a cookie is sealed under the current minute key, which is in the record
      intro c hc
      rcases List.mem_append.mp hc with hc | hc
      · exact h.cookies c hc
      · rw [hspec.cookie c (by simpa using hc)]
        exact List.mem_of_getElem? h.keys.current
    · intro hst'
      simp only [parseHello] at hst' ⊢
      cases hok : (cryptoRecvHelloSendCookie S t.cc
          (stackBuffer 192 (inputstreamRead t.istream 192).2 renv.stale) renv.hello).ok with
      | false =>
          rw [hspec.rejected hok, hst] at hst'
          cases hst'
      | true => rw [if_pos rfl, (hspec.accepted hok).2]
  initiate := by
    intro t renv h _
    obtain ⟨hmk, hlk, hst⟩ := parseInitiate_frame (S := S) t renv
    exact h.of_eq rfl rfl hmk hlk fun hc => absurd hc hst
  messages := by
    intro t renv h
    obtain ⟨new, hrec, hhist⟩ := (parseMessages_received (S := S) t renv).received
    have hcc := hrec.frame
    refine h.of_eq (by rw [hhist]) (by rw [hhist]) (by rw [hcc]) (by rw [hcc]) fun hst => ?_
    rw [hcc] at hst ⊢
    exact ⟨hst, by rw [hhist], rfl⟩
  clearKey := fun _ h => ⟨h.keys, h.cookies, h.hello⟩
  close := fun _ h => ⟨h.keys, h.cookies, h.hello⟩
  halt := fun _ h => ⟨h.keys, h.cookies, h.hello⟩
  tick := by
    intro t fresh h
    refine ⟨Or.inr ?_, fun c hc => List.mem_cons_of_mem _ (h.cookies c hc), h.hello⟩
    -- The key that was the current one is the last one now.
    rcases h.keys with ⟨hk, _, _⟩ | ⟨rest, hk⟩
    · exact ⟨[], by simp [cryptoUpdateMinutekey, hk]⟩
    · exact ⟨t.cc.lastminutekey :: rest, by simp [cryptoUpdateMinutekey, hk]⟩
  write := by
    intro t data wenv h _
    have hcc : (afterWrite t (cryptoWrite S t.cc data wenv)).cc = { t.cc with
        nonce := (cryptoWrite S t.cc data wenv).cc.nonce } :=
      (cryptoWrite_frame (S := S) t.cc data wenv).1
    refine h.of_eq rfl rfl (by rw [hcc]) (by rw [hcc]) fun hst => ?_
    rw [hcc] at hst ⊢
    exact ⟨hst, rfl, rfl⟩

theorem connectionCreate_handshake (env : CreateEnv) : HandshakeInv env (connectionCreate env) where
  keys := Or.inl ⟨rfl, rfl, rfl⟩
  cookies := fun c hc => absurd hc List.not_mem_nil
  hello := fun hst => by cases hst

/-! ## §2 Becoming established -/

/-- The bytes `parse_cb` gives to `crypto_recv_initiate` when a segment arrives. -/
def initiateBytes (s : Tunnel) (seg : Bytes) (renv : ReadEnv) : Bytes :=
  stackBuffer 256 (inputstreamRead (s.arrived seg renv).istream 256).2 renv.stale

theorem initiateBytes_length (s : Tunnel) (seg : Bytes) (renv : ReadEnv) :
    (initiateBytes s seg renv).length = 256 := by
  simp [initiateBytes, stackBuffer, Buffer.length_eq]

/-- **The ideal secretbox**, as far as this connection relies on it: if the cookie of an initiate packet
opens under one of its two minute keys, it was sealed under that key and nonce by this connection. -/
def CookieIdeal (S : Server) (s : Tunnel) (e : Event) : Prop :=
  ∀ seg renv, e = .read seg renv → s.cc.state = .cookieSent →
    ∀ k p, k = s.cc.minutekey ∨ k = s.cc.lastminutekey →
      S.nacl.boxOpen (field (initiateBytes s seg renv) 24 80)
        (cryptoMinuteKey ++ field (initiateBytes s seg renv) 8 16) k.bytes = some p →
      ∃ c ∈ s.history.cookies, c.minutekey = k ∧
        c.nonce.bytes = field (initiateBytes s seg renv) 8 16 ∧
        c.box = field (initiateBytes s seg renv) 24 80

/-- What has been checked when a step makes a connection established. `cc'` is the context on return
from `crypto_recv_initiate`; `parse_cb` keeps its plugin key string, unless the key is registered
already, and then clears it and closes the connection. -/
structure Authenticated (S : Server) (s : Tunnel) (e : Event) (s' : Tunnel) : Prop where
  cookieSent : s.cc.state = .cookieSent
  hello : s.history.hello = some s.cc.clientshorttermpk
  initiate : ∃ seg renv k cookie initiate vouch cc',
    e = .read seg renv ∧
    cryptoRecvInitiate S s.cc (initiateBytes s seg renv) renv.db = (cc', true) ∧
    InitiateSpec (S := S) s.cc (initiateBytes s seg renv) renv.db k cookie initiate vouch cc' ∧
    (s.history.minutekeys[0]? = some k ∨ s.history.minutekeys[1]? = some k) ∧
    cstr cc'.pluginkeystring = base16 (field initiate 24 8) ∧
    (s'.cc.pluginkeystring = cc'.pluginkeystring ∨
      (renv.registered (cstr cc'.pluginkeystring) = true ∧ s'.closed = true))

/-- A state change to established happens in `crypto_recv_initiate`, called in the cookie-sent state. -/
theorem step_established {s s' : Tunnel} {e : Event} (hs : step S s e = some s')
    (hne : s.cc.state ≠ .established) (hest : s'.cc.state = .established) :
    s.cc.state = .cookieSent ∧ ∃ seg renv cc', e = .read seg renv ∧
      cryptoRecvInitiate S s.cc (initiateBytes s seg renv) renv.db = (cc', true) ∧
      (s'.cc.pluginkeystring = cc'.pluginkeystring ∨
        (renv.registered (cstr cc'.pluginkeystring) = true ∧ s'.closed = true)) := by
  have hkeep : s'.cc.state ≠ s.cc.state := fun h => hne (h ▸ hest)
  cases e with
  | read seg renv =>
      obtain ⟨_, _, hcases⟩ := step_read hs
      rcases hcases with ⟨hst, hs'⟩ | ⟨hst, hbranch⟩ | ⟨hst, _⟩
      · -- a hello packet leads to the cookie-sent state at most
        have hspec := cryptoRecvHelloSendCookie_cases (S := S) s.cc (stackBuffer 192
          (inputstreamRead (s.arrived seg renv).istream 192).2 renv.stale) renv.hello
        rw [hs'] at hest hkeep
        cases hok : (cryptoRecvHelloSendCookie S s.cc (stackBuffer 192
            (inputstreamRead (s.arrived seg renv).istream 192).2 renv.stale) renv.hello).ok with
        | false => exact absurd (hspec.rejected hok) hkeep
        | true =>
            have hsent := (hspec.accepted hok).1
            rw [show (parseHello S (s.arrived seg renv) renv).cc.state = .cookieSent from hsent] at hest
            cases hest
      -- An initiate packet that opens leads to it; the key decides whether the tunnel stays open.
      · refine ⟨hst, seg, renv, ?_⟩
        rcases hr : cryptoRecvInitiate S s.cc (initiateBytes s seg renv) renv.db with ⟨cc', ok⟩
        have hcc : (parseInitiate S (s.arrived seg renv) renv).cc
            = if ok then cc' else { cc' with state := .initial } := by
          have h : cryptoRecvInitiate S (s.arrived seg renv).cc (stackBuffer 256
            (inputstreamRead (s.arrived seg renv).istream 256).2 renv.stale) renv.db = (cc', ok) := hr
          simp only [parseInitiate, h]
        rcases hbranch with ⟨hreg, rfl⟩ | ⟨_, rfl⟩
        · cases ok with
          | false =>
              rw [hcc] at hest
              cases hest
          | true =>
              rw [hcc] at hreg
              exact ⟨cc', rfl, rfl, Or.inr ⟨hreg, rfl⟩⟩
        · obtain ⟨new, hrec, _⟩ :=
            (parseMessages_received (S := S) (parseInitiate S (s.arrived seg renv) renv) renv).received
          rw [afterRead_cc, hrec.frame, hcc] at hest ⊢
          cases ok with
          | false => cases hest
          | true => exact ⟨cc', rfl, rfl, Or.inl rfl⟩
      · exact absurd hst hne
  | eof =>
      simp only [step] at hs
      split at hs
      · cases hs
      · cases hs
        exact absurd rfl hkeep
  | tick fresh =>
      simp only [step] at hs
      split at hs
      · cases hs
      · cases hs
        exact absurd rfl hkeep
  | write data wenv =>
      simp only [step] at hs
      split at hs
      · cases hs
      · cases hs
        exact absurd (cryptoWrite_frame (S := S) s.cc data wenv).2.2 hkeep

/-- **Handshake authentication.** On every run of a connection the state becomes established only by an
initiate packet received in the cookie-sent state that passes every check: its cookie opens under the
current minute key or under the one before it and holds the short-term key of the last accepted hello,
its vouch opens under the presented long-term key and holds both short-term keys, the long-term key is
authorized, the nonce is fresh; and the plugin key string is then the base16 of the last eight bytes of
the long-term key. -/
theorem established_by_initiate (env : CreateEnv) (es : List Event)
    (hideal : Along (step S) (fun s e _ => CookieIdeal S s e) (connectionCreate env) es) :
    Along (step S) (fun s e s' => s.cc.state ≠ .established → s'.cc.state = .established →
      Authenticated S s e s') (connectionCreate env) es := by
  refine along_of_invariant (I := HandshakeInv env) ?_ (connectionCreate_handshake env) hideal
  intro s e s' hinv hcookie hs
  refine ⟨(handshake_closed env).step hinv hs, fun hne hest => ?_⟩
  obtain ⟨hst, seg, renv, cc', rfl, hr, hkey⟩ := step_established hs hne hest
  obtain ⟨k, cookie, initiate, vouch, hspec⟩ :=
    cryptoRecvInitiate_established (initiateBytes_length s seg renv) hr
  refine ⟨hst, hinv.hello hst, seg, renv, k, cookie, initiate, vouch, cc', rfl, hr, hspec, ?_, ?_, hkey⟩
  · rcases hinv.keys with ⟨hlist, hmk, hlk⟩ | ⟨rest, hlist⟩
    · -- no rotation yet: a cookie sealed by this connection was not sealed under `lastminutekey`
      obtain ⟨c, hc, hck, _, _⟩ := hcookie seg renv rfl hst k cookie hspec.minutekey hspec.cookie_opens
      have hmem := hinv.cookies c hc
      rw [hck, hlist, List.mem_singleton] at hmem
      rw [hmem]
      exact Or.inl hinv.keys.current
    · rw [hlist]
      rcases hspec.minutekey with rfl | rfl
      · exact Or.inl rfl
      · exact Or.inr rfl
  · rw [hspec.context]
    exact cstr_base16Encode 17 _

/-- The handshake of the sample client: the hello is answered with a cookie, the initiate packet
returns it, and the connection is established. -/
theorem established_by_initiate_sample :
    ∃ s s', step Sample.server (connectionCreate Sample.create) (.read Sample.hello Sample.env) = some s ∧
      step Sample.server s (.read (Sample.initiate (Sample.fill 32 3)) Sample.env) = some s' ∧
      s'.cc.state = .established ∧
      Authenticated Sample.server s (.read (Sample.initiate (Sample.fill 32 3)) Sample.env) s' := by
  -- What the condition asks of every key is decided for the two that the server has.
  have hrun : (step Sample.server (connectionCreate Sample.create)
      (.read Sample.hello Sample.env)).any (fun s : Tunnel =>
        decide (s.cc.state = .cookieSent) &&
        decide (∀ k : Key, k ∈ [s.cc.minutekey, s.cc.lastminutekey] →
          (Sample.server.nacl.boxOpen
            (field (initiateBytes s (Sample.initiate (Sample.fill 32 3)) Sample.env) 24 80)
            (cryptoMinuteKey ++
              field (initiateBytes s (Sample.initiate (Sample.fill 32 3)) Sample.env) 8 16)
            k.bytes).isNone = true ∨
          ∃ c ∈ s.history.cookies, c.minutekey = k ∧
            c.nonce.bytes = field (initiateBytes s (Sample.initiate (Sample.fill 32 3)) Sample.env) 8 16 ∧
            c.box = field (initiateBytes s (Sample.initiate (Sample.fill 32 3)) Sample.env) 24 80) &&
        (step Sample.server s (.read (Sample.initiate (Sample.fill 32 3)) Sample.env)).any
          fun s' => decide (s'.cc.state = .established)) = true := by
    decide +kernel
  obtain ⟨s, hs, hall⟩ := (Option.any_eq_true _ _).mp hrun
  simp only [Bool.and_eq_true, decide_eq_true_eq] at hall
  obtain ⟨⟨hst, hcookie⟩, hnext⟩ := hall
  obtain ⟨s', hs', hest⟩ := (Option.any_eq_true _ _).mp hnext
  have hest : s'.cc.state = .established := of_decide_eq_true hest
  have hideal : Along (step Sample.server) (fun s e _ => CookieIdeal Sample.server s e)
      (connectionCreate Sample.create)
      [.read Sample.hello Sample.env, .read (Sample.initiate (Sample.fill 32 3)) Sample.env] := by
    intro s₁ hs₁
    cases hs.symm.trans hs₁
    refine ⟨fun _ _ _ hinit => absurd hinit (by decide), fun s₂ _ => ⟨?_, trivial⟩⟩
    intro seg renv he _ k p hk hopen
    cases he
    rcases hcookie k (by simpa using hk) with hnone | hlog
    · rw [hopen] at hnone
      cases hnone
    · exact hlog
  have hauth := established_by_initiate Sample.create _ hideal
  have hne : s.cc.state ≠ .established := by
    rw [hst]
    decide
  exact ⟨s, s', hs, hs', hest, ((hauth s hs).2 s' hs').1 hne hest⟩

end SploneBox
