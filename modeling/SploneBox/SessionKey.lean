/-
# SploneBox.SessionKey — which key pair a session key belongs to.

A hello makes a key pair. The public half stays in the context and is what the client's vouch has to name; the
secret half goes to the client inside the cookie, and the initiate packet brings it back. The session key is
computed from what comes back. `crypto_recv_initiate` compares the cookie's client key with the context, but not
its server key: after a rejected initiate and a second hello with the same client key, the first cookie still
opens, and the session runs under a key pair that the vouch does not name.

`KeyPair` is what every hello leaves behind, kept by everything else. `LatestCookie` is the condition on the
packets that closes the gap.
-/
import SploneBox.Handshake

namespace SploneBox

open Lib.Machine

variable {S : Server}

/-! ## §1 The key pair of a hello -/

/-- What an accepted hello has generated: the two halves of one pair, and a cookie with the secret half. -/
theorem cryptoRecvHelloSendCookie_pair {cc : CryptoContext} {data : Bytes} {env : HelloEnv} {r : HelloResult}
    (hr : cryptoRecvHelloSendCookie S cc data env = r) (hok : r.ok = true) :
    r.cc.servershorttermsk = env.keypair ∧
      r.cc.servershorttermpk = Buffer.copy 32 (S.nacl.scalarmultBase r.cc.servershorttermsk.bytes) ∧
      ∃ c, r.cookie = some c ∧ c.clientshorttermpk = r.cc.clientshorttermpk ∧
        c.servershorttermsk = r.cc.servershorttermsk := by
  subst hr
  revert hok
  unfold cryptoRecvHelloSendCookie
  split
  · nofun
  dsimp only
  split
  · nofun
  split
  · nofun
  split
  · nofun
  split
  · nofun
  split
  · nofun
  split
  · exact fun _ => ⟨rfl, rfl, _, rfl, rfl, rfl⟩
  · nofun

/-- **The key pair of the most recent accepted hello**: its client key and both halves are in the context, and
the newest cookie was made for them. -/
structure KeyPair (S : Server) (t : Tunnel) : Prop where
  hello : t.history.hello = some t.cc.clientshorttermpk
  pair : t.cc.servershorttermpk = Buffer.copy 32 (S.nacl.scalarmultBase t.cc.servershorttermsk.bytes)
  cookie : ∃ c, t.history.cookies.getLast? = some c ∧ c.clientshorttermpk = t.cc.clientshorttermpk ∧
    c.servershorttermsk = t.cc.servershorttermsk

/-- A change that leaves the keys, the cookies and the hello as they are. -/
theorem KeyPair.of_eq {t t' : Tunnel} (h : KeyPair S t) (hhello : t'.history.hello = t.history.hello)
    (hcookies : t'.history.cookies = t.history.cookies)
    (hcpk : t'.cc.clientshorttermpk = t.cc.clientshorttermpk)
    (hspk : t'.cc.servershorttermpk = t.cc.servershorttermpk)
    (hssk : t'.cc.servershorttermsk = t.cc.servershorttermsk) : KeyPair S t' := by
  refine ⟨?_, ?_, ?_⟩
  · rw [hhello, hcpk]
    exact h.hello
  · rw [hspk, hssk]
    exact h.pair
  · rw [hcookies, hcpk, hssk]
    exact h.cookie

/-- What `crypto_recv_initiate` leaves of the context: the short-term keys, accepted or not. -/
theorem parseInitiate_keys (t : Tunnel) (env : ReadEnv) :
    (parseInitiate S t env).cc.clientshorttermpk = t.cc.clientshorttermpk ∧
      (parseInitiate S t env).cc.servershorttermpk = t.cc.servershorttermpk ∧
      (parseInitiate S t env).cc.servershorttermsk = t.cc.servershorttermsk := by
  unfold parseInitiate
  dsimp only
  rcases hr : cryptoRecvInitiate S t.cc (stackBuffer 256 (inputstreamRead t.istream 256).2 env.stale)
    env.db with ⟨cc, ok⟩
  cases ok with
  | false =>
      rw [cryptoRecvInitiate_rejected hr]
      exact ⟨rfl, rfl, rfl⟩
  | true =>
      obtain ⟨_, _, _, _, hspec⟩ :=
        cryptoRecvInitiate_established (by simp [stackBuffer, Buffer.length_eq]) hr
      rw [hspec.context]
      exact ⟨rfl, rfl, rfl⟩

/-- **Outside the initial state the pair is there**, whatever happens to the connection. -/
theorem keyPair_closed : Closed S fun t => t.cc.state ≠ .initial → KeyPair S t where
  segment := fun _ _ _ h _ hst => (h hst).of_eq rfl rfl rfl rfl rfl
  hello := by
    intro t env _ hst hst'
    have hspec := cryptoRecvHelloSendCookie_cases (S := S) t.cc
      (stackBuffer 192 (inputstreamRead t.istream 192).2 env.stale) env.hello
    generalize hr : cryptoRecvHelloSendCookie S t.cc
      (stackBuffer 192 (inputstreamRead t.istream 192).2 env.stale) env.hello = r at hspec
    have ht : parseHello S t env = { t with
        cc := r.cc
        istream := (inputstreamRead t.istream 192).1
        history := { t.history with
          cookies := t.history.cookies ++ r.cookie.toList
          hello := if r.ok then some (Buffer.copy 32
            ((stackBuffer 192 (inputstreamRead t.istream 192).2 env.stale).drop 8))
            else t.history.hello } } := by
      rw [← hr]
      rfl
    rw [ht] at hst' ⊢
    cases hok : r.ok with
    | false => exact absurd ((hspec.rejected hok).trans hst) hst'
    | true =>
        obtain ⟨_, hpair, c, hc, hcpk, hcsk⟩ := cryptoRecvHelloSendCookie_pair hr hok
        refine ⟨?_, hpair, c, ?_, hcpk, hcsk⟩
        · exact congrArg some (hspec.accepted hok).2.symm
        · show (t.history.cookies ++ r.cookie.toList).getLast? = some c
          rw [hc]
          exact List.getLast?_concat
  initiate := by
    intro t env h hst _
    obtain ⟨hcpk, hspk, hssk⟩ := parseInitiate_keys (S := S) t env
    exact (h (by rw [hst]; nofun)).of_eq rfl rfl hcpk hspk hssk
  messages := by
    intro t env h hst
    obtain ⟨new, hrec, hhist⟩ := (parseMessages_received (S := S) t env).received
    have hcc := hrec.frame
    have hst' : t.cc.state ≠ .initial := by
      rw [hcc] at hst
      exact hst
    exact (h hst').of_eq (by rw [hhist]) (by rw [hhist]) (by rw [hcc]) (by rw [hcc]) (by rw [hcc])
  clearKey := fun _ h hst => (h hst).of_eq rfl rfl rfl rfl rfl
  close := fun _ h hst => (h hst).of_eq rfl rfl rfl rfl rfl
  halt := fun _ h hst => (h hst).of_eq rfl rfl rfl rfl rfl
  tick := fun _ _ h hst => (h hst).of_eq rfl rfl rfl rfl rfl
  write := by
    intro t data env h _ hst
    obtain ⟨hcc, _, hstate⟩ := cryptoWrite_frame (S := S) t.cc data env
    have hst' : t.cc.state ≠ .initial := fun h0 => hst (hstate.trans h0)
    have hwritten : (afterWrite t (cryptoWrite S t.cc data env)).cc = { t.cc with
        nonce := (cryptoWrite S t.cc data env).cc.nonce } := hcc
    exact (h hst').of_eq rfl rfl (by rw [hwritten]) (by rw [hwritten]) (by rw [hwritten])

/-! ## §2 The session key -/

/-- The cookie in an initiate packet is the one of the most recent accepted hello: if it opens and is for the
client key of the context, it holds the secret half of the pair in the context. -/
def LatestCookie (S : Server) (s : Tunnel) : Event → Prop
  | .read seg renv => s.cc.state = .cookieSent →
      ∀ cookie ∈ openCookie S s.cc (cryptoMinuteKey ++ field (initiateBytes s seg renv) 8 16)
        (field (initiateBytes s seg renv) 24 80),
        byteIsequal s.cc.clientshorttermpk.bytes 32 (cookie.drop 32) ≠ 0 →
          field cookie 64 32 = s.cc.servershorttermsk.bytes
  | _ => True

instance (S : Server) (s : Tunnel) : ∀ e, Decidable (LatestCookie S s e)
  | .read _ _ => inferInstanceAs (Decidable (_ → ∀ cookie ∈ openCookie S s.cc _ _, _ → _))
  | .eof => inferInstanceAs (Decidable True)
  | .tick _ => inferInstanceAs (Decidable True)
  | .write _ _ => inferInstanceAs (Decidable True)

/-- The session key is the shared key of the client's short-term key and the pair in the context. -/
def SessionKeyed (S : Server) (t : Tunnel) : Prop :=
  t.cc.clientshortservershort = cryptoBoxBeforenm S t.cc.clientshorttermpk.bytes t.cc.servershorttermsk.bytes

/-- An accepted initiate packet computes the session key from the secret in its cookie. -/
theorem cryptoRecvInitiate_session {cc cc' : CryptoContext} {data : Bytes} {db : Authorized}
    (h : cryptoRecvInitiate S cc data db = (cc', true)) :
    ∃ cookie, openCookie S cc (cryptoMinuteKey ++ field data 8 16) (field data 24 80) = some cookie ∧
      byteIsequal cc.clientshorttermpk.bytes 32 (cookie.drop 32) ≠ 0 ∧
      cc'.clientshortservershort = cryptoBoxBeforenm S cc.clientshorttermpk.bytes (field cookie 64 32) := by
  have hfalse : ∀ c : CryptoContext, ¬ (c, false) = (cc', true) := by simp
  unfold cryptoRecvInitiate at h
  split at h
  · exact absurd h (hfalse _)
  split at h
  · exact absurd h (hfalse _)
  rename_i cookie hcookie
  split at h
  · exact absurd h (hfalse _)
  rename_i hclient
  refine ⟨cookie, hcookie, hclient, ?_⟩
  dsimp only at h
  split at h
  · exact absurd h (hfalse _)
  split at h
  · exact absurd h (hfalse _)
  split at h
  · exact absurd h (hfalse _)
  split at h
  · exact absurd h (hfalse _)
  split at h
  · exact absurd h (hfalse _)
  split at h
  · exact absurd h (hfalse _)
  cases h
  rfl

/-- **What a session key is bound to**: the key pair of the most recent accepted hello. -/
structure SessionBound (S : Server) (t : Tunnel) : Prop where
  session : SessionKeyed S t
  pair : KeyPair S t

/-- The initiate packet that establishes a connection names both short-term keys of the context in its vouch. -/
def Vouched (S : Server) (s : Tunnel) (e : Event) (s' : Tunnel) : Prop :=
  ∃ seg renv k cookie initiate vouch cc', e = .read seg renv ∧
    InitiateSpec (S := S) s.cc (initiateBytes s seg renv) renv.db k cookie initiate vouch cc' ∧
    field vouch 0 32 = s'.cc.clientshorttermpk.bytes ∧ field vouch 32 32 = s'.cc.servershorttermpk.bytes

theorem sessionKeyed_messages (t : Tunnel) (env : ReadEnv) :
    SessionKeyed S (afterRead (parseMessages S t env)) ↔ SessionKeyed S t := by
  obtain ⟨new, hrec, _⟩ := (parseMessages_received (S := S) t env).received
  unfold SessionKeyed
  rw [afterRead_cc, hrec.frame]

/-- The session key after the initiate packet of a step. -/
theorem sessionKeyed_initiate {s : Tunnel} {seg : Bytes} {renv : ReadEnv} (hst : s.cc.state = .cookieSent)
    (hlatest : LatestCookie S s (.read seg renv))
    (hest : (parseInitiate S (s.arrived seg renv) renv).cc.state = .established) :
    SessionKeyed S (parseInitiate S (s.arrived seg renv) renv) := by
  obtain ⟨hcpk, _, hssk⟩ := parseInitiate_keys (S := S) (s.arrived seg renv) renv
  rcases hr : cryptoRecvInitiate S s.cc (initiateBytes s seg renv) renv.db with ⟨cc', ok⟩
  have hcc : (parseInitiate S (s.arrived seg renv) renv).cc = if ok then cc'
      else { cc' with state := .initial } := by
    have h : cryptoRecvInitiate S (s.arrived seg renv).cc (stackBuffer 256
      (inputstreamRead (s.arrived seg renv).istream 256).2 renv.stale) renv.db = (cc', ok) := hr
    simp only [parseInitiate, h]
  cases ok with
  | false =>
      rw [hcc] at hest
      cases hest
  | true =>
      obtain ⟨cookie, hopen, hclient, hsession⟩ := cryptoRecvInitiate_session hr
      have hsk := hlatest hst cookie hopen hclient
      unfold SessionKeyed
      rw [hcpk, hssk, hcc]
      show cc'.clientshortservershort = _
      rw [hsession, hsk]
      rfl

/-- **A step of such packets keeps established sessions keyed.** -/
theorem sessionKeyed_step {s s' : Tunnel} {e : Event} (h : s.cc.state = .established → SessionKeyed S s)
    (hlatest : LatestCookie S s e) (hs : step S s e = some s') (hest : s'.cc.state = .established) :
    SessionKeyed S s' := by
  cases e with
  | read seg renv =>
      obtain ⟨_, _, hcases⟩ := step_read hs
      rcases hcases with ⟨hst, rfl⟩ | ⟨hst, ⟨_, rfl⟩ | ⟨_, rfl⟩⟩ | ⟨hst, rfl⟩
      · -- a hello packet leads to the cookie-sent state at most
        have hspec := cryptoRecvHelloSendCookie_cases (S := S) s.cc (stackBuffer 192
          (inputstreamRead (s.arrived seg renv).istream 192).2 renv.stale) renv.hello
        have hstate : (cryptoRecvHelloSendCookie S s.cc (stackBuffer 192
          (inputstreamRead (s.arrived seg renv).istream 192).2 renv.stale) renv.hello).cc.state =
            .established := hest
        cases hok : (cryptoRecvHelloSendCookie S s.cc (stackBuffer 192
            (inputstreamRead (s.arrived seg renv).istream 192).2 renv.stale) renv.hello).ok with
        | false =>
            rw [hspec.rejected hok, hst] at hstate
            cases hstate
        | true =>
            rw [(hspec.accepted hok).1] at hstate
            cases hstate
      · exact sessionKeyed_initiate hst hlatest hest
      · refine (sessionKeyed_messages _ renv).mpr (sessionKeyed_initiate hst hlatest ?_)
        obtain ⟨new, hrec, _⟩ :=
          (parseMessages_received (S := S) (parseInitiate S (s.arrived seg renv) renv) renv).received
        rw [afterRead_cc, hrec.frame] at hest
        exact hest
      · exact (sessionKeyed_messages (s.arrived seg renv) renv).mpr (h hst)
  | eof =>
      simp only [step] at hs
      split at hs
      · cases hs
      · cases hs
        exact h hest
  | tick fresh =>
      simp only [step] at hs
      split at hs
      · cases hs
      · cases hs
        exact h hest
  | write data wenv =>
      simp only [step] at hs
      split at hs
      · cases hs
      · cases hs
        obtain ⟨hcc, _, hstate⟩ := cryptoWrite_frame (S := S) s.cc data wenv
        have hkeyed := h (hstate.symm.trans hest)
        unfold SessionKeyed at hkeyed ⊢
        show (cryptoWrite S s.cc data wenv).cc.clientshortservershort = _
        rw [show (afterWrite s (cryptoWrite S s.cc data wenv)).cc = (cryptoWrite S s.cc data wenv).cc from rfl,
          hcc]
        exact hkeyed

/-- A read callback in the cookie-sent state leaves the short-term keys as they are. -/
theorem step_keys {s s' : Tunnel} {seg : Bytes} {renv : ReadEnv} (hst : s.cc.state = .cookieSent)
    (hs : step S s (.read seg renv) = some s') :
    s'.cc.clientshorttermpk = s.cc.clientshorttermpk ∧ s'.cc.servershorttermpk = s.cc.servershorttermpk := by
  obtain ⟨hcpk, hspk, _⟩ := parseInitiate_keys (S := S) (s.arrived seg renv) renv
  obtain ⟨_, _, hcases⟩ := step_read hs
  rcases hcases with ⟨hst', _⟩ | ⟨_, ⟨_, rfl⟩ | ⟨_, rfl⟩⟩ | ⟨hst', _⟩
  · rw [hst] at hst'
    cases hst'
  · exact ⟨hcpk, hspk⟩
  · obtain ⟨new, hrec, _⟩ :=
      (parseMessages_received (S := S) (parseInitiate S (s.arrived seg renv) renv) renv).received
    rw [afterRead_cc, hrec.frame]
    exact ⟨hcpk, hspk⟩
  · rw [hst] at hst'
    cases hst'

theorem keyPair_init (env : CreateEnv) :
    (connectionCreate env).cc.state ≠ .initial → KeyPair S (connectionCreate env) :=
  fun hst => absurd rfl hst

/-- **The session key binds to the vouched ephemeral key**, in every run in which the cookies that come back are
those of the most recent accepted hello. -/
theorem session_key_bound (env : CreateEnv) {es : List Event}
    (hlatest : Along (step S) (fun s e _ => LatestCookie S s e) (connectionCreate env) es) :
    Along (step S) (fun s e s' => s'.cc.state = .established →
      SessionBound S s' ∧ (s.cc.state ≠ .established → Vouched S s e s')) (connectionCreate env) es := by
  refine along_of_invariant (I := fun s => (s.cc.state ≠ .initial → KeyPair S s) ∧
    (s.cc.state = .established → SessionKeyed S s)) ?_ ⟨keyPair_init env, fun hest => by cases hest⟩ hlatest
  rintro s e s' ⟨hpair, hkeyed⟩ hcookie hs
  have hpair' := keyPair_closed.step hpair hs
  have hkeyed' : s'.cc.state = .established → SessionKeyed S s' := sessionKeyed_step hkeyed hcookie hs
  refine ⟨⟨hpair', hkeyed'⟩, fun hest => ⟨⟨hkeyed' hest, hpair' ?_⟩, fun hne => ?_⟩⟩
  · rw [hest]
    nofun
  · obtain ⟨hst, seg, renv, cc', rfl, hr, _⟩ := step_established hs hne hest
    obtain ⟨k, cookie, initiate, vouch, hspec⟩ :=
      cryptoRecvInitiate_established (initiateBytes_length s seg renv) hr
    obtain ⟨hcpk, hspk⟩ := step_keys hst hs
    refine ⟨seg, renv, k, cookie, initiate, vouch, cc', rfl, hspec, ?_, ?_⟩
    · rw [hcpk]
      exact hspec.vouch_client
    · rw [hspk]
      exact hspec.vouch_server

/-- The handshake of the sample client meets the condition. -/
theorem session_key_bound_sample :
    ∃ s, exec (step Sample.server) (connectionCreate Sample.create) Sample.handshake = some s ∧
      s.cc.state = .established ∧ SessionBound Sample.server s := by
  have hlatest : Along (step Sample.server) (fun s e _ => LatestCookie Sample.server s e)
      (connectionCreate Sample.create) Sample.handshake := by
    decide +kernel
  have hrun : (exec (step Sample.server) (connectionCreate Sample.create) Sample.handshake).any
      (fun s => decide (s.cc.state = .established)) = true := by
    rw [Sample.exec_handshake]
    decide +kernel
  obtain ⟨s, hex, hest⟩ := (Option.any_eq_true _ _).mp hrun
  have hest : s.cc.state = .established := of_decide_eq_true hest
  have hbound : Always (step Sample.server) (fun s => s.cc.state = .established → SessionBound Sample.server s)
      (connectionCreate Sample.create) Sample.handshake :=
    ⟨fun h => (nomatch h), (session_key_bound Sample.create hlatest).imp fun _ _ _ h hest => (h hest).1⟩
  exact ⟨s, hex, hest, hbound.exec hex hest⟩

/-- What the server takes from outside for a second hello: another key pair, another nonce. -/
def Sample.secondEnv : ReadEnv := { Sample.env with hello := ⟨Sample.fill 32 9, some (Sample.fill 16 6), true⟩ }

/-- An initiate packet with the cookie of the first hello and a vouch for the key pair of the second. -/
def Sample.oldCookie : Bytes :=
  initiatePacket Sample.server (Sample.fill 16 7)
    (cookieBox Sample.server (Sample.fill 32 4) (Sample.fill 16 7) (Sample.fill 32 1) (Sample.fill 32 2)) 3
    Sample.session (Sample.fill 32 3) (Sample.fill 16 8)
    (vouchBox Sample.server (Sample.fill 32 3) (Sample.fill 32 1) (Sample.fill 32 9) (Sample.fill 16 8))

/-- A hello, an initiate packet that is refused, a second hello with the same short-term key, and an initiate
packet with the first cookie. -/
def Sample.oldCookieRun : List Event :=
  [.read Sample.hello Sample.env, .read (zeros 256) Sample.env, .read Sample.hello Sample.secondEnv,
    .read Sample.oldCookie Sample.env]

/-- **A session under a key pair that the vouch does not name.** -/
theorem session_key_unbound :
    ∃ s, exec (step Sample.server) (connectionCreate Sample.create) Sample.oldCookieRun = some s ∧
      s.cc.state = .established ∧ s.cc.servershorttermsk = Sample.fill 32 9 ∧
      s.cc.servershorttermpk = Buffer.copy 32 (Sample.server.nacl.scalarmultBase (Sample.fill 32 9).bytes) ∧
      ¬ SessionKeyed Sample.server s := by
  have hrun : (exec (step Sample.server) (connectionCreate Sample.create) Sample.oldCookieRun).any (fun s =>
      decide (s.cc.state = .established) && decide (s.cc.servershorttermsk = Sample.fill 32 9) &&
        decide (s.cc.servershorttermpk =
          Buffer.copy 32 (Sample.server.nacl.scalarmultBase (Sample.fill 32 9).bytes)) &&
        decide (s.cc.clientshortservershort ≠ cryptoBoxBeforenm Sample.server s.cc.clientshorttermpk.bytes
          s.cc.servershorttermsk.bytes)) = true := by
    decide +kernel
  obtain ⟨s, hex, hs⟩ := (Option.any_eq_true _ _).mp hrun
  simp only [Bool.and_eq_true, decide_eq_true_eq] at hs
  obtain ⟨⟨⟨hest, hsk⟩, hpk⟩, hkey⟩ := hs
  exact ⟨s, hex, hest, hsk, hpk, hkey⟩

end SploneBox
