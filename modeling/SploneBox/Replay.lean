/-
# SploneBox.Replay — the receiver's counter, and what it says about boxes accepted twice.

Three functions move `receivednonce`: `crypto_recv_initiate` and `crypto_verify_header` to the nonce of
the packet, if that is odd and greater, and `crypto_read` by 2, whatever it was. The abstract receiver
`accept` is a counter with exactly these two moves, driven by the boxes accepted; the tunnel refines it
(`window_closed`): in every reachable state the boxes accepted so far drive `accept` from 0 to
`receivednonce`.

The move by 2 is not guarded. It is upward for every counter but `2 ^ 64 - 1`, a value a header may
carry: from there the payload is opened under the nonce 1 and the window starts again from the bottom.
`accepted_increasing_iff` says that this is the only way: on every run the nonces accepted are strictly
increasing exactly if no payload was opened with the counter at `2 ^ 64 - 1`.
-/
import SploneBox.Client

namespace SploneBox

open Lib.Machine Lib.Memory

/-! ## §1 The abstract receiver -/

/-- **The receiver's counter**: every box is admitted under an odd number, a payload under the next
one, an initiate packet or a header under any greater one. -/
def accept (r : UInt64) (a : Accepted) : Option UInt64 :=
  if a.receivednonce = r ∧ isOdd a.nonce = true ∧
      (if a.kind = .payload then a.nonce = r + 2 else r < a.nonce) then some a.nonce
  else none

theorem accept_eq_some {r r' : UInt64} {a : Accepted} :
    accept r a = some r' ↔ a.receivednonce = r ∧ isOdd a.nonce = true ∧
      (if a.kind = .payload then a.nonce = r + 2 else r < a.nonce) ∧ a.nonce = r' := by
  unfold accept
  rw [Option.ite_none_right_eq_some, Option.some.injEq]
  simp only [and_assoc]

/-- The top of the counter's range. -/
def topNonce : UInt64 := 0xffffffffffffffff

/-- Where a payload is expected behind an odd number, the only one without a successor is the top. -/
theorem lt_add_two_iff {r : UInt64} (hodd : isOdd (r + 2) = true) : r < r + 2 ↔ r ≠ topNonce := by
  rw [isOdd_add_two, isOdd_iff] at hodd
  rw [UInt64.lt_iff_toNat_lt, UInt64.toNat_add, ne_eq, ← UInt64.toNat_inj]
  have h2 : (2 : UInt64).toNat = 2 := rfl
  have htop : topNonce.toNat = 2 ^ 64 - 1 := rfl
  have hlt := UInt64.toNat_lt r
  omega

/-- **A move of the counter is upward exactly if it is not the payload move from the top.** -/
theorem accept_lt_iff {r r' : UInt64} {a : Accepted} (h : accept r a = some r') :
    r < r' ↔ ¬ (a.kind = .payload ∧ a.receivednonce = topNonce) := by
  obtain ⟨hrec, hodd, hmove, rfl⟩ := accept_eq_some.mp h
  by_cases hk : a.kind = .payload
  · rw [if_pos hk] at hmove
    rw [hmove] at hodd ⊢
    rw [lt_add_two_iff hodd, hrec]
    simp [hk]
  · rw [if_neg hk] at hmove
    simp [hk, hmove]

/-- A payload admitted at the top is not above the box before it. -/
theorem exec_accept_top {as : List Accepted} {t : UInt64} (hex : exec accept 0 as = some t)
    (hpw : (as.map Accepted.nonce).Pairwise (· < ·)) :
    ∀ a ∈ as, ¬ (a.kind = .payload ∧ a.receivednonce = topNonce) := by
  intro a ha htop
  obtain ⟨before, after, rfl⟩ := List.append_of_mem ha
  obtain ⟨r, hbefore, hrest⟩ := exec_append.mp hex
  obtain ⟨r', haccept, _⟩ := exec_cons.mp hrest
  have hnot : ¬ r < r' := fun hlt => (accept_lt_iff haccept).mp hlt htop
  obtain ⟨hrec, _, _, hnonce⟩ := accept_eq_some.mp haccept
  -- the counter stands at the top, so a box has moved it there
  rcases List.eq_nil_or_concat' before with rfl | ⟨init, b, rfl⟩
  · cases hbefore
    rw [hrec] at htop
    exact absurd htop.2 (by decide)
  · obtain ⟨q, _, hlast⟩ := exec_append.mp hbefore
    obtain ⟨_, _, _, hbn⟩ := accept_eq_some.mp (exec_singleton.mp hlast)
    have hlt : b.nonce < a.nonce := by
      rw [List.map_append, List.pairwise_append] at hpw
      exact hpw.2.2 _ (by simp) _ (by simp)
    rw [hbn, hnonce] at hlt
    exact hnot hlt

/-! ## §2 The tunnel refines it -/

variable {S : Server}

/-- Between two contexts nothing changed but `receivednonce`, and the boxes accepted drive the counter
from the one to the other. -/
structure Received (cc : CryptoContext) (accepted : List Accepted) (cc' : CryptoContext) : Prop where
  frame : cc' = { cc with receivednonce := cc'.receivednonce }
  window : exec accept cc.receivednonce accepted = some cc'.receivednonce

theorem Received.refl (cc : CryptoContext) : Received cc [] cc := ⟨rfl, rfl⟩

theorem Received.trans {cc cc' cc'' : CryptoContext} {as bs : List Accepted} (h : Received cc as cc')
    (h' : Received cc' bs cc'') : Received cc (as ++ bs) cc'' := by
  refine ⟨?_, exec_append.mpr ⟨_, h.window, h'.window⟩⟩
  rw [h'.frame, h.frame]

theorem received_header {cc : CryptoContext} {data : Bytes} {r : HeaderResult}
    (hr : r = cryptoVerifyHeader S cc data) :
    Received cc (headerAccepted cc data r) r.cc ∧ (r.ok = true → isOdd r.cc.receivednonce = true) := by
  rcases cryptoVerifyHeader_cases (S := S) cc data with h | ⟨length, hgt, hodd, h⟩
  · rw [hr, h]
    exact ⟨Received.refl cc, fun hok => by cases hok⟩
  · rw [hr, h]
    exact ⟨⟨rfl, exec_singleton.mpr (accept_eq_some.mpr ⟨rfl, hodd, hgt, rfl⟩)⟩, fun _ => hodd⟩

theorem received_payload {cc cc' : CryptoContext} {p : Packet} {data : Nat → UInt8} {alloc : Bool}
    {m : Bytes} (hodd : isOdd cc.receivednonce = true)
    (h : readPacket S cc p data alloc = some (cc', m)) :
    Received cc [payloadAccepted cc p data] cc' ∧ isOdd cc'.receivednonce = true := by
  obtain ⟨rfl, _, _⟩ := cryptoRead_some h
  have hodd' : isOdd (cc.receivednonce + 2) = true := by rwa [isOdd_add_two]
  exact ⟨⟨rfl, exec_singleton.mpr (accept_eq_some.mpr ⟨rfl, hodd', rfl, rfl⟩)⟩, hodd'⟩

/-- The copy of a turn does not touch the crypto context. -/
theorem takeBytes_frame {l l₁ : Loop} {data data₁ : Nat → UInt8} (h : takeBytes l data = (l₁, data₁)) :
    l₁.cc = l.cc ∧ l₁.accepted = l.accepted := by
  cases h
  exact ⟨rfl, rfl⟩

/-- What the loop knows of the context, `cc` being the one the callback started with: the counter is
odd, because a header has been accepted. -/
def Receiving (cc : CryptoContext) (l : Loop) : Prop :=
  Received cc l.accepted l.cc ∧ isOdd l.cc.receivednonce = true

theorem nextHeader_received {cc : CryptoContext} {l : Loop} (h : Receiving cc l) :
    Received cc (nextHeader S l).1.accepted (nextHeader S l).1.cc ∧
      ((nextHeader S l).2 = .again → Receiving cc (nextHeader S l).1) := by
  rcases nextHeader_cases (S := S) l with hq | ⟨data, r, _, hr, _, ⟨_, hq⟩ | ⟨hok, hq⟩⟩
  · rw [hq]
    exact ⟨h.1, fun hn => by cases hn⟩
  · rw [hq]
    exact ⟨h.1.trans (received_header hr).1, fun hn => by cases hn⟩
  · rw [hq]
    have hrec := h.1.trans (received_header hr).1
    exact ⟨hrec, fun _ => ⟨hrec, (received_header hr).2 hok⟩⟩

theorem parseTurn_received {cc : CryptoContext} {l : Loop} (h : Receiving cc l) (alloc : Bool) :
    Received cc (parseTurn S l alloc).1.accepted (parseTurn S l alloc).1.cc ∧
      ((parseTurn S l alloc).2 = .again → Receiving cc (parseTurn S l alloc).1) := by
  cases hd : l.packet.data with
  | none =>
      have hturn : parseTurn S l alloc = (l, .aborted) := by
        unfold parseTurn
        rw [hd]
      rw [hturn]
      exact ⟨h.1, fun hn => by cases hn⟩
  | some data =>
      rcases h₁ : takeBytes l data with ⟨l₁, data₁⟩
      obtain ⟨hcc, hacc⟩ := takeBytes_frame h₁
      have hl₁ : Receiving cc l₁ := by
        rw [Receiving, hcc, hacc]
        exact h
      rcases parseTurn_cases (S := S) hd alloc h₁ with
        ⟨_, hp⟩ | ⟨_, _, hp⟩ | ⟨cc', m, hopen, ⟨_, _, hp⟩ | ⟨_, hp⟩⟩
      · rw [hp]
        exact ⟨hl₁.1, fun hn => by cases hn⟩
      · rw [hp]
        exact ⟨hl₁.1, fun hn => by cases hn⟩
      · obtain ⟨hrec, hodd⟩ := received_payload hl₁.2 hopen
        rw [hp]
        exact nextHeader_received ⟨hl₁.1.trans hrec, hodd⟩
      · obtain ⟨hrec, hodd⟩ := received_payload hl₁.2 hopen
        rw [hp]
        exact ⟨hl₁.1.trans hrec, fun _ => ⟨hl₁.1.trans hrec, hodd⟩⟩

theorem parseLoop_received {cc : CryptoContext} {l : Loop} (h : Receiving cc l) (alloc : Nat → Bool)
    (fuel : Nat) :
    Received cc (parseLoop S alloc fuel l).1.accepted (parseLoop S alloc fuel l).1.cc :=
  parseLoop_rule (I := Receiving cc) (Q := fun x => Received cc x.1.accepted x.1.cc)
    (fun _ h' => h'.1) (fun _ a h' hn => (parseTurn_received h' a).2 hn)
    (fun _ a h' _ => (parseTurn_received h' a).1) fuel l h

/-- What the message part of `parse_cb` does to a connection: it moves nothing of the context but the
counter, as the boxes it accepts do, and records nothing else but its turns. -/
structure MessagesSpec (t t' : Tunnel) : Prop where
  received : ∃ new, Received t.cc new t'.cc ∧ t'.history = { t.history with
    accepted := t.history.accepted ++ new
    turns := t'.history.turns }
  halted : t'.halted = t.halted
  closed : t'.closed = t.closed

theorem parseMessages_received (t : Tunnel) (env : ReadEnv) :
    MessagesSpec t (parseMessages S t env).tunnel := by
  rcases parseMessages_cases (S := S) t env with
    ⟨hp, _⟩ | ⟨hp, _⟩ | ⟨data, r, _, hr, _, _, _, ⟨packet, _, _, hp⟩ | ⟨hok, _, _, hp⟩⟩
  · rw [hp]
    exact ⟨⟨[], Received.refl _, by simp⟩, rfl, rfl⟩
  · rw [hp]
    exact ⟨⟨[], Received.refl _, by simp⟩, rfl, rfl⟩
  · rw [hp]
    exact ⟨⟨headerAccepted t.cc data r, (received_header hr).1, rfl⟩, rfl, rfl⟩
  · rw [hp]
    have hfirst : Receiving t.cc (firstTurn t env data r (inputstreamGetRead t.istream).2) :=
      ⟨(received_header hr).1, (received_header hr).2 hok⟩
    have hloop := parseLoop_received (S := S) hfirst env.readAlloc (t.istream.size + 2)
    generalize parseLoop S env.readAlloc (t.istream.size + 2)
      (firstTurn t env data r (inputstreamGetRead t.istream).2) = x at hloop ⊢
    exact ⟨⟨x.1.accepted, by rwa [finishLoop_cc], by rw [finishLoop_history]⟩,
      (finishLoop_flags t x).1, (finishLoop_flags t x).2⟩

/-- The message part keeps the state and the string. -/
theorem parseMessages_key (t : Tunnel) (env : ReadEnv) :
    (parseMessages S t env).tunnel.cc.state = t.cc.state ∧
      (parseMessages S t env).tunnel.cc.pluginkeystring = t.cc.pluginkeystring := by
  obtain ⟨new, hrec, _⟩ := (parseMessages_received (S := S) t env).received
  rw [hrec.frame]
  exact ⟨rfl, rfl⟩

theorem parseMessages_outcome (t : Tunnel) (env : ReadEnv) :
    (parseMessages S t env).outcome ≠ .duplicate ∧ (parseMessages S t env).register = false := by
  rcases parseMessages_cases (S := S) t env with
    ⟨hp, _⟩ | ⟨hp, _⟩ | ⟨data, r, _, _, _, _, _, ⟨packet, _, _, hp⟩ | ⟨_, _, _, hp⟩⟩
  · simp [hp]
  · simp [hp]
  · simp [hp]
  · rw [hp]
    unfold finishLoop
    dsimp only
    split <;> simp

/-- What happened between two states of a connection, as far as the counter is concerned. -/
def Window (t t' : Tunnel) : Prop :=
  ∃ new, t'.history.accepted = t.history.accepted ++ new ∧
    exec accept t.cc.receivednonce new = some t'.cc.receivednonce

theorem Window.refl (t : Tunnel) : Window t t := ⟨[], by simp, rfl⟩

theorem Window.trans {t t' t'' : Tunnel} (h : Window t t') (h' : Window t' t'') : Window t t'' := by
  obtain ⟨new, hacc, hex⟩ := h
  obtain ⟨new', hacc', hex'⟩ := h'
  exact ⟨new ++ new', by rw [hacc', hacc, List.append_assoc], exec_append.mpr ⟨_, hex, hex'⟩⟩

/-- A change that touches neither the counter nor the record of accepted boxes. -/
theorem Window.of_eq {t t' t'' : Tunnel} (h : Window t t')
    (hacc : t''.history.accepted = t'.history.accepted)
    (hcc : t''.cc.receivednonce = t'.cc.receivednonce) : Window t t'' := by
  unfold Window
  rw [hacc, hcc]
  exact h

/-- **Every operation of the tunnel is a run of the abstract receiver.** -/
theorem window_closed (t₀ : Tunnel) : Closed S (Window t₀) where
  segment := fun _ _ _ h _ => h
  hello := by
    intro t env h _
    have hspec := cryptoRecvHelloSendCookie_cases (S := S) t.cc
      (stackBuffer 192 (inputstreamRead t.istream 192).2 env.stale) env.hello
    refine h.of_eq rfl ?_
    simp only [parseHello]
    rw [hspec.frame]
  initiate := by
    intro t env h _
    refine h.trans ?_
    unfold parseInitiate
    dsimp only
    rcases hr : cryptoRecvInitiate S t.cc (stackBuffer 256 (inputstreamRead t.istream 256).2 env.stale)
      env.db with ⟨cc, ok⟩
    cases ok with
    | false =>
        have hcc := cryptoRecvInitiate_rejected hr
        exact ⟨[], rfl, by rw [hcc]; rfl⟩
    | true =>
        obtain ⟨_, _, _, _, hspec⟩ :=
          cryptoRecvInitiate_established (by simp [stackBuffer, Buffer.length_eq]) hr
        refine ⟨_, rfl, exec_singleton.mpr ?_⟩
        rw [hspec.context]
        exact accept_eq_some.mpr ⟨rfl, hspec.nonce_odd, hspec.nonce_gt, rfl⟩
  messages := by
    intro t env h
    obtain ⟨new, hrec, hhist⟩ := (parseMessages_received (S := S) t env).received
    exact h.trans ⟨new, by rw [hhist], hrec.window⟩
  clearKey := fun _ h => h
  close := fun _ h => h
  halt := fun _ h => h
  tick := fun _ _ h => h
  write := by
    intro t data env h _
    refine h.of_eq rfl ?_
    exact (cryptoWrite_frame (S := S) t.cc data env).2.1

theorem step_window {t t' : Tunnel} {e : Event} (h : step S t e = some t') : Window t t' :=
  (window_closed t).step (Window.refl t) h

/-- Every box admitted has an odd nonce. -/
theorem exec_accept_odd {as : List Accepted} {r r' : UInt64} (h : exec accept r as = some r') :
    ∀ a ∈ as, isOdd a.nonce = true := by
  intro a ha
  obtain ⟨before, after, rfl⟩ := List.append_of_mem ha
  obtain ⟨q, _, hrest⟩ := exec_append.mp h
  obtain ⟨q', haccept, _⟩ := exec_cons.mp hrest
  exact (accept_eq_some.mp haccept).2.1

/-! ## §3 Runs -/

/-- The boxes accepted on a run from `t` to `t'` that were no payload at the top of the range. -/
def NoTopPayload (t : Tunnel) : Prop :=
  ∀ a ∈ t.history.accepted, ¬ (a.kind = .payload ∧ a.receivednonce = topNonce)

/-- A run is a run of the abstract receiver, and if no payload was accepted at the top the counter
never went down on the way. -/
theorem run_window : ∀ {es : List Event} {t t' : Tunnel}, exec (step S) t es = some t' →
    Window t t' ∧ (NoTopPayload t' →
      Along (step S) (fun s _ s' => s.cc.receivednonce ≤ s'.cc.receivednonce) t es)
  | [], t, t', h => by
      cases h
      exact ⟨Window.refl t, fun _ => trivial⟩
  | e :: es, t, t', h => by
      obtain ⟨s, hs, hrest⟩ := exec_cons.mp h
      obtain ⟨hwin, halong⟩ := run_window hrest
      refine ⟨(step_window hs).trans hwin, fun htop s' hs' => ?_⟩
      cases hs.symm.trans hs'
      obtain ⟨new, hacc, hex⟩ := step_window hs
      obtain ⟨new', hacc', _⟩ := hwin
      have hup : ∀ a ∈ new, ∀ r r', accept r a = some r' → r < r' ∧ a.nonce = r' := by
        intro a ha r r' haccept
        have hmem : a ∈ t'.history.accepted := by
          rw [hacc', hacc]
          simp [ha]
        exact ⟨(accept_lt_iff haccept).mpr (htop a hmem), (accept_eq_some.mp haccept).2.2.2⟩
      refine ⟨?_, halong htop⟩
      rcases (exec_increasing (R := (· < ·)) (fun _ _ _ => UInt64.lt_trans) hup hex).2.2 with heq | hlt
      · exact UInt64.le_of_eq heq
      · exact UInt64.le_of_lt hlt

/-- **No replay, below the top of the range.** On every run of a connection the client nonces accepted
are strictly increasing, `receivednonce` never decreases and no box is accepted twice, if and only if no
payload is accepted while `receivednonce` is `2 ^ 64 - 1`. -/
theorem accepted_increasing_iff (env : CreateEnv) (es : List Event) (t : Tunnel)
    (h : exec (step S) (connectionCreate env) es = some t) :
    ((t.history.accepted.map Accepted.nonce).Pairwise (· < ·) ∧
      Along (step S) (fun s _ s' => s.cc.receivednonce ≤ s'.cc.receivednonce)
        (connectionCreate env) es ∧
      (t.history.accepted.map fun a => (a.nonce, a.box)).Nodup) ↔
    ∀ a ∈ t.history.accepted, ¬ (a.kind = .payload ∧ a.receivednonce = topNonce) := by
  obtain ⟨⟨new, hacc, hex⟩, halong⟩ := run_window h
  have hnew : t.history.accepted = new := hacc
  rw [hnew]
  constructor
  · rintro ⟨hpw, _, _⟩
    exact exec_accept_top hex hpw
  · intro htop
    have hup : ∀ a ∈ new, ∀ r r', accept r a = some r' → r < r' ∧ a.nonce = r' :=
      fun a ha r r' haccept =>
        ⟨(accept_lt_iff haccept).mpr (htop a ha), (accept_eq_some.mp haccept).2.2.2⟩
    obtain ⟨hpw, _, _⟩ := exec_increasing (R := (· < ·)) (fun _ _ _ => UInt64.lt_trans) hup hex
    refine ⟨hpw, halong (by rw [NoTopPayload, hnew]; exact htop), ?_⟩
    have hpairs : (new.map fun a => (a.nonce, a.box)).Pairwise fun p q => p.1 < q.1 := by
      rw [List.pairwise_map] at hpw ⊢
      exact hpw
    exact hpairs.imp fun hlt heq => absurd (congrArg Prod.fst heq) (UInt64.ne_of_lt hlt)

/-- A packet under the last header nonce: its payload is opened under the nonce 1, which takes the
window back to the bottom, so the same packet is accepted again. -/
theorem top_nonce_packet_accepted_twice :
    ∃ t, exec (step Sample.server) (connectionCreate Sample.create)
        (Sample.handshake ++
          [.read (messagePacket Sample.server Sample.session topNonce [42]) Sample.env,
            .read (messagePacket Sample.server Sample.session topNonce [42]) Sample.env]) = some t ∧
      t.history.accepted.map Accepted.nonce = [3, topNonce, 1, topNonce, 1] ∧
      ¬ (t.history.accepted.map Accepted.nonce).Pairwise (· < ·) ∧
      ¬ (t.history.accepted.map fun a => (a.nonce, a.box)).Nodup ∧
      t.committed = [42, 42] := by
  have hrun : (exec (step Sample.server) (connectionCreate Sample.create)
      (Sample.handshake ++
        [.read (messagePacket Sample.server Sample.session topNonce [42]) Sample.env,
          .read (messagePacket Sample.server Sample.session topNonce [42]) Sample.env])).any
      (fun t => decide (t.history.accepted.map Accepted.nonce = [3, topNonce, 1, topNonce, 1] ∧
        ¬ (t.history.accepted.map Accepted.nonce).Pairwise (· < ·) ∧
        ¬ (t.history.accepted.map fun a => (a.nonce, a.box)).Nodup ∧
        t.committed = [42, 42])) = true := by
    rw [exec_append_of Sample.exec_handshake]
    decide +kernel
  obtain ⟨t, hex, ht⟩ := (Option.any_eq_true _ _).mp hrun
  exact ⟨t, hex, of_decide_eq_true ht⟩

/-- The run of a client that counts from 1: the condition holds, and so does the property. -/
theorem accepted_increasing_sample :
    ∃ t, exec (step Sample.server) (connectionCreate Sample.create)
        (Sample.handshake ++
          [.read (messagePacket Sample.server Sample.session 5 [42]) Sample.env]) = some t ∧
      t.history.accepted.length = 3 ∧
      (t.history.accepted.map Accepted.nonce).Pairwise (· < ·) := by
  have hrun : (exec (step Sample.server) (connectionCreate Sample.create)
      (Sample.handshake ++
        [.read (messagePacket Sample.server Sample.session 5 [42]) Sample.env])).any
      (fun t => decide (t.history.accepted.length = 3 ∧
        ∀ a ∈ t.history.accepted, ¬ (a.kind = .payload ∧ a.receivednonce = topNonce))) = true := by
    rw [exec_append_of Sample.exec_handshake]
    decide +kernel
  obtain ⟨t, hex, ht⟩ := (Option.any_eq_true _ _).mp hrun
  obtain ⟨hlen, htop⟩ := of_decide_eq_true ht
  exact ⟨t, hex, hlen, ((accepted_increasing_iff _ _ t hex).mpr htop).1⟩

end SploneBox
