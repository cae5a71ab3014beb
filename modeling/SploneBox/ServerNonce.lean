/-
# SploneBox.ServerNonce — the nonces `crypto_write` seals under.

`nonce_update` adds 2 and gives up when the sum is 0. That catches the overflow only because the counter
is even: `connection_create` rounds its random start up to an even number, and from then on the counter
is moved by `nonce_update` alone. The abstract counter is `bump`; the connection refines it
(`seal_closed`), with the one exception that a counter at 0 belongs to a process that has exited.

`sealed_nonces` collects the consequences for every run: the nonces are even, strictly increasing and
distinct, over both boxes of a packet, over failed writes and over repeated handshakes; the counter goes
down only to 0, and then nothing is sealed under it; and no accepted client nonce is among them.
-/
import SploneBox.Replay

namespace SploneBox

open Lib.Machine

/-! ## §1 The abstract counter -/

/-- **The server's counter**: the next value is the next even number, and never 0. -/
def bump (r n : UInt64) : Option UInt64 :=
  if n = r + 2 ∧ isOdd n = false ∧ n ≠ 0 then some n else none

theorem bump_eq_some {r r' n : UInt64} :
    bump r n = some r' ↔ n = r + 2 ∧ isOdd n = false ∧ n ≠ 0 ∧ n = r' := by
  unfold bump
  rw [Option.ite_none_right_eq_some, Option.some.injEq]
  simp only [and_assoc]

/-- An even number that is not 0 is above the number two below it. -/
theorem lt_of_even {r : UInt64} (heven : isOdd (r + 2) = false) (h0 : r + 2 ≠ 0) : r < r + 2 := by
  have hnot : ¬ (r + 2).toNat % 2 = 1 := by
    rw [← isOdd_iff, heven]
    simp
  rw [ne_eq, ← UInt64.toNat_inj] at h0
  rw [UInt64.lt_iff_toNat_lt]
  rw [UInt64.toNat_add] at hnot h0 ⊢
  have h2 : (2 : UInt64).toNat = 2 := rfl
  have hz : (0 : UInt64).toNat = 0 := rfl
  have hlt := UInt64.toNat_lt r
  omega

theorem bump_lt {r r' n : UInt64} (h : bump r n = some r') : r < r' ∧ n = r' := by
  obtain ⟨rfl, heven, h0, rfl⟩ := bump_eq_some.mp h
  exact ⟨lt_of_even heven h0, rfl⟩

theorem exec_bump_even {ns : List UInt64} {r r' : UInt64} (h : exec bump r ns = some r') :
    ∀ n ∈ ns, isOdd n = false ∧ n ≠ 0 := by
  intro n hn
  obtain ⟨before, after, rfl⟩ := List.append_of_mem hn
  obtain ⟨q, _, hrest⟩ := exec_append.mp h
  obtain ⟨q', hbump, _⟩ := exec_cons.mp hrest
  obtain ⟨_, heven, h0, _⟩ := bump_eq_some.mp hbump
  exact ⟨heven, h0⟩

/-! ## §2 The connection refines it -/

variable {S : Server}

/-- What happened between two states, as far as the server's counter is concerned: the nonces sealed
under drive `bump`, to the counter itself unless that is 0 and the process has exited. -/
def Sealed (s t : Tunnel) : Prop :=
  ∃ new r, t.history.sealed = s.history.sealed ++ new ∧ exec bump s.cc.nonce new = some r ∧
    isOdd r = false ∧ (t.cc.nonce = r ∨ (t.cc.nonce = 0 ∧ t.halted = true))

theorem Sealed.refl {t : Tunnel} (h : isOdd t.cc.nonce = false) : Sealed t t :=
  ⟨[], t.cc.nonce, by simp, rfl, h, Or.inl rfl⟩

/-- A change that touches neither the counter nor the record, and does not revive the process. -/
theorem Sealed.of_eq {s t t' : Tunnel} (h : Sealed s t)
    (hseal : t'.history.sealed = t.history.sealed) (hcc : t'.cc.nonce = t.cc.nonce)
    (hhalt : t.halted = true → t'.halted = true) : Sealed s t' := by
  obtain ⟨new, r, hnew, hex, heven, hnonce⟩ := h
  refine ⟨new, r, by rw [hseal, hnew], hex, heven, ?_⟩
  rw [hcc]
  exact hnonce.imp_right fun hz => ⟨hz.1, hhalt hz.2⟩

/-- A call of `crypto_write` is at most two moves of the counter, one for each box. -/
theorem afterWrite_sealed {s t : Tunnel} (h : Sealed s t) (hhalt : t.halted = false) {r : WriteResult}
    (hr : WriteSpec t.cc r) : Sealed s (afterWrite t r) := by
  obtain ⟨new, q, hnew, hex, heven, hnonce⟩ := h
  have hq : t.cc.nonce = q := hnonce.resolve_right fun hz => by
    rw [hhalt] at hz
    exact absurd hz.2 Bool.false_ne_true
  subst hq
  have heven₁ : isOdd (t.cc.nonce + 2) = false := by rwa [isOdd_add_two]
  have heven₂ : isOdd (t.cc.nonce + 2 + 2) = false := by rwa [isOdd_add_two]
  -- one record for each way through the function
  cases hr with
  | unchanged => exact ⟨new, t.cc.nonce, by simp [afterWrite, hnew], hex, heven, Or.inl rfl⟩
  | exitFirst h0 =>
      exact ⟨new, t.cc.nonce, by simp [afterWrite, hnew], hex, heven, Or.inr ⟨h0, rfl⟩⟩
  | headerOnly h0 =>
      refine ⟨new ++ [t.cc.nonce + 2], t.cc.nonce + 2, by simp [afterWrite, hnew], ?_, heven₁,
        Or.inl rfl⟩
      exact exec_append.mpr ⟨_, hex, exec_singleton.mpr (bump_eq_some.mpr ⟨rfl, heven₁, h0, rfl⟩)⟩
  | exitSecond h0 h0' =>
      refine ⟨new ++ [t.cc.nonce + 2], t.cc.nonce + 2, by simp [afterWrite, hnew], ?_, heven₁,
        Or.inr ⟨h0', rfl⟩⟩
      exact exec_append.mpr ⟨_, hex, exec_singleton.mpr (bump_eq_some.mpr ⟨rfl, heven₁, h0, rfl⟩)⟩
  | both h0 h0' o _ =>
      refine ⟨new ++ [t.cc.nonce + 2, t.cc.nonce + 2 + 2], t.cc.nonce + 2 + 2,
        by simp [afterWrite, hnew], ?_, heven₂, Or.inl rfl⟩
      refine exec_append.mpr ⟨_, hex, exec_cons.mpr ⟨t.cc.nonce + 2, ?_, exec_singleton.mpr ?_⟩⟩
      · exact bump_eq_some.mpr ⟨rfl, heven₁, h0, rfl⟩
      · exact bump_eq_some.mpr ⟨rfl, heven₂, h0', rfl⟩

/-- **Only `crypto_write` moves the server's counter**, and it moves it as `bump` does. -/
theorem seal_closed (s : Tunnel) : Closed S (Sealed s) where
  segment := fun _ _ _ h _ => h
  hello := by
    intro t env h _
    have hspec := cryptoRecvHelloSendCookie_cases (S := S) t.cc
      (stackBuffer 192 (inputstreamRead t.istream 192).2 env.stale) env.hello
    refine h.of_eq rfl ?_ id
    simp only [parseHello]
    rw [hspec.frame]
  initiate := by
    intro t env h _
    refine h.of_eq rfl ?_ id
    unfold parseInitiate
    dsimp only
    rcases hr : cryptoRecvInitiate S t.cc (stackBuffer 256 (inputstreamRead t.istream 256).2 env.stale)
      env.db with ⟨cc, ok⟩
    cases ok with
    | false =>
        rw [cryptoRecvInitiate_rejected hr]
        rfl
    | true =>
        obtain ⟨_, _, _, _, hspec⟩ :=
          cryptoRecvInitiate_established (by simp [stackBuffer, Buffer.length_eq]) hr
        rw [hspec.context]
        rfl
  messages := by
    intro t env h
    have hspec := parseMessages_received (S := S) t env
    obtain ⟨new, hrec, hhist⟩ := hspec.received
    refine h.of_eq (by rw [hhist]) (by rw [hrec.frame]) fun hh => ?_
    rw [hspec.halted]
    exact hh
  clearKey := fun _ h => h
  close := fun _ h => h
  halt := fun _ h => h.of_eq rfl rfl fun _ => rfl
  tick := fun _ _ h => h
  write := fun t data env h hhalt => afterWrite_sealed h hhalt (cryptoWrite_cases t.cc data env)

/-! ## §3 Runs -/

/-- `connection_create` starts from an even number. -/
theorem initialNonce_even (random : Bytes) : isOdd (initialNonce random) = false := by
  unfold initialNonce
  dsimp only
  split
  · rename_i hodd
    have hnot : ¬ isOdd (UInt64.ofInt (randommod 281474976710656 random) + 1) = true := by
      rw [isOdd_iff] at hodd ⊢
      rw [UInt64.toNat_add]
      have h1 : (1 : UInt64).toNat = 1 := rfl
      omega
    simpa using hnot
  · rename_i hodd
    simpa using hodd

/-- It is the value of `randommod`, below `2 ^ 48`, or the next one. -/
theorem initialNonce_le (random : Bytes) : (initialNonce random).toNat ≤ 2 ^ 48 := by
  obtain ⟨h0, hlt⟩ := randommod_range (n := 281474976710656) (by decide) (by decide) random
  have hval : (UInt64.ofInt (randommod 281474976710656 random)).toNat < 2 ^ 48 := by
    rw [UInt64.ofInt, UInt64.toNat_ofNat', Int.emod_eq_of_lt h0 (by omega)]
    omega
  unfold initialNonce
  dsimp only
  split
  · rw [UInt64.toNat_add]
    have h1 : (1 : UInt64).toNat = 1 := rfl
    omega
  · omega

/-- On a step of a connection the counter does not go down, unless to 0 with the process gone. -/
theorem step_nonce {s s' : Tunnel} {e : Event} (heven : isOdd s.cc.nonce = false)
    (h : step S s e = some s') :
    isOdd s'.cc.nonce = false ∧
      (s.cc.nonce ≤ s'.cc.nonce ∨ (s'.cc.nonce = 0 ∧ s'.halted = true)) := by
  obtain ⟨new, r, _, hex, hr, hnonce⟩ := (seal_closed s).step (Sealed.refl heven) h
  rcases hnonce with hnonce | ⟨h0, hhalt⟩
  · rw [hnonce]
    refine ⟨hr, Or.inl ?_⟩
    have hup := exec_increasing (R := (· < ·)) (fun _ _ _ => UInt64.lt_trans)
      (fun _ _ _ _ hb => bump_lt hb) hex (f := id)
    rcases hup.2.2 with heq | hlt
    · exact UInt64.le_of_eq heq
    · exact UInt64.le_of_lt hlt
  · rw [h0]
    exact ⟨by decide, Or.inr ⟨rfl, hhalt⟩⟩

/-- **Server nonces are never used twice.** On every run of a connection the nonces `crypto_write` seals
under are even, strictly increasing and distinct; the counter goes down only to 0, with the process gone
and nothing sealed under 0; and the client nonces accepted are odd, so none of them is a server nonce. -/
theorem sealed_nonces (env : CreateEnv) (es : List Event) (t : Tunnel)
    (h : exec (step S) (connectionCreate env) es = some t) :
    (connectionCreate env).cc.nonce.toNat ≤ 2 ^ 48 ∧
      (∀ n ∈ t.history.sealed, isOdd n = false ∧ n ≠ 0) ∧
      t.history.sealed.Pairwise (· < ·) ∧ t.history.sealed.Nodup ∧
      Along (step S)
        (fun s _ s' => s.cc.nonce ≤ s'.cc.nonce ∨ (s'.cc.nonce = 0 ∧ s'.halted = true))
        (connectionCreate env) es ∧
      (∀ a ∈ t.history.accepted, isOdd a.nonce = true ∧ a.nonce ∉ t.history.sealed) := by
  have heven : isOdd (connectionCreate env).cc.nonce = false := initialNonce_even env.random
  have hstep : ∀ s e s', Sealed (connectionCreate env) s → step S s e = some s' →
      Sealed (connectionCreate env) s' := fun s e s' hs => (seal_closed (S := S) _).step hs
  obtain ⟨new, r, hnew, hex, _, _⟩ := (always_of_step hstep (Sealed.refl heven)).exec h
  have hseal : t.history.sealed = new := hnew
  obtain ⟨_, hacc, haccept⟩ := (run_window h).1
  have heach := exec_bump_even hex
  obtain ⟨hpw, _, _⟩ := exec_increasing (R := (· < ·)) (fun _ _ _ => UInt64.lt_trans)
    (fun _ _ _ _ hb => bump_lt hb) hex (f := id)
  rw [List.map_id] at hpw
  rw [hseal]
  refine ⟨initialNonce_le env.random, heach, hpw, hpw.imp UInt64.ne_of_lt, ?_, ?_⟩
  · have htrue : Along (step S) (fun _ _ _ => True) (connectionCreate env) es := along_true
    refine along_of_invariant (I := fun s : Tunnel => isOdd s.cc.nonce = false) ?_ heven htrue
    intro s e s' hs _ hst
    exact step_nonce hs hst
  · intro a ha
    have hmem : a ∈ (connectionCreate env).history.accepted ++ _ := hacc ▸ ha
    have hodd := exec_accept_odd haccept a hmem
    refine ⟨hodd, fun hn => ?_⟩
    rw [(heach _ hn).1] at hodd
    exact absurd hodd Bool.false_ne_true

/-- Three writes on an established connection, the second of which the output stream refuses: six
nonces, in order. -/
theorem sealed_nonces_sample :
    ∃ t, exec (step Sample.server) (connectionCreate Sample.create)
        (Sample.handshake ++ [.write [1] ⟨true, true, true⟩, .write [2] ⟨true, true, false⟩,
          .write [3] ⟨true, true, true⟩]) = some t ∧
      t.history.sealed = [2, 4, 6, 8, 10, 12] ∧ t.history.sealed.Pairwise (· < ·) := by
  have hrun : (exec (step Sample.server) (connectionCreate Sample.create)
      (Sample.handshake ++ [.write [1] ⟨true, true, true⟩, .write [2] ⟨true, true, false⟩,
        .write [3] ⟨true, true, true⟩])).any
      (fun t => decide (t.history.sealed = [2, 4, 6, 8, 10, 12])) = true := by
    rw [exec_append_of Sample.exec_handshake]
    decide +kernel
  obtain ⟨t, hex, ht⟩ := (Option.any_eq_true _ _).mp hrun
  have hincreasing := (sealed_nonces Sample.create _ t hex).2.2.1
  exact ⟨t, hex, of_decide_eq_true ht, hincreasing⟩

end SploneBox
