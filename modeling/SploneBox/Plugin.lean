/-
# SploneBox.Plugin — a plugin at the other end: its messages, and a world in which everything succeeds.

`Client` has the packets of the tunnel; here is what a plugin puts into them. `Sample.pack` and
`Sample.next` are the part of the msgpack format that the messages of the samples use: nil, booleans,
positive integers, short strings and short arrays. `Sample.world` is a core whose writes succeed and
whose handlers find every plugin in the database; its fresh `callid` is always 7.
-/
import SploneBox.Client
import SploneBox.Core

namespace SploneBox

open Lib.Machine

namespace Sample

/-! ## §1 The format -/

/-- The last `k` bytes of a number, the most significant one first. -/
def bigEndian : Nat → Nat → Bytes
  | 0, _ => []
  | k + 1, n => bigEndian k (n / 256) ++ [UInt8.ofNat (n % 256)]

mutual

/-- The bytes of an object. -/
def pack : MsgpackObject → Bytes
  | .nil => [0xc0]
  | .boolean b => [if b then 0xc3 else 0xc2]
  | .positiveInteger u =>
      if u < 128 then [UInt8.ofNat u.toNat] else 0xcf :: bigEndian 8 u.toNat
  | .str s => UInt8.ofNat (0xa0 + s.length) :: s
  | .array xs => UInt8.ofNat (0x90 + xs.length) :: packItems xs
  | _ => []

def packItems : List MsgpackObject → Bytes
  | [] => []
  | x :: xs => pack x ++ packItems xs

end

mutual

/-- The next object; the first argument bounds the recursion. -/
def next : Nat → Bytes → Unpacked
  | 0, _ => .more
  | _, [] => .more
  | n + 1, b :: bs =>
      if b < 0x80 then .success (.positiveInteger b.toUInt64) bs
      else if b = 0xc0 then .success .nil bs
      else if b = 0xc2 ∨ b = 0xc3 then .success (.boolean (b == 0xc3)) bs
      else if b = 0xcf then
        if bs.length < 8 then .more
        else
          let value := (bs.take 8).foldl (fun a x => a * 256 + x.toNat) 0
          .success (.positiveInteger (UInt64.ofNat value)) (bs.drop 8)
      else if 0xa0 ≤ b ∧ b < 0xc0 then
        let length := b.toNat - 0xa0
        if bs.length < length then .more else .success (.str (bs.take length)) (bs.drop length)
      else if 0x90 ≤ b ∧ b < 0xa0 then nextItems n (b.toNat - 0x90) [] bs
      else .parseError

def nextItems : Nat → Nat → List MsgpackObject → Bytes → Unpacked
  | 0, _, _, _ => .more
  | _, 0, items, bs => .success (.array items.reverse) bs
  | n + 1, k + 1, items, bs =>
      match next n bs with
      | .success obj rest => nextItems n k (obj :: items) rest
      | r => r

end

/-- The next object takes at least one byte. -/
theorem next_shorter : ∀ n : Nat,
    (∀ bs obj rest, next n bs = .success obj rest → rest.length < bs.length) ∧
      ∀ k items bs obj rest, nextItems n k items bs = .success obj rest → rest.length ≤ bs.length
  | 0 => by
      refine ⟨fun bs obj rest h => ?_, fun k items bs obj rest h => ?_⟩
      · cases bs <;> cases h
      · cases k <;> cases h
  | n + 1 => by
      obtain ⟨hobj, hitems⟩ := next_shorter n
      refine ⟨fun bs obj rest h => ?_, fun k items bs obj rest h => ?_⟩
      · cases bs with
        | nil => cases h
        | cons b bs =>
            have hdrop : ∀ m, (bs.drop m).length < (b :: bs).length := by
              intro m
              rw [List.length_drop, List.length_cons]
              omega
            unfold next at h
            dsimp only at h
            split at h
            · cases h
              exact hdrop 0
            split at h
            · cases h
              exact hdrop 0
            split at h
            · cases h
              exact hdrop 0
            split at h
            · split at h
              · cases h
              · injection h with _ hrest
                rw [← hrest]
                exact hdrop 8
            split at h
            · split at h
              · cases h
              · injection h with _ hrest
                rw [← hrest]
                exact hdrop _
            split at h
            · exact Nat.lt_succ_of_le (hitems _ _ _ _ _ h)
            · cases h
      · cases k with
        | zero =>
            cases h
            exact le_rfl
        | succ k =>
            unfold nextItems at h
            cases hn : next n bs with
            | success obj' rest' =>
                rw [hn] at h
                exact (hitems _ _ _ _ _ h).trans (Nat.le_of_lt (hobj _ _ _ hn))
            | more =>
                rw [hn] at h
                cases h
            | parseError =>
                rw [hn] at h
                cases h

def msgpack : Msgpack := ⟨pack, fun bs => next (2 * bs.length + 2) bs⟩

/-! ## §2 The world -/

/-- A database in which every plugin is registered, with a function `f` that takes no arguments. -/
def database : Database := fun key =>
  if key.length = 16 then some (.hash [])
  else if key.length = (functionsKey []).length + 16 then some (.set [text "f"])
  else none

/-- A core whose allocations and writes succeed. -/
def world : World where
  server := server
  msgpack := msgpack
  writes := fun _ => ⟨true, true, true⟩
  handlers := fun _ => ⟨7, database⟩
  misread := fun _ => []
  leftover := fun _ => .nil
  nomem := fun _ => false

/-- A connection that gets a block with the bytes `key` where `pluginkeystring` is. -/
def createWith (key : Bytes) : CreateEnv :=
  { create with garbage := { create.garbage with pluginkeystring := key } }

/-- A connection that shakes hands with the long-term key `L`. -/
def connect (id : Nat) (clientlongtermpk : Key) : List Label :=
  [.accept create, .read id hello env, .read id (initiate clientlongtermpk) env]

/-- A message of the client, in a packet with the nonce `n`. -/
def sends (id : Nat) (n : UInt64) (m : MsgpackObject) : Label :=
  .read id (messagePacket server session n (pack m)) env

/-! ## §3 Messages -/

/-- The key string of a plugin whose long-term key repeats one byte, written with two digits. -/
def pluginkey (digits : String) : Bytes := (List.replicate 8 (text digits)).flatten

/-- A request to run a function of the plugin with the key. -/
def run (msgid : UInt64) (key : Bytes) : MsgpackObject :=
  requestMessage msgid (text "run") [.array [.str key, .nil], .str (text "f"), .array []]

/-- A request to hand a result over. -/
def result (msgid callid : UInt64) : MsgpackObject :=
  requestMessage msgid (text "result") [.array [.positiveInteger callid], .array []]

/-- A response without an error. -/
def response (msgid : UInt64) (value : MsgpackObject) : MsgpackObject :=
  .array [.positiveInteger 1, .positiveInteger msgid, .nil, value]

/-- The thread goes on for a while. -/
def turns (n : Nat) : List Label := List.replicate n .turn

/-! ## §4 A plugin that is connected

Where the first client has shaken hands, every run of the samples goes on from the same state. -/

/-- A connection that has done nothing but receive. -/
def connection (tunnel : Tunnel) : Connection where
  tunnel := tunnel
  refcount := 1
  msgid := 1
  mpac := []
  pendingRequests := 0
  callvector := []
  delayedNotifications := []
  subscribedEvents := ⟨false, []⟩
  reading := true
  released := false

/-- The thread waits in `uv_run`. -/
def polling : Core := { Core.init with stack := [.poll] }

def afterAccept : Core := polling.create create

def afterHello : Core := (afterAccept.parsed 1 (connection opened) ⟨greeted, false, .ended⟩).decref 1

def connected : Core := (afterHello.parsed 1 (connection greeted) ⟨established, true, .ended⟩).decref 1

section
variable {W : World}

/-- A segment that is taken. -/
theorem step_segment {c : Core} {tunnel : Tunnel} {seg : Bytes} (hrun : c.halt = none ∧ c.inUvRun = true)
    (hc : c.connections 1 = some (connection tunnel)) (hseg : seg ≠ [])
    (hfits : seg.length ≤ inputstreamAllocCb tunnel.istream) :
    c.step W (.read 1 seg env) = some (c.readCb W 1 (connection tunnel) seg env) := by
  have hopen : ¬ (!c.inUvRun ∨ !(connection tunnel).reading ∨ (connection tunnel).released ∨ seg = []
      ∨ inputstreamAllocCb (connection tunnel).tunnel.istream < seg.length) := by
    have hless := Nat.not_lt.mpr hfits
    simp [hrun.2, hseg, connection, hless]
  unfold Core.step
  rw [if_neg (by simp [hrun.1])]
  dsimp only
  rw [hc]
  exact if_neg hopen

theorem readCb_ended {c : Core} {tunnel : Tunnel} {seg : Bytes} {r : ParseResult} (hr : r.outcome = .ended)
    (hparse : parseCb W.server { tunnel with istream := inputstreamReadCb tunnel.istream seg }
      { env with registered := fun k => (c.pluginkeys k).isSome } = r) :
    c.readCb W 1 (connection tunnel) seg env = (c.parsed 1 (connection tunnel) r).decref 1 := by
  subst hparse
  unfold Core.readCb Core.parseData
  dsimp only
  rw [show (connection tunnel).tunnel = tunnel from rfl, hr]

theorem step_afterAccept (hW : W.server = server) :
    afterAccept.step W (.read 1 hello env) = some afterHello := by
  rw [step_segment (by decide +kernel) rfl (by decide) (by decide +kernel),
    readCb_ended rfl (hW ▸ parseCb_hello _)]
  rfl

theorem step_afterHello (hW : W.server = server) :
    afterHello.step W (.read 1 (initiate (fill 32 3)) env) = some connected := by
  rw [step_segment (by decide +kernel) rfl (by decide) (by decide +kernel),
    readCb_ended rfl (hW ▸ parseCb_initiate rfl)]
  rfl

theorem exec_connect (hW : W.server = server) :
    exec (Core.step W) Core.init (.turn :: connect 1 (fill 32 3)) = some connected :=
  exec_cons.mpr ⟨polling, rfl, exec_cons.mpr ⟨afterAccept, rfl, exec_cons.mpr ⟨afterHello, step_afterAccept hW,
    exec_singleton.mpr (step_afterHello hW)⟩⟩⟩

/-- A run of the plugin goes on from there. -/
theorem exec_connect_append (hW : W.server = server) (ls : List Label) :
    exec (Core.step W) Core.init (.turn :: (connect 1 (fill 32 3) ++ ls)) = exec (Core.step W) connected ls :=
  exec_append_of (exec_connect hW) ls

/-- A condition on its steps holds when it holds of those to the state and of those from there. -/
theorem along_connect {R : Core → Label → Core → Prop} (hW : W.server = server)
    (hturn : R Core.init .turn polling) (haccept : R polling (.accept create) afterAccept)
    (hhello : R afterAccept (.read 1 hello env) afterHello)
    (hinitiate : R afterHello (.read 1 (initiate (fill 32 3)) env) connected) {ls : List Label}
    (hrest : Along (Core.step W) R connected ls) :
    Along (Core.step W) R Core.init (.turn :: (connect 1 (fill 32 3) ++ ls)) := by
  refine along_append_of (exec_connect hW) ?_ hrest
  intro c₀ h₀
  obtain rfl : polling = c₀ := Option.some.inj h₀
  refine ⟨hturn, ?_⟩
  intro c₁ h₁
  obtain rfl : afterAccept = c₁ := Option.some.inj h₁
  refine ⟨haccept, ?_⟩
  intro c₂ h₂
  obtain rfl := Option.some.inj ((step_afterAccept hW).symm.trans h₂)
  refine ⟨hhello, ?_⟩
  intro c₃ h₃
  obtain rfl := Option.some.inj ((step_afterHello hW).symm.trans h₃)
  exact ⟨hinitiate, trivial⟩

end

end Sample

end SploneBox
