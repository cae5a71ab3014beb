/-
# SploneBox.SendBuffer — one message in each write.

All operations that write share one static buffer: they pack their message behind what is in it, give all of it
to `crypto_write`, and clear it. `Isolated` says that what was given to `crypto_write` was one message, of the
kind that the operation packs; for that the buffer has to be empty whenever an operation starts.

Two of the six operations return without clearing the buffer: `connection_send_request` when `crypto_write`
fails, `connection_send_response` when it is given an error or when `crypto_write` fails. The next message to
anybody is then written behind the one that was left.
-/
import SploneBox.Notifications

namespace SploneBox

open Lib.Machine

namespace Core

/-! ## §1 `connection_send_response` -/

/-- `connection_send_response`: whether it returned 0, and `api_error` afterwards. It returns with its message
in the buffer when `api_error` is set, and when `crypto_write` fails. -/
def connectionSendResponse (W : World) (c : Core) (id : Nat) (msgid : UInt32) (arg : Object)
    (error : Option ApiError) : Except Core (Core × Bool × Option ApiError) :=
  match c.connections id with
  | none => .ok (c, false, some (validationError "plugin not registered"))
  | some _ =>
      let c := c.pack (serializeResponse msgid.toUInt64 error arg)
      if error.isSome then .ok (c, false, error)
      else do
        let (c, sent) ← c.cryptoWrite W id c.sbuf .reply
        if !sent then return (c, false, none)
        return (c.clear, true, none)

end Core

/-- A move of the core, or a call of `connection_send_event` or of `connection_send_response` between two. -/
inductive Operation where
  | act (a : Act)
  | sendResponse (id : Nat) (msgid : UInt32) (arg : Object) (error : Option ApiError)

namespace Core

def operate (W : World) (c : Core) : Operation → Option Core
  | .act a => c.act W a
  | .sendResponse id msgid arg error =>
      if c.halt.isSome then none
      else some (settle (Prod.fst <$> connectionSendResponse W c id msgid arg error))

/-! ## §2 One message -/

/-- What was given to `crypto_write` is one message, of the operation that called it; a notification is one that
was raised for the connection. -/
inductive Own (record : List Occurrence) (con : Nat) : Cause → List MsgpackObject → Prop
  | spoken {cause : Cause} {m : MsgpackObject} (h : Speaks cause m) : Own record con cause [m]
  | notified {name : Bytes} {args : List Object} (h : .raised con (serializeRequest 0 name args) ∈ record) :
      Own record con .notification [serializeRequest 0 name args]

/-- **Every payload is one message**, also of the notifications that are kept. -/
structure Spoken (c : Core) : Prop where
  own : ∀ w ∈ c.trace, Own c.record w.con w.cause w.data
  kept : ∀ id con, c.connections id = some con → ∀ data ∈ con.delayedNotifications,
    Own c.record id .notification data

/-- Between two operations the buffer is empty. -/
structure Isolated (c : Core) : Prop where
  sbuf : c.sbuf = []
  spoken : Spoken c

/-- What is known when the process has ended in the middle of an operation. -/
def OwnWrites (c : Core) : Prop := ∀ w ∈ c.trace, Own c.record w.con w.cause w.data

variable {W : World} {c c' : Core}

theorem Own.append {record : List Occurrence} {con : Nat} {cause : Cause} {data : List MsgpackObject}
    (h : Own record con cause data) (os : List Occurrence) : Own (record ++ os) con cause data := by
  cases h with
  | spoken hm => exact .spoken hm
  | notified hraised => exact .notified (List.mem_append_left os hraised)

theorem Own.length_eq {record : List Occurrence} {con : Nat} {cause : Cause} {data : List MsgpackObject}
    (h : Own record con cause data) : data.length = 1 := by
  cases h with
  | spoken hm => rfl
  | notified hraised => rfl

/-- The record has grown, the trace is the same, and nothing more is kept. -/
theorem Spoken.grow {os : List Occurrence} (h : Spoken c) (htrace : c'.trace = c.trace)
    (hrec : c'.record = c.record ++ os)
    (hconn : ∀ id con', c'.connections id = some con' → ∃ con, c.connections id = some con ∧
      con'.delayedNotifications = con.delayedNotifications) : Spoken c' := by
  refine ⟨?_, ?_⟩
  · intro w hw
    rw [htrace] at hw
    rw [hrec]
    exact (h.own w hw).append os
  · intro id con' hc' data hdata
    obtain ⟨con, hc, hsame⟩ := hconn id con' hc'
    rw [hsame] at hdata
    rw [hrec]
    exact (h.kept id con hc data hdata).append os

/-- What has nothing to do with notifications, and writes nothing. -/
theorem Isolated.passes (h : Isolated c) (hp : Passes Anyone c c') (htrace : c'.trace = c.trace) :
    Isolated c' := by
  refine ⟨?_, h.spoken.grow htrace (hp.record.trans (List.append_nil _).symm) ?_⟩
  · rcases hp.sbuf with hs | hs
    · exact hs.trans h.sbuf
    · exact hs
  · intro id con' hc'
    obtain ⟨con, hc, hsame, _⟩ := hp.connections id con' hc'
    exact ⟨con, hc, hsame.delayedNotifications⟩

/-- Assignments to the tables of the handlers and to the calls, and a record. -/
theorem Isolated.note (h : Isolated c) (os : List Occurrence) (callids : UInt64 → Option Nat)
    (calls : List Callinfo) : Isolated ({ c with callids := callids, calls := calls }.note os) :=
  ⟨h.sbuf, h.spoken.grow rfl rfl fun _ con' hc' => ⟨con', hc', rfl⟩⟩

/-- A write. -/
theorem Spoken.written {con : Connection} {w : Write} (h : Spoken c) (r : WriteResult)
    (hc : c.connections w.con = some con) (hown : Own c.record w.con w.cause w.data) :
    Spoken (c.written con r w) := by
  refine ⟨?_, ?_⟩
  · intro w' hw'
    rcases List.mem_append.mp hw' with hw' | hw'
    · exact h.own w' hw'
    · rw [List.mem_singleton.mp hw']
      exact hown
  · intro i con₁ hc₁
    rcases setConnection_cases hc₁ with ⟨rfl, rfl⟩ | ⟨_, hc₁⟩
    · exact h.kept w.con con hc
    · exact h.kept i con₁ hc₁

theorem OwnWrites.wrote {w : Write} (h : OwnWrites c) (hown : Own c.record w.con w.cause w.data) (s : Halt) :
    OwnWrites ((c.wrote w).stop s) := by
  intro w' hw'
  rcases List.mem_append.mp hw' with hw' | hw'
  · exact h w' hw'
  · rw [List.mem_singleton.mp hw']
    exact hown

/-- **`crypto_write` with one message.** -/
theorem spoken_cryptoWrite {id : Nat} {data : List MsgpackObject} {cause : Cause} (h : Spoken c)
    (hown : Own c.record id cause data) :
    Ends (fun x => Spoken x.1 ∧ x.1.sbuf = c.sbuf ∧ x.1.record = c.record) OwnWrites
      (c.cryptoWrite W id data cause) := by
  have hmove := cryptoWrite_move (W := W) c id data cause
  generalize c.cryptoWrite W id data cause = x at hmove ⊢
  cases hmove with
  | returned sent bytes env hc hl => exact ⟨h.written _ hc hown, rfl, rfl⟩
  | exited bytes env hc hl => exact (h.written _ hc hown).own
  | lost w hid hsent hw hdata hcause =>
      have hself : Own c.record w.con w.cause w.data := by
        rw [hid, hdata, hcause]
        exact hown
      have hall : OwnWrites c := h.own
      exact hall.wrote hself _

/-- **The loop over the subscribers**, with the message in the buffer. -/
theorem spoken_notify {name : Bytes} {args : List Object} : ∀ (ids : List Nat) {c : Core},
    c.sbuf = [serializeRequest 0 name args] → Spoken c →
    (∀ i ∈ ids, .raised i (serializeRequest 0 name args) ∈ c.record) → Ends Spoken OwnWrites (notify W ids c)
  | [], c, _, h, _ => h
  | id :: ids, c, hsbuf, h, hraised => by
      have hown : Own c.record id .notification c.sbuf := by
        rw [hsbuf]
        exact .notified (hraised id List.mem_cons_self)
      have hrest : ∀ i ∈ ids, .raised i (serializeRequest 0 name args) ∈ c.record :=
        fun i hi => hraised i (List.mem_cons_of_mem id hi)
      unfold Core.notify
      split
      · exact h.own
      rename_i con hc
      split
      · have hkeep : Spoken (c.setConnection id
            { con with delayedNotifications := con.delayedNotifications ++ [c.sbuf] }) := by
          refine ⟨h.own, ?_⟩
          intro i con₁ hc₁
          rcases setConnection_cases hc₁ with ⟨rfl, rfl⟩ | ⟨_, hc₁⟩
          · intro data hdata
            rcases List.mem_append.mp hdata with hdata | hdata
            · exact h.kept i con hc data hdata
            · rw [List.mem_singleton.mp hdata]
              exact hown
          · exact h.kept i con₁ hc₁
        exact spoken_notify ids (c := c.setConnection id _) hsbuf hkeep hrest
      · refine (spoken_cryptoWrite h hown).bind ?_
        rintro ⟨d, sent⟩ ⟨hd, hsbuf', hrec⟩
        refine spoken_notify ids (hsbuf'.trans hsbuf) hd ?_
        rw [hrec]
        exact hrest

/-- The loop over the kept notifications. -/
theorem spoken_sendDelayed {id : Nat} : ∀ (buffers : List (List MsgpackObject)) {c : Core}, Spoken c →
    (∀ data ∈ buffers, Own c.record id .notification data) →
    Ends (fun d => Spoken d ∧ d.sbuf = c.sbuf) OwnWrites (sendDelayed W id buffers c)
  | [], c, h, _ => ⟨h, rfl⟩
  | buffer :: buffers, c, h, hown => by
      unfold Core.sendDelayed
      refine (spoken_cryptoWrite h (hown buffer List.mem_cons_self)).bind ?_
      rintro ⟨d, sent⟩ ⟨hd, hsbuf, hrec⟩
      have hrest : ∀ data ∈ buffers, Own d.record id .notification data := by
        rw [hrec]
        exact fun data hin => hown data (List.mem_cons_of_mem buffer hin)
      have hloop := spoken_sendDelayed buffers hd hrest
      dsimp only at hsbuf
      rw [hsbuf] at hloop
      exact hloop

/-! ## §3 The operations -/

/-- **A message is packed, written and cleared.** -/
theorem Isolated.posted {id : Nat} {con : Connection} {m : MsgpackObject} {cause : Cause} {sent : Bool}
    {bytes : Bytes} {env : WriteEnv} (h : Isolated c) (hc : c.connections id = some con)
    (hm : Speaks cause m) : Spoken (c.posted W id con m cause sent bytes env) := by
  have hpack : Spoken (c.pack m) := ⟨h.spoken.own, h.spoken.kept⟩
  have hown : Own c.record id cause (c.sbuf ++ [m]) := by
    rw [h.sbuf]
    exact .spoken hm
  exact hpack.written _ hc hown

theorem isolated_clear (h : Spoken c) : Isolated c.clear := ⟨rfl, h.own, h.kept⟩

/-- **A notification is raised** for the connections `ids`. -/
theorem Isolated.notify (ids : List Nat) {m : MsgpackObject} {name : Bytes} {args : List Object}
    (h : Isolated c) (hm : m = serializeRequest 0 name args) :
    Ends Spoken OwnWrites (notify W ids ((c.note (ids.map (.raised · m))).pack m)) := by
  have hnoted : Spoken ((c.note (ids.map (.raised · m))).pack m) :=
    h.spoken.grow rfl rfl fun _ con' hc' => ⟨con', hc', rfl⟩
  have hsbuf : ((c.note (ids.map (.raised · m))).pack m).sbuf = [serializeRequest 0 name args] := by
    show c.sbuf ++ [m] = _
    rw [h.sbuf, hm]
    rfl
  refine spoken_notify ids hsbuf hnoted ?_
  rw [← hm]
  intro i hi
  exact List.mem_append_right _ (List.mem_map.mpr ⟨i, hi, rfl⟩)

theorem Isolated.broadcast (name : Option Bytes) (args : List Object) (h : Isolated c) :
    Ends Isolated OwnWrites (broadcastEvent W c name args) := by
  unfold Core.broadcastEvent
  split
  · split
    · exact h.spoken.own
    · exact h
  · rename_i n
    split
    · exact h
    · refine (h.notify _ rfl).bind ?_
      intro d hd
      exact isolated_clear hd

/-- A call returns, and what was kept for its connection is written. -/
theorem Isolated.returned {target : Nat} {con : Connection} (h : Isolated c)
    (hc : c.connections target = some con) (below : List Frame) :
    Ends Isolated OwnWrites (flushNotifications W
      ({ c with stack := below }.setConnection target (popped con)) target (popped con)) := by
  have hpop : Spoken ({ c with stack := below }.setConnection target (popped con)) := by
    refine ⟨h.spoken.own, ?_⟩
    intro i con₁ hc₁
    rcases setConnection_cases hc₁ with ⟨rfl, rfl⟩ | ⟨_, hc₁⟩
    · exact h.spoken.kept i con hc
    · exact h.spoken.kept i con₁ hc₁
  unfold Core.flushNotifications
  split
  · refine (spoken_sendDelayed _ hpop (h.spoken.kept target con hc)).bind ?_
    rintro d ⟨hd, hsbuf⟩
    obtain ⟨hrec, htrace⟩ := modify_record d target fun con => { con with delayedNotifications := [] }
    refine ⟨?_, ?_, ?_⟩
    · rw [(modify_frame d target _).1, hsbuf]
      exact h.sbuf
    · rw [hrec, htrace]
      exact hd.own
    · intro i con' hc' data hdata
      rw [hrec]
      rw [modify_connections] at hc'
      split at hc'
      · obtain ⟨_, _, rfl⟩ := Option.map_eq_some_iff.mp hc'
        cases hdata
      · exact hd.kept i con' hc' data hdata
  · exact ⟨h.sbuf, hpop⟩

/-- A call is made. -/
theorem Isolated.waitFor {e : RequestEvent} {id : Nat} {msgid : UInt64} {kind : CallKind} {callid : UInt64}
    (h : Isolated c) : Isolated (c.waitFor e id msgid kind callid) := by
  refine ⟨?_,
    h.spoken.grow (waitFor_trace c e id msgid kind callid) (waitFor_record c e id msgid kind callid) ?_⟩
  · show (c.modify id _).sbuf = []
    rw [(modify_frame c id _).1]
    exact h.sbuf
  · intro i con' hc'
    obtain ⟨con, hc, ⟨_, rfl⟩ | ⟨_, rfl⟩⟩ := waitFor_connections hc'
    · exact ⟨con', hc, rfl⟩
    · exact ⟨con, hc, rfl⟩

theorem Isolated.create (h : Isolated c) (env : CreateEnv) : Isolated (c.create env) := by
  refine ⟨h.sbuf, h.spoken.own, ?_⟩
  intro i con' hc' data hdata
  rcases create_cases hc' with ⟨_, _, _, hnone, _⟩ | hc
  · rw [hnone] at hdata
    cases hdata
  · exact h.spoken.kept i con' hc data hdata

/-! ## §4 Moves -/

/-- No `crypto_write` of `connection_send_request` or of `connection_send_response` has failed. -/
def RequestsSent (c : Core) : Prop :=
  ∀ w ∈ c.trace, w.cause = .request ∨ w.cause = .reply → w.sent = true

theorem RequestsSent.of_append {ws : List Write} (h : RequestsSent c') (ht : c'.trace = c.trace ++ ws) :
    RequestsSent c := by
  intro w hw
  exact h w (by rw [ht]; exact List.mem_append_left ws hw)

/-- The messages are isolated as long as no request was left in the buffer. -/
def Separate (c : Core) : Prop := RequestsSent c → Isolated c

theorem Separate.passes (h : Separate c) (hp : Passes Anyone c c') (htrace : c'.trace = c.trace) :
    Separate c' := by
  intro hsent
  exact (h (hsent.of_append (htrace.trans (List.append_nil _).symm))).passes hp htrace

theorem Separate.clear {id : Nat} {con : Connection} {m : MsgpackObject} {cause : Cause} {sent : Bool}
    {bytes : Bytes} {env : WriteEnv} (h : Separate c) (hc : c.connections id = some con)
    (hm : Speaks cause m) : Separate (c.posted W id con m cause sent bytes env).clear := by
  intro hsent
  exact isolated_clear ((h (hsent.of_append rfl)).posted hc hm)

/-- What ends well keeps the messages apart. -/
theorem separate_of_ends {x : Except Core Core} {ws : List Write} (h : Separate c)
    (hends : Isolated c → Ends Isolated OwnWrites x) (hx : x = .ok c') (ht : c'.trace = c.trace ++ ws) :
    Separate c' := by
  intro hsent
  have hend := hends (h (hsent.of_append ht))
  rw [hx] at hend
  exact hend

/-- **Every place of a move.** -/
theorem Separate.at {c₀ : Core} {l : Label} {k : List Hold} (h : Separate c₀) (ha : At W c₀ l k c) :
    Separate c := by
  induction ha with
  | start => exact h
  | pushLoop hs hf =>
      refine h.passes (passes_push _ ?_) rfl
      cases hf <;> rfl
  | popLoop hs hf =>
      refine h.passes (passes_pop hs ?_ fun _ _ => trivial) rfl
      cases hf <;> rfl
  | popParse hs => exact h.passes (passes_pop hs rfl fun _ _ => trivial) rfl
  | unpacked hs hc hn hr => exact h.passes (passes_unpacked hc _) rfl
  | @response id cinfo con below obj rest msgid error result hs hc hn hr hnew =>
      have hpop : Separate { c₀ with stack := below } := h.passes (passes_pop hs rfl fun _ _ => trivial) rfl
      have hc' : { c₀ with stack := below }.connections id = some con := hc
      exact fun hsent => (hpop.passes (passes_unpacked hc' rest) rfl hsent).note _ _ _
  | @mismatch id con below obj rest msgid error result hs hc hn hr hnew =>
      have hpop : Separate { c₀ with stack := below } := h.passes (passes_pop hs rfl fun _ _ => trivial) rfl
      have hc' : { c₀ with stack := below }.connections id = some con := hc
      have hset : Separate (({ c₀ with stack := below }.unpacked id con rest).callSetError con.callvector) := by
        intro hsent
        obtain ⟨hsbuf, hown, hkept⟩ := hpop.passes (passes_unpacked hc' rest) rfl hsent
        exact ⟨hsbuf, hown, hkept⟩
      exact hset.passes (passes_connectionClose _ trivial) (connectionClose_trace _ _)
  | dequeue hs ht => exact h.passes (passes_tables _ _ _ _ _ _ _ rfl fun _ _ h => h) rfl
  | returned hs hc hi hr hf =>
      obtain ⟨ws, htrace, _⟩ := (notified_flush hf).trace
      exact separate_of_ends h (fun hI => hI.returned hc _) hf htrace
  | @closeReturned id below hs =>
      have hpop : Separate { c₀ with stack := below } := h.passes (passes_pop hs rfl fun _ _ => trivial) rfl
      exact hpop.passes (passes_closeReturned _ trivial) (closeReturned_trace _ _)
  | read hc hu hl hfit hab =>
      exact h.passes (passes_readCb hc (fun _ => trivial) hab) (readCb_trace W _ _ _ _ _)
  | eof hc hu hl => exact h.passes (passes_eofCb hc trivial) (connectionClose_trace _ _)
  | create hu => exact fun hsent => (h hsent).create _
  | tick hc ho => exact h.passes (passes_setConnection hc ⟨rfl, rfl, rfl⟩ fun _ => ⟨rfl, rfl⟩) rfl
  | decref _ ih => exact ih.passes (passes_decref _ _) (decref_record _ _).2
  | error sent bytes env _ hh hc hl hcause ih => exact ih.clear hc (.error _ _ hcause)
  | newRequest _ hp hv hprep ih => exact ih.passes (passes_newRequest _ _ _) (modify_record _ _ _).2
  | enqueue _ ih => exact ih.passes (passes_tables _ _ _ _ _ _ _ rfl fun _ _ h => h) rfl
  | invoke _ ih => exact ih.passes (passes_tables _ _ _ _ _ _ _ rfl fun _ _ h => h) rfl
  | subscribe event _ hc ho ih =>
      exact ih.passes (passes_connectionSubscribe _ _ _) (connectionSubscribe_trace _ _ _)
  | unsubscribe _ hu ih => exact ih.passes (passes_unsubscribe hu) (unsubscribe_trace hu)
  | @broadcast l k c c' name args _ hn hf hb ih =>
      intro hsent
      have hends : Isolated c → Isolated c' := by
        intro hI
        have hend := hI.broadcast (W := W) name args
        rw [hb] at hend
        exact hend
      rcases broadcastEvent_cases hb with rfl | ⟨n, d, rfl, hd, rfl⟩
      · exact ih hsent
      · obtain ⟨ws, htrace, _⟩ := (notified_notify hd).trace
        exact hends (ih (hsent.of_append htrace))
  | putCallid _ ht heff hids hconns ih => exact fun hsent => (ih hsent).note _ _ _
  | answer sent bytes env _ hm hc hl ih => exact ih.clear hc (.response _ _ _ _)
  | silent _ hm ih => exact ih.passes (passes_decref _ _) (decref_record _ _).2
  | target _ ht ha hs hkey hc ih =>
      exact ih.passes (passes_setConnection hc ⟨rfl, rfl, rfl⟩ fun _ => ⟨rfl, rfl⟩) rfl
  | unsent msgid bytes env _ ht ha hkey hc hl ih =>
      intro hsent
      have hfalse := hsent _ (List.mem_append_right _ List.mem_cons_self) (Or.inl rfl)
      cases hfalse
  | @wait l k c e id con kind callid key msgid request bytes env _ ht ha hkey hs hids hc hl ih =>
      intro hsent
      unfold RequestsSent at hsent
      rw [waitFor_trace] at hsent
      have hclear : Separate (c.posted W id con (serializeRequest msgid kind.method request) .request true bytes
          env).clear := ih.clear hc (.request msgid kind request)
      exact (hclear hsent).waitFor
  | finished _ hs hi hr hout hrec htrace ih => exact fun hsent => (ih hsent).note _ _ _
  | deliver _ hr hids ih => exact fun hsent => (ih hsent).note _ _ _

/-- **A move that ends the process** has written its own messages only. -/
theorem Separate.died {c₀ : Core} {l : Label} (h : Separate c₀) (hd : Died W c₀ l c')
    (hsent : RequestsSent c') :
    OwnWrites c' := by
  have hat : ∀ {k c ws}, At W c₀ l k c → c'.trace = c.trace ++ ws → Isolated c :=
    fun ha ht => h.at ha (hsent.of_append ht)
  cases hd with
  | stop s ha hk => exact (hat ha (List.append_nil _).symm).spoken.own
  | crash s ha hf => exact (hat ha (List.append_nil _).symm).spoken.own
  | exited bytes env ha hh hc hl hcause hm => exact ((hat ha rfl).posted hc hm).own
  | answerExited bytes env ha hm hc hl => exact ((hat ha rfl).posted hc (.response _ _ _ _)).own
  | @lost _ k c w m ha hh hun hw hm hdata =>
      have hI := hat ha rfl
      have hown : OwnWrites (c.pack m) := hI.spoken.own
      refine hown.wrote ?_ _
      rw [hdata, hI.sbuf]
      exact .spoken hm
  | @broadcast _ k c _ name args ha hn hf hb =>
      obtain ⟨ws, htrace, _⟩ := (faded_broadcast hb).trace
      have hend := (hat ha htrace).broadcast (W := W) name args
      rw [hb] at hend
      exact hend
  | @returned e target cinfo kind callid below con _ hs hc hf =>
      obtain ⟨ws, htrace, _⟩ := (faded_flush hf).trace
      have hend := (hat .start htrace).returned (W := W) hc below
      rw [hf] at hend
      exact hend
  | gone s hs hc => exact (hat .start (List.append_nil _).symm).spoken.own
  | aborted hc hab =>
      have hI := hat .start ((parsed_trace _ _ _ _).trans (List.append_nil _).symm)
      exact (hI.passes (passes_parsed _ _ hc) (parsed_trace _ _ _ _)).spoken.own

/-- `connection_send_event`. -/
theorem Isolated.sendEvent (h : Isolated c) (id : Nat) (name : Option Bytes) (args : List Object) :
    Ends (fun x => Isolated x.1) OwnWrites (connectionSendEvent W c id name args) := by
  unfold connectionSendEvent
  split
  · exact (h.broadcast name args).bind fun d hd => hd
  split
  · exact h
  split
  · exact h
  · refine (h.notify [id] rfl).bind ?_
    intro d hd
    exact isolated_clear hd

/-- `connection_send_response`, without an error and with a `crypto_write` that does not fail. -/
theorem Isolated.sendResponse {error : Option ApiError} (h : Isolated c) (id : Nat) (msgid : UInt32)
    (arg : Object) (herror : (c.connections id).isSome = true → error = none)
    (hsent : RequestsSent (settle (Prod.fst <$> connectionSendResponse W c id msgid arg error))) :
    Ends (fun x => Isolated x.1) OwnWrites (connectionSendResponse W c id msgid arg error) := by
  unfold connectionSendResponse at hsent ⊢
  cases hc : c.connections id with
  | none => exact h
  | some con =>
      rw [hc] at hsent herror
      cases herror rfl
      have hmove := cryptoWrite_move (W := W) (c.pack (serializeResponse msgid.toUInt64 none arg)) id
        (c.pack (serializeResponse msgid.toUInt64 none arg)).sbuf .reply
      dsimp only [Option.isSome_none] at hsent ⊢
      rw [if_neg Bool.false_ne_true] at hsent ⊢
      generalize Core.cryptoWrite W (c.pack (serializeResponse msgid.toUInt64 none arg)) id
        (c.pack (serializeResponse msgid.toUInt64 none arg)).sbuf .reply = x at hmove hsent ⊢
      have hm := Speaks.reply msgid arg
      cases hmove with
      | @returned con₁ sent bytes env hc₁ hl =>
          cases sent with
          | false =>
              have hfalse := hsent _ (List.mem_append_right _ List.mem_cons_self) (Or.inr rfl)
              cases hfalse
          | true => exact isolated_clear (h.posted (W := W) hc₁ hm)
      | exited bytes env hc₁ hl => exact (h.posted (W := W) hc₁ hm).own
      | lost w hid hun hw hdata hcause =>
          have hown : OwnWrites (c.pack (serializeResponse msgid.toUInt64 none arg)) := h.spoken.own
          refine hown.wrote ?_ _
          have hone : w.data = [serializeResponse msgid.toUInt64 none arg] := by
            rw [hdata]
            show c.sbuf ++ _ = _
            rw [h.sbuf]
            rfl
          rw [hone, hcause]
          exact .spoken hm

/-! ## §5 Whole runs -/

/-- **The operation leaves nothing in the buffer**: no request and no response of `connection_send_response` was
left unwritten, and `connection_send_response` was given no error for a connection in the table. -/
def Clears (c : Core) (o : Operation) (c' : Core) : Prop :=
  RequestsSent c' ∧
    match o with
    | .sendResponse id _ _ error => (c.connections id).isSome = true → error = none
    | .act _ => True

/-- The computation returns, or it ends the process. -/
abbrev Halts {α : Type} (x : Except Core α) : Prop := Ends (fun _ => True) (fun d => d.halt ≠ none) x

theorem halts_cryptoWrite (c : Core) (id : Nat) (data : List MsgpackObject) (cause : Cause) :
    Halts (c.cryptoWrite W id data cause) := by
  have hmove := cryptoWrite_move (W := W) c id data cause
  generalize c.cryptoWrite W id data cause = x at hmove ⊢
  cases hmove with
  | returned sent bytes env hc hl => exact trivial
  | exited bytes env hc hl => exact nofun
  | lost w hid hsent hw hdata hcause => exact nofun

theorem halts_notify : ∀ (ids : List Nat) (c : Core), Halts (notify W ids c)
  | [], _ => trivial
  | id :: ids, c => by
      unfold Core.notify
      split
      · exact nofun
      split
      · exact halts_notify ids _
      · exact (halts_cryptoWrite c id c.sbuf .notification).bind fun x _ => halts_notify ids x.1

theorem halts_sendDelayed (id : Nat) : ∀ (buffers : List (List MsgpackObject)) (c : Core),
    Halts (sendDelayed W id buffers c)
  | [], _ => trivial
  | buffer :: buffers, c => by
      unfold Core.sendDelayed
      exact (halts_cryptoWrite c id buffer .notification).bind fun x _ => halts_sendDelayed id buffers x.1

theorem halts_broadcastEvent (c : Core) (name : Option Bytes) (args : List Object) :
    Halts (broadcastEvent W c name args) := by
  unfold Core.broadcastEvent
  split
  · split
    · exact nofun
    · exact trivial
  · split
    · exact trivial
    · exact (halts_notify _ _).bind fun _ _ => trivial

theorem halts_flushNotifications (c : Core) (id : Nat) (con : Connection) :
    Halts (flushNotifications W c id con) := by
  unfold Core.flushNotifications
  split
  · exact (halts_sendDelayed id _ c).bind fun _ _ => trivial
  · exact trivial

theorem halts_connectionSendEvent (c : Core) (id : Nat) (name : Option Bytes) (args : List Object) :
    Halts (connectionSendEvent W c id name args) := by
  unfold connectionSendEvent
  split
  · exact (halts_broadcastEvent c name args).bind fun _ _ => trivial
  split
  · exact trivial
  split
  · exact trivial
  · exact (halts_notify _ _).bind fun _ _ => trivial

theorem halts_connectionSendResponse (c : Core) (id : Nat) (msgid : UInt32) (arg : Object)
    (error : Option ApiError) : Halts (connectionSendResponse W c id msgid arg error) := by
  unfold connectionSendResponse
  split
  · exact trivial
  dsimp only
  split
  · exact trivial
  · refine (halts_cryptoWrite _ id _ .reply).bind ?_
    rintro ⟨d, sent⟩ _
    dsimp only
    split <;> exact trivial

theorem Died.halted {c₀ : Core} {l : Label} (hd : Died W c₀ l c') : c'.halt ≠ none := by
  cases hd with
  | stop s ha hk => exact nofun
  | crash s ha hf => exact nofun
  | exited bytes env ha hh hc hl hcause hm => exact nofun
  | answerExited bytes env ha hm hc hl => exact nofun
  | lost m ha hh hun hw hm hdata => exact nofun
  | @broadcast _ k c _ name args ha hn hf hb =>
      have hend := halts_broadcastEvent (W := W) c name args
      rw [hb] at hend
      exact hend
  | @returned e target cinfo kind callid below con _ hs hc hf =>
      have hend := halts_flushNotifications (W := W)
        ({ c₀ with stack := below }.setConnection target (popped con)) target (popped con)
      rw [hf] at hend
      exact hend
  | gone s hs hc => exact nofun
  | aborted hc hab => exact nofun

/-- What holds of every state. -/
def Apart (c : Core) : Prop := OwnWrites c ∧ (c.halt = none → Isolated c)

theorem apart_of_ends {α : Type} {x : Except Core (Core × α)}
    (h : Ends (fun y => Isolated y.1) OwnWrites x) (hhalts : Halts x) :
    Apart (settle (Prod.fst <$> x)) := by
  cases x with
  | ok y => exact ⟨h.spoken.own, fun _ => h⟩
  | error d => exact ⟨h, fun hrun => absurd hrun hhalts⟩

/-- **An operation that leaves nothing in the buffer** keeps the messages apart. -/
theorem apart_operate {o : Operation} (h : Apart c) (hclears : Clears c o c')
    (hs : c.operate W o = some c') : Apart c' := by
  obtain ⟨hsent, hgiven⟩ := hclears
  cases o with
  | act a =>
      have hI : Isolated c := h.2 (running_of_act hs)
      cases a with
      | move l =>
          rcases step_at hs with ha | hd
          · have hI' : Isolated c' := Separate.at (fun _ => hI) ha hsent
            exact ⟨hI'.spoken.own, fun _ => hI'⟩
          · exact ⟨Separate.died (fun _ => hI) hd hsent, fun hrun => absurd hrun hd.halted⟩
      | sendEvent id name args =>
          simp only [operate, act] at hs
          split at hs
          · cases hs
          · cases hs
            exact apart_of_ends (hI.sendEvent id name args) (halts_connectionSendEvent c id name args)
  | sendResponse id msgid arg error =>
      simp only [operate] at hs
      split at hs
      · cases hs
      · rename_i hrun
        have hI : Isolated c := h.2 (by simpa using hrun)
        cases hs
        exact apart_of_ends (hI.sendResponse id msgid arg hgiven hsent)
          (halts_connectionSendResponse c id msgid arg error)

end Core

open Core

/-- **Message isolation.** In every run whose operations leave nothing in the shared buffer, in every state:
the payload of each call of `crypto_write` is one message, of the operation that made the call, and the buffer
is empty whenever an operation starts. -/
theorem one_message_per_write {W : World} {os : List Operation}
    (hclears : Along (Core.operate W) Clears Core.init os) :
    Always (Core.operate W) (fun c => (∀ w ∈ c.trace, Own c.record w.con w.cause w.data) ∧
      (c.halt = none → c.sbuf = [])) Core.init os := by
  have hinit : Apart Core.init :=
    ⟨fun _ hw => (nomatch hw), fun _ => ⟨rfl, fun _ hw => (nomatch hw), fun _ _ hc => (nomatch hc)⟩⟩
  have halways : Always (Core.operate W) Apart Core.init os := by
    refine always_of_along (G := Clears) ?_ hinit hclears
    intro c o c' h hc hs
    exact apart_operate h hc hs
  refine ⟨⟨halways.1.1, fun hrun => (halways.1.2 hrun).sbuf⟩, ?_⟩
  refine halways.2.imp ?_
  intro c o c' h
  exact ⟨h.1, fun hrun => (h.2 hrun).sbuf⟩

instance (c : Core) : Decidable (RequestsSent c) :=
  inferInstanceAs (Decidable (∀ w ∈ c.trace, w.cause = .request ∨ w.cause = .reply → w.sent = true))

instance (c : Core) : ∀ (o : Operation) (c' : Core), Decidable (Clears c o c')
  | .sendResponse id _ _ error, c' =>
      inferInstanceAs (Decidable (RequestsSent c' ∧ ((c.connections id).isSome = true → error = none)))
  | .act _, c' => inferInstanceAs (Decidable (RequestsSent c' ∧ True))

/-- The sample with the delayed events, and a response of `connection_send_response` behind it. -/
def Sample.allOperations : List Operation :=
  Sample.delayedEvents.map .act ++ [.sendResponse 1 4 .nil none]

/-- Six messages are written, one at a time. -/
theorem one_message_per_write_sample :
    ∃ c, exec (Core.operate Sample.world) Core.init Sample.allOperations = some c ∧ c.trace.length = 6 ∧
      (∀ w ∈ c.trace, Own c.record w.con w.cause w.data) ∧ c.sbuf = [] := by
  have hconnect : exec (Core.operate Sample.world) Core.init
      (((Label.turn :: Sample.connect 1 (Sample.fill 32 3)).map .move).map .act) = some Sample.connected :=
    (exec_map (fun _ _ => rfl) _ _).trans (Sample.act_connect rfl)
  have hclears : Along (Core.operate Sample.world) Clears Core.init Sample.allOperations := by
    rw [Sample.allOperations, Sample.delayedEvents, List.append_assoc, List.map_append, List.append_assoc]
    exact along_append_of hconnect (by decide +kernel) (by decide +kernel)
  have hrun : (exec (Core.operate Sample.world) Core.init Sample.allOperations).any (fun c =>
      decide (c.trace.length = 6) && c.halt.isNone) = true := by
    rw [Sample.allOperations, Sample.delayedEvents, List.append_assoc, List.map_append, List.append_assoc,
      exec_append_of hconnect]
    decide +kernel
  obtain ⟨c, hex, hc⟩ := (Option.any_eq_true _ _).mp hrun
  simp only [Bool.and_eq_true, decide_eq_true_eq] at hc
  obtain ⟨hown, hsbuf⟩ := (one_message_per_write hclears).exec hex
  exact ⟨c, hex, hc.1, hown, hsbuf (Option.isNone_iff_eq_none.mp hc.2)⟩

/-- A world in which the first write fails. -/
def Sample.stutter : World := { Sample.world with writes := fun n => ⟨true, true, n != 0⟩ }

/-- The first plugin calls the second. -/
def Sample.unwrittenRequest : List Operation :=
  (Label.turn :: (Sample.connect 1 (Sample.fill 32 3) ++ Sample.connect 2 (Sample.fill 32 5) ++
    Sample.sends 1 5 (Sample.run 9 (Sample.pluginkey "05")) :: Sample.turns 5)).map fun l => .act (.move l)

/-- **A request to one plugin is written to another**: it could not be written, and the response to the caller
is packed behind it. -/
theorem request_prefixed_to_response :
    ∃ c w, exec (Core.operate Sample.stutter) Core.init Sample.unwrittenRequest = some c ∧ w ∈ c.trace ∧
      w.con = 1 ∧ w.sent = true ∧ w.data.length = 2 ∧ ¬ Own c.record w.con w.cause w.data := by
  have hrun : (exec (Core.operate Sample.stutter) Core.init Sample.unwrittenRequest).any (fun c =>
      c.trace.any fun w => decide (w.con = 1) && w.sent && decide (w.data.length = 2)) = true := by
    have hmoves : exec (Core.operate Sample.stutter) Core.init Sample.unwrittenRequest =
        exec (Core.step Sample.stutter) Sample.connected (Sample.connect 2 (Sample.fill 32 5) ++
          Sample.sends 1 5 (Sample.run 9 (Sample.pluginkey "05")) :: Sample.turns 5) := by
      have hsteps : ∀ ls :
          List Label, exec (Core.operate Sample.stutter) Core.init (ls.map fun l => .act (.move l)) =
          exec (Core.step Sample.stutter) Core.init ls := exec_map (fun _ _ => rfl) Core.init
      rw [Sample.unwrittenRequest, hsteps, List.append_assoc, Sample.exec_connect_append rfl]
    rw [hmoves]
    decide +kernel
  obtain ⟨c, hex, hc⟩ := (Option.any_eq_true _ _).mp hrun
  obtain ⟨w, hw, hwrite⟩ := List.any_eq_true.mp hc
  simp only [Bool.and_eq_true, decide_eq_true_eq] at hwrite
  obtain ⟨⟨hcon, hsent⟩, hlen⟩ := hwrite
  refine ⟨c, w, hex, hw, hcon, hsent, hlen, ?_⟩
  intro hown
  rw [hown.length_eq] at hlen
  cases hlen

end SploneBox
