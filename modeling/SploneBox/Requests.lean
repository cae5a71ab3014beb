/-
# SploneBox.Requests — every request is answered once.

`connection_handle_request` makes an event for a message, `connection_request_event` runs it and writes the
response, at once or from the queue or, for a handler that calls another plugin, when the call has returned.
`Accounted` follows a message through these places by its number: while its event is in the queue, in a
waiting call or in the hands of the running code there is no response, and afterwards there is one. Only the
id `UINT64_MAX` is different: `msgpack_rpc_validate` gives it to notifications, and `connection_request_event`
does not write a response when it finds it.

There are three other ways to lose a response, and `Answerable` says for each move that it takes none of them.
The process can end: in a handler that uses what is not there (`crashing`), or because a message or an
acknowledgement is not what it is read as, or for want of memory (`misreads`). A call can be abandoned: a
plugin hangs up while a request to it is open, and the loop that waits for its answer runs for ever, with
every request behind it (`abandons`). And a request can be left in the unpacker, behind a response that ends
the decode loop (`strands`).

In a run of such moves whose writes succeed the process goes on, the unpackers are empty (`Decoded`), and what
is decoded is answered. An event does not wait for ever: finitely many moves empty the stack and the queue, or
a call waits for the answer of another plugin, which is still connected (`thread_waits`, `AwaitsPeer`).
-/
import SploneBox.Invalid
import SploneBox.Undecoded

namespace SploneBox

open Lib.Machine

namespace Core

/-! ## §1 Where a request is -/

/-- The number of the message that a frame works for. -/
def Frame.tag : Frame → Option Nat
  | .call e _ _ _ _ => some e.tag
  | _ => none

/-- The number of the message that the running code works for. -/
def Hold.tag : Hold → Option Nat
  | .request e => some e.tag
  | _ => none

/-- The message that the running code has packed. -/
def Hold.message : Hold → Option MsgpackObject
  | .packed m => some m
  | _ => none

/-- The numbers of the messages whose events are in the queue, in a call, or in the running code. -/
def pendingTags (k : List Hold) (c : Core) : List Nat :=
  c.queue.map RequestEvent.tag ++ (c.stack.filterMap Frame.tag ++ k.filterMap Hold.tag)

/-- Whether a call of `crypto_write` was for the response to the message with this number. -/
def Write.answers (tag : Nat) (w : Write) : Bool := decide (w.cause = .response tag)

/-- The responses to the message with this number. -/
def responses (c : Core) (tag : Nat) : List Write := c.trace.filter (Write.answers tag)

/-- The event is in the queue, in a call, or in the running code. -/
def Pending (k : List Hold) (c : Core) (e : RequestEvent) : Prop :=
  e ∈ c.queue ∨ (∃ target cinfo kind callid, Frame.call e target cinfo kind callid ∈ c.stack) ∨
    Hold.request e ∈ k

/-- **Every message is accounted for.** -/
structure Accounted (k : List Hold) (c : Core) : Prop where
  known : ∀ e, Pending k c e → ∃ obj, c.received[e.tag]? = some ⟨e.con, obj, e.msgid⟩
  /-- A message that wants a response is pending or has one. -/
  once : ∀ tag msg, c.received[tag]? = some msg → msg.msgid ≠ noResponse →
    (pendingTags k c).count tag + (responses c tag).length = 1
  silent : ∀ tag msg, c.received[tag]? = some msg → msg.msgid = noResponse → responses c tag = []
  fresh : ∀ tag, c.received.length ≤ tag → responses c tag = []
  valid : ∀ msg ∈ c.received, ∃ v, msgpackRpcValidate msg.obj = .ok v ∧ v.responseId = msg.msgid
  buffer : AllSent c → c.sbuf = (k.filterMap Hold.message).reverse
  data : AllSent c → ∀ w ∈ c.trace, ∀ tag, w.cause = .response tag →
    ∃ msg err res, c.received[tag]? = some msg ∧ w.con = msg.con ∧
      w.data = [serializeResponse msg.msgid err res]

section Accounting

variable {k k' : List Hold} {c c' : Core}

/-- What moves events about, and touches neither the messages nor the responses. -/
theorem Accounted.move (h : Accounted k c) (hrec : c'.received = c.received)
    (htrace : c'.trace = c.trace) (hsbuf : AllSent c → c'.sbuf = (k'.filterMap Hold.message).reverse)
    (hpend : ∀ e, Pending k' c' e → Pending k c e)
    (htags : (pendingTags k' c').Perm (pendingTags k c)) : Accounted k' c' := by
  have hresp : ∀ tag, responses c' tag = responses c tag := by
    intro tag
    unfold responses
    rw [htrace]
  have hsent : AllSent c' → AllSent c := by
    intro h' w hw
    exact h' w (htrace ▸ hw)
  refine ⟨fun e he => ?_, fun tag msg hmsg hm => ?_, fun tag msg hmsg hm => ?_, fun tag htag => ?_,
    fun msg hmsg => ?_, fun hs => hsbuf (hsent hs), fun hs w hw tag hcause => ?_⟩
  · rw [hrec]
    exact h.known e (hpend e he)
  · rw [hrec] at hmsg
    rw [hresp, htags.count_eq]
    exact h.once tag msg hmsg hm
  · rw [hrec] at hmsg
    rw [hresp]
    exact h.silent tag msg hmsg hm
  · rw [hrec] at htag
    rw [hresp]
    exact h.fresh tag htag
  · rw [hrec] at hmsg
    exact h.valid msg hmsg
  · rw [hrec]
    rw [htrace] at hw
    exact h.data (hsent hs) w hw tag hcause

/-- What is written that is not a response. -/
theorem Accounted.wrote (h : Accounted k c) {w : Write} (hrec : c'.received = c.received)
    (htrace : c'.trace = c.trace ++ [w]) (hw : ∀ tag, w.cause ≠ .response tag)
    (hsbuf : c'.sbuf = c.sbuf) (hqueue : c'.queue = c.queue) (hstack : c'.stack = c.stack) :
    Accounted k c' := by
  have hresp : ∀ tag, responses c' tag = responses c tag := by
    intro tag
    unfold responses
    rw [htrace, List.filter_append]
    simp [Write.answers, hw tag]
  have hsent : AllSent c' → AllSent c := by
    intro h' w' hw'
    exact h' w' (htrace ▸ List.mem_append_left _ hw')
  have htags : pendingTags k c' = pendingTags k c := by
    unfold pendingTags
    rw [hqueue, hstack]
  refine ⟨fun e he => ?_, fun tag msg hmsg hm => ?_, fun tag msg hmsg hm => ?_, fun tag htag => ?_,
    fun msg hmsg => ?_, fun hs => hsbuf.trans (h.buffer (hsent hs)), fun hs w' hw' tag hcause => ?_⟩
  · rw [hrec]
    unfold Pending at he
    rw [hqueue, hstack] at he
    exact h.known e he
  · rw [hrec] at hmsg
    rw [hresp, htags]
    exact h.once tag msg hmsg hm
  · rw [hrec] at hmsg
    rw [hresp]
    exact h.silent tag msg hmsg hm
  · rw [hrec] at htag
    rw [hresp]
    exact h.fresh tag htag
  · rw [hrec] at hmsg
    exact h.valid msg hmsg
  · rw [hrec]
    rw [htrace] at hw'
    rcases List.mem_append.mp hw' with hw' | hw'
    · exact h.data (hsent hs) w' hw' tag hcause
    · rw [List.mem_singleton.mp hw'] at hcause
      exact absurd hcause (hw tag)

theorem mem_pendingTags {e : RequestEvent} (h : Hold.request e ∈ k) : e.tag ∈ pendingTags k c := by
  refine List.mem_append_right _ (List.mem_append_right _ ?_)
  exact List.mem_filterMap.mpr ⟨_, h, rfl⟩

theorem responses_written (con : Connection) (r : WriteResult) (w : Write) (tag : Nat) :
    responses (c.written con r w) tag = responses c tag ++ [w].filter (Write.answers tag) := by
  show (c.trace ++ [w]).filter _ = _
  rw [List.filter_append]
  rfl

theorem filterMap_message (hk : Cleared k) : k.filterMap Hold.message = [] := by
  rw [List.filterMap_eq_nil_iff]
  intro x hx
  cases x with
  | packed m => exact absurd hx (hk m)
  | ref id => rfl
  | request e => rfl

/-- **A request is answered.** -/
theorem Accounted.answer {e : RequestEvent} {m : MsgpackObject} {con : Connection} {w : Write}
    {r : WriteResult} (hk : Cleared k) (h : Accounted (.packed m :: .request e :: k) c)
    (hm : e.msgid ≠ noResponse) (hresp : ∃ err res, m = serializeResponse e.msgid err res)
    (hid : w.con = e.con) (hcause : w.cause = .response e.tag) (hdata : w.data = c.sbuf) :
    Accounted (.packed m :: .ref e.con :: k) (c.written con r w) := by
  obtain ⟨obj, hknown⟩ := h.known e (Or.inr (Or.inr (by simp)))
  have hone := h.once e.tag _ hknown hm
  have hmem : e.tag ∈ pendingTags (.packed m :: .request e :: k) c := mem_pendingTags (by simp)
  have hpos := List.count_pos_iff.mpr hmem
  have hnone : responses c e.tag = [] := List.eq_nil_of_length_eq_zero (by omega)
  have hwself : [w].filter (Write.answers e.tag) = [w] := by simp [Write.answers, hcause]
  have hwother : ∀ tag, tag ≠ e.tag → [w].filter (Write.answers tag) = [] := by
    intro tag htag
    simp [Write.answers, hcause, Ne.symm htag]
  have htags : (pendingTags (.packed m :: .request e :: k) c).Perm
      (e.tag :: pendingTags (.packed m :: .ref e.con :: k) (c.written con r w)) := by
    unfold pendingTags
    have hhold : (Hold.packed m :: .request e :: k).filterMap Hold.tag = e.tag :: k.filterMap Hold.tag := rfl
    have hhold' : (Hold.packed m :: .ref e.con :: k).filterMap Hold.tag = k.filterMap Hold.tag := rfl
    rw [hhold, hhold']
    show (c.queue.map _ ++ (c.stack.filterMap _ ++ e.tag :: _)).Perm
      (e.tag :: (c.queue.map _ ++ (c.stack.filterMap _ ++ _)))
    rw [← List.append_assoc, ← List.append_assoc]
    exact List.perm_middle
  have hsent : AllSent (c.written con r w) → AllSent c :=
    fun hs w' hw' => hs w' (List.mem_append_left _ hw')
  refine ⟨fun e' he' => ?_, fun tag msg hmsg hmn => ?_, fun tag msg hmsg hmn => ?_, fun tag htag => ?_,
    h.valid, fun hs => h.buffer (hsent hs), fun hs w' hw' tag hcause' => ?_⟩
  · refine h.known e' ?_
    rcases he' with he' | he' | he'
    · exact Or.inl he'
    · exact Or.inr (Or.inl he')
    · refine Or.inr (Or.inr ?_)
      simp only [List.mem_cons, reduceCtorEq, false_or] at he'
      simp [he']
  · have hold := h.once tag msg hmsg hmn
    rw [htags.count_eq, List.count_cons] at hold
    rw [responses_written]
    by_cases htag : tag = e.tag
    · subst htag
      rw [hnone, beq_self_eq_true, if_pos rfl, List.length_nil] at hold
      rw [hnone, hwself, List.nil_append, List.length_singleton]
      omega
    · rw [hwother tag htag, List.append_nil]
      simpa [Ne.symm htag] using hold
  · have htag : tag ≠ e.tag := by
      rintro rfl
      have heq := Option.some.inj (hmsg.symm.trans hknown)
      rw [heq] at hmn
      exact hm hmn
    rw [responses_written, hwother tag htag, List.append_nil]
    exact h.silent tag msg hmsg hmn
  · have htag' : tag ≠ e.tag := by
      rintro rfl
      exact absurd (List.getElem?_eq_some_iff.mp hknown).1 (Nat.not_lt.mpr htag)
    rw [responses_written, hwother tag htag', List.append_nil]
    exact h.fresh tag htag
  · rcases List.mem_append.mp hw' with hw' | hw'
    · exact h.data (hsent hs) w' hw' tag hcause'
    · cases List.mem_singleton.mp hw'
      rw [hcause] at hcause'
      cases hcause'
      obtain ⟨err, res, rfl⟩ := hresp
      refine ⟨_, err, res, hknown, hid, ?_⟩
      have hbuf := h.buffer (hsent hs)
      have hrest := filterMap_message hk
      have hheld : (Hold.packed (serializeResponse e.msgid err res) :: .request e :: k).filterMap
          Hold.message = [serializeResponse e.msgid err res] := congrArg (List.cons _) hrest
      rw [hdata, hbuf, hheld, List.reverse_singleton]

theorem Accounted.same (h : Accounted k c) (hrec : c'.received = c.received) (htrace : c'.trace = c.trace)
    (hsbuf : c'.sbuf = c.sbuf) (hqueue : c'.queue = c.queue) (hstack : c'.stack = c.stack) :
    Accounted k c' := by
  refine h.move hrec htrace (fun hs => hsbuf.trans (h.buffer hs)) (fun e he => ?_) ?_
  · unfold Pending at he
    rw [hqueue, hstack] at he
    exact he
  · unfold pendingTags
    rw [hqueue, hstack]

/-- A reference changes hands. -/
theorem Accounted.hold (h : Accounted k c) (hreq : k'.filterMap Hold.tag = k.filterMap Hold.tag)
    (hmem : ∀ e, Hold.request e ∈ k' → Hold.request e ∈ k)
    (hmsg : k'.filterMap Hold.message = k.filterMap Hold.message) : Accounted k' c := by
  refine h.move rfl rfl (fun hs => by rw [hmsg]; exact h.buffer hs) (fun e he => ?_) ?_
  · rcases he with he | he | he
    · exact Or.inl he
    · exact Or.inr (Or.inl he)
    · exact Or.inr (Or.inr (hmem e he))
  · unfold pendingTags
    rw [hreq]

theorem Accounted.ref (h : Accounted k c) (id : Nat) : Accounted (.ref id :: k) c :=
  h.hold rfl (fun _ he => by simpa using he) rfl

theorem Accounted.deref {id : Nat} (h : Accounted (.ref id :: k) c) : Accounted k c :=
  h.hold rfl (fun _ he => List.mem_cons_of_mem _ he) rfl

/-- The events of a connection that is freed have left the queue before. -/
theorem decref_queue {id : Nat} (hb : Balanced (.ref id :: k) c) : (c.decref id).queue = c.queue := by
  have hcov := hb.covered id
  unfold refs at hcov
  rw [heldRefs_ref, if_pos rfl] at hcov
  unfold decref
  split
  · rename_i con hc
    split
    · rename_i hlast
      rw [hc] at hcov
      simp only [countOf] at hcov
      have hzero : queueRefs c.queue id = 0 := by omega
      show c.queue.filter _ = c.queue
      rw [List.filter_eq_self]
      intro e he
      unfold queueRefs at hzero
      rw [List.countP_eq_zero] at hzero
      simpa using hzero e he
    · rfl
  · rfl

theorem Accounted.decref {id : Nat} (h : Accounted (.ref id :: k) c) (hb : Balanced (.ref id :: k) c) :
    Accounted k (c.decref id) := by
  have hsbuf : (c.decref id).sbuf = c.sbuf := by
    unfold Core.decref
    split
    · split <;> rfl
    · rfl
  exact h.deref.same (decref_log c id).received (decref_record c id).2 hsbuf (decref_queue hb)
    (decref_stack c id)

/-- A message that gets no response. -/
theorem Accounted.unanswered {e : RequestEvent} (h : Accounted (.request e :: k) c)
    (hm : e.msgid = noResponse) : Accounted (.ref e.con :: k) c := by
  obtain ⟨obj, hknown⟩ := h.known e (Or.inr (Or.inr (by simp)))
  have htags : (pendingTags (.request e :: k) c).Perm (e.tag :: pendingTags (.ref e.con :: k) c) := by
    show (c.queue.map _ ++ (c.stack.filterMap _ ++ e.tag :: _)).Perm
      (e.tag :: (c.queue.map _ ++ (c.stack.filterMap _ ++ _)))
    rw [← List.append_assoc, ← List.append_assoc]
    exact List.perm_middle
  refine ⟨fun e' he' => ?_, fun tag msg hmsg hmn => ?_, h.silent, h.fresh, h.valid, h.buffer, h.data⟩
  · refine h.known e' ?_
    rcases he' with he' | he' | he'
    · exact Or.inl he'
    · exact Or.inr (Or.inl he')
    · simp only [List.mem_cons, reduceCtorEq, false_or] at he'
      exact Or.inr (Or.inr (List.mem_cons_of_mem _ he'))
  · have htag : e.tag ≠ tag := by
      rintro rfl
      have heq := Option.some.inj (hmsg.symm.trans hknown)
      rw [heq] at hmn
      exact hmn hm
    have hold := h.once tag msg hmsg hmn
    rw [htags.count_eq, List.count_cons_of_ne htag] at hold
    exact hold

/-- What `connection_handle_request` leaves as it is when it makes an event. -/
theorem newRequest_fields (c : Core) (id : Nat) (m : Message) :
    (c.newRequest id m).received = c.received ++ [m] ∧ (c.newRequest id m).trace = c.trace ∧
      (c.newRequest id m).sbuf = c.sbuf ∧ (c.newRequest id m).queue = c.queue ∧
      (c.newRequest id m).stack = c.stack := by
  unfold newRequest incref modify
  dsimp only
  split <;> exact ⟨rfl, rfl, rfl, rfl, rfl⟩

/-- An event that is pending has the number of a message. -/
theorem Accounted.tag_lt (h : Accounted k c) {e : RequestEvent} (he : Pending k c e) :
    e.tag < c.received.length := by
  obtain ⟨obj, hknown⟩ := h.known e he
  exact (List.getElem?_eq_some_iff.mp hknown).1

theorem Accounted.pendingTags_lt (h : Accounted k c) {tag : Nat} (htag : tag ∈ pendingTags k c) :
    tag < c.received.length := by
  unfold pendingTags at htag
  simp only [List.mem_append, List.mem_map, List.mem_filterMap] at htag
  rcases htag with ⟨e, hin, rfl⟩ | ⟨f, hin, hf⟩ | ⟨x, hin, hx⟩
  · exact h.tag_lt (Or.inl hin)
  · cases f with
    | call e target cinfo kind callid =>
        cases hf
        exact h.tag_lt (Or.inr (Or.inl ⟨target, cinfo, kind, callid, hin⟩))
    | poll => cases hf
    | close id => cases hf
    | parse id => cases hf
    | drain queue => cases hf
  · cases x with
    | request e =>
        cases hx
        exact h.tag_lt (Or.inr (Or.inr hin))
    | ref id => cases hx
    | packed m => cases hx

/-- A message of a list with one more is an old one, or the new one. -/
theorem getElem?_concat_cases {msgs : List Message} {m msg : Message} {tag : Nat}
    (h : (msgs ++ [m])[tag]? = some msg) :
    (tag < msgs.length ∧ msgs[tag]? = some msg) ∨ (tag = msgs.length ∧ msg = m) := by
  by_cases htag : tag < msgs.length
  · rw [List.getElem?_append_left htag] at h
    exact Or.inl ⟨htag, h⟩
  · have hbound := (List.getElem?_eq_some_iff.mp h).1
    rw [List.length_append, List.length_singleton] at hbound
    have heq : tag = msgs.length := by omega
    subst heq
    rw [List.getElem?_concat_length] at h
    exact Or.inr ⟨rfl, (Option.some.inj h).symm⟩

/-- **A message is received.** -/
theorem Accounted.newRequest {id : Nat} {obj : MsgpackObject} {v : Validation} (func : Handler)
    (args : List Object) (h : Accounted k c) (hv : msgpackRpcValidate obj = .ok v) :
    Accounted (.request ⟨id, c.received.length, func, args, v.responseId⟩ :: k)
      (c.newRequest id ⟨id, obj, v.responseId⟩) := by
  obtain ⟨hrec, htrace, hsbuf, hqueue, hstack⟩ := newRequest_fields c id ⟨id, obj, v.responseId⟩
  generalize c.newRequest id ⟨id, obj, v.responseId⟩ = d at hrec htrace hsbuf hqueue hstack ⊢
  have hresp : ∀ tag, responses d tag = responses c tag := by
    intro tag
    unfold responses
    rw [htrace]
  have htags : (pendingTags (.request ⟨id, c.received.length, func, args, v.responseId⟩ :: k) d).Perm
      (c.received.length :: pendingTags k c) := by
    unfold pendingTags
    rw [hqueue, hstack, ← List.append_assoc, ← List.append_assoc]
    exact List.perm_middle
  have hold : ∀ {tag : Nat} {msg : Message}, c.received[tag]? = some msg → d.received[tag]? = some msg := by
    intro tag msg hmsg
    rw [hrec, List.getElem?_append_left (List.getElem?_eq_some_iff.mp hmsg).1]
    exact hmsg
  have hsent : AllSent d → AllSent c := fun hs w hw => hs w (htrace ▸ hw)
  refine ⟨fun e he => ?_, fun tag msg hmsg hmn => ?_, fun tag msg hmsg hmn => ?_, fun tag htag => ?_,
    fun msg hmsg => ?_, fun hs => hsbuf.trans (h.buffer (hsent hs)), fun hs w hw tag hcause => ?_⟩
  · unfold Pending at he
    rw [hqueue, hstack] at he
    rcases he with he | he | he
    · obtain ⟨obj', hknown⟩ := h.known e (Or.inl he)
      exact ⟨obj', hold hknown⟩
    · obtain ⟨obj', hknown⟩ := h.known e (Or.inr (Or.inl he))
      exact ⟨obj', hold hknown⟩
    · rcases List.mem_cons.mp he with heq | he
      · cases heq
        refine ⟨obj, ?_⟩
        rw [hrec]
        exact List.getElem?_concat_length
      · obtain ⟨obj', hknown⟩ := h.known e (Or.inr (Or.inr he))
        exact ⟨obj', hold hknown⟩
  · rw [htags.count_eq, hresp]
    rw [hrec] at hmsg
    rcases getElem?_concat_cases hmsg with ⟨htag, hmsg⟩ | ⟨rfl, _⟩
    · rw [List.count_cons_of_ne (by omega)]
      exact h.once tag msg hmsg hmn
    · rw [List.count_cons_self, h.fresh _ le_rfl,
        List.count_eq_zero.mpr fun hin => Nat.lt_irrefl _ (h.pendingTags_lt hin)]
      rfl
  · rw [hresp]
    rw [hrec] at hmsg
    rcases getElem?_concat_cases hmsg with ⟨_, hmsg⟩ | ⟨rfl, _⟩
    · exact h.silent tag msg hmsg hmn
    · exact h.fresh _ le_rfl
  · rw [hresp]
    rw [hrec, List.length_append] at htag
    exact h.fresh tag (by omega)
  · rw [hrec] at hmsg
    rcases List.mem_append.mp hmsg with hmsg | hmsg
    · exact h.valid msg hmsg
    · rw [List.mem_singleton.mp hmsg]
      exact ⟨v, hv, rfl⟩
  · rw [htrace] at hw
    obtain ⟨msg, err, res, hmsg, hrest⟩ := h.data (hsent hs) w hw tag hcause
    exact ⟨msg, err, res, hold hmsg, hrest⟩

end Accounting

/-- The thread waits for the answer to a call, and the plugin that owes it is connected. -/
def AwaitsPeer (c : Core) : Prop :=
  ∃ e target cinfo kind callid below con, c.stack = .call e target cinfo kind callid :: below ∧
    c.unanswered cinfo = true ∧ c.connections target = some con ∧ con.tunnel.closed = false

/-- **One response per request**: a request whose id is not `UINT64_MAX` is pending or has one response, on
its connection and with its id, that is all there is in the buffer. Notifications have none, and neither have
requests with that id. -/
structure OneResponse (W : World) (c : Core) : Prop where
  request : ∀ tag msg id method args, c.received[tag]? = some msg →
    msg.obj = requestMessage id method args → id ≠ noResponse →
    (pendingTags [] c).count tag + (responses c tag).length = 1 ∧
      ∀ w ∈ responses c tag, w.con = msg.con ∧ ∃ err res, w.data = [serializeResponse id err res]
  /-- When the thread waits, there is the response, unless a connected plugin owes an answer. -/
  answered : Waits c → AwaitsPeer c ∨ ∀ tag msg id method args, c.received[tag]? = some msg →
    msg.obj = requestMessage id method args → id ≠ noResponse → (responses c tag).length = 1
  notification : ∀ tag msg method args, c.received[tag]? = some msg →
    msg.obj = notificationMessage method args → responses c tag = []
  unanswered : ∀ tag msg method args, c.received[tag]? = some msg →
    msg.obj = requestMessage noResponse method args → responses c tag = []
  decoded : Decoded W c

section Accounting

variable {k k' : List Hold} {c c' : Core}

theorem Accounted.msgid_eq (h : Accounted k c) {tag : Nat} {msg : Message} {v : Validation}
    (hmsg : c.received[tag]? = some msg) (hv : msgpackRpcValidate msg.obj = .ok v) :
    msg.msgid = v.responseId := by
  obtain ⟨v', hv', hid⟩ := h.valid msg (List.mem_of_getElem? hmsg)
  rw [hv] at hv'
  cases hv'
  exact hid.symm

/-- A request is pending, or has its response. -/
theorem Accounted.request (h : Accounted [] c) {tag : Nat} {msg : Message} {id : UInt64} {method : Bytes}
    {args : List MsgpackObject} (hmsg : c.received[tag]? = some msg)
    (hobj : msg.obj = requestMessage id method args) (hid : id ≠ noResponse) :
    msg.msgid = id ∧ (pendingTags [] c).count tag + (responses c tag).length = 1 := by
  have hmsgid : msg.msgid = id :=
    h.msgid_eq hmsg (by rw [hobj]; exact msgpackRpcValidate_request id method args)
  exact ⟨hmsgid, h.once tag msg hmsg (by rw [hmsgid]; exact hid)⟩

theorem accounted_init : Accounted [] Core.init := by
  refine ⟨fun e he => ?_, fun _ _ hmsg => (nomatch hmsg), fun _ _ hmsg => (nomatch hmsg), fun _ _ => rfl,
    fun _ hmsg => (nomatch hmsg), fun _ => rfl, fun _ _ hw => (nomatch hw)⟩
  rcases he with he | ⟨target, cinfo, kind, callid, he⟩ | he
  · cases he
  · cases he
  · cases he

/-- A frame that works for no message is pushed or popped. -/
theorem Accounted.stack {stack : List Frame} (h : Accounted k c)
    (htags : stack.filterMap Frame.tag = c.stack.filterMap Frame.tag)
    (hcalls : ∀ e target cinfo kind callid, Frame.call e target cinfo kind callid ∈ stack →
      Frame.call e target cinfo kind callid ∈ c.stack) : Accounted k { c with stack := stack } := by
  refine h.move rfl rfl h.buffer (fun e he => ?_) ?_
  · rcases he with he | ⟨target, cinfo, kind, callid, he⟩ | he
    · exact Or.inl he
    · exact Or.inr (Or.inl ⟨target, cinfo, kind, callid, hcalls e target cinfo kind callid he⟩)
    · exact Or.inr (Or.inr he)
  · unfold pendingTags
    rw [htags]

theorem Accounted.push {f : Frame} (h : Accounted k c) (hf : Frame.tag f = none) :
    Accounted k { c with stack := f :: c.stack } := by
  refine h.stack ?_ fun e target cinfo kind callid hin => ?_
  · rw [List.filterMap_cons, hf]
  · rcases List.mem_cons.mp hin with rfl | hin
    · cases hf
    · exact hin

theorem Accounted.pop {f : Frame} {below : List Frame} (h : Accounted k c) (hs : c.stack = f :: below)
    (hf : Frame.tag f = none) : Accounted k { c with stack := below } := by
  refine h.stack ?_ fun e target cinfo kind callid hin => ?_
  · rw [hs, List.filterMap_cons, hf]
  · rw [hs]
    exact List.mem_cons_of_mem _ hin

/-- A handler waits, and works on when its call has returned. -/
theorem Accounted.pushCall {e : RequestEvent} {id cinfo : Nat} {kind : CallKind} {callid : UInt64}
    (h : Accounted (.ref id :: .request e :: k) c) :
    Accounted k { c with stack := .call e id cinfo kind callid :: c.stack } := by
  refine h.move rfl rfl h.buffer (fun e' he' => ?_) ?_
  · rcases he' with he' | ⟨target, cinfo', kind', callid', he'⟩ | he'
    · exact Or.inl he'
    · rcases List.mem_cons.mp he' with heq | he'
      · cases heq
        exact Or.inr (Or.inr (by simp))
      · exact Or.inr (Or.inl ⟨target, cinfo', kind', callid', he'⟩)
    · exact Or.inr (Or.inr (List.mem_cons_of_mem _ (List.mem_cons_of_mem _ he')))
  · show (c.queue.map _ ++ (e.tag :: c.stack.filterMap _ ++ _)).Perm
      (c.queue.map _ ++ (c.stack.filterMap _ ++ e.tag :: _))
    exact List.perm_middle.symm.append_left _

theorem Accounted.popCall {e : RequestEvent} {target cinfo : Nat} {kind : CallKind} {callid : UInt64}
    {below : List Frame} (h : Accounted [] c) (hs : c.stack = .call e target cinfo kind callid :: below) :
    Accounted [.ref target, .request e] { c with stack := below } := by
  refine h.move rfl rfl h.buffer (fun e' he' => ?_) ?_
  · rcases he' with he' | ⟨target', cinfo', kind', callid', he'⟩ | he'
    · exact Or.inl he'
    · refine Or.inr (Or.inl ⟨target', cinfo', kind', callid', ?_⟩)
      rw [hs]
      exact List.mem_cons_of_mem _ he'
    · simp only [List.mem_cons, reduceCtorEq, Hold.request.injEq, List.not_mem_nil, or_false,
        false_or] at he'
      subst he'
      refine Or.inr (Or.inl ⟨target, cinfo, kind, callid, ?_⟩)
      rw [hs]
      exact List.mem_cons_self
  · unfold pendingTags
    rw [hs]
    show (c.queue.map _ ++ (below.filterMap _ ++ [e.tag])).Perm
      (c.queue.map _ ++ (e.tag :: below.filterMap _ ++ []))
    rw [List.append_nil]
    exact (@List.perm_append_comm _ (below.filterMap Frame.tag) [e.tag]).append_left _

theorem Accounted.enqueue {e : RequestEvent} (h : Accounted (.request e :: k) c) :
    Accounted k { c with queue := c.queue ++ [e] } := by
  refine h.move rfl rfl h.buffer (fun e' he' => ?_) ?_
  · rcases he' with he' | he' | he'
    · rcases List.mem_append.mp he' with he' | he'
      · exact Or.inl he'
      · rw [List.mem_singleton.mp he']
        exact Or.inr (Or.inr List.mem_cons_self)
    · exact Or.inr (Or.inl he')
    · exact Or.inr (Or.inr (List.mem_cons_of_mem _ he'))
  · show ((c.queue ++ [e]).map _ ++ (c.stack.filterMap _ ++ _)).Perm
      (c.queue.map _ ++ (c.stack.filterMap _ ++ e.tag :: _))
    rw [List.map_append, List.append_assoc]
    have hmiddle : (e.tag :: (c.stack.filterMap Frame.tag ++ k.filterMap Hold.tag)).Perm
        (c.stack.filterMap Frame.tag ++ e.tag :: k.filterMap Hold.tag) := List.perm_middle.symm
    exact hmiddle.append_left _

theorem Accounted.dequeue {q : Option Nat} {e : RequestEvent} {left : List RequestEvent}
    (h : Accounted [] c) (ht : takeEvent q c.queue = some (e, left)) :
    Accounted [.request e] { c with queue := left } := by
  have hperm := takeEvent_perm ht
  refine h.move rfl rfl h.buffer (fun e' he' => ?_) ?_
  · rcases he' with he' | he' | he'
    · exact Or.inl (hperm.mem_iff.mpr (List.mem_cons_of_mem _ he'))
    · exact Or.inr (Or.inl he')
    · simp only [List.mem_singleton, Hold.request.injEq] at he'
      subst he'
      exact Or.inl (hperm.mem_iff.mpr List.mem_cons_self)
  · show (left.map _ ++ (c.stack.filterMap _ ++ [e.tag])).Perm (c.queue.map _ ++ (c.stack.filterMap _ ++ []))
    rw [List.append_nil, ← List.append_assoc]
    refine List.perm_append_comm.trans ?_
    exact (hperm.map RequestEvent.tag).symm.append_right _

end Accounting

/-! ## §2 The moves that lose no response -/

/-- What the next move reads is not what it is taken for: there is no memory for the next message, the message
is unreadable, or the answer to a call is no array, and both handlers read it as one. Or an assertion fails in
the receiving half. -/
def misreads (W : World) (c : Core) : Label → Bool
  | .turn =>
      match c.stack with
      | .parse id :: _ => W.nomem c.decoded ||
          (c.connections id).any fun con => (nextMessage W con).any MsgpackObject.unreadable
      | .call _ _ cinfo _ _ :: _ => (c.calls[cinfo]?).any fun info =>
          info.returned && !info.errored && decide (info.result.type ≠ .array)
      | _ => false
  | .read id seg env => (c.connections id).any fun con =>
      decide ((c.parseData W con seg env).outcome = .aborted)
  | _ => false

/-- A callback closes a connection under a call that has not returned. -/
def abandons (W : World) (c : Core) (l : Label) : Bool := (hangsUp W c l).any fun con => !allReturned c con

/-- **A move that loses no response.** -/
structure Answerable (W : World) (c : Core) (l : Label) : Prop where
  survives : crashing W c l = false
  reads : misreads W c l = false
  keeps : abandons W c l = false
  drains : strands W c l = false

instance (W : World) (c : Core) (l : Label) : Decidable (Answerable W c l) :=
  decidable_of_iff (crashing W c l = false ∧ misreads W c l = false ∧ abandons W c l = false ∧
    strands W c l = false)
    ⟨fun ⟨h₁, h₂, h₃, h₄⟩ => ⟨h₁, h₂, h₃, h₄⟩, fun ⟨h₁, h₂, h₃, h₄⟩ => ⟨h₁, h₂, h₃, h₄⟩⟩

/-- Such a move does not end the process, but for `crypto_write`. -/
theorem Answerable.not_fatal {W : World} {c : Core} {l : Label} (h : Answerable W c l) (hord : Ordered [] c) :
    ¬ Fatal W c l := by
  rintro (hcrash | hstops)
  · rw [h.survives] at hcrash
    cases hcrash
  · have hreads := h.reads
    cases hstops with
    | nomem hs hmem => simp [misreads, hs, hmem] at hreads
    | unreadable hs hc hmsg hbad => simp [misreads, hs, hc, hmsg, hbad] at hreads
    | gone hs hc =>
        obtain ⟨con, hcon, -⟩ := hord.2.exists_of_held (Or.inr (by rw [hs]; exact List.mem_cons_self))
        cases hc.symm.trans hcon
    | nested hs hpoll =>
        have hnone := no_polls hord.1 hs
        rw [List.countP_eq_zero] at hnone
        obtain ⟨f, hf, hpoll⟩ := List.any_eq_true.mp hpoll
        exact hnone f hf hpoll

/-! ## §3 Every move keeps the account -/

theorem accounted_returns (K : Core → Nat → Prop) :
    Returns K (fun k c => Ordered k c ∧ Accounted k c) where
  quiet := fun h hq => ⟨(ordered_returns K).quiet h.1 hq,
    h.2.same hq.received hq.trace hq.sbuf hq.queue hq.stack⟩
  decref := fun h => ⟨(ordered_returns K).decref h.1, h.2.decref h.1.2⟩
  close := fun {c id con} h hc ho hK hu => by
    refine ⟨(ordered_returns K).close h.1 hc ho hK hu, ?_⟩
    rw [connectionClose_open hc ho]
    have hset : Accounted [] (c.setConnection id { con with
      tunnel := { con.tunnel with closed := true } }) := h.2.deref.same rfl rfl rfl rfl rfl
    have hpush : Accounted [] { c.setConnection id { con with
        tunnel := { con.tunnel with closed := true } } with stack := .close id :: c.stack } :=
      hset.push rfl
    exact hpush
  pushParse := fun h hu => ⟨(ordered_returns K).pushParse h.1 hu, h.2.deref.push rfl⟩

theorem Accounted.closeReturned {c : Core} {id : Nat} {below : List Frame} (h : Accounted [] c)
    (hb : Balanced [] c) (hs : c.stack = .close id :: below) :
    Accounted [] ({ c with stack := below }.closeReturned id) := by
  have hpop : Accounted [] { c with stack := below } := h.pop hs rfl
  have hrel : Accounted [] ({ c with stack := below }.modify id fun con => { con with
      released := true }) := by
    unfold modify
    split
    · exact hpop.same rfl rfl rfl rfl rfl
    · exact hpop
  have hboth := hb.popClose hs
  exact (((hrel.ref id).ref id).decref hboth).decref hboth.decref

theorem Accounted.parsed {c : Core} {id : Nat} {con : Connection} {r : ParseResult}
    (h : Accounted [] c) : Accounted [] (c.parsed id con r) := by
  unfold Core.parsed
  dsimp only
  split <;> exact h.same rfl rfl rfl rfl rfl

/-- **The account is kept by every move**; the process ends only where a write has failed. -/
theorem accounted_closed (W : World) (N : Aim) (K : Core → Nat → Prop) :
    Closed W N K (fun c l => misreads W c l = false) False (fun c => ¬ AllSent c) Ordered Accounted where
  quiet := fun _ h hq => h.same hq.received hq.trace hq.sbuf hq.queue hq.stack
  stop := fun _ hf _ _ _ => hf.elim
  crash := fun _ hf _ _ => hf.elim
  exited := fun _ _ hw hs => by
    obtain ⟨w, hin, hunsent⟩ := hw
    rw [hs w hin] at hunsent
    cases hunsent
  pack := fun {k c} m _ h => by
    refine h.move rfl rfl (fun hs => ?_) (fun e he => ?_) (List.Perm.refl _)
    · show c.sbuf ++ [m] = (m :: k.filterMap Hold.message).reverse
      rw [h.buffer hs, List.reverse_cons]
    · rcases he with he | he | he
      · exact Or.inl he
      · exact Or.inr (Or.inl he)
      · exact Or.inr (Or.inr (by simpa using he))
  clear := fun {k c m} hk _ h => by
    refine h.move rfl rfl (fun _ => ?_) (fun e he => ?_) (List.Perm.refl _)
    · show [] = (k.filterMap Hold.message).reverse
      rw [filterMap_message hk]
      rfl
    · rcases he with he | he | he
      · exact Or.inl he
      · exact Or.inr (Or.inl he)
      · exact Or.inr (Or.inr (List.mem_cons_of_mem _ he))
  unsent := fun _ h hw => by
    refine h.move rfl rfl (fun hs => ?_) (fun e he => ?_) (List.Perm.refl _)
    · obtain ⟨w, hin, hunsent⟩ := hw
      rw [hs w hin] at hunsent
      cases hunsent
    · rcases he with he | he | he
      · exact Or.inl he
      · exact Or.inr (Or.inl he)
      · exact Or.inr (Or.inr (List.mem_cons_of_mem _ (List.mem_cons_of_mem _ he)))
  write := fun _ _ _ _ h _ _ _ _ hcause => h.wrote rfl rfl hcause rfl rfl rfl
  answer := fun _ _ _ hk _ h hm he _ _ hid _ hcause hdata => h.answer hk hm he hid hcause hdata
  silent := fun hb h hm => (h.unanswered hm).decref hb.2.spent
  lost := fun _ _ _ hunsent _ hs => by
    have hsent := hs _ (List.mem_append_right _ List.mem_cons_self)
    rw [hunsent] at hsent
    cases hsent
  decref := fun hb h => h.decref hb.2
  newRequest := fun _ func args _ h _ hv => h.newRequest func args hv
  enqueue := fun _ h => h.enqueue
  dequeue := fun _ h ht => h.dequeue ht
  target := fun _ _ h _ _ _ _ => (h.ref _).same rfl rfl rfl rfl rfl
  pushCall := fun _ _ _ _ h _ => h.pushCall
  popCall := fun _ h hs => h.popCall hs
  pushLoop := fun _ h _ hf => h.push (by cases hf <;> rfl)
  popLoop := fun _ h hs hf => h.pop hs (by cases hf <;> rfl)
  popParse := fun _ h hs => (h.pop hs rfl).ref _
  close := fun hb h hc ho hK hu => ((accounted_returns K).close ⟨hb, h⟩ hc ho hK hu).2
  closeReturned := fun _ hb h hs => h.closeReturned hb.2 hs
  read := fun {c id con} seg env _ hb h hc hu _ _ hK hab => by
    have hord : Ordered [.ref id] (c.parsed id con (c.parseData W con seg env)) :=
      ⟨by rw [parsed_stack]; exact hb.1, hb.2.parsed hc (parseData_closed W _ _ seg env)⟩
    exact ((accounted_returns K).readCb ⟨hord, h.parsed.ref id⟩ hu hK hab).2
  aborted := fun {c id con} seg env hg _ _ hc hab _ => by
    simp [misreads, hc, hab] at hg
  eof := fun {c id con} hb h hc hu hK => by
    have hord : Ordered [.ref id]
        (c.setConnection id { con with refcount := con.refcount + 1, reading := false }) :=
      ⟨hb.1, hb.2.incref hc rfl rfl⟩
    exact ((accounted_returns K).eofCb ⟨hord, (h.ref id).same rfl rfl rfl rfl rfl⟩ hK hu).2
  create := fun _ _ h _ => h.same rfl rfl rfl rfl rfl
  tick := fun _ _ h _ _ => h.same rfl rfl rfl rfl rfl

/-- The states of a run of such moves, as long as the writes succeed. -/
structure Serving (W : World) (c : Core) : Prop where
  running : c.halt = none
  ordered : Ordered [] c
  accounted : Accounted [] c
  matched : Matched W c
  completed : Completed c
  decoded : Decoded W c

theorem serving_init (W : World) : Serving W Core.init :=
  ⟨rfl, ordered_init, accounted_init, matched_init W, ⟨fun _ _ hc => (nomatch hc), fun _ _ hc => (nomatch hc)⟩,
    fun _ _ hc => (nomatch hc)⟩

/-- **A move that loses no response** leaves the core serving, or a write has failed. -/
theorem serving_step {W : World} {c c' : Core} {l : Label}
    (hempty : ∀ obj rest, W.msgpack.next [] ≠ .success obj rest) (h : Serving W c) (hl : Answerable W c l)
    (hs : c.step W l = some c') :
    Serving W c' ∨ Ended (fun c => ¬ AllSent c) c' := by
  have hclosed :=
    (ordered_closed W .any (fun _ _ => True) (fun c l => misreads W c l = false) False).and
    (accounted_closed W .any fun _ _ => True)
  have hF : Fatal W c l → False := hl.not_fatal h.ordered
  rcases step_at hs with ha | hd
  · have hI := (hclosed.at h.ordered.1 ⟨h.ordered, h.accounted⟩ ha hl.reads (aims_any W c l) hF
      fun _ _ _ _ _ _ => trivial).2
    have hlive : c'.halt = none := ha.halt_eq.trans h.running
    have hhang : ∀ con ∈ hangsUp W c l, allReturned c con = true := by
      intro con hcon
      have hkeeps := hl.keeps
      unfold abandons at hkeeps
      rw [Option.mem_def.mp hcon, Option.any_some, Bool.not_eq_false'] at hkeeps
      exact hkeeps
    exact Or.inl ⟨hlive, hI.1, hI.2, h.matched.at h.ordered.2 ha, h.completed.at h.matched h.ordered.1 ha hhang,
      h.decoded.step h.ordered hempty hl.drains hs ha hlive⟩
  · exact Or.inr (hclosed.died h.ordered.1 ⟨h.ordered, h.accounted⟩ hd hl.reads (aims_any W c l) hF
      fun _ _ _ _ _ _ => trivial)

/-- A call that is waited for is one to a connection that is open. -/
theorem Serving.awaitsPeer {W : World} {c : Core} (h : Serving W c) {e : RequestEvent} {target cinfo : Nat}
    {kind : CallKind} {callid : UInt64} {below : List Frame}
    (hs : c.stack = .call e target cinfo kind callid :: below) (hr : c.unanswered cinfo = true) :
    AwaitsPeer c := by
  have hf : Frame.call e target cinfo kind callid ∈ c.stack := by
    rw [hs]
    exact List.mem_cons_self
  obtain ⟨con, hc⟩ := h.ordered.2.target_exists hf
  refine ⟨e, target, cinfo, kind, callid, below, con, hs, hr, hc, ?_⟩
  by_contra hopen
  obtain ⟨info, hinfo, hret⟩ := (h.completed.completed h.matched).frames e target cinfo kind callid con hf hc
    (Bool.eq_true_of_not_eq_false hopen)
  simp [Core.unanswered, hinfo, hret] at hr

theorem Serving.oneResponse {W : World} {c : Core} (h : Serving W c) (hs : AllSent c) : OneResponse W c := by
  have hacc := h.accounted
  refine ⟨fun tag msg id method args hmsg hobj hid => ?_, ?_, fun tag msg method args hmsg hobj => ?_,
    fun tag msg method args hmsg hobj => ?_, h.decoded⟩
  · obtain ⟨hmsgid, hcount⟩ := hacc.request hmsg hobj hid
    refine ⟨hcount, fun w hw => ?_⟩
    obtain ⟨hin, hcause⟩ := List.mem_filter.mp hw
    obtain ⟨msg', err, res, hmsg', hcon, hdata⟩ := hacc.data hs w hin tag (of_decide_eq_true hcause)
    cases Option.some.inj (hmsg.symm.trans hmsg')
    rw [hmsgid] at hdata
    exact ⟨hcon, err, res, hdata⟩
  · rintro (⟨hstack, hqueue⟩ | ⟨hstack, hr, -⟩)
    · refine Or.inr fun tag msg id method args hmsg hobj hid => ?_
      obtain ⟨-, hcount⟩ := hacc.request hmsg hobj hid
      unfold pendingTags at hcount
      rw [hstack, hqueue] at hcount
      simpa using hcount
    · exact Or.inl (h.awaitsPeer hstack hr)
  · have hmsgid : msg.msgid = noResponse :=
      hacc.msgid_eq hmsg (by rw [hobj]; exact msgpackRpcValidate_notification method args)
    exact hacc.silent tag msg hmsg hmsgid
  · have hmsgid : msg.msgid = noResponse :=
      hacc.msgid_eq hmsg (by rw [hobj]; exact msgpackRpcValidate_request noResponse method args)
    exact hacc.silent tag msg hmsg hmsgid

/-- The well-formed messages, with the id that a response to them carries. -/
inductive WellFormed : UInt64 → MsgpackObject → Prop
  | request (id : UInt64) (method : Bytes) (args : List MsgpackObject) :
      WellFormed id (requestMessage id method args)
  | notification (method : Bytes) (args : List MsgpackObject) :
      WellFormed noResponse (notificationMessage method args)

/-- **A message is recorded when it is decoded**, whatever its handler does. -/
theorem wellformed_received {W : World} {c c' : Core} {id : Nat} {con : Connection} {below : List Frame}
    {obj : MsgpackObject} {rest : Bytes} {msgid : UInt64} (hs : c.stack = .parse id :: below)
    (hc : c.connections id = some con) (hmem : W.nomem c.decoded = false)
    (hn : W.msgpack.next con.mpac = .success obj rest) (hobj : WellFormed msgid obj)
    (hstep : c.step W .turn = some c') : c'.received = c.received ++ [⟨id, obj, msgid⟩] := by
  have hr : rpcResponse obj = none := by
    cases hobj <;> rfl
  have hv : msgpackRpcValidate obj = .ok ⟨msgid, none⟩ := by
    cases hobj with
    | request _ method args => exact msgpackRpcValidate_request msgid method args
    | notification method args => exact msgpackRpcValidate_notification method args
  obtain ⟨method, items, hd, ha⟩ : ∃ method items,
      requestDispatcher obj = .ok (msgpackRpcGetHandlerFor method) ∧
        requestArguments obj = .ok (msgpackRpcToItems items) := by
    cases hobj with
    | request id method args => exact ⟨method, args, rfl, rfl⟩
    | notification method args => exact ⟨method, args, rfl, rfl⟩
  obtain ⟨d, args, hprep⟩ : ∃ d args, prepareRequest obj = .ok (d, args) := by
    unfold prepareRequest
    rw [hd, ha]
    cases msgpackRpcToItems items with
    | none => exact ⟨_, _, rfl⟩
    | some args => exact ⟨_, _, rfl⟩
  have hframe : { { c with stack := below }.unpacked id con rest with
      stack := .parse id :: ({ c with stack := below }.unpacked id con rest).stack } =
      c.unpacked id con rest := by
    simp only [Core.unpacked, setConnection, hs]
  have hself : (c.unpacked id con rest).connections id = some { con with mpac := rest } :=
    setConnection_self _ _ _
  unfold Core.step at hstep
  split at hstep
  · cases hstep
  simp only [Core.turn, hs, hc, Core.parseObject, hmem, Bool.false_eq_true, if_false, hn, hr,
    Option.some.injEq] at hstep
  rw [hframe] at hstep
  subst hstep
  unfold connectionHandleRequest
  rw [hv]
  show (settle (dispatchRequest W (c.unpacked id con rest) id obj msgid)).received = _
  unfold dispatchRequest
  rw [hprep]
  dsimp only
  obtain ⟨hrec, _, _, _, _⟩ := newRequest_fields (c.unpacked id con rest) id ⟨id, obj, msgid⟩
  split
  · rename_i hasync
    have hnew : ((c.unpacked id con rest).newRequest id ⟨id, obj, msgid⟩).connections id =
        some { con with mpac := rest, refcount := con.refcount + 1 } := by
      unfold Core.newRequest incref modify
      dsimp only
      rw [hself]
      exact setConnection_self _ _ _
    exact (connectionRequestEvent_log (prepareRequest_async hprep hasync) hnew).2.trans hrec
  · exact hrec

/-- A move that decodes a well-formed message records it, with its connection and its id. -/
def Records (W : World) (c : Core) (l : Label) (c' : Core) : Prop :=
  ∀ id con below obj rest msgid, l = .turn → c.stack = .parse id :: below → c.connections id = some con →
    W.msgpack.next con.mpac = .success obj rest → WellFormed msgid obj →
    c'.received = c.received ++ [⟨id, obj, msgid⟩]

/-- The thread waits after finitely many moves, or the process ends. -/
def Settling (W : World) (c : Core) : Prop :=
  ∃ n c', exec (Core.step W) c (List.replicate n .turn) = some c' ∧ (c'.halt ≠ none ∨ Waits c')

/-- **What a core does whose moves lose no response**: it runs, it owes and gives one response to each
request, and it comes to the point where it waits. -/
structure Responsive (W : World) (c : Core) : Prop where
  running : c.halt = none
  one : OneResponse W c
  settles : Settling W c

end Core

open Core

/-- **One response per request.** In every run of moves that lose no response, well-formed messages are
recorded when they are decoded, and in every state, as long as the writes have succeeded, the process runs,
what is recorded is answered once or not at all (`OneResponse`), nothing is left to decode, and the thread
gets to the point where it waits. The unpacker is only known to make the bytes fewer. -/
theorem one_response_per_request {W : World} {ls : List Label}
    (hnext : ∀ bs obj rest, W.msgpack.next bs = .success obj rest → rest.length < bs.length)
    (hrun : Along (Core.step W) (fun c l _ => Answerable W c l) Core.init ls) :
    Along (Core.step W) (Records W) Core.init ls ∧
      Always (Core.step W) (fun c => AllSent c → Responsive W c) Core.init ls := by
  have hempty : ∀ obj rest, W.msgpack.next [] ≠ .success obj rest :=
    fun obj rest h => absurd (hnext [] obj rest h) (Nat.not_lt_zero _)
  refine ⟨?_, ?_⟩
  · refine along_of_invariant (I := fun _ => True) ?_ trivial hrun
    intro c l c' _ hl hs
    refine ⟨trivial, fun id con below obj rest msgid hturn hstack hc hn hobj => ?_⟩
    subst hturn
    have hmem : W.nomem c.decoded = false := by
      have hreads := hl.reads
      simp only [misreads, hstack, Bool.or_eq_false_iff] at hreads
      exact hreads.1
    exact wellformed_received hstack hc hmem hn hobj hs
  · have halways :
        Always (Core.step W) (fun c => Serving W c ∨ Ended (fun c => ¬ AllSent c) c) Core.init ls := by
      refine always_of_along (G := fun c l _ => Answerable W c l) ?_ (Or.inl (serving_init W)) hrun
      rintro c l c' (h | h) hl hs
      · exact serving_step hempty h hl hs
      · rw [step_of_halted h.2] at hs
        cases hs
    have hresponsive : ∀ c : Core, Serving W c ∨ Ended (fun c => ¬ AllSent c) c → AllSent c →
        Responsive W c := by
      rintro c (h | h) hsent
      · exact ⟨h.running, h.oneResponse hsent, thread_waits hnext h.ordered h.running⟩
      · exact absurd hsent h.1
    exact ⟨hresponsive _ halways.1, halways.2.imp fun _ _ c' h => hresponsive c' h⟩

/-- A plugin sends a message and the core works until it waits. -/
def Sample.asks (m : MsgpackObject) : List Label :=
  .turn :: (Sample.connect 1 (Sample.fill 32 3) ++ Sample.sends 1 5 m :: Sample.turns 6)

/-- The core waits in the main loop, and these are the messages it has received and the reasons why it has
written. -/
def Sample.handled (ids : List UInt64) (causes : List Cause) (c : Core) : Bool :=
  decide (c.halt = none ∧ c.stack.length = 0 ∧ c.queue.length = 0 ∧ c.received.map Message.msgid = ids ∧
    c.trace.map Write.cause = causes ∧ ∀ w ∈ c.trace, w.sent = true)

/-- A plugin runs its own function and hands the `callid` back. -/
def Sample.answersItself : List Label :=
  .turn :: (Sample.connect 1 (Sample.fill 32 3) ++ Sample.sends 1 5 (Sample.run 9 (Sample.pluginkey "03")) ::
    (Sample.turns 6 ++ Sample.sends 1 9 (Sample.response 1 (.array [.positiveInteger 7])) :: Sample.turns 6))

/-- **A request that is answered**, behind a call to another plugin that is answered. -/
theorem one_response_per_request_sample :
    Along (Core.step Sample.world) (fun c l _ => Answerable Sample.world c l) Core.init Sample.answersItself ∧
      ∃ c, exec (Core.step Sample.world) Core.init Sample.answersItself = some c ∧
        c.trace.map Write.cause = [.request, .response 0] ∧ Responsive Sample.world c := by
  have hrun : Along (Core.step Sample.world) (fun c l _ => Answerable Sample.world c l) Core.init
      Sample.answersItself := by
    apply Sample.along_connect rfl <;> decide +kernel
  have hexec : (exec (Core.step Sample.world) Core.init Sample.answersItself).any
      (Sample.handled [9] [.request, .response 0]) = true := by
    rw [Sample.answersItself, Sample.exec_connect_append rfl]
    decide +kernel
  obtain ⟨c, hex, hc⟩ := (Option.any_eq_true _ _).mp hexec
  obtain ⟨_, _, _, _, hcauses, hsent⟩ := of_decide_eq_true hc
  obtain ⟨_, hone⟩ := one_response_per_request (fun _ _ _ h => (Sample.next_shorter _).1 _ _ _ h) hrun
  exact ⟨hrun, c, hex, hcauses, hone.exec hex hsent⟩

/-- The parts of a request. -/
def Sample.requestOf : MsgpackObject → Option (UInt64 × Bytes × List MsgpackObject)
  | .array [.positiveInteger 0, .positiveInteger id, .str method, .array args] => some (id, method, args)
  | _ => none

theorem Sample.requestOf_eq {obj : MsgpackObject} {id : UInt64} {method : Bytes}
    {args : List MsgpackObject} (h : Sample.requestOf obj = some (id, method, args)) :
    obj = requestMessage id method args := by
  unfold Sample.requestOf at h
  split at h
  · cases h
    rfl
  · cases h

/-- **A request with the id `UINT64_MAX`** is taken for a notification: its handler has run, every write has
succeeded, the thread waits, and there is no response. -/
theorem request_without_response :
    ∃ c, exec (Core.step Sample.world) Core.init
        (Sample.asks (requestMessage noResponse (text "register") [.str [65]])) = some c ∧
      c.halt = none ∧ c.stack = [] ∧ c.queue = [] ∧ AllSent c ∧ c.invoked.length = 1 ∧
      ∃ msg method args, c.received[0]? = some msg ∧ msg.obj = requestMessage noResponse method args ∧
        responses c 0 = [] := by
  have hrun : (exec (Core.step Sample.world) Core.init
      (Sample.asks (requestMessage noResponse (text "register") [.str [65]]))).any
        (fun c => Sample.handled [noResponse] [] c && decide (c.invoked.length = 1) &&
          (c.received[0]?).any fun msg => (Sample.requestOf msg.obj).any fun x =>
              x.1 == noResponse) = true := by
    rw [Sample.asks, Sample.exec_connect_append rfl]
    decide +kernel
  obtain ⟨c, hex, hc⟩ := (Option.any_eq_true _ _).mp hrun
  rw [Bool.and_eq_true, Bool.and_eq_true] at hc
  obtain ⟨⟨hhandled, hinvoked⟩, hmsg⟩ := hc
  obtain ⟨hhalt, hstack, hqueue, _, hcauses, hsent⟩ := of_decide_eq_true hhandled
  obtain ⟨msg, hmsg, hobj⟩ := (Option.any_eq_true _ _).mp hmsg
  obtain ⟨⟨id, method, args⟩, hobj, hid⟩ := (Option.any_eq_true _ _).mp hobj
  have hid : id = noResponse := eq_of_beq hid
  subst hid
  refine ⟨c, hex, hhalt, List.eq_nil_of_length_eq_zero hstack, List.eq_nil_of_length_eq_zero hqueue, hsent,
    of_decide_eq_true hinvoked, msg, method, args, hmsg, Sample.requestOf_eq hobj, ?_⟩
  unfold responses
  rw [List.map_eq_nil_iff.mp hcauses]
  rfl

end SploneBox
