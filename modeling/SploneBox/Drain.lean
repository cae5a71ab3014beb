/-
# SploneBox.Drain — what one run of the decode loop handles.

`parse_cb` ends with a loop over the values that the unpacker has. A request is dispatched and the loop goes
on; a response goes to the newest call, or closes the connection, and the loop ends, whatever stands behind
it. While the loop runs the thread does nothing else (`parse_only_turn`), so it can be followed move by move
(`DecodeLoop`).

A run of the loop handles values from the front of the batch, in their order and each of them once, and leaves
the others in the unpacker (`Drained`). `batch_drained_iff` says which batches it handles to the end: those in
which no response stands in front of another value. What a whole run leaves in the unpackers is in
`SploneBox.Undecoded`.
-/
import SploneBox.Disconnect
import SploneBox.Undecoded

namespace SploneBox

open Lib.Machine

/-- What the unpacker gives on the bytes it holds: these values, and then no complete one. -/
inductive Batch (W : World) : Bytes → List MsgpackObject → Prop
  | nil {bytes : Bytes} (h : ∀ obj rest, W.msgpack.next bytes ≠ .success obj rest) : Batch W bytes []
  | cons {bytes rest : Bytes} {obj : MsgpackObject} {objs : List MsgpackObject}
      (h : W.msgpack.next bytes = .success obj rest) (hrest : Batch W rest objs) : Batch W bytes (obj :: objs)

/-- How a run of the loop ends: the unpacker has no more, or only what is broken; behind a response; with the
connection closed; or with the process. -/
inductive Exit where
  | returned
  | response
  | closed
  | ended
deriving DecidableEq

namespace Core

/-- **A run of the decode loop** of the connection `id`, with the values it has handled, how it has ended and
the core there. -/
inductive DecodeLoop (W : World) (id : Nat) (below : List Frame) :
    Core → List MsgpackObject → Exit → Core → Prop
  | returned {c c' : Core} {con : Connection} (hs : c.stack = .parse id :: below)
      (hc : c.connections id = some con) (hn : ∀ obj rest, W.msgpack.next con.mpac ≠ .success obj rest)
      (ht : c.turn W = .ok c') :
      DecodeLoop W id below c [] .returned c'
  | response {c c' : Core} {con : Connection} {obj : MsgpackObject} {rest : Bytes} {msgid : UInt64}
      {error result : MsgpackObject} {cinfo : Nat} (hs : c.stack = .parse id :: below)
      (hc : c.connections id = some con) (hn : W.msgpack.next con.mpac = .success obj rest)
      (hr : rpcResponse obj = some (msgid, error, result)) (hv : c.newestCall con msgid = some cinfo)
      (ht : c.turn W = .ok c') : DecodeLoop W id below c [obj] .response c'
  | closed {c c' : Core} {con : Connection} {obj : MsgpackObject} {rest : Bytes} {msgid : UInt64}
      {error result : MsgpackObject} (hs : c.stack = .parse id :: below) (hc : c.connections id = some con)
      (hn : W.msgpack.next con.mpac = .success obj rest) (hr : rpcResponse obj = some (msgid, error, result))
      (hv : c.newestCall con msgid = none) (ht : c.turn W = .ok c') : DecodeLoop W id below c [obj] .closed c'
  | request {c d t : Core} {con : Connection} {obj : MsgpackObject} {rest : Bytes}
      {objs : List MsgpackObject} {x : Exit} (hs : c.stack = .parse id :: below)
      (hc : c.connections id = some con) (hn : W.msgpack.next con.mpac = .success obj rest)
      (hr : rpcResponse obj = none) (ht : c.turn W = .ok d) (hloop : DecodeLoop W id below d objs x t) :
      DecodeLoop W id below c (obj :: objs) x t
  | ended {c t : Core} (hs : c.stack = .parse id :: below) (ht : c.turn W = .error t) :
      DecodeLoop W id below c [] .ended t

variable {W : World} {id : Nat} {below : List Frame}

/-! ## §1 One move of the loop -/

/-- A move of the loop on a request: the loop goes on, with the request received and the bytes behind it. -/
theorem turn_request {c d : Core} {con : Connection} {obj : MsgpackObject} {rest : Bytes}
    (hs : c.stack = .parse id :: below) (hc : c.connections id = some con)
    (hn : W.msgpack.next con.mpac = .success obj rest) (hr : rpcResponse obj = none) (ht : c.turn W = .ok d) :
    d.stack = .parse id :: below ∧ (∀ con', d.connections id = some con' → con'.mpac = rest) ∧
      ∃ msgid, d.received = c.received ++ [⟨id, obj, msgid⟩] := by
  have hgo : connectionHandleRequest W
      { { c with stack := below }.unpacked id con rest with stack := .parse id :: below } id obj = .ok d := by
    obtain ⟨_, hcon, hparsed⟩ := parsed_of_turn hs ht
    cases hc.symm.trans hcon
    cases hparsed with
    | more hn' => cases hn.symm.trans hn'
    | undecodable _ hn' => cases hn.symm.trans hn'
    | response hn' hr' =>
        cases hn.symm.trans hn'
        cases hr.symm.trans hr'
    | mismatch hn' hr' =>
        cases hn.symm.trans hn'
        cases hr.symm.trans hr'
    | request hn' hr' hgo =>
        cases hn.symm.trans hn'
        exact hgo
  refine ⟨?_, ?_, ?_⟩
  · have hstack := connectionHandleRequest_stack (W := W)
      { { c with stack := below }.unpacked id con rest with stack := .parse id :: below } id obj
    rw [hgo] at hstack
    exact hstack
  · intro con' hcon'
    have hmpac := sameMpac_connectionHandleRequest (W := W)
      { { c with stack := below }.unpacked id con rest with stack := .parse id :: below } id obj
    rw [hgo] at hmpac
    obtain ⟨con₁, hcon₁, heq, -⟩ := hmpac id con' hcon'
    obtain rfl := Option.some.inj ((setConnection_self _ id { con with mpac := rest }).symm.trans hcon₁)
    exact heq
  · have hreceived := connectionHandleRequest_received (W := W)
      { { c with stack := below }.unpacked id con rest with stack := .parse id :: below } id obj
    rw [hgo] at hreceived
    exact hreceived

/-! ## §2 The loop -/

/-- No response stands in front of another value. -/
def ResponseLast (objs : List MsgpackObject) : Prop :=
  ∀ pre obj post, objs = pre ++ obj :: post → (rpcResponse obj).isSome = true → post = []

theorem responseLast_cons {obj : MsgpackObject} {objs : List MsgpackObject} (h : rpcResponse obj = none) :
    ResponseLast (obj :: objs) ↔ ResponseLast objs := by
  constructor
  · intro hall pre o post heq ho
    exact hall (obj :: pre) o post (by rw [heq]; rfl) ho
  · intro hall pre o post heq ho
    cases pre with
    | nil =>
        obtain ⟨rfl, -⟩ := List.cons.inj heq
        rw [h] at ho
        cases ho
    | cons p pre => exact hall pre o post (List.cons.inj heq).2 ho

/-- The requests among some values, as they are received. -/
def requestsOf (objs : List MsgpackObject) : List MsgpackObject :=
  objs.filter fun obj => (rpcResponse obj).isNone

/-- **What a run of the loop that comes to its end has handled**: values from the front of the batch, in their
order, each of them once. The requests among them are received, and what is left stands in the unpacker. -/
structure Drained (W : World) (id : Nat) (c : Core) (objs handled : List MsgpackObject) (t : Core) : Prop where
  left : ∃ rest, objs = handled ++ rest ∧ ∀ con', t.connections id = some con' → Batch W con'.mpac rest
  received : t.received.map Message.obj = c.received.map Message.obj ++ requestsOf handled

/-- A move with which `parse_cb` returns: nothing is received, and the bytes of the connection are those
behind the last value. -/
theorem turn_returned {c c' : Core} {con : Connection} (hs : c.stack = .parse id :: below)
    (hc : c.connections id = some con) (hn : ∀ obj rest, W.msgpack.next con.mpac ≠ .success obj rest)
    (ht : c.turn W = .ok c') :
    c'.received = c.received ∧ ∀ con', c'.connections id = some con' → con'.mpac = con.mpac := by
  have hpop : SameMpac c { c with stack := below } := SameMpac.of_eq rfl
  have hsame : c'.received = c.received ∧ SameMpac c c' := by
    obtain ⟨_, hcon, hparsed⟩ := parsed_of_turn hs ht
    cases hc.symm.trans hcon
    cases hparsed with
    | more => exact ⟨decref_received _ id, hpop.trans (sameMpac_decref _ id)⟩
    | @undecodable d msg _ hsend =>
        have hreceived := sendError_received (W := W) { c with stack := below } id 0 msg .undecodable
        have hmpac := sameMpac_sendError (W := W) { c with stack := below } id 0 msg .undecodable
        rw [hsend] at hreceived hmpac
        exact ⟨(decref_received d id).trans hreceived, (hpop.trans hmpac).trans (sameMpac_decref d id)⟩
    | response hn' => exact absurd hn' (hn _ _)
    | mismatch hn' => exact absurd hn' (hn _ _)
    | request hn' => exact absurd hn' (hn _ _)
  refine ⟨hsame.1, ?_⟩
  intro con' hcon'
  obtain ⟨con₁, hcon₁, heq, -⟩ := hsame.2 id con' hcon'
  obtain rfl := Option.some.inj (hc.symm.trans hcon₁)
  exact heq

/-- A move of the loop on a response to the newest call. -/
theorem turn_response {c c' : Core} {con : Connection} {obj : MsgpackObject} {rest : Bytes} {msgid : UInt64}
    {error result : MsgpackObject} {cinfo : Nat} (hs : c.stack = .parse id :: below)
    (hc : c.connections id = some con) (hn : W.msgpack.next con.mpac = .success obj rest)
    (hr : rpcResponse obj = some (msgid, error, result)) (hv : c.newestCall con msgid = some cinfo)
    (ht : c.turn W = .ok c') :
    c'.received = c.received ∧ ∀ con', c'.connections id = some con' → con'.mpac = rest := by
  have hgo :
      c' = (({ c with stack := below }.unpacked id con rest).connectionHandleResponse W id cinfo msgid error
      result).decref id := by
    obtain ⟨_, hcon, hparsed⟩ := parsed_of_turn hs ht
    cases hc.symm.trans hcon
    cases hparsed with
    | more hn' => cases hn.symm.trans hn'
    | undecodable _ hn' => cases hn.symm.trans hn'
    | response hn' hr' hv' =>
        cases hn.symm.trans hn'
        cases hr.symm.trans hr'
        cases hv.symm.trans hv'
        rfl
    | mismatch hn' hr' hv' =>
        cases hn.symm.trans hn'
        cases hr.symm.trans hr'
        cases hv.symm.trans hv'
    | request hn' hr' =>
        cases hn.symm.trans hn'
        cases hr.symm.trans hr'
  subst hgo
  refine ⟨decref_received _ id, ?_⟩
  intro con' hcon'
  obtain ⟨con₁, hcon₁, heq, -⟩ := sameMpac_decref _ id id con' hcon'
  obtain rfl := Option.some.inj ((setConnection_self _ id { con with mpac := rest }).symm.trans hcon₁)
  exact heq

/-- The loop comes to an end. -/
theorem decodeLoop_exists {bytes : Bytes} {objs : List MsgpackObject} (hb : Batch W bytes objs) :
    ∀ {c : Core} {con : Connection}, c.stack = .parse id :: below → c.connections id = some con →
      con.mpac = bytes →
      ∃ handled x t, DecodeLoop W id below c handled x t := by
  -- On the batch, one turn for each message.
  induction hb with
  | nil hnone =>
      intro c con hs hc hbytes
      cases ht : c.turn W with
      | error t => exact ⟨[], .ended, t, .ended hs ht⟩
      | ok t => exact ⟨[], .returned, t, .returned hs hc (hbytes ▸ hnone) ht⟩
  | @cons bytes rest obj objs hn _ ih =>
      intro c con hs hc hbytes
      subst hbytes
      cases ht : c.turn W with
      | error t => exact ⟨[], .ended, t, .ended hs ht⟩
      | ok d =>
          cases hr : rpcResponse obj with
          | some r =>
              obtain ⟨msgid, error, result⟩ := r
              cases hv : c.newestCall con msgid with
              | some cinfo => exact ⟨[obj], .response, d, .response hs hc hn hr hv ht⟩
              | none => exact ⟨[obj], .closed, d, .closed hs hc hn hr hv ht⟩
          | none =>
              obtain ⟨hstack, hmpac, -⟩ := turn_request hs hc hn hr ht
              cases hd : d.connections id with
              | none =>
                  -- The connection is freed while `parse_cb` is reading it.
                  have hfault : d.turn W = .error (d.stop (.fault .useAfterFree)) := by
                    unfold turn
                    rw [hstack]
                    dsimp only
                    rw [hd]
                  exact ⟨[obj], .ended, _, .request hs hc hn hr ht (.ended hstack hfault)⟩
              | some con' =>
                  obtain ⟨handled, x, t, hloop⟩ := ih hstack hd (hmpac con' hd)
                  exact ⟨obj :: handled, x, t, .request hs hc hn hr ht hloop⟩

/-- What the loop has handled when it ends behind a response or for want of values. -/
theorem DecodeLoop.drained {c t : Core} {handled : List MsgpackObject} {x : Exit}
    (h : DecodeLoop W id below c handled x t) :
    ∀ {objs : List MsgpackObject}, (∀ con, c.connections id = some con → Batch W con.mpac objs) → x ≠ .ended →
      x ≠ .closed →
      Drained W id c objs handled t ∧ (handled = objs ↔ ResponseLast objs) := by
  -- On the loop. It ends early only at a response, and then all messages were handled if that was the last one.
  induction h with
  | @returned c c' con hs hc hn ht =>
      intro objs hb _ _
      obtain ⟨hreceived, hmpac⟩ := turn_returned hs hc hn ht
      cases hb con hc with
      | cons hnext _ => exact absurd hnext (hn _ _)
      | nil hnone =>
          refine ⟨⟨⟨[], rfl, ?_⟩, by simp [hreceived, requestsOf]⟩, iff_of_true rfl ?_⟩
          · intro con' hcon'
            exact .nil (hmpac con' hcon' ▸ hnone)
          · intro pre obj post heq
            simp at heq
  | @response c c' con obj rest msgid error result cinfo hs hc hn hr hv ht =>
      intro objs hb _ _
      obtain ⟨hreceived, hmpac⟩ := turn_response hs hc hn hr hv ht
      cases hb con hc with
      | nil hnone => exact absurd hn (hnone _ _)
      | @cons _ rest' obj' objs' hnext hrest =>
          obtain ⟨rfl, rfl⟩ := Unpacked.success.inj (hn.symm.trans hnext)
          refine ⟨⟨⟨objs', rfl, ?_⟩, by simp [hreceived, requestsOf, hr]⟩, ?_⟩
          · intro con' hcon'
            rw [hmpac con' hcon']
            exact hrest
          · constructor
            · intro heq pre o post hsplit _
              rw [← heq] at hsplit
              have hlen := congrArg List.length hsplit
              simp only [List.length_append, List.length_cons, List.length_nil] at hlen
              exact List.length_eq_zero_iff.mp (by omega)
            · intro hlast
              rw [hlast [] obj objs' rfl (by rw [hr]; rfl)]
  | closed hs hc hn hr hv ht => exact fun _ _ hclosed => absurd rfl hclosed
  | @request c d t con obj rest handled x hs hc hn hr ht hloop ih =>
      intro objs hb hended hclosed
      obtain ⟨hstack, hmpac, msgid, hreceived⟩ := turn_request hs hc hn hr ht
      cases hb con hc with
      | nil hnone => exact absurd hn (hnone _ _)
      | @cons _ rest' obj' objs' hnext hrest =>
          obtain ⟨rfl, rfl⟩ := Unpacked.success.inj (hn.symm.trans hnext)
          have hb' : ∀ con', d.connections id = some con' → Batch W con'.mpac objs' := by
            intro con' hcon'
            rw [hmpac con' hcon']
            exact hrest
          obtain ⟨⟨⟨left, hleft, hstays⟩, hrec⟩, hall⟩ := ih hb' hended hclosed
          refine ⟨⟨⟨left, by rw [hleft]; rfl, hstays⟩, ?_⟩, ?_⟩
          · rw [hrec, hreceived]
            simp [requestsOf, hr]
          · rw [responseLast_cons hr, List.cons.injEq, ← hall]
            simp
  | ended hs ht => exact fun _ hended _ => absurd rfl hended

/-- **The decode loop handles a batch to its end just when no response stands in front of another value**,
unless it closes the connection or the process ends. -/
theorem batch_drained_iff {c : Core} {con : Connection} {objs : List MsgpackObject}
    (hs : c.stack = .parse id :: below) (hc : c.connections id = some con) (hb : Batch W con.mpac objs) :
    (∃ handled x t, DecodeLoop W id below c handled x t) ∧
    ∀ handled x t, DecodeLoop W id below c handled x t → x ≠ .ended → x ≠ .closed →
      Drained W id c objs handled t ∧ (handled = objs ↔ ResponseLast objs) := by
  refine ⟨decodeLoop_exists hb hs hc rfl, ?_⟩
  intro handled x t hloop hended hclosed
  refine hloop.drained ?_ hended hclosed
  intro con' hcon'
  obtain rfl := Option.some.inj (hc.symm.trans hcon')
  exact hb

/-- A request for a method `x`. -/
def Sample.unknownMethod : MsgpackObject := requestMessage 9 [120] []

/-- The answer to the first call. -/
def Sample.answer : MsgpackObject := SploneBox.Sample.response 1 (.array [.positiveInteger 7])

/-- The unpacker holds that request and the answer, and the loop gets through both. -/
def Sample.drains (c : Core) : Bool :=
  match c.stack, c.connections 1, c.turn SploneBox.Sample.world with
  | .parse 1 :: _, some con, .ok d =>
      (con.mpac == SploneBox.Sample.pack unknownMethod ++ SploneBox.Sample.pack answer) &&
      ((d.connections 1).any (fun con => (d.newestCall con 1).isSome) && (d.turn SploneBox.Sample.world).isOk)
  | _, _, _ => false

/-- A plugin that has called itself sends that request, and in the same packet it answers the call. -/
def Sample.drainedBatch : List Label :=
  .turn :: (SploneBox.Sample.connect 1 (SploneBox.Sample.fill 32 3) ++
    SploneBox.Sample.sends 1 5 (SploneBox.Sample.run 8 (SploneBox.Sample.pluginkey "03")) ::
    (SploneBox.Sample.turns 6 ++
      [.read 1 (messagePacket SploneBox.Sample.server SploneBox.Sample.session 9
        (SploneBox.Sample.pack Sample.unknownMethod ++ SploneBox.Sample.pack Sample.answer))
        SploneBox.Sample.env]))

set_option maxRecDepth 2000 in
/-- Both are handled, the answer last. -/
theorem batch_drained_sample :
    ∃ c con below, exec (step SploneBox.Sample.world) init Sample.drainedBatch = some c ∧
    c.stack = .parse 1 :: below ∧ c.connections 1 = some con ∧
    (∃ handled x t, DecodeLoop SploneBox.Sample.world 1 below c handled x t) ∧
    ∃ t, DecodeLoop SploneBox.Sample.world 1 below c [Sample.unknownMethod, Sample.answer] .response t ∧
      Drained SploneBox.Sample.world 1 c [Sample.unknownMethod, Sample.answer]
        [Sample.unknownMethod, Sample.answer] t ∧
      ResponseLast [Sample.unknownMethod, Sample.answer] := by
  have hrun : (exec (step SploneBox.Sample.world) init Sample.drainedBatch).any Sample.drains = true := by
    rw [Sample.drainedBatch, SploneBox.Sample.exec_connect_append rfl]
    decide +kernel
  obtain ⟨c, hexec, hdrains⟩ := (Option.any_eq_true _ _).mp hrun
  unfold Sample.drains at hdrains
  split at hdrains
  · next below con d hs hc hturn =>
      obtain ⟨hmpac, hanswered⟩ := Bool.and_eq_true_iff.mp hdrains
      obtain ⟨hnewest, hok⟩ := Bool.and_eq_true_iff.mp hanswered
      obtain ⟨con', hcon', hcall⟩ := (Option.any_eq_true _ _).mp hnewest
      obtain ⟨cinfo, hcinfo⟩ := Option.isSome_iff_exists.mp hcall
      have hbytes : SploneBox.Sample.pack Sample.unknownMethod ++ SploneBox.Sample.pack Sample.answer =
          [0x94, 0, 9, 0xa1, 120, 0x90, 0x94, 1, 1, 0xc0, 0x91, 7] := by decide +kernel
      have hmpac : con.mpac = [0x94, 0, 9, 0xa1, 120, 0x90, 0x94, 1, 1, 0xc0, 0x91, 7] :=
        (eq_of_beq hmpac).trans hbytes
      have hfirst : SploneBox.Sample.world.msgpack.next con.mpac =
          .success Sample.unknownMethod [0x94, 1, 1, 0xc0, 0x91, 7] := by
        rw [hmpac]
        rfl
      have hsecond :
          SploneBox.Sample.world.msgpack.next [0x94, 1, 1, 0xc0, 0x91, 7] = .success Sample.answer [] := rfl
      have hb : Batch SploneBox.Sample.world con.mpac [Sample.unknownMethod, Sample.answer] :=
        .cons hfirst (.cons hsecond (.nil fun _ _ h => nomatch h))
      obtain ⟨hstack, hleft, -⟩ := turn_request hs hc hfirst rfl hturn
      cases hanswer : d.turn SploneBox.Sample.world with
      | error t =>
          rw [hanswer] at hok
          cases hok
      | ok t =>
          have hloop :
              DecodeLoop SploneBox.Sample.world 1 below c [Sample.unknownMethod, Sample.answer] .response t :=
            .request hs hc hfirst rfl hturn
              (.response hstack hcon' ((hleft con' hcon').symm ▸ hsecond) rfl hcinfo hanswer)
          have hiff := batch_drained_iff hs hc hb
          obtain ⟨hdrained, hlast⟩ := hiff.2 _ _ _ hloop nofun nofun
          exact ⟨c, con, below, hexec, hs, hc, hiff.1, t, hloop, hdrained, hlast.mp rfl⟩
  · cases hdrains

/-- A plugin that has called itself answers, and in the same packet it hands a result over. -/
def Sample.answeredBatch : List Label :=
  .turn :: (SploneBox.Sample.connect 1 (SploneBox.Sample.fill 32 3) ++
    SploneBox.Sample.sends 1 5 (SploneBox.Sample.run 9 (SploneBox.Sample.pluginkey "03")) ::
    (SploneBox.Sample.turns 6 ++
      .read 1 (messagePacket SploneBox.Sample.server SploneBox.Sample.session 9
        (SploneBox.Sample.pack (SploneBox.Sample.response 1 (.array [.positiveInteger 7])) ++
          SploneBox.Sample.pack (SploneBox.Sample.result 10 7))) SploneBox.Sample.env ::
          SploneBox.Sample.turns 1))

/-- **A complete message is left waiting**: the response is handled, `parse_cb` has returned, and the request
behind it stands in the unpacker. -/
theorem message_left_waiting : (exec (step SploneBox.Sample.world) init Sample.answeredBatch).any (fun c =>
    c.halt.isNone && c.stack.all (fun f => match f with | .parse _ => false | _ => true) &&
      c.record.any (fun o => match o with | .answered 1 _ 1 _ _ => true | _ => false) &&
      (c.connections 1).any fun con =>
          !con.tunnel.closed && match SploneBox.Sample.world.msgpack.next con.mpac with
        | .success _ _ => true
        | _ => false) = true := by
  rw [Sample.answeredBatch, SploneBox.Sample.exec_connect_append rfl]
  decide +kernel

end Core

end SploneBox
