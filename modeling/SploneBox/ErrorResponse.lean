/-
# SploneBox.ErrorResponse — an error on its way back to the caller.

`msgpack_rpc_serialize_response` packs an error as the array `[type, message]`. The unpacker hands the type
over as a positive integer, `msgpack_rpc_to_object` makes an unsigned integer of it, and
`connection_send_request` looks for a signed one. None of the three is wrong by itself; together they lose the
type and the message of every error, and the caller gets "unknown error" instead.
-/
import SploneBox.Calls

namespace SploneBox

open Lib.Machine

namespace Core

variable {W : World} {c c' : Core}

/-- The `api_error` that `connection_send_request` reads off its `callinfo`. -/
def callApiError (info : Callinfo) : Option ApiError :=
  if info.errored then some (callError info.result) else none

theorem respond_record (c : Core) (e : RequestEvent) (r : Reply) :
    Ends (fun d => d.record = c.record) (fun _ => True) (respond W c e r) := by
  unfold respond
  split
  · exact (decref_record c e.con).1
  · have hmove := cryptoWrite_move (W := W) (c.pack (serializeResponse e.msgid r.error r.result)) e.con
      (c.pack (serializeResponse e.msgid r.error r.result)).sbuf (.response e.tag)
    dsimp only
    generalize Core.cryptoWrite W (c.pack (serializeResponse e.msgid r.error r.result)) e.con
      (c.pack (serializeResponse e.msgid r.error r.result)).sbuf (.response e.tag) = x at hmove ⊢
    cases hmove with
    | returned sent bytes env hc hl => exact (decref_record _ e.con).1
    | exited bytes env hc hl => trivial
    | lost w hid hsent hw => trivial

theorem acknowledge_record (c : Core) (e : RequestEvent) (kind : CallKind) (callid : UInt64)
    (result : Object) (error : Option ApiError) :
    Ends (fun d => ∃ os, d.record = c.record ++ os) (fun _ => True)
      (acknowledge W c e kind callid result error) := by
  unfold acknowledge
  dsimp only
  generalize hd : (if kind = .result ∧ (acknowledged kind callid (asArray W result) error).error.isNone = true
    then c.deliver callid else c) = d
  have hdeliver : ∃ os, d.record = c.record ++ os := by
    rw [← hd]
    split
    · exact ⟨[.delivered callid], rfl⟩
    · exact ⟨[], (List.append_nil _).symm⟩
  have hrespond := respond_record (W := W) d e (acknowledged kind callid (asArray W result) error)
  generalize respond W d e _ = x at hrespond ⊢
  cases x with
  | error d' => trivial
  | ok d' =>
      obtain ⟨os, hos⟩ := hdeliver
      exact ⟨os, hrespond.trans hos⟩

/-- **What the caller is told**: the error that its `callinfo` stands for is on record. -/
theorem finishCall_record {e : RequestEvent} {target cinfo : Nat} {kind : CallKind} {callid : UInt64}
    {info : Callinfo} (hi : c.calls[cinfo]? = some info)
    (hf : finishCall W c e target cinfo kind callid = .ok c') :
    ∃ result os, c'.record = c.record ++ .finished target info.msgid (callApiError info) result :: os := by
  unfold finishCall at hf
  rw [hi] at hf
  cases hc : c.connections target with
  | none =>
      rw [hc] at hf
      cases hf
  | some con =>
      rw [hc] at hf
      dsimp only at hf
      change flushNotifications W (c.setConnection target (popped con)) target (popped con) >>= _ = _ at hf
      cases hflush : flushNotifications W (c.setConnection target (popped con)) target (popped con) with
      | error d =>
          rw [hflush] at hf
          cases hf
      | ok d =>
          rw [hflush] at hf
          have hrec : (d.decref target).record = c.record := by
            rw [(decref_record d target).1, (notified_flush hflush).same]
            rfl
          have hnote : ∀ result error, acknowledge W
              ((d.decref target).note [.finished target info.msgid (callApiError info) result]) e kind callid
                result error = .ok c' →
              ∃ result os, c'.record =
              c.record ++ .finished target info.msgid (callApiError info) result :: os := by
            intro result error ha
            have hack := acknowledge_record (W := W)
              ((d.decref target).note [.finished target info.msgid (callApiError info) result]) e kind callid
              result error
            rw [ha] at hack
            obtain ⟨os, hos⟩ := hack
            refine ⟨result, os, ?_⟩
            rw [hos]
            show ((d.decref target).record ++ _) ++ os = _
            rw [hrec, List.append_assoc]
            rfl
          change (if info.errored = true then _ else _) = _ at hf
          split at hf
          · rename_i herr
            refine hnote .nil (some (callError info.result)) ?_
            unfold callApiError
            rw [if_pos herr]
            exact hf
          · rename_i herr
            refine hnote info.result none ?_
            unfold callApiError
            rw [if_neg herr]
            exact hf

/-- What `connection_handle_response` makes of the bytes of an error. -/
def errorObject (err : ApiError) : Object :=
  .array [.uinteger err.type.code, .string (toStr err.msg)]

theorem msgpackRpcToObject_error (err : ApiError) :
    msgpackRpcToObject (.array [.positiveInteger err.type.code, .str err.msg]) = some (errorObject err) := by
  rw [msgpackRpcToObject_eq]
  rfl

/-- **No error is understood**: the type is looked for under the wrong tag. -/
theorem callError_errorObject (err : ApiError) :
    callError (errorObject err) = ⟨.exception, text "unknown error"⟩ := rfl

theorem rpcResponse_error (msgid : UInt64) (err : ApiError) (arg : Object) :
    rpcResponse (serializeResponse msgid (some err) arg) =
      some (msgid, .array [.positiveInteger err.type.code, .str err.msg], .nil) := rfl

end Core

open Core

/-- **An error response reaches the caller as it was sent if and only if it is the one that every error turns
into.** The newest call of the connection is answered with the packed error; the unpacker gives the packed
object back. Whenever the call returns with that `callinfo`, this error is what the caller gets. -/
theorem error_response_understood_iff {W : World} {c : Core} {id cinfo : Nat} {con : Connection}
    {msgid : UInt64} {err : ApiError} {arg : Object} {rest : Bytes} (hmem : W.nomem c.decoded = false)
    (hbytes : con.mpac = W.msgpack.pack (serializeResponse msgid (some err) arg) ++ rest)
    (hnext : W.msgpack.next (W.msgpack.pack (serializeResponse msgid (some err) arg) ++ rest) =
      .success (serializeResponse msgid (some err) arg) rest)
    (hnewest : c.newestCall con msgid = some cinfo) :
    ∃ c₁ info, parseObject W c id con = .ok c₁ ∧ c₁.calls[cinfo]? = some info ∧ info.returned = true ∧
      ∀ c₂ e target kind callid c₃, c₂.calls[cinfo]? = some info →
        finishCall W c₂ e target cinfo kind callid = .ok c₃ →
        ∃ error result os, c₃.record = c₂.record ++ .finished target msgid (some error) result :: os ∧
          (error = err ↔ err = ⟨.exception, text "unknown error"⟩) := by
  obtain ⟨hlast, info, hinfo, hid⟩ := newestCall_cases hnewest
  have hparse : parseObject W c id con = .ok (((c.unpacked id con rest).connectionHandleResponse W id cinfo
      msgid (.array [.positiveInteger err.type.code, .str err.msg]) .nil).decref id) := by
    unfold parseObject
    rw [if_neg (by rw [hmem]; decide), hbytes, hnext]
    dsimp only
    rw [rpcResponse_error]
    dsimp only
    have hnewest' : (c.unpacked id con rest).newestCall con msgid = some cinfo := hnewest
    rw [hnewest']
  have hcalls : ((((c.unpacked id con rest).connectionHandleResponse W id cinfo msgid
      (.array [.positiveInteger err.type.code, .str err.msg]) .nil).decref id).calls)[cinfo]? =
      some { info with returned := true, errored := true, result := errorObject err } := by
    have hdecref : ∀ d : Core, (d.decref id).calls = d.calls := by
      intro d
      unfold Core.decref
      split
      · split <;> rfl
      · rfl
    rw [hdecref]
    show (c.calls.modify cinfo _)[cinfo]? = _
    rw [List.getElem?_modify_eq, hinfo]
    show some { info with
      returned := true
      errored := true
      result := (msgpackRpcToObject (.array [.positiveInteger err.type.code, .str err.msg])).getD _ } = _
    rw [msgpackRpcToObject_error]
    rfl
  refine ⟨_, _, hparse, hcalls, rfl, ?_⟩
  intro c₂ e target kind callid c₃ hinfo₂ hfinish
  obtain ⟨result, os, hrec⟩ := finishCall_record hinfo₂ hfinish
  refine ⟨callError (errorObject err), result, os, ?_, ?_⟩
  · rw [hrec, ← hid]
    rfl
  · rw [callError_errorObject]
    exact eq_comm

/-- An error that a plugin answers with. -/
def Sample.refusal : ApiError := ⟨.validation, ascii ['E']⟩

/-- A connection with one call, which the plugin has answered with the error. -/
def Sample.refusedConnection : Connection where
  tunnel := connectionCreate Sample.create
  refcount := 2
  msgid := 2
  mpac := Sample.pack (serializeResponse 1 (some Sample.refusal) .nil)
  pendingRequests := 1
  callvector := [0]
  delayedNotifications := []
  subscribedEvents := ⟨false, []⟩
  reading := true
  released := false

def Sample.refusedCall : Core := { Core.init with calls := [⟨1, false, false, .nil⟩] }

set_option maxRecDepth 2000 in
/-- **The caller is told another error**, whenever the call returns. -/
theorem error_response_understood_sample :
    ∃ c₁ info, parseObject Sample.world Sample.refusedCall 1 Sample.refusedConnection = .ok c₁ ∧
      c₁.calls[0]? = some info ∧ info.returned = true ∧
      ∀ c₂ e target kind callid c₃, c₂.calls[0]? = some info →
        finishCall Sample.world c₂ e target 0 kind callid = .ok c₃ →
        ∃ error result os, c₃.record = c₂.record ++ .finished target 1 (some error) result :: os ∧
          (error = Sample.refusal ↔ Sample.refusal = ⟨.exception, text "unknown error"⟩) := by
  have hbytes : Sample.refusedConnection.mpac =
      Sample.world.msgpack.pack (serializeResponse 1 (some Sample.refusal) .nil) ++ [] :=
    (List.append_nil _).symm
  have hnext : Sample.world.msgpack.next
      (Sample.world.msgpack.pack (serializeResponse 1 (some Sample.refusal) .nil) ++ []) =
      .success (serializeResponse 1 (some Sample.refusal) .nil) [] := by
    have hpack : Sample.world.msgpack.pack (serializeResponse 1 (some Sample.refusal) .nil) =
        [0x94, 1, 1, 0x92, 1, 0xa1, 69, 0xc0] := by
      decide +kernel
    rw [hpack]
    rfl
  exact error_response_understood_iff rfl hbytes hnext rfl

/-- The error that a call has returned. -/
def Occurrence.error : Occurrence → Option ApiError
  | .finished _ _ error _ => error
  | _ => none

/-- A plugin calls itself and answers the call with an error. -/
def Sample.refusedRun : List Label :=
  .turn :: (Sample.connect 1 (Sample.fill 32 3) ++
    Sample.sends 1 5 (Sample.run 9 (Sample.pluginkey "03")) :: (Sample.turns 6 ++
      Sample.sends 1 9 (serializeResponse 1 (some Sample.refusal) .nil) :: Sample.turns 3))

/-- **An error is lost**: the call was answered with the validation error "E" and returns the exception
"unknown error". -/
theorem error_response_lost :
    ∃ c, exec (Core.step Sample.world) Core.init Sample.refusedRun = some c ∧
      c.record.filterMap Occurrence.error = [⟨.exception, text "unknown error"⟩] ∧
      Sample.refusal ≠ ⟨.exception, text "unknown error"⟩ := by
  have hrun : (exec (Core.step Sample.world) Core.init Sample.refusedRun).any (fun c =>
      decide (c.record.filterMap Occurrence.error = [⟨.exception, text "unknown error"⟩])) = true := by
    rw [Sample.refusedRun, Sample.exec_connect_append rfl]
    decide +kernel
  obtain ⟨c, hex, hc⟩ := (Option.any_eq_true _ _).mp hrun
  exact ⟨c, hex, of_decide_eq_true hc, by decide⟩

end SploneBox
