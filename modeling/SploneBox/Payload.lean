/-
# SploneBox.Payload — the arguments of a request on their way to another plugin.

What a plugin sends as the arguments of `run`, `result` or `broadcast` is walked three times before it
goes out again: `msgpack_rpc_to_object` makes an `object` of it (`SploneBox.ToObject`), `copy_object`
copies that (`SploneBox.Dispatch`), and `msgpack_rpc_from_object` packs the copy. The third walk is in §1,
as the calls of the packer it makes; they are the calls for the object `Object.toMsgpack` gives
(`msgpackRpcFromObject_eq`).

A string is carried as a length and a pointer, but both copies use C-string functions: `strncpy` fills up
with NULs from the first NUL on, and `strlen` then shortens the string to what stands before it. So a
string comes out as its C string, and the tree comes out as it was exactly when no string, no binary and
no map key in it has a NUL (`payload_transparent_iff`).
-/
import SploneBox.Lookup

namespace SploneBox

/-! ## §1 `msgpack_rpc_from_object` -/

/-- A call of the packer. `msgpack_pack_int64` and `msgpack_pack_uint64` write the same bytes for the
same number. -/
inductive PackCall where
  | nil
  | boolean (b : Bool)
  | integer (i : Int)
  | double (bits : UInt64)
  | str (length : Nat)
  | strBody (s : Bytes)
  | array (size : Nat)
  | map (size : Nat)

mutual

/-- The calls that pack an object; `BIN` and `EXT` are never packed by the core. -/
def MsgpackObject.packCalls : MsgpackObject → List PackCall
  | .nil => [.nil]
  | .boolean b => [.boolean b]
  | .positiveInteger u => [.integer u.toNat]
  | .negativeInteger i => [.integer i.toInt]
  | .float bits => [.double bits]
  | .str s => [.str s.length, .strBody s]
  | .array xs => .array xs.length :: itemsPackCalls xs
  | .map kvs => .map kvs.length :: entriesPackCalls kvs
  | .bin _ => []
  | .ext _ _ => []

def itemsPackCalls : List MsgpackObject → List PackCall
  | [] => []
  | x :: xs => x.packCalls ++ itemsPackCalls xs

def entriesPackCalls : List (MsgpackObject × MsgpackObject) → List PackCall
  | [] => []
  | (k, x) :: kvs => k.packCalls ++ (x.packCalls ++ entriesPackCalls kvs)

end

/-- `msgpack_rpc_from_string`. -/
def msgpackRpcFromString (s : Str) : List PackCall :=
  [.str s.length, .strBody ((s.str.getD []).take s.length)]

/-- `api_to_msgpack_object_stack_item`. -/
structure PackItem where
  obj : Object
  container : Bool
  idx : Nat

/-- The item an object starts as. -/
def PackItem.start (obj : Object) : PackItem := ⟨obj, false, 0⟩

/-- One turn of the loop with `cur` the last item: the calls it makes, and the stack it leaves. -/
def fromObjectTurn (cur : PackItem) (rest : List PackItem) : List PackCall × List PackItem :=
  match cur.obj with
  | .nil => ([.nil], rest)
  | .boolean b => ([.boolean b], rest)
  | .integer i => ([.integer i.toInt], rest)
  | .uinteger u => ([.integer u.toNat], rest)
  | .floating bits => ([.double bits], rest)
  | .string s => (msgpackRpcFromString s, rest)
  | .array items =>
      if cur.container then
        match items[cur.idx]? with
        | none => ([], rest)
        | some x => ([], .start x :: { cur with idx := cur.idx + 1 } :: rest)
      else ([.array items.length], { cur with container := true } :: rest)
  | .dictionary items =>
      if cur.container then
        match items[cur.idx]? with
        | none => ([], rest)
        | some (k, x) => (msgpackRpcFromString k, .start x :: { cur with idx := cur.idx + 1 } :: rest)
      else ([.map items.length], { cur with container := true } :: rest)

/-- The loop, for at most so many turns. -/
def fromObjectLoop : Nat → List PackItem → List PackCall
  | fuel + 1, cur :: rest =>
      (fromObjectTurn cur rest).1 ++ fromObjectLoop fuel (fromObjectTurn cur rest).2
  | _, _ => []

mutual

/-- The turns an object takes. -/
def Object.turns : Object → Nat
  | .array items => itemsTurns items + 2
  | .dictionary items => entriesTurns items + 2
  | _ => 1

def itemsTurns : List Object → Nat
  | [] => 0
  | x :: items => x.turns + 1 + itemsTurns items

def entriesTurns : List (Str × Object) → Nat
  | [] => 0
  | (_, x) :: items => x.turns + 1 + entriesTurns items

end

/-- `msgpack_rpc_from_object`. -/
def msgpackRpcFromObject (o : Object) : List PackCall := fromObjectLoop o.turns [.start o]

/-- `msgpack_rpc_from_array`. -/
def msgpackRpcFromArray (items : List Object) : List PackCall :=
  .array items.length :: items.flatMap msgpackRpcFromObject

/-- `length` is the number of bytes behind `str`. -/
def Str.exact (s : Str) : Bool := s.length == (s.str.getD []).length

mutual

/-- Every string in the object has the length it says. -/
def Object.exact : Object → Bool
  | .string s => s.exact
  | .array items => itemsExact items
  | .dictionary items => entriesExact items
  | _ => true

def itemsExact : List Object → Bool
  | [] => true
  | x :: items => x.exact && itemsExact items

def entriesExact : List (Str × Object) → Bool
  | [] => true
  | (k, x) :: items => k.exact && (x.exact && entriesExact items)

end

theorem msgpackRpcFromString_eq {s : Str} (h : s.exact = true) :
    msgpackRpcFromString s = s.toMsgpack.packCalls := by
  have hlen : s.length = (s.str.getD []).length := eq_of_beq h
  show _ = [PackCall.str ((s.str.getD []).take s.length).length, _]
  rw [hlen, List.take_length]
  rw [msgpackRpcFromString, hlen, List.take_length]

theorem integer_packCalls (i : Int64) :
    [PackCall.integer i.toInt] = (Object.integer i).toMsgpack.packCalls := by
  unfold Object.toMsgpack
  by_cases h : 0 ≤ i
  · rw [if_pos h]
    have h0 : 0 ≤ i.toInt := by simpa using Int64.le_iff_toInt_le.mp h
    have hnat : i.toInt = (i.toUInt64.toNat : Int) :=
      BitVec.toInt_eq_toNat_of_lt (BitVec.toInt_pos_iff.mp h0)
    rw [hnat]
    rfl
  · rw [if_neg h]
    rfl

theorem itemsToMsgpack_length : ∀ items : List Object, (itemsToMsgpack items).length = items.length
  | [] => rfl
  | _ :: items => congrArg (· + 1) (itemsToMsgpack_length items)

theorem entriesToMsgpack_length :
    ∀ items : List (Str × Object), (entriesToMsgpack items).length = items.length
  | [] => rfl
  | _ :: items => congrArg (· + 1) (entriesToMsgpack_length items)

/-- A scalar takes one turn. -/
theorem fromObjectLoop_scalar {o : Object} {calls : List PackCall} {rest : List PackItem}
    (hone : o.turns = 1) (hturn : fromObjectTurn (.start o) rest = (calls, rest)) (n : Nat) :
    fromObjectLoop (o.turns + n) (.start o :: rest) = calls ++ fromObjectLoop n rest := by
  rw [hone, Nat.add_comm, fromObjectLoop, hturn]

mutual

/-- **An item is worked off**: after its turns the calls for its object have been made and the items
below it are the stack. -/
theorem fromObjectLoop_start : ∀ (o : Object) (n : Nat) (rest : List PackItem), o.exact = true →
    fromObjectLoop (o.turns + n) (.start o :: rest) = o.toMsgpack.packCalls ++ fromObjectLoop n rest
  | .nil, n, rest, _ => fromObjectLoop_scalar rfl rfl n
  | .boolean _, n, rest, _ => fromObjectLoop_scalar rfl rfl n
  | .integer i, n, rest, _ => by
      rw [← integer_packCalls]
      exact fromObjectLoop_scalar rfl rfl n
  | .uinteger _, n, rest, _ => fromObjectLoop_scalar rfl rfl n
  | .floating _, n, rest, _ => fromObjectLoop_scalar rfl rfl n
  | .string s, n, rest, h => by
      have hs : s.exact = true := h
      show _ = s.toMsgpack.packCalls ++ _
      rw [← msgpackRpcFromString_eq hs]
      exact fromObjectLoop_scalar rfl rfl n
  | .array items, n, rest, h => by
      have hfirst : fromObjectTurn (.start (.array items)) rest =
          ([.array items.length], ⟨.array items, true, 0⟩ :: rest) := rfl
      rw [Object.turns, show itemsTurns items + 2 + n = (itemsTurns items + 1 + n) + 1 by omega,
        fromObjectLoop, hfirst]
      dsimp only
      rw [fromObjectLoop_array items items 0 n rest rfl h]
      simp only [Object.toMsgpack, MsgpackObject.packCalls, itemsToMsgpack_length, List.cons_append,
        List.nil_append]
  | .dictionary items, n, rest, h => by
      have hfirst : fromObjectTurn (.start (.dictionary items)) rest =
          ([.map items.length], ⟨.dictionary items, true, 0⟩ :: rest) := rfl
      rw [Object.turns, show entriesTurns items + 2 + n = (entriesTurns items + 1 + n) + 1 by omega,
        fromObjectLoop, hfirst]
      dsimp only
      rw [fromObjectLoop_dictionary items items 0 n rest rfl h]
      simp only [Object.toMsgpack, MsgpackObject.packCalls, entriesToMsgpack_length, List.cons_append,
        List.nil_append]

/-- The slots of an array from `idx` on. -/
theorem fromObjectLoop_array : ∀ (todo items : List Object) (idx n : Nat) (rest : List PackItem),
    items.drop idx = todo → itemsExact todo = true →
    fromObjectLoop (itemsTurns todo + 1 + n) (⟨.array items, true, idx⟩ :: rest) =
      itemsPackCalls (itemsToMsgpack todo) ++ fromObjectLoop n rest
  | [], items, idx, n, rest, h, _ => by
      have hnone : items[idx]? = none := by
        rw [← List.head?_drop, h]
        rfl
      rw [itemsTurns, show 0 + 1 + n = n + 1 by omega, fromObjectLoop]
      simp [fromObjectTurn, hnone, itemsToMsgpack, itemsPackCalls]
  | x :: todo, items, idx, n, rest, h, he => by
      have hsome : items[idx]? = some x := by
        rw [← List.head?_drop, h]
        rfl
      obtain ⟨hx, htodo⟩ := Bool.and_eq_true_iff.mp he
      have hdrop : items.drop (idx + 1) = todo := by
        rw [← List.drop_drop, h]
        rfl
      have hturn : fromObjectTurn ⟨.array items, true, idx⟩ rest =
          ([], .start x :: ⟨.array items, true, idx + 1⟩ :: rest) := by
        simp [fromObjectTurn, hsome]
      rw [itemsTurns, show x.turns + 1 + itemsTurns todo + 1 + n
        = (x.turns + (itemsTurns todo + 1 + n)) + 1 by omega, fromObjectLoop, hturn]
      dsimp only
      rw [fromObjectLoop_start x _ _ hx, fromObjectLoop_array todo items (idx + 1) n rest hdrop htodo]
      simp only [itemsToMsgpack, itemsPackCalls, List.nil_append, List.append_assoc]

/-- The slots of a dictionary from `idx` on. -/
theorem fromObjectLoop_dictionary : ∀ (todo items : List (Str × Object)) (idx n : Nat)
    (rest : List PackItem), items.drop idx = todo → entriesExact todo = true →
    fromObjectLoop (entriesTurns todo + 1 + n) (⟨.dictionary items, true, idx⟩ :: rest) =
      entriesPackCalls (entriesToMsgpack todo) ++ fromObjectLoop n rest
  | [], items, idx, n, rest, h, _ => by
      have hnone : items[idx]? = none := by
        rw [← List.head?_drop, h]
        rfl
      rw [entriesTurns, show 0 + 1 + n = n + 1 by omega, fromObjectLoop]
      simp [fromObjectTurn, hnone, entriesToMsgpack, entriesPackCalls]
  | (k, x) :: todo, items, idx, n, rest, h, he => by
      have hsome : items[idx]? = some (k, x) := by
        rw [← List.head?_drop, h]
        rfl
      obtain ⟨hk, hrest⟩ := Bool.and_eq_true_iff.mp he
      obtain ⟨hx, htodo⟩ := Bool.and_eq_true_iff.mp hrest
      have hdrop : items.drop (idx + 1) = todo := by
        rw [← List.drop_drop, h]
        rfl
      have hturn : fromObjectTurn ⟨.dictionary items, true, idx⟩ rest =
          (msgpackRpcFromString k, .start x :: ⟨.dictionary items, true, idx + 1⟩ :: rest) := by
        simp [fromObjectTurn, hsome]
      rw [entriesTurns, show x.turns + 1 + entriesTurns todo + 1 + n
        = (x.turns + (entriesTurns todo + 1 + n)) + 1 by omega, fromObjectLoop, hturn]
      dsimp only
      rw [fromObjectLoop_start x _ _ hx,
        fromObjectLoop_dictionary todo items (idx + 1) n rest hdrop htodo, msgpackRpcFromString_eq hk]
      simp only [entriesToMsgpack, entriesPackCalls, List.append_assoc]

end

/-- **The third walk packs `toMsgpack`.** -/
theorem msgpackRpcFromObject_eq {o : Object} (h : o.exact = true) :
    msgpackRpcFromObject o = o.toMsgpack.packCalls := by
  have hloop := fromObjectLoop_start o 0 [] h
  rw [Nat.add_zero] at hloop
  rw [msgpackRpcFromObject, hloop]
  exact List.append_nil _

theorem flatMap_fromObject : ∀ {items : List Object}, itemsExact items = true →
    items.flatMap msgpackRpcFromObject = itemsPackCalls (itemsToMsgpack items)
  | [], _ => rfl
  | x :: items, h => by
      obtain ⟨hx, hrest⟩ := Bool.and_eq_true_iff.mp h
      rw [List.flatMap_cons, msgpackRpcFromObject_eq hx, flatMap_fromObject hrest]
      rfl

theorem msgpackRpcFromArray_eq {items : List Object} (h : itemsExact items = true) :
    msgpackRpcFromArray items = (MsgpackObject.array (itemsToMsgpack items)).packCalls := by
  rw [msgpackRpcFromArray, flatMap_fromObject h, MsgpackObject.packCalls, itemsToMsgpack_length]

/-! ## §2 What can be forwarded -/

mutual

/-- No `EXT` value, and only strings and binaries as map keys. -/
def MsgpackObject.plain : MsgpackObject → Bool
  | .ext _ _ => false
  | .array xs => plainItems xs
  | .map kvs => plainEntries kvs
  | _ => true

def plainItems : List MsgpackObject → Bool
  | [] => true
  | x :: xs => x.plain && plainItems xs

def plainEntries : List (MsgpackObject × MsgpackObject) → Bool
  | [] => true
  | (k, x) :: kvs => k.isString && (x.plain && plainEntries kvs)

end

mutual

/-- No NUL in a string, a binary or a map key. -/
def MsgpackObject.nulFree : MsgpackObject → Bool
  | .str s => s.all (· ≠ 0)
  | .bin s => s.all (· ≠ 0)
  | .array xs => nulFreeItems xs
  | .map kvs => nulFreeEntries kvs
  | _ => true

def nulFreeItems : List MsgpackObject → Bool
  | [] => true
  | x :: xs => x.nulFree && nulFreeItems xs

def nulFreeEntries : List (MsgpackObject × MsgpackObject) → Bool
  | [] => true
  | (k, x) :: kvs => k.nulFree && (x.nulFree && nulFreeEntries kvs)

end

mutual

/-- **The tree the receiver should see**: the one that was sent, with binaries as strings. A number that
is not negative is decoded as an unsigned one, whatever it was sent as. -/
def MsgpackObject.asSent : MsgpackObject → MsgpackObject
  | .bin s => .str s
  | .negativeInteger i => if 0 ≤ i then .positiveInteger i.toUInt64 else .negativeInteger i
  | .array xs => .array (itemsAsSent xs)
  | .map kvs => .map (entriesAsSent kvs)
  | o => o

def itemsAsSent : List MsgpackObject → List MsgpackObject
  | [] => []
  | x :: xs => x.asSent :: itemsAsSent xs

def entriesAsSent :
    List (MsgpackObject × MsgpackObject) → List (MsgpackObject × MsgpackObject)
  | [] => []
  | (k, x) :: kvs => (k.asSent, x.asSent) :: entriesAsSent kvs

end

/-! ## §3 The three walks together -/

/-- A string comes out of the two copies as its C string. -/
theorem copied_toStr (s : Bytes) :
    (cstringCopyString (toStr s).str).toMsgpack = .str (s.takeWhile (· ≠ 0)) := by
  by_cases hs : s = []
  · subst hs
    rfl
  · have hcstr : cstr (boxStrndup s) = s.takeWhile (· ≠ 0) := by
      refine takeWhile_append_zeros ?_ _
      intro c hc
      simpa using List.mem_takeWhile_imp hc
    simp only [toStr, if_neg hs, cstringCopyString, hcstr]
    show MsgpackObject.str ((s.takeWhile (· ≠ 0)).take (s.takeWhile (· ≠ 0)).length) = _
    rw [List.take_length]

theorem copied_toStr_eq_iff (s : Bytes) :
    (cstringCopyString (toStr s).str).toMsgpack = .str s ↔ s.all (· ≠ 0) = true := by
  rw [copied_toStr, MsgpackObject.str.injEq, List.takeWhile_eq_self_iff, List.all_eq_true]

/-- A map key that is a string or a binary. -/
theorem copied_key {k : MsgpackObject} (h : k.isString = true) :
    ∃ key, k.toKey = some key ∧
      ((cstringCopyString key.str).toMsgpack = k.asSent ↔ k.nulFree = true) := by
  unfold MsgpackObject.isString at h
  split at h
  next s => exact ⟨toStr s, rfl, copied_toStr_eq_iff s⟩
  next s => exact ⟨toStr s, rfl, copied_toStr_eq_iff s⟩
  next => cases h

mutual

/-- **One object**: it decodes, and its copy packs to what was sent iff there is no NUL in it. -/
theorem copied_object : ∀ x : MsgpackObject, x.plain = true →
    ∃ v, x.toObject = some v ∧ ((copyObject v).toMsgpack = x.asSent ↔ x.nulFree = true)
  | .nil, _ => ⟨_, rfl, iff_of_true rfl rfl⟩
  | .boolean _, _ => ⟨_, rfl, iff_of_true rfl rfl⟩
  | .positiveInteger _, _ => ⟨_, rfl, iff_of_true rfl rfl⟩
  | .negativeInteger _, _ => ⟨_, rfl, iff_of_true rfl rfl⟩
  | .float _, _ => ⟨_, rfl, iff_of_true rfl rfl⟩
  | .str s, _ => ⟨_, rfl, copied_toStr_eq_iff s⟩
  | .bin s, _ => ⟨_, rfl, copied_toStr_eq_iff s⟩
  | .array xs, h => by
      obtain ⟨vs, hvs, hiff⟩ := copied_items xs h
      refine ⟨.array vs, ?_, ?_⟩
      · rw [MsgpackObject.toObject, hvs]
        rfl
      · show MsgpackObject.array (itemsToMsgpack (copyItems vs)) = .array (itemsAsSent xs) ↔ _
        rw [MsgpackObject.array.injEq]
        exact hiff
  | .map kvs, h => by
      obtain ⟨vs, hvs, hiff⟩ := copied_entries kvs h
      refine ⟨.dictionary vs, ?_, ?_⟩
      · rw [MsgpackObject.toObject, hvs]
        rfl
      · show MsgpackObject.map (entriesToMsgpack (copyEntries vs)) = .map (entriesAsSent kvs) ↔ _
        rw [MsgpackObject.map.injEq]
        exact hiff
  | .ext _ _, h => nomatch h

theorem copied_items : ∀ xs : List MsgpackObject, plainItems xs = true →
    ∃ vs, toObjects xs = some vs ∧
      (itemsToMsgpack (copyItems vs) = itemsAsSent xs ↔ nulFreeItems xs = true)
  | [], _ => ⟨[], rfl, iff_of_true rfl rfl⟩
  | x :: xs, h => by
      obtain ⟨hx, hxs⟩ := Bool.and_eq_true_iff.mp h
      obtain ⟨v, hv, hiff⟩ := copied_object x hx
      obtain ⟨vs, hvs, hiffs⟩ := copied_items xs hxs
      refine ⟨v :: vs, ?_, ?_⟩
      · rw [toObjects, hv, hvs]
        rfl
      · show (copyObject v).toMsgpack :: itemsToMsgpack (copyItems vs) = x.asSent :: itemsAsSent xs ↔
          (x.nulFree && nulFreeItems xs) = true
        rw [List.cons.injEq, Bool.and_eq_true, hiff, hiffs]

theorem copied_entries : ∀ kvs : List (MsgpackObject × MsgpackObject), plainEntries kvs = true →
    ∃ vs, toEntries kvs = some vs ∧
      (entriesToMsgpack (copyEntries vs) = entriesAsSent kvs ↔ nulFreeEntries kvs = true)
  | [], _ => ⟨[], rfl, iff_of_true rfl rfl⟩
  | (k, x) :: kvs, h => by
      obtain ⟨hk, hrest⟩ := Bool.and_eq_true_iff.mp h
      obtain ⟨hx, hkvs⟩ := Bool.and_eq_true_iff.mp hrest
      obtain ⟨key, hkey, hiffk⟩ := copied_key hk
      obtain ⟨v, hv, hiff⟩ := copied_object x hx
      obtain ⟨vs, hvs, hiffs⟩ := copied_entries kvs hkvs
      refine ⟨(key, v) :: vs, ?_, ?_⟩
      · rw [toEntries, hkey, hv, hvs]
        rfl
      · show ((cstringCopyString key.str).toMsgpack, (copyObject v).toMsgpack) ::
            entriesToMsgpack (copyEntries vs) = (k.asSent, x.asSent) :: entriesAsSent kvs ↔
          (k.nulFree && (x.nulFree && nulFreeEntries kvs)) = true
        rw [List.cons.injEq, Prod.mk.injEq, Bool.and_eq_true, Bool.and_eq_true, hiffk, hiff, hiffs,
          and_assoc]

end

theorem cstringCopyString_exact (s : Option Bytes) : (cstringCopyString s).exact = true := by
  cases s with
  | none => rfl
  | some b => exact beq_self_eq_true _

mutual

/-- A copy has only strings with the length they say. -/
theorem copyObject_exact : ∀ o : Object, (copyObject o).exact = true
  | .nil => rfl
  | .integer _ => rfl
  | .uinteger _ => rfl
  | .boolean _ => rfl
  | .floating _ => rfl
  | .string s => cstringCopyString_exact s.str
  | .array items => copyItems_exact items
  | .dictionary items => copyEntries_exact items

theorem copyItems_exact : ∀ items : List Object, itemsExact (copyItems items) = true
  | [] => rfl
  | o :: items => Bool.and_eq_true_iff.mpr ⟨copyObject_exact o, copyItems_exact items⟩

theorem copyEntries_exact : ∀ items : List (Str × Object), entriesExact (copyEntries items) = true
  | [] => rfl
  | (k, o) :: items =>
      Bool.and_eq_true_iff.mpr ⟨cstringCopyString_exact k.str,
        Bool.and_eq_true_iff.mpr ⟨copyObject_exact o, copyEntries_exact items⟩⟩

end

/-! ## §4 The three requests -/

/-- The argument array in the request a handler makes. -/
def Effect.forwarded : Effect → Option Object
  | .run _ _ _ request => request.getLast?
  | .result _ request => request.getLast?
  | .broadcast _ args => some (.array args)
  | _ => none

/-- **Every argument array that is forwarded is a copy of the last parameter.** -/
theorem forwarded_copy (func : Handler) (env : HandlerEnv) {args : List Object} {o : Object}
    (h : (func.call env args).forwarded = some o) :
    ∃ items, args.getLast? = some (.array items) ∧ o = .array (copyItems items) := by
  cases func with
  | missingMethod => cases h
  | invalidArguments => cases h
  | register =>
      simp only [Handler.call, handleRegister] at h
      repeat' split at h
      all_goals cases h
  | run =>
      simp only [Handler.call, handleRun] at h
      split at h
      next key last name runargs =>
        split at h
        next =>
          split at h
          · cases h
          · split at h
            next args =>
              simp only [apiRun, Effect.forwarded, copyObject] at h
              exact ⟨args, rfl, (Option.some.inj h).symm⟩
            all_goals cases h
        all_goals cases h
      all_goals cases h
  | result =>
      simp only [Handler.call, handleResult] at h
      split at h
      next callid items =>
        simp only [Effect.forwarded, copyObject] at h
        exact ⟨items, rfl, (Option.some.inj h).symm⟩
      all_goals cases h
  | broadcast =>
      simp only [Handler.call, handleBroadcast] at h
      split at h
      next name items =>
        simp only [Effect.forwarded] at h
        exact ⟨items, rfl, (Option.some.inj h).symm⟩
      all_goals cases h
  | subscribe =>
      simp only [Handler.call, handleSubscribe, handleEvent] at h
      repeat' split at h
      all_goals cases h
  | unsubscribe =>
      simp only [Handler.call, handleUnsubscribe, handleEvent] at h
      repeat' split at h
      all_goals cases h

theorem toObjects_getLast {x : MsgpackObject} {v : Object} (hx : x.toObject = some v) :
    ∀ {lead : List MsgpackObject} {args : List Object},
      toObjects (lead ++ [x]) = some args → args.getLast? = some v
  | [], args, h => by
      simp only [List.nil_append, toObjects, hx] at h
      cases h
      rfl
  | y :: lead, args, h => by
      simp only [List.cons_append, toObjects] at h
      obtain ⟨w, -, h⟩ := Option.bind_eq_some_iff.mp h
      obtain ⟨ws, hws, h⟩ := Option.bind_eq_some_iff.mp h
      cases h
      have hlast := toObjects_getLast hx hws
      cases ws with
      | nil => cases hlast
      | cons u us => exact hlast

/-- **Which arguments arrive as they were sent.** An argument array without `EXT` values and with string
keys decodes; whatever handler forwards it sends the copy, packed as the object `itemsToMsgpack` gives;
and that is the tree that was sent iff no string, binary or map key in it has a NUL. -/
theorem payload_transparent_iff (xs : List MsgpackObject) (hplain : plainItems xs = true) :
    ∃ items, msgpackRpcToArray (some (.array xs)) = .ok (some items) ∧
      (∀ (func : Handler) (env : HandlerEnv) (lead : List MsgpackObject) (args : List Object)
        (o : Object), msgpackRpcToItems (lead ++ [.array xs]) = some args →
        (func.call env args).forwarded = some o → o = .array (copyItems items)) ∧
      msgpackRpcFromArray (copyItems items) =
        (MsgpackObject.array (itemsToMsgpack (copyItems items))).packCalls ∧
      (itemsToMsgpack (copyItems items) = itemsAsSent xs ↔ nulFreeItems xs = true) := by
  obtain ⟨items, hitems, hiff⟩ := copied_items xs hplain
  refine ⟨items, ?_, ?_, msgpackRpcFromArray_eq (copyItems_exact items), hiff⟩
  · rw [msgpackRpcToArray, msgpackRpcToItems_eq, hitems]
  · intro func env lead args o hargs ho
    obtain ⟨items', hlast, rfl⟩ := forwarded_copy func env ho
    have hx : (MsgpackObject.array xs).toObject = some (.array items) := by
      rw [MsgpackObject.toObject, hitems]
      rfl
    rw [msgpackRpcToItems_eq] at hargs
    rw [toObjects_getLast hx hargs] at hlast
    cases hlast
    rfl

/-- `[{"a": bin "b"}, [-1]]` arrives as it was sent. -/
theorem payload_transparent_sample :
    ∃ items, msgpackRpcToArray (some (.array
        [.map [(.str [97], .bin [98])], .array [.negativeInteger (-1)]])) = .ok (some items) ∧
      itemsToMsgpack (copyItems items) =
        [.map [(.str [97], .str [98])], .array [.negativeInteger (-1)]] := by
  obtain ⟨items, hdecoded, -, -, hiff⟩ := payload_transparent_iff
    [.map [(.str [97], .bin [98])], .array [.negativeInteger (-1)]] rfl
  exact ⟨items, hdecoded, hiff.mpr rfl⟩

/-- `["a\0b"]` arrives as `["a"]`. -/
theorem nul_cuts_string :
    (msgpackRpcToItems [.str [97, 0, 98]]).map (fun items => itemsToMsgpack (copyItems items)) =
        some [.str [97]] ∧
      itemsAsSent [.str [97, 0, 98]] ≠ [.str [97]] := by
  refine ⟨rfl, ?_⟩
  intro h
  simp [itemsAsSent, MsgpackObject.asSent] at h

end SploneBox
