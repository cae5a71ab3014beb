/-
# SploneBox.ToObject — `msgpack_rpc_to_object`: decoding with an explicit stack.

The source keeps a vector of items, each a msgpack object and the address its translation goes to, and
looks at the last item in every turn of its loop: a scalar is stored and popped, a container is first
allocated with all its slots `NIL` and then visited slot by slot. `toObjectTurn` is one turn. An item
carries the object its address points at; when it is popped, that object goes to the slot of the item
below it, which is where the address was taken from.

`MsgpackObject.toObject` is the same translation by recursion on the object, and `msgpackRpcToObject_eq`
says that the loop computes it. A map key that is neither a string nor a binary makes both fail.
-/
import SploneBox.Msgpack

namespace SploneBox

/-! ## §1 The translation -/

/-- `box_strndup(s, n)` of `n` bytes: `strncpy` stops at a NUL and fills up with NULs. -/
def boxStrndup (s : Bytes) : Bytes :=
  s.takeWhile (· ≠ 0) ++ zeros (s.length - (s.takeWhile (· ≠ 0)).length)

/-- The `string` made of the bytes of a `STR` or a `BIN`. -/
def toStr (s : Bytes) : Str := ⟨if s = [] then none else some (boxStrndup s), s.length⟩

/-- The key of a map entry. -/
def MsgpackObject.toKey : MsgpackObject → Option Str
  | .str s => some (toStr s)
  | .bin s => some (toStr s)
  | _ => none

mutual

/-- The translation of an object, `none` if a map in it has a key that is not a string. -/
def MsgpackObject.toObject : MsgpackObject → Option Object
  | .nil => some .nil
  | .boolean b => some (.boolean b)
  | .negativeInteger i => some (.integer i)
  | .positiveInteger u => some (.uinteger u)
  | .float bits => some (.floating bits)
  | .str s => some (.string (toStr s))
  | .bin s => some (.string (toStr s))
  | .array xs => (toObjects xs).map .array
  | .map kvs => (toEntries kvs).map .dictionary
  | .ext _ _ => some .nil

def toObjects : List MsgpackObject → Option (List Object)
  | [] => some []
  | x :: xs => do
      let v ← x.toObject
      let vs ← toObjects xs
      return v :: vs

def toEntries : List (MsgpackObject × MsgpackObject) → Option (List (Str × Object))
  | [] => some []
  | (k, x) :: kvs => do
      let key ← k.toKey
      let v ← x.toObject
      let rest ← toEntries kvs
      return (key, v) :: rest

end

/-! ## §2 The loop -/

/-- `msgpack_to_api_object_stack_item`; `aobj` is the object at the address `aobj`. -/
structure StackItem where
  mobj : MsgpackObject
  aobj : Object
  container : Bool
  idx : Nat

/-- The item a value starts as. -/
def StackItem.start (mobj : MsgpackObject) : StackItem := ⟨mobj, .nil, false, 0⟩

/-- Storing a value into slot `i` of a container. -/
def Object.setSlot : Object → Nat → Object → Object
  | .array items, i, v => .array (items.set i v)
  | .dictionary items, i, v => .dictionary (items.modify i fun kv => (kv.1, v))
  | o, _, _ => o

/-- Storing the key of slot `i` of a dictionary. -/
def Object.setKey : Object → Nat → Str → Object
  | .dictionary items, i, key => .dictionary (items.modify i fun kv => (key, kv.2))
  | o, _, _ => o

/-- How a turn leaves the loop: with the stack (bottom item last), with the stack empty and the
object in `*arg`, or with `ret = false`. -/
inductive Turned where
  | more (stack : List StackItem)
  | done (arg : Object)
  | failed

/-- `kv_pop`, when `v` is what the address of the popped item points at. -/
def popItem (v : Object) : List StackItem → Turned
  | [] => .done v
  | below :: rest => .more ({ below with aobj := below.aobj.setSlot (below.idx - 1) v } :: rest)

/-- One turn of the loop with `cur` the last item. -/
def toObjectTurn (cur : StackItem) (rest : List StackItem) : Turned :=
  match cur.mobj with
  | .nil => popItem .nil rest
  | .boolean b => popItem (.boolean b) rest
  | .negativeInteger i => popItem (.integer i) rest
  | .positiveInteger u => popItem (.uinteger u) rest
  | .float bits => popItem (.floating bits) rest
  | .str s => popItem (.string (toStr s)) rest
  | .bin s => popItem (.string (toStr s)) rest
  | .array xs =>
      if cur.container then
        match xs[cur.idx]? with
        | none => popItem cur.aobj rest
        | some x => .more (.start x :: { cur with idx := cur.idx + 1 } :: rest)
      else
        .more ({ cur with aobj := .array (List.replicate xs.length .nil), container := true } :: rest)
  | .map kvs =>
      if cur.container then
        match kvs[cur.idx]? with
        | none => popItem cur.aobj rest
        | some (k, x) =>
            match k.toKey with
            | none => .failed
            | some key =>
                .more (.start x ::
                  { cur with aobj := cur.aobj.setKey cur.idx key, idx := cur.idx + 1 } :: rest)
      else
        .more ({ cur with
          aobj := .dictionary (List.replicate kvs.length (⟨none, 0⟩, .nil))
          container := true } :: rest)
  | .ext _ _ => popItem .nil rest

/-- The loop, for at most so many turns. -/
def toObjectLoop : Nat → Turned → Turned
  | fuel + 1, .more (cur :: rest) => toObjectLoop fuel (toObjectTurn cur rest)
  | _, t => t

mutual

/-- The turns an object takes: one for a scalar; for a container one to allocate it, one for each slot,
and one to find that there are no more. -/
def MsgpackObject.turns : MsgpackObject → Nat
  | .array xs => listTurns xs + 2
  | .map kvs => mapTurns kvs + 2
  | _ => 1

def listTurns : List MsgpackObject → Nat
  | [] => 0
  | x :: xs => x.turns + 1 + listTurns xs

def mapTurns : List (MsgpackObject × MsgpackObject) → Nat
  | [] => 0
  | (_, x) :: kvs => x.turns + 1 + mapTurns kvs

end

/-- `msgpack_rpc_to_object`: the object stored through `arg`, `none` for the result `false`. -/
def msgpackRpcToObject (obj : MsgpackObject) : Option Object :=
  match toObjectLoop obj.turns (.more [.start obj]) with
  | .done arg => some arg
  | _ => none

/-- The loop of `msgpack_rpc_to_array` over the elements. -/
def msgpackRpcToItems : List MsgpackObject → Option (List Object)
  | [] => some []
  | x :: xs =>
      match msgpackRpcToObject x with
      | none => none
      | some v => (msgpackRpcToItems xs).map (v :: ·)

/-- `msgpack_rpc_to_array` at the address `obj`: the array, `none` for the result `false`. What it has
stored before it fails is only freed. -/
def msgpackRpcToArray (obj : Option MsgpackObject) : Except Fault (Option (List Object)) :=
  match obj with
  | none => .error .nullPointer
  | some (.array xs) => .ok (msgpackRpcToItems xs)
  | some _ => .ok none

/-! ## §3 The loop computes the translation -/

theorem toObjectLoop_done (n : Nat) (v : Object) : toObjectLoop n (.done v) = .done v := by
  cases n <;> rfl

theorem toObjectLoop_failed (n : Nat) : toObjectLoop n .failed = .failed := by
  cases n <;> rfl

/-- What is left to do once an object has been translated. -/
def afterItem (n : Nat) (rest : List StackItem) : Option Object → Turned
  | some v => toObjectLoop n (popItem v rest)
  | none => .failed

/-- An array whose first slots are filled. -/
def arrayItem (xs : List MsgpackObject) (vs : List Object) (todo : List MsgpackObject) : StackItem :=
  ⟨.array xs, .array (vs ++ List.replicate todo.length .nil), true, vs.length⟩

def mapItem (kvs : List (MsgpackObject × MsgpackObject)) (vs : List (Str × Object))
    (todo : List (MsgpackObject × MsgpackObject)) : StackItem :=
  ⟨.map kvs, .dictionary (vs ++ List.replicate todo.length (⟨none, 0⟩, .nil)), true, vs.length⟩

theorem modify_first_unfilled {α : Type} (vs ws : List α) (x : α) (f : α → α) :
    (vs ++ x :: ws).modify vs.length f = vs ++ f x :: ws := by
  rw [List.modify_eq_take_drop, List.take_left, List.drop_left]
  rfl

theorem toObjectLoop_scalar {o : MsgpackObject} {v : Object} {rest : List StackItem}
    (hone : o.turns = 1) (hturn : toObjectTurn (.start o) rest = popItem v rest) (n : Nat) :
    toObjectLoop (o.turns + n) (.more (.start o :: rest)) = toObjectLoop n (popItem v rest) := by
  rw [hone, Nat.add_comm, toObjectLoop, hturn]

mutual

/-- **An item is worked off**: after its turns it has been popped with the translation of its object, or
the loop has failed. -/
theorem toObjectLoop_start : ∀ (o : MsgpackObject) (n : Nat) (rest : List StackItem),
    toObjectLoop (o.turns + n) (.more (.start o :: rest)) = afterItem n rest o.toObject
  | .nil, n, rest => toObjectLoop_scalar rfl rfl n
  | .boolean _, n, rest => toObjectLoop_scalar rfl rfl n
  | .negativeInteger _, n, rest => toObjectLoop_scalar rfl rfl n
  | .positiveInteger _, n, rest => toObjectLoop_scalar rfl rfl n
  | .float _, n, rest => toObjectLoop_scalar rfl rfl n
  | .str _, n, rest => toObjectLoop_scalar rfl rfl n
  | .bin _, n, rest => toObjectLoop_scalar rfl rfl n
  | .ext _ _, n, rest => toObjectLoop_scalar rfl rfl n
  | .array xs, n, rest => by
      have hfirst : toObjectTurn (.start (.array xs)) rest = .more (arrayItem xs [] xs :: rest) := rfl
      rw [MsgpackObject.turns, show listTurns xs + 2 + n = (listTurns xs + 1 + n) + 1 by omega,
        toObjectLoop, hfirst, toObjectLoop_array xs xs [] n rest rfl]
      simp only [MsgpackObject.toObject, List.nil_append]
  | .map kvs, n, rest => by
      have hfirst : toObjectTurn (.start (.map kvs)) rest = .more (mapItem kvs [] kvs :: rest) := rfl
      rw [MsgpackObject.turns, show mapTurns kvs + 2 + n = (mapTurns kvs + 1 + n) + 1 by omega,
        toObjectLoop, hfirst, toObjectLoop_map kvs kvs [] n rest rfl]
      simp only [MsgpackObject.toObject, List.nil_append]

/-- The slots of an array from the first unfilled one on. -/
theorem toObjectLoop_array : ∀ (todo xs : List MsgpackObject) (vs : List Object) (n : Nat)
    (rest : List StackItem), xs.drop vs.length = todo →
    toObjectLoop (listTurns todo + 1 + n) (.more (arrayItem xs vs todo :: rest)) =
      afterItem n rest ((toObjects todo).map fun ws => .array (vs ++ ws))
  | [], xs, vs, n, rest, h => by
      have hnone : xs[vs.length]? = none := by
        rw [← List.head?_drop, h]
        rfl
      have hturn : toObjectTurn (arrayItem xs vs []) rest = popItem (.array (vs ++ [])) rest := by
        simp only [toObjectTurn, arrayItem, hnone, List.length_nil, List.replicate_zero, if_true]
      rw [listTurns, show 0 + 1 + n = n + 1 by omega, toObjectLoop, hturn]
      rfl
  | x :: todo, xs, vs, n, rest, h => by
      have hsome : xs[vs.length]? = some x := by
        rw [← List.head?_drop, h]
        rfl
      have hturn : toObjectTurn (arrayItem xs vs (x :: todo)) rest =
          .more (.start x :: { arrayItem xs vs (x :: todo) with idx := vs.length + 1 } :: rest) := by
        simp only [toObjectTurn, arrayItem, hsome, if_true]
      rw [listTurns, show x.turns + 1 + listTurns todo + 1 + n
        = (x.turns + (listTurns todo + 1 + n)) + 1 by omega, toObjectLoop, hturn,
        toObjectLoop_start x _ _, toObjects]
      cases hx : x.toObject with
      | none => rfl
      | some v =>
          have hstore : popItem v ({ arrayItem xs vs (x :: todo) with idx := vs.length + 1 } :: rest)
              = .more (arrayItem xs (vs ++ [v]) todo :: rest) := by
            simp [popItem, arrayItem, Object.setSlot, List.replicate_succ]
          have hdrop : xs.drop (vs ++ [v]).length = todo := by
            rw [List.length_append, List.length_singleton, ← List.drop_drop, h]
            rfl
          simp only [afterItem, hstore]
          rw [toObjectLoop_array todo xs (vs ++ [v]) n rest hdrop]
          cases toObjects todo with
          | none => rfl
          | some ws => simp [afterItem]

/-- The slots of a map from the first unfilled one on. -/
theorem toObjectLoop_map : ∀ (todo kvs : List (MsgpackObject × MsgpackObject))
    (vs : List (Str × Object)) (n : Nat) (rest : List StackItem), kvs.drop vs.length = todo →
    toObjectLoop (mapTurns todo + 1 + n) (.more (mapItem kvs vs todo :: rest)) =
      afterItem n rest ((toEntries todo).map fun ws => .dictionary (vs ++ ws))
  | [], kvs, vs, n, rest, h => by
      have hnone : kvs[vs.length]? = none := by
        rw [← List.head?_drop, h]
        rfl
      have hturn : toObjectTurn (mapItem kvs vs []) rest = popItem (.dictionary (vs ++ [])) rest := by
        simp only [toObjectTurn, mapItem, hnone, List.length_nil, List.replicate_zero, if_true]
      rw [mapTurns, show 0 + 1 + n = n + 1 by omega, toObjectLoop, hturn]
      rfl
  | (k, x) :: todo, kvs, vs, n, rest, h => by
      have hsome : kvs[vs.length]? = some (k, x) := by
        rw [← List.head?_drop, h]
        rfl
      rw [mapTurns, show x.turns + 1 + mapTurns todo + 1 + n
        = (x.turns + (mapTurns todo + 1 + n)) + 1 by omega, toObjectLoop, toEntries]
      cases hk : k.toKey with
      | none =>
          have hturn : toObjectTurn (mapItem kvs vs ((k, x) :: todo)) rest = .failed := by
            simp only [toObjectTurn, mapItem, hsome, hk, if_true]
          rw [hturn, toObjectLoop_failed]
          rfl
      | some key =>
          have hturn : toObjectTurn (mapItem kvs vs ((k, x) :: todo)) rest =
              .more (.start x :: { mapItem kvs (vs ++ [(key, .nil)]) todo with
                idx := vs.length + 1 } :: rest) := by
            simp [toObjectTurn, mapItem, hsome, hk, Object.setKey, List.replicate_succ,
              modify_first_unfilled]
          rw [hturn, toObjectLoop_start x _ _]
          cases hx : x.toObject with
          | none => rfl
          | some v =>
              have hstore : popItem v ({ mapItem kvs (vs ++ [(key, .nil)]) todo with
                  idx := vs.length + 1 } :: rest)
                  = .more (mapItem kvs (vs ++ [(key, v)]) todo :: rest) := by
                simp [popItem, mapItem, Object.setSlot, modify_first_unfilled]
              have hdrop : kvs.drop (vs ++ [(key, v)]).length = todo := by
                rw [List.length_append, List.length_singleton, ← List.drop_drop, h]
                rfl
              simp only [afterItem, hstore]
              rw [toObjectLoop_map todo kvs (vs ++ [(key, v)]) n rest hdrop]
              cases toEntries todo with
              | none => rfl
              | some ws => simp [afterItem]

end

/-- **The loop computes the translation.** -/
theorem msgpackRpcToObject_eq (o : MsgpackObject) : msgpackRpcToObject o = o.toObject := by
  have h := toObjectLoop_start o 0 []
  rw [Nat.add_zero] at h
  unfold msgpackRpcToObject
  rw [h]
  cases o.toObject with
  | none => rfl
  | some v => simp only [afterItem, popItem, toObjectLoop_done]

theorem msgpackRpcToItems_eq : ∀ xs : List MsgpackObject, msgpackRpcToItems xs = toObjects xs
  | [] => rfl
  | x :: xs => by
      rw [msgpackRpcToItems, msgpackRpcToObject_eq, msgpackRpcToItems_eq xs, toObjects]
      cases x.toObject with
      | none => rfl
      | some v =>
          cases toObjects xs <;> rfl

/-! ## §4 When an object can be decoded -/

mutual

/-- Whether every key of every map in the object, at any depth, is a string or a binary. -/
def MsgpackObject.stringKeys : MsgpackObject → Bool
  | .array xs => listStringKeys xs
  | .map kvs => mapStringKeys kvs
  | _ => true

def listStringKeys : List MsgpackObject → Bool
  | [] => true
  | x :: xs => x.stringKeys && listStringKeys xs

def mapStringKeys : List (MsgpackObject × MsgpackObject) → Bool
  | [] => true
  | (k, x) :: kvs => k.isString && x.stringKeys && mapStringKeys kvs

end

theorem toKey_isSome (k : MsgpackObject) : k.toKey.isSome = k.isString := by
  cases k <;> rfl

mutual

theorem toObject_isSome : ∀ o : MsgpackObject, o.toObject.isSome = o.stringKeys
  | .nil => rfl
  | .boolean _ => rfl
  | .negativeInteger _ => rfl
  | .positiveInteger _ => rfl
  | .float _ => rfl
  | .str _ => rfl
  | .bin _ => rfl
  | .ext _ _ => rfl
  | .array xs => by
      rw [MsgpackObject.toObject, MsgpackObject.stringKeys, Option.isSome_map, toObjects_isSome xs]
  | .map kvs => by
      rw [MsgpackObject.toObject, MsgpackObject.stringKeys, Option.isSome_map, toEntries_isSome kvs]

theorem toObjects_isSome : ∀ xs : List MsgpackObject, (toObjects xs).isSome = listStringKeys xs
  | [] => rfl
  | x :: xs => by
      rw [listStringKeys, ← toObject_isSome x, ← toObjects_isSome xs, toObjects]
      cases x.toObject with
      | none => rfl
      | some v => cases toObjects xs <;> rfl

theorem toEntries_isSome : ∀ kvs : List (MsgpackObject × MsgpackObject),
    (toEntries kvs).isSome = mapStringKeys kvs
  | [] => rfl
  | (k, x) :: kvs => by
      rw [mapStringKeys, ← toKey_isSome, ← toObject_isSome x, ← toEntries_isSome kvs, toEntries]
      cases k.toKey with
      | none => rfl
      | some key =>
          cases x.toObject with
          | none => rfl
          | some v => cases toEntries kvs <;> rfl

end

/-- The elements of an array. -/
def Object.elements : Object → List Object
  | .array items => items
  | _ => []

/-- **Decoding with a stack is decoding by recursion**: after its turns the loop has ended, and stays where it
is; it succeeds when all keys of maps are strings, and then its result is the translation; and
`msgpack_rpc_to_array` finds the elements of the same array. -/
theorem decoding_is_recursive (o : MsgpackObject) :
    (∀ n, toObjectLoop (o.turns + n) (.more [.start o]) =
        match o.toObject with
        | some v => .done v
        | none => .failed) ∧
      ((msgpackRpcToObject o).isSome = true ↔ o.stringKeys = true) ∧
      msgpackRpcToObject o = o.toObject ∧
      ∀ xs, o = .array xs → msgpackRpcToArray (some o) = .ok ((msgpackRpcToObject o).map Object.elements) := by
  refine ⟨fun n => ?_, ?_, msgpackRpcToObject_eq o, ?_⟩
  · rw [toObjectLoop_start o n []]
    cases o.toObject with
    | none => rfl
    | some v => exact toObjectLoop_done n v
  · rw [msgpackRpcToObject_eq, toObject_isSome]
  · rintro xs rfl
    rw [msgpackRpcToArray, msgpackRpcToItems_eq, msgpackRpcToObject_eq, MsgpackObject.toObject, Option.map_map]
    cases toObjects xs <;> rfl

end SploneBox
