/-
# SploneBox.Serialize — the bytes of a message, and what a receiver makes of them.

`msgpack_rpc_serialize_request` and `msgpack_rpc_serialize_response` write the heads of their arrays by hand
and leave the rest to the walk of `msgpack_rpc_from_object`. Here the calls of the packer become bytes and the
bytes are read back: `unpack` is a reader of the msgpack format that knows nothing of the core. What it finds
in a message is one value, the one `serializeRequest` or `serializeResponse` gives (`decode_packed`,
`request_calls`, `response_calls`), and `msgpack_rpc_validate` accepts it (`messages_agree`).
-/
import SploneBox.Lib.MessagePack
import SploneBox.Payload

namespace SploneBox

open Lib.MessagePack

/-! ## §1 Bytes -/

/-- The bytes a call of the packer appends to the buffer. -/
def PackCall.bytes : PackCall → Bytes
  | .nil => Head.nil.bytes
  | .boolean b => (Head.boolean b).bytes
  | .integer i => (Head.int i).bytes
  | .double bits => (Head.float bits.toNat).bytes
  | .str length => (Head.str length).bytes
  | .strBody s => s
  | .array size => (Head.array size).bytes
  | .map size => (Head.map size).bytes

/-- The buffer after the calls. -/
def packed (calls : List PackCall) : Bytes := calls.flatMap PackCall.bytes

/-- `msgpack_rpc_serialize_request`. -/
def msgpackRpcSerializeRequest (requestId : UInt64) (method : Str) (args : List Object) : List PackCall :=
  [.array (if requestId ≠ 0 then 4 else 3), .integer (if requestId ≠ 0 then 0 else 2)] ++
    (if requestId ≠ 0 then [.integer requestId.toNat] else []) ++
    (msgpackRpcFromString method ++ msgpackRpcFromArray args)

/-- `cstring_to_string`. -/
def cstringToString (s : Bytes) : Str := ⟨some s, s.length⟩

/-- `msgpack_rpc_serialize_response`. -/
def msgpackRpcSerializeResponse (responseId : UInt64) (err : Option ApiError) (arg : Object) : List PackCall :=
  [.array 4, .integer 1, .integer responseId.toNat] ++
    match err with
    | some e => [.array 2, .integer e.type.code.toNat] ++ msgpackRpcFromString (cstringToString e.msg) ++ [.nil]
    | none => .nil :: msgpackRpcFromObject arg

/-! ## §2 Reading a value -/

/-- The bytes of a string or an extension. -/
def body (n : Nat) (bs : Bytes) : Option (Bytes × Bytes) :=
  if bs.length < n then none else some (bs.take n, bs.drop n)

/-- An integer: which of the two members of the union it is in depends on its sign. -/
def integerObject (i : Int) : MsgpackObject :=
  if 0 ≤ i then .positiveInteger (UInt64.ofNat i.toNat) else .negativeInteger (Int64.ofInt i)

section

variable (widen : Nat → Nat)

mutual

/-- The value at the start of the bytes. The first argument bounds the recursion. -/
def unpack : Nat → Bytes → Option (MsgpackObject × Bytes)
  | 0, _ => none
  | fuel + 1, bs =>
      match head widen bs with
      | none => none
      | some (.nil, bs) => some (.nil, bs)
      | some (.boolean b, bs) => some (.boolean b, bs)
      | some (.int i, bs) => some (integerObject i, bs)
      | some (.float bits, bs) => some (.float (UInt64.ofNat bits), bs)
      | some (.str n, bs) => (body n bs).map fun x => (.str x.1, x.2)
      | some (.bin n, bs) => (body n bs).map fun x => (.bin x.1, x.2)
      | some (.ext type n, bs) => (body n bs).map fun x => (.ext (Int8.ofInt type) x.1, x.2)
      | some (.array n, bs) => (unpackItems fuel n bs).map fun x => (.array x.1, x.2)
      | some (.map n, bs) => (unpackEntries fuel n bs).map fun x => (.map x.1, x.2)

/-- The next `n` values. -/
def unpackItems : Nat → Nat → Bytes → Option (List MsgpackObject × Bytes)
  | fuel, n, bs =>
      match n, fuel with
      | 0, _ => some ([], bs)
      | _ + 1, 0 => none
      | n + 1, fuel + 1 =>
          match unpack fuel bs with
          | none => none
          | some (x, bs) => (unpackItems fuel n bs).map fun y => (x :: y.1, y.2)

/-- The next `n` pairs of values. -/
def unpackEntries : Nat → Nat → Bytes → Option (List (MsgpackObject × MsgpackObject) × Bytes)
  | fuel, n, bs =>
      match n, fuel with
      | 0, _ => some ([], bs)
      | _ + 1, 0 => none
      | n + 1, fuel + 1 =>
          match unpack fuel bs with
          | none => none
          | some (k, bs) =>
              match unpack fuel bs with
              | none => none
              | some (x, bs) => (unpackEntries fuel n bs).map fun y => ((k, x) :: y.1, y.2)

end

/-- The value at the start of the bytes; every value has a byte, and so has every container. -/
def decode (bs : Bytes) : Option (MsgpackObject × Bytes) := unpack widen (2 * bs.length) bs

end

/-! ## §3 What is packed comes back -/

mutual

/-- What the core packs: strings and containers whose size the format has room for, and integers where the
reader puts them. -/
def MsgpackObject.packable : MsgpackObject → Bool
  | .nil | .boolean _ | .positiveInteger _ | .float _ => true
  | .negativeInteger i => i.toInt < 0
  | .str s => s.length < 2 ^ 32
  | .array xs => xs.length < 2 ^ 32 && packableItems xs
  | .map kvs => kvs.length < 2 ^ 32 && packableEntries kvs
  | .bin _ | .ext _ _ => false

def packableItems : List MsgpackObject → Bool
  | [] => true
  | x :: xs => x.packable && packableItems xs

def packableEntries : List (MsgpackObject × MsgpackObject) → Bool
  | [] => true
  | (k, x) :: kvs => k.packable && (x.packable && packableEntries kvs)

end

variable {widen : Nat → Nat}

@[simp] theorem packed_nil : packed [] = [] := rfl

@[simp] theorem packed_append (calls calls' : List PackCall) :
    packed (calls ++ calls') = packed calls ++ packed calls' := List.flatMap_append

/-- A value is read from its head on. -/
theorem unpack_head {h : Head} (hin : h.InRange) (rest : Bytes) (fuel : Nat) :
    unpack widen (fuel + 1) (h.bytes ++ rest) =
      match h with
      | .nil => some (.nil, rest)
      | .boolean b => some (.boolean b, rest)
      | .int i => some (integerObject i, rest)
      | .float bits => some (.float (UInt64.ofNat bits), rest)
      | .str n => (body n rest).map fun x => (.str x.1, x.2)
      | .bin n => (body n rest).map fun x => (.bin x.1, x.2)
      | .ext type n => (body n rest).map fun x => (.ext (Int8.ofInt type) x.1, x.2)
      | .array n => (unpackItems widen fuel n rest).map fun x => (.array x.1, x.2)
      | .map n => (unpackEntries widen fuel n rest).map fun x => (.map x.1, x.2) := by
  rw [unpack, head_bytes hin]
  cases h <;> rfl

theorem head_length_pos (h : Head) : 0 < h.bytes.length := List.length_pos_iff.mpr h.bytes_ne_nil

theorem body_append (s rest : Bytes) : body s.length (s ++ rest) = some (s, rest) := by
  unfold body
  rw [if_neg (by simp), List.take_left, List.drop_left]

theorem integerObject_nat (u : UInt64) : integerObject u.toNat = .positiveInteger u := by
  unfold integerObject
  rw [if_pos (Int.natCast_nonneg _), Int.toNat_natCast, UInt64.ofNat_toNat]

theorem integerObject_negative {i : Int64} (hi : i.toInt < 0) : integerObject i.toInt = .negativeInteger i := by
  unfold integerObject
  rw [if_neg (by omega), Int64.ofInt_toInt]

/-- What is packed for a value has a byte. -/
theorem packed_length_pos {v : MsgpackObject} (h : v.packable = true) : 0 < (packed v.packCalls).length := by
  have hhead : ∀ (h : Head) (calls : List PackCall), 0 < (h.bytes ++ packed calls).length := by
    intro h calls
    rw [List.length_append]
    exact Nat.add_pos_left (head_length_pos h) _
  cases v with
  | nil => exact hhead .nil []
  | boolean b => exact hhead (.boolean b) []
  | positiveInteger u => exact hhead (.int u.toNat) []
  | negativeInteger i => exact hhead (.int i.toInt) []
  | float bits => exact hhead (.float bits.toNat) []
  | str s => exact hhead (.str s.length) [.strBody s]
  | array xs => exact hhead (.array xs.length) (itemsPackCalls xs)
  | map kvs => exact hhead (.map kvs.length) (entriesPackCalls kvs)
  | bin s => cases h
  | ext type s => cases h

/-- A value whose packing begins with a head takes a turn for it. -/
theorem turn_for_head {h : Head} {calls : List PackCall} {fuel : Nat}
    (hfuel : 2 * (h.bytes ++ packed calls).length ≤ fuel) :
    ∃ f, fuel = f + 1 ∧ 2 * (packed calls).length + 1 ≤ f := by
  have hpos := head_length_pos h
  rw [List.length_append] at hfuel
  exact ⟨fuel - 1, by omega, by omega⟩

theorem unpack_positiveInteger (u : UInt64) (rest : Bytes) (fuel : Nat) :
    unpack widen (fuel + 1) ((Head.int u.toNat).bytes ++ rest) = some (.positiveInteger u, rest) := by
  have hin : (Head.int u.toNat).InRange := by
    have hlt := u.toNat_lt
    exact ⟨by omega, by omega⟩
  rw [unpack_head hin]
  dsimp only
  rw [integerObject_nat]

theorem unpack_negativeInteger {i : Int64} (hi : i.toInt < 0) (rest : Bytes) (fuel : Nat) :
    unpack widen (fuel + 1) ((Head.int i.toInt).bytes ++ rest) = some (.negativeInteger i, rest) := by
  have hin : (Head.int i.toInt).InRange := by
    have hlow := i.le_toInt
    exact ⟨by omega, by omega⟩
  rw [unpack_head hin]
  dsimp only
  rw [integerObject_negative hi]

theorem unpack_float (bits : UInt64) (rest : Bytes) (fuel : Nat) :
    unpack widen (fuel + 1) ((Head.float bits.toNat).bytes ++ rest) = some (.float bits, rest) := by
  have hin : (Head.float bits.toNat).InRange := bits.toNat_lt
  rw [unpack_head hin]
  dsimp only
  rw [UInt64.ofNat_toNat]

theorem unpack_str {s : Bytes} (hs : s.length < 2 ^ 32) {fuel : Nat} (rest : Bytes)
    (hfuel : 2 * ((Head.str s.length).bytes ++ packed [.strBody s]).length ≤ fuel) :
    unpack widen fuel ((Head.str s.length).bytes ++ packed [.strBody s] ++ rest) = some (.str s, rest) := by
  have hin : (Head.str s.length).InRange := hs
  have hbody : packed [.strBody s] = s := List.append_nil s
  obtain ⟨f, rfl, -⟩ := turn_for_head hfuel
  rw [hbody, List.append_assoc, unpack_head hin]
  dsimp only
  rw [body_append]
  rfl

/-- An array is its head and its items. -/
theorem unpack_array {xs : List MsgpackObject} (hs : xs.length < 2 ^ 32) {fuel : Nat} (rest : Bytes)
    (hitems : ∀ f, 2 * (packed (itemsPackCalls xs)).length + 1 ≤ f →
      unpackItems widen f xs.length (packed (itemsPackCalls xs) ++ rest) = some (xs, rest))
    (hfuel : 2 * ((Head.array xs.length).bytes ++ packed (itemsPackCalls xs)).length ≤ fuel) :
    unpack widen fuel ((Head.array xs.length).bytes ++ packed (itemsPackCalls xs) ++ rest) =
      some (.array xs, rest) := by
  have hin : (Head.array xs.length).InRange := hs
  obtain ⟨f, rfl, hf⟩ := turn_for_head hfuel
  rw [List.append_assoc, unpack_head hin]
  dsimp only
  rw [hitems f hf]
  rfl

/-- A map is its head and its entries. -/
theorem unpack_map {kvs : List (MsgpackObject × MsgpackObject)} (hs : kvs.length < 2 ^ 32) {fuel : Nat}
    (rest : Bytes) (hentries : ∀ f, 2 * (packed (entriesPackCalls kvs)).length + 1 ≤ f →
      unpackEntries widen f kvs.length (packed (entriesPackCalls kvs) ++ rest) = some (kvs, rest))
    (hfuel : 2 * ((Head.map kvs.length).bytes ++ packed (entriesPackCalls kvs)).length ≤ fuel) :
    unpack widen fuel ((Head.map kvs.length).bytes ++ packed (entriesPackCalls kvs) ++ rest) =
      some (.map kvs, rest) := by
  have hin : (Head.map kvs.length).InRange := hs
  obtain ⟨f, rfl, hf⟩ := turn_for_head hfuel
  rw [List.append_assoc, unpack_head hin]
  dsimp only
  rw [hentries f hf]
  rfl

variable (widen)

/-- The value comes back from what is packed for it, and what stands behind it is left. -/
def ComesBack (v : MsgpackObject) : Prop :=
  ∀ (fuel : Nat) (rest : Bytes), 2 * (packed v.packCalls).length ≤ fuel →
    unpack widen fuel (packed v.packCalls ++ rest) = some (v, rest)

def ItemsComeBack (xs : List MsgpackObject) : Prop :=
  ∀ (fuel : Nat) (rest : Bytes), 2 * (packed (itemsPackCalls xs)).length + 1 ≤ fuel →
    unpackItems widen fuel xs.length (packed (itemsPackCalls xs) ++ rest) = some (xs, rest)

def EntriesComeBack (kvs : List (MsgpackObject × MsgpackObject)) : Prop :=
  ∀ (fuel : Nat) (rest : Bytes), 2 * (packed (entriesPackCalls kvs)).length + 1 ≤ fuel →
    unpackEntries widen fuel kvs.length (packed (entriesPackCalls kvs) ++ rest) = some (kvs, rest)

variable {widen}

theorem scalar_comesBack {v : MsgpackObject} {h : Head} (hcalls : packed v.packCalls = h.bytes ++ packed [])
    (hread : ∀ (rest : Bytes) (fuel : Nat), unpack widen (fuel + 1) (h.bytes ++ rest) = some (v, rest)) :
    ComesBack widen v := by
  intro fuel rest hfuel
  rw [hcalls] at hfuel ⊢
  obtain ⟨f, rfl, -⟩ := turn_for_head hfuel
  rw [packed_nil, List.append_nil]
  exact hread rest f

theorem str_comesBack {s : Bytes} (hs : s.length < 2 ^ 32) : ComesBack widen (.str s) := by
  intro fuel rest hfuel
  exact unpack_str hs rest hfuel

theorem array_comesBack {xs : List MsgpackObject} (hs : xs.length < 2 ^ 32) (hitems : ItemsComeBack widen xs) :
    ComesBack widen (.array xs) := by
  intro fuel rest hfuel
  exact unpack_array hs rest (fun f => hitems f rest) hfuel

theorem map_comesBack {kvs : List (MsgpackObject × MsgpackObject)} (hs : kvs.length < 2 ^ 32)
    (hentries : EntriesComeBack widen kvs) : ComesBack widen (.map kvs) := by
  intro fuel rest hfuel
  exact unpack_map hs rest (fun f => hentries f rest) hfuel

theorem items_comeBack {x : MsgpackObject} {xs : List MsgpackObject} (hpos : 0 < (packed x.packCalls).length)
    (hx : ComesBack widen x) (hxs : ItemsComeBack widen xs) : ItemsComeBack widen (x :: xs) := by
  intro fuel rest hfuel
  rw [itemsPackCalls, packed_append, List.length_append] at hfuel
  obtain ⟨f, rfl⟩ : ∃ f, fuel = f + 1 := ⟨fuel - 1, by omega⟩
  rw [itemsPackCalls, packed_append, List.append_assoc, List.length_cons, unpackItems]
  rw [hx f _ (by omega)]
  dsimp only
  rw [hxs f rest (by omega)]
  rfl

theorem entries_comeBack {k x : MsgpackObject} {kvs : List (MsgpackObject × MsgpackObject)}
    (hkpos : 0 < (packed k.packCalls).length) (hk : ComesBack widen k) (hx : ComesBack widen x)
    (hkvs : EntriesComeBack widen kvs) : EntriesComeBack widen ((k, x) :: kvs) := by
  intro fuel rest hfuel
  rw [entriesPackCalls, packed_append, packed_append, List.length_append, List.length_append] at hfuel
  obtain ⟨f, rfl⟩ : ∃ f, fuel = f + 1 := ⟨fuel - 1, by omega⟩
  rw [entriesPackCalls, packed_append, packed_append, List.append_assoc, List.append_assoc, List.length_cons,
    unpackEntries]
  rw [hk f _ (by omega)]
  dsimp only
  rw [hx f _ (by omega)]
  dsimp only
  rw [hkvs f rest (by omega)]
  rfl

mutual

/-- **A value comes back.** -/
theorem comesBack : ∀ v : MsgpackObject, v.packable = true → ComesBack widen v
  | .nil, _ => scalar_comesBack (h := .nil) rfl (unpack_head (h := .nil) trivial)
  | .boolean b, _ => scalar_comesBack (h := .boolean b) rfl (unpack_head (h := .boolean b) trivial)
  | .positiveInteger u, _ => scalar_comesBack (h := .int u.toNat) rfl (unpack_positiveInteger u)
  | .negativeInteger i, hv =>
      scalar_comesBack (h := .int i.toInt) rfl (unpack_negativeInteger (of_decide_eq_true hv))
  | .float bits, _ => scalar_comesBack (h := .float bits.toNat) rfl (unpack_float bits)
  | .str _, hv => str_comesBack (of_decide_eq_true hv)
  | .array xs, hv =>
      have h := Bool.and_eq_true_iff.mp hv
      array_comesBack (of_decide_eq_true h.1) (itemsComeBack xs h.2)
  | .map kvs, hv =>
      have h := Bool.and_eq_true_iff.mp hv
      map_comesBack (of_decide_eq_true h.1) (entriesComeBack kvs h.2)
  | .bin _, hv => absurd hv Bool.false_ne_true
  | .ext _ _, hv => absurd hv Bool.false_ne_true

theorem itemsComeBack : ∀ xs : List MsgpackObject, packableItems xs = true → ItemsComeBack widen xs
  | [], _ => fun fuel rest _ => by
      rw [List.length_nil, unpackItems]
      rfl
  | x :: xs, hv =>
      have h := Bool.and_eq_true_iff.mp hv
      items_comeBack (packed_length_pos h.1) (comesBack x h.1) (itemsComeBack xs h.2)

theorem entriesComeBack : ∀ kvs : List (MsgpackObject × MsgpackObject), packableEntries kvs = true →
    EntriesComeBack widen kvs
  | [], _ => fun fuel rest _ => by
      rw [List.length_nil, unpackEntries]
      rfl
  | (k, x) :: kvs, hv =>
      have h := Bool.and_eq_true_iff.mp hv
      have h' := Bool.and_eq_true_iff.mp h.2
      entries_comeBack (packed_length_pos h.1) (comesBack k h.1) (comesBack x h'.1) (entriesComeBack kvs h'.2)

end

/-- **One value and nothing behind it.** -/
theorem decode_packed {v : MsgpackObject} (h : v.packable = true) :
    decode widen (packed v.packCalls) = some (v, []) := by
  have hback : ComesBack widen v := comesBack v h
  have hone := hback (2 * (packed v.packCalls).length) [] (Nat.le_refl _)
  rw [List.append_nil] at hone
  exact hone

/-! ## §4 Messages -/

mutual

/-- Strings and containers of the object have a size that the format has room for. -/
def Object.sized : Object → Bool
  | .string s => s.length < 2 ^ 32
  | .array items => items.length < 2 ^ 32 && itemsSized items
  | .dictionary items => items.length < 2 ^ 32 && entriesSized items
  | _ => true

def itemsSized : List Object → Bool
  | [] => true
  | x :: items => x.sized && itemsSized items

def entriesSized : List (Str × Object) → Bool
  | [] => true
  | (k, x) :: items => k.length < 2 ^ 32 && (x.sized && entriesSized items)

end

theorem str_packable {s : Str} (h : s.length < 2 ^ 32) : s.toMsgpack.packable = true := by
  refine decide_eq_true ?_
  rw [List.length_take]
  exact Nat.lt_of_le_of_lt (Nat.min_le_left _ _) h

theorem integer_packable (i : Int64) : (Object.integer i).toMsgpack.packable = true := by
  unfold Object.toMsgpack
  by_cases h : 0 ≤ i
  · rw [if_pos h]
    rfl
  · rw [if_neg h]
    have hneg : i < 0 := Int64.not_le.mp h
    exact decide_eq_true (by simpa using Int64.lt_iff_toInt_lt.mp hneg)

mutual

/-- A sized object has room in the format. -/
theorem toMsgpack_packable : ∀ o : Object, o.sized = true → o.toMsgpack.packable = true
  | .nil, _ => rfl
  | .boolean _, _ => rfl
  | .integer i, _ => integer_packable i
  | .uinteger _, _ => rfl
  | .floating _, _ => rfl
  | .string _, h => str_packable (of_decide_eq_true h)
  | .array items, h => by
      obtain ⟨hsize, hitems⟩ := Bool.and_eq_true_iff.mp h
      rw [← itemsToMsgpack_length] at hsize
      exact Bool.and_eq_true_iff.mpr ⟨hsize, itemsToMsgpack_packable items hitems⟩
  | .dictionary items, h => by
      obtain ⟨hsize, hitems⟩ := Bool.and_eq_true_iff.mp h
      rw [← entriesToMsgpack_length] at hsize
      exact Bool.and_eq_true_iff.mpr ⟨hsize, entriesToMsgpack_packable items hitems⟩

theorem itemsToMsgpack_packable : ∀ items : List Object, itemsSized items = true →
    packableItems (itemsToMsgpack items) = true
  | [], _ => rfl
  | x :: items, h => by
      obtain ⟨hx, hitems⟩ := Bool.and_eq_true_iff.mp h
      exact Bool.and_eq_true_iff.mpr ⟨toMsgpack_packable x hx, itemsToMsgpack_packable items hitems⟩

theorem entriesToMsgpack_packable : ∀ items : List (Str × Object), entriesSized items = true →
    packableEntries (entriesToMsgpack items) = true
  | [], _ => rfl
  | (k, x) :: items, h => by
      obtain ⟨hk, hrest⟩ := Bool.and_eq_true_iff.mp h
      obtain ⟨hx, hitems⟩ := Bool.and_eq_true_iff.mp hrest
      exact Bool.and_eq_true_iff.mpr ⟨str_packable (of_decide_eq_true hk),
        Bool.and_eq_true_iff.mpr ⟨toMsgpack_packable x hx, entriesToMsgpack_packable items hitems⟩⟩

end

/-- The bytes a `string` stands for. -/
def Str.bytes (s : Str) : Bytes := (s.str.getD []).take s.length

/-- **The calls of a request** are those of one value. -/
theorem request_calls (requestId : UInt64) {method : Str} {args : List Object} (hm : method.exact = true)
    (ha : itemsExact args = true) :
    msgpackRpcSerializeRequest requestId method args =
      (serializeRequest requestId method.bytes args).packCalls := by
  unfold msgpackRpcSerializeRequest serializeRequest
  rw [msgpackRpcFromString_eq hm, msgpackRpcFromArray_eq ha]
  by_cases hid : requestId = 0
  · rw [if_neg (not_not.mpr hid), if_neg (not_not.mpr hid), if_neg (not_not.mpr hid), if_pos hid]
    simp [MsgpackObject.packCalls, itemsPackCalls, Str.toMsgpack, Str.bytes]
  · rw [if_pos hid, if_pos hid, if_pos hid, if_neg hid]
    simp [MsgpackObject.packCalls, itemsPackCalls, Str.toMsgpack, Str.bytes]

/-- **The calls of a response** are those of one value. -/
theorem response_calls (responseId : UInt64) (err : Option ApiError) {arg : Object} (ha : arg.exact = true) :
    msgpackRpcSerializeResponse responseId err arg = (serializeResponse responseId err arg).packCalls := by
  unfold msgpackRpcSerializeResponse serializeResponse
  cases err with
  | none =>
      dsimp only
      rw [msgpackRpcFromObject_eq ha]
      simp [MsgpackObject.packCalls, itemsPackCalls]
  | some e =>
      have hmsg : (cstringToString e.msg).exact = true := beq_self_eq_true _
      dsimp only
      rw [msgpackRpcFromString_eq hmsg]
      simp [MsgpackObject.packCalls, itemsPackCalls, Str.toMsgpack, cstringToString]

theorem serializeRequest_packable (requestId : UInt64) {method : Str} {args : List Object}
    (hm : method.length < 2 ^ 32) (ha : (Object.array args).sized = true) :
    (serializeRequest requestId method.bytes args).packable = true := by
  have hmethod : (MsgpackObject.str method.bytes).packable = true := str_packable hm
  have hargs : (MsgpackObject.array (itemsToMsgpack args)).packable = true :=
    toMsgpack_packable (.array args) ha
  unfold serializeRequest
  split
  · simp [MsgpackObject.packable, packableItems] at hmethod hargs ⊢
    exact ⟨hmethod, hargs⟩
  · simp [MsgpackObject.packable, packableItems] at hmethod hargs ⊢
    exact ⟨hmethod, hargs⟩

theorem serializeResponse_packable (responseId : UInt64) {err : Option ApiError} {arg : Object}
    (he : ∀ e, err = some e → e.msg.length < 2 ^ 32) (ha : arg.sized = true) :
    (serializeResponse responseId err arg).packable = true := by
  cases err with
  | none =>
      have harg := toMsgpack_packable arg ha
      simp [serializeResponse, MsgpackObject.packable, packableItems, harg]
  | some e =>
      have hmsg := he e rfl
      simp [serializeResponse, MsgpackObject.packable, packableItems] at hmsg ⊢
      exact hmsg

/-- `msgpack_rpc_validate` reports no error. -/
def Validates (obj : MsgpackObject) : Prop := ∃ v, msgpackRpcValidate obj = .ok v ∧ v.error = none

theorem refuse_not_accepted {obj : MsgpackObject} {id : UInt64} {msg : String}
    (h : msgpackRpcValidate obj = refuse id msg) : ¬ Validates obj := by
  rintro ⟨v, hv, hnone⟩
  rw [h] at hv
  cases hv
  exact Option.some_ne_none _ hnone

/-- The grammar: `[0, id, method, args]` or `[2, method, args]`, the method `STR` or `BIN`. -/
def Grammatical (obj : MsgpackObject) : Prop :=
  (∃ id method args, method.isString = true ∧
    obj = .array [.positiveInteger 0, .positiveInteger id, method, .array args]) ∨
  ∃ method args, method.isString = true ∧ obj = .array [.positiveInteger 2, method, .array args]

theorem isArray_iff {obj : MsgpackObject} : obj.isArray = true ↔ ∃ xs, obj = .array xs := by
  cases obj <;> simp [MsgpackObject.isArray]

/-- The last two checks, once the method and the arguments are where they belong. -/
theorem validateBody_accepts {req method args : MsgpackObject} (id : UInt64)
    (hm : msgpackRpcMethod req = .ok (if method.isString then some method else none))
    (ha : msgpackRpcArgs req = .ok (if args.isArray then some args else none)) :
    (∃ v, validateBody req id = .ok v ∧ v.error = none) ↔ method.isString = true ∧ ∃ xs, args = .array xs := by
  rw [← isArray_iff]
  unfold validateBody
  rw [hm, ha]
  cases method.isString with
  | false =>
      refine iff_of_false ?_ (fun h => Bool.false_ne_true h.1)
      rintro ⟨v, hv, hnone⟩
      cases hv
      exact Option.some_ne_none _ hnone
  | true =>
      cases args.isArray with
      | false =>
          refine iff_of_false ?_ (fun h => Bool.false_ne_true h.2)
          rintro ⟨v, hv, hnone⟩
          cases hv
          exact Option.some_ne_none _ hnone
      | true => exact iff_of_true ⟨_, rfl, rfl⟩ ⟨rfl, rfl⟩

theorem request_accepted_iff (x y z : MsgpackObject) :
    Validates (.array [.positiveInteger 0, x, y, z]) ↔
      (∃ id, x = .positiveInteger id) ∧ y.isString = true ∧ ∃ args, z = .array args := by
  by_cases hid : ∃ id, x = .positiveInteger id
  · obtain ⟨id, rfl⟩ := hid
    rw [and_iff_right ⟨id, rfl⟩]
    show (∃ v, validateBody (.array [.positiveInteger 0, .positiveInteger id, y, z]) id = .ok v ∧
        v.error = none) ↔ _
    exact validateBody_accepts id rfl rfl
  · have hrefused : msgpackRpcValidate (.array [.positiveInteger 0, x, y, z]) =
        refuse noResponse "ID must be a positive integer" := by
      cases x
      case positiveInteger id => exact absurd ⟨id, rfl⟩ hid
      all_goals rfl
    exact iff_of_false (refuse_not_accepted hrefused) (fun h => hid h.1)

theorem notification_accepted_iff (y z : MsgpackObject) :
    Validates (.array [.positiveInteger 2, y, z]) ↔ y.isString = true ∧ ∃ args, z = .array args := by
  show (∃ v, validateBody (.array [.positiveInteger 2, y, z]) noResponse = .ok v ∧ v.error = none) ↔ _
  exact validateBody_accepts noResponse rfl rfl

theorem shape_of_size {type : UInt64} {xs : List MsgpackObject}
    (htype : ¬ (type ≠ messageTypeRequest ∧ type ≠ messageTypeNotification))
    (hsize : ¬ ((type = messageTypeRequest ∧ xs.length + 1 ≠ 4) ∨
      (type = messageTypeNotification ∧ xs.length + 1 ≠ 3))) :
    (∃ x y z, MsgpackObject.array (.positiveInteger type :: xs) = .array [.positiveInteger 0, x, y, z]) ∨
      ∃ y z, MsgpackObject.array (.positiveInteger type :: xs) = .array [.positiveInteger 2, y, z] := by
  by_cases hrequest : type = messageTypeRequest
  · subst hrequest
    have hlen : xs.length = 3 := by
      by_contra hne
      exact hsize (Or.inl ⟨rfl, by omega⟩)
    obtain ⟨x, y, z, rfl⟩ := List.length_eq_three.mp hlen
    exact Or.inl ⟨x, y, z, rfl⟩
  · have hnotification : type = messageTypeNotification := by
      by_contra hne
      exact htype ⟨hrequest, hne⟩
    subst hnotification
    have hlen : xs.length = 2 := by
      by_contra hne
      exact hsize (Or.inr ⟨rfl, by omega⟩)
    obtain ⟨y, z, rfl⟩ := List.length_eq_two.mp hlen
    exact Or.inr ⟨y, z, rfl⟩

/-- An accepted message has one of the two types and its size. -/
theorem accepted_shape {obj : MsgpackObject} (h : Validates obj) :
    (∃ x y z, obj = .array [.positiveInteger 0, x, y, z]) ∨ ∃ y z, obj = .array [.positiveInteger 2, y, z] := by
  cases obj with
  | array xs =>
      cases xs with
      | nil => exact absurd h (refuse_not_accepted rfl)
      | cons t xs =>
          cases t with
          | positiveInteger type =>
              by_cases htype : type ≠ messageTypeRequest ∧ type ≠ messageTypeNotification
              · exact absurd h (refuse_not_accepted (if_pos htype))
              · by_cases hsize : (type = messageTypeRequest ∧ xs.length + 1 ≠ 4)
                    ∨ (type = messageTypeNotification ∧ xs.length + 1 ≠ 3)
                · exact absurd h (refuse_not_accepted ((if_neg htype).trans (if_pos hsize)))
                · exact shape_of_size htype hsize
          | _ => exact absurd h (refuse_not_accepted rfl)
  | _ => exact absurd h (refuse_not_accepted rfl)

/-- **The grammar of what is accepted.** -/
theorem accepted_iff (obj : MsgpackObject) : Validates obj ↔ Grammatical obj := by
  constructor
  · intro h
    obtain ⟨x, y, z, rfl⟩ | ⟨y, z, rfl⟩ := accepted_shape h
    · obtain ⟨⟨id, rfl⟩, hy, args, rfl⟩ := (request_accepted_iff x y z).mp h
      exact Or.inl ⟨id, y, args, hy, rfl⟩
    · obtain ⟨hy, args, rfl⟩ := (notification_accepted_iff y z).mp h
      exact Or.inr ⟨y, args, hy, rfl⟩
  · rintro (⟨id, method, args, hm, rfl⟩ | ⟨method, args, hm, rfl⟩)
    · exact (request_accepted_iff _ _ _).mpr ⟨⟨id, rfl⟩, hm, args, rfl⟩
    · exact (notification_accepted_iff _ _).mpr ⟨hm, args, rfl⟩

/-- The validator takes what the serialiser wrote, and finds the method and the arguments in it. -/
theorem serializeRequest_valid (requestId : UInt64) (method : Bytes) (args : List Object) :
    msgpackRpcValidate (serializeRequest requestId method args) =
        .ok ⟨if requestId = 0 then noResponse else requestId, none⟩ ∧
      msgpackRpcIsNotification (serializeRequest requestId method args) = .ok (requestId == 0) ∧
      msgpackRpcMethod (serializeRequest requestId method args) = .ok (some (.str method)) ∧
      msgpackRpcArgs (serializeRequest requestId method args) = .ok (some (.array (itemsToMsgpack args))) := by
  unfold serializeRequest
  by_cases hid : requestId = 0
  · rw [if_pos hid, if_pos hid, beq_iff_eq.mpr hid]
    exact ⟨rfl, rfl, rfl, rfl⟩
  · rw [if_neg hid, if_neg hid, beq_eq_false_iff_ne.mpr hid]
    exact ⟨rfl, rfl, rfl, rfl⟩

theorem serializeResponse_slots (responseId : UInt64) (err : Option ApiError) (arg : Object) :
    ∃ error result, rpcResponse (serializeResponse responseId err arg) = some (responseId, error, result) ∧
      (error = .nil ↔ err = none) := by
  cases err with
  | none => exact ⟨.nil, arg.toMsgpack, rfl, by simp⟩
  | some e => exact ⟨.array [.positiveInteger e.type.code, .str e.msg], .nil, rfl, by simp⟩

variable (widen) in
/-- **Serialiser and validator agree.** -/
theorem messages_agree :
    (∀ (requestId : UInt64) (method : Str) (args : List Object), method.exact = true → method.length < 2 ^ 32 →
      itemsExact args = true → (Object.array args).sized = true →
      ∃ req, decode widen (packed (msgpackRpcSerializeRequest requestId method args)) = some (req, []) ∧
        msgpackRpcValidate req = .ok ⟨if requestId = 0 then noResponse else requestId, none⟩ ∧
        msgpackRpcIsNotification req = .ok (requestId == 0) ∧
        msgpackRpcMethod req = .ok (some (.str method.bytes)) ∧
        msgpackRpcArgs req = .ok (some (.array (itemsToMsgpack args)))) ∧
    (∀ (responseId : UInt64) (err : Option ApiError) (arg : Object),
      (∀ e, err = some e → e.msg.length < 2 ^ 32) →
      arg.exact = true → arg.sized = true →
      ∃ rsp error result, decode widen (packed (msgpackRpcSerializeResponse responseId err arg)) =
      some (rsp, []) ∧
        isRpcResponse rsp = true ∧ rpcResponse rsp = some (responseId, error, result) ∧
        (error = .nil ↔ err = none)) ∧
    ∀ obj : MsgpackObject, (∃ v, msgpackRpcValidate obj = .ok v ∧ v.error = none) ↔
      (∃ id method args, method.isString = true ∧
        obj = .array [.positiveInteger 0, .positiveInteger id, method, .array args]) ∨
      ∃ method args, method.isString = true ∧ obj = .array [.positiveInteger 2, method, .array args] := by
  refine ⟨?_, ?_, accepted_iff⟩
  · intro requestId method args hm hlen ha hsized
    rw [request_calls requestId hm ha]
    exact ⟨_, decode_packed (serializeRequest_packable requestId hlen hsized),
      serializeRequest_valid requestId method.bytes args⟩
  · intro responseId err arg he ha hsized
    obtain ⟨error, result, hslots, hnil⟩ := serializeResponse_slots responseId err arg
    rw [response_calls responseId err ha]
    refine ⟨_, error, result, decode_packed (serializeResponse_packable responseId he hsized), ?_, hslots, hnil⟩
    rw [isRpcResponse, hslots]
    rfl

/-- A call of `run` with the arguments `-1` and `[true]`, and the response to it. -/
theorem messages_agree_sample :
    packed (msgpackRpcSerializeRequest 7 (cstringToString [114, 117, 110])
      [.integer (-1), .array [.boolean true]]) =
      [148, 0, 7, 163, 114, 117, 110, 146, 255, 145, 195] ∧
    (∃ req, decode id [148, 0, 7, 163, 114, 117, 110, 146, 255, 145, 195] = some (req, []) ∧
      msgpackRpcValidate req = .ok ⟨7, none⟩ ∧ msgpackRpcMethod req = .ok (some (.str [114, 117, 110]))) ∧
    (∃ rsp error result, decode id (packed (msgpackRpcSerializeResponse 7 none (.uinteger 1))) =
      some (rsp, []) ∧
      rpcResponse rsp = some (7, error, result) ∧ error = .nil) ∧
    ∃ v, msgpackRpcValidate (.array [.positiveInteger 2, .bin [], .array []]) = .ok v ∧ v.error = none := by
  have hbytes : packed (msgpackRpcSerializeRequest 7 (cstringToString [114, 117, 110])
      [.integer (-1), .array [.boolean true]]) = [148, 0, 7, 163, 114, 117, 110, 146, 255, 145, 195] := by
    decide +kernel
  obtain ⟨req, hdecode, hvalid, -, hmethod, -⟩ := (messages_agree id).1 7 (cstringToString [114, 117, 110])
    [.integer (-1), .array [.boolean true]] (by decide) (by decide) (by decide) (by decide)
  rw [hbytes] at hdecode
  obtain ⟨rsp, error, result, hrsp, -, hslots, hnil⟩ :=
    (messages_agree id).2.1 7 none (.uinteger 1) nofun rfl rfl
  refine ⟨hbytes, ⟨req, hdecode, hvalid, hmethod⟩, ⟨rsp, error, result, hrsp, hslots, hnil.mpr rfl⟩, ?_⟩
  exact ((messages_agree id).2.2 _).mpr (Or.inr ⟨.bin [], [], rfl, rfl⟩)

end SploneBox
