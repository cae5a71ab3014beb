/-
# SploneBox.Lookup — which names the dispatch table takes for which.

`string_eq` compares up to the length of the shorter string, so a table key that holds no NUL is equal,
for `khash.h`, to each of its prefixes and to each of its extensions (`stringEq_iff`). Whether a name
that nobody registered meets such a key depends on the bucket it hashes to: `kh_get` walks from that
bucket to the first empty one, and takes the first key that `string_eq` accepts (`khGet_eq`). The walks
of the eight buckets are in `walkedNames`, and with them the lookups that are exact are known
(`handlerFor_exact_iff`).

The table here has eight buckets from the start. `SploneBox.Hashmap` has the functions of `khash.h` as they
are: `kh_put` builds this table, from no buckets over four to eight with the kick-out loop of `kh_resize`
(`dispatchTable_grown`), and where `string_eq` is equality `kh_get` finds in it what it finds here (`khGet_eq`).
-/
import Mathlib.Data.List.TakeWhile
import SploneBox.Dispatch

namespace SploneBox

/-! ## §1 The comparison -/

theorem cstr_of_ne_zero {b : Bytes} (h : ∀ c ∈ b, c ≠ 0) : b.takeWhile (· ≠ 0) = b :=
  List.takeWhile_eq_self_iff.mpr fun c hc => decide_eq_true (h c hc)

/-- Two strings that agree up to the length of the shorter one: one is a prefix of the other. -/
theorem take_min_eq_iff (a b : Bytes) :
    a.take (min a.length b.length) = b.take (min a.length b.length) ↔ a <+: b ∨ b <+: a := by
  rcases Nat.le_total a.length b.length with hle | hle
  · rw [min_eq_left hle, List.take_length]
    constructor
    · intro h
      exact Or.inl (h ▸ List.take_prefix _ _)
    · rintro (h | h)
      · exact (List.prefix_iff_eq_take.mp h)
      · have hab : b = a := h.eq_of_length_le hle
        rw [hab, List.take_length]
  · rw [min_eq_right hle, List.take_length]
    constructor
    · intro h
      exact Or.inr (h ▸ List.take_prefix _ _)
    · rintro (h | h)
      · have hab : a = b := h.eq_of_length_le hle
        rw [hab, List.take_length]
      · exact (List.prefix_iff_eq_take.mp h).symm

/-- **`string_eq` against a key without NUL** accepts the prefixes and the extensions of the key. A NUL
inside the shorter length ends the comparison on one side only. -/
theorem stringEq_iff {key : Bytes} (hkey : ∀ c ∈ key, c ≠ 0) (name : Bytes) :
    stringEq key name = true ↔ key <+: name ∨ name <+: key := by
  set n := min key.length name.length with hn
  have hlen : (key.take n).length = (name.take n).length := by
    simp only [List.length_take, hn]
    omega
  have hwhole : (key.take n).takeWhile (· ≠ 0) = key.take n :=
    cstr_of_ne_zero fun c hc => hkey c (List.mem_of_mem_take hc)
  rw [← take_min_eq_iff, ← hn]
  show ((key.take n).takeWhile (· ≠ 0) == (name.take n).takeWhile (· ≠ 0)) = true ↔ _
  rw [hwhole, beq_iff_eq]
  constructor
  · intro h
    -- the C string of the name is as long as the whole part that is compared
    have hpre : (name.take n).takeWhile (· ≠ 0) <+: name.take n := List.takeWhile_prefix _
    rw [← h] at hpre
    exact hpre.eq_of_length hlen
  · intro h
    rw [← h, hwhole]

/-! ## §2 The walk -/

/-- The entries `kh_get` meets on its way to an empty bucket, `none` if it meets none in time. -/
def khWalk {α : Type} (t : Buckets α) : Nat → Nat → Nat → Option (List (Bytes × α))
  | 0, _, _ => none
  | fuel + 1, i, k =>
      match t[i]? with
      | some (some e) => (khWalk t fuel ((i + (k + 1)) % t.length) (k + 1)).map (e :: ·)
      | _ => some []

/-- **A lookup returns the first entry of the walk that `string_eq` accepts.** -/
theorem khProbe_walk {α : Type} {t : Buckets α} (key : Bytes) :
    ∀ {fuel i k : Nat} {es : List (Bytes × α)}, khWalk t fuel i k = some es →
      t[khProbe t key fuel i k]?.join = es.find? fun e => stringEq e.1 key := by
  intro fuel
  induction fuel with
  | zero =>
      intro i k es h
      cases h
  | succ fuel ih =>
      intro i k es h
      unfold khWalk at h
      unfold khProbe
      split at h
      next e he =>
        obtain ⟨rest, hrest, rfl⟩ := Option.map_eq_some_iff.mp h
        rw [he]
        by_cases heq : stringEq e.1 key = true
        · simp [heq, he]
        · simp only [heq, Bool.false_eq_true, if_false, List.find?_cons]
          exact ih hrest
      next hnone =>
        cases h
        rcases ht : t[i]? with _ | _ | e
        · simp [ht]
        · simp [ht]
        · exact absurd ht (hnone e)

/-- The registered names on the walk from each of the eight buckets. -/
def walkedNames : Nat → List Bytes
  | 1 => [text "subscribe", text "broadcast", text "register", text "unsubscribe"]
  | 2 => [text "broadcast"]
  | 4 => [text "register", text "run", text "unsubscribe", text "broadcast", text "result"]
  | 5 => [text "run", text "result"]
  | 6 => [text "result", text "unsubscribe", text "subscribe", text "register"]
  | 7 => [text "unsubscribe"]
  | _ => []

/-- The names a lookup of `name` compares with, when none of them is accepted. -/
def comparedNames (name : Bytes) : List Bytes := walkedNames ((stringHash name).toNat % 8)

/-! ## §3 Exact lookups -/

/-- What a lookup by the name itself returns. -/
def registeredHandler (name : Bytes) : DispatchInfo :=
  (dispatchEntries.lookup name).getD ⟨.missingMethod, false⟩

/-- The walks of the table, one for each bucket. -/
theorem walk_dispatchTable :
    ∀ b < 8, ∃ es ∈ khWalk dispatchTable 16 b 0, es.map Prod.fst = walkedNames b ∧
      (∀ e ∈ es, e.2.func ≠ .missingMethod) ∧ ∀ e ∈ es, ∀ c ∈ e.1, c ≠ 0 := by
  have hwalks : ∀ b < 8, (khWalk dispatchTable 16 b 0).any (fun es => es.map Prod.fst == walkedNames b &&
      (es.all fun e => e.2.func != .missingMethod) && es.all fun e => e.1.all (· != 0)) = true := by
    decide +kernel
  intro b hb
  have hany := hwalks b hb
  rw [Option.any_eq_true] at hany
  simpa [and_assoc] using hany

/-- A registered name finds its own entry: no key before it on its walk is a prefix or an extension. -/
theorem handlerFor_registered :
    ∀ name ∈ dispatchEntries.map Prod.fst, msgpackRpcGetHandlerFor name = registeredHandler name := by
  decide +kernel

theorem registeredHandler_of_notMem {name : Bytes} (h : name ∉ dispatchEntries.map Prod.fst) :
    registeredHandler name = ⟨.missingMethod, false⟩ := by
  have hnone : dispatchEntries.lookup name = none := by
    refine List.lookup_eq_none_iff.mpr fun e he => ?_
    have hne : name ≠ e.1 := by
      rintro rfl
      exact h (List.mem_map_of_mem he)
    simpa using hne
  rw [registeredHandler, hnone]
  rfl

/-- **Which lookups are exact.** `msgpack_rpc_get_handler_for` returns what is registered under the
name, or the missing-method handler, exactly for the registered names and for the names that are neither
a prefix nor an extension of a name on the walk from their bucket. -/
theorem handlerFor_exact_iff (name : Bytes) :
    msgpackRpcGetHandlerFor name = registeredHandler name ↔
      name ∈ dispatchEntries.map Prod.fst ∨
        ∀ m ∈ comparedNames name, ¬ m <+: name ∧ ¬ name <+: m := by
  by_cases hreg : name ∈ dispatchEntries.map Prod.fst
  · exact iff_of_true (handlerFor_registered name hreg) (Or.inl hreg)
  · rw [registeredHandler_of_notMem hreg]
    obtain ⟨es, hwalk, hnames, hfunc, hnul⟩ :=
      walk_dispatchTable ((stringHash name).toNat % 8) (Nat.mod_lt _ (by decide))
    have hget : khGet dispatchTable name = (es.find? fun e => stringEq e.1 name).map Prod.snd := by
      have hlen : dispatchTable.length = 8 := by decide +kernel
      have hprobe := khProbe_walk name hwalk
      rw [khGet, khBucket, hlen]
      exact congrArg (Option.map Prod.snd) hprobe
    have hcompared : comparedNames name = es.map Prod.fst := hnames.symm
    rw [msgpackRpcGetHandlerFor, hget, hcompared]
    constructor
    · intro h
      refine Or.inr ?_
      intro m hm
      obtain ⟨e, he, rfl⟩ := List.mem_map.mp hm
      rw [← not_or, ← stringEq_iff (hnul e he)]
      intro heq
      -- some entry is found, and its handler is not the missing-method one
      cases hfind : es.find? fun e => stringEq e.1 name with
      | none => exact List.find?_eq_none.mp hfind e he heq
      | some found =>
          rw [hfind] at h
          have hmiss : found.2 = ⟨.missingMethod, false⟩ := h
          exact hfunc found (List.mem_of_find?_eq_some hfind) (by rw [hmiss])
    · rintro (h | h)
      · exact absurd h hreg
      · have hnone : (es.find? fun e => stringEq e.1 name) = none := by
          rw [List.find?_eq_none]
          intro e he heq
          obtain ⟨hne, hne'⟩ := h e.1 (List.mem_map_of_mem he)
          rcases (stringEq_iff (hnul e he) name).mp heq with hpre | hpre
          · exact hne hpre
          · exact hne' hpre
        rw [hnone]
        rfl

/-- The empty name is a prefix of everything, and its bucket holds `unsubscribe`. -/
theorem empty_name_unsubscribes :
    msgpackRpcGetHandlerFor [] = ⟨.unsubscribe, false⟩ ∧
      registeredHandler [] = ⟨.missingMethod, false⟩ ∧
      stringEq (text "unsubscribe") [] = true := by
  decide +kernel

end SploneBox
