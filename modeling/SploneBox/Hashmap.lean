/-
# SploneBox.Hashmap — the maps of `hashmap.c`.

`hashmap_get`, `hashmap_put` and the others are written over `khash.h`, and everything the core remembers is
in such maps. `run_refines` is what the rest of this development takes them for: over any run, for any hash
function, they are partial functions, as long as there is memory and a map has fewer than 2^30 entries.
Without memory `hashmap_put` writes behind its array (`put_without_memory`).
-/
import SploneBox.Khash
import SploneBox.Callids

namespace SploneBox.Hashmap

set_option linter.unusedSectionVars false

open Lib.OpenAddressing Khash

variable {K V : Type} [DecidableEq K] (hash : K → UInt32) (initializer : V)

/-! ## §1 The functions -/

/-- `kh_int64_hash_func`. -/
def uint64Hash (key : UInt64) : UInt32 := ((key >>> 33) ^^^ key ^^^ (key <<< 11)).toUInt32

/-- `kh_val`. -/
def val (map : Table K V) (k : Nat) : V := (map.vals.getD k none).getD initializer

/-- `hashmap_get`. -/
def get (map : Table K V) (key : K) : V :=
  let k := Khash.get hash map key
  if k = map.nBuckets then initializer else val initializer map k

/-- `hashmap_has`. -/
def has (map : Table K V) (key : K) : Bool := Khash.get hash map key ≠ map.nBuckets

/-- `hashmap_put`; `none` where it writes behind the array of values. -/
def put (a : Alloc) (map : Table K V) (key : K) (value : V) : Option (Table K V × V) :=
  let r := Khash.put hash a map key
  let map := r.1
  let k := r.2.1
  let rv := if r.2.2 = 0 then val initializer map k else initializer
  if k < map.vals.length then some ({ map with vals := map.vals.set k (some value) }, rv) else none

/-- `hashmap_del`. -/
def del (map : Table K V) (key : K) : Table K V × V :=
  let k := Khash.get hash map key
  if k ≠ map.nBuckets then (Khash.del map k, val initializer map k) else (map, initializer)

/-- `hashmap_clear`. -/
def clear (map : Table K V) : Table K V := Khash.clear map

/-- The values that `hashmap_foreach_value` goes through. -/
def foreachValue (map : Table K V) : List V :=
  (List.range map.nBuckets).filterMap fun i => if !iseither map.flags i then map.vals.getD i none else none

/-! ## §2 What they do -/

variable {hash initializer} {h : Table K V} {f : K → Option V}

theorem get_spec (hw : WF hash h) (hf : Shows (entries h.nBuckets (slots h)) f) (key : K) :
    get hash initializer h key = (f key).getD initializer := by
  unfold get
  dsimp only
  rcases hw.get_cases key with ⟨v, hlt, hv, hmem⟩ | ⟨hend, hnone⟩
  · have hval : h.vals.getD (Khash.get hash h key) none = some v := by
      rcases hw.slots_cases (Khash.get hash h key) with ⟨-, hs⟩ | ⟨-, -, hs⟩ | ⟨-, -, k, v', -, hv', hs⟩
      · rw [hs] at hv
        cases hv
      · rw [hs] at hv
        cases hv
      · rw [hs] at hv
        cases hv
        exact hv'
    rw [if_neg hlt.ne, val, hval, (hf key v).mpr hmem]
  · rw [if_pos hend, (hf.none_iff key).mpr hnone]
    rfl

theorem has_spec (hw : WF hash h) (hf : Shows (entries h.nBuckets (slots h)) f) (key : K) :
    has hash h key = (f key).isSome := by
  unfold has
  rcases hw.get_cases key with ⟨v, hlt, hv, hmem⟩ | ⟨hend, hnone⟩
  · rw [decide_eq_true hlt.ne, (hf key v).mpr hmem]
    rfl
  · rw [decide_eq_false (not_not.mpr hend), (hf.none_iff key).mpr hnone]
    rfl

theorem foreachValue_eq (hw : WF hash h) : foreachValue h = (entries h.nBuckets (slots h)).map Prod.snd := by
  rw [foreachValue, entries, List.map_filterMap]
  apply List.filterMap_congr
  intro i _
  rcases hw.slots_cases i with ⟨he, hs⟩ | ⟨he, hd, hs⟩ | ⟨he, hd, k, v, -, hv, hs⟩
  · rw [hs, iseither, he]
    rfl
  · rw [hs, iseither, he, hd]
    rfl
  · rw [hs, iseither, he, hd, hv]
    rfl

/-- The bucket of an entry. -/
theorem entry_bucket (hw : WF hash h) {i : Nat} {k : K} {v : V} (hs : slots h i = .entry k v) :
    iseither h.flags i = false ∧ h.keys.getD i none = some k ∧ h.vals.getD i none = some v := by
  rcases hw.slots_cases i with ⟨-, hs'⟩ | ⟨-, -, hs'⟩ | ⟨he, hd, k', v', hk, hv, hs'⟩
  · rw [hs] at hs'
    cases hs'
  · rw [hs] at hs'
    cases hs'
  · rw [hs] at hs'
    cases hs'
    exact ⟨by rw [iseither, he, hd]; rfl, hk, hv⟩

/-- `hashmap_del` takes the key out. -/
theorem del_spec (initializer : V) (hw : WF hash h) (hf : Shows (entries h.nBuckets (slots h)) f) (key : K) :
    WF hash (del hash initializer h key).1 ∧ (del hash initializer h key).1.nBuckets = h.nBuckets ∧
      Shows (entries h.nBuckets (slots (del hash initializer h key).1)) (Function.update f key none) ∧
        (del hash initializer h key).2 = (f key).getD initializer := by
  unfold del
  dsimp only
  rcases hw.get_cases key with ⟨v, hlt, hv, hmem⟩ | ⟨hend, hnone⟩
  · generalize Khash.get hash h key = x at hlt hv
    obtain ⟨hlive, hk, hval⟩ := entry_bucket hw hv
    have hflags : x < h.flags.length := by rw [hw.flags_length]; exact hlt
    have hdel : Khash.del h x = { h with flags := setIsdelTrue h.flags x, size := h.size - 1 } := by
      rw [Khash.del, hlive, decide_eq_true hlt.ne]
      rfl
    have hslots : slots (Khash.del h x) = Function.update (slots h) x .deleted := by
      rw [hdel]
      funext j
      unfold slots
      dsimp only
      rw [isempty_setIsdelTrue, isdel_setIsdelTrue]
      by_cases hxj : x = j
      · subst hxj
        rw [iseither, Bool.or_eq_false_iff] at hlive
        rw [Function.update_self, hlive.1, decide_eq_true ⟨rfl, hflags⟩, Bool.true_or]
        rfl
      · rw [Function.update_of_ne (Ne.symm hxj), decide_eq_false (fun hc => hxj hc.1), Bool.false_or]
    obtain ⟨hvalid, hperm⟩ := hw.valid.delete hlt hv
    have hoccupied := occupied_update hlt (slots h) .deleted
    rw [hv] at hoccupied
    have hlength := hperm.length_eq
    rw [List.length_cons, ← hw.size] at hlength
    rw [if_pos hlt.ne]
    refine ⟨⟨?_, ?_, ?_, ?_, ?_, ?_, ?_, ?_, ?_, ?_⟩, ?_, ?_, ?_⟩
    · rw [hdel]
      exact hw.shape
    · rw [hdel]
      exact (setIsdelTrue_length _ _).trans hw.flags_length
    · rw [hdel]
      exact hw.keys_length
    · rw [hdel]
      exact hw.vals_length
    · rw [hdel]
      exact hw.upper
    · rw [hdel]
      intro j hj
      rw [iseither_setIsdelTrue _ hflags, Bool.or_eq_false_iff] at hj
      exact hw.live j hj.2
    · rw [hslots, hdel]
      exact hvalid
    · rw [hslots, hdel]
      show h.size - 1 = (entries h.nBuckets (Function.update (slots h) x .deleted)).length
      omega
    · rw [hslots, hdel]
      exact hw.occupied.trans (Nat.add_right_cancel hoccupied).symm
    · rw [hdel]
      exact hw.bounded
    · rw [hdel]
    · rw [hslots]
      exact (hf.perm hperm).tail ((hperm.map Prod.fst).nodup_iff.mp hw.valid.nodup)
    · rw [val, hval, (hf key v).mpr hmem]
  · rw [if_neg (not_not.mpr hend), (hf.none_iff key).mpr hnone]
    refine ⟨hw, rfl, ?_, rfl⟩
    have hsame : Function.update f key none = f := by
      rw [← (hf.none_iff key).mpr hnone, Function.update_eq_self]
    rw [hsame]
    exact hf

/-- `hashmap_clear` takes every key out, and keeps the buckets. -/
theorem clear_spec (hw : WF hash h) : WF hash (clear h) ∧ (clear h).nBuckets = h.nBuckets ∧ (clear h).size = 0 ∧
    Shows (entries h.nBuckets (slots (clear h))) fun _ => none := by
  have hempty : ∀ j, isempty (clear h).flags j = true := by
    intro j
    unfold clear Khash.clear
    split
    · next hnil => exact isempty_of_length_le (by rw [hnil]; exact Nat.zero_le _)
    · rw [isempty, List.getD_eq_getElem?_getD, List.getElem?_map]
      cases h.flags[j]? <;> rfl
  have hslots : ∀ j, slots (clear h) j = .empty := fun j => slots_empty (hempty j)
  have hfields : (clear h).nBuckets = h.nBuckets ∧ (clear h).flags.length = h.flags.length ∧
      (clear h).keys = h.keys ∧
      (clear h).vals = h.vals ∧ (clear h).upperBound = h.upperBound := by
    unfold clear Khash.clear
    split
    · exact ⟨rfl, rfl, rfl, rfl, rfl⟩
    · exact ⟨rfl, List.length_map _, rfl, rfl, rfl⟩
  have hcount : (clear h).size = 0 ∧ (clear h).nOccupied = 0 := by
    unfold clear Khash.clear
    split
    · next hnil =>
      have hzero : h.nBuckets = 0 := by rw [← hw.flags_length, hnil]; rfl
      have hsize := hw.size
      have hoccupied := hw.occupied
      rw [hzero] at hsize hoccupied
      exact ⟨hsize, hoccupied⟩
    · exact ⟨rfl, rfl⟩
  obtain ⟨hn, hflags, hkeys, hvals, hupper⟩ := hfields
  have hnil : ∀ n, entries n (slots (clear h)) = [] := fun n =>
    List.filterMap_eq_nil_iff.mpr fun b _ => by rw [hslots b]; rfl
  refine ⟨⟨?_, ?_, ?_, ?_, ?_, ?_, ?_, ?_, ?_, ?_⟩, hn, hcount.1, ?_⟩
  · rw [hn]
    exact hw.shape
  · rw [hflags, hn]
    exact hw.flags_length
  · rw [hkeys, hn]
    exact hw.keys_length
  · rw [hvals, hn]
    exact hw.vals_length
  · rw [hupper, hn]
    exact hw.upper
  · intro j hj
    rw [iseither, hempty j] at hj
    cases hj
  · exact Valid.of_empty fun b _ => by rw [hslots b]; rfl
  · rw [hnil, hcount.1]
    rfl
  · have hnone : ∀ b < (clear h).nBuckets, slots (clear h) b ≠ .deleted := by
      intro b _ hb
      rw [hslots b] at hb
      cases hb
    rw [hcount.2, occupied_eq_length hnone, hnil]
    rfl
  · rw [hcount.2]
    exact Nat.zero_le _
  · rw [hnil]
    exact Shows.nil

/-- A table after bucket `x` was written. -/
structure Written (h h' : Table K V) (x : Nat) (key : K) (value : V) : Prop where
  nBuckets : h'.nBuckets = h.nBuckets
  upperBound : h'.upperBound = h.upperBound
  flags_length : h'.flags.length = h.flags.length
  keys_length : h'.keys.length = h.keys.length
  vals_length : h'.vals.length = h.vals.length
  isempty : ∀ j, isempty h'.flags j = (!decide (x = j) && isempty h.flags j)
  isdel : ∀ j, isdel h'.flags j = (!decide (x = j) && isdel h.flags j)
  keys : ∀ j, h'.keys.getD j none = if x = j then some key else h.keys.getD j none
  vals : ∀ j, h'.vals.getD j none = if x = j then some value else h.vals.getD j none

/-- It has the entry there, and is otherwise as it was. -/
theorem Written.slots_eq {h h' : Table K V} {x : Nat} {key : K} {value : V} (hx : Written h h' x key value) :
    slots h' = Function.update (slots h) x (.entry key value) := by
  funext j
  unfold slots slotOf
  rw [hx.isempty, hx.isdel, hx.keys, hx.vals]
  by_cases hxj : x = j
  · subst hxj
    rw [Function.update_self, decide_eq_true rfl, if_pos rfl, if_pos rfl]
    rfl
  · rw [Function.update_of_ne (Ne.symm hxj), decide_eq_false hxj, if_neg hxj, if_neg hxj, Bool.not_false,
      Bool.true_and, Bool.true_and]

theorem Written.wf {h h' : Table K V} {x : Nat} {key : K} {value : V} (hx : Written h h' x key value)
    (hw : WF hash h) (hvalid : Valid (code hash) h.nBuckets (slots h'))
    (hsize : h'.size = (entries h.nBuckets (slots h')).length)
    (hoccupied : h'.nOccupied = occupied h.nBuckets (slots h')) (hbounded : h'.nOccupied ≤ h.upperBound) :
    WF hash h' := by
  refine ⟨?_, ?_, ?_, ?_, ?_, ?_, ?_, ?_, ?_, ?_⟩
  · rw [hx.nBuckets]
    exact hw.shape
  · rw [hx.nBuckets, hx.flags_length]
    exact hw.flags_length
  · rw [hx.nBuckets, hx.keys_length]
    exact hw.keys_length
  · rw [hx.nBuckets, hx.vals_length]
    exact hw.vals_length
  · rw [hx.nBuckets, hx.upperBound]
    exact hw.upper
  · intro j hj
    rw [hx.keys, hx.vals]
    by_cases hxj : x = j
    · rw [if_pos hxj, if_pos hxj]
      exact ⟨key, value, rfl, rfl⟩
    · rw [if_neg hxj, if_neg hxj]
      rw [iseither, hx.isempty, hx.isdel, decide_eq_false hxj, Bool.not_false, Bool.true_and,
        Bool.true_and] at hj
      exact hw.live j hj
  · rw [hx.nBuckets]
    exact hvalid
  · rw [hx.nBuckets]
    exact hsize
  · rw [hx.nBuckets]
    exact hoccupied
  · rw [hx.upperBound]
    exact hbounded

/-- Where the walk found a bucket without an entry: the key is new. -/
theorem Written.insert {h h' : Table K V} {x : Nat} {key : K} {value : V} (hx : Written h h' x key value)
    (hw : WF hash h) (hlt : x < h.nBuckets) (hfree : (slots h x).pair? = none)
    (hreach : Reaches (code hash) h.nBuckets (slots h) key x)
    (hnew : ∀ v, (key, v) ∉ entries h.nBuckets (slots h)) (hroom : h.nOccupied < h.upperBound)
    (hsize : h'.size = h.size + 1)
    (hoccupied : h'.nOccupied = h.nOccupied + if (slots h x).isEmpty then 1 else 0) :
    WF hash h' ∧ (entries h.nBuckets (slots h')).Perm ((key, value) :: entries h.nBuckets (slots h)) := by
  obtain ⟨hvalid, hperm⟩ := hw.valid.insert hlt hfree hreach hnew value
  have hcount := occupied_update hlt (slots h) (.entry key value)
  rw [← hx.slots_eq] at hvalid hperm hcount
  rw [← hw.occupied] at hcount
  have hone : (if (Slot.entry key value : Slot K V).isEmpty then 0 else 1) = 1 := rfl
  rw [hone] at hcount
  refine ⟨hx.wf hw hvalid ?_ ?_ ?_, hperm⟩
  · rw [hperm.length_eq, List.length_cons, ← hw.size, hsize]
  · cases hempty : (slots h x).isEmpty with
    | true =>
        rw [hempty, if_pos rfl] at hoccupied hcount
        omega
    | false =>
        rw [hempty, if_neg Bool.false_ne_true] at hoccupied hcount
        omega
  · split at hoccupied <;> omega

/-- Where the walk found the entry of the key: it has a new value. -/
theorem Written.replace {h h' : Table K V} {x : Nat} {key : K} {value v : V} (hx : Written h h' x key value)
    (hw : WF hash h) (hlt : x < h.nBuckets) (hv : slots h x = .entry key v) (hsize : h'.size = h.size)
    (hoccupied : h'.nOccupied = h.nOccupied) :
    WF hash h' ∧ ∃ rest, (entries h.nBuckets (slots h)).Perm ((key, v) :: rest) ∧
      (entries h.nBuckets (slots h')).Perm ((key, value) :: rest) := by
  obtain ⟨hvalid, rest, hbefore, hafter⟩ := hw.valid.replace hlt hv value
  have hcount := occupied_update hlt (slots h) (.entry key value)
  rw [hv] at hcount
  rw [← hx.slots_eq] at hvalid hafter hcount
  refine ⟨hx.wf hw hvalid ?_ ?_ ?_, rest, hbefore, hafter⟩
  · rw [hafter.length_eq, hsize, hw.size, hbefore.length_eq]
    rfl
  · rw [hoccupied, hw.occupied]
    exact (Nat.add_right_cancel hcount).symm
  · rw [hoccupied]
    exact hw.bounded

theorem written_new {g : Table K V} (hw : WF hash g) {x : Nat} (hx : x < g.nBuckets) (key : K) (value : V)
    (size nOccupied : Nat) :
    Written g { g with
        keys := g.keys.set x (some key)
        flags := setIsbothFalse g.flags x
        vals := g.vals.set x (some value)
        size
        nOccupied } x key value := by
  have hflags : ∀ j, decide (x = j ∧ j < g.flags.length) = decide (x = j) := by
    intro j
    rw [hw.flags_length]
    exact decide_eq_decide.mpr ⟨fun hc => hc.1, fun hc => ⟨hc, hc ▸ hx⟩⟩
  refine ⟨rfl, rfl, setIsbothFalse_length _ _, List.length_set, List.length_set, fun j => ?_, fun j =>
    ?_, fun j => ?_, fun j => ?_⟩
  · rw [isempty_setIsbothFalse, hflags]
  · rw [isdel_setIsbothFalse, hflags]
  · have hlt := hx.trans_le hw.keys_length
    rw [getD_set]
    exact if_congr ⟨fun hc => hc.1, fun hc => ⟨hc, hc ▸ hlt⟩⟩ rfl rfl
  · rw [getD_set, hw.vals_length]
    exact if_congr ⟨fun hc => hc.1, fun hc => ⟨hc, hc ▸ hx⟩⟩ rfl rfl

theorem written_value {g : Table K V} (hw : WF hash g) {x : Nat} (hx : x < g.nBuckets) {key : K} {v : V}
    (hv : slots g x = .entry key v) (value : V) :
    Written g { g with vals := g.vals.set x (some value) } x key value := by
  obtain ⟨hlive, hk, -⟩ := entry_bucket hw hv
  rw [iseither, Bool.or_eq_false_iff] at hlive
  refine ⟨rfl, rfl, rfl, rfl, List.length_set, fun j => ?_, fun j => ?_, fun j => ?_, fun j => ?_⟩
  · by_cases hxj : x = j
    · rw [← hxj, hlive.1, Bool.and_false]
    · rw [decide_eq_false hxj, Bool.not_false, Bool.true_and]
  · by_cases hxj : x = j
    · rw [← hxj, hlive.2, Bool.and_false]
    · rw [decide_eq_false hxj, Bool.not_false, Bool.true_and]
  · by_cases hxj : x = j
    · rw [if_pos hxj, ← hxj, hk]
    · rw [if_neg hxj]
  · rw [getD_set, hw.vals_length]
    exact if_congr ⟨fun hc => hc.1, fun hc => ⟨hc, hc ▸ hx⟩⟩ rfl rfl

/-- What `hashmap_put` finds behind `putInto`: the bucket is one of the table, the value that it returns is
the old one, and with the new value in the bucket the table is that of the function with the key put. -/
structure PutInto (hash : K → UInt32) (initializer : V) (f : K → Option V) (g : Table K V) (key : K) (value : V)
    (r : Table K V × Nat × Int) :
    Prop where
  bucket : r.2.1 < g.nBuckets
  vals : r.1.vals = g.vals
  nBuckets : r.1.nBuckets = g.nBuckets
  returned : (if r.2.2 = 0 then val initializer r.1 r.2.1 else initializer) = (f key).getD initializer
  wf : WF hash { r.1 with vals := g.vals.set r.2.1 (some value) }
  shows_put : Shows (entries g.nBuckets (slots { r.1 with vals := g.vals.set r.2.1 (some value) }))
      (Function.update f key (some value))

theorem putInto_spec {g : Table K V} (hw : WF hash g) {m : Nat} (hm : 2 ≤ m) (hn : g.nBuckets = 2 ^ m)
    (hroom : g.nOccupied < g.upperBound) (hf : Shows (entries g.nBuckets (slots g)) f) (key : K) (value : V) :
    PutInto hash initializer f g key value (putInto hash g key) := by
  obtain ⟨hx, hcases⟩ := hw.putBucket_cases hm hn key
  unfold putInto
  dsimp only
  generalize putBucket hash g key = x at hx hcases
  rcases hcases with ⟨v, hv⟩ | ⟨hfree, hreach, hnew⟩
  · -- the key has an entry
    obtain ⟨hlive, -, hval⟩ := entry_bucket hw hv
    rw [iseither, Bool.or_eq_false_iff] at hlive
    have hmem : (key, v) ∈ entries g.nBuckets (slots g) := mem_entries.mpr ⟨x, hx, hv⟩
    obtain ⟨hwf, rest, hbefore, hafter⟩ := (written_value hw hx hv value).replace hw hx hv rfl rfl
    rw [if_neg (by rw [hlive.1]; exact Bool.false_ne_true), if_neg (by rw [hlive.2]; exact Bool.false_ne_true)]
    refine ⟨hx, rfl, rfl, ?_, hwf, ?_⟩
    · rw [if_pos rfl, val, hval, (hf key v).mpr hmem]
    · have hnodup := (hbefore.map Prod.fst).nodup_iff.mp hw.valid.nodup
      have htail := (hf.perm hbefore).tail hnodup
      rw [List.map_cons, List.nodup_cons] at hnodup
      have hcons := htail.cons (fun w hw' => hnodup.1 (List.mem_map.mpr ⟨_, hw', rfl⟩)) value
      rw [Function.update_idem] at hcons
      exact hcons.perm hafter.symm
  · -- the key is new
    have hmissing : initializer = (f key).getD initializer := by rw [(hf.none_iff key).mpr hnew]; rfl
    rcases hw.slots_cases x with ⟨he, hs⟩ | ⟨he, hd, hs⟩ | ⟨-, -, k, v, -, -, hs⟩
    · rw [if_pos he]
      obtain ⟨hwf, hperm⟩ :=
        (written_new hw hx key value (g.size + 1) (g.nOccupied + 1)).insert hw hx hfree hreach hnew hroom rfl
        (by rw [hs]; rfl)
      exact ⟨hx, rfl, rfl, hmissing, hwf, (hf.cons hnew value).perm hperm.symm⟩
    · rw [if_neg (by rw [he]; exact Bool.false_ne_true), if_pos hd]
      obtain ⟨hwf, hperm⟩ :=
        (written_new hw hx key value (g.size + 1) g.nOccupied).insert hw hx hfree hreach hnew hroom rfl
        (by rw [hs]; rfl)
      exact ⟨hx, rfl, rfl, hmissing, hwf, (hf.cons hnew value).perm hperm.symm⟩
    · rw [hs] at hfree
      cases hfree

theorem khPut_grown {a : Alloc} (hret : (grow hash a h).2 = 0) (key : K) :
    Khash.put hash a h key = putInto hash (grow hash a h).1 key := by
  rw [Khash.put, hret]
  rfl

/-- **`hashmap_put` puts** wherever the table has found room, whatever it had to do for it. -/
theorem put_grown (initializer : V) (hf : Shows (entries h.nBuckets (slots h)) f) {a : Alloc}
    (hret : (grow hash a h).2 = 0) (hgrown : Grown hash h (grow hash a h).1) (key : K) (value : V) :
    ∃ h', put hash initializer a h key value = some (h', (f key).getD initializer) ∧ WF hash h' ∧
      Shows (entries h'.nBuckets (slots h')) (Function.update f key (some value)) := by
  obtain ⟨m, hm, hn⟩ := hgrown.shape
  have hput : PutInto hash initializer f (grow hash a h).1 key value (putInto hash (grow hash a h).1 key) :=
    putInto_spec hgrown.wf hm hn hgrown.room (hf.perm hgrown.perm.symm) key value
  have hbucket :
      (putInto hash (grow hash a h).1 key).2.1 < (putInto hash (grow hash a h).1 key).1.vals.length := by
    rw [hput.vals, hgrown.wf.vals_length]
    exact hput.bucket
  unfold put
  dsimp only
  rw [khPut_grown hret, hput.returned, if_pos hbucket, hput.vals]
  refine ⟨_, rfl, hput.wf, ?_⟩
  show Shows (entries (putInto hash (grow hash a h).1 key).1.nBuckets _) _
  rw [hput.nBuckets]
  exact hput.shows_put

theorem put_stuck (initializer : V) {a : Alloc} (hret : (grow hash a h).2 = -1)
    (hstuck : Stuck hash h (grow hash a h).1) (key : K) (value : V) :
    put hash initializer a h key value = none := by
  have hkhput : Khash.put hash a h key = ((grow hash a h).1, (grow hash a h).1.nBuckets, -1) := by
    rw [Khash.put, hret]
    rfl
  unfold put
  dsimp only
  rw [hkhput, if_neg (by rw [hstuck.wf.vals_length]; exact Nat.lt_irrefl _)]

/-- **Without memory `hashmap_put` writes behind its array**: `kh_put` returns `kh_end` where a table that is
full cannot grow, and what it says in `ret` is not looked at. It does so for every key, also for one that has
an entry, and at no other time. -/
theorem put_without_memory (hw : WF hash h) (hsize : h.size < 2 ^ 30) (a : Alloc) (key : K) (value : V) :
    put hash initializer a h key value = none ↔
      h.upperBound ≤ h.nOccupied ∧
      (a.flags = false ∨ h.nBuckets ≤ h.size * 2 ∧ (a.keys && a.vals) = false) := by
  rw [← hw.grow_failed a hsize]
  rcases hw.grow_cases a hsize with ⟨hret, hgrown⟩ | ⟨hret, -, hstuck⟩
  · obtain ⟨f, hf⟩ := exists_shows hw.valid.nodup
    obtain ⟨h', hput, -⟩ := put_grown initializer hf hret hgrown key value
    rw [hput, hret]
    exact iff_of_false (by simp) (by decide)
  · exact iff_of_true (put_stuck initializer hret hstuck key value) hret

/-- The first `hashmap_put`, where the values get no memory. -/
theorem put_without_memory_first : put uint64Hash 0 ⟨true, true, false⟩ (init : Table UInt64 Nat) 5 1 = none :=
  (put_without_memory WF.init (by decide) _ _ _).mpr ⟨le_rfl, Or.inr ⟨le_rfl, rfl⟩⟩

/-! ## §3 Runs -/

/-- A call; `hashmap_put` comes with what the allocator gives. -/
inductive Call (K V : Type) where
  | get (key : K)
  | has (key : K)
  | put (a : Alloc) (key : K) (value : V)
  | del (key : K)
  | clear
  | foreachValue

/-- What a call returns. -/
inductive Answer (V : Type) where
  | value (v : V)
  | found (b : Bool)
  | values (vs : List V)
  | nothing

variable (hash initializer)

/-- A call on a map, with what it returns; `none` where it writes behind an array. -/
def call (map : Table K V) : Call K V → Option (Table K V × Answer V)
  | .get key => some (map, .value (get hash initializer map key))
  | .has key => some (map, .found (has hash map key))
  | .put a key value => (put hash initializer a map key value).map fun r => (r.1, .value r.2)
  | .del key =>
      let r := del hash initializer map key
      some (r.1, .value r.2)
  | .clear => some (clear map, .nothing)
  | .foreachValue => some (map, .values (foreachValue map))

/-- The calls of a run, and what they return. -/
def run (map : Table K V) : List (Call K V) → Option (Table K V × List (Answer V))
  | [] => some (map, [])
  | c :: cs => (call hash initializer map c).bind fun r => (run r.1 cs).map fun q => (q.1, r.2 :: q.2)

/-- For a call that puts there is memory, and room in 32 bits. -/
def Allowed (map : Table K V) : Call K V → Prop
  | .put a _ _ => (a.flags && a.keys && a.vals) = true ∧ map.size < 2 ^ 30
  | _ => True

/-- So there is on a whole run. -/
def Roomy (map : Table K V) : List (Call K V) → Prop
  | [] => True
  | c :: cs => Allowed map c ∧
      match call hash initializer map c with
      | none => True
      | some r => Roomy r.1 cs

instance (map : Table K V) : (c : Call K V) → Decidable (Allowed map c)
  | .put a _ _ => inferInstanceAs (Decidable ((a.flags && a.keys && a.vals) = true ∧ map.size < 2 ^ 30))
  | .get _ | .has _ | .del _ | .clear | .foreachValue => .isTrue trivial

instance decidableRoomy : (map : Table K V) → (cs : List (Call K V)) → Decidable (Roomy hash initializer map cs)
  | _, [] => .isTrue trivial
  | map, c :: cs =>
      have : Decidable (match call hash initializer map c with
          | none => True
          | some r => Roomy hash initializer r.1 cs) :=
        match call hash initializer map c with
        | none => .isTrue trivial
        | some r => decidableRoomy r.1 cs
      inferInstanceAs (Decidable (Allowed map c ∧ _))

variable {hash}

/-- What a call makes of a partial function. -/
def effect (f : K → Option V) : Call K V → K → Option V
  | .put _ key value => Function.update f key (some value)
  | .del key => Function.update f key none
  | .clear => fun _ => none
  | _ => f

/-- What a call on a partial function returns: its values are those of a list that has each of its pairs once. -/
def Returns (f : K → Option V) : Call K V → Answer V → Prop
  | .get key, .value v => v = (f key).getD initializer
  | .has key, .found b => b = (f key).isSome
  | .put _ key _, .value v => v = (f key).getD initializer
  | .del key, .value v => v = (f key).getD initializer
  | .clear, .nothing => True
  | .foreachValue, .values vs => ∃ l : List (K × V), (l.map Prod.fst).Nodup ∧ Shows l f ∧ vs = l.map Prod.snd
  | _, _ => False

/-- The answers of a run on a partial function. -/
def Answers (f : K → Option V) : List (Call K V) → List (Answer V) → Prop
  | [], [] => True
  | c :: cs, a :: as => Returns initializer f c a ∧ Answers (effect f c) cs as
  | _, _ => False

variable {initializer}

/-- **One call**: the map stays valid, and does what the partial function does. -/
theorem call_refines (initializer : V) (hw : WF hash h) (hf : Shows (entries h.nBuckets (slots h)) f)
    {c : Call K V} (hroom : Allowed h c) :
    ∃ h' answer, call hash initializer h c = some (h', answer) ∧ WF hash h' ∧
      Shows (entries h'.nBuckets (slots h')) (effect f c) ∧
      Returns initializer f c answer := by
  cases c with
  | get key => exact ⟨h, _, rfl, hw, hf, get_spec hw hf key⟩
  | has key => exact ⟨h, _, rfl, hw, hf, has_spec hw hf key⟩
  | put a key value =>
      obtain ⟨ha, hsize⟩ := hroom
      rcases hw.grow_cases a hsize with ⟨hret, hgrown⟩ | ⟨-, hfail, -⟩
      · obtain ⟨h', hput, hw', hf'⟩ := put_grown initializer hf hret hgrown key value
        refine ⟨h', .value ((f key).getD initializer), ?_, hw', hf', rfl⟩
        rw [call, hput]
        rfl
      · rw [ha] at hfail
        cases hfail
  | del key =>
      obtain ⟨hw', hn, hf', hreturned⟩ := del_spec initializer hw hf key
      rw [← hn] at hf'
      exact ⟨_, _, rfl, hw', hf', hreturned⟩
  | clear =>
      obtain ⟨hw', hn, -, hf'⟩ := clear_spec hw
      rw [← hn] at hf'
      exact ⟨_, _, rfl, hw', hf', trivial⟩
  | foreachValue => exact ⟨h, _, rfl, hw, hf, _, hw.valid.nodup, hf, foreachValue_eq hw⟩

theorem run_from (cs : List (Call K V)) : ∀ {h : Table K V} {f : K → Option V}, WF hash h →
    Shows (entries h.nBuckets (slots h)) f →
    Roomy hash initializer h cs → ∃ h' answers, run hash initializer h cs = some (h', answers) ∧ WF hash h' ∧
      Shows (entries h'.nBuckets (slots h')) (cs.foldl effect f) ∧ Answers initializer f cs answers := by
  induction cs with
  | nil => exact fun hw hf _ => ⟨_, [], rfl, hw, hf, trivial⟩
  | cons c cs ih =>
      intro h f hw hf hroom
      obtain ⟨hallowed, hrest⟩ := hroom
      obtain ⟨h₁, answer, hcall, hw₁, hf₁, hreturns⟩ := call_refines initializer hw hf hallowed
      rw [hcall] at hrest
      obtain ⟨h₂, answers, hrun, hw₂, hf₂, hanswers⟩ := ih hw₁ hf₁ hrest
      refine ⟨h₂, answer :: answers, ?_, hw₂, hf₂, hreturns, hanswers⟩
      rw [run, hcall]
      show (run hash initializer h₁ cs).map (fun q => (q.1, answer :: q.2)) = _
      rw [hrun]
      rfl

/-- **The maps are partial functions**, over every run: for every hash function, through every growth, every
clearing of marks and every collision, each call returns what it returns on the partial function that the
calls before it have made, and the map never writes outside its arrays. -/
theorem run_refines (cs : List (Call K V)) (hroom : Roomy hash initializer init cs) :
    ∃ h answers, run hash initializer init cs = some (h, answers) ∧ WF hash h ∧
      Shows (entries h.nBuckets (slots h)) (cs.foldl effect fun _ => none) ∧
      Answers initializer (fun _ => none) cs answers :=
  run_from cs WF.init Shows.nil hroom

/-- Keys that all want the same bucket: the fourth makes the table twice as large, and the last one finds a
bucket that has been given up. -/
def Sample.calls : List (Call Nat Nat) :=
  [.put ⟨true, true, true⟩ 1 10, .put ⟨true, true, true⟩ 2 20, .put ⟨true, true, true⟩ 3 30,
    .put ⟨true, true, true⟩ 4 40, .del 2, .put ⟨true, true, true⟩ 4 41, .has 2, .foreachValue,
    .put ⟨true, true, true⟩ 5 50, .get 4]

theorem run_refines_sample : ∃ h answers, run (fun _ => 7) 0 init Sample.calls = some (h, answers) ∧
    h.nBuckets = 8 ∧
    Answers 0 (fun _ => none) Sample.calls answers := by
  obtain ⟨h, answers, hrun, -, -, hanswers⟩ :=
    @run_refines Nat Nat _ (fun _ => 7) 0 Sample.calls (by decide +kernel)
  have hn : (run (fun _ => 7) 0 init Sample.calls).all fun r => r.1.nBuckets = 8 := by decide +kernel
  rw [hrun] at hn
  exact ⟨h, answers, hrun, of_decide_eq_true hn, hanswers⟩

/-! ## §4 How many entries -/

/-- There is memory for the call. -/
def Call.backed : Call K V → Bool
  | .put a _ _ => a.flags && a.keys && a.vals
  | _ => true

def Call.isPut : Call K V → Bool
  | .put _ _ _ => true
  | _ => false

theorem putInto_size (hash : K → UInt32) (g : Table K V) (key : K) :
    (putInto hash g key).1.size ≤ g.size + 1 := by
  unfold putInto
  dsimp only
  split
  · exact le_rfl
  · split
    · exact le_rfl
    · exact Nat.le_succ _

/-- Only a call that puts makes a map larger, and by one entry. -/
theorem call_size (hw : WF hash h) {c : Call K V} (hroom : Allowed h c) {r : Table K V × Answer V}
    (hc : call hash initializer h c = some r) : r.1.size ≤ h.size + if c.isPut then 1 else 0 := by
  cases c with
  | get key => cases hc; exact le_rfl
  | has key => cases hc; exact le_rfl
  | put a key value =>
      obtain ⟨ha, hsize⟩ := hroom
      rcases hw.grow_cases a hsize with ⟨hret, hgrown⟩ | ⟨-, hfail, -⟩
      · have hle := putInto_size hash (grow hash a h).1 key
        rw [hgrown.size, ← khPut_grown hret] at hle
        obtain ⟨q, hq, rfl⟩ := Option.map_eq_some_iff.mp hc
        unfold put at hq
        dsimp only at hq
        split at hq
        · cases hq
          exact hle
        · cases hq
      · rw [ha] at hfail
        cases hfail
  | del key =>
      cases hc
      show (del hash initializer h key).1.size ≤ h.size
      unfold del Khash.del
      dsimp only
      split
      · split
        · exact Nat.sub_le _ _
        · exact le_rfl
      · exact le_rfl
  | clear =>
      cases hc
      rw [(clear_spec hw).2.2.1]
      exact Nat.zero_le _
  | foreachValue => cases hc; exact le_rfl

/-- A run has room as long as fewer than 2^30 calls put. -/
theorem roomy_of_puts (cs : List (Call K V)) : ∀ {h : Table K V} {f : K → Option V}, WF hash h →
    Shows (entries h.nBuckets (slots h)) f →
    (∀ c ∈ cs, c.backed = true) → h.size + cs.countP Call.isPut ≤ 2 ^ 30 → Roomy hash initializer h cs := by
  induction cs with
  | nil => exact fun _ _ _ _ => trivial
  | cons c cs ih =>
      intro h f hw hf hback hfew
      rw [List.countP_cons] at hfew
      have hallowed : Allowed h c := by
        cases c with
        | put a key value =>
            have hone : (Call.put a key value).isPut = true := rfl
            rw [if_pos hone] at hfew
            exact ⟨hback _ List.mem_cons_self, by omega⟩
        | get key => trivial
        | has key => trivial
        | del key => trivial
        | clear => trivial
        | foreachValue => trivial
      refine ⟨hallowed, ?_⟩
      obtain ⟨h', answer, hcall, hw', hf', -⟩ := call_refines initializer hw hf hallowed
      have hsize : h'.size ≤ h.size + if c.isPut then 1 else 0 := call_size hw hallowed hcall
      have hleft : h'.size + cs.countP Call.isPut ≤ 2 ^ 30 := by omega
      rw [hcall]
      exact ih hw' hf' (fun c' hc' => hback c' (List.mem_cons_of_mem c hc')) hleft

/-! ## §5 The table of `callid`s -/

/-- What an occurrence does to the `callid`s. -/
def callidEffect (f : UInt64 → Option Nat) : Occurrence → UInt64 → Option Nat
  | .created callid con => Function.update f callid (some con)
  | .delivered callid => Function.update f callid none
  | _ => f

/-- The table of `callid`s is what the occurrences have made of it. -/
def Recorded (c : Core) : Prop := c.callids = c.record.foldl callidEffect fun _ => none

theorem foldl_aside {os : List Occurrence} (h : ∀ o ∈ os, Core.Occurrence.aside o = true)
    (f : UInt64 → Option Nat) :
    os.foldl callidEffect f = f := by
  induction os generalizing f with
  | nil => rfl
  | cons o os ih =>
      have ho := h o List.mem_cons_self
      have heffect : callidEffect f o = f := by
        cases o with
        | created callid con => cases ho
        | delivered callid => cases ho
        | called con cinfo msgid writes => rfl
        | answered con cinfo msgid error result => rfl
        | finished con msgid error result => rfl
        | raised con m => rfl
      rw [List.foldl_cons, heffect]
      exact ih (fun o' ho' => h o' (List.mem_cons_of_mem o ho')) f

section Recording

open Core Lib.Machine

variable {W : World} {c c' : Core}

theorem Recorded.extend {os : List Occurrence} (h : Recorded c) (hids : c'.callids = c.callids)
    (hrec : c'.record = c.record ++ os) (hos : ∀ o ∈ os, Core.Occurrence.aside o = true) : Recorded c' := by
  rw [Recorded, hids, hrec, List.foldl_append, foldl_aside hos]
  exact h

theorem Recorded.same (h : Recorded c) (hids : c'.callids = c.callids) (hrec : c'.record = c.record) :
    Recorded c' := by
  rw [Recorded, hids, hrec]
  exact h

theorem Recorded.passes (h : Recorded c) (hp : Passes Anyone c c') : Recorded c' := h.same hp.callids hp.record

theorem Recorded.broadcast {name : Option Bytes} {args : List Object} (h : Recorded c)
    (hb : broadcastEvent W c name args = .ok c') : Recorded c' := by
  rcases broadcastEvent_cases hb with rfl | ⟨n, d, _, hn, rfl⟩
  · exact h
  · have hraise : Recorded (c.raise (cstr n) args) := by
      refine h.extend rfl rfl fun o ho => ?_
      obtain ⟨id, _, rfl⟩ := List.mem_map.mp ho
      rfl
    have hsame := (notified_notify hn).same
    have hd : Recorded d := hraise.same (by rw [hsame]) (by rw [hsame])
    exact hd.same rfl rfl

/-- `handle_run` enters the `callid`. -/
theorem Recorded.putCallid {callid : UInt64} {id : Nat} (h : Recorded c) :
    Recorded (c.putCallid callid id) := by
  show (fun i => if i = callid then some id else c.callids i) =
      (c.record ++ [Occurrence.created callid id]).foldl callidEffect _
  rw [List.foldl_append, ← h]
  funext i
  rw [List.foldl_cons, List.foldl_nil, callidEffect, Function.update_apply]

/-- `handle_result` takes it out. -/
theorem Recorded.deliver {callid : UInt64} (h : Recorded c) : Recorded (c.deliver callid) := by
  show (fun i => if i = callid then none else c.callids i) =
      (c.record ++ [Occurrence.delivered callid]).foldl callidEffect _
  rw [List.foldl_append, ← h]
  funext i
  rw [List.foldl_cons, List.foldl_nil, callidEffect, Function.update_apply]

theorem Recorded.waitFor {e : RequestEvent} {id : Nat} {msgid : UInt64} {kind : CallKind} {callid : UInt64}
    (h : Recorded c) :
    Recorded (c.waitFor e id msgid kind callid) := by
  refine h.extend ?_ (waitFor_record c e id msgid kind callid) (by simp [Occurrence.aside])
  show (c.modify id _).callids = c.callids
  unfold Core.modify
  split <;> rfl

/-- **Every place of a move**: an occurrence is recorded where the table is changed, and nowhere else. -/
theorem Recorded.at {c₀ : Core} {l : Label} {k : List Hold} (h : Recorded c₀) (ha : At W c₀ l k c) :
    Recorded c := by
  induction ha with
  | start => exact h
  | pushLoop hs hf => exact h.same rfl rfl
  | popLoop hs hf => exact h.same rfl rfl
  | popParse hs => exact h.same rfl rfl
  | unpacked hs hc hn hr => exact h.same rfl rfl
  | @response id cinfo con below obj rest msgid error result hs hc hn hr hnew =>
      have hun : Recorded (({ c₀ with stack := below } : Core).unpacked id con rest) := h.same rfl rfl
      exact hun.extend rfl rfl (by simp [Occurrence.aside])
  | @mismatch id con below obj rest msgid error result hs hc hn hr hnew =>
      have hset :
          Recorded ((({ c₀ with stack := below } : Core).unpacked id con rest).callSetError con.callvector) :=
            h.same rfl rfl
      exact hset.passes (passes_connectionClose _ trivial)
  | dequeue hs ht => exact h.same rfl rfl
  | @returned e target cinfo kind callid below con info c hs hc hi hr hf =>
      have hset : Recorded ({ c₀ with stack := below }.setConnection target (popped con)) := h.same rfl rfl
      have hsame := (notified_flush hf).same
      exact hset.same (by rw [hsame]) (by rw [hsame])
  | @closeReturned id below hs =>
      have hpop : Recorded ({ c₀ with stack := below } : Core) := h.same rfl rfl
      exact hpop.passes (passes_closeReturned _ trivial)
  | read hc hu hl hfit hab => exact h.passes (passes_readCb hc (fun _ => trivial) hab)
  | eof hc hu hl => exact h.passes (passes_eofCb hc trivial)
  | create hu => exact h.same rfl rfl
  | tick hc ho => exact h.same rfl rfl
  | decref _ ih => exact ih.passes (passes_decref _ _)
  | error sent bytes env _ hh hc hl hcause ih => exact ih.same rfl rfl
  | newRequest _ hp hv hprep ih => exact ih.passes (passes_newRequest _ _ _)
  | enqueue _ ih => exact ih.same rfl rfl
  | invoke _ ih => exact ih.same rfl rfl
  | subscribe event _ hc ho ih => exact ih.passes (passes_connectionSubscribe _ _ _)
  | unsubscribe _ hu ih => exact ih.passes (passes_unsubscribe hu)
  | broadcast _ hn hf hb ih => exact ih.broadcast hb
  | putCallid _ ht heff hids hconns ih => exact ih.putCallid
  | answer sent bytes env _ hm hc hl ih => exact ih.same rfl rfl
  | silent _ hm ih => exact ih.passes (passes_decref _ _)
  | target _ ht ha hs hkey hc ih => exact ih.same rfl rfl
  | @unsent l k c e id con request kind callid key msgid bytes env _ ht ha hkey hc hl ih =>
      have hposted :
          Recorded (c.posted W id con (serializeRequest msgid kind.method request)
            .request false bytes env).clear :=
        ih.same rfl rfl
      exact hposted.extend rfl rfl (by simp [Occurrence.aside])
  | @wait l k c e id con kind callid key msgid request bytes env _ ht ha hkey hs hids hc hl ih =>
      have hposted :
          Recorded (c.posted W id con (serializeRequest msgid kind.method request)
            .request true bytes env).clear := ih.same rfl rfl
      exact hposted.waitFor
  | finished _ hs hi hr hout hrec htrace ih => exact ih.extend rfl rfl (by simp [Occurrence.aside])
  | deliver _ hr hids ih => exact ih.deliver

/-- In every state, also where the process has ended. -/
theorem recorded {ls : List Label} (hex : exec (Core.step W) Core.init ls = some c) : Recorded c := by
  have halways :
      Always (Core.step W) (fun c => Recorded c ∧ (c.halt = none → Ordered [] c ∧ Recorded c))
        Core.init ls := by
    refine always_placed (G := fun _ _ => True) rfl (fun c₀ l k c _ h _ ha => h.at ha) (fun c c' h hf =>
      ?_) along_true
    -- the process has ended in the move: nothing but notifications has been recorded since
    obtain ⟨os, hos, hraised⟩ := hf.record
    refine h.extend hf.callids hos fun o ho => ?_
    obtain ⟨id, m, rfl⟩ := hraised o ho
    rfl
  exact (halways.exec hex).1

end Recording

/-- The calls that `handle_run` and `handle_result` make on the table of `callid`s. -/
def callidCall : Occurrence → Option (Call UInt64 (Option Nat))
  | .created callid con => some (.put ⟨true, true, true⟩ callid (some con))
  | .delivered callid => some (.del callid)
  | _ => none

theorem foldl_callidCall (os : List Occurrence) (f : UInt64 → Option Nat) :
    (os.filterMap callidCall).foldl effect (fun callid => (f callid).map some) = fun callid =>
      (os.foldl callidEffect f callid).map some := by
  induction os generalizing f with
  | nil => rfl
  | cons o os ih =>
      cases o with
      | created callid con =>
          have hupdate : Function.update (fun i => (f i).map some) callid (some (some con)) =
              fun i => (Function.update f callid (some con) i).map some := by
            funext i
            rw [Function.update_apply, Function.update_apply]
            split <;> rfl
          exact (congrArg (fun g => (os.filterMap callidCall).foldl effect g) hupdate).trans (ih _)
      | delivered callid =>
          have hupdate : Function.update (fun i => (f i).map some) callid none =
              fun i => (Function.update f callid none i).map some := by
            funext i
            rw [Function.update_apply, Function.update_apply]
            split <;> rfl
          exact (congrArg (fun g => (os.filterMap callidCall).foldl effect g) hupdate).trans (ih _)
      | called con cinfo msgid writes => exact ih f
      | answered con cinfo msgid error result => exact ih f
      | finished con msgid error result => exact ih f
      | raised con m => exact ih f

/-- **The table of `callid`s is a map of `hashmap.c`**: in every state of every run in which fewer than 2^30
calls have been made, the calls of `handle_run` and of `handle_result`, made one after the other on
`khash.h`'s table, have kept it valid, with memory for each growth, and it finds for each `callid` the
connection that the core's state has for it. -/
theorem callids_hashmap {W : World} {ls : List Label} {c : Core}
    (hex : Lib.Machine.exec (Core.step W) Core.init ls = some c)
    (hfew : (c.record.filterMap callidCall).countP Call.isPut ≤ 2 ^ 30) :
    ∃ h answers, run uint64Hash none init (c.record.filterMap callidCall) = some (h, answers) ∧
      WF uint64Hash h ∧
      ∀ callid, get uint64Hash none h callid = c.callids callid := by
  have hback : ∀ call ∈ c.record.filterMap callidCall, call.backed = true := by
    intro call hcall
    obtain ⟨o, -, ho⟩ := List.mem_filterMap.mp hcall
    cases o with
    | created callid con => cases ho; rfl
    | delivered callid => cases ho; rfl
    | called con cinfo msgid writes => cases ho
    | answered con cinfo msgid error result => cases ho
    | finished con msgid error result => cases ho
    | raised con m => cases ho
  have hroom : Roomy uint64Hash none init (c.record.filterMap callidCall) :=
    roomy_of_puts _ WF.init Shows.nil hback ((Nat.zero_add _).trans_le hfew)
  obtain ⟨h, answers, hrun, hw, hshows, -⟩ := run_from _ WF.init Shows.nil hroom
  have hfold := foldl_callidCall c.record fun _ => none
  refine ⟨h, answers, hrun, hw, fun callid => ?_⟩
  rw [get_spec hw hshows callid]
  show (List.foldl effect (fun callid => Option.map some none) _ callid).getD none = _
  rw [hfold, recorded hex]
  dsimp only
  cases List.foldl callidEffect (fun _ => none) c.record callid with
  | none => rfl
  | some con => rfl

/-- A plugin has called itself and the call is not answered: the map has its `callid`. -/
theorem callids_hashmap_sample :
    ∃ c h answers, Lib.Machine.exec (Core.step Sample.world) Core.init Sample.settledCall = some c ∧
    run uint64Hash none init (c.record.filterMap callidCall) = some (h, answers) ∧
    get uint64Hash none h 7 = some 1 := by
  have hrun : (Lib.Machine.exec (Core.step Sample.world) Core.init Sample.settledCall).any (fun c =>
      decide ((c.record.filterMap callidCall).countP Call.isPut ≤ 2 ^ 30) && decide (c.callids 7 = some 1)) =
        true := by
    rw [Sample.settledCall, Sample.exec_connect_append rfl]
    decide +kernel
  obtain ⟨c, hex, hc⟩ := (Option.any_eq_true _ _).mp hrun
  rw [Bool.and_eq_true, decide_eq_true_eq, decide_eq_true_eq] at hc
  obtain ⟨h, answers, hmap, -, hget⟩ := callids_hashmap hex hc.1
  exact ⟨c, h, answers, hex, hmap, (hget 7).trans hc.2⟩

/-! ## §6 The table of handlers -/

/-- The buckets of a table of strings, as `SploneBox.Dispatch` has them. -/
def buckets (h : Table Bytes V) : Buckets V := (List.range h.nBuckets).map fun i => (slots h i).pair?

/-- **The table of `dispatch_table_init`**: what `hashmap_put` makes of the six entries, from no buckets over
four to eight, is the table of `SploneBox.Dispatch`, and among the six names `string_eq` is equality. -/
theorem dispatchTable_grown :
    ((dispatchEntries.foldlM (fun h e =>
      (put stringHash ⟨.missingMethod, false⟩ ⟨true, true, true⟩ h e.1 e.2).map
      Prod.fst) init).map buckets = some dispatchTable) ∧
      ∀ a ∈ dispatchEntries, ∀ b ∈ dispatchEntries, stringEq a.1 b.1 = decide (a.1 = b.1) := by
  decide +kernel

theorem buckets_getElem? (h : Table Bytes V) {i : Nat} (hi : i < h.nBuckets) :
    (buckets h)[i]? = some (slots h i).pair? := by
  rw [buckets, List.getElem?_map, List.getElem?_range hi]
  rfl

theorem buckets_length (h : Table Bytes V) : (buckets h).length = h.nBuckets := by
  rw [buckets, List.length_map, List.length_range]

/-- The walk of `khProbe` comes to where that of the library stops, in a table without marks in which
`string_eq` takes no other key for the name. -/
theorem khProbe_eq {h : Table Bytes V} {m : Nat} (hn : h.nBuckets = 2 ^ m) {name : Bytes}
    (hlive : ∀ i, slots h i ≠ .deleted) (hexact : ∀ k v, (k, v) ∈ entries h.nBuckets (slots h) →
      stringEq k name = true → k = name) {s₀ : Nat} (hstop :
      Stops (slots h) name (probe (2 ^ m) (code stringHash name) s₀))
    (hfirst : ∀ r < s₀, ¬ Stops (slots h) name (probe (2 ^ m) (code stringHash name) r)) :
    ∀ fuel s, s ≤ s₀ → s₀ - s < fuel →
      khProbe (buckets h) name fuel (probe (2 ^ m) (code stringHash name) s) s =
      probe (2 ^ m) (code stringHash name) s₀ := by
  intro fuel
  induction fuel with
  | zero => exact fun s _ hfuel => absurd hfuel (Nat.not_lt_zero _)
  | succ fuel ih =>
      intro s hs hfuel
      have hlt : probe (2 ^ m) (code stringHash name) s < h.nBuckets := by
        rw [hn]
        exact probe_lt (Nat.two_pow_pos m) _ _
      rw [khProbe, buckets_getElem? h hlt]
      rcases Nat.eq_or_lt_of_le hs with rfl | hbefore
      · rcases hstop with hempty | ⟨v, hv⟩
        · rw [hempty]
          rfl
        · rw [hv]
          exact if_pos (by simp [stringEq])
      · -- an entry of another key is in the way
        cases hslot : slots h (probe (2 ^ m) (code stringHash name) s) with
        | empty => exact absurd (Or.inl hslot) (hfirst s hbefore)
        | deleted => exact absurd hslot (hlive _)
        | entry k v =>
            have hother : ¬ stringEq k name = true := by
              intro heq
              have hk := hexact k v (mem_entries.mpr ⟨_, hlt, hslot⟩) heq
              exact hfirst s hbefore (Or.inr ⟨v, hk ▸ hslot⟩)
            rw [Slot.pair?_entry]
            dsimp only
            rw [if_neg hother, buckets_length, hn, probe_succ]
            exact ih (s + 1) (by omega) (by omega)

/-- **The lookup of `SploneBox.Dispatch` is that of `khash.h`**, in a table nothing was deleted from, for
every name that `string_eq` takes for no other key. -/
theorem khGet_eq {h : Table Bytes V} {f : Bytes → Option V} (hw : WF stringHash h) (hpos : h.nBuckets ≠ 0)
    (hf : Shows (entries h.nBuckets (slots h)) f) {name : Bytes} (hlive : ∀ i, slots h i ≠ .deleted)
    (hexact : ∀ k v, (k, v) ∈ entries h.nBuckets (slots h) → stringEq k name = true → k = name) :
    khGet (buckets h) name = f name ∧ has stringHash h name = (khGet (buckets h) name).isSome := by
  have hget : khGet (buckets h) name = f name := by
    rcases hw.shape with hzero | ⟨m, hm, -, hn⟩
    · exact absurd hzero hpos
    obtain ⟨s₀, hs₀, hstop, hfirst⟩ := exists_stop (code stringHash) (hw.hole hm hn) name
    have hbucket : khBucket (buckets h) name = probe (2 ^ m) (code stringHash name) s₀ := by
      rw [khBucket, buckets_length, hn]
      exact khProbe_eq hn hlive hexact hstop hfirst _ 0 (Nat.zero_le _) (by omega)
    have hlt : probe (2 ^ m) (code stringHash name) s₀ < h.nBuckets := by
      rw [hn]
      exact probe_lt (Nat.two_pow_pos m) _ _
    have hlookup := hw.valid.lookup (s := s₀) (k := name) (Nat.pos_of_ne_zero hpos)
    rw [hn] at hlookup
    rw [khGet, hbucket, buckets_getElem? h hlt]
    rcases hlookup hstop hfirst with ⟨v, hv, hmem⟩ | ⟨hempty, hnone⟩
    · rw [hv, (hf name v).mpr (hn ▸ hmem)]
      rfl
    · rw [hempty, (hf.none_iff name).mpr (hn ▸ hnone)]
      rfl
  exact ⟨hget, by rw [has_spec hw hf, hget]⟩

end SploneBox.Hashmap
