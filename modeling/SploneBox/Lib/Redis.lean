/-
# SploneBox.Lib.Redis — a redis keyspace with sets, hashes and lists.

One keyspace holds values of three kinds, and a command on a key of another kind gets an error and changes
nothing. A key that holds nothing counts as an empty value of every kind, and a list that is trimmed to
nothing is removed. The commands are those whose documented effect is a few lines: `SADD`, `SISMEMBER`,
`HSET`, `HMSET`, `LPUSH`, `LTRIM`, `LLEN`, `LRANGE`, `EXISTS`.

What a proof needs of a command is what it does to the value under its key (`members_sadd`, `items_lpush`,
`items_ltrim_flush`), what it answers (`sadd_reply`, `llen_reply`, `lrange_reply`), and that the other keys
keep what they hold (`sadd_ne`, `hset_ne`, `lpush_ne`, `ltrim_ne`). Keys and elements have arbitrary types.
-/
import Mathlib.Data.List.Basic
import Mathlib.Tactic.Common

namespace SploneBox.Lib.Redis

universe u v

variable {κ : Type u} {ν : Type v}

/-! ## §1 Values and commands -/

/-- A value of the keyspace. -/
inductive Value (ν : Type v) where
  | set (members : List ν)
  | hash (fields : List (ν × ν))
  | list (items : List ν)

/-- The keyspace. -/
abbrev Store (κ : Type u) (ν : Type v) := κ → Option (Value ν)

/-- What a command answers. -/
inductive Reply (ν : Type v) where
  | integer (n : Int)
  | status
  | error
  | array (elements : List ν)

section

variable [DecidableEq κ] [DecidableEq ν]

/-- The keyspace with another value under the key. -/
def put (db : Store κ ν) (key : κ) (value : Option (Value ν)) : Store κ ν :=
  fun key' => if key' = key then value else db key'

/-- `SADD`. -/
def sadd (db : Store κ ν) (key : κ) (member : ν) : Reply ν × Store κ ν :=
  match db key with
  | none => (.integer 1, put db key (some (.set [member])))
  | some (.set members) =>
      if member ∈ members then (.integer 0, db) else (.integer 1, put db key (some (.set (member :: members))))
  | some _ => (.error, db)

/-- `SISMEMBER`. -/
def sismember (db : Store κ ν) (key : κ) (member : ν) : Reply ν :=
  match db key with
  | none => .integer 0
  | some (.set members) => .integer (if member ∈ members then 1 else 0)
  | some _ => .error

/-- `HSET`. -/
def hset (db : Store κ ν) (key : κ) (field value : ν) : Reply ν × Store κ ν :=
  match db key with
  | none => (.integer 1, put db key (some (.hash [(field, value)])))
  | some (.hash fields) =>
      (.integer (if fields.any (·.1 = field) then 0 else 1),
        put db key (some (.hash ((field, value) :: fields.filter (·.1 ≠ field)))))
  | some _ => (.error, db)

/-- `HMSET`: `HSET` of every field, answered once. -/
def hmset (db : Store κ ν) (key : κ) (fields : List (ν × ν)) : Reply ν × Store κ ν :=
  match db key with
  | none => (.status, fields.foldl (fun db f => (hset db key f.1 f.2).2) db)
  | some (.hash _) => (.status, fields.foldl (fun db f => (hset db key f.1 f.2).2) db)
  | some _ => (.error, db)

/-- `LPUSH`. -/
def lpush (db : Store κ ν) (key : κ) (item : ν) : Reply ν × Store κ ν :=
  match db key with
  | none => (.integer 1, put db key (some (.list [item])))
  | some (.list items) => (.integer (items.length + 1), put db key (some (.list (item :: items))))
  | some _ => (.error, db)

/-- `LLEN`. -/
def llen (db : Store κ ν) (key : κ) : Reply ν :=
  match db key with
  | none => .integer 0
  | some (.list items) => .integer items.length
  | some _ => .error

/-- The items from `start` to `stop`, both counted from the end when they are negative. -/
def range (items : List ν) (start stop : Int) : List ν :=
  let start := max 0 (if start < 0 then start + items.length else start)
  let stop := if stop < 0 then stop + items.length else stop
  (items.drop start.toNat).take (stop - start + 1).toNat

/-- `LRANGE`. -/
def lrange (db : Store κ ν) (key : κ) (start stop : Int) : Reply ν :=
  match db key with
  | none => .array []
  | some (.list items) => .array (range items start stop)
  | some _ => .error

/-- `LTRIM`: a list without items is removed. -/
def ltrim (db : Store κ ν) (key : κ) (start stop : Int) : Reply ν × Store κ ν :=
  match db key with
  | none => (.status, db)
  | some (.list items) =>
      match range items start stop with
      | [] => (.status, put db key none)
      | kept => (.status, put db key (some (.list kept)))
  | some _ => (.error, db)

/-- `EXISTS`. -/
def keyExists (db : Store κ ν) (key : κ) : Reply ν := .integer (if (db key).isSome then 1 else 0)

end

/-! ## §2 What a key holds -/

/-- The key holds a set, or nothing. -/
def IsSet (db : Store κ ν) (key : κ) : Prop := ∀ v, db key = some v → ∃ members, v = .set members

/-- The key holds a hash, or nothing. -/
def IsHash (db : Store κ ν) (key : κ) : Prop := ∀ v, db key = some v → ∃ fields, v = .hash fields

/-- The key holds a list, or nothing. -/
def IsList (db : Store κ ν) (key : κ) : Prop := ∀ v, db key = some v → ∃ items, v = .list items

/-- The members of the set under the key. -/
def members (db : Store κ ν) (key : κ) : List ν :=
  match db key with
  | some (.set members) => members
  | _ => []

/-- The items of the list under the key. -/
def items (db : Store κ ν) (key : κ) : List ν :=
  match db key with
  | some (.list items) => items
  | _ => []

theorem isSet_congr {db db' : Store κ ν} {key : κ} (h : db' key = db key) (hset : IsSet db key) :
    IsSet db' key := by
  intro v hv
  rw [h] at hv
  exact hset v hv

theorem isHash_congr {db db' : Store κ ν} {key : κ} (h : db' key = db key) (hhash : IsHash db key) :
    IsHash db' key := by
  intro v hv
  rw [h] at hv
  exact hhash v hv

theorem isList_congr {db db' : Store κ ν} {key : κ} (h : db' key = db key) (hlist : IsList db key) :
    IsList db' key := by
  intro v hv
  rw [h] at hv
  exact hlist v hv

theorem members_congr {db db' : Store κ ν} {key : κ} (h : db' key = db key) :
    members db' key = members db key := by
  unfold members
  rw [h]

theorem items_congr {db db' : Store κ ν} {key : κ} (h : db' key = db key) : items db' key = items db key := by
  unfold items
  rw [h]

/-! ## §3 What a command does -/

section

variable [DecidableEq κ]

@[simp] theorem put_self (db : Store κ ν) (key : κ) (value : Option (Value ν)) : put db key value key = value :=
  if_pos rfl

theorem put_ne (db : Store κ ν) {key key' : κ} (value : Option (Value ν)) (h : key' ≠ key) :
    put db key value key' = db key' := if_neg h

theorem isList_put_list (db : Store κ ν) (key : κ) (xs : List ν) :
    IsList (put db key (some (.list xs))) key := by
  intro v hv
  rw [put_self] at hv
  cases hv
  exact ⟨xs, rfl⟩

theorem lpush_ne {db : Store κ ν} {key key' : κ} {item : ν} (h : key' ≠ key) :
    (lpush db key item).2 key' = db key' := by
  unfold lpush
  split
  · exact put_ne db _ h
  · exact put_ne db _ h
  · rfl

/-- What `LPUSH` answers and leaves behind. -/
theorem lpush_spec {db : Store κ ν} {key : κ} (h : IsList db key) (item : ν) :
    (∃ n, (lpush db key item).1 = .integer n) ∧ IsList (lpush db key item).2 key ∧
      items (lpush db key item).2 key = item :: items db key := by
  unfold lpush items
  cases hdb : db key with
  | none => exact ⟨⟨_, rfl⟩, isList_put_list db key _, by simp⟩
  | some v =>
      obtain ⟨xs, rfl⟩ := h v hdb
      exact ⟨⟨_, rfl⟩, isList_put_list db key _, by simp⟩

theorem ltrim_ne {db : Store κ ν} {key key' : κ} {start stop : Int} (h : key' ≠ key) :
    (ltrim db key start stop).2 key' = db key' := by
  unfold ltrim
  split
  · rfl
  · split
    · exact put_ne db _ h
    · exact put_ne db _ h
  · rfl

/-- `LTRIM` with `start > end` empties the list. -/
theorem ltrim_flush {db : Store κ ν} {key : κ} (h : IsList db key) :
    IsList (ltrim db key 1 0).2 key ∧ items (ltrim db key 1 0).2 key = [] := by
  cases hdb : db key with
  | none =>
      have hsame : (ltrim db key 1 0).2 = db := by simp [ltrim, hdb]
      rw [hsame]
      exact ⟨h, by simp [items, hdb]⟩
  | some v =>
      obtain ⟨xs, rfl⟩ := h v hdb
      have hempty : range xs 1 0 = [] := rfl
      have hput : (ltrim db key 1 0).2 = put db key none := by simp [ltrim, hdb, hempty]
      rw [hput]
      refine ⟨?_, by simp [items]⟩
      intro v hv
      rw [put_self] at hv
      cases hv

variable [DecidableEq ν]

theorem sadd_ne {db : Store κ ν} {key key' : κ} {member : ν} (h : key' ≠ key) :
    (sadd db key member).2 key' = db key' := by
  unfold sadd
  split
  · exact put_ne db _ h
  · split
    · rfl
    · exact put_ne db _ h
  · rfl

theorem sadd_other_kind {db : Store κ ν} {key : κ} {member : ν} (h : ¬ IsSet db key) :
    sadd db key member = (.error, db) := by
  unfold sadd
  split
  · next hdb => exact absurd (fun v hv => nomatch hdb.symm.trans hv) h
  · next xs hdb =>
      refine absurd (fun v hv => ⟨xs, ?_⟩) h
      exact (Option.some.inj (hdb.symm.trans hv)).symm
  · rfl

/-- What `SADD` answers and leaves behind. -/
theorem sadd_spec {db : Store κ ν} {key : κ} (h : IsSet db key) (member : ν) :
    (∃ n, (sadd db key member).1 = .integer n) ∧ IsSet (sadd db key member).2 key ∧
      ∀ x, x ∈ members (sadd db key member).2 key ↔ x = member ∨ x ∈ members db key := by
  have hput : ∀ xs, IsSet (put db key (some (.set xs))) key := by
    intro xs v hv
    rw [put_self] at hv
    cases hv
    exact ⟨xs, rfl⟩
  unfold sadd
  cases hdb : db key with
  | none => exact ⟨⟨_, rfl⟩, hput _, by simp [members, hdb]⟩
  | some v =>
      obtain ⟨xs, rfl⟩ := h v hdb
      by_cases hmem : member ∈ xs
      · simp only [if_pos hmem]
        refine ⟨⟨_, rfl⟩, h, fun x => ?_⟩
        simp only [members, hdb]
        exact ⟨Or.inr, fun hx => hx.elim (fun heq => heq ▸ hmem) id⟩
      · simp only [if_neg hmem]
        exact ⟨⟨_, rfl⟩, hput _, by simp [members, hdb]⟩

theorem hset_ne {db : Store κ ν} {key key' : κ} {field value : ν} (h : key' ≠ key) :
    (hset db key field value).2 key' = db key' := by
  unfold hset
  split
  · exact put_ne db _ h
  · exact put_ne db _ h
  · rfl

theorem hset_other_kind {db : Store κ ν} {key : κ} {field value : ν} (h : ¬ IsHash db key) :
    hset db key field value = (.error, db) := by
  unfold hset
  split
  · next hdb => exact absurd (fun v hv => nomatch hdb.symm.trans hv) h
  · next xs hdb =>
      refine absurd (fun v hv => ⟨xs, ?_⟩) h
      exact (Option.some.inj (hdb.symm.trans hv)).symm
  · rfl

theorem hmset_other_kind {db : Store κ ν} {key : κ} {fields : List (ν × ν)} (h : ¬ IsHash db key) :
    hmset db key fields = (.error, db) := by
  unfold hmset
  split
  · next hdb => exact absurd (fun v hv => nomatch hdb.symm.trans hv) h
  · next xs hdb =>
      refine absurd (fun v hv => ⟨xs, ?_⟩) h
      exact (Option.some.inj (hdb.symm.trans hv)).symm
  · rfl

theorem hmset_reply {db : Store κ ν} {key : κ} (h : IsHash db key) (fields : List (ν × ν)) :
    (hmset db key fields).1 = .status := by
  unfold hmset
  cases hdb : db key with
  | none => rfl
  | some v =>
      obtain ⟨xs, rfl⟩ := h v hdb
      rfl

theorem hmset_ne {db : Store κ ν} {key key' : κ} {fields : List (ν × ν)} (h : key' ≠ key) :
    (hmset db key fields).2 key' = db key' := by
  have hfold : ∀ (fields : List (ν × ν)) (db : Store κ ν),
      fields.foldl (fun db f => (hset db key f.1 f.2).2) db key' = db key' := by
    intro fields
    induction fields with
    | nil => exact fun _ => rfl
    | cons f fields ih => exact fun db => (ih _).trans (hset_ne h)
  unfold hmset
  split
  · exact hfold fields db
  · exact hfold fields db
  · rfl

/-- What `HSET` answers and leaves behind. -/
theorem hset_spec {db : Store κ ν} {key : κ} (h : IsHash db key) (field value : ν) :
    (∃ n, (hset db key field value).1 = .integer n) ∧ IsHash (hset db key field value).2 key := by
  have hput : ∀ xs, IsHash (put db key (some (.hash xs))) key := by
    intro xs v hv
    rw [put_self] at hv
    cases hv
    exact ⟨xs, rfl⟩
  unfold hset
  cases hdb : db key with
  | none => exact ⟨⟨_, rfl⟩, hput _⟩
  | some v =>
      obtain ⟨xs, rfl⟩ := h v hdb
      exact ⟨⟨_, rfl⟩, hput _⟩

end

theorem sismember_spec [DecidableEq ν] {db : Store κ ν} {key : κ} (h : IsSet db key) (member : ν) :
    sismember db key member = .integer (if member ∈ members db key then 1 else 0) := by
  unfold sismember members
  cases hdb : db key with
  | none => simp
  | some v =>
      obtain ⟨xs, rfl⟩ := h v hdb
      rfl

theorem llen_spec {db : Store κ ν} {key : κ} (h : IsList db key) :
    llen db key = .integer (items db key).length := by
  unfold llen items
  cases hdb : db key with
  | none => rfl
  | some v =>
      obtain ⟨xs, rfl⟩ := h v hdb
      rfl

theorem lrange_spec {db : Store κ ν} {key : κ} (h : IsList db key) (start stop : Int) :
    lrange db key start stop = .array (range (items db key) start stop) := by
  unfold lrange items
  cases hdb : db key with
  | none => simp [range]
  | some v =>
      obtain ⟨xs, rfl⟩ := h v hdb
      rfl

/-- `LRANGE` from the start, with an end that is not negative. -/
theorem range_of_nonneg (xs : List ν) {stop : Int} (h : 0 ≤ stop) :
    range xs 0 stop = xs.take (stop + 1).toNat := by
  simp [range, Int.not_lt.mpr h]

/-- `LRANGE` from the start, with an end that is counted from the end. -/
theorem range_of_neg (xs : List ν) {stop : Int} (h : stop < 0) :
    range xs 0 stop = xs.take (stop + xs.length + 1).toNat := by
  simp [range, h]

end SploneBox.Lib.Redis
