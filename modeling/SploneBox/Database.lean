/-
# SploneBox.Database — the functions of the plugins in the database.

`SploneBox.Functions` has what `db_function_add` and `db_function_verify` compute: three keys of redis for
each function, and a comparison of the list of types, back to front, with the arguments of a call.

What they are there for is `Signatures`: for each plugin and name, the argument types of the last registration.
`Holds` says that the three keys of every function hold its entry; `db_function_add` keeps it
(`dbFunctionAdd_holds`), since a key of 16 bytes can be read off the front of each redis key. The verdict of
`db_function_verify` is the one of the signature as long as the number of arguments survives `LRANGE ... %d`,
which takes an `int` (`signatures_verified_iff`).

A function that is refused can stay behind in part: `db_function_add` writes the name before it looks at the
rest, so a name can be in the set without a description or a list of types.
`rejected_function_unregistered_iff` says for which descriptions that happens.
-/
import SploneBox.Functions
import Mathlib.Data.List.Forall2

namespace SploneBox

open Lib.Redis

/-! ## §1 The key scheme -/

theorem functionsKey_inj {pluginkey pluginkey' : Bytes} (h : functionsKey pluginkey = functionsKey pluginkey') :
    pluginkey = pluginkey' := List.append_cancel_right h

/-- Keys of one length can be read off the front. -/
theorem argsKey_inj {pluginkey pluginkey' name name' : Bytes} (hlen : pluginkey.length = pluginkey'.length)
    (h : argsKey pluginkey name = argsKey pluginkey' name') : pluginkey = pluginkey' ∧ name = name' := by
  have hfront := List.append_cancel_right h
  rw [List.append_assoc, List.append_assoc] at hfront
  obtain ⟨hkey, hname⟩ := List.append_inj hfront hlen
  exact ⟨hkey, List.append_cancel_left hname⟩

/-- The kind of a redis key stands in its last byte. -/
theorem functionsKey_getLast (pluginkey : Bytes) : (functionsKey pluginkey).getLast? = some 108 := by
  simp [functionsKey, ascii, List.getLast?_append]

theorem metaKey_getLast (pluginkey name : Bytes) : (metaKey pluginkey name).getLast? = some 97 := by
  have hlast : (ascii [':', 'm', 'e', 't', 'a']).getLast? = some 97 := by decide
  rw [metaKey, List.getLast?_append, hlast]
  rfl

theorem argsKey_getLast (pluginkey name : Bytes) : (argsKey pluginkey name).getLast? = some 115 := by
  have hlast : (ascii [':', 'a', 'r', 'g', 's']).getLast? = some 115 := by decide
  rw [argsKey, List.getLast?_append, hlast]
  rfl

theorem functionsKey_ne_argsKey (pluginkey pluginkey' name : Bytes) :
    functionsKey pluginkey ≠ argsKey pluginkey' name := by
  intro h
  have hlast := congrArg List.getLast? h
  rw [functionsKey_getLast, argsKey_getLast] at hlast
  exact absurd hlast (by decide)

theorem functionsKey_ne_metaKey (pluginkey pluginkey' name : Bytes) :
    functionsKey pluginkey ≠ metaKey pluginkey' name := by
  intro h
  have hlast := congrArg List.getLast? h
  rw [functionsKey_getLast, metaKey_getLast] at hlast
  exact absurd hlast (by decide)

theorem argsKey_ne_metaKey (pluginkey pluginkey' name name' : Bytes) :
    argsKey pluginkey name ≠ metaKey pluginkey' name' := by
  intro h
  have hlast := congrArg List.getLast? h
  rw [argsKey_getLast, metaKey_getLast] at hlast
  exact absurd hlast (by decide)

/-! ## §2 Signatures -/

/-- For each plugin and each function, the argument types of its last registration. -/
abbrev Signatures := Bytes → Bytes → Option (List ObjectType)

def Signatures.register (sigs : Signatures) (pluginkey name : Bytes) (types : List ObjectType) : Signatures :=
  fun pluginkey' name' => if pluginkey' = pluginkey ∧ name' = name then some types else sigs pluginkey' name'

/-- The elements of the list: the types back to front. -/
def elementsOf (types : List ObjectType) : List Bytes := (types.map fun t => decimal t.code).reverse

/-- The database holds the signatures. -/
structure Holds (db : Database) (sigs : Signatures) : Prop where
  isSet : ∀ pluginkey, IsSet db (functionsKey pluginkey)
  isHash : ∀ pluginkey name, IsHash db (metaKey pluginkey name)
  isList : ∀ pluginkey name, IsList db (argsKey pluginkey name)
  names : ∀ pluginkey name, pluginkey.length = 16 →
    (name ∈ members db (functionsKey pluginkey) ↔ (sigs pluginkey name).isSome = true)
  types : ∀ pluginkey name, pluginkey.length = 16 →
    items db (argsKey pluginkey name) = elementsOf ((sigs pluginkey name).getD [])

theorem cstring_of_some {s : Str} {b : Bytes} (h : s.str = some b) : s.cstring = .ok (cstr b) := by
  unfold Str.cstring
  rw [h]

/-- The name is in the set. -/
theorem dbFunctionAddName_spec {db : Database} {pluginkey n : Bytes} {name : Str}
    (hset : IsSet db (functionsKey pluginkey)) (hname : name.str = some n) :
    dbFunctionAddName db pluginkey name = .ok (0, (sadd db (functionsKey pluginkey) (cstr n)).2) := by
  obtain ⟨⟨i, hreply⟩, -⟩ := sadd_spec hset (cstr n)
  unfold dbFunctionAddName
  rw [cstring_of_some hname]
  dsimp only [bind, Except.bind]
  generalize sadd db (functionsKey pluginkey) (cstr n) = x at hreply ⊢
  obtain ⟨reply, db'⟩ := x
  cases hreply
  rfl

theorem dbFunctionAddMeta_spec {db : Database} {pluginkey n d : Bytes} {name desc : Str}
    (hhash : IsHash db (metaKey pluginkey (cstr n))) (hname : name.str = some n) (hdesc : desc.str = some d) :
    dbFunctionAddMeta db pluginkey name desc =
      (0, (hset db (metaKey pluginkey (cstr n)) (ascii ['d', 'e', 's', 'c']) (cstr d)).2) := by
  obtain ⟨⟨i, hreply⟩, -⟩ := hset_spec hhash (ascii ['d', 'e', 's', 'c']) (cstr d)
  unfold dbFunctionAddMeta
  rw [hname, hdesc]
  dsimp only
  generalize hset db (metaKey pluginkey (cstr n)) (ascii ['d', 'e', 's', 'c']) (cstr d) = x at hreply ⊢
  obtain ⟨reply, db'⟩ := x
  cases hreply
  rfl

theorem dbFunctionAddArgs_spec {db : Database} {pluginkey n : Bytes} {name : Str}
    (hlist : IsList db (argsKey pluginkey (cstr n))) (hname : name.str = some n) (type : ObjectType) :
    dbFunctionAddArgs db pluginkey name type =
      .ok (0, (lpush db (argsKey pluginkey (cstr n)) (decimal type.code)).2) := by
  obtain ⟨⟨i, hreply⟩, -⟩ := lpush_spec hlist (decimal type.code)
  unfold dbFunctionAddArgs
  rw [cstring_of_some hname]
  dsimp only [bind, Except.bind]
  generalize lpush db (argsKey pluginkey (cstr n)) (decimal type.code) = x at hreply ⊢
  obtain ⟨reply, db'⟩ := x
  cases hreply
  rfl

/-- The loop pushes every type, so the last is in front. -/
theorem addArgsLoop_spec {pluginkey n : Bytes} {name : Str} (hname : name.str = some n) (args : List Object) :
    ∀ {db : Database}, IsList db (argsKey pluginkey (cstr n)) →
      ∃ db', addArgsLoop pluginkey name db args = .ok (0, db') ∧ IsList db' (argsKey pluginkey (cstr n)) ∧
        items db' (argsKey pluginkey (cstr n)) =
          elementsOf (args.map Object.type) ++ items db (argsKey pluginkey (cstr n)) ∧
        ∀ key, key ≠ argsKey pluginkey (cstr n) → db' key = db key := by
  induction args with
  | nil =>
      intro db hlist
      exact ⟨db, rfl, hlist, rfl, fun _ _ => rfl⟩
  | cons arg args ih =>
      intro db hlist
      obtain ⟨-, hlist₁, hitems₁⟩ := lpush_spec hlist (decimal arg.type.code)
      obtain ⟨db', hloop, hlist', hitems', hother⟩ := ih hlist₁
      refine ⟨db', ?_, hlist', ?_, ?_⟩
      · show (dbFunctionAddArgs db pluginkey name arg.type >>= _) = _
        rw [dbFunctionAddArgs_spec hlist hname]
        exact hloop
      · rw [hitems', hitems₁]
        simp [elementsOf]
      · intro key hkey
        rw [hother key hkey, lpush_ne hkey]

theorem dbFunctionFlushArgs_spec (db : Database) (pluginkey : Bytes) {n : Bytes} {name : Str}
    (hname : name.str = some n) :
    ∃ rc, dbFunctionFlushArgs db pluginkey name = .ok (rc, (ltrim db (argsKey pluginkey (cstr n)) 1 0).2) := by
  unfold dbFunctionFlushArgs
  rw [cstring_of_some hname]
  dsimp only [bind, Except.bind]
  generalize ltrim db (argsKey pluginkey (cstr n)) 1 0 = x
  obtain ⟨reply, db'⟩ := x
  cases reply with
  | status => exact ⟨0, rfl⟩
  | _ => exact ⟨-1, rfl⟩

/-- The list is replaced. -/
theorem addSignature_spec {db : Database} {pluginkey n : Bytes} {name : Str}
    (hlist : IsList db (argsKey pluginkey (cstr n))) (hname : name.str = some n) (args : List Object) :
    ∃ db', addSignature db pluginkey name (.array args) = .ok (0, db') ∧
      IsList db' (argsKey pluginkey (cstr n)) ∧
      items db' (argsKey pluginkey (cstr n)) = elementsOf (args.map Object.type) ∧
      ∀ key, key ≠ argsKey pluginkey (cstr n) → db' key = db key := by
  obtain ⟨hlist₁, hitems₁⟩ := ltrim_flush hlist
  obtain ⟨rc, hflush⟩ := dbFunctionFlushArgs_spec db pluginkey hname
  obtain ⟨db', hloop, hlist', hitems', hother⟩ := addArgsLoop_spec hname args hlist₁
  refine ⟨db', ?_, hlist', ?_, ?_⟩
  · unfold addSignature
    rw [hflush]
    exact hloop
  · rw [hitems', hitems₁, List.append_nil]
  · intro key hkey
    rw [hother key hkey, ltrim_ne hkey]

/-- The keys of a function hold values of their kinds, so that redis commands on them succeed. -/
structure Kinds (db : Database) (pluginkey name : Bytes) : Prop where
  isSet : IsSet db (functionsKey pluginkey)
  isHash : IsHash db (metaKey pluginkey name)
  isList : IsList db (argsKey pluginkey name)

/-- The database after a registration: the set has the name, the list has the types, and the other keys are as
they were. -/
structure Added (db db' : Database) (pluginkey name : Bytes) (types : List ObjectType) : Prop where
  kinds : Kinds db' pluginkey name
  members : ∀ f, f ∈ Lib.Redis.members db' (functionsKey pluginkey) ↔
    f = name ∨ f ∈ Lib.Redis.members db (functionsKey pluginkey)
  items : Lib.Redis.items db' (argsKey pluginkey name) = elementsOf types
  other : ∀ key, key ≠ functionsKey pluginkey → key ≠ metaKey pluginkey name → key ≠ argsKey pluginkey name →
    db' key = db key

/-- The first two writes. -/
theorem addFunction_eq {db : Database} {pluginkey n d : Bytes} {name desc : Str}
    (h : Kinds db pluginkey (cstr n)) (hname : name.str = some n) (hdesc : desc.str = some d) (args : Object) :
    addFunction db pluginkey name desc args =
      addSignature (hset (sadd db (functionsKey pluginkey) (cstr n)).2 (metaKey pluginkey (cstr n))
        (ascii ['d', 'e', 's', 'c']) (cstr d)).2 pluginkey name args := by
  have hhash : IsHash (sadd db (functionsKey pluginkey) (cstr n)).2 (metaKey pluginkey (cstr n)) :=
    isHash_congr (sadd_ne (functionsKey_ne_metaKey _ _ _).symm) h.isHash
  unfold addFunction
  rw [dbFunctionAddName_spec h.isSet hname]
  dsimp only [bind, Except.bind]
  rw [if_neg (by decide), dbFunctionAddMeta_spec hhash hname hdesc]
  rfl

/-- **A registration succeeds** when the commands do. -/
theorem addFunction_added {db : Database} {pluginkey n d : Bytes} {name desc : Str}
    (h : Kinds db pluginkey (cstr n)) (hname : name.str = some n) (hdesc : desc.str = some d)
    (args : List Object) :
    ∃ db', addFunction db pluginkey name desc (.array args) = .ok (0, db') ∧
      Added db db' pluginkey (cstr n) (args.map Object.type) := by
  rw [addFunction_eq h hname hdesc]
  -- one database for each of the three keys
  obtain ⟨-, hset₁, hmembers₁⟩ := sadd_spec h.isSet (cstr n)
  have hother₁ : ∀ key, key ≠ functionsKey pluginkey →
      (sadd db (functionsKey pluginkey) (cstr n)).2 key = db key :=
    fun _ hkey => sadd_ne hkey
  generalize (sadd db (functionsKey pluginkey) (cstr n)).2 = db₁ at hset₁ hmembers₁ hother₁ ⊢
  have hhash₁ := isHash_congr (hother₁ _ (functionsKey_ne_metaKey pluginkey pluginkey (cstr n)).symm) h.isHash
  obtain ⟨-, hhash₂⟩ := hset_spec hhash₁ (ascii ['d', 'e', 's', 'c']) (cstr d)
  have hother₂ : ∀ key, key ≠ metaKey pluginkey (cstr n) →
      (hset db₁ (metaKey pluginkey (cstr n)) (ascii ['d', 'e', 's', 'c']) (cstr d)).2 key = db₁ key :=
    fun _ hkey => hset_ne hkey
  generalize (hset db₁ (metaKey pluginkey (cstr n)) (ascii ['d', 'e', 's', 'c']) (cstr d)).2 =
    db₂ at hhash₂ hother₂ ⊢
  have hargs₂ : db₂ (argsKey pluginkey (cstr n)) = db (argsKey pluginkey (cstr n)) := by
    rw [hother₂ _ (argsKey_ne_metaKey _ _ _ _), hother₁ _ (functionsKey_ne_argsKey _ _ _).symm]
  obtain ⟨db', hsignature, hlist', hitems', hother'⟩ :=
    addSignature_spec (isList_congr hargs₂ h.isList) hname args
  have hnames' : db' (functionsKey pluginkey) = db₁ (functionsKey pluginkey) := by
    rw [hother' _ (functionsKey_ne_argsKey _ _ _), hother₂ _ (functionsKey_ne_metaKey _ _ _)]
  refine ⟨db', hsignature, ⟨⟨isSet_congr hnames' hset₁, ?_, hlist'⟩, ?_, hitems', ?_⟩⟩
  · exact isHash_congr (hother' _ (argsKey_ne_metaKey _ _ _ _).symm) hhash₂
  · intro f
    rw [members_congr hnames', hmembers₁]
  · intro key hset hhash hlist
    rw [hother' key hlist, hother₂ key hhash, hother₁ key hset]

/-- **A registration replaces one signature**, and no other function sees it. -/
theorem Added.holds {db db' : Database} {sigs : Signatures} {pluginkey name : Bytes} {types : List ObjectType}
    (hadded : Added db db' pluginkey name types) (h : Holds db sigs) (hk : pluginkey.length = 16) :
    Holds db' (sigs.register pluginkey name types) := by
  have hnames : ∀ k, k ≠ pluginkey → db' (functionsKey k) = db (functionsKey k) := by
    intro k hne
    exact hadded.other _ (fun heq => hne (functionsKey_inj heq)) (functionsKey_ne_metaKey _ _ _)
      (functionsKey_ne_argsKey _ _ _)
  have hargs : ∀ k f, argsKey k f ≠ argsKey pluginkey name → db' (argsKey k f) = db (argsKey k f) := by
    intro k f hne
    exact hadded.other _ (functionsKey_ne_argsKey _ _ _).symm (argsKey_ne_metaKey _ _ _ _) hne
  -- Only the three keys of the plugin and the function have changed, and no two signatures share one.
  refine ⟨?_, ?_, ?_, ?_, ?_⟩
  · intro k
    by_cases hkk : k = pluginkey
    · rw [hkk]
      exact hadded.kinds.isSet
    · exact isSet_congr (hnames k hkk) (h.isSet k)
  · intro k f
    by_cases hkey : metaKey k f = metaKey pluginkey name
    · rw [hkey]
      exact hadded.kinds.isHash
    · exact isHash_congr (hadded.other _ (functionsKey_ne_metaKey _ _ _).symm hkey
        (argsKey_ne_metaKey _ _ _ _).symm) (h.isHash k f)
  · intro k f
    by_cases hkey : argsKey k f = argsKey pluginkey name
    · rw [hkey]
      exact hadded.kinds.isList
    · exact isList_congr (hargs k f hkey) (h.isList k f)
  · intro k f hkl
    unfold Signatures.register
    by_cases hkk : k = pluginkey
    · subst hkk
      rw [hadded.members]
      by_cases hf : f = name
      · simp [hf]
      · rw [if_neg (fun hand => hf hand.2), ← h.names k f hkl]
        exact or_iff_right hf
    · rw [if_neg (fun hand => hkk hand.1), ← h.names k f hkl, members_congr (hnames k hkk)]
  · intro k f hkl
    unfold Signatures.register
    by_cases hkey : k = pluginkey ∧ f = name
    · rw [if_pos hkey, hkey.1, hkey.2, hadded.items]
      rfl
    · have hne : argsKey k f ≠ argsKey pluginkey name := fun heq => hkey (argsKey_inj (hkl.trans hk.symm) heq)
      rw [if_neg hkey, ← h.types k f hkl, items_congr (hargs k f hne)]

theorem Holds.kinds {db : Database} {sigs : Signatures} (h : Holds db sigs) (pluginkey name : Bytes) :
    Kinds db pluginkey name := ⟨h.isSet pluginkey, h.isHash pluginkey name, h.isList pluginkey name⟩

/-! ## §3 A run of registrations -/

/-- A call of `db_function_add`: the plugin and the function. -/
abbrev AddCall := Bytes × List Object

/-- The name a function description registers, and the types of its arguments. -/
def declared : List Object → Option (Bytes × List ObjectType)
  | .string ⟨some name, _⟩ :: _ :: .array args :: _ => some (cstr name, args.map Object.type)
  | _ => none

/-- The call registers the function of the plugin: its argument types. -/
def AddCall.signature (pluginkey name : Bytes) (call : AddCall) : Option (List ObjectType) :=
  match declared call.2 with
  | some (name', types) => if pluginkey = call.1 ∧ name = name' then some types else none
  | none => none

/-- The most recent registration among the calls, the last of which came last. -/
def lastSignature (calls : List AddCall) (pluginkey name : Bytes) : Option (List ObjectType) :=
  (calls.filterMap (AddCall.signature pluginkey name)).getLast?

/-- The database after the calls, all of which succeed. -/
def addAll : Database → List AddCall → Option Database
  | db, [] => some db
  | db, (pluginkey, func) :: calls =>
      match dbFunctionAdd db pluginkey func with
      | .ok (0, db) => addAll db calls
      | _ => none

/-- The database before the first registration. -/
def emptyDatabase : Database := fun _ => none

theorem holds_empty : Holds emptyDatabase (lastSignature []) := by
  refine ⟨?_, ?_, ?_, ?_, ?_⟩
  · exact fun _ _ hv => nomatch hv
  · exact fun _ _ _ hv => nomatch hv
  · exact fun _ _ _ hv => nomatch hv
  · intro k f _
    simp [members, emptyDatabase, lastSignature]
  · intro k f _
    rfl

theorem lastSignature_concat {calls : List AddCall} {pluginkey name : Bytes} {func : List Object}
    {types : List ObjectType} (h : declared func = some (name, types)) :
    lastSignature (calls ++ [(pluginkey, func)]) =
      Signatures.register (lastSignature calls) pluginkey name types := by
  funext k f
  unfold lastSignature Signatures.register
  rw [List.filterMap_append]
  by_cases hkf : k = pluginkey ∧ f = name
  · simp [AddCall.signature, h, hkf]
  · simp [AddCall.signature, h, hkf]

theorem addFunction_null_name {db : Database} {pluginkey : Bytes} {name desc : Str} {args : Object}
    (h : name.str = none) : addFunction db pluginkey name desc args = .error .nullPointer := by
  unfold addFunction dbFunctionAddName Str.cstring
  rw [h]
  rfl

/-- An empty description is refused when the name has already been written. -/
theorem addFunction_null_desc {db : Database} {pluginkey n : Bytes} {name desc : Str} {args : Object}
    (hname : name.str = some n) (hdesc : desc.str = none) :
    addFunction db pluginkey name desc args = .ok (-1, (sadd db (functionsKey pluginkey) (cstr n)).2) := by
  have hmeta : ∀ db, dbFunctionAddMeta db pluginkey name desc = (-1, db) := by
    intro db
    unfold dbFunctionAddMeta
    rw [hname, hdesc]
  unfold addFunction dbFunctionAddName
  rw [cstring_of_some hname]
  simp only [hmeta]
  dsimp only [bind, Except.bind]
  generalize sadd db (functionsKey pluginkey) (cstr n) = x
  obtain ⟨reply, db'⟩ := x
  cases reply <;> rfl

/-- Arguments that are not an array are read as one. -/
theorem addFunction_not_array {db db' : Database} {pluginkey : Bytes} {name desc : Str} {args : Object}
    (hargs : ∀ xs, args ≠ .array xs) : addFunction db pluginkey name desc args ≠ .ok (0, db') := by
  have hsignature : ∀ db, ∃ e, addSignature db pluginkey name args = .error e := by
    intro db
    unfold addSignature
    cases dbFunctionFlushArgs db pluginkey name with
    | error e => exact ⟨e, rfl⟩
    | ok x =>
        cases args with
        | array xs => exact absurd rfl (hargs xs)
        | _ => exact ⟨.wrongType, rfl⟩
  unfold addFunction
  cases dbFunctionAddName db pluginkey name with
  | error e => exact fun h => nomatch h
  | ok x =>
      dsimp only [bind, Except.bind]
      split
      · exact fun h => nomatch h
      · split
        · exact fun h => nomatch h
        · obtain ⟨e, he⟩ := hsignature (dbFunctionAddMeta x.2 pluginkey name desc).2
          rw [he]
          exact fun h => nomatch h

/-- What a successful registration was given. -/
theorem dbFunctionAdd_cases {db db' : Database} {pluginkey : Bytes} {func : List Object}
    (h : dbFunctionAdd db pluginkey func = .ok (0, db')) :
    ∃ name desc args rest n d, func = .string name :: .string desc :: .array args :: rest ∧
      name.str = some n ∧ desc.str = some d ∧ addFunction db pluginkey name desc (.array args) =
      .ok (0, db') := by
  unfold dbFunctionAdd at h
  split at h
  · next name desc args rest =>
      split at h
      · cases h
      · cases hname : name.str with
        | none =>
            rw [addFunction_null_name hname] at h
            cases h
        | some n =>
            cases hdesc : desc.str with
            | none =>
                rw [addFunction_null_desc hname hdesc] at h
                cases h
            | some d =>
                cases args with
                | array args => exact ⟨name, desc, args, rest, n, d, rfl, hname, hdesc, h⟩
                | _ => exact absurd h (addFunction_not_array fun _ hxs => nomatch hxs)
  · cases h

/-- **A successful call registers what it declares.** -/
theorem dbFunctionAdd_holds {db db' : Database} {calls : List AddCall} (hdb : Holds db (lastSignature calls))
    {pluginkey : Bytes} {func : List Object} (hk : pluginkey.length = 16)
    (h : dbFunctionAdd db pluginkey func = .ok (0, db')) :
    Holds db' (lastSignature (calls ++ [(pluginkey, func)])) := by
  obtain ⟨name, desc, args, rest, n, d, rfl, hname, hdesc, hadd⟩ := dbFunctionAdd_cases h
  obtain ⟨db'', hadd', hadded⟩ := addFunction_added (hdb.kinds pluginkey (cstr n)) hname hdesc args
  have hdeclared : declared (.string name :: .string desc :: .array args :: rest) =
      some (cstr n, args.map Object.type) := by
    obtain ⟨str, length⟩ := name
    subst hname
    rfl
  rw [hadd] at hadd'
  cases hadd'
  rw [lastSignature_concat hdeclared]
  exact hadded.holds hdb hk

/-- **The database holds the last registrations.** -/
theorem addAll_holds (calls : List AddCall) :
    ∀ {done : List AddCall} {db db' : Database}, Holds db (lastSignature done) →
      (∀ c ∈ calls, c.1.length = 16) → addAll db calls = some db' →
      Holds db' (lastSignature (done ++ calls)) := by
  induction calls with
  | nil =>
      intro done db db' hdb _ h
      cases h
      rw [List.append_nil]
      exact hdb
  | cons c calls ih =>
      intro done db db' hdb hk h
      obtain ⟨pluginkey, func⟩ := c
      rw [addAll] at h
      split at h
      · next db₁ hadd =>
          have hdb₁ := dbFunctionAdd_holds hdb (hk _ List.mem_cons_self) hadd
          have hrest := ih hdb₁ (fun c hc => hk c (List.mem_cons_of_mem _ hc)) h
          rw [List.append_assoc] at hrest
          exact hrest
      · cases h

/-! ## §4 What is verified -/

/-- The declared type takes the argument. An unsigned argument that is not above `INT64_MAX` may be a signed
integer. -/
def ObjectType.takes (type : ObjectType) (arg : Object) : Bool :=
  match arg with
  | .uinteger u => type = .uint || (type = .int && u.toNat ≤ int64Max)
  | arg => type = arg.type

/-- The arguments are those of the signature, position by position. -/
def Matches (types : List ObjectType) (args : List Object) : Prop :=
  List.Forall₂ (fun type arg => type.takes arg = true) types args

/-- A type comes back from the list as it was stored. -/
theorem typeFits_decimal (type : ObjectType) (arg : Object) :
    typeFits (decimal type.code) arg = type.takes arg := by
  have hstored : ∀ type : ObjectType, strtol (decimal type.code) = ⟨type.code, false, true⟩ := by
    intro type
    cases type <;> rfl
  unfold typeFits
  rw [hstored]
  cases type <;> cases arg <;> simp [ObjectType.takes, ObjectType.code, Object.type]

/-- The loop compares the elements from the last on with the arguments from the first on. -/
theorem typecheckLoop_iff {elements : List Bytes} {args : List Object} (j : Nat) :
    ∀ {k : Nat}, j ≤ elements.length → k + j ≤ args.length →
      (typecheckLoop elements args j k = .ok 0 ↔
        List.Forall₂ (fun e a => typeFits e a = true) (elements.take j).reverse ((args.drop k).take j)) := by
  induction j with
  | zero =>
      intro k _ _
      simp [typecheckLoop]
  | succ j ih =>
      intro k hj hk
      have hj' : j < elements.length := by omega
      have hk' : k < args.length := by omega
      rw [typecheckLoop, List.getElem?_eq_getElem hj', List.getElem?_eq_getElem hk',
        List.take_succ_eq_append_getElem hj', List.reverse_append, List.drop_eq_getElem_cons hk',
        List.take_succ_cons]
      dsimp only
      show _ ↔ List.Forall₂ _ (elements[j] :: (elements.take j).reverse) _
      rw [List.forall₂_cons, ← ih (by omega) (by omega)]
      by_cases hfits : typeFits elements[j] args[k] = true
      · rw [if_pos hfits]
        exact (and_iff_right hfits).symm
      · rw [if_neg hfits]
        exact iff_of_false (by decide) (fun h => hfits h.1)

/-- The loop stays inside both arrays. -/
theorem typecheckLoop_total {elements : List Bytes} {args : List Object} (j : Nat) :
    ∀ {k : Nat}, j ≤ elements.length → k + j ≤ args.length →
      typecheckLoop elements args j k = .ok 0 ∨ typecheckLoop elements args j k = .ok (-1) := by
  induction j with
  | zero =>
      intro k _ _
      exact Or.inl rfl
  | succ j ih =>
      intro k hj hk
      have hj' : j < elements.length := by omega
      have hk' : k < args.length := by omega
      rw [typecheckLoop, List.getElem?_eq_getElem hj', List.getElem?_eq_getElem hk']
      dsimp only
      split
      · exact ih (by omega) (by omega)
      · exact Or.inr rfl

/-- The number of elements `LRANGE key 0 argc` returns when `argc` is read as an `int`. -/
def checked (argc : Nat) : Nat :=
  min argc (if asInt argc < 0 then (asInt argc + argc + 1).toNat else (asInt argc + 1).toNat)

theorem range_checked {ν : Type} (xs : List ν) :
    range xs 0 (asInt xs.length) = xs.take (checked xs.length) := by
  unfold checked
  split
  · next hneg => rw [range_of_neg xs hneg, List.take_eq_take_min, Nat.min_comm]
  · next hneg => rw [range_of_nonneg xs (by omega), List.take_eq_take_min, Nat.min_comm]

/-- **All of them are compared** unless the number does not survive. -/
theorem checked_eq_iff (argc : Nat) : checked argc = argc ↔ argc < 2 ^ 31 ∨ argc % 2 ^ 32 = 2 ^ 32 - 1 := by
  unfold checked asInt
  rw [Int.bmod_def]
  split <;> split <;> omega

theorem dbFunctionExists_iff {db : Database} {pluginkey n : Bytes} {name : Str}
    (hset : IsSet db (functionsKey pluginkey)) (hname : name.str = some n) :
    dbFunctionExists db pluginkey name = .ok (decide (cstr n ∈ members db (functionsKey pluginkey))) := by
  unfold dbFunctionExists
  rw [cstring_of_some hname]
  dsimp only [bind, Except.bind]
  rw [sismember_spec hset]
  by_cases hmem : cstr n ∈ members db (functionsKey pluginkey)
  · rw [if_pos hmem, decide_eq_true hmem]
    rfl
  · rw [if_neg hmem, decide_eq_false hmem]
    rfl

theorem dbFunctionExists_spec {db : Database} {sigs : Signatures} (h : Holds db sigs) {pluginkey n : Bytes}
    {name : Str} (hk : pluginkey.length = 16) (hname : name.str = some n) :
    dbFunctionExists db pluginkey name = .ok (sigs pluginkey (cstr n)).isSome := by
  rw [dbFunctionExists_iff (h.isSet pluginkey) hname]
  simp only [h.names pluginkey (cstr n) hk, Bool.decide_eq_true]

theorem elementsOf_length (types : List ObjectType) : (elementsOf types).length = types.length := by
  simp [elementsOf]

/-- The elements from the last on are the types from the first on, less those that were not asked for. -/
theorem reverse_take_elementsOf (types : List ObjectType) (m : Nat) :
    ((elementsOf types).take m).reverse = (types.drop (types.length - m)).map fun t => decimal t.code := by
  unfold elementsOf
  rw [List.take_reverse, List.reverse_reverse, List.length_map, List.map_drop]

/-- `db_function_typecheck` compares the number, and the elements that `LRANGE` returned. -/
theorem dbFunctionTypecheck_items {db : Database} {pluginkey n : Bytes} {name : Str}
    (hlist : IsList db (argsKey pluginkey (cstr n))) (hname : name.str = some n) {xs : List Bytes}
    (hitems : items db (argsKey pluginkey (cstr n)) = xs) (args : List Object) :
    ∃ rc, dbFunctionTypecheck db pluginkey name args = .ok rc ∧ (rc = 0 ∨ rc = -1) ∧
      (rc = 0 ↔ args.length = xs.length ∧ List.Forall₂ (fun e a => typeFits e a = true)
        (xs.take (checked xs.length)).reverse (args.take (checked xs.length))) := by
  have hargc : dbFunctionGetArgc db pluginkey name = .ok (xs.length : Int) := by
    unfold dbFunctionGetArgc
    rw [cstring_of_some hname]
    dsimp only [bind, Except.bind]
    rw [llen_spec hlist, hitems]
    rfl
  have hrange :
      lrange db (argsKey pluginkey (cstr n)) 0 (asInt xs.length) = .array (xs.take (checked xs.length)) := by
    rw [lrange_spec hlist, hitems, range_checked]
  have hle : checked xs.length ≤ xs.length := Nat.min_le_left _ _
  have hsize : (xs.take (checked xs.length)).length = checked xs.length := by
    rw [List.length_take, Nat.min_eq_left hle]
  unfold dbFunctionTypecheck
  rw [hargc]
  dsimp only [bind, Except.bind]
  -- The reply is compared from its far end: the list was pushed onto its head.
  by_cases hlen : args.length = xs.length
  · rw [if_neg (by omega), cstring_of_some hname]
    dsimp only
    rw [hrange]
    dsimp only
    rw [hsize]
    have hiff :=
      typecheckLoop_iff (checked xs.length) (k := 0) (show _ ≤ (xs.take (checked xs.length)).length by omega)
      (show _ ≤ args.length by omega)
    have htotal := typecheckLoop_total (checked xs.length) (k := 0)
      (show _ ≤ (xs.take (checked xs.length)).length by omega) (show _ ≤ args.length by omega)
    rw [List.take_take, Nat.min_self, List.drop_zero] at hiff
    rw [← hiff]
    rcases htotal with hok | hok
    · exact ⟨0, hok, Or.inl rfl, iff_of_true rfl ⟨hlen, hok⟩⟩
    · refine ⟨-1, hok, Or.inr rfl, iff_of_false (by decide) ?_⟩
      rintro ⟨-, hzero⟩
      rw [hok] at hzero
      cases hzero
  · rw [if_pos (Or.inr (by omega))]
    exact ⟨-1, rfl, Or.inr rfl, iff_of_false (by decide) fun hand => hlen hand.1⟩

/-- The elements are those of a signature. -/
theorem dbFunctionTypecheck_spec {db : Database} {sigs : Signatures} (h : Holds db sigs) {pluginkey n : Bytes}
    {name : Str} (hk : pluginkey.length = 16) (hname : name.str = some n) {types : List ObjectType}
    (hsig : sigs pluginkey (cstr n) = some types) (args : List Object) :
    ∃ rc, dbFunctionTypecheck db pluginkey name args = .ok rc ∧ (rc = 0 ∨ rc = -1) ∧
      (rc = 0 ↔ args.length = types.length ∧
        Matches (types.drop (types.length - checked types.length)) (args.take (checked types.length))) := by
  have hitems : items db (argsKey pluginkey (cstr n)) = elementsOf types := by
    rw [h.types pluginkey (cstr n) hk, hsig]
    rfl
  have hcheck := dbFunctionTypecheck_items (h.isList pluginkey (cstr n)) hname hitems args
  rw [reverse_take_elementsOf, List.forall₂_map_left_iff, elementsOf_length] at hcheck
  simp only [typeFits_decimal] at hcheck
  exact hcheck

/-- What `db_function_verify` accepts. -/
theorem dbFunctionVerify_iff {db : Database} {sigs : Signatures} (h : Holds db sigs) {pluginkey n : Bytes}
    {name : Str} (hk : pluginkey.length = 16) (hname : name.str = some n) (args : List Object) :
    dbFunctionVerify db pluginkey name args = .ok 0 ↔
      ∃ types, sigs pluginkey (cstr n) = some types ∧ args.length = types.length ∧
        Matches (types.drop (types.length - checked types.length)) (args.take (checked types.length)) := by
  unfold dbFunctionVerify
  rw [dbFunctionExists_spec h hk hname]
  cases hsig : sigs pluginkey (cstr n) with
  | none =>
      refine iff_of_false (fun hok => nomatch hok) ?_
      rintro ⟨types, hnone, -⟩
      cases hnone
  | some types =>
      obtain ⟨rc, hcheck, hvalue, hiff⟩ := dbFunctionTypecheck_spec h hk hname hsig args
      simp only [Option.some.injEq, exists_eq_left']
      rw [← hiff]
      dsimp only [bind, Except.bind, Option.isSome]
      rw [if_neg (by decide), hcheck]
      dsimp only
      rcases hvalue with rfl | rfl
      · exact iff_of_true rfl rfl
      · exact iff_of_false (by decide) (by decide)

/-- An argument of the type, and one of another type. -/
def ObjectType.sample : ObjectType → Object
  | .nil => .nil
  | .int => .integer 0
  | .uint => .uinteger 0
  | .bool => .boolean true
  | .float => .floating 0
  | .str => .string ⟨none, 0⟩
  | .array => .array []
  | .dictionary => .dictionary []

def ObjectType.other : ObjectType → Object
  | .nil => .boolean true
  | _ => .nil

theorem takes_sample (type : ObjectType) : type.takes type.sample = true := by
  cases type <;> rfl

theorem not_takes_other (type : ObjectType) : ¬ type.takes type.other = true := by
  cases type <;> decide

/-- Arguments that are compared with the wrong types: the first `m` fit the last types, the others nothing. -/
def shifted (types : List ObjectType) (m : Nat) : List Object :=
  (types.drop (types.length - m)).map ObjectType.sample ++ (types.drop m).map ObjectType.other

theorem shifted_spec {types : List ObjectType} {m : Nat} (hm : m < types.length) :
    (shifted types m).length = types.length ∧
      Matches (types.drop (types.length - m)) ((shifted types m).take m) ∧
      ¬ Matches types (shifted types m) := by
  have hfront : ((types.drop (types.length - m)).map ObjectType.sample).length = m := by
    rw [List.length_map, List.length_drop]
    omega
  refine ⟨?_, ?_, ?_⟩
  · rw [shifted, List.length_append, hfront, List.length_map, List.length_drop]
    omega
  · rw [shifted, List.take_left' hfront]
    unfold Matches
    rw [List.forall₂_map_right_iff, List.forall₂_same]
    exact fun type _ => takes_sample type
  · intro hmatches
    have hrest := List.forall₂_drop m hmatches
    rw [shifted, List.drop_left' hfront, List.forall₂_map_right_iff, List.forall₂_same] at hrest
    obtain ⟨type, htype⟩ := List.exists_mem_of_length_pos (show 0 < (types.drop m).length by
      rw [List.length_drop]
      omega)
    exact not_takes_other type (hrest type htype)

theorem matches_length {types : List ObjectType} {args : List Object} (h : Matches types args) :
    args.length = types.length := (List.Forall₂.length_eq h).symm

/-- **The last registration decides, as long as its number of arguments survives.** `LRANGE` is given the
number as an `int`: from 2³¹ on all arguments are compared only when the low 32 bits are all set. -/
theorem signatures_verified_iff {calls : List AddCall} {db : Database} (hkeys : ∀ c ∈ calls, c.1.length = 16)
    (hrun : addAll emptyDatabase calls = some db) (pluginkey : Bytes) {n : Bytes} (name : Str)
    (hk : pluginkey.length = 16) (hname : name.str = some n) :
    (∀ args, dbFunctionVerify db pluginkey name args = .ok 0 ↔
        ∃ types, lastSignature calls pluginkey (cstr n) = some types ∧ Matches types args) ↔
      ∀ types, lastSignature calls pluginkey (cstr n) = some types →
        types.length < 2 ^ 31 ∨ types.length % 2 ^ 32 = 2 ^ 32 - 1 := by
  have hholds : Holds db (lastSignature calls) := addAll_holds calls holds_empty hkeys hrun
  simp only [dbFunctionVerify_iff hholds hk hname, ← checked_eq_iff]
  constructor
  · intro h types hsig
    -- Where fewer are compared than declared, shift the types: what is compared still fits, what matches does
    -- not.
    by_contra hne
    have hlt : checked types.length < types.length := Nat.lt_of_le_of_ne (Nat.min_le_left _ _) hne
    obtain ⟨hlen, hlast, hwrong⟩ := shifted_spec hlt
    obtain ⟨types', hsig', hmatches⟩ := (h (shifted types (checked types.length))).mp ⟨types, hsig, hlen, hlast⟩
    rw [hsig] at hsig'
    cases hsig'
    exact hwrong hmatches
  · intro h args
    refine exists_congr fun types => and_congr_right fun hsig => ?_
    rw [h types hsig, Nat.sub_self, List.drop_zero]
    constructor
    · rintro ⟨hlen, hmatches⟩
      rw [← hlen, List.take_length] at hmatches
      exact hmatches
    · intro hmatches
      have hlen := matches_length hmatches
      rw [← hlen, List.take_length]
      exact ⟨rfl, hmatches⟩

/-- A plugin key, and another one. -/
def Sample.registrant : Bytes := List.replicate 16 48

def Sample.otherkey : Bytes := List.replicate 16 49

/-- The function `f` with the description `d`. -/
def Sample.function (args : List Object) : List Object :=
  [.string ⟨some [102], 1⟩, .string ⟨some [100], 1⟩, .array args]

/-- `f` with a string, `f` of another plugin, and then `f` with an integer. -/
def Sample.registrations : List AddCall :=
  [(Sample.registrant, Sample.function [.string ⟨none, 0⟩, .nil]), (Sample.otherkey, Sample.function []),
    (Sample.registrant, Sample.function [.integer 0])]

/-- An unsigned 5 is verified for the second registration; the first is forgotten. -/
theorem signatures_verified_sample :
    ∃ db, addAll emptyDatabase Sample.registrations = some db ∧
      lastSignature Sample.registrations Sample.registrant [102] = some [.int] ∧
      dbFunctionVerify db Sample.registrant ⟨some [102], 1⟩ [.uinteger 5] = .ok 0 ∧
      dbFunctionVerify db Sample.registrant ⟨some [102], 1⟩ [.string ⟨none, 0⟩, .nil] ≠ .ok 0 := by
  have hsome : (addAll emptyDatabase Sample.registrations).isSome = true := by decide +kernel
  obtain ⟨db, hrun⟩ := Option.isSome_iff_exists.mp hsome
  have hsig : lastSignature Sample.registrations Sample.registrant [102] = some [.int] := by decide +kernel
  have hverify := (signatures_verified_iff (by decide) hrun Sample.registrant ⟨some [102], 1⟩ rfl rfl).mpr (by
      intro types htypes
      rw [show cstr [102] = [102] from rfl, hsig] at htypes
      cases htypes
      exact Or.inl (by decide))
  refine ⟨db, hrun, hsig, (hverify [.uinteger 5]).mpr ⟨[.int], hsig, ?_⟩, fun h => ?_⟩
  · exact List.Forall₂.cons rfl List.Forall₂.nil
  · obtain ⟨types, htypes, hmatches⟩ := (hverify _).mp h
    rw [show cstr [102] = [102] from rfl, hsig] at htypes
    cases htypes
    exact absurd (matches_length hmatches) (by decide)

theorem shifted_nils {n : Nat} (h : 1 ≤ n) :
    shifted (List.replicate n .nil) 1 = .nil :: List.replicate (n - 1) (.boolean true) := by
  simp [shifted, show n - (n - 1) = 1 by omega, ObjectType.sample, ObjectType.other]

/-- Of 2³¹ arguments one is compared. -/
theorem uncompared_arguments_verified :
    ∃ db, addAll emptyDatabase [(Sample.registrant, Sample.function (List.replicate (2 ^ 31) .nil))] = some db ∧
      dbFunctionVerify db Sample.registrant ⟨some [102], 1⟩
      (.nil :: List.replicate (2 ^ 31 - 1) (.boolean true)) =
        .ok 0 ∧
      ¬ ∃ types, lastSignature [(Sample.registrant, Sample.function (List.replicate (2 ^ 31) .nil))]
          Sample.registrant [102] = some types ∧
        Matches types (.nil :: List.replicate (2 ^ 31 - 1) (.boolean true)) := by
  -- The count is kept apart as `n`: it must never be written out as a numeral of lists.
  have hone : checked (2 ^ 31) = 1 := by decide
  generalize hn : 2 ^ 31 = n at hone ⊢
  have hpos : 1 < n := by omega
  have hsig :
      lastSignature [(Sample.registrant, Sample.function (List.replicate n .nil))] Sample.registrant [102] =
      some (List.replicate n .nil) := by
    simp [lastSignature, AddCall.signature, declared, Sample.function, cstr, Object.type]
  have hadded : ∃ db', addFunction emptyDatabase Sample.registrant ⟨some [102], 1⟩ ⟨some [100], 1⟩
      (.array (List.replicate n .nil)) = .ok (0, db') ∧
        Added emptyDatabase db' Sample.registrant (cstr [102])
        ((List.replicate n Object.nil).map Object.type) :=
    addFunction_added (holds_empty.kinds _ _) rfl rfl _
  obtain ⟨db, hadd, hadded⟩ := hadded
  have hholds := hadded.holds holds_empty rfl
  have hrun : addAll emptyDatabase [(Sample.registrant, Sample.function (List.replicate n .nil))] =
      some db := by
    have hadd' : dbFunctionAdd emptyDatabase Sample.registrant (Sample.function (List.replicate n .nil)) =
        .ok (0, db) :=
      hadd
    rw [addAll, hadd']
    rfl
  have htypes : Signatures.register (lastSignature []) Sample.registrant (cstr [102])
      ((List.replicate n Object.nil).map Object.type) Sample.registrant (cstr [102]) =
      some (List.replicate n .nil) := by
    simp [Signatures.register, Object.type]
  have hlt : 1 < (List.replicate n ObjectType.nil).length := by
    rw [List.length_replicate]
    exact hpos
  obtain ⟨hlen, hlast, hwrong⟩ := shifted_spec hlt
  rw [shifted_nils (by omega)] at hlen hlast hwrong
  refine ⟨db, hrun, ?_, ?_⟩
  · refine (dbFunctionVerify_iff hholds rfl rfl _).mpr ⟨_, htypes, hlen, ?_⟩
    rw [List.length_replicate, hone]
    rw [List.length_replicate] at hlast
    exact hlast
  · rintro ⟨types, hsig', hmatches⟩
    rw [hsig] at hsig'
    cases hsig'
    exact hwrong hmatches

/-! ## §5 What a refused registration leaves behind -/

/-- `db_function_typecheck` reads the list and nothing else. -/
theorem dbFunctionTypecheck_congr {db db' : Database} {pluginkey : Bytes} {name name' : Str}
    (hname : name'.cstring = name.cstring) (h : ∀ f, db' (argsKey pluginkey f) = db (argsKey pluginkey f))
    (args : List Object) :
    dbFunctionTypecheck db' pluginkey name' args = dbFunctionTypecheck db pluginkey name args := by
  unfold dbFunctionTypecheck dbFunctionGetArgc llen lrange
  rw [hname]
  simp only [h]

/-- The verdict when the name is known, and when it is not. -/
theorem dbFunctionVerify_known {db : Database} {pluginkey n : Bytes} {name : Str}
    (hset : IsSet db (functionsKey pluginkey)) (hname : name.str = some n)
    (hmem : cstr n ∈ members db (functionsKey pluginkey)) (args : List Object) :
    dbFunctionVerify db pluginkey name args =
      (dbFunctionTypecheck db pluginkey name args).map fun rc => if rc = -1 then -1 else 0 := by
  unfold dbFunctionVerify
  rw [dbFunctionExists_iff hset hname, decide_eq_true hmem]
  dsimp only [bind, Except.bind]
  rw [if_neg (by decide)]
  cases dbFunctionTypecheck db pluginkey name args with
  | error e => rfl
  | ok rc =>
      dsimp only [Except.map]
      split <;> rfl

theorem dbFunctionVerify_unknown {db : Database} {pluginkey n : Bytes} {name : Str}
    (hset : IsSet db (functionsKey pluginkey)) (hname : name.str = some n)
    (hmem : cstr n ∉ members db (functionsKey pluginkey)) (args : List Object) :
    dbFunctionVerify db pluginkey name args = .ok (-1) := by
  unfold dbFunctionVerify
  rw [dbFunctionExists_iff hset hname, decide_eq_false hmem]
  rfl

/-- A database that differs in the names of one plugin gives the others the same verdicts. -/
theorem dbFunctionVerify_congr {db db' : Database} {pluginkey : Bytes} {name : Str}
    (hnames : db' (functionsKey pluginkey) = db (functionsKey pluginkey))
    (hargs : ∀ f, db' (argsKey pluginkey f) = db (argsKey pluginkey f)) (args : List Object) :
    dbFunctionVerify db' pluginkey name args = dbFunctionVerify db pluginkey name args := by
  unfold dbFunctionVerify dbFunctionExists sismember
  rw [hnames, dbFunctionTypecheck_congr rfl hargs]

/-- **The verdicts after `SADD`** are those before, unless the name is new and there are arguments that pass. -/
theorem sadd_verdicts_iff {db : Database} {pluginkey n : Bytes} {name : Str} (h : Kinds db pluginkey (cstr n))
    (hname : name.str = some n) :
    (∀ pluginkey' name' args,
      dbFunctionVerify (sadd db (functionsKey pluginkey) (cstr n)).2 pluginkey' name' args =
        dbFunctionVerify db pluginkey' name' args) ↔
      (cstr n ∈ members db (functionsKey pluginkey) ∨ ∀ args, dbFunctionTypecheck db pluginkey name args =
        .ok (-1)) := by
  obtain ⟨-, hset', hmembers'⟩ := sadd_spec h.isSet (cstr n)
  have hother : ∀ key, key ≠ functionsKey pluginkey →
      (sadd db (functionsKey pluginkey) (cstr n)).2 key = db key :=
    fun _ hkey => sadd_ne hkey
  generalize (sadd db (functionsKey pluginkey) (cstr n)).2 = db' at hset' hmembers' hother ⊢
  have hargs : ∀ k f, db' (argsKey k f) = db (argsKey k f) := by
    intro k f
    exact hother _ (functionsKey_ne_argsKey _ _ _).symm
  -- a name that was there, or another one
  have hsame : ∀ k name' args, (∀ n', k = pluginkey → name'.str = some n' → cstr n' = cstr n →
      cstr n' ∈ members db (functionsKey pluginkey)) →
      dbFunctionVerify db' k name' args = dbFunctionVerify db k name' args := by
    intro k name' args hold
    by_cases hk : k = pluginkey
    · subst hk
      cases hname' : name'.str with
      | none =>
          have hnull : name'.cstring = .error .nullPointer := by
            unfold Str.cstring
            rw [hname']
          unfold dbFunctionVerify dbFunctionExists
          rw [hnull]
          rfl
      | some n' =>
          by_cases hmem' : cstr n' ∈ members db (functionsKey k)
          · rw [dbFunctionVerify_known hset' hname' ((hmembers' _).mpr (Or.inr hmem')),
              dbFunctionVerify_known h.isSet hname' hmem', dbFunctionTypecheck_congr rfl (hargs k)]
          · have hnew : cstr n' ∉ members db' (functionsKey k) := by
              rw [hmembers']
              rintro (heq | hmem)
              · exact hmem' (hold n' rfl hname' heq)
              · exact hmem' hmem
            rw [dbFunctionVerify_unknown hset' hname' hnew, dbFunctionVerify_unknown h.isSet hname' hmem']
    · exact dbFunctionVerify_congr (hother _ fun heq => hk (functionsKey_inj heq)) (hargs k) args
  by_cases hmem : cstr n ∈ members db (functionsKey pluginkey)
  · refine iff_of_true (fun k name' args => hsame k name' args ?_) (Or.inl hmem)
    intro n' _ _ heq
    rw [heq]
    exact hmem
  · rw [or_iff_right hmem]
    have hknown : ∀ name' n', name'.str = some n' → cstr n' = cstr n → ∀ args,
        dbFunctionVerify db' pluginkey name' args =
          (dbFunctionTypecheck db pluginkey name args).map fun rc => if rc = -1 then -1 else 0 := by
      intro name' n' hname' heq args
      have hcstring : name'.cstring = name.cstring := by
        rw [cstring_of_some hname', cstring_of_some hname, heq]
      rw [dbFunctionVerify_known hset' hname' ((hmembers' _).mpr (Or.inl heq)),
        dbFunctionTypecheck_congr hcstring (hargs pluginkey)]
    constructor
    · intro hall args
      have hverdict := hall pluginkey name args
      rw [hknown name n hname rfl, dbFunctionVerify_unknown h.isSet hname hmem] at hverdict
      obtain ⟨rc, hcheck, hvalue, -⟩ := dbFunctionTypecheck_items h.isList hname rfl args
      rw [hcheck] at hverdict ⊢
      rcases hvalue with rfl | rfl
      · cases hverdict
      · rfl
    · intro hfail k name' args
      by_cases hcase : ∃ n', k = pluginkey ∧ name'.str = some n' ∧ cstr n' = cstr n
      · obtain ⟨n', rfl, hname', heq⟩ := hcase
        have hmem' : cstr n' ∉ members db (functionsKey k) := by
          rw [heq]
          exact hmem
        rw [hknown name' n' hname' heq, hfail args, dbFunctionVerify_unknown h.isSet hname' hmem']
        rfl
      · exact hsame k name' args fun n' hk hname' heq => absurd ⟨n', hk, hname', heq⟩ hcase

/-- **A refused function registers nothing, except one without a description.** Its name is in the set by
then; with the list it has, there may be arguments that pass. -/
theorem rejected_function_unregistered_iff {db db' : Database} {pluginkey : Bytes} {func : List Object}
    (hkinds : ∀ name n rest, func = .string name :: rest → name.str = some n → Kinds db pluginkey (cstr n))
    (hrejected : dbFunctionAdd db pluginkey func = .ok (-1, db')) :
    (∀ pluginkey' name' args,
        dbFunctionVerify db' pluginkey' name' args = dbFunctionVerify db pluginkey' name' args) ↔
      ∀ name n desc args rest, func = .string name :: .string desc :: args :: rest → name.str = some n →
        1 ≤ name.length → name.length ≤ 255 → desc.str = none →
        cstr n ∈ members db (functionsKey pluginkey) ∨ ∀ a, dbFunctionTypecheck db pluginkey name a =
        .ok (-1) := by
  unfold dbFunctionAdd at hrejected
  split at hrejected
  · next name desc args rest =>
      split at hrejected
      · next hlength =>
          cases hrejected
          refine iff_of_true (fun _ _ _ => rfl) ?_
          intro name' n' desc' args' rest' heq _ hmin hmax
          cases heq
          exact absurd hlength (by unfold funcMinLenName funcMaxLenName; omega)
      · next hlength =>
          cases hname : name.str with
          | none =>
              rw [addFunction_null_name hname] at hrejected
              cases hrejected
          | some n =>
              have hk := hkinds name n _ rfl hname
              cases hdesc : desc.str with
              | none =>
                  -- The name is in the set already when the missing description is found.
                  rw [addFunction_null_desc hname hdesc] at hrejected
                  cases hrejected
                  rw [sadd_verdicts_iff hk hname]
                  constructor
                  · intro hverdicts name' n' desc' args' rest' heq hname' _ _ _
                    cases heq
                    rw [hname] at hname'
                    cases hname'
                    exact hverdicts
                  · intro hverdicts
                    unfold funcMinLenName funcMaxLenName at hlength
                    exact hverdicts name n desc args rest rfl hname (by omega) (by omega) hdesc
              | some d =>
                  -- With both strings there the function is added, or the process stops: nothing is rejected.
                  exfalso
                  cases args with
                  | array args =>
                      obtain ⟨db'', hadd, -⟩ := addFunction_added hk hname hdesc args
                      rw [hadd] at hrejected
                      cases hrejected
                  | _ =>
                      rw [addFunction_eq hk hname hdesc] at hrejected
                      obtain ⟨rc, hflush⟩ :=
                        dbFunctionFlushArgs_spec (hset (sadd db (functionsKey pluginkey) (cstr n)).2
                        (metaKey pluginkey (cstr n)) (ascii ['d', 'e', 's', 'c']) (cstr d)).2 pluginkey hname
                      unfold addSignature at hrejected
                      rw [hflush] at hrejected
                      cases hrejected
  · next hshape =>
      cases hrejected
      refine iff_of_true (fun _ _ _ => rfl) ?_
      intro name n desc args rest heq
      exact absurd heq (hshape name desc args rest)

/-- `f` without a description, when it has been registered before: the verdicts stay. -/
theorem rejected_function_unregistered_sample :
    ∃ db db', addAll emptyDatabase Sample.registrations = some db ∧
      dbFunctionAdd db Sample.registrant [.string ⟨some [102], 1⟩, .string ⟨none, 0⟩, .array []] =
      .ok (-1, db') ∧
      ∀ pluginkey name args, dbFunctionVerify db' pluginkey name args =
      dbFunctionVerify db pluginkey name args := by
  have hsome : (addAll emptyDatabase Sample.registrations).isSome = true := by decide +kernel
  obtain ⟨db, hrun⟩ := Option.isSome_iff_exists.mp hsome
  have hholds : Holds db (lastSignature Sample.registrations) := addAll_holds _ holds_empty (by decide) hrun
  have hmem : cstr [102] ∈ members db (functionsKey Sample.registrant) :=
    (hholds.names Sample.registrant (cstr [102]) rfl).mpr (by decide +kernel)
  have hrejected : dbFunctionAdd db Sample.registrant [.string ⟨some [102], 1⟩, .string ⟨none, 0⟩, .array []] =
      .ok (-1, (sadd db (functionsKey Sample.registrant) (cstr [102])).2) := by
    show addFunction db Sample.registrant ⟨some [102], 1⟩ ⟨none, 0⟩ (.array []) = _
    exact addFunction_null_desc rfl rfl
  refine ⟨db, _, hrun, hrejected, ?_⟩
  refine (rejected_function_unregistered_iff (fun _ n _ _ _ =>
    hholds.kinds Sample.registrant (cstr n)) hrejected).mpr ?_
  intro name n desc args rest heq hname _ _ _
  cases heq
  cases hname
  exact Or.inl hmem

/-- A new function without a description is refused, and may be run. -/
theorem undescribed_function_verified :
    ∃ db, dbFunctionAdd emptyDatabase Sample.registrant [.string ⟨some [102], 1⟩, .string ⟨none, 0⟩,
      .array []] =
        .ok (-1, db) ∧
      dbFunctionVerify emptyDatabase Sample.registrant ⟨some [102], 1⟩ [] = .ok (-1) ∧
      dbFunctionVerify db Sample.registrant ⟨some [102], 1⟩ [] = .ok 0 := ⟨_, rfl, rfl, rfl⟩

end SploneBox
