/-
# SploneBox.Options — the options of a configuration text, `options.c`.

`options_init_from_string` reads the lines of a text, assigns them to new options, validates these, and
publishes them as `global_options`. What the lines should do needs no passes: the value of an option is what
its last line says (`lastValue`), and a line belongs to the option its key names (`optionOf`).
`options_semantics` says that the three passes come to that. A key may not be empty, although the empty key is
the beginning of every name.
-/
import SploneBox.LineParser
import SploneBox.Address

namespace SploneBox.Options

open Confparse Parse Address

universe u v

/-! ## §1 The table -/

/-- The options, in the order of `option_vars_`. -/
inductive Name where
  | apiTransportListen | apiNamedPipeListen | redisDatabaseListen | redisDatabaseAuth | contactInfo
deriving DecidableEq

/-- `option_abbrevs_`. -/
def optionAbbrevs : List Configabbrev :=
  [⟨ascii ['C', 'o', 'n', 't', 'a', 'c', 't'],
    ascii ['C', 'o', 'n', 't', 'a', 'c', 't', 'I', 'n', 'f', 'o'], false⟩]

/-- `option_vars_`, with the offsets in `options`. -/
def Name.var : Name → Configvar
  | .apiTransportListen =>
      ⟨ascii ['A', 'p', 'i', 'T', 'r', 'a', 'n', 's', 'p', 'o', 'r', 't', 'L', 'i', 's', 't', 'e', 'n'],
        .string, 8, none⟩
  | .apiNamedPipeListen =>
      ⟨ascii ['A', 'p', 'i', 'N', 'a', 'm', 'e', 'd', 'P', 'i', 'p', 'e', 'L', 'i', 's', 't', 'e', 'n'],
        .filename, 80, none⟩
  | .redisDatabaseListen =>
      ⟨ascii ['R', 'e', 'd', 'i', 's', 'D', 'a', 't', 'a', 'b', 'a', 's', 'e', 'L', 'i', 's', 't', 'e', 'n'],
        .string, 40, none⟩
  | .redisDatabaseAuth =>
      ⟨ascii ['R', 'e', 'd', 'i', 's', 'D', 'a', 't', 'a', 'b', 'a', 's', 'e', 'A', 'u', 't', 'h'],
        .string, 72, none⟩
  | .contactInfo => ⟨ascii ['C', 'o', 'n', 't', 'a', 'c', 't', 'I', 'n', 'f', 'o'], .string, 96, none⟩

/-- The order of the table. -/
def Name.table : List Name :=
  [.apiTransportListen, .apiNamedPipeListen, .redisDatabaseListen, .redisDatabaseAuth, .contactInfo]

/-- `options_format`. -/
def optionsFormat : Configformat := ⟨optionAbbrevs, Name.table.map Name.var, none⟩

/-! ## §2 `options_init_from_string` -/

/-- `server_type`. -/
inductive ServerType where
  | tcp | pipe | unknown
deriving DecidableEq

/-- `setoptionerror`, without the values nobody returns. -/
inductive SetOptionError where
  | ok | misc | parse
deriving DecidableEq

/-- `options`: the variables of the format at their offsets, and what `options_validate` sets. -/
structure Options (D : Type u) (A : Type v) where
  vars : Store D
  apiTransportListenAddr : A
  apiTransportListenPort : UInt16
  redisDatabaseListenAddr : A
  redisDatabaseListenPort : UInt16
  apitype : ServerType

variable {D : Type u} {A : Type v}

/-- The value of an option. -/
def Options.value (o : Options D A) (name : Name) : Option Bytes := (o.vars name.var.varOffset).asStr

/-- `CALLOC(1, options)`. -/
def calloc (null : A) : Options D A := ⟨fun _ => .str none, null, 0, null, 0, .tcp⟩

/-- `options_init`. -/
def optionsInit (F : Doubles D) (o : Options D A) : Option (Options D A) :=
  (confparseInit F optionsFormat o.vars).map fun vars => { o with vars }

/-- What `options_validate` does when `ApiTransportListen` is set. `resolve` is `box_getaddrinfo`. -/
def validateApi (resolve : Bytes → Option A) (o : Options D A) : Int × Options D A :=
  match o.value .apiTransportListen with
  | none => (0, o)
  | some s =>
      let (r, addr, port) :=
        boxAddrPortLookup resolve s o.apiTransportListenAddr (some o.apiTransportListenPort)
      let o := { o with apiTransportListenAddr := addr, apiTransportListenPort := port.getD 0 }
      if r < 0 then (-1, o) else (0, { o with apitype := .tcp })

/-- What it does when `RedisDatabaseListen` is. -/
def validateRedis (resolve : Bytes → Option A) (o : Options D A) : Int × Options D A :=
  match o.value .redisDatabaseListen with
  | none => (0, o)
  | some s =>
      let (r, addr, port) :=
        boxAddrPortLookup resolve s o.redisDatabaseListenAddr (some o.redisDatabaseListenPort)
      let o := { o with redisDatabaseListenAddr := addr, redisDatabaseListenPort := port.getD 0 }
      if r < 0 then (-1, o) else (0, o)

/-- `options_validate`. -/
def optionsValidate (resolve : Bytes → Option A) (o : Options D A) : Int × Options D A :=
  if (o.value .apiTransportListen).isSome && (o.value .apiNamedPipeListen).isSome then (-1, o)
  else
    match validateApi resolve o with
    | (r, o) =>
        if r < 0 then (-1, o)
        else
          match validateRedis resolve o with
          | (r, o) =>
              if r < 0 then (-1, o)
              else if (o.value .apiNamedPipeListen).isSome then (0, { o with apitype := .pipe })
              else (0, o)

/-- `options_init_from_string`: what it returns, and `global_options`. -/
def optionsInitFromString (F : Doubles D) (null : A) (resolve : Bytes → Option A)
    (globalOptions : Option (Options D A)) (cf : Option Bytes) :
    Option (SetOptionError × Option (Options D A)) :=
  (optionsInit F (calloc null)).bind fun newoptions =>
    match cf with
    | none => some (.misc, globalOptions)
    | some body =>
        (confparseGetLines body true).bind fun (retval, cl) =>
          if retval < 0 then some (.parse, globalOptions)
          else
            (confparseAssign F optionsFormat newoptions.vars (cl.getD []) false false).bind fun (retval,
              vars) =>
              if retval < 0 then some (.parse, globalOptions)
              else
                let (retval, newoptions) := optionsValidate resolve { newoptions with vars }
                if retval < 0 then some (.parse, globalOptions) else some (.ok, some newoptions)

/-! ## §3 What a configuration says -/

/-- The key after the alias `Contact`. -/
def aliased (key : Bytes) : Bytes :=
  if caseEq key (ascii ['C', 'o', 'n', 't', 'a', 'c', 't']) then Name.contactInfo.var.name else key

/-- The key is the beginning of the name, in any case. -/
def beginsName (key : Bytes) (name : Name) : Bool := (key.map toLower).isPrefixOf (name.var.name.map toLower)

/-- The option a key names: exactly, or else the first one whose name begins with the key. -/
def optionOf (key : Bytes) : Option Name :=
  match Name.table.find? fun name => caseEq key name.var.name with
  | some name => some name
  | none => Name.table.find? (beginsName key)

/-- The lines of an option. -/
def linesOf (name : Name) (ls : List Configline) : List Configline :=
  ls.filter fun l => optionOf (aliased l.key) = some name

/-- What a line says: nothing, if it is empty or clears. -/
def said (l : Configline) : Option Bytes := if l.value = [] ∨ l.command = .clear then none else some l.value

/-- What the last line of an option says. -/
def lastValue (name : Name) (ls : List Configline) : Option Bytes := (linesOf name ls).getLast?.bind said

/-- The address that is set resolves, if one is set. -/
def Resolves (resolve : Bytes → Option A) (value : Option Bytes) : Prop :=
  ∀ s ∈ value, ∀ addr port, (boxAddrPortLookup resolve s addr (some port)).1 = 0

/-- What a configuration has to be besides its keys. -/
def Valid (resolve : Bytes → Option A) (value : Name → Option Bytes) : Prop :=
  ¬ (value .apiTransportListen ≠ none ∧ value .apiNamedPipeListen ≠ none) ∧
    Resolves resolve (value .apiTransportListen) ∧ Resolves resolve (value .redisDatabaseListen)

/-- The text is accepted: `Named` says which keys are. -/
def Accepted (Named : Bytes → Prop) (resolve : Bytes → Option A) (s : Bytes) : Prop :=
  ∃ ls, confparseGetLines s true = some (0, some ls) ∧ (∀ l ∈ ls, Named l.key) ∧
    Valid resolve fun name => lastValue name ls

/-- The semantics of configurations: what is accepted, what the options are then, and that nothing is
published otherwise. -/
def Semantics (Named : Bytes → Prop) (F : Doubles D) (null : A) : Prop :=
  ∀ (resolve : Bytes → Option A) (globalOptions : Option (Options D A)) (s : Bytes), 0 ∉ s →
    ∃ r published, optionsInitFromString F null resolve globalOptions (some s) = some (r, published) ∧
      (r = .ok ↔ Accepted Named resolve s) ∧
      (r = .ok → ∃ o ls, published = some o ∧ confparseGetLines s true = some (0, some ls) ∧
        ∀ name, o.value name = lastValue name ls) ∧
      (r ≠ .ok → published = globalOptions)

/-! ## §4 Keys and lines -/

theorem expandAbbrev_eq (key : Bytes) : expandAbbrev optionsFormat key false = aliased key := by
  unfold expandAbbrev aliased
  simp [optionsFormat, optionAbbrevs, Name.var]

theorem aliased_eq_nil {key : Bytes} : aliased key = [] ↔ key = [] := by
  unfold aliased
  split
  · next h =>
      constructor
      · exact fun hnil => absurd hnil (by decide)
      · rintro rfl
        exact absurd h (by decide)
  · rfl

theorem caseEqN_eq (key : Bytes) (name : Name) :
    caseEqN key name.var.name key.length = beginsName key name := by
  unfold caseEqN beginsName
  rw [List.take_length, Bool.eq_iff_iff, beq_iff_eq, List.isPrefixOf_iff_prefix, List.prefix_iff_eq_take,
    List.length_map, List.map_take]

/-- `find_option_mutable` finds what a key that is not empty names. -/
theorem findOption_eq (key : Bytes) :
    findOption optionsFormat key = if key = [] then none else (optionOf key).map Name.var := by
  unfold findOption optionOf
  by_cases hkey : key = []
  · simp [hkey]
  · rw [if_neg (by simpa using hkey), if_neg hkey]
    have hcanonical : (optionsFormat.vars.find? fun var => caseEq key var.name) =
        (Name.table.find? fun name => caseEq key name.var.name).map Name.var := List.find?_map ..
    have hbegins : (optionsFormat.vars.find? fun var => caseEqN key var.name key.length) =
        (Name.table.find? (beginsName key)).map Name.var := by
      have hname : ((fun var : Configvar => caseEqN key var.name key.length) ∘ Name.var) = beginsName key :=
        funext fun name => caseEqN_eq key name
      rw [← hname]
      exact List.find?_map ..
    rw [hcanonical, hbegins]
    cases Name.table.find? fun name => caseEq key name.var.name <;> rfl

/-- A canonical key names its option. -/
theorem findOption_name (name : Name) : findOption optionsFormat name.var.name = some name.var := by
  cases name <;> rfl

theorem type_name (name : Name) : name.var.type = .string ∨ name.var.type = .filename := by
  cases name <;> decide

theorem varOffset_inj {name name' : Name} (h : name.var.varOffset = name'.var.varOffset) : name = name' := by
  revert h
  cases name <;> cases name' <;> decide

section
variable {F : Doubles D} {vars : Store D}

theorem clear_name (name : Name) :
    clear F vars name.var = Function.update vars name.var.varOffset (.str none) := by
  unfold clear
  rcases type_name name with h | h <;> rw [h]

theorem assignValue_name (name : Name) (c : Configline) :
    assignValue F optionsFormat vars { c with key := name.var.name } =
      some (0, Function.update vars name.var.varOffset (.str (some c.value))) := by
  unfold assignValue
  rw [findOption_name]
  rcases type_name name with h | h <;> simp [h]

/-- **A line sets its option to what it says.** -/
theorem assignLine_named {name : Name} {c : Configline} (h : findOption optionsFormat c.key = some name.var)
    (hclear : c.command = .clear → c.value = []) :
    assignLine F optionsFormat vars c false false =
      some (0, Function.update vars name.var.varOffset (.str (said c))) := by
  have hlist : ¬ ((name.var.type = .linelist ∨ name.var.type = .linelistS) ∧ c.command ≠ .clear) := by
    rcases type_name name with h | h <;> simp [h]
  unfold assignLine
  rw [h]
  by_cases hempty : c.value = []
  · have hsaid : said c = none := if_pos (Or.inl hempty)
    simp [hempty, hlist, reset, clear_name, hsaid]
  · have hcommand : c.command ≠ .clear := fun hc => hempty (hclear hc)
    have hsaid : said c = some c.value := if_neg (by simp [hempty, hcommand])
    simp [hempty, hcommand, assignValue_name, hsaid]

theorem assignLine_unnamed {c : Configline} (h : findOption optionsFormat c.key = none) :
    assignLine F optionsFormat vars c false false = some (-1, vars) := by
  unfold assignLine
  rw [h]
  rfl

/-- The keys that are accepted: those that name an option, without the empty one. -/
def Named (key : Bytes) : Prop := key ≠ [] ∧ optionOf (aliased key) ≠ none

theorem findOption_aliased {key : Bytes} : findOption optionsFormat (aliased key) ≠ none ↔ Named key := by
  have hnil := @aliased_eq_nil key
  rw [findOption_eq, Named]
  by_cases hkey : aliased key = []
  · rw [if_pos hkey]
    exact ⟨fun h => absurd rfl h, fun h => absurd (hnil.mp hkey) h.1⟩
  · have hne : key ≠ [] := fun h => hkey (hnil.mpr h)
    simp [hkey, hne]

/-- **The third pass**: the last line of an option wins, and a key that is not accepted stops it. -/
theorem assignLines_spec (ls : List Configline) (hclear : ∀ l ∈ ls, l.command = .clear → l.value = []) :
    ∀ vars : Store D, ((∀ l ∈ ls, Named l.key) → ∃ vars', assignLines F optionsFormat false false
        (ls.map fun p => { p with key := expandAbbrev optionsFormat p.key false }) vars = some (0, vars') ∧
      ∀ name : Name, (vars' name.var.varOffset).asStr =
        ((linesOf name ls).getLast?).elim (vars name.var.varOffset).asStr said) ∧
    (¬ (∀ l ∈ ls, Named l.key) → ∃ vars', assignLines F optionsFormat false false
        (ls.map fun p => { p with key := expandAbbrev optionsFormat p.key false }) vars =
        some (-1, vars')) := by
  induction ls with
  | nil => exact fun vars =>
      ⟨fun _ => ⟨vars, rfl, fun _ => rfl⟩, fun hno => absurd (fun _ h => absurd h List.not_mem_nil) hno⟩
  | cons l ls ih =>
      intro vars
      have ih := ih fun m hm => hclear m (List.mem_cons_of_mem l hm)
      by_cases hnamed : Named l.key
      · obtain ⟨name, hname⟩ := Option.ne_none_iff_exists'.mp hnamed.2
        have hfind : findOption optionsFormat (aliased l.key) = some name.var := by
          rw [findOption_eq, if_neg fun hnil => hnamed.1 (aliased_eq_nil.mp hnil), hname]
          rfl
        have hline : assignLine F optionsFormat vars { l with key := aliased l.key } false false =
            some (0, Function.update vars name.var.varOffset (.str (said l))) :=
          assignLine_named hfind (hclear l List.mem_cons_self)
        have hstep : assignLines F optionsFormat false false
            ((l :: ls).map fun p => { p with key := expandAbbrev optionsFormat p.key false }) vars =
              assignLines F optionsFormat false false
                (ls.map fun p => { p with key := expandAbbrev optionsFormat p.key false })
                (Function.update vars name.var.varOffset (.str (said l))) := by
          rw [List.map_cons, expandAbbrev_eq, assignLines, hline]
          rfl
        rw [hstep]
        obtain ⟨hgood, hbad⟩ := ih (Function.update vars name.var.varOffset (.str (said l)))
        constructor
        · intro hall
          obtain ⟨vars', hassign, hvalues⟩ := hgood fun m hm => hall m (List.mem_cons_of_mem l hm)
          refine ⟨vars', hassign, fun name' => (hvalues name').trans ?_⟩
          by_cases hsame : name' = name
          · subst hsame
            have hlines : linesOf name' (l :: ls) = l :: linesOf name' ls := by simp [linesOf, hname]
            rw [hlines, List.getLast?_cons, Function.update_self]
            cases (linesOf name' ls).getLast? <;> rfl
          · have hlines : linesOf name' (l :: ls) = linesOf name' ls := by
              have hno : ¬ name = name' := fun h => hsame h.symm
              simp [linesOf, hname, hno]
            have hother : name'.var.varOffset ≠ name.var.varOffset := fun h => hsame (varOffset_inj h)
            rw [hlines, Function.update_of_ne hother]
        · intro hno
          apply hbad
          intro hall
          apply hno
          intro m hm
          rcases List.mem_cons.mp hm with rfl | hm
          · exact hnamed
          · exact hall m hm
      · have hfind : findOption optionsFormat (aliased l.key) = none := by
          by_contra hsome
          exact hnamed (findOption_aliased.mp hsome)
        have hline :
            assignLine F optionsFormat vars { l with key := aliased l.key } false false = some (-1, vars) :=
          assignLine_unnamed hfind
        refine ⟨fun hall => absurd (hall l List.mem_cons_self) hnamed, fun _ => ⟨vars, ?_⟩⟩
        rw [List.map_cons, expandAbbrev_eq, assignLines, hline]
        rfl

/-! ## §5 The passes together -/

theorem markListsFragile_eq : markListsFragile optionsFormat vars = vars := by
  unfold markListsFragile
  simp [optionsFormat, Name.table, Name.var]

theorem confparseInit_eq : confparseInit F optionsFormat vars = some vars := by
  unfold confparseInit
  simp [optionsFormat, Name.table, Name.var]

/-- The return value of a lookup does not depend on what is in `*addr_out` and `*port_out`. -/
theorem lookup_returns (resolve : Bytes → Option A) (s : Bytes) (addr addr' : A) (port port' : UInt16) :
    (boxAddrPortLookup resolve s addr (some port)).1 = (boxAddrPortLookup resolve s addr' (some port')).1 ∧
      ((boxAddrPortLookup resolve s addr (some port)).1 = 0 ∨
        (boxAddrPortLookup resolve s addr (some port)).1 = -1) := by
  unfold boxAddrPortLookup
  cases splitAddress (eatWhitespace s) with
  | none => exact ⟨rfl, Or.inr rfl⟩
  | some p =>
      obtain ⟨tmp, text⟩ := p
      cases hresolve : resolve tmp with
      | none => simp [hresolve]
      | some a =>
          cases text with
          | none => simp [hresolve]
          | some text => by_cases hport : portval text = 0 <;> simp [hresolve, hport]

theorem resolves_some {resolve : Bytes → Option A} {s : Bytes} (addr : A) (port : UInt16) :
    Resolves resolve (some s) ↔ (boxAddrPortLookup resolve s addr (some port)).1 = 0 := by
  constructor
  · exact fun h => h s rfl addr port
  · rintro h s' hs' addr' port'
    obtain rfl : s = s' := Option.some.inj hs'
    rw [← h]
    exact (lookup_returns resolve s addr' addr port' port).1

theorem not_resolves {resolve : Bytes → Option A} {s : Bytes} (h : ¬ Resolves resolve (some s)) (addr : A)
    (port : UInt16) :
    (boxAddrPortLookup resolve s addr (some port)).1 = -1 := by
  rcases (lookup_returns resolve s addr addr port port).2 with hok | hbad
  · exact absurd ((resolves_some addr port).mpr hok) h
  · exact hbad

end

theorem validateApi_spec (resolve : Bytes → Option A) (o : Options D A) :
    (validateApi resolve o).2.vars = o.vars ∧
    (Resolves resolve (o.value .apiTransportListen) ∧ (validateApi resolve o).1 = 0 ∨
      ¬ Resolves resolve (o.value .apiTransportListen) ∧ (validateApi resolve o).1 = -1) := by
  unfold validateApi
  cases hvalue : o.value .apiTransportListen with
  | none => exact ⟨rfl, Or.inl ⟨fun _ hs => absurd hs (by simp), rfl⟩⟩
  | some s =>
      by_cases hresolves : Resolves resolve (some s)
      · have hzero := (resolves_some o.apiTransportListenAddr o.apiTransportListenPort).mp hresolves
        exact ⟨by simp [hzero], Or.inl ⟨hresolves, by simp [hzero]⟩⟩
      · have hminus := not_resolves hresolves o.apiTransportListenAddr o.apiTransportListenPort
        exact ⟨by simp [hminus], Or.inr ⟨hresolves, by simp [hminus]⟩⟩

theorem validateRedis_spec (resolve : Bytes → Option A) (o : Options D A) :
    (validateRedis resolve o).2.vars = o.vars ∧
    (Resolves resolve (o.value .redisDatabaseListen) ∧ (validateRedis resolve o).1 = 0 ∨
      ¬ Resolves resolve (o.value .redisDatabaseListen) ∧ (validateRedis resolve o).1 = -1) := by
  unfold validateRedis
  cases hvalue : o.value .redisDatabaseListen with
  | none => exact ⟨rfl, Or.inl ⟨fun _ hs => absurd hs (by simp), rfl⟩⟩
  | some s =>
      by_cases hresolves : Resolves resolve (some s)
      · have hzero := (resolves_some o.redisDatabaseListenAddr o.redisDatabaseListenPort).mp hresolves
        exact ⟨by simp [hzero], Or.inl ⟨hresolves, by simp [hzero]⟩⟩
      · have hminus := not_resolves hresolves o.redisDatabaseListenAddr o.redisDatabaseListenPort
        exact ⟨by simp [hminus], Or.inr ⟨hresolves, by simp [hminus]⟩⟩

theorem value_congr {o o' : Options D A} (h : o'.vars = o.vars) (name : Name) :
    o'.value name = o.value name := by
  rw [Options.value, h]
  rfl

/-- **What is validated**: not both listeners are set, and the addresses resolve. -/
theorem optionsValidate_spec (resolve : Bytes → Option A) (o : Options D A) :
    Valid resolve o.value ∧ (optionsValidate resolve o).1 = 0 ∧ (optionsValidate resolve o).2.vars = o.vars ∨
      ¬ Valid resolve o.value ∧ (optionsValidate resolve o).1 = -1 := by
  unfold optionsValidate
  by_cases hboth : ((o.value .apiTransportListen).isSome && (o.value .apiNamedPipeListen).isSome) = true
  · rw [if_pos hboth]
    refine Or.inr ⟨fun hvalid => hvalid.1 ?_, rfl⟩
    simpa [Option.ne_none_iff_isSome] using hboth
  · have hnot : ¬ (o.value .apiTransportListen ≠ none ∧ o.value .apiNamedPipeListen ≠ none) := by
      simpa [Option.ne_none_iff_isSome] using hboth
    rw [if_neg hboth]
    obtain ⟨hvars, ⟨hapi, hzero⟩ | ⟨hapi, hminus⟩⟩ := validateApi_spec resolve o
    · generalize validateApi resolve o = first at hvars hzero
      obtain ⟨r, o'⟩ := first
      subst hzero
      obtain ⟨hvars', ⟨hdb, hzero'⟩ | ⟨hdb, hminus'⟩⟩ := validateRedis_spec resolve o'
      · rw [value_congr hvars] at hdb
        refine Or.inl ⟨⟨hnot, hapi, hdb⟩, ?_⟩
        have hsame : (validateRedis resolve o').2.vars = o.vars := hvars'.trans hvars
        by_cases hpipe : ((validateRedis resolve o').2.value .apiNamedPipeListen).isSome = true <;>
          simp [hzero', hpipe, hsame]
      · rw [value_congr hvars] at hdb
        refine Or.inr ⟨fun hvalid => hdb hvalid.2.2, ?_⟩
        simp [hminus']
    · refine Or.inr ⟨fun hvalid => hapi hvalid.2.1, ?_⟩
      simp [hminus]

/-! ## §6 Configurations -/

/-- A line that clears has no value. -/
theorem clears_nothing {s : Bytes} {ls : List Configline} (hzero : 0 ∉ s)
    (h : confparseGetLines s true = some (0, some ls)) :
    ∀ l ∈ ls, l.command = .clear → l.value = [] := by
  obtain ⟨lines, e, -, hlines⟩ := LineGrammar.getLines_text true hzero
  rw [hlines] at h
  have hls : lines.map (LineGrammar.Line.parsed true) = ls := by
    split at h
    · simpa using h
    · cases h
  subst hls
  intro l hl hclear
  obtain ⟨line, -, rfl⟩ := List.mem_map.mp hl
  unfold LineGrammar.Line.parsed configlineOf at hclear ⊢
  split at hclear
  · cases hclear
  · split at hclear
    · next hplus hslash => rw [if_neg hplus, if_pos hslash]
    · cases hclear

theorem optionsInit_calloc (F : Doubles D) (null : A) : optionsInit F (calloc null) = some (calloc null) := by
  rw [optionsInit, confparseInit_eq]
  rfl

/-- A key that is not accepted fails the configuration. -/
theorem unnamed_fails (F : Doubles D) (null : A) (resolve : Bytes → Option A)
    (globalOptions : Option (Options D A)) {s : Bytes} {ls : List Configline} (hzero : 0 ∉ s)
    (hls : confparseGetLines s true = some (0, some ls)) (hno : ¬ ∀ l ∈ ls, Named l.key) :
    optionsInitFromString F null resolve globalOptions (some s) = some (.parse, globalOptions) := by
  obtain ⟨vars, hassign⟩ :=
    (assignLines_spec ls (clears_nothing hzero hls) (F := F) (calloc null : Options D A).vars).2 hno
  have hconf :
      confparseAssign F optionsFormat (calloc null : Options D A).vars ls false false = some (-1, vars) := by
    simp [confparseAssign, hassign]
  simp [optionsInitFromString, optionsInit_calloc, hls, hconf]

/-- **The semantics of configurations**: the keys are those that name an option, without the empty one. -/
theorem options_semantics (F : Doubles D) (null : A) : Semantics Named F null := by
  intro resolve globalOptions s hzero
  obtain ⟨lines, e, htext, hlines⟩ := LineGrammar.getLines_text true hzero
  cases e with
  | malformed =>
      refine ⟨.parse, globalOptions, ?_, ?_, fun h => absurd h (by decide), fun _ => rfl⟩
      · simp [optionsInitFromString, optionsInit_calloc, hlines]
      · constructor
        · intro h
          cases h
        · rintro ⟨ls, hls, -⟩
          rw [hlines] at hls
          cases hls
  | complete =>
      have hls : confparseGetLines s true = some (0, some (lines.map (LineGrammar.Line.parsed true))) := by
        simpa using hlines
      generalize lines.map (LineGrammar.Line.parsed true) = ls at hls
      have hclear := clears_nothing hzero hls
      have hgood := (assignLines_spec ls hclear (F := F) (calloc null : Options D A).vars).1
      by_cases hnamed : ∀ l ∈ ls, Named l.key
      · obtain ⟨vars, hassign, hvalues⟩ := hgood hnamed
        have hconf : confparseAssign F optionsFormat (calloc null).vars ls false false = some (0, vars) := by
          simp [confparseAssign, hassign, markListsFragile_eq]
        have hlast : ∀ name, ({ (calloc null : Options D A) with vars }).value name = lastValue name ls := by
          intro name
          show (vars name.var.varOffset).asStr = _
          rw [hvalues name, lastValue]
          cases (linesOf name ls).getLast? <;> rfl
        have hvalue : ({ (calloc null : Options D A) with vars }).value = fun name => lastValue name ls :=
          funext hlast
        have hrun : optionsInitFromString F null resolve globalOptions (some s) =
            if (optionsValidate resolve { (calloc null : Options D A) with vars }).1 < 0 then
              some (.parse, globalOptions)
            else some (.ok, some (optionsValidate resolve { (calloc null : Options D A) with vars }).2) := by
          simp [optionsInitFromString, optionsInit_calloc, hls, hconf]
        rcases optionsValidate_spec resolve ({ (calloc null : Options D A) with vars }) with
          ⟨hvalid, hzero', hvars⟩ | ⟨hinvalid, hminus⟩
        · rw [hvalue] at hvalid
          refine ⟨.ok, _, by rw [hrun, hzero']; rfl, ?_, fun _ => ⟨_, ls, rfl, hls, fun name => ?_⟩, fun h =>
            absurd rfl h⟩
          · exact ⟨fun _ => ⟨ls, hls, hnamed, hvalid⟩, fun _ => rfl⟩
          · rw [value_congr hvars, hlast]
        · rw [hvalue] at hinvalid
          refine ⟨.parse, globalOptions, by rw [hrun, hminus]; rfl, ?_, fun h =>
            absurd h (by decide), fun _ => rfl⟩
          constructor
          · intro h
            cases h
          · rintro ⟨ls', hls', -, hvalid⟩
            obtain rfl : ls = ls' := by simpa [hls] using hls'
            exact absurd hvalid hinvalid
      · refine ⟨.parse, globalOptions, unnamed_fails F null resolve globalOptions hzero hls hnamed, ?_,
          fun h => absurd h (by decide), fun _ => rfl⟩
        constructor
        · intro h
          cases h
        · rintro ⟨ls', hls', hall, -⟩
          obtain rfl : ls = ls' := by simpa [hls] using hls'
          exact absurd hall hnamed

/-- `+ x`: the key is empty, and the empty key is the beginning of `ApiTransportListen`. -/
theorem empty_key_refused :
    ¬ ∀ (F : Doubles Unit) (null : Unit), Semantics (fun key => optionOf (aliased key) ≠ none) F null := by
  intro h
  have hlines :
      confparseGetLines (ascii ['+', ' ', 'x']) true = some (0, some [⟨[], ascii ['x'], .append, false⟩]) := by
    decide +kernel
  obtain ⟨r, published, hrun, hiff, -⟩ :=
    h ⟨(), fun s => ⟨(), s, false, false⟩, fun _ => false, fun _ _ => 0, fun _ => ()⟩ ()
    (fun _ => some ()) none (ascii ['+', ' ', 'x']) (by decide)
  have hempty : ¬ ∀ l ∈ [(⟨[], ascii ['x'], .append, false⟩ : Configline)], Named l.key :=
    fun hall => (hall _ List.mem_cons_self).1 rfl
  rw [unnamed_fails _ _ _ _ (by decide) hlines hempty] at hrun
  obtain ⟨rfl, -⟩ := Prod.mk.inj (Option.some.inj hrun)
  refine absurd (hiff.mpr ⟨_, hlines, ?_, ?_⟩) (by decide)
  · intro l hl
    obtain rfl := List.mem_singleton.mp hl
    decide
  · refine ⟨by decide, ?_, ?_⟩
    · exact (resolves_some () 0).mpr (by decide)
    · have hnone : lastValue .redisDatabaseListen [⟨[], ascii ['x'], .append, false⟩] = none := by decide
      show Resolves _ (lastValue .redisDatabaseListen [⟨[], ascii ['x'], .append, false⟩])
      rw [hnone]
      exact fun _ hs => absurd hs (by simp)

end SploneBox.Options
