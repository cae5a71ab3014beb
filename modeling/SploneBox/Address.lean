/-
# SploneBox.Address — `box_addr_port_lookup`.

An address is `HOST`, `HOST:PORT`, `[HOST]` or `[HOST]:PORT` (`Form`), and the resolution of names is a
parameter. The code finds the parts with `strstr` and `strchr`. What it reads more than that are two things:
`[HOST]` with anything behind it, which it takes for `[HOST]`, and a port that `strtol` takes, with white
space or a plus in front of the digits (`listen_addresses_exact_iff`).
-/
import SploneBox.Parse
import SploneBox.IsoTime

namespace SploneBox.Address

open Parse

universe u

variable {A : Type u}

/-! ## §1 `box_addr_port_lookup` -/

/-- The host and the port: `none` when a bracket is not closed. -/
def splitAddress (s : Bytes) : Option (Bytes × Option Bytes) :=
  if s.head? = some 91 then
    match s.tail.dropWhile (· != 93) with
    | [] => none
    | _ :: port =>
        match port with
        | 58 :: port => some (s.tail.takeWhile (· != 93), some port)
        | _ => some (s.tail.takeWhile (· != 93), none)
  else
    match s.dropWhile (· != 58) with
    | _ :: port => some (s.takeWhile (· != 58), some port)
    | [] => some (s, none)

/-- `portval`, zero where the port is not accepted. -/
def portval (port : Bytes) : UInt16 := UInt16.ofNat (parseLong port 1 65535 false).value.toNat

/-- `box_addr_port_lookup`: what it returns, `*addr_out` and `*port_out`, which may be missing. `resolve` is
`box_getaddrinfo`, `none` where it fails. -/
def boxAddrPortLookup (resolve : Bytes → Option A) (s : Bytes) (addrOut : A) (portOut : Option UInt16) :
    Int × A × Option UInt16 :=
  match splitAddress (eatWhitespace s) with
  | none => (-1, addrOut, portOut)
  | some (tmp, port) =>
      match resolve tmp with
      | none => (-1, addrOut, portOut)
      | some addr =>
          match port with
          | some port =>
              if portval port = 0 then (-1, addrOut, portOut) else (0, addr, portOut.map fun _ => portval port)
          | none => (0, addr, portOut.map fun _ => 0)

/-! ## §2 What an address is -/

/-- The four forms. A plain host has no colon and does not begin with a bracket, one in brackets does not
contain the closing one. -/
inductive Form : Bytes → Bytes → Option Bytes → Prop where
  | plain {host : Bytes} : host.head? ≠ some 91 → 58 ∉ host → Form host host none
  | plainPort {host port : Bytes} :
      host.head? ≠ some 91 → 58 ∉ host → Form (host ++ 58 :: port) host (some port)
  | bracket {host : Bytes} : 93 ∉ host → Form (91 :: (host ++ [93])) host none
  | bracketPort {host port : Bytes} : 93 ∉ host → Form (91 :: (host ++ 93 :: 58 :: port)) host (some port)

/-- A decimal number from 1 to 65535. -/
def IsPort (text : Bytes) (p : Nat) : Prop := Numeral text p ∧ 1 ≤ p ∧ p ≤ 65535

/-- The string is an address with a host and a port, zero if there is none. -/
def IsAddress (s host : Bytes) (p : Nat) : Prop :=
  Form (eatWhitespace s) host none ∧ p = 0 ∨ ∃ port, Form (eatWhitespace s) host (some port) ∧ IsPort port p

/-- What is asked of `box_addr_port_lookup` on a string. -/
def ExactOn (resolve : Bytes → Option A) (s : Bytes) : Prop :=
  ∀ addrOut portOut,
    (∃ host p addr, IsAddress s host p ∧ resolve host = some addr ∧
      boxAddrPortLookup resolve s addrOut portOut = (0, addr, portOut.map fun _ => UInt16.ofNat p)) ∨
    ((∀ host p, IsAddress s host p → resolve host = none) ∧ boxAddrPortLookup resolve s addrOut portOut =
      (-1, addrOut, portOut))

/-- `[HOST]` with something behind it that is not a port. -/
def Garbage (s host : Bytes) : Prop := ∃ c rest, s = 91 :: (host ++ 93 :: c :: rest) ∧ 93 ∉ host ∧ c ≠ 58

/-- A port with white space or a plus in front. -/
def LoosePort (text : Bytes) : Prop :=
  ∃ lead sign ds p, text = lead ++ (sign ++ ds) ∧ (∀ c ∈ lead, isSpace c = true) ∧ (sign = [] ∨ sign = [43]) ∧
    lead ++ sign ≠ [] ∧ IsPort ds p

/-- The strings that are read and are no addresses. -/
def Misread (resolve : Bytes → Option A) (s : Bytes) : Prop :=
  ∃ host, resolve host ≠ none ∧
    (Garbage (eatWhitespace s) host ∨ ∃ port, Form (eatWhitespace s) host (some port) ∧ LoosePort port)

/-! ## §3 Forms -/

theorem span_of_notMem {c : UInt8} {host : Bytes} (h : c ∉ host) (rest : Bytes) :
    (host ++ c :: rest).takeWhile (· != c) = host ∧ (host ++ c :: rest).dropWhile (· != c) = c :: rest := by
  refine dropWhile_rest ?_ ?_
  · intro d hd
    simp only [bne_iff_ne, ne_eq]
    rintro rfl
    exact h hd
  · simp

/-- A text contains a character or not. -/
theorem span_cases (c : UInt8) (s : Bytes) :
    (c ∉ s ∧ s.dropWhile (· != c) = []) ∨ ∃ host rest, s = host ++ c :: rest ∧ c ∉ host := by
  have hs : s.takeWhile (· != c) ++ s.dropWhile (· != c) = s := List.takeWhile_append_dropWhile
  have hno : c ∉ s.takeWhile (· != c) := fun hc => by simpa using List.mem_takeWhile_imp hc
  cases hrest : s.dropWhile (· != c) with
  | nil =>
      rw [hrest, List.append_nil] at hs
      exact Or.inl ⟨hs ▸ hno, rfl⟩
  | cons d rest =>
      have hd : d = c := by
        have hhead := dropWhile_head (· != c) s
        rw [hrest] at hhead
        simpa using hhead
      subst hd
      rw [hrest] at hs
      exact Or.inr ⟨_, rest, hs.symm, hno⟩

theorem splitAddress_form {s host : Bytes} {port : Option Bytes} (h : Form s host port) :
    splitAddress s = some (host, port) := by
  unfold splitAddress
  cases h with
  | plain hhead hcolon =>
      have hrest : s.dropWhile (· != 58) = [] := by
        rcases span_cases 58 s with ⟨-, hnil⟩ | ⟨_, _, rfl, -⟩
        · exact hnil
        · exact absurd (by simp) hcolon
      rw [if_neg hhead, hrest]
  | @plainPort _ port hhead hcolon =>
      have hhead' : (host ++ 58 :: port).head? ≠ some 91 := by
        cases host with
        | nil => simp
        | cons c host => exact hhead
      obtain ⟨htake, hdrop⟩ := span_of_notMem hcolon port
      rw [if_neg hhead', hdrop, htake]
  | bracket hbracket =>
      obtain ⟨htake, hdrop⟩ := span_of_notMem hbracket []
      rw [List.head?_cons, if_pos rfl, List.tail_cons, hdrop, htake]
  | @bracketPort _ port hbracket =>
      obtain ⟨htake, hdrop⟩ := span_of_notMem hbracket (58 :: port)
      rw [List.head?_cons, if_pos rfl, List.tail_cons, hdrop, htake]
      rfl

theorem splitAddress_garbage {s host : Bytes} (h : Garbage s host) : splitAddress s = some (host, none) := by
  obtain ⟨c, rest, rfl, hbracket, hc⟩ := h
  obtain ⟨htake, hdrop⟩ := span_of_notMem hbracket (c :: rest)
  unfold splitAddress
  rw [List.head?_cons, if_pos rfl, List.tail_cons, hdrop, htake]
  dsimp only
  split
  · next heq => exact absurd (List.cons.inj heq).1 hc
  · rfl

/-- What the code splits is of one of the forms, or has something behind the bracket. -/
theorem splitAddress_some {s host : Bytes} {port : Option Bytes} (h : splitAddress s = some (host, port)) :
    Form s host port ∨ Garbage s host ∧ port = none := by
  by_cases hhead : s.head? = some 91
  · obtain ⟨t, rfl⟩ : ∃ t, s = 91 :: t := by
      -- An address in brackets: what is behind the closing one decides between the three forms.
      cases s with
      | nil => simp at hhead
      | cons c t => exact ⟨t, by rw [Option.some.inj hhead]⟩
    rcases span_cases 93 t with ⟨-, hnil⟩ | ⟨host', rest, rfl, hbracket⟩
    · rw [splitAddress, if_pos hhead, List.tail_cons, hnil] at h
      cases h
    · cases rest with
      | nil =>
          rw [splitAddress_form (.bracket hbracket)] at h
          cases h
          exact Or.inl (.bracket hbracket)
      | cons c rest =>
          by_cases hc : c = 58
          · subst hc
            rw [splitAddress_form (.bracketPort hbracket)] at h
            cases h
            exact Or.inl (.bracketPort hbracket)
          -- Neither the end nor a colon is behind the bracket: the source reads on and takes no port.
          · have hgarbage : Garbage (91 :: (host' ++ 93 :: c :: rest)) host' := ⟨c, rest, rfl, hbracket, hc⟩
            rw [splitAddress_garbage hgarbage] at h
            cases h
            exact Or.inr ⟨hgarbage, rfl⟩
  · rcases span_cases 58 s with ⟨hcolon, -⟩ | ⟨host', rest, rfl, hcolon⟩
    · rw [splitAddress_form (.plain hhead hcolon)] at h
      -- No bracket: the first colon ends the host.
      cases h
      exact Or.inl (.plain hhead hcolon)
    · have hhead' : host'.head? ≠ some 91 := by
        cases host' with
        | nil => simp
        | cons c host => exact hhead
      rw [splitAddress_form (.plainPort hhead' hcolon)] at h
      cases h
      exact Or.inl (.plainPort hhead' hcolon)

theorem Garbage.not_form {s host host' : Bytes} {port : Option Bytes} (h : Garbage s host)
    (hform : Form s host' port) : False := by
  obtain ⟨c, rest, rfl, hbracket, hc⟩ := h
  have hsplit := splitAddress_form hform
  rw [splitAddress_garbage ⟨c, rest, rfl, hbracket, hc⟩] at hsplit
  cases hsplit
  generalize hs : 91 :: (host ++ 93 :: c :: rest) = s at hform
  cases hform with
  | plain hhead => exact hhead (by rw [← hs]; rfl)
  | bracket =>
      have hlen := congrArg List.length hs
      simp at hlen

/-! ## §4 Ports -/

/-- A port, with white space or a plus in front or without. -/
def AnyPort (text : Bytes) (p : Nat) : Prop :=
  ∃ lead sign ds, text = lead ++ (sign ++ ds) ∧ (∀ c ∈ lead, isSpace c = true) ∧
    (sign = [] ∨ sign = [43]) ∧ IsPort ds p

theorem portval_of_anyPort {text : Bytes} {p : Nat} (h : AnyPort text p) :
    portval text = UInt16.ofNat p ∧ portval text ≠ 0 := by
  obtain ⟨lead, sign, ds, rfl, hlead, hsign, ⟨hne, hdigits, rfl⟩, hpos, hle⟩ := h
  have hsubject : subject (lead ++ (sign ++ ds)) = some ⟨sign = [45], ds, []⟩ :=
    subject_iff.mpr ⟨lead, sign, by simp, hlead, Or.inr hsign, rfl, hne, hdigits, rfl⟩
  have hminus : sign ≠ [45] := by rcases hsign with rfl | rfl <;> decide
  have hconv : strtol (lead ++ (sign ++ ds)) = ⟨numeral false ds, [], true, false⟩ := by
    rw [strtol, hsubject]
    simp only [hminus, decide_false, Bool.false_eq_true, if_false]
    rw [if_neg (by omega), if_neg (by omega)]
  have hvalue : portval (lead ++ (sign ++ ds)) = UInt16.ofNat (numeral false ds) := by
    have hlimits : (1 : Int) ≤ numeral false ds ∧ (numeral false ds : Int) ≤ 65535 := by omega
    unfold portval parseLong checkStrtoxResult
    rw [hconv]
    simp [hlimits]
  refine ⟨hvalue, ?_⟩
  rw [hvalue, ne_eq, ← UInt16.toNat_inj, UInt16.toNat_ofNat']
  have hmod : numeral false ds % 2 ^ 16 = numeral false ds := Nat.mod_eq_of_lt (by omega)
  rw [hmod]
  intro hzero
  rw [hzero] at hpos
  exact absurd hpos (by decide)

theorem strtol_of_not_erange {s : Bytes} {x : Subject} (h : subject s = some x)
    (hrange : (strtol s).erange = false) :
    strtol s = ⟨if x.negative then -(numeral false x.digits : Int) else numeral false x.digits, x.rest, true,
      false⟩ := by
  unfold strtol at hrange ⊢
  rw [h] at hrange ⊢
  dsimp only at hrange ⊢
  generalize (if x.negative then -(numeral false x.digits : Int) else numeral false x.digits) = n at hrange ⊢
  by_cases hlow : n < -2 ^ 63
  · rw [if_pos hlow] at hrange
    cases hrange
  · rw [if_neg hlow] at hrange ⊢
    by_cases hhigh : 2 ^ 63 ≤ n
    · rw [if_pos hhigh] at hrange
      cases hrange
    · rw [if_neg hhigh]

theorem anyPort_of_portval {text : Bytes} (h : portval text ≠ 0) : ∃ p, AnyPort text p := by
  have hvalue : (parseLong text 1 65535 false).value ≠ 0 := by
    intro hzero
    rw [portval, hzero] at h
    exact h rfl
  unfold parseLong checkStrtoxResult at hvalue
  dsimp only at hvalue
  split at hvalue
  · exact absurd rfl hvalue
  · next hok =>
      simp only [Bool.or_eq_true, Bool.not_eq_true', not_or, Bool.not_eq_true, Bool.not_false, Bool.true_and,
        bne_eq_false_iff_eq, Bool.not_eq_false, decide_eq_true_eq] at hok
      obtain ⟨⟨⟨hrange, hmoved⟩, hend⟩, hpos, hle⟩ := hok
      cases hsubject : subject text with
      | none =>
          rw [strtol, hsubject] at hmoved
          cases hmoved
      | some x =>
          obtain ⟨lead, sign, rfl, hlead, hsign, hneg, hne, hdigits, -⟩ := subject_iff.mp hsubject
          rw [strtol_of_not_erange hsubject hrange] at hend hpos hle
          dsimp only at hend hpos hle
          -- a minus would make the number too small
          have hplus : sign = [] ∨ sign = [43] := by
            rcases hsign with rfl | hplus
            · rw [hneg] at hpos
              simp only [decide_true, if_true] at hpos
              omega
            · exact hplus
          have hminus : sign ≠ [45] := by rcases hplus with rfl | rfl <;> decide
          rw [hneg] at hpos hle
          simp only [hminus, decide_false, Bool.false_eq_true, if_false] at hpos hle
          refine ⟨numeral false x.digits, lead, sign, x.digits, ?_, hlead, hplus,
            ⟨hne, hdigits, rfl⟩, by omega, by omega⟩
          rw [hend, List.append_nil]

theorem AnyPort.strict_or_loose {text : Bytes} {p : Nat} (h : AnyPort text p) :
    IsPort text p ∨ LoosePort text := by
  obtain ⟨lead, sign, ds, rfl, hlead, hsign, hport⟩ := h
  by_cases hempty : lead ++ sign = []
  · obtain ⟨rfl, rfl⟩ := List.append_eq_nil_iff.mp hempty
    exact Or.inl hport
  · exact Or.inr ⟨lead, sign, ds, p, rfl, hlead, hsign, hempty, hport⟩

theorem IsPort.any {text : Bytes} {p : Nat} (h : IsPort text p) : AnyPort text p :=
  ⟨[], [], text, rfl, fun _ hc => absurd hc (by simp), Or.inl rfl, h⟩

theorem LoosePort.any {text : Bytes} (h : LoosePort text) : ∃ p, AnyPort text p := by
  obtain ⟨lead, sign, ds, p, heq, hlead, hsign, -, hport⟩ := h
  exact ⟨p, lead, sign, ds, heq, hlead, hsign, hport⟩

/-- What stands in front of a loose port is no digit. -/
theorem LoosePort.not_isPort {text : Bytes} {p : Nat} (h : LoosePort text) : ¬ IsPort text p := by
  obtain ⟨lead, sign, ds, -, rfl, hlead, hsign, hne, -⟩ := h
  rintro ⟨⟨-, hdigits, -⟩, -⟩
  obtain ⟨c, rest, hc⟩ := List.exists_cons_of_ne_nil hne
  have hmem : c ∈ lead ++ sign := by simp [hc]
  have hdigit := isDigit_iff.mp (hdigits c (by rw [← List.append_assoc]; exact List.mem_append_left _ hmem))
  rcases List.mem_append.mp hmem with hc | hc
  · have hspace := isSpace_iff.mp (hlead c hc)
    omega
  · rcases hsign with rfl | rfl
    · cases hc
    · obtain rfl := List.mem_singleton.mp hc
      exact absurd hdigit (by decide)

/-! ## §5 Which strings are read rightly -/

/-- What is returned when the string is an address. -/
theorem lookup_address {resolve : Bytes → Option A} {s host : Bytes} {p : Nat} {addr : A}
    (h : IsAddress s host p) (haddr : resolve host = some addr) (addrOut : A) (portOut : Option UInt16) :
    boxAddrPortLookup resolve s addrOut portOut = (0, addr, portOut.map fun _ => UInt16.ofNat p) := by
  unfold boxAddrPortLookup
  rcases h with ⟨hform, rfl⟩ | ⟨port, hform, hport⟩
  · rw [splitAddress_form hform]
    simp only [haddr]
    rfl
  · obtain ⟨hvalue, hne⟩ := portval_of_anyPort hport.any
    rw [splitAddress_form hform]
    simp only [haddr]
    rw [if_neg hne, hvalue]

/-- A string that is read is an address or misread. -/
theorem lookup_zero {resolve : Bytes → Option A} {s : Bytes} {addrOut : A} {portOut : Option UInt16}
    (h : (boxAddrPortLookup resolve s addrOut portOut).1 = 0) :
    (∃ host p addr, IsAddress s host p ∧ resolve host = some addr) ∨ Misread resolve s := by
  unfold boxAddrPortLookup at h
  cases hsplit : splitAddress (eatWhitespace s) with
  -- No address was found in the line, so -1 was returned.
  | none =>
      rw [hsplit] at h
      cases h
  | some parts =>
      obtain ⟨host, port⟩ := parts
      rw [hsplit] at h
      dsimp only at h
      cases haddr : resolve host with
      | none =>
          rw [haddr] at h
          cases h
      | some addr =>
          rw [haddr] at h
          dsimp only at h
          have hresolves : resolve host ≠ none := by simp [haddr]
          rcases splitAddress_some hsplit with hform | ⟨hgarbage, rfl⟩
          · cases port with
            | none => exact Or.inl ⟨host, 0, addr, Or.inl ⟨hform, rfl⟩, haddr⟩
            | some port =>
                dsimp only at h
                split at h
                · cases h
                · next hne =>
                    -- `strtol` takes blanks, a sign and what is behind the digits, which no port is written
                    -- with.
                    obtain ⟨p, hport⟩ := anyPort_of_portval hne
                    rcases hport.strict_or_loose with hport | hloose
                    · exact Or.inl ⟨host, p, addr, Or.inr ⟨port, hform, hport⟩, haddr⟩
                    · exact Or.inr ⟨host, hresolves, Or.inr ⟨port, hform, hloose⟩⟩
          · exact Or.inr ⟨host, hresolves, Or.inl hgarbage⟩

/-- A misread string is read, and is no address. -/
theorem Misread.lookup {resolve : Bytes → Option A} {s : Bytes} (h : Misread resolve s) (addrOut : A)
    (portOut : Option UInt16) :
    (boxAddrPortLookup resolve s addrOut portOut).1 = 0 ∧ ∀ host p, ¬ IsAddress s host p := by
  obtain ⟨host, hresolves, h⟩ := h
  obtain ⟨addr, haddr⟩ := Option.ne_none_iff_exists'.mp hresolves
  rcases h with hgarbage | ⟨port, hform, hloose⟩
  · constructor
    · unfold boxAddrPortLookup
      rw [splitAddress_garbage hgarbage]
      simp only [haddr]
    · rintro host' p (⟨hform, -⟩ | ⟨port, hform, -⟩)
      · exact hgarbage.not_form hform
      · exact hgarbage.not_form hform
  · obtain ⟨p, hany⟩ := hloose.any
    constructor
    · unfold boxAddrPortLookup
      rw [splitAddress_form hform]
      simp only [haddr]
      rw [if_neg (portval_of_anyPort hany).2]
    · rintro host' p (⟨hform', -⟩ | ⟨port', hform', hport⟩)
      · have heq := (splitAddress_form hform').symm.trans (splitAddress_form hform)
        cases heq
      · have heq := (splitAddress_form hform').symm.trans (splitAddress_form hform)
        cases heq
        exact hloose.not_isPort hport

/-- What is left as it was. -/
theorem lookup_nonzero {resolve : Bytes → Option A} {s : Bytes} {addrOut : A} {portOut : Option UInt16}
    (h : (boxAddrPortLookup resolve s addrOut portOut).1 ≠ 0) :
    boxAddrPortLookup resolve s addrOut portOut = (-1, addrOut, portOut) := by
  unfold boxAddrPortLookup at h ⊢
  cases hsplit : splitAddress (eatWhitespace s) with
  | none => rfl
  | some parts =>
      obtain ⟨host, port⟩ := parts
      rw [hsplit] at h
      dsimp only at h ⊢
      cases haddr : resolve host with
      | none => rfl
      | some addr =>
          rw [haddr] at h
          cases port with
          | none => exact absurd rfl h
          | some port =>
              dsimp only at h ⊢
              by_cases hzero : portval port = 0
              · rw [if_pos hzero]
              · rw [if_neg hzero] at h
                exact absurd rfl h

/-- **`box_addr_port_lookup` reads a string rightly** if and only if its host does not resolve, or the string
has nothing behind the bracket and nothing in front of the digits of its port. -/
theorem listen_addresses_exact_iff (resolve : Bytes → Option A) (s : Bytes) :
    ExactOn resolve s ↔ ¬ Misread resolve s := by
  constructor
  · intro h hmisread
    obtain ⟨host, hresolves, -⟩ := id hmisread
    obtain ⟨addr, -⟩ := Option.ne_none_iff_exists'.mp hresolves
    obtain ⟨hread, hno⟩ := hmisread.lookup addr none
    rcases h addr none with ⟨host, p, _, haddress, -⟩ | ⟨-, hminus⟩
    · exact hno host p haddress
    · rw [hminus] at hread
      cases hread
  · intro h addrOut portOut
    by_cases hread : (boxAddrPortLookup resolve s addrOut portOut).1 = 0
    · rcases lookup_zero hread with ⟨host, p, addr, haddress, haddr⟩ | hmisread
      · exact Or.inl ⟨host, p, addr, haddress, haddr, lookup_address haddress haddr addrOut portOut⟩
      · exact absurd hmisread h
    · refine Or.inr ⟨fun host p haddress => ?_, lookup_nonzero hread⟩
      by_contra hresolves
      obtain ⟨addr, haddr⟩ := Option.ne_none_iff_exists'.mp hresolves
      rw [lookup_address haddress haddr] at hread
      exact hread rfl

/-- `[h]x` is taken for `[h]`. -/
theorem garbage_behind_bracket_read :
    ¬ ∀ (resolve : Bytes → Option Unit) (s : Bytes), ExactOn resolve s := by
  intro h
  have hread : (boxAddrPortLookup (fun _ => some ()) (ascii ['[', 'h', ']', 'x']) () none).1 = 0 := by decide
  have hgarbage : Garbage (ascii ['[', 'h', ']', 'x']) (ascii ['h']) := ⟨120, [], rfl, by decide, by decide⟩
  rcases h (fun _ => some ()) (ascii ['[', 'h', ']', 'x']) () none with ⟨_, _, _, haddress, -⟩ | ⟨-, hminus⟩
  · rcases haddress with ⟨hform, -⟩ | ⟨_, hform, -⟩
    · exact hgarbage.not_form hform
    · exact hgarbage.not_form hform
  · rw [hminus] at hread
    cases hread

end SploneBox.Address
