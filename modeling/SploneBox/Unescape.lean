/-
# SploneBox.Unescape — the two passes of `unescape_string`.

The first pass looks for the closing quote, and what it has walked over is the size of the block; the second
pass decodes into the block. The escapes are written out in each of them, with their lengths.
`SploneBox.LineGrammar` has shown that both take the items of one grammar off the text (`Items`); here the
second pass has its block, a store outside of it is no result (`store`), and the two are held against each
other: they stop at the same quote, and an item is not shorter than what is stored for it.
-/
import SploneBox.LineGrammar

namespace SploneBox.Unescape

open Confparse LineGrammar Lib.Cursor

/-! ## §1 `unescape_string`, with its block -/

/-- `MALLOC_ARRAY(n, char)`: there is anything in the block. -/
def mallocArray (garbage : Nat → UInt8) (n : Nat) : Bytes := (List.range n).map garbage

/-- `*out = c`, with `out` counted from the start of the block. -/
def store (block : Bytes) (out : Nat) (c : UInt8) : Option Bytes :=
  if out < block.length then some (block.set out c) else none

/-- `*out++ = c` for every `c`. -/
def storeAll : Bytes → Nat → Bytes → Option (Bytes × Nat)
  | block, out, [] => some (block, out)
  | block, out, c :: cs => do storeAll (← store block out c) (out + 1) cs

/-- `cp`, `out` and the block of `*result`. -/
structure Decoding where
  cp : Bytes
  out : Nat
  result : Bytes

/-- What `unescape_string` returns, `*result` and `*size_out`. -/
structure Unescaped where
  rest : Bytes
  result : Bytes
  size : Nat

/-- A turn of the loop that decodes, with the stores; `unescapeDecode` appends what is stored. -/
def unescapeStore (s : Decoding) : Option (Decoding ⊕ Option Unescaped) := do
  match ← unescapeDecode (s.cp, []) with
  | .inl (cp, cs) =>
      let (result, out) ← storeAll s.result s.out cs
      return .inl ⟨cp, out, result⟩
  | .inr none => return .inr none
  | .inr (some (cp, _)) => return .inr (some ⟨cp, ← store s.result s.out 0, s.out⟩)

/-- `unescape_string`: `none` inside is `NULL`. -/
def unescapeString (garbage : Nat → UInt8) (s : Bytes) : Option (Option Unescaped) := do
  if (← peek 0 s 0) ≠ 34 then return none
  else
    match ← loop unescapeScan ((← advance s 1).length + 1) (← advance s 1) with
    | none => return none
    | some cp =>
        let result := mallocArray garbage (s.length - cp.length + 1)
        loop unescapeStore ((← advance s 1).length + 1) ⟨← advance s 1, 0, result⟩

/-! ## §2 The block -/

theorem store_append (acc : Bytes) (c c' : UInt8) (left : Bytes) :
    store (acc ++ c' :: left) acc.length c = some (acc ++ c :: left) := by
  rw [store, if_pos (by simp)]
  simp

section
variable {t r : Bytes} {is : List Item}

/-- **Every item is at least as long as what is stored for it**, and the closing quote has room for the
terminator. -/
theorem items_length (h : Items t is r) : is.length + 1 + r.length ≤ t.length := by
  induction h with
  | close => simp [Nat.add_comm]
  | plain _ _ _ _ ih =>
      simp only [List.length_cons]
      omega
  | named _ _ ih =>
      simp only [List.length_cons]
      omega
  | hex _ _ _ _ ih =>
      simp only [List.length_cons]
      omega
  | @octal a t is r _ _ ih =>
      have hdrop := (List.drop_suffix (Lib.Numerals.run isODigit 2 t).length t).length_le
      simp only [List.length_cons]
      omega

/-- One character is stored for each item. -/
theorem values_length : ∀ {is : List Item} {d : Bytes}, is.mapM Item.value = some d → d.length = is.length
  | [], d, h => by
      cases h
      rfl
  | i :: is, d, h => by
      rw [List.mapM_cons] at h
      obtain ⟨c, -, h⟩ := Option.bind_eq_some_iff.mp h
      obtain ⟨d', hd', h⟩ := Option.bind_eq_some_iff.mp h
      cases h
      rw [List.length_cons, List.length_cons, values_length hd']

/-- **The decoding pass** stores what the items stand for, as long as there is room for them. -/
theorem unescapeStore_spec (h : Items t is r) (hzero : 0 ∉ t) : ∀ acc left : Bytes, is.length < left.length →
    Returns unescapeStore (fun s => s.cp.length) ⟨t, acc.length, acc ++ left⟩
      ((is.mapM Item.value).map fun d =>
          ⟨r, acc ++ d ++ 0 :: left.drop (d.length + 1), acc.length + d.length⟩) := by
  -- On the items. `acc` is what is stored so far, `left` what is behind it; `left` has room for one byte more
  -- than there are items, which is the room that the terminating zero takes.
  induction is generalizing t with
  | nil =>
      intro acc left hroom
      cases h
      cases left with
      | nil => cases hroom
      | cons c left =>
          refine .done ?_
          have hstore := store_append acc 0 c left
          simp [unescapeStore, unescapeDecode, hstore]
  | cons i is ih =>
      intro acc left hroom
      obtain ⟨u, hu, hlt, hsuffix, hturn⟩ := h.decodes hzero
      have hnext := hturn []
      cases left with
      | nil => cases hroom
      | cons c' left =>
          -- An octal item above 255 ends the pass; every other item stores one byte.
          cases hvalue : i.value with
          | none =>
              rw [hvalue] at hnext
              rw [List.mapM_cons, hvalue]
              exact .done (by simp [unescapeStore, hnext])
          | some c =>
              rw [hvalue] at hnext
              have hstore := store_append acc c c' left
              have hnext' : unescapeStore ⟨t, acc.length, acc ++ c' :: left⟩ =
                  some (.inl ⟨u, (acc ++ [c]).length, (acc ++ [c]) ++ left⟩) := by
                simp [unescapeStore, hnext, storeAll, hstore]
              refine .turn hnext' hlt ?_
              have hshift :
                  ((fun d =>
                    ⟨r, acc ++ d ++ 0 :: (c' :: left).drop (d.length + 1), acc.length + d.length⟩) ∘ (c :: ·) :
                  Bytes → Unescaped) =
                  fun d => ⟨r, acc ++ [c] ++ d ++ 0 :: left.drop (d.length + 1),
                    (acc ++ [c]).length + d.length⟩ := by
                funext d
                simp only [Function.comp_apply, List.length_cons, List.drop_succ_cons, List.length_append,
                  List.length_nil, List.append_assoc, List.cons_append, List.nil_append,
                  Unescaped.mk.injEq, true_and]
                omega
              rw [mapM_cons_some hvalue, Option.map_map, hshift]
              exact ih hu (notMem_suffix hzero hsuffix) (acc ++ [c]) left (by simpa using hroom)

end

/-! ## §3 The two passes -/

/-- **A complete quoted string** at the start of the text: what it stands for, and what is behind it. -/
def Starts (s d r : Bytes) : Prop := ∃ t, s = 34 :: t ∧ Quoted t d r

/-- What the decoding pass makes of a string whose closing quote the scanning pass has found. -/
theorem unescapeString_items {t r : Bytes} {is : List Item} (garbage : Nat → UInt8) (hzero : 0 ∉ t)
    (h : Items t is r) (hscan : loop unescapeScan (t.length + 1) t = some (some (34 :: r))) :
    unescapeString garbage (34 :: t) = some ((is.mapM Item.value).map fun d =>
      ⟨r, d ++ 0 :: (mallocArray garbage ((34 :: t).length - (34 :: r).length + 1)).drop (d.length + 1),
        d.length⟩) := by
  have hlen := items_length h
  have hroom : is.length < (mallocArray garbage ((34 :: t).length - (34 :: r).length + 1)).length := by
    simp only [mallocArray, List.length_map, List.length_range, List.length_cons]
    omega
  have hdecode :=
    (unescapeStore_spec h hzero [] (mallocArray garbage ((34 :: t).length - (34 :: r).length + 1)) hroom).run
  simp only [unescapeString, peek_cons_zero, advance_cons, advance_zero, Option.bind_eq_bind,
    Option.bind_some, ne_eq, not_true_eq_false, if_false, hscan]
  simpa using hdecode

theorem unescapeString_none {s : Bytes} (garbage : Nat → UInt8) (hzero : 0 ∉ s) (hno : ¬ ∃ d r, Starts s d r) :
    unescapeString garbage s = some none := by
  cases s with
  | nil => simp [unescapeString]
  | cons c t =>
      by_cases hquote : c = 34
      · subst hquote
        have ht : 0 ∉ t := fun hmem => hzero (List.mem_cons_of_mem 34 hmem)
        rcases unescapeScan_spec (t.length + 1) t (Nat.lt_succ_self _) ht with ⟨is, r, hitems, hreturns⟩ |
          ⟨-, hreturns⟩
        · have hvalue : is.mapM Item.value = none := by
            cases hmap : is.mapM Item.value with
            | none => rfl
            | some d => exact absurd ⟨d, r, t, rfl, is, hitems, hmap⟩ hno
          rw [unescapeString_items garbage ht hitems hreturns.run, hvalue]
          rfl
        · simp [unescapeString, hreturns.run]
      · simp [unescapeString, hquote]

/-- Both passes, on a quoted string. -/
theorem unescapeString_starts {s d r : Bytes} (garbage : Nat → UInt8) (hzero : 0 ∉ s) (h : Starts s d r) :
    loop unescapeScan (s.tail.length + 1) s.tail = some (some (34 :: r)) ∧
      ∃ unused, unescapeString garbage s = some (some ⟨r, d ++ 0 :: unused, d.length⟩) ∧
        (d ++ 0 :: unused).length = s.length - (34 :: r).length + 1 := by
  obtain ⟨t, rfl, is, hitems, hvalue⟩ := h
  have ht : 0 ∉ t := fun hmem => hzero (List.mem_cons_of_mem 34 hmem)
  have hscan : loop unescapeScan (t.length + 1) t = some (some (34 :: r)) := by
    rcases unescapeScan_spec (t.length + 1) t (Nat.lt_succ_self _) ht with ⟨is', r', hitems', hreturns⟩ |
      ⟨hno, -⟩
    · obtain ⟨-, rfl⟩ := hitems.unique hitems'
      exact hreturns.run
    · exact absurd hitems (hno is r)
  refine ⟨hscan, (mallocArray garbage ((34 :: t).length - (34 :: r).length + 1)).drop (d.length + 1), ?_, ?_⟩
  · rw [unescapeString_items garbage ht hitems hscan, hvalue]
    rfl
  · have hlen := items_length hitems
    have hcount : d.length = is.length := values_length hvalue
    simp only [mallocArray, List.length_append, List.length_cons, List.length_drop, List.length_map,
      List.length_range]
    omega

/-- The block holds what the model of `SploneBox.Configlines` returns as a text. -/
theorem unescapeString_text {s : Bytes} (garbage : Nat → UInt8) (hzero : 0 ∉ s) :
    Confparse.unescapeString s = (unescapeString garbage s).map (Option.map fun u =>
      (u.rest, u.result.take u.size)) := by
  by_cases hstarts : ∃ d r, Starts s d r
  · obtain ⟨d, r, h⟩ := hstarts
    obtain ⟨-, unused, hsome, -⟩ := unescapeString_starts garbage hzero h
    obtain ⟨t, rfl, hquoted⟩ := h
    rw [unescapeString_quoted (fun hmem => hzero (List.mem_cons_of_mem 34 hmem)) hquoted, hsome]
    simp
  · rw [unescapeString_none garbage hzero hstarts]
    cases s with
    | nil => simp [Confparse.unescapeString]
    | cons c t =>
        by_cases hquote : c = 34
        · subst hquote
          exact unescapeString_malformed (fun hmem => hzero (List.mem_cons_of_mem 34 hmem))
            fun d r hquoted => hstarts ⟨d, r, t, rfl, hquoted⟩
        · simp [Confparse.unescapeString, hquote]

/-- **The two passes agree**: a string is decoded exactly if it starts with a quoted string of the grammar.
Then both passes stop at the closing quote; every store is in the block, which has a byte for each character
from the first quote to the closing one, and one more; and what is returned are the decoded characters with
the terminator behind them, their number, and the position behind the quote. -/
theorem unescape_passes_agree {s : Bytes} (garbage : Nat → UInt8) (hzero : 0 ∉ s) :
    (unescapeString garbage s = some none ↔ ¬ ∃ d r, Starts s d r) ∧
    ∀ d r, Starts s d r → loop unescapeScan (s.tail.length + 1) s.tail = some (some (34 :: r)) ∧
      ∃ unused, unescapeString garbage s = some (some ⟨r, d ++ 0 :: unused, d.length⟩) ∧
        (d ++ 0 :: unused).length = s.length - (34 :: r).length + 1 := by
  constructor
  · constructor
    · rintro hnull ⟨d, r, h⟩
      obtain ⟨-, unused, hsome, -⟩ := unescapeString_starts garbage hzero h
      rw [hnull] at hsome
      cases hsome
    · exact unescapeString_none garbage hzero
  · intro d r h
    exact unescapeString_starts garbage hzero h

/-- **A string with an escape of each length**: `"a\x41\101\n"b`. -/
theorem unescape_passes_sample :
    ∃ unused, unescapeString (fun _ => 170) [34, 97, 92, 120, 52, 49, 92, 49, 48, 49, 92, 110, 34, 98] =
      some (some ⟨[98], [97, 65, 65, 10] ++ 0 :: unused, 4⟩) := by
  have hstarts : Starts [34, 97, 92, 120, 52, 49, 92, 49, 48, 49, 92, 110, 34, 98] [97, 65, 65, 10] [98] :=
    ⟨_, rfl, _, .plain (by decide) (by decide) (by decide) (.hex (Or.inl rfl) (by decide) (by decide)
      (.octal (by decide) (.named (by decide) .close))), by decide⟩
  obtain ⟨-, unused, hsome, -⟩ := (unescape_passes_agree (fun _ => 170) (by decide)).2 _ _ hstarts
  exact ⟨unused, hsome⟩

end SploneBox.Unescape
