/-
# SploneBox.Lib.OpenAddressing — hash tables with open addressing.

A table has its entries in an array of buckets, and a key is looked for along its walk: from the bucket of its
hash on, with steps that grow by one each time. Where the number of buckets is a power of two, a walk meets
every bucket once (`probe_injective`, `probe_surjective`). A bucket whose entry was taken out is marked, not
emptied, so that walks go past it.

`Valid` is the invariant: every entry is met on the walk of its key before an empty bucket is, and no key has
two entries. In a valid table a walk that stops at the first empty bucket or entry of its key has found out
what the table holds (`lookup`), and putting, replacing and taking out keep the table valid and change its
entries as they say (`Valid.insert`, `Valid.replace`, `Valid.delete`). `Shows` reads the entries as a partial
function.
-/
import Mathlib.Algebra.Group.Nat.Even
import Mathlib.Data.Fintype.Card
import Mathlib.Data.Fintype.EquivFin
import Mathlib.Data.List.Nodup
import Mathlib.Data.List.Perm.Basic
import Mathlib.Data.Nat.Prime.Basic
import Mathlib.Logic.Function.Basic
import Mathlib.Tactic.Linarith
import Mathlib.Tactic.Ring

namespace SploneBox.Lib.OpenAddressing

universe u v

/-! ## §1 Walks -/

/-- How far a walk has come after `s` steps. -/
def tri : ℕ → ℕ
  | 0 => 0
  | s + 1 => tri s + (s + 1)

/-- The bucket that a walk is at after `s` steps. -/
def probe (n h s : ℕ) : ℕ := (h + tri s) % n

theorem two_mul_tri (s : ℕ) : 2 * tri s = s * (s + 1) := by
  induction s with
  | zero => rfl
  | succ s ih =>
      rw [tri, Nat.mul_add, ih]
      ring

@[simp] theorem probe_zero (n h : ℕ) : probe n h 0 = h % n := rfl

theorem probe_succ (n h s : ℕ) : (probe n h s + (s + 1)) % n = probe n h (s + 1) := by
  rw [probe, probe, tri, Nat.mod_add_mod, Nat.add_assoc]

theorem probe_lt {n : ℕ} (hn : 0 < n) (h s : ℕ) : probe n h s < n := Nat.mod_lt _ hn

/-- Where two walks of less than `2 ^ m` steps have come equally far modulo `2 ^ m`, they are equally long: of
the two factors whose product is twice the distance between them one is odd. -/
theorem tri_injective {m s r : ℕ} (hs : s < 2 ^ m) (hr : r ≤ s) (h : 2 ^ m ∣ tri s - tri r) : s = r := by
  have hfactors : 2 * (tri s - tri r) = (s - r) * (s + r + 1) := by
    obtain ⟨d, rfl⟩ := Nat.exists_eq_add_of_le hr
    have hsub : r + d - r = d := by omega
    rw [Nat.mul_sub, two_mul_tri, two_mul_tri, hsub]
    apply Nat.sub_eq_of_eq_add
    ring
  have hdvd : 2 ^ (m + 1) ∣ (s - r) * (s + r + 1) := by
    rw [← hfactors, pow_succ']
    exact Nat.mul_dvd_mul_left 2 h
  have hparity : Even (s - r) ↔ ¬ Even (s + r + 1) := by
    rw [Nat.even_sub hr, Nat.even_add_one, Nat.even_add, not_not]
  by_cases heven : Even (s - r)
  · -- the other factor is odd
    have hodd : Nat.Coprime (2 ^ (m + 1)) (s + r + 1) :=
      Nat.Coprime.pow_left _ (Nat.coprime_two_left.mpr (Nat.not_even_iff_odd.mp (hparity.mp heven)))
    have hzero := Nat.eq_zero_of_dvd_of_lt (hodd.dvd_of_dvd_mul_right hdvd) (by rw [pow_succ]; omega)
    omega
  · have hodd : Nat.Coprime (2 ^ (m + 1)) (s - r) :=
      Nat.Coprime.pow_left _ (Nat.coprime_two_left.mpr (Nat.not_even_iff_odd.mp heven))
    have hle := Nat.le_of_dvd (by omega) (hodd.dvd_of_dvd_mul_left hdvd)
    rw [pow_succ] at hle
    omega

/-- **A walk meets no bucket twice** in its first `2 ^ m` steps. -/
theorem probe_injective {m h s r : ℕ} (hs : s < 2 ^ m) (hr : r < 2 ^ m)
    (heq : probe (2 ^ m) h s = probe (2 ^ m) h r) : s = r := by
  have hdvd : ∀ {a b : ℕ}, b ≤ a → probe (2 ^ m) h a = probe (2 ^ m) h b → 2 ^ m ∣ tri a - tri b := by
    intro a b hle hab
    have hsub := Nat.sub_mod_eq_zero_of_mod_eq hab
    rw [Nat.add_sub_add_left] at hsub
    exact Nat.dvd_of_mod_eq_zero hsub
  rcases Nat.le_total r s with hle | hle
  · exact tri_injective hs hle (hdvd hle heq)
  · exact (tri_injective hr hle (hdvd hle heq.symm)).symm

/-- **A walk meets every bucket** in its first `2 ^ m` steps. -/
theorem probe_surjective {m b : ℕ} (h : ℕ) (hb : b < 2 ^ m) : ∃ s < 2 ^ m, probe (2 ^ m) h s = b := by
  have hinj : Function.Injective fun s :
      Fin (2 ^ m) => (⟨probe (2 ^ m) h s, probe_lt (Nat.two_pow_pos m) h s⟩ : Fin (2 ^ m)) := by
    intro s r heq
    exact Fin.ext (probe_injective s.isLt r.isLt (Fin.mk.inj heq))
  obtain ⟨s, hs⟩ := Finite.injective_iff_surjective.mp hinj ⟨b, hb⟩
  exact ⟨s, s.isLt, Fin.mk.inj hs⟩

/-! ## §2 Tables -/

/-- A bucket. -/
inductive Slot (K : Type u) (V : Type v) where
  | empty
  | deleted
  | entry (k : K) (v : V)

variable {K : Type u} {V : Type v}

namespace Slot

/-- The entry of a bucket. -/
def pair? : Slot K V → Option (K × V)
  | entry k v => some (k, v)
  | _ => none

def isEmpty : Slot K V → Bool
  | empty => true
  | _ => false

@[simp] theorem pair?_empty : (empty : Slot K V).pair? = none := rfl

@[simp] theorem pair?_deleted : (deleted : Slot K V).pair? = none := rfl

@[simp] theorem pair?_entry (k : K) (v : V) : (entry k v).pair? = some (k, v) := rfl

theorem pair?_eq_some {x : Slot K V} {k : K} {v : V} : x.pair? = some (k, v) ↔ x = entry k v := by
  cases x with
  | empty => simp
  | deleted => simp
  | entry k' v' => simp

end Slot

/-- The entries of a table of `n` buckets. -/
def entries (n : ℕ) (t : ℕ → Slot K V) : List (K × V) := (List.range n).filterMap fun b => (t b).pair?

/-- The number of buckets that are not empty. -/
def occupied (n : ℕ) (t : ℕ → Slot K V) : ℕ := (List.range n).countP fun b => !(t b).isEmpty

theorem mem_entries {n : ℕ} {t : ℕ → Slot K V} {k : K} {v : V} :
    (k, v) ∈ entries n t ↔ ∃ b < n, t b = .entry k v := by
  simp only [entries, List.mem_filterMap, List.mem_range, Slot.pair?_eq_some]

theorem range_split {b n : ℕ} (hb : b < n) : ∃ l r, List.range n = l ++ b :: r ∧ b ∉ l ∧ b ∉ r := by
  obtain ⟨l, r, heq⟩ := List.append_of_mem (List.mem_range.mpr hb)
  have hnodup := heq ▸ List.nodup_range (n := n)
  rw [List.nodup_append] at hnodup
  obtain ⟨-, hr, hdisjoint⟩ := hnodup
  exact ⟨l, r, heq, fun hl => hdisjoint b hl b List.mem_cons_self rfl, (List.nodup_cons.mp hr).1⟩

theorem filterMap_update {t : ℕ → Slot K V} {b : ℕ} {l : List ℕ} (hb : b ∉ l) (x : Slot K V) :
    (l.filterMap fun a => (Function.update t b x a).pair?) = l.filterMap fun a => (t a).pair? := by
  apply List.filterMap_congr
  intro a ha
  rw [Function.update_of_ne (ne_of_mem_of_not_mem ha hb)]

/-- **Changing one bucket** takes its entry away and adds the new one. -/
theorem entries_update {n b : ℕ} (hb : b < n) (t : ℕ → Slot K V) (x : Slot K V) :
    (x.pair?.toList ++ entries n t).Perm ((t b).pair?.toList ++ entries n (Function.update t b x)) := by
  obtain ⟨l, r, heq, hl, hr⟩ := range_split hb
  have hsplit : ∀ u : ℕ → Slot K V, (entries n u).Perm
      ((u b).pair?.toList ++ ((l.filterMap fun a => (u a).pair?) ++ r.filterMap fun a => (u a).pair?)) := by
    intro u
    have hcons : ((b :: r).filterMap fun a => (u a).pair?) = (u b).pair?.toList ++ r.filterMap fun a =>
        (u a).pair? := by
      rw [List.filterMap_cons]
      cases (u b).pair? with
      | none => rfl
      | some e => rfl
    rw [entries, heq, List.filterMap_append, hcons, ← List.append_assoc, ← List.append_assoc]
    exact List.perm_append_comm.append_right _
  have hold := hsplit t
  have hnew := hsplit (Function.update t b x)
  rw [Function.update_self, filterMap_update hl, filterMap_update hr] at hnew
  exact (hold.append_left _).trans ((List.perm_append_comm_assoc _ _ _).trans (hnew.append_left _).symm)

theorem occupied_update {n b : ℕ} (hb : b < n) (t : ℕ → Slot K V) (x : Slot K V) :
    occupied n (Function.update t b x) + (if (t b).isEmpty then 0 else 1) = occupied n t + if x.isEmpty then 0
      else 1 := by
  obtain ⟨l, r, heq, hl, hr⟩ := range_split hb
  have hsame : ∀ q : List ℕ, b ∉ q →
      (q.countP fun a => !(Function.update t b x a).isEmpty) = q.countP fun a => !(t a).isEmpty := by
    intro q hq
    apply List.countP_congr
    intro a ha
    rw [Function.update_of_ne (ne_of_mem_of_not_mem ha hq)]
  rw [occupied, occupied, heq, List.countP_append, List.countP_append, List.countP_cons, List.countP_cons,
    hsame l hl, hsame r hr, Function.update_self]
  cases (t b).isEmpty <;> cases x.isEmpty <;> simp <;> omega

/-- Where not every bucket is taken there is an empty one. -/
theorem exists_empty {n : ℕ} {t : ℕ → Slot K V} (h : occupied n t < n) : ∃ b < n, t b = .empty := by
  by_contra hnone
  push Not at hnone
  have hall : ∀ b ∈ List.range n, (!(t b).isEmpty) = true := by
    intro b hb
    have hne := hnone b (List.mem_range.mp hb)
    cases hx : t b with
    | empty => exact absurd hx hne
    | deleted => rfl
    | entry k v => rfl
  have hcount := List.countP_eq_length.mpr hall
  rw [List.length_range] at hcount
  exact absurd hcount (Nat.ne_of_lt h)

theorem length_entries_le (n : ℕ) (t : ℕ → Slot K V) : (entries n t).length ≤ occupied n t := by
  rw [occupied, entries, List.length_filterMap_eq_countP]
  apply List.countP_mono_left
  intro b _ hb
  cases hx : t b with
  | empty =>
      rw [hx] at hb
      cases hb
  | deleted => rfl
  | entry k v => rfl

/-- Where nothing was taken out, the buckets that are not empty are those of the entries. -/
theorem occupied_eq_length {n : ℕ} {t : ℕ → Slot K V} (h : ∀ b < n, t b ≠ .deleted) :
    occupied n t = (entries n t).length := by
  rw [occupied, entries, List.length_filterMap_eq_countP]
  apply List.countP_congr
  intro b hb
  have hne := h b (List.mem_range.mp hb)
  cases hx : t b with
  | empty => simp [Slot.isEmpty]
  | deleted => exact absurd hx hne
  | entry k v => simp [Slot.isEmpty]

/-! ## §3 Valid tables -/

variable (hash : K → ℕ)

/-- The walk of a key comes to the bucket, and to no empty bucket before it. -/
def Reaches (n : ℕ) (t : ℕ → Slot K V) (k : K) (b : ℕ) : Prop :=
  ∃ s, probe n (hash k) s = b ∧ ∀ r < s, t (probe n (hash k) r) ≠ .empty

/-- **The invariant**: every entry is reached, and no key has two. -/
structure Valid (n : ℕ) (t : ℕ → Slot K V) : Prop where
  reached : ∀ b < n, ∀ k v, t b = .entry k v → Reaches hash n t k b
  nodup : ((entries n t).map Prod.fst).Nodup

/-- Where a search for the key ends: an empty bucket, or its entry. -/
def Stops (t : ℕ → Slot K V) (k : K) (b : ℕ) : Prop := t b = .empty ∨ ∃ v, t b = .entry k v

variable {hash}

theorem Valid.of_empty {n : ℕ} {t : ℕ → Slot K V} (h : ∀ b < n, (t b).pair? = none) : Valid hash n t := by
  constructor
  · intro b hb k v hbv
    have hnone := h b hb
    rw [hbv] at hnone
    cases hnone
  · have hnil : entries n t = [] := List.filterMap_eq_nil_iff.mpr fun b hb => h b (List.mem_range.mp hb)
    rw [hnil]
    exact List.nodup_nil

/-- A walk stops where there is an empty bucket. -/
theorem exists_stop (hash : K → ℕ) {m : ℕ} {t : ℕ → Slot K V} (hole : ∃ b < 2 ^ m, t b = .empty) (k : K) :
    ∃ s < 2 ^ m, Stops t k (probe (2 ^ m) (hash k) s) ∧ ∀ r < s, ¬ Stops t k (probe (2 ^ m) (hash k) r) := by
  classical
  obtain ⟨b, hb, hempty⟩ := hole
  obtain ⟨s, hs, rfl⟩ := probe_surjective (hash k) hb
  have hex : ∃ s, Stops t k (probe (2 ^ m) (hash k) s) := ⟨s, Or.inl hempty⟩
  exact ⟨Nat.find hex, (Nat.find_min' hex (Or.inl hempty)).trans_lt hs, Nat.find_spec hex, fun r hr =>
    Nat.find_min hex hr⟩

/-- **What a walk finds out.** Where it stops first there is the entry of the key, or the table has none. -/
theorem Valid.lookup {n s : ℕ} {t : ℕ → Slot K V} (h : Valid hash n t) {k : K} (hn : 0 < n)
    (hstop : Stops t k (probe n (hash k) s)) (hfirst : ∀ r < s, ¬ Stops t k (probe n (hash k) r)) :
    (∃ v, t (probe n (hash k) s) = .entry k v ∧ (k, v) ∈ entries n t) ∨
      t (probe n (hash k) s) = .empty ∧ ∀ v, (k, v) ∉ entries n t := by
  rcases hstop with hempty | ⟨v, hv⟩
  · refine Or.inr ⟨hempty, fun v hmem => ?_⟩
    -- an entry of the key would be met no later than here, and there is nothing here
    obtain ⟨b, hb, hbv⟩ := mem_entries.mp hmem
    obtain ⟨s', rfl, hbefore⟩ := h.reached b hb k v hbv
    rcases Nat.lt_trichotomy s s' with hlt | rfl | hlt
    · exact hbefore s hlt hempty
    · rw [hempty] at hbv
      cases hbv
    · exact hfirst s' hlt (Or.inr ⟨v, hbv⟩)
  · exact Or.inl ⟨v, hv, mem_entries.mpr ⟨_, probe_lt hn _ _, hv⟩⟩

/-- What does not empty a bucket does not cut off a walk. -/
theorem Reaches.update {n b : ℕ} {t : ℕ → Slot K V} {k : K} {a : ℕ} (h : Reaches hash n t k a) {x : Slot K V}
    (hx : x ≠ .empty) :
    Reaches hash n (Function.update t b x) k a := by
  obtain ⟨s, hs, hbefore⟩ := h
  refine ⟨s, hs, fun r hr => ?_⟩
  by_cases hb : probe n (hash k) r = b
  · rw [hb, Function.update_self]
    exact hx
  · rw [Function.update_of_ne hb]
    exact hbefore r hr

/-- **Putting** an entry of a new key where its walk comes to a bucket without one. -/
theorem Valid.insert {n b : ℕ} {t : ℕ → Slot K V} (h : Valid hash n t) (hb : b < n)
    (hfree : (t b).pair? = none) {k : K} (hreach : Reaches hash n t k b)
    (hnew : ∀ v, (k, v) ∉ entries n t) (v : V) :
    Valid hash n (Function.update t b (.entry k v)) ∧
      (entries n (Function.update t b (.entry k v))).Perm ((k, v) :: entries n t) := by
  have hperm := entries_update hb t (.entry k v)
  rw [hfree, Slot.pair?_entry, Option.toList_none, List.nil_append, Option.toList_some,
    List.singleton_append] at hperm
  have hne : (.entry k v : Slot K V) ≠ .empty := by simp
  refine ⟨⟨?_, ?_⟩, hperm.symm⟩
  · intro a ha k' v' hav
    by_cases hab : a = b
    · rw [hab, Function.update_self] at hav
      cases hav
      rw [hab]
      exact hreach.update hne
    · rw [Function.update_of_ne hab] at hav
      exact (h.reached a ha k' v' hav).update hne
  · rw [← (hperm.map Prod.fst).nodup_iff, List.map_cons, List.nodup_cons]
    refine ⟨fun hmem => ?_, h.nodup⟩
    obtain ⟨⟨k', v'⟩, hkv, rfl⟩ := List.mem_map.mp hmem
    exact hnew v' hkv

/-- **Taking out** an entry leaves a mark. -/
theorem Valid.delete {n b : ℕ} {t : ℕ → Slot K V} (h : Valid hash n t) (hb : b < n) {k : K} {v : V}
    (hv : t b = .entry k v) :
    Valid hash n (Function.update t b .deleted) ∧
      (entries n t).Perm ((k, v) :: entries n (Function.update t b .deleted)) := by
  have hperm := entries_update hb t .deleted
  rw [hv, Slot.pair?_entry, Slot.pair?_deleted, Option.toList_none, List.nil_append, Option.toList_some,
    List.singleton_append] at hperm
  have hne : (.deleted : Slot K V) ≠ .empty := by simp
  refine ⟨⟨?_, ?_⟩, hperm⟩
  · intro a ha k' v' hav
    by_cases hab : a = b
    · rw [hab, Function.update_self] at hav
      cases hav
    · rw [Function.update_of_ne hab] at hav
      exact (h.reached a ha k' v' hav).update hne
  · have hnodup := (hperm.map Prod.fst).nodup_iff.mp h.nodup
    rw [List.map_cons, List.nodup_cons] at hnodup
    exact hnodup.2

/-- **Replacing** the value of an entry. -/
theorem Valid.replace {n b : ℕ} {t : ℕ → Slot K V} (h : Valid hash n t) (hb : b < n) {k : K} {v : V}
    (hv : t b = .entry k v) (v' : V) :
    Valid hash n (Function.update t b (.entry k v')) ∧
      ∃ rest, (entries n t).Perm ((k, v) :: rest) ∧
      (entries n (Function.update t b (.entry k v'))).Perm ((k, v') :: rest) := by
  obtain ⟨hdeleted, hperm⟩ := h.delete hb hv
  have htwice : Function.update (Function.update t b .deleted) b (.entry k v') =
      Function.update t b (.entry k v') := Function.update_idem _ _ _
  have hgone : ∀ w, (k, w) ∉ entries n (Function.update t b .deleted) := by
    intro w hw
    have hnodup := (hperm.map Prod.fst).nodup_iff.mp h.nodup
    rw [List.map_cons, List.nodup_cons] at hnodup
    exact hnodup.1 (List.mem_map.mpr ⟨_, hw, rfl⟩)
  have hinsert :=
    hdeleted.insert hb (by rw [Function.update_self]; rfl) ((h.reached b hb k v hv).update (by simp)) hgone v'
  rw [htwice] at hinsert
  exact ⟨hinsert.1, _, hperm, hinsert.2⟩

/-! ## §4 Tables as partial functions -/

/-- The pairs are those of the partial function. -/
def Shows (l : List (K × V)) (f : K → Option V) : Prop := ∀ k v, f k = some v ↔ (k, v) ∈ l

theorem Shows.nil : Shows ([] : List (K × V)) fun _ => none := by
  intro k v
  simp

theorem Shows.perm {l l' : List (K × V)} {f : K → Option V} (h : Shows l f) (hperm : l.Perm l') :
    Shows l' f := by
  intro k v
  rw [h, hperm.mem_iff]

theorem Shows.none_iff {l : List (K × V)} {f : K → Option V} (h : Shows l f) (k : K) :
    f k = none ↔ ∀ v, (k, v) ∉ l := by
  rw [Option.eq_none_iff_forall_ne_some]
  exact forall_congr' fun v => not_congr (h k v)

variable [DecidableEq K]

theorem Shows.cons {l : List (K × V)} {f : K → Option V} (h : Shows l f) {k : K}
    (hk : ∀ v, (k, v) ∉ l) (v : V) :
    Shows ((k, v) :: l) (Function.update f k (some v)) := by
  intro k' v'
  rw [List.mem_cons, Prod.mk.injEq]
  by_cases hkk : k' = k
  · subst hkk
    rw [Function.update_self, Option.some.injEq]
    constructor
    · intro hv
      exact Or.inl ⟨rfl, hv.symm⟩
    · rintro (⟨-, hv⟩ | hmem)
      · exact hv.symm
      · exact absurd hmem (hk v')
  · rw [Function.update_of_ne hkk, h]
    constructor
    · exact Or.inr
    · rintro (⟨heq, -⟩ | hmem)
      · exact absurd heq hkk
      · exact hmem

theorem exists_shows {l : List (K × V)} (hnodup : (l.map Prod.fst).Nodup) : ∃ f, Shows l f := by
  induction l with
  | nil => exact ⟨_, Shows.nil⟩
  | cons p l ih =>
      rw [List.map_cons, List.nodup_cons] at hnodup
      obtain ⟨f, hf⟩ := ih hnodup.2
      exact ⟨_, hf.cons (fun v hv => hnodup.1 (List.mem_map.mpr ⟨_, hv, rfl⟩)) p.2⟩

theorem Shows.tail {l : List (K × V)} {f : K → Option V} {k : K} {v : V} (h : Shows ((k, v) :: l) f)
    (hnodup : (((k, v) :: l).map Prod.fst).Nodup) : Shows l (Function.update f k none) := by
  rw [List.map_cons, List.nodup_cons] at hnodup
  have hgone : ∀ w, (k, w) ∉ l := fun w hw => hnodup.1 (List.mem_map.mpr ⟨_, hw, rfl⟩)
  intro k' v'
  by_cases hkk : k' = k
  · subst hkk
    rw [Function.update_self]
    exact ⟨fun hnone => absurd hnone (by simp), fun hmem => absurd hmem (hgone v')⟩
  · rw [Function.update_of_ne hkk, h, List.mem_cons, Prod.mk.injEq]
    constructor
    · rintro (⟨heq, -⟩ | hmem)
      · exact absurd heq hkk
      · exact hmem
    · exact Or.inr

end SploneBox.Lib.OpenAddressing
