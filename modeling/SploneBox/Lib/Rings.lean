/-
# SploneBox.Lib.Rings — circular doubly linked lists of nodes that carry their own links.

Every node has a `next` and a `prev` link. A ring is a head node and the nodes that `next` leads through until
it is back at the head, with `prev` leading the other way; a head alone is linked to itself. Nodes are
inserted before the head and removed wherever they are, with a few assignments to links of their neighbours
and no knowledge of the head.

A ring is described by the list of its nodes (`Linked`). Inserting appends to the list (`insertTail_linked`),
removing deletes from it (`remove_linked`), and a ring that shares no node with the one that is changed stays
what it is. So a family of rings without a common node is kept, with one of its lists changed
(`Family.insertTail`, `Family.remove`). The types of the nodes and of the family's index are arbitrary.
-/
import Mathlib.Data.List.Nodup
import Mathlib.Tactic.Common

namespace SploneBox.Lib.Rings

universe u v

variable {α : Type u} {ι : Type v}

/-! ## §1 Links -/

/-- The links of all nodes. -/
structure Links (α : Type u) where
  next : α → α
  prev : α → α

section

variable [DecidableEq α]

/-- `q->next = n`. -/
def Links.setNext (L : Links α) (q n : α) : Links α := { L with next := fun x => if x = q then n else L.next x }

/-- `q->prev = p`. -/
def Links.setPrev (L : Links α) (q p : α) : Links α := { L with prev := fun x => if x = q then p else L.prev x }

/-- The head without nodes. -/
def Links.init (L : Links α) (h : α) : Links α := (L.setNext h h).setPrev h h

/-- The node `q` is put before the head. -/
def Links.insertTail (L : Links α) (h q : α) : Links α :=
  let L := L.setNext q h
  let L := L.setPrev q (L.prev h)
  let L := L.setNext (L.prev q) q
  L.setPrev h q

/-- The neighbours of `q` are linked to each other. -/
def Links.remove (L : Links α) (q : α) : Links α :=
  let L := L.setNext (L.prev q) (L.next q)
  L.setPrev (L.next q) (L.prev q)

/-- No node but the head. -/
def Links.empty (L : Links α) (h : α) : Bool := h = L.next h

end

/-! ## §2 Paths and rings -/

/-- From `a` on, `next` leads through `ns` to `b`, and `prev` leads back. -/
def Path (L : Links α) : α → List α → α → Prop
  | a, [], b => L.next a = b ∧ L.prev b = a
  | a, n :: ns, b => (L.next a = n ∧ L.prev n = a) ∧ Path L n ns b

/-- The nodes of the ring with this head. -/
structure Linked (L : Links α) (h : α) (ns : List α) : Prop where
  path : Path L h ns h
  nodup : (h :: ns).Nodup

theorem path_append {L : Links α} {b c : α} {ys : List α} :
    ∀ {xs : List α} {a : α}, Path L a (xs ++ b :: ys) c ↔ Path L a xs b ∧ Path L b ys c
  | [], _ => Iff.rfl
  | x :: xs, a => by
      simp only [List.cons_append, Path, path_append, and_assoc]

/-- A path depends on the links it uses. -/
theorem path_congr {L L' : Links α} {b : α} :
    ∀ {ns : List α} {a : α}, (∀ x ∈ a :: ns, L'.next x = L.next x) → (∀ x ∈ ns ++ [b], L'.prev x = L.prev x) →
      Path L a ns b → Path L' a ns b
  | [], a, hnext, hprev, h => by
      have hn := hnext a List.mem_cons_self
      have hp := hprev b (by simp)
      exact ⟨hn.trans h.1, hp.trans h.2⟩
  | n :: ns, a, hnext, hprev, h => by
      have hn := hnext a List.mem_cons_self
      have hp := hprev n (by simp)
      refine ⟨⟨hn.trans h.1.1, hp.trans h.1.2⟩, path_congr ?_ ?_ h.2⟩
      · intro x hx
        exact hnext x (List.mem_cons_of_mem _ hx)
      · intro x hx
        exact hprev x (List.mem_cons_of_mem _ hx)

/-- A ring depends on the links of its nodes. -/
theorem Linked.congr {L L' : Links α} {h : α} {ns : List α} (hring : Linked L h ns)
    (hsame : ∀ x ∈ h :: ns, L'.next x = L.next x ∧ L'.prev x = L.prev x) : Linked L' h ns := by
  refine ⟨path_congr (fun x hx => (hsame x hx).1) (fun x hx => (hsame x ?_).2) hring.path, hring.nodup⟩
  rcases List.mem_append.mp hx with hmem | hmem
  · exact List.mem_cons_of_mem _ hmem
  · rw [List.mem_singleton.mp hmem]
    exact List.mem_cons_self

/-- The first node is the one behind the head. -/
theorem Linked.head_next {L : Links α} {h n : α} {ns : List α} (hring : Linked L h (n :: ns)) : L.next h = n :=
  hring.path.1.1

theorem Linked.empty_iff [DecidableEq α] {L : Links α} {h : α} {ns : List α} (hring : Linked L h ns) :
    L.empty h = ns.isEmpty := by
  unfold Links.empty
  cases ns with
  | nil => exact decide_eq_true hring.path.1.symm
  | cons n ns =>
      refine decide_eq_false ?_
      rw [hring.head_next]
      intro heq
      exact (List.nodup_cons.mp hring.nodup).1 (heq ▸ List.mem_cons_self)

/-- The node before the end of a path is one of the path. -/
theorem Path.prev_mem {L : Links α} {b : α} : ∀ {ns : List α} {a : α}, Path L a ns b → L.prev b ∈ a :: ns
  | [], _, h => by
      rw [h.2]
      exact List.mem_cons_self
  | _ :: _, _, h => List.mem_cons_of_mem _ h.2.prev_mem

/-- The node before `q` is one of those before it, so it is not `q`. -/
theorem Linked.prev_ne {L : Links α} {h q : α} {as bs : List α} (hring : Linked L h (as ++ q :: bs)) :
    L.prev q ∈ h :: as ∧ q ∉ h :: as := by
  refine ⟨(path_append.mp hring.path).1.prev_mem, ?_⟩
  have hnodup := hring.nodup
  rw [← List.cons_append] at hnodup
  intro hmem
  exact (List.nodup_append.mp hnodup).2.2 q hmem q List.mem_cons_self rfl

/-! ## §3 Inserting and removing -/

section

variable [DecidableEq α]

@[simp] theorem setNext_next (L : Links α) (q n x : α) : (L.setNext q n).next x = if x = q then n
    else L.next x := rfl

@[simp] theorem setNext_prev (L : Links α) (q n : α) : (L.setNext q n).prev = L.prev := rfl

@[simp] theorem setPrev_prev (L : Links α) (q p x : α) : (L.setPrev q p).prev x = if x = q then p
    else L.prev x := rfl

@[simp] theorem setPrev_next (L : Links α) (q p : α) : (L.setPrev q p).next = L.next := rfl

theorem init_linked (L : Links α) (h : α) : Linked (L.init h) h [] := by
  refine ⟨?_, List.nodup_singleton h⟩
  show (L.init h).next h = h ∧ (L.init h).prev h = h
  simp [Links.init]

theorem insertTail_next (L : Links α) (h q x : α) :
    (L.insertTail h q).next x = if x = L.prev h then q else if x = q then h else L.next x := by
  simp [Links.insertTail]

theorem insertTail_prev (L : Links α) (h q x : α) :
    (L.insertTail h q).prev x = if x = h then q else if x = q then L.prev h else L.prev x := by
  simp [Links.insertTail]

theorem remove_next (L : Links α) (q x : α) :
    (L.remove q).next x = if x = L.prev q then L.next q else L.next x := by
  simp [Links.remove]

theorem remove_prev (L : Links α) {q : α} (hne : q ≠ L.prev q) (x : α) :
    (L.remove q).prev x = if x = L.next q then L.prev q else L.prev x := by
  simp [Links.remove, hne]

/-- The end of a path is moved: the last link is redirected. -/
theorem path_redirect {L L' : Links α} {b c : α} :
    ∀ {ns : List α} {a : α}, Path L a ns b → (a :: ns).Nodup →
      (∀ x ∈ a :: ns, L'.next x = if x = L.prev b then c else L.next x) → (∀ x ∈ ns, L'.prev x = L.prev x) →
      L'.prev c = L.prev b → Path L' a ns c
  | [], a, h, _, hnext, _, hc => by
      have hlast : L.prev b = a := h.2
      refine ⟨?_, hc.trans hlast⟩
      rw [hnext a List.mem_cons_self, hlast, if_pos rfl]
  | n :: ns, a, h, hnodup, hnext, hprev, hc => by
      have hmem : L.prev b ∈ n :: ns := h.2.prev_mem
      have hne : a ≠ L.prev b := by
        intro heq
        exact (List.nodup_cons.mp hnodup).1 (heq ▸ hmem)
      refine ⟨⟨?_, ?_⟩, path_redirect h.2 (List.nodup_cons.mp hnodup).2 ?_ ?_ hc⟩
      · rw [hnext a List.mem_cons_self, if_neg hne]
        exact h.1.1
      · rw [hprev n List.mem_cons_self]
        exact h.1.2
      · intro x hx
        exact hnext x (List.mem_cons_of_mem _ hx)
      · intro x hx
        exact hprev x (List.mem_cons_of_mem _ hx)

/-- **Inserting appends.** -/
theorem insertTail_linked {L : Links α} {h q : α} {ns : List α} (hring : Linked L h ns) (hq : q ∉ h :: ns) :
    Linked (L.insertTail h q) h (ns ++ [q]) := by
  have hne : h ≠ q := fun heq => hq (heq ▸ List.mem_cons_self)
  have hlast : L.prev h ∈ h :: ns := hring.path.prev_mem
  have hqlast : q ≠ L.prev h := fun heq => hq (heq ▸ hlast)
  refine ⟨path_append.mpr ⟨?_, ?_, ?_⟩, ?_⟩
  · refine path_redirect hring.path hring.nodup ?_ ?_ ?_
    · intro x hx
      have hxq : x ≠ q := fun heq => hq (heq ▸ hx)
      rw [insertTail_next, if_neg hxq]
    · intro x hx
      have hxq : x ≠ q := fun heq => hq (heq ▸ List.mem_cons_of_mem _ hx)
      have hxh : x ≠ h := fun heq => (List.nodup_cons.mp hring.nodup).1 (heq ▸ hx)
      rw [insertTail_prev, if_neg hxh, if_neg hxq]
    · rw [insertTail_prev, if_neg hne.symm, if_pos rfl]
  · rw [insertTail_next, if_neg hqlast, if_pos rfl]
  · rw [insertTail_prev, if_pos rfl]
  · have hnodup := hring.nodup
    rw [← List.cons_append]
    exact List.nodup_append.mpr ⟨hnodup, List.nodup_singleton q, fun x hx y hy heq =>
      hq (List.mem_singleton.mp hy ▸ heq ▸ hx)⟩

/-- Inserting into another ring. -/
theorem Linked.insertTail {L : Links α} {h q h' : α} {ns ns' : List α} (hring : Linked L h ns)
    (hother : Linked L h' ns') (hq : q ∉ h :: ns) (hdisjoint : ∀ x ∈ h :: ns, x ∉ h' :: ns') :
    Linked (L.insertTail h' q) h ns := by
  refine hring.congr fun x hx => ?_
  have hxq : x ≠ q := fun heq => hq (heq ▸ hx)
  have hxh : x ≠ h' := fun heq => hdisjoint x hx (heq ▸ List.mem_cons_self)
  have hxlast : x ≠ L.prev h' := fun heq => hdisjoint x hx (heq ▸ hother.path.prev_mem)
  rw [insertTail_next, insertTail_prev, if_neg hxlast, if_neg hxq, if_neg hxh]
  exact ⟨rfl, if_neg hxq⟩

/-- **Removing deletes.** -/
theorem remove_linked {L : Links α} {h q : α} {as bs : List α} (hring : Linked L h (as ++ q :: bs)) :
    Linked (L.remove q) h (as ++ bs) := by
  obtain ⟨hprev, hq⟩ := hring.prev_ne
  have hne : q ≠ L.prev q := fun heq => hq (heq ▸ hprev)
  obtain ⟨hpath₁, hpath₂⟩ := path_append.mp hring.path
  have hnodup : ((h :: as) ++ (q :: bs)).Nodup := by
    rw [List.cons_append]
    exact hring.nodup
  obtain ⟨hnodup₁, hnodup₂, hdisjoint⟩ := List.nodup_append.mp hnodup
  have hnodup' : (h :: (as ++ bs)).Nodup := by
    rw [← List.cons_append]
    exact List.nodup_append.mpr ⟨hnodup₁, (List.nodup_cons.mp hnodup₂).2,
      fun x hx y hy => hdisjoint x hx y (List.mem_cons_of_mem _ hy)⟩
  -- the way to the node that was behind `q`
  have hfront : ∀ c, L.next q = c → c ∉ as → Path (L.remove q) h as c := by
    intro c hc hcas
    refine path_redirect hpath₁ hnodup₁ ?_ ?_ ?_
    · intro x _
      rw [remove_next, hc]
    · intro x hx
      rw [remove_prev L hne, if_neg]
      rw [hc]
      rintro rfl
      exact hcas hx
    · rw [remove_prev L hne, if_pos hc.symm]
  cases bs with
  | nil =>
      rw [List.append_nil]
      exact ⟨hfront h hpath₂.1 (List.nodup_cons.mp hnodup₁).1, hnodup₁⟩
  | cons b bs =>
      obtain ⟨⟨hb, -⟩, hpath₃⟩ := hpath₂
      have hbas : b ∉ h :: as := fun hmem => hdisjoint b hmem b (by simp) rfl
      refine ⟨path_append.mpr ⟨hfront b hb (fun hmem => hbas (List.mem_cons_of_mem _ hmem)), ?_⟩, hnodup'⟩
      refine path_congr ?_ ?_ hpath₃
      · intro x hx
        rw [remove_next, if_neg]
        intro heq
        exact hdisjoint (L.prev q) hprev x (List.mem_cons_of_mem _ hx) heq.symm
      · intro x hx
        rw [remove_prev L hne, if_neg]
        rw [hb]
        rintro rfl
        rcases List.mem_append.mp hx with hmem | hmem
        · exact (List.nodup_cons.mp (List.nodup_cons.mp hnodup₂).2).1 hmem
        · exact hbas (List.mem_singleton.mp hmem ▸ List.mem_cons_self)

/-- Removing from another ring. -/
theorem Linked.remove {L : Links α} {h q h' : α} {ns as bs : List α} (hring : Linked L h ns)
    (hother : Linked L h' (as ++ q :: bs)) (hdisjoint : ∀ x ∈ h :: ns, x ∉ h' :: (as ++ q :: bs)) :
    Linked (L.remove q) h ns := by
  obtain ⟨hprev, hq⟩ := hother.prev_ne
  have hne : q ≠ L.prev q := fun heq => hq (heq ▸ hprev)
  have hnext : L.next q ∈ h' :: (as ++ q :: bs) := by
    cases bs with
    | nil =>
        rw [(path_append.mp hother.path).2.1]
        exact List.mem_cons_self
    | cons b bs =>
        rw [(path_append.mp hother.path).2.1.1]
        simp
  refine hring.congr fun x hx => ?_
  rw [remove_next, remove_prev L hne, if_neg, if_neg]
  · exact ⟨rfl, rfl⟩
  · intro heq
    exact hdisjoint x hx (heq ▸ hnext)
  · intro heq
    refine hdisjoint x hx (heq ▸ ?_)
    rw [← List.cons_append]
    exact List.mem_append_left _ hprev

end

/-! ## §4 Families -/

/-- The heads that are `live` have the nodes `f`, and no two of these rings have a node in common. -/
structure Family (L : Links α) (head : ι → α) (live : ι → Prop) (f : ι → List α) : Prop where
  linked : ∀ i, live i → Linked L (head i) (f i)
  disjoint : ∀ i j, live i → live j → i ≠ j → ∀ x ∈ head i :: f i, x ∉ head j :: f j

variable {L : Links α} {head : ι → α} {live : ι → Prop} {f : ι → List α}

theorem Family.congr (h : Family L head live f) {g : ι → List α} (hfg : ∀ i, live i → f i = g i) :
    Family L head live g := by
  refine ⟨?_, ?_⟩
  · intro i hi
    rw [← hfg i hi]
    exact h.linked i hi
  · intro i j hi hj
    rw [← hfg i hi, ← hfg j hj]
    exact h.disjoint i j hi hj

theorem Family.mono (h : Family L head live f) {live' : ι → Prop} (hlive : ∀ i, live' i → live i) :
    Family L head live' f :=
  ⟨fun i hi => h.linked i (hlive i hi), fun i j hi hj => h.disjoint i j (hlive i hi) (hlive j hj)⟩

section

variable [DecidableEq α] [DecidableEq ι]

theorem Family.insertTail (h : Family L head live f) {j : ι} (hj : live j) {q : α}
    (hq : ∀ i, live i → q ∉ head i :: f i) :
    Family (L.insertTail (head j) q) head live (fun i => if i = j then f i ++ [q] else f i) := by
  have hmem : ∀ i x, live i → x ∈ head i :: (if i = j then f i ++ [q] else f i) → x ∈ head i :: f i ∨
      i = j ∧ x = q := by
    intro i x _ hx
    by_cases hij : i = j
    · rw [if_pos hij, ← List.cons_append] at hx
      rcases List.mem_append.mp hx with hx | hx
      · exact Or.inl hx
      · exact Or.inr ⟨hij, List.mem_singleton.mp hx⟩
    · rw [if_neg hij] at hx
      exact Or.inl hx
  refine ⟨?_, ?_⟩
  · intro i hi
    by_cases hij : i = j
    · subst hij
      rw [if_pos rfl]
      exact insertTail_linked (h.linked i hi) (hq i hi)
    · rw [if_neg hij]
      exact (h.linked i hi).insertTail (h.linked j hj) (hq i hi) (h.disjoint i j hi hj hij)
  · intro i k hi hk hik x hx hx'
    rcases hmem i x hi hx with hold | ⟨hij, hxq⟩
    · rcases hmem k x hk hx' with hold' | ⟨-, hxq⟩
      · exact h.disjoint i k hi hk hik x hold hold'
      · exact hq i hi (hxq ▸ hold)
    · rcases hmem k x hk hx' with hold' | ⟨hkj, -⟩
      · exact hq k hk (hxq ▸ hold')
      · exact hik (hij.trans hkj.symm)

theorem Family.remove (h : Family L head live f) {j : ι} (hj : live j) {q : α} {as bs : List α}
    (hf : f j = as ++ q :: bs) : Family (L.remove q) head live (fun i => if i = j then as ++ bs else f i) := by
  have hmem : ∀ i x, live i → x ∈ head i :: (if i = j then as ++ bs else f i) → x ∈ head i :: f i := by
    intro i x _ hx
    by_cases hij : i = j
    · subst hij
      rw [if_pos rfl] at hx
      rw [hf]
      rcases List.mem_cons.mp hx with rfl | hx
      · exact List.mem_cons_self
      · rcases List.mem_append.mp hx with hx | hx <;> simp [hx]
    · rw [if_neg hij] at hx
      exact hx
  have hring := h.linked j hj
  rw [hf] at hring
  refine ⟨?_, ?_⟩
  · intro i hi
    by_cases hij : i = j
    · subst hij
      rw [if_pos rfl]
      exact remove_linked hring
    · rw [if_neg hij]
      refine (h.linked i hi).remove hring ?_
      rw [← hf]
      exact h.disjoint i j hi hj hij
  · intro i k hi hk hik x hx hx'
    exact h.disjoint i k hi hk hik x (hmem i x hi hx) (hmem k x hk hx')

/-- A new head. -/
theorem Family.init (h : Family L head live f) {j : ι} (hj : ∀ i, live i → head j ∉ head i :: f i) :
    Family (L.init (head j)) head (fun i => live i ∨ i = j) (fun i => if i = j then [] else f i) := by
  have hold : ∀ i, live i → i ≠ j := by
    rintro i hi rfl
    exact hj i hi List.mem_cons_self
  refine ⟨?_, ?_⟩
  · intro i hi
    by_cases hij : i = j
    · subst hij
      rw [if_pos rfl]
      exact init_linked L (head i)
    · have hlive := hi.resolve_right hij
      rw [if_neg hij]
      refine (h.linked i hlive).congr fun x hx => ?_
      have hne : x ≠ head j := fun heq => hj i hlive (heq ▸ hx)
      simp [Links.init, hne]
  · intro i k hi hk hik x hx hx'
    by_cases hij : i = j
    · subst hij
      have hki : k ≠ i := fun heq => hik heq.symm
      rw [if_pos rfl] at hx
      rw [if_neg hki] at hx'
      rw [List.mem_singleton.mp hx] at hx'
      exact hj k (hk.resolve_right hki) hx'
    · have hlive := hi.resolve_right hij
      rw [if_neg hij] at hx
      by_cases hkj : k = j
      · subst hkj
        rw [if_pos rfl] at hx'
        rw [List.mem_singleton.mp hx'] at hx
        exact hj i hlive hx
      · rw [if_neg hkj] at hx'
        exact h.disjoint i k hlive (hk.resolve_right hkj) hik x hx hx'

end

end SploneBox.Lib.Rings
