/-
# SploneBox.Lib.Machine — runs of a partial step function and the rules that carry facts along them.

A machine is a function `step : σ → ι → Option σ`: `none` says the label is not enabled. A run is a
state and a list of labels. Three notions cover every statement about runs that a development over
such a machine needs:

* `exec` — the state a list of labels leads to;
* `Along R` — every step that is taken satisfies the relation `R` (so a condition on the steps, a
  monotonicity law and an invariant of the states reached are all `Along` something);
* `Always I` — the start state and every state reached satisfy `I`.

The rules are the usual ones: an invariant kept by every step that meets a condition holds along every
run whose steps meet it (`along_of_invariant`, `always_of_along`), and when a step that breaks the
condition also breaks the invariant the two sides are the same set of runs (`always_iff_along`). A
step that is computed in `Except σ`, with the state the machine ends in as the error, is reasoned about
with `Ends`. A machine whose states are ordered and only go up is a counter (`exec_increasing`), and one
whose measure goes down under a label comes to an end of it (`exec_of_measure`). Two runs on related labels
are taken `Abreast`. Nothing here names a particular machine.
-/
import Mathlib.Logic.Basic

namespace SploneBox.Lib.Machine

universe u v w

variable {σ : Type u} {ι : Type v}

/-! ## §1 Runs -/

/-- The state reached by a list of labels, `none` as soon as one of them is not enabled. -/
def exec (step : σ → ι → Option σ) : σ → List ι → Option σ
  | s, [] => some s
  | s, l :: ls => (step s l).bind fun s' => exec step s' ls

/-- Every step taken on the run relates its two end states by `R`. -/
def Along (step : σ → ι → Option σ) (R : σ → ι → σ → Prop) : σ → List ι → Prop
  | _, [] => True
  | s, l :: ls => ∀ s', step s l = some s' → R s l s' ∧ Along step R s' ls

/-- The start state and every state reached on the run satisfy `I`. -/
def Always (step : σ → ι → Option σ) (I : σ → Prop) (s : σ) (ls : List ι) : Prop :=
  I s ∧ Along step (fun _ _ s' => I s') s ls

variable {step : σ → ι → Option σ}

theorem exec_cons {s t : σ} {l : ι} {ls : List ι} :
    exec step s (l :: ls) = some t ↔ ∃ s', step s l = some s' ∧ exec step s' ls = some t := by
  simp only [exec, Option.bind_eq_some_iff]

theorem exec_singleton {s t : σ} {l : ι} : exec step s [l] = some t ↔ step s l = some t := by
  simp [exec]

theorem exec_append {s t : σ} {ls ls' : List ι} :
    exec step s (ls ++ ls') = some t ↔ ∃ s', exec step s ls = some s' ∧ exec step s' ls' = some t := by
  induction ls generalizing s with
  | nil => simp [exec]
  | cons l ls ih =>
      rw [List.cons_append, exec_cons]
      simp only [exec_cons, ih]
      constructor
      · rintro ⟨s₁, hs, s₂, hex, hrest⟩
        exact ⟨s₂, ⟨s₁, hs, hex⟩, hrest⟩
      · rintro ⟨s₂, ⟨s₁, hs, hex⟩, hrest⟩
        exact ⟨s₁, hs, s₂, hex, hrest⟩

/-- A run that goes on goes on from where it was. -/
theorem exec_append_of {s t : σ} {ls : List ι} (h : exec step s ls = some t) (ls' : List ι) :
    exec step s (ls ++ ls') = exec step t ls' := by
  induction ls generalizing s with
  | nil =>
      cases h
      rfl
  | cons l ls ih =>
      obtain ⟨s', hs, hrest⟩ := exec_cons.mp h
      show (step s l).bind (fun s' => exec step s' (ls ++ ls')) = exec step t ls'
      rw [hs]
      exact ih hrest

/-- A run of another machine that takes the same steps on its own labels. -/
theorem exec_map {κ : Type w} {step' : σ → κ → Option σ} {f : ι → κ} (hf : ∀ s l, step' s (f l) = step s l)
    (s : σ) (ls : List ι) :
    exec step' s (ls.map f) = exec step s ls := by
  induction ls generalizing s with
  | nil => rfl
  | cons l ls ih =>
      show (step' s (f l)).bind (fun s' => exec step' s' (ls.map f)) = (step s l).bind fun s' => exec step s' ls
      rw [hf]
      exact congrArg _ (funext ih)

theorem along_cons {R : σ → ι → σ → Prop} {s s' : σ} {l : ι} {ls : List ι}
    (h : Along step R s (l :: ls)) (hs : step s l = some s') : R s l s' ∧ Along step R s' ls :=
  h s' hs

theorem along_append_of {R : σ → ι → σ → Prop} {s t : σ} {ls ls' : List ι} (h : exec step s ls = some t)
    (hR : Along step R s ls) (hR' : Along step R t ls') : Along step R s (ls ++ ls') := by
  induction ls generalizing s with
  | nil =>
      cases h
      exact hR'
  | cons l ls ih =>
      obtain ⟨s', hs, hrest⟩ := exec_cons.mp h
      intro s'' hs'
      obtain rfl := Option.some.inj (hs.symm.trans hs')
      obtain ⟨hl, hls⟩ := along_cons hR hs
      exact ⟨hl, ih hrest hls⟩

/-- A condition that can be tested on a step can be tested along a run. -/
instance decidableAlong {R : σ → ι → σ → Prop} [∀ s l s', Decidable (R s l s')] :
    ∀ (s : σ) (ls : List ι), Decidable (Along step R s ls)
  | _, [] => .isTrue trivial
  | s, l :: ls =>
      match h : step s l with
      | none => .isTrue fun _ hs => nomatch h.symm.trans hs
      | some s' =>
          have : Decidable (Along step R s' ls) := decidableAlong s' ls
          decidable_of_iff (R s l s' ∧ Along step R s' ls)
            ⟨fun hR _ hs => Option.some.inj (h.symm.trans hs) ▸ hR, fun hR => hR s' h⟩

/-! ## §2 The invariant rules -/

/-- **The step rule, run form.** If `I` holds at the start and every step that meets `G` keeps `I` and
establishes `R`, then every run whose steps meet `G` satisfies `R` along it. -/
theorem along_of_invariant {I : σ → Prop} {G R : σ → ι → σ → Prop}
    (hstep : ∀ s l s', I s → G s l s' → step s l = some s' → I s' ∧ R s l s') :
    ∀ {ls : List ι} {s : σ}, I s → Along step G s ls → Along step R s ls
  | [], _, _, _ => trivial
  | l :: ls, s, hI, hG => by
      intro s' hs
      obtain ⟨hGl, hGs⟩ := along_cons hG hs
      obtain ⟨hI', hR⟩ := hstep s l s' hI hGl hs
      exact ⟨hR, along_of_invariant hstep hI' hGs⟩

/-- An invariant kept by every step that meets `G` holds in every state of a run whose steps meet
`G`. -/
theorem always_of_along {I : σ → Prop} {G : σ → ι → σ → Prop}
    (hstep : ∀ s l s', I s → G s l s' → step s l = some s' → I s')
    {ls : List ι} {s : σ} (hI : I s) (hG : Along step G s ls) : Always step I s ls :=
  ⟨hI, along_of_invariant (I := I) (fun s l s' h hg hs => ⟨hstep s l s' h hg hs, hstep s l s' h hg hs⟩)
    hI hG⟩

/-- An invariant of every step holds in every state of every run. -/
theorem always_of_step {I : σ → Prop} (hstep : ∀ s l s', I s → step s l = some s' → I s') :
    ∀ {ls : List ι} {s : σ}, I s → Always step I s ls
  | [], _, hI => ⟨hI, trivial⟩
  | l :: ls, s, hI => by
      refine ⟨hI, fun s' hs => ?_⟩
      obtain ⟨hI', hrest⟩ := always_of_step hstep (hstep s l s' hI hs)
      exact ⟨hI', hrest⟩

theorem along_true : ∀ {ls : List ι} {s : σ}, Along step (fun _ _ _ => True) s ls
  | [], _ => trivial
  | _ :: _, _ => fun _ _ => ⟨trivial, along_true⟩

theorem Along.imp {R S : σ → ι → σ → Prop} (hRS : ∀ s l s', R s l s' → S s l s') :
    ∀ {ls : List ι} {s : σ}, Along step R s ls → Along step S s ls
  | [], _, _ => trivial
  | _ :: _, _, h => fun s' hs => ⟨hRS _ _ _ (h s' hs).1, Along.imp hRS (h s' hs).2⟩

theorem Along.and {R S : σ → ι → σ → Prop} :
    ∀ {ls : List ι} {s : σ}, Along step R s ls → Along step S s ls →
      Along step (fun s l s' => R s l s' ∧ S s l s') s ls
  | [], _, _, _ => trivial
  | _ :: _, _, hR, hS => fun s' hs =>
      ⟨⟨(hR s' hs).1, (hS s' hs).1⟩, Along.and (hR s' hs).2 (hS s' hs).2⟩

/-- What holds always holds wherever a step starts. -/
theorem Always.along {I : σ → Prop} :
    ∀ {ls : List ι} {s : σ}, Always step I s ls → Along step (fun s _ _ => I s) s ls
  | [], _, _ => trivial
  | _ :: _, _, h => fun s' hs => ⟨h.1, Always.along (h.2 s' hs)⟩

/-- What holds always holds in the state a run ends in. -/
theorem Always.exec {I : σ → Prop} :
    ∀ {ls : List ι} {s t : σ}, Always step I s ls → exec step s ls = some t → I t
  | [], _, _, h, hex => by
      cases hex
      exact h.1
  | l :: ls, s, t, h, hex => by
      obtain ⟨s', hs, hrest⟩ := exec_cons.mp hex
      exact Always.exec (h.2 s' hs) hrest

/-- **Exactness.** When steps that meet `G` keep the invariant and steps that miss `G` break it, the
runs that keep the invariant in every state are exactly those whose steps all meet `G`. -/
theorem always_iff_along {I : σ → Prop} {G : σ → ι → σ → Prop}
    (hkeep : ∀ s l s', I s → G s l s' → step s l = some s' → I s')
    (hbreak : ∀ s l s', I s → step s l = some s' → I s' → G s l s')
    {ls : List ι} {s : σ} (hI : I s) : Always step I s ls ↔ Along step G s ls := by
  constructor
  · intro h
    refine along_of_invariant (I := I) (G := fun _ _ s' => I s') ?_ hI h.2
    intro s l s' hs hs' hst
    exact ⟨hs', hbreak s l s' hs hst hs'⟩
  · exact always_of_along hkeep hI

/-- **Exactness, under a condition.** The same for the runs whose steps meet `H`, where on a step that meets
`H` the invariant is kept exactly when the step meets `G`. -/
theorem always_iff_along_of {I : σ → Prop} {G H : σ → ι → σ → Prop}
    (hstep : ∀ s l s', I s → H s l s' → step s l = some s' → (I s' ↔ G s l s'))
    {ls : List ι} {s : σ} (hI : I s) (hH : Along step H s ls) : Always step I s ls ↔ Along step G s ls := by
  constructor
  · intro h
    refine along_of_invariant (I := I) (G := fun s l s' => H s l s' ∧ I s') ?_ hI (hH.and h.2)
    intro s l s' hs hg hst
    exact ⟨hg.2, (hstep s l s' hs hg.1 hst).mp hg.2⟩
  · intro h
    refine always_of_along (G := fun s l s' => H s l s' ∧ G s l s') ?_ hI (hH.and h)
    intro s l s' hs hg hst
    exact (hstep s l s' hs hg.1 hst).mpr hg.2

/-! ## §3 Computations that can end the machine -/

/-- The computation yields a value that satisfies `P`, or ends in a state that satisfies `E`. -/
def Ends {α : Type w} (P : α → Prop) (E : σ → Prop) : Except σ α → Prop
  | .ok a => P a
  | .error s => E s

/-- **Sequencing.** -/
theorem Ends.bind {α β : Type w} {P : α → Prop} {Q : β → Prop} {E : σ → Prop} {x : Except σ α}
    {f : α → Except σ β} (hx : Ends P E x) (hf : ∀ a, P a → Ends Q E (f a)) :
    Ends Q E (x >>= f) := by
  cases x with
  | ok a => exact hf a hx
  | error s => exact hx

theorem Ends.imp {α : Type w} {P Q : α → Prop} {E : σ → Prop} {x : Except σ α} (hx : Ends P E x)
    (h : ∀ a, P a → Q a) :
    Ends Q E x := by
  cases x with
  | ok a => exact h a hx
  | error s => exact hx

/-! ## §4 Counters -/

/-- **A counter that only goes up.** Where every label moves the state strictly up, to the value that
is read off the label, the values along a run are strictly increasing, start above the first state, and
end at the last one. -/
theorem exec_increasing {R : σ → σ → Prop} (htrans : ∀ a b c, R a b → R b c → R a c)
    {f : ι → σ} :
    ∀ {ls : List ι} {s t : σ},
      (∀ l ∈ ls, ∀ r r', step r l = some r' → R r r' ∧ f l = r') → exec step s ls = some t →
      (ls.map f).Pairwise R ∧ (∀ x ∈ ls.map f, R s x) ∧ (s = t ∨ R s t)
  | [], s, t, _, hex => by
      cases hex
      exact ⟨List.Pairwise.nil, fun x hx => absurd hx List.not_mem_nil, Or.inl rfl⟩
  | l :: ls, s, t, hup, hex => by
      obtain ⟨s', hs, hrest⟩ := exec_cons.mp hex
      obtain ⟨hlt, hout⟩ := hup l (by simp) s s' hs
      obtain ⟨hpw, habove, hend⟩ :=
        exec_increasing htrans (fun l' hl' => hup l' (List.mem_cons_of_mem l hl')) hrest
      refine ⟨?_, ?_, Or.inr ?_⟩
      · rw [List.map_cons, List.pairwise_cons, hout]
        exact ⟨habove, hpw⟩
      · intro x hx
        rcases List.mem_cons.mp hx with rfl | hx
        · rw [hout]
          exact hlt
        · exact htrans _ _ _ hlt (habove x hx)
      · rcases hend with rfl | hlt'
        · exact hlt
        · exact htrans _ _ _ hlt hlt'

/-! ## §5 Progress -/

/-- **A label that can be repeated to the end.** Where it is enabled outside `Q` and leads into `Q` or
makes the measure smaller, repeating it leads into `Q`. -/
theorem exec_of_measure {I Q : σ → Prop} (μ : σ → Nat) {l : ι}
    (hstep : ∀ s, I s → ¬ Q s → ∃ s', step s l = some s' ∧ (Q s' ∨ I s' ∧ μ s' < μ s)) :
    ∀ (n : Nat) {s : σ}, μ s < n → I s → ∃ k t, exec step s (List.replicate k l) = some t ∧ Q t
  | 0, s, hn, _ => absurd hn (Nat.not_lt_zero _)
  | n + 1, s, hn, hI => by
      by_cases hQ : Q s
      · exact ⟨0, s, rfl, hQ⟩
      · obtain ⟨s', hs, hQ' | ⟨hI', hlt⟩⟩ := hstep s hI hQ
        · exact ⟨1, s', exec_singleton.mpr hs, hQ'⟩
        · have hn' : μ s' < n := Nat.lt_of_lt_of_le hlt (Nat.le_of_lt_succ hn)
          obtain ⟨k, t, hex, ht⟩ := exec_of_measure μ hstep n hn' hI'
          exact ⟨k + 1, t, exec_cons.mpr ⟨s', hs, hex⟩, ht⟩

/-! ## §6 Two runs -/

/-- Two runs side by side, on the labels of a list of pairs: each pair of labels is enabled in both or in
neither, and the steps that are taken are related by `R`. -/
def Abreast (step : σ → ι → Option σ) (R : σ × σ → ι × ι → σ × σ → Prop) : σ × σ → List (ι × ι) → Prop
  | _, [] => True
  | s, l :: ls => (step s.1 l.1 = none ↔ step s.2 l.2 = none) ∧
      ∀ t, step s.1 l.1 = some t.1 → step s.2 l.2 = some t.2 → R s l t ∧ Abreast step R t ls

/-- **The step rule for two runs.** A relation of states that is kept on related labels, by every step of the
first run that meets `G`, keeps the runs side by side. -/
theorem abreast_of_relation {I : σ × σ → Prop} {E : ι × ι → Prop} {G : σ → ι → σ → Prop}
    {R : σ × σ → ι × ι → σ × σ → Prop}
    (henabled : ∀ s l, I s → E l → (step s.1 l.1 = none ↔ step s.2 l.2 = none))
    (hstep : ∀ s l t, I s → E l → step s.1 l.1 = some t.1 → step s.2 l.2 = some t.2 → G s.1 l.1 t.1 →
      I t ∧ R s l t) :
    ∀ {ls : List (ι × ι)} {s : σ × σ}, I s → (∀ l ∈ ls, E l) → Along step G s.1 (ls.map Prod.fst) →
      Abreast step R s ls
  | [], _, _, _, _ => trivial
  | l :: ls, s, hI, hE, hG => by
      have hl : E l := hE l List.mem_cons_self
      refine ⟨henabled s l hI hl, ?_⟩
      intro t ht ht'
      obtain ⟨hGl, hGs⟩ := along_cons hG ht
      obtain ⟨hI', hR⟩ := hstep s l t hI hl ht ht' hGl
      exact ⟨hR, abreast_of_relation henabled hstep hI' (fun l' hl' => hE l' (List.mem_cons_of_mem l hl')) hGs⟩

end SploneBox.Lib.Machine
