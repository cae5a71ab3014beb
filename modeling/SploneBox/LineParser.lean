/-
# SploneBox.LineParser — the line parser against the grammar of lines.

A call of the line parser skips the blanks, and then reads one line, or fails on a malformed one
(`lineFromStr_spec`); so `confparse_get_lines` reads the lines of the text (`getLines_text`), and every text
has one reading (`Text.unique`). What the parser makes of a line is what the line stands for, but for one
thing: it trims a value before it takes the continuations out, so that of a continuation at the end of a value
it takes the newline and leaves the backslash (`lines_parsed_iff`).
-/
import SploneBox.LineGrammar

namespace SploneBox.LineGrammar

open Lib.Cursor Lib.Numerals Confparse

/-! ## §1 Lines -/

/-- What the parser makes of a value. -/
def Written.parsed : Written → Bytes
  | .quoted d => d
  | .plain ts => parsedValue ts

section
variable {t r : Bytes}

theorem skipNewline_spec (t : Bytes) : ∃ s, skipNewline t = some s ∧ s <:+ t ∧ ∀ u, Blanks s u →
    Blanks t u := by
  cases t with
  | nil => exact ⟨[], rfl, List.suffix_rfl, fun _ h => h⟩
  | cons c t =>
      by_cases hc : c = 10
      · subst hc
        exact ⟨t, rfl, List.suffix_cons _ _, fun _ h => .space rfl h⟩
      · exact ⟨c :: t, by simp [skipNewline, hc], List.suffix_rfl, fun _ h => h⟩

/-- What is skipped behind a value are blanks. -/
theorem finishLine_spec (h : 0 ∉ t) : ∃ s, finishLine t = some s ∧ s <:+ t ∧ ∀ u, Blanks s u → Blanks t u := by
  have hskip : ∀ s, skip 0 isSpace s = some (s.dropWhile isSpace) := skip_eq (by decide)
  by_cases hhash : ∃ s, t = 35 :: s
  · obtain ⟨s, rfl⟩ := hhash
    have hs : 0 ∉ s := fun hmem => h (List.mem_cons_of_mem _ hmem)
    refine ⟨(s.dropWhile (· != 10)).dropWhile isSpace, by simp [finishLine, skipLine_eq hs, hskip], ?_,
      fun u hu => .comment hu.spaces⟩
    exact ((List.dropWhile_suffix _).trans (List.dropWhile_suffix _)).trans (List.suffix_cons _ _)
  · refine ⟨t.dropWhile isSpace, ?_, List.dropWhile_suffix _, fun u hu => hu.spaces⟩
    cases t with
    | nil => rfl
    | cons c t =>
        have hc : c ≠ 35 := fun hc => hhash ⟨t, by rw [hc]⟩
        simp [finishLine, hc, hskip]

theorem Blanks.tabs {u : Bytes} (h : Blanks (t.dropWhile isTab) u) : Blanks t u := by
  induction t with
  | nil => exact h
  | cons c t ih =>
      by_cases hc : isTab c = true
      · rw [List.dropWhile_cons_of_pos hc] at h
        have hspace : isSpace c = true := by
          simp only [isTab, Bool.or_eq_true, beq_iff_eq] at hc
          rcases hc with rfl | rfl <;> rfl
        exact .space hspace (ih h)
      · rwa [List.dropWhile_cons_of_neg hc] at h

theorem Blanks.head (h : Blanks t r) : ∀ c ∈ r.head?, isSpace c = false ∧ c ≠ 35 := by
  induction h with
  | done hdone => exact hdone
  | space _ _ ih => exact ih
  | comment _ ih => exact ih

theorem skipTab_eq (t : Bytes) : skip 0 isTab t = some (t.dropWhile isTab) := skip_eq (by decide) t

/-- A key that ends where it starts is in front of a continuation. -/
theorem KeyOf.continued (h : KeyOf t [] r) (hhead : ∀ c ∈ t.head?, isSpace c = false ∧ c ≠ 35) (hne : t ≠ []) :
    Continued t := by
  cases h with
  | done hend =>
      rcases hend with hend | hcont
      · obtain ⟨c, s, rfl⟩ := List.exists_cons_of_ne_nil hne
        rcases hend c rfl with hspace | hhash
        · exact absurd hspace (by simp [(hhead c rfl).1])
        · exact absurd hhash (hhead c rfl).2
      · exact hcont

/-- **A line takes at least one character.** -/
theorem Reads.shorter {l : Line} (h : Reads t l r) (hhead : ∀ c ∈ t.head?, isSpace c = false ∧ c ≠ 35)
    (hne : t ≠ []) :
    r <:+ t ∧ r.length < t.length := by
  have hdrop : ∀ s : Bytes, s.dropWhile isTab <:+ s := fun s => List.dropWhile_suffix _
  cases h with
  | @quoted k t' s d _ hkey hquote hquoted _ =>
      obtain ⟨is, hitems, -⟩ := hquoted
      have hs : s <:+ t'.dropWhile isTab := by
        rw [hquote]
        exact List.suffix_cons _ _
      have hsuffix := (hitems.suffix.trans hs).trans (hdrop t')
      refine ⟨hsuffix.trans hkey.suffix, ?_⟩
      have h1 := hitems.suffix.length_le
      have h2 := (hdrop t').length_le
      have h3 := hkey.suffix.length_le
      rw [hquote, List.length_cons] at h2
      omega
  | @plain k t' ts _ hkey _ htokens =>
      have hsuffix := htokens.suffix.trans (hdrop t')
      refine ⟨hsuffix.trans hkey.suffix, ?_⟩
      have happend := hkey.append
      cases k with
      | cons c k =>
          have hle := hsuffix.length_le
          rw [happend, List.length_append, List.length_cons]
          omega
      | nil =>
          -- the continuation is the first token of the value
          obtain ⟨s, rfl⟩ := hkey.continued hhead hne
          obtain rfl : 92 :: 10 :: s = t' := happend
          have hkeep : (92 :: 10 :: s).dropWhile isTab = 92 :: 10 :: s := rfl
          rw [hkeep] at htokens
          cases htokens with
          | continuation h =>
              have hle := h.suffix.length_le
              simp only [List.length_cons]
              omega
          | char _ _ hno => exact absurd ⟨s, rfl⟩ hno

/-- **What a call of the line parser does.** -/
theorem lineFromStr_spec (h : 0 ∉ t) : ∃ t', Blanks t t' ∧
    (t' = [] ∧ confparseLineFromStrVerbose t = some ⟨some [], none, none, none⟩ ∨
      t' ≠ [] ∧ Malformed t' ∧ (∃ p, confparseLineFromStrVerbose t = some p ∧ p.line = none) ∨
      t' ≠ [] ∧ ∃ l r s, Reads t' l r ∧
      confparseLineFromStrVerbose t = some ⟨some s, some l.key, some l.value.parsed, none⟩ ∧
        s <:+ r ∧ ∀ u, Blanks s u → Blanks r u) := by
  obtain ⟨t', hblanks, hskip⟩ := skipBlanks_spec t.length t le_rfl h
  have hzero := notMem_suffix h hblanks.suffix
  refine ⟨t', hblanks, ?_⟩
  cases ht' : t' with
  | nil =>
      subst ht'
      exact Or.inl ⟨rfl, by simp [confparseLineFromStrVerbose, hskip.run]⟩
  | cons c t₀ =>
      right
      rw [← ht']
      have hne : t' ≠ [] := by simp [ht']
      have hstart : peek 0 t' 0 = some c := by rw [ht']; rfl
      have hc : c ≠ 0 := fun hc => hzero (by simp [ht', hc])
      obtain ⟨k, t₁, hkey, hkeyskip⟩ := skipKey_spec hzero
      have hkeyOut : upTo t' t₁ = k := by rw [hkey.append, upTo_append]
      have hsuffix : t₁.dropWhile isTab <:+ t' := (List.dropWhile_suffix _).trans hkey.suffix
      have hval := notMem_suffix hzero hsuffix
      by_cases hquote : ∃ s, t₁.dropWhile isTab = 34 :: s
      · obtain ⟨s, hs⟩ := hquote
        have hszero : 0 ∉ s := fun hmem => hval (by simp [hs, hmem])
        by_cases hquoted : ∃ d r, Quoted s d r
        · obtain ⟨d, r, hquoted⟩ := hquoted
          have hstring := unescapeString_quoted hszero hquoted
          have hrsuffix : r <:+ s := by
            obtain ⟨is, hitems, -⟩ := hquoted
            exact hitems.suffix
          have hrzero := notMem_suffix hszero ((List.dropWhile_suffix isTab).trans hrsuffix)
          have hpeek := peek_head 0 (r.dropWhile isTab)
          by_cases hclosed : Closed r
          · right
            obtain ⟨s', hfinish, hs', hs'blanks⟩ := finishLine_spec hrzero
            have hgood : ¬ ((r.dropWhile isTab).head?.getD 0 ≠ 0 ∧ (r.dropWhile isTab).head?.getD 0 ≠ 35 ∧
                (r.dropWhile isTab).head?.getD 0 ≠ 10) := by
              rintro ⟨h0, h35, h10⟩
              cases hhead : (r.dropWhile isTab).head? with
              | none => exact h0 (by rw [hhead]; rfl)
              | some c =>
                  rw [hhead] at h35 h10
                  rcases hclosed c hhead with hc | hc
                  · exact h35 hc
                  · exact h10 hc
            refine ⟨hne, ⟨k, .quoted d⟩, r, s', .quoted hkey hs hquoted hclosed, ?_,
              hs'.trans (List.dropWhile_suffix _), fun u hu => (hs'blanks u hu).tabs⟩
            simp only [confparseLineFromStrVerbose, hskip.run, Option.bind_eq_bind, Option.bind_some, hstart,
              hc, if_false, hkeyskip.run, skipTab_eq, hs, peek_cons_zero, if_true, hstring, hpeek, if_neg hgood,
              hfinish, hkeyOut]
            rfl
          · left
            refine ⟨hne, ⟨k, t₁, s, hkey, hs, ?_⟩, ?_⟩
            · rintro ⟨d', r', hquoted', hclosed'⟩
              obtain ⟨-, rfl⟩ := hquoted.unique hquoted'
              exact hclosed hclosed'
            · have hbad : (r.dropWhile isTab).head?.getD 0 ≠ 0 ∧ (r.dropWhile isTab).head?.getD 0 ≠ 35 ∧
                  (r.dropWhile isTab).head?.getD 0 ≠ 10 := by
                simp only [Closed, not_forall, not_or] at hclosed
                obtain ⟨c, hhead, h35, h10⟩ := hclosed
                have hc0 : c ≠ 0 := fun hc0 => hrzero (hc0 ▸ List.mem_of_mem_head? hhead)
                rw [Option.mem_def.mp hhead]
                exact ⟨hc0, h35, h10⟩
              refine ⟨⟨none, some k, some d, some .excessData⟩, ?_, rfl⟩
              simp only [confparseLineFromStrVerbose, hskip.run, Option.bind_eq_bind, Option.bind_some, hstart,
                hc, if_false, hkeyskip.run, skipTab_eq, hs, peek_cons_zero, if_true, hstring, hpeek,
                if_pos hbad, hkeyOut]
              rfl
        · left
          have hstring := unescapeString_malformed hszero fun d r hq => hquoted ⟨d, r, hq⟩
          refine ⟨hne, ⟨k, t₁, s, hkey, hs, fun ⟨d, r, hq, _⟩ => hquoted ⟨d, r, hq⟩⟩,
            ⟨none, some k, none, some .invalidEscape⟩, ?_, rfl⟩
          simp only [confparseLineFromStrVerbose, hskip.run, Option.bind_eq_bind, Option.bind_some, hstart,
            hc, if_false, hkeyskip.run, skipTab_eq, hs, peek_cons_zero, if_true, hstring, hkeyOut]
          rfl
      · right
        have hpeek := peek_head 0 (t₁.dropWhile isTab)
        have hplain : (t₁.dropWhile isTab).head? ≠ some 34 := by
          intro hhead
          obtain ⟨s, hs⟩ := List.head?_eq_some_iff.mp hhead
          exact hquote ⟨s, hs⟩
        have hno : ¬ (t₁.dropWhile isTab).head?.getD 0 = 34 := by
          intro hget
          cases hhead : (t₁.dropWhile isTab).head? with
          | none => rw [hhead] at hget; cases hget
          | some c =>
              rw [hhead] at hget hplain
              exact hplain (congrArg some hget)
        obtain ⟨ts, r, htokens, hvalue⟩ := skipValue_spec _ _ false le_rfl hval
        have hrun : loop skipValue ((t₁.dropWhile isTab).length + 1) (t₁.dropWhile isTab, false) =
            some (r, continued ts) :=
          hvalue.run
        have hr := notMem_suffix hval htokens.suffix
        obtain ⟨r', hnewline, hr', hr'blanks⟩ := skipNewline_spec r
        obtain ⟨s, hfinish, hs, hsblanks⟩ := finishLine_spec (notMem_suffix hr hr')
        refine ⟨hne, ⟨k, .plain ts⟩, r, s, .plain hkey hplain htokens, ?_, hs.trans hr', fun u hu =>
          hr'blanks u (hsblanks u hu)⟩
        simp only [confparseLineFromStrVerbose, hskip.run, Option.bind_eq_bind, Option.bind_some, hstart,
          hc, if_false, hkeyskip.run, skipTab_eq, hpeek, hno, hrun, hnewline, valueOf_tokens htokens hval,
          hfinish, hkeyOut]
        rfl

end

/-! ## §2 Texts -/

/-- The line the parser makes. -/
def Line.parsed (extended : Bool) (l : Line) : Configline := configlineOf extended l.key l.value.parsed

/-- What the loop is done with. -/
def Ending.list (e : Ending) (list : List Configline) : Option (List Configline) :=
  match e with
  | .complete => some list
  | .malformed => none

section
variable {t r : Bytes} {ls : List Line} {e : Ending}

theorem Text.blanks (h : Text t ls e) (hblanks : ∀ u, Blanks t u → Blanks r u) : Text r ls e := by
  cases h with
  | complete h => exact .complete (hblanks _ h)
  | malformed h hne hbad => exact .malformed (hblanks _ h) hne hbad
  | line h hne hl hrest => exact .line (hblanks _ h) hne hl hrest

/-- **The parser reads the lines of the text.** -/
theorem getLines_spec (extended : Bool) (n : Nat) : ∀ t : Bytes, t.length < n → 0 ∉ t → ∃ ls e, Text t ls e ∧
    ∀ acc, Returns (getLine extended) (fun s => s.1.length) (t, acc)
    (e.list (acc ++ ls.map (Line.parsed extended))) := by
  induction n with
  | zero => exact fun t hlen _ => absurd hlen (Nat.not_lt_zero _)
  | succ n ih =>
      intro t hlen h
      obtain ⟨t', hblanks, ⟨rfl, hparse⟩ | ⟨hne, hbad, p, hparse, hp⟩ |
        ⟨hne, l, r, s, hl, hparse, hs, hsblanks⟩⟩ :=
        lineFromStr_spec h
      · exact ⟨[], .complete, .complete hblanks, fun acc => .done (by simp [getLine, hparse, Ending.list])⟩
      · exact ⟨[], .malformed, .malformed hblanks hne hbad, fun acc =>
          .done (by simp [getLine, hparse, hp, Ending.list])⟩
      · have hshorter := hl.shorter hblanks.head hne
        have hslen := hs.length_le
        have htlen := hblanks.suffix.length_le
        have hzero := notMem_suffix h (hs.trans (hshorter.1.trans hblanks.suffix))
        cases s with
        | nil =>
            refine ⟨[l], .complete, .line hblanks hne hl (.complete (hsblanks _ (.done (by simp)))),
              fun acc => .done ?_⟩
            simp [getLine, hparse, Ending.list, Line.parsed]
        | cons c s =>
            have hc : c ≠ 0 := fun hc => hzero (by simp [hc])
            obtain ⟨ls, e, htext, hreturns⟩ := ih (c :: s) (by omega) hzero
            refine ⟨l :: ls, e, .line hblanks hne hl (htext.blanks hsblanks), fun acc => ?_⟩
            refine .turn (u := (c :: s, acc ++ [l.parsed extended])) ?_ ?_ ?_
            · simp [getLine, hparse, hc, Line.parsed]
            · show (c :: s).length < t.length
              omega
            · simpa using hreturns (acc ++ [l.parsed extended])

theorem Reads.unique {l l' : Line} {s : Bytes} (h : Reads t l r) (h' : Reads t l' s) : l = l' ∧ r = s := by
  cases h with
  | quoted hkey hquote hquoted _ =>
      cases h' with
      | quoted hkey' hquote' hquoted' _ =>
          obtain ⟨rfl, rfl⟩ := hkey.unique hkey'
          obtain rfl := List.tail_eq_of_cons_eq (hquote.symm.trans hquote')
          obtain ⟨rfl, rfl⟩ := hquoted.unique hquoted'
          exact ⟨rfl, rfl⟩
      | plain hkey' hplain _ =>
          obtain ⟨rfl, rfl⟩ := hkey.unique hkey'
          exact absurd (by rw [hquote]; rfl) hplain
  | plain hkey hplain htokens =>
      cases h' with
      | quoted hkey' hquote _ _ =>
          obtain ⟨rfl, rfl⟩ := hkey.unique hkey'
          exact absurd (by rw [hquote]; rfl) hplain
      | plain hkey' _ htokens' =>
          obtain ⟨rfl, rfl⟩ := hkey.unique hkey'
          obtain ⟨rfl, rfl⟩ := htokens.unique htokens'
          exact ⟨rfl, rfl⟩

theorem Malformed.not_reads {l : Line} (h : Malformed t) : ¬ Reads t l r := by
  obtain ⟨k, t', s, hkey, hquote, hno⟩ := h
  intro hl
  cases hl with
  | quoted hkey' hquote' hquoted hclosed =>
      obtain ⟨rfl, rfl⟩ := hkey.unique hkey'
      obtain rfl := List.tail_eq_of_cons_eq (hquote.symm.trans hquote')
      exact hno ⟨_, _, hquoted, hclosed⟩
  | plain hkey' hplain _ =>
      obtain ⟨rfl, rfl⟩ := hkey.unique hkey'
      exact hplain (by rw [hquote]; rfl)

/-- **A text is read in one way.** -/
theorem Text.unique {ls' : List Line} {e' : Ending} (h : Text t ls e) (h' : Text t ls' e') :
    ls = ls' ∧ e = e' := by
  induction h generalizing ls' with
  | complete hblanks =>
      cases h' with
      | complete => exact ⟨rfl, rfl⟩
      | malformed hblanks' hne => exact absurd (hblanks'.unique hblanks) hne
      | line hblanks' hne => exact absurd (hblanks'.unique hblanks) hne
  | malformed hblanks hne hbad =>
      cases h' with
      | complete hblanks' => exact absurd (hblanks.unique hblanks') hne
      | malformed => exact ⟨rfl, rfl⟩
      | line hblanks' _ hl =>
          obtain rfl := hblanks.unique hblanks'
          exact absurd hl hbad.not_reads
  | line hblanks hne hl _ ih =>
      cases h' with
      | complete hblanks' => exact absurd (hblanks.unique hblanks') hne
      | malformed hblanks' _ hbad =>
          obtain rfl := hblanks.unique hblanks'
          exact absurd hl hbad.not_reads
      | line hblanks' _ hl' hrest =>
          obtain rfl := hblanks.unique hblanks'
          obtain ⟨rfl, rfl⟩ := hl.unique hl'
          obtain ⟨rfl, rfl⟩ := ih hrest
          exact ⟨rfl, rfl⟩

/-! ## §3 The parser against the grammar -/

/-- `confparse_get_lines` does what it should: a call of the line parser ends without a read behind the NUL,
and takes at least one character when there is something to take; the lines are those of the text; and it
fails on the malformed texts. -/
structure Parses (extended : Bool) (text : Bytes) : Prop where
  progress : ∀ line, line <:+ text → ∃ p, confparseLineFromStrVerbose line = some p ∧
    (¬ Blanks line [] → ∀ rest, p.line = some rest → ∃ taken, taken ≠ [] ∧ line = taken ++ rest)
  lines : ∃ ls e, Text text ls e ∧ confparseGetLines text extended =
    some (if e = .complete then (0, some (ls.map (Line.configline extended))) else (-1, none))
  fails : (∃ list, confparseGetLines text extended = some (-1, list)) ↔ ∃ ls, Text text ls .malformed

/-- An unquoted value that ends in a continuation, on a line that does not clear. -/
def Line.spoiled (extended : Bool) (l : Line) : Bool :=
  (match l.value with
    | .quoted _ => false
    | .plain ts => cut ts) && !(extended && l.key.head? == some 47)

/-- What the parser returns is what it makes of the lines. -/
theorem getLines_text (extended : Bool) (h : 0 ∉ t) : ∃ ls e, Text t ls e ∧ confparseGetLines t extended =
    some (if e = .complete then (0, some (ls.map (Line.parsed extended))) else (-1, none)) := by
  obtain ⟨ls, e, htext, hreturns⟩ := getLines_spec extended _ t (Nat.lt_succ_self _) h
  have hrun := (hreturns []).run
  refine ⟨ls, e, htext, ?_⟩
  unfold confparseGetLines
  cases e with
  | complete =>
      have hloop :
          loop (getLine extended) (t.length + 1) (t, []) = some (some (ls.map (Line.parsed extended))) := by
        simpa [Ending.list] using hrun
      simp [hloop]
  | malformed =>
      have hloop : loop (getLine extended) (t.length + 1) (t, []) = some none := by
        simpa [Ending.list] using hrun
      simp [hloop]

theorem progress_of (h : 0 ∉ t) : ∃ p, confparseLineFromStrVerbose t = some p ∧
    (¬ Blanks t [] → ∀ rest, p.line = some rest → ∃ taken, taken ≠ [] ∧ t = taken ++ rest) := by
  obtain ⟨t', hblanks, ⟨rfl, hparse⟩ | ⟨hne, hbad, p, hparse, hp⟩ | ⟨hne, l, r, s, hl, hparse, hs, -⟩⟩ :=
    lineFromStr_spec h
  · exact ⟨_, hparse, fun hno => absurd hblanks hno⟩
  · exact ⟨p, hparse, fun _ rest hrest => absurd (hp.symm.trans hrest) (by simp)⟩
  · refine ⟨_, hparse, fun _ rest hrest => ?_⟩
    obtain rfl : s = rest := Option.some.inj hrest
    have hshorter := hl.shorter hblanks.head hne
    obtain ⟨taken, htaken⟩ := hs.trans (hshorter.1.trans hblanks.suffix)
    refine ⟨taken, ?_, htaken.symm⟩
    rintro rfl
    have h1 := hs.length_le
    have h2 := hblanks.suffix.length_le
    have h3 := congrArg List.length htaken
    simp only [List.nil_append] at h3
    omega

/-- The source's way to say what a line stands for. -/
theorem configline_eq (extended : Bool) (l : Line) :
    l.configline extended = configlineOf extended l.key l.value.value := by
  unfold Line.configline configlineOf
  cases extended with
  | false => simp
  | true =>
      cases hkey : l.key with
      | nil => simp
      | cons c k =>
          by_cases hplus : c = 43
          · simp [hplus]
          by_cases hslash : c = 47
          · simp [hslash]
          · simp [hplus, hslash]

theorem Tokens.chars {k : Bool} {ts : List Token} (h : Tokens k t ts r) : ∀ c, .char c ∈ ts → c ∈ t := by
  induction h with
  | ends | newline | hash => exact fun c hc => absurd hc List.not_mem_nil
  | @comment t ts r _ ih =>
      intro c hc
      rcases List.mem_cons.mp hc with hc | hc
      · cases hc
      · exact List.mem_cons_of_mem _ (((List.tail_suffix _).trans (List.dropWhile_suffix _)).subset (ih c hc))
  | continuation _ ih =>
      intro c hc
      rcases List.mem_cons.mp hc with hc | hc
      · cases hc
      · exact List.mem_cons_of_mem _ (List.mem_cons_of_mem _ (ih c hc))
  | char _ _ _ _ ih =>
      intro c hc
      rcases List.mem_cons.mp hc with hc | hc
      · cases hc
        exact List.mem_cons_self
      · exact List.mem_cons_of_mem _ (ih c hc)

theorem Tokens.zero_notMem {k : Bool} {ts : List Token} (h : Tokens k t ts r) (hzero : 0 ∉ t) :
    0 ∉ plainValue ts := by
  intro hmem
  obtain ⟨x, hx, hchar⟩ := List.mem_filterMap.mp hmem
  cases x with
  | char c =>
      obtain rfl : c = 0 := Option.some.inj hchar
      exact hzero (h.chars 0 ((List.rdropWhile_prefix _ _).subset hx))
  | continuation => cases hchar
  | comment => cases hchar

theorem cstr_of_notMem {v : Bytes} (h : 0 ∉ v) : cstr v = v := by
  refine List.takeWhile_eq_self_iff.mpr fun c hc => ?_
  simp only [bne_iff_ne]
  rintro rfl
  exact h hc

/-- **A line comes out as it should, unless it is spoiled.** -/
theorem parsed_eq_iff (extended : Bool) {l : Line} (h : Reads t l r) (hzero : 0 ∉ t) :
    l.parsed extended = l.configline extended ↔ l.spoiled extended = false := by
  rw [configline_eq]
  cases h with
  | quoted => simp [Line.parsed, Line.spoiled, Written.parsed, Written.value]
  | @plain k t' ts _ hkey _ htokens =>
      have hvalue := htokens.zero_notMem (notMem_suffix hzero ((List.dropWhile_suffix _).trans hkey.suffix))
      by_cases hcut : cut ts = true
      · have hparsed : parsedValue ts = plainValue ts ++ [92] := by rw [parsedValue, if_pos hcut]
        have hne : cstr (plainValue ts ++ [92]) ≠ cstr (plainValue ts) := by
          rw [cstr_of_notMem hvalue, cstr_of_notMem (by simpa using hvalue)]
          simp
        simp only [Line.parsed, Line.spoiled, Written.parsed, Written.value, hparsed, hcut, Bool.true_and]
        unfold configlineOf
        by_cases hplus : extended = true ∧ k.head? = some 43
        · simp [hplus, hne]
        · rw [if_neg hplus, if_neg hplus]
          by_cases hslash : extended = true ∧ k.head? = some 47
          · simp [hslash]
          · rw [if_neg hslash, if_neg hslash]
            have hflag : (extended && k.head? == some 47) = false := by
              cases extended with
              | false => rfl
              | true => simpa using hslash
            simp [hne, hflag]
      · have hparsed : parsedValue ts = plainValue ts := parsedValue_eq_iff.mpr (by simpa using hcut)
        simp [Line.parsed, Line.spoiled, Written.parsed, Written.value, hparsed, hcut]

theorem Text.reads {ls : List Line} {e : Ending} (h : Text t ls e) :
    ∀ l ∈ ls, ∃ s r, Reads s l r ∧ s <:+ t := by
  induction h with
  | complete | malformed => exact fun l hl => absurd hl List.not_mem_nil
  | @line t t' l r ls e hblanks hne hreads _ ih =>
      intro l' hl'
      rcases List.mem_cons.mp hl' with rfl | hl'
      · exact ⟨t', r, hreads, hblanks.suffix⟩
      · obtain ⟨s, u, hs, hsuffix⟩ := ih l' hl'
        exact ⟨s, u, hs, hsuffix.trans ((hreads.shorter hblanks.head hne).1.trans hblanks.suffix)⟩

/-- **No line is spoiled** when the lines come out as they should. -/
theorem Parses.unspoiled {extended : Bool} {ls : List Line} (h : Parses extended t) (hzero : 0 ∉ t)
    (htext : Text t ls .complete) :
    ∀ l ∈ ls, l.spoiled extended = false := by
  obtain ⟨ls', e', htext', hlines⟩ := h.lines
  obtain ⟨rfl, rfl⟩ := htext.unique htext'
  obtain ⟨ls'', e'', htext'', hparsed⟩ := getLines_text extended hzero
  obtain ⟨rfl, rfl⟩ := htext.unique htext''
  rw [hlines] at hparsed
  have hmaps : ls.map (Line.configline extended) = ls.map (Line.parsed extended) := by simpa using hparsed
  intro l hl
  obtain ⟨s, r, hreads, hsuffix⟩ := htext.reads l hl
  exact (parsed_eq_iff extended hreads (notMem_suffix hzero hsuffix)).mp (List.map_inj_left.mp hmaps l hl).symm

/-- **The lines are those of the grammar just when no value that matters ends in a continuation.** -/
theorem lines_parsed_iff (extended : Bool) (h : 0 ∉ t) :
    Parses extended t ↔ ∀ ls, Text t ls .complete → ∀ l ∈ ls, l.spoiled extended = false := by
  constructor
  · exact fun hparses ls htext => hparses.unspoiled h htext
  · intro hunspoiled
    obtain ⟨ls, e, htext, hlines⟩ := getLines_text extended h
    refine ⟨fun line hline => progress_of (notMem_suffix h hline), ⟨ls, e, htext, ?_⟩, ?_⟩
    · rw [hlines]
      cases e with
      | malformed => rfl
      | complete =>
          have hmaps : ls.map (Line.parsed extended) = ls.map (Line.configline extended) := by
            refine List.map_congr_left fun l hl => ?_
            obtain ⟨s, r, hreads, hsuffix⟩ := htext.reads l hl
            exact (parsed_eq_iff extended hreads (notMem_suffix h hsuffix)).mpr (hunspoiled ls htext l hl)
          rw [hmaps]
    · constructor
      · rintro ⟨list, hlist⟩
        rw [hlines] at hlist
        cases e with
        | malformed => exact ⟨ls, htext⟩
        | complete => simp at hlist
      · rintro ⟨ls', htext'⟩
        obtain ⟨rfl, rfl⟩ := htext.unique htext'
        exact ⟨none, hlines⟩

theorem lines_parsed_sample :
    Parses true (ascii ['a', ' ', 'b', '\\', '\n', 'c']) ↔
      ∀ ls, Text (ascii ['a', ' ', 'b', '\\', '\n', 'c']) ls .complete → ∀ l ∈ ls, l.spoiled true = false :=
  lines_parsed_iff true (by decide)

/-- `a b\`, a newline and the end: the value is `b\`, not `b`. -/
theorem continuation_left_in_value : ¬ Parses true (ascii ['a', ' ', 'b', '\\', '\n']) := by
  intro hparses
  have hreads :
      Reads (ascii ['a', ' ', 'b', '\\', '\n']) ⟨ascii ['a'], .plain [.char 98, .continuation]⟩ [] := by
    have hkey : KeyOf (ascii ['a', ' ', 'b', '\\', '\n']) (ascii ['a']) (ascii [' ', 'b', '\\', '\n']) := by
      refine .char ?_ (.done (Or.inl ?_))
      · rintro (hend | ⟨s, hs⟩)
        · exact absurd (hend 97 rfl) (by decide)
        · cases hs
      · intro c hc
        obtain rfl : 32 = c := Option.some.inj hc
        exact Or.inl rfl
    refine .plain hkey (by decide) (.char (by decide) (by decide) ?_ (.continuation .ends))
    rintro ⟨s, hs⟩
    cases hs
  have htext :
      Text (ascii ['a', ' ', 'b', '\\', '\n']) [⟨ascii ['a'], .plain [.char 98, .continuation]⟩] .complete := by
    refine .line (.done ?_) (by decide) hreads (.complete (.done (by simp)))
    intro c hc
    obtain rfl : 97 = c := Option.some.inj hc
    decide
  exact absurd (hparses.unspoiled (by decide) htext _ List.mem_cons_self) (by decide)

end

end SploneBox.LineGrammar
