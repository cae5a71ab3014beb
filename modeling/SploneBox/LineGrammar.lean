/-
# SploneBox.LineGrammar — the grammar of configuration lines, and the scans of the line parser.

The grammar says what a line is without the scans of the parser: a value is a list of tokens, of which a
continuation is one (`Tokens`), and a quoted string is a list of items (`Items`). Each scan of the parser
finds what the grammar has there: the blanks (`skipBlanks_spec`), the key (`skipKey_spec`), the end of an
unquoted value (`skipValue_spec`), and the string of a quoted one (`unescapeString_quoted`). Only the decoder
of continued values does not agree with the grammar (`valueOf_tokens`).
-/
import SploneBox.Configlines

namespace SploneBox.LineGrammar

open Lib.Cursor Lib.Numerals Confparse

/-! ## §1 The grammar -/

/-- White space and comments, up to a character that is neither. -/
inductive Blanks : Bytes → Bytes → Prop
  | done {t} : (∀ c ∈ t.head?, isSpace c = false ∧ c ≠ 35) → Blanks t t
  | space {c t r} : isSpace c = true → Blanks t r → Blanks (c :: t) r
  | comment {t r} : Blanks (t.dropWhile (· != 10)) r → Blanks (35 :: t) r

/-- A backslash and a newline. -/
def Continued (t : Bytes) : Prop := ∃ r, t = 92 :: 10 :: r

/-- Where a key ends: at the end, at white space, at `#` and at a backslash with a newline. -/
def KeyEnd (t : Bytes) : Prop := (∀ c ∈ t.head?, isSpace c = true ∨ c = 35) ∨ Continued t

/-- A text, the key in front and what is behind it. -/
inductive KeyOf : Bytes → Bytes → Bytes → Prop
  | done {t} : KeyEnd t → KeyOf t [] t
  | char {c t k r} : ¬ KeyEnd (c :: t) → KeyOf t k r → KeyOf (c :: t) (c :: k) r

/-- What a value is made of. -/
inductive Token where
  | char (c : UInt8)
  | continuation
  | comment (text : Bytes)

/-- The rest of a logical line. A comment ends it, unless it is continued already. -/
inductive Tokens : Bool → Bytes → List Token → Bytes → Prop
  | ends {k} : Tokens k [] [] []
  | newline {k t} : Tokens k (10 :: t) [] (10 :: t)
  | hash {t} : Tokens false (35 :: t) [] (35 :: t)
  | comment {t ts r} : Tokens true (t.dropWhile (· != 10)).tail ts r →
      Tokens true (35 :: t) (.comment (t.takeWhile (· != 10)) :: ts) r
  | continuation {k t ts r} : Tokens true t ts r → Tokens k (92 :: 10 :: t) (.continuation :: ts) r
  | char {k c t ts r} : c ≠ 10 → c ≠ 35 → ¬ Continued (c :: t) → Tokens k t ts r →
      Tokens k (c :: t) (.char c :: ts) r

/-- White space. The newline of a continuation is not. -/
def Token.isBlank : Token → Bool
  | .char c => isSpace c
  | _ => false

/-- The character of a token, if it has one. -/
def Token.char? : Token → Option UInt8
  | .char c => some c
  | _ => none

/-- The tokens without the white space at the end. -/
def trimmed (ts : List Token) : List Token := ts.rdropWhile Token.isBlank

/-- What an unquoted value stands for: trimmed, and without its continuations and comments. -/
def plainValue (ts : List Token) : Bytes := (trimmed ts).filterMap Token.char?

/-- An item of a quoted string. -/
inductive Item where
  | plain (c : UInt8)
  | named (c : UInt8)
  | hex (a b : UInt8)
  | octal (digits : Bytes)

/-- The items up to the closing quote. An octal escape has as many digits as there are, three at most. -/
inductive Items : Bytes → List Item → Bytes → Prop
  | close {t} : Items (34 :: t) [] t
  | plain {c t is r} : c ≠ 34 → c ≠ 92 → c ≠ 10 → Items t is r → Items (c :: t) (.plain c :: is) r
  | named {c t is r} : isNamed c = true → Items t is r → Items (92 :: c :: t) (.named c :: is) r
  | hex {x a b t is r} : x = 120 ∨ x = 88 → isXDigit a = true → isXDigit b = true → Items t is r →
      Items (92 :: x :: a :: b :: t) (.hex a b :: is) r
  | octal {a t is r} : isODigit a = true → Items (t.drop (run isODigit 2 t).length) is r →
      Items (92 :: a :: t) (.octal (a :: run isODigit 2 t) :: is) r

/-- The number of octal digits. -/
def octalNumber (digits : Bytes) : Nat := value 8 (fun c => c.toNat - 48) digits

/-- The character an item stands for: an octal number may be too large. -/
def Item.value : Item → Option UInt8
  | .plain c => some c
  | .named c => some (Confparse.named c)
  | .hex a b => some (UInt8.ofNat (16 * digitToNum a + digitToNum b))
  | .octal digits => if octalNumber digits ≤ 255 then some (UInt8.ofNat (octalNumber digits)) else none

/-- A quoted string, behind its first quote. -/
def Quoted (t d r : Bytes) : Prop := ∃ is, Items t is r ∧ is.mapM Item.value = some d

/-- Behind a quoted value there are blanks, and then a comment, a newline or the end. -/
def Closed (t : Bytes) : Prop := ∀ c ∈ (t.dropWhile isTab).head?, c = 35 ∨ c = 10

/-- The value of a line as it is written. -/
inductive Written where
  | quoted (d : Bytes)
  | plain (ts : List Token)

/-- A line as it is written. -/
structure Line where
  key : Bytes
  value : Written

/-- A line and what is behind it. -/
inductive Reads : Bytes → Line → Bytes → Prop
  | quoted {t k t' s d r} : KeyOf t k t' → t'.dropWhile isTab = 34 :: s → Quoted s d r → Closed r →
      Reads t ⟨k, .quoted d⟩ r
  | plain {t k t' ts r} : KeyOf t k t' → (t'.dropWhile isTab).head? ≠ some 34 →
      Tokens false (t'.dropWhile isTab) ts r →
      Reads t ⟨k, .plain ts⟩ r

/-- A line with a quoted value that is malformed, or followed by something. -/
def Malformed (t : Bytes) : Prop :=
  ∃ k t' s, KeyOf t k t' ∧ t'.dropWhile isTab = 34 :: s ∧ ¬ ∃ d r, Quoted s d r ∧ Closed r

/-- How a text ends. -/
inductive Ending where
  | complete | malformed
deriving DecidableEq

/-- The lines of a text. -/
inductive Text : Bytes → List Line → Ending → Prop
  | complete {t} : Blanks t [] → Text t [] .complete
  | malformed {t t'} : Blanks t t' → t' ≠ [] → Malformed t' → Text t [] .malformed
  | line {t t' l r ls e} : Blanks t t' → t' ≠ [] → Reads t' l r → Text r ls e → Text t (l :: ls) e

/-- What the value stands for. -/
def Written.value : Written → Bytes
  | .quoted d => d
  | .plain ts => plainValue ts

/-- What the line stands for: with `+` in front it appends, with `/` it clears. A value is a C string. -/
def Line.configline (extended : Bool) (l : Line) : Configline :=
  match extended, l.key with
  | true, 43 :: key => ⟨key, cstr l.value.value, .append, false⟩
  | true, 47 :: key => ⟨key, [], .clear, false⟩
  | _, key => ⟨key, cstr l.value.value, .normal, false⟩

/-! ## §2 Blanks and keys -/

section
variable {t : Bytes}

theorem Blanks.suffix {r : Bytes} (h : Blanks t r) : r <:+ t := by
  induction h with
  | done => exact List.suffix_rfl
  | space _ _ ih => exact ih.trans (List.suffix_cons _ _)
  | comment _ ih => exact (ih.trans (List.dropWhile_suffix _)).trans (List.suffix_cons _ _)

theorem Blanks.unique {r s : Bytes} (h : Blanks t r) (h' : Blanks t s) : r = s := by
  induction h with
  | done hdone =>
      cases h' with
      | done => rfl
      | space hspace => exact absurd hspace (by simp [(hdone _ rfl).1])
      | comment => exact absurd rfl (hdone _ rfl).2
  | space hspace _ ih =>
      cases h' with
      | done hdone => exact absurd hspace (by simp [(hdone _ rfl).1])
      | space _ h' => exact ih h'
      | comment => exact absurd hspace (by decide)
  | comment _ ih =>
      cases h' with
      | done hdone => exact absurd rfl (hdone _ rfl).2
      | space hspace => exact absurd hspace (by decide)
      | comment h' => exact ih h'

theorem Blanks.spaces {r : Bytes} (h : Blanks (t.dropWhile isSpace) r) : Blanks t r := by
  induction t with
  | nil => exact h
  | cons c t ih =>
      by_cases hc : isSpace c = true
      · rw [List.dropWhile_cons_of_pos hc] at h
        exact .space hc (ih h)
      · rwa [List.dropWhile_cons_of_neg hc] at h

/-- The rest of a line, in a text without a NUL. -/
theorem skipLine_eq (h : 0 ∉ t) : skipLine t = some (t.dropWhile (· != 10)) := by
  unfold skipLine
  rw [skip_eq (by decide)]
  refine congrArg some (dropWhile_congr fun c hc => ?_)
  have hzero : c ≠ 0 := by
    rintro rfl
    exact h hc
  simp [hzero]

theorem notMem_suffix {s : Bytes} (h : 0 ∉ t) (hs : s <:+ t) : 0 ∉ s := fun hmem => h (hs.subset hmem)

/-- **The blanks are skipped.** -/
theorem skipBlanks_spec (n : Nat) : ∀ t : Bytes, t.length ≤ n → 0 ∉ t → ∃ r, Blanks t r ∧
    Returns skipBlanks List.length t r := by
  induction n with
  | zero =>
      intro t hlen _
      obtain rfl : t = [] := List.length_eq_zero_iff.mp (by omega)
      exact ⟨[], .done (by simp), .done rfl⟩
  | succ n ih =>
      intro t hlen h
      have hsuffix : t.dropWhile isSpace <:+ t := List.dropWhile_suffix _
      have hskip : skip 0 isSpace t = some (t.dropWhile isSpace) := skip_eq (by decide) t
      cases hu : t.dropWhile isSpace with
      | nil =>
          refine ⟨[], .spaces ?_, .done ?_⟩
          · rw [hu]
            exact .done (by simp)
          · simp [skipBlanks, hskip, hu]
      | cons c u =>
          rw [hu] at hsuffix
          have hzero := notMem_suffix h hsuffix
          by_cases hc : c = 35
          · subst hc
            have hline : skipLine (35 :: u) = some (u.dropWhile (· != 10)) := skipLine_eq hzero
            have hdrop : u.dropWhile (· != 10) <:+ u := List.dropWhile_suffix _
            have hlt : u.length < t.length := hsuffix.length_le
            obtain ⟨r, hr, hreturns⟩ := ih (u.dropWhile (· != 10)) (by have := hdrop.length_le; omega)
              (notMem_suffix hzero (hdrop.trans (List.suffix_cons _ _)))
            refine ⟨r, .spaces ?_, .turn ?_ (by have := hdrop.length_le; omega) hreturns⟩
            · rw [hu]
              exact .comment hr
            · simp [skipBlanks, hskip, hu, hline]
          · have hspace : isSpace c = false := by
              have hhead := Parse.dropWhile_head isSpace t
              rw [hu] at hhead
              simpa using hhead
            refine ⟨c :: u, .spaces ?_, .done ?_⟩
            · rw [hu]
              exact .done (by simpa using ⟨hspace, hc⟩)
            · simp [skipBlanks, hskip, hu, hc]

theorem continues_of_continued (h : Continued t) : continues t = some true := by
  obtain ⟨r, rfl⟩ := h
  rfl

theorem continues_of_not (h : ¬ Continued t) : continues t = some false := by
  match t, h with
  | [], _ => rfl
  | [c], _ => by_cases hc : c = 92 <;> simp [continues, hc]
  | c :: d :: t, h =>
      by_cases hc : c = 92
      · have hd : d ≠ 10 := by
          rintro rfl
          exact h ⟨t, by rw [hc]⟩
        simp [continues, hc, hd]
      · simp [continues, hc]

theorem KeyOf.append {k r : Bytes} (h : KeyOf t k r) : t = k ++ r := by
  induction h with
  | done => rfl
  | char _ _ ih => rw [List.cons_append, ← ih]

theorem KeyOf.suffix {k r : Bytes} (h : KeyOf t k r) : r <:+ t := ⟨k, h.append.symm⟩

theorem KeyOf.unique {k r l s : Bytes} (h : KeyOf t k r) (h' : KeyOf t l s) : k = l ∧ r = s := by
  induction h generalizing l with
  | done hend =>
      cases h' with
      | done => exact ⟨rfl, rfl⟩
      | char hno => exact absurd hend hno
  | char hno _ ih =>
      cases h' with
      | done hend => exact absurd hend hno
      | char _ h' =>
          obtain ⟨rfl, rfl⟩ := ih h'
          exact ⟨rfl, rfl⟩

/-- **The key is skipped.** -/
theorem skipKey_spec (h : 0 ∉ t) : ∃ k r, KeyOf t k r ∧ Returns skipKey List.length t r := by
  induction t with
  | nil => exact ⟨[], [], .done (Or.inl (by simp)), .done rfl⟩
  | cons c t ih =>
      have hc : c ≠ 0 := fun hc => h (by simp [hc])
      by_cases hend : KeyEnd (c :: t)
      · refine ⟨[], c :: t, .done hend, .done ?_⟩
        by_cases hstop : isSpace c = true ∨ c = 35
        · rcases hstop with hs | hs <;> simp [skipKey, hs]
        · have hcont : Continued (c :: t) := by
            rcases hend with hend | hcont
            · exact absurd (hend c rfl) hstop
            · exact hcont
          simp only [not_or, Bool.not_eq_true] at hstop
          simp [skipKey, continues_of_continued hcont]
      · obtain ⟨k, r, hkey, hreturns⟩ := ih fun hmem => h (List.mem_cons_of_mem c hmem)
        refine ⟨c :: k, r, .char hend hkey, .turn ?_ (Nat.lt_succ_self _) hreturns⟩
        have hno : ¬ Continued (c :: t) := fun hcont => hend (Or.inr hcont)
        have hstop : isSpace c = false ∧ c ≠ 35 := by
          constructor
          · by_contra hspace
            exact hend (Or.inl (by simpa using Or.inl hspace))
          · intro hhash
            exact hend (Or.inl (by simpa using Or.inr hhash))
        simp [skipKey, hc, hstop, continues_of_not hno]

end

/-! ## §3 Unquoted values -/

section
variable {k : Bool} {t r : Bytes} {ts : List Token}

/-- Whether there is a continuation among the tokens. -/
def continued (ts : List Token) : Bool := ts.any fun x => x matches .continuation

theorem Tokens.suffix (h : Tokens k t ts r) : r <:+ t := by
  induction h with
  | ends | newline | hash => exact List.suffix_rfl
  | comment _ ih =>
      exact (ih.trans (List.tail_suffix _)).trans ((List.dropWhile_suffix _).trans (List.suffix_cons _ _))
  | continuation _ ih => exact ih.trans ((List.suffix_cons _ _).trans (List.suffix_cons _ _))
  | char _ _ _ _ ih => exact ih.trans (List.suffix_cons _ _)

theorem Tokens.unique {ts' : List Token} {s : Bytes} (h : Tokens k t ts r) (h' : Tokens k t ts' s) :
    ts = ts' ∧ r = s := by
  induction h generalizing ts' with
  | ends => cases h' with | ends => exact ⟨rfl, rfl⟩
  | newline =>
      cases h' with
      | newline => exact ⟨rfl, rfl⟩
      | char hc => exact absurd rfl hc
  | hash =>
      cases h' with
      | hash => exact ⟨rfl, rfl⟩
      | char _ hc => exact absurd rfl hc
  | comment _ ih =>
      cases h' with
      | comment h' =>
          obtain ⟨rfl, rfl⟩ := ih h'
          exact ⟨rfl, rfl⟩
      | char _ hc => exact absurd rfl hc
  | continuation _ ih =>
      cases h' with
      | continuation h' =>
          obtain ⟨rfl, rfl⟩ := ih h'
          exact ⟨rfl, rfl⟩
      | char _ _ hno => exact absurd ⟨_, rfl⟩ hno
  | char hline hhash hno _ ih =>
      cases h' with
      | newline => exact absurd rfl hline
      | hash => exact absurd rfl hhash
      | comment => exact absurd rfl hhash
      | continuation => exact absurd ⟨_, rfl⟩ hno
      | char _ _ _ h' =>
          obtain ⟨rfl, rfl⟩ := ih h'
          exact ⟨rfl, rfl⟩

/-- The rest of a comment, and its newline. -/
theorem skipComment_eq (h : 0 ∉ t) : skipComment (35 :: t) = some (t.dropWhile (· != 10)).tail := by
  have hline : skipLine t = some (t.dropWhile (· != 10)) := skipLine_eq h
  cases hdrop : t.dropWhile (· != 10) with
  | nil => simp [skipComment, skipNewline, hline, hdrop]
  | cons c s =>
      have hc : c = 10 := by
        have hhead := Parse.dropWhile_head (· != 10) t
        rw [hdrop] at hhead
        simpa using hhead
      simp [skipComment, skipNewline, hline, hdrop, hc]

theorem skipComment_word {w : Bytes} (hword : ∀ c ∈ w, c ≠ 10) (h : 0 ∉ w) :
    skipComment (35 :: w) = some [] := by
  rw [skipComment_eq h, List.dropWhile_eq_nil_iff.mpr fun c hc => by simpa using hword c hc]
  rfl

theorem skipComment_line {w v : Bytes} (hword : ∀ c ∈ w, c ≠ 10) (h : 0 ∉ w ++ 10 :: v) :
    skipComment (35 :: (w ++ 10 :: v)) = some v := by
  rw [skipComment_eq h, List.dropWhile_append_of_pos fun c hc => by simpa using hword c hc]
  rfl

/-- **The value is skipped.** -/
theorem skipValue_spec (n : Nat) : ∀ (t : Bytes) (k : Bool), t.length ≤ n → 0 ∉ t →
    ∃ ts r, Tokens k t ts r ∧ Returns skipValue (fun s => s.1.length) (t, k) (r, k || continued ts) := by
  induction n with
  | zero =>
      intro t k hlen _
      obtain rfl : t = [] := List.length_eq_zero_iff.mp (by omega)
      exact ⟨[], [], .ends, .done (by simp [skipValue, continued])⟩
  | succ n ih =>
      intro t k hlen h
      match t with
      | [] => exact ⟨[], [], .ends, .done (by simp [skipValue, continued])⟩
      | c :: t =>
          have hc : c ≠ 0 := fun hc => h (by simp [hc])
          have htail : 0 ∉ t := fun hmem => h (List.mem_cons_of_mem c hmem)
          simp only [List.length_cons] at hlen
          by_cases hline : c = 10
          · subst hline
            exact ⟨[], 10 :: t, .newline, .done (by simp [skipValue, continued])⟩
          by_cases hcont : Continued (c :: t)
          · obtain ⟨s, hs⟩ := hcont
            obtain ⟨rfl, rfl⟩ := List.cons.inj hs
            obtain ⟨ts, r, htokens, hreturns⟩ := ih s true (by simp only [List.length_cons] at hlen; omega)
              fun hmem => htail (List.mem_cons_of_mem _ hmem)
            refine ⟨.continuation :: ts, r, .continuation htokens, .turn (u := (s, true)) ?_ ?_ ?_⟩
            · simp [skipValue, continues_of_continued ⟨s, rfl⟩]
            · show s.length < (92 :: 10 :: s).length
              simp
            · simpa [continued] using hreturns
          by_cases hhash : c = 35
          · subst hhash
            cases k with
            | false => exact ⟨[], 35 :: t, .hash, .done (by simp [skipValue, continued])⟩
            | true =>
                have hsuffix : (t.dropWhile (· != 10)).tail <:+ t :=
                  (List.tail_suffix _).trans (List.dropWhile_suffix _)
                have hlt := hsuffix.length_le
                obtain ⟨ts, r, htokens, hreturns⟩ := ih (t.dropWhile (· != 10)).tail true (by omega)
                  (notMem_suffix htail hsuffix)
                refine ⟨_, r, .comment htokens, .turn (u := ((t.dropWhile (· != 10)).tail, true)) ?_ ?_ ?_⟩
                · simp [skipValue, continues_of_not hcont, skipComment_eq htail]
                · show (t.dropWhile (· != 10)).tail.length < t.length + 1
                  omega
                · simpa [continued] using hreturns
          · obtain ⟨ts, r, htokens, hreturns⟩ := ih t k (by omega) htail
            refine ⟨.char c :: ts, r, .char hline hhash hcont htokens,
              .turn (u := (t, k)) ?_ (Nat.lt_succ_self _) ?_⟩
            · simp [skipValue, hc, hline, hhash, continues_of_not hcont]
            · simpa [continued] using hreturns

/-- Whether the value ends in a continuation. -/
def cut (ts : List Token) : Bool := (trimmed ts).getLast?.any fun x => x matches .continuation

/-- What the parser makes of the tokens. -/
def parsedValue (ts : List Token) : Bytes := plainValue ts ++ if cut ts then [92] else []

theorem trimmed_cons (x : Token) (ts : List Token) :
    trimmed (x :: ts) = if trimmed ts = [] then (if x.isBlank then [] else [x]) else x :: trimmed ts :=
  rdropWhile_cons _ _ _

theorem cut_cons {x : Token} (h : trimmed ts ≠ []) : cut (x :: ts) = cut ts := by
  unfold cut
  rw [trimmed_cons, if_neg h]
  cases hts : trimmed ts with
  | nil => exact absurd hts h
  | cons y ys => rw [List.getLast?_cons_cons]

theorem parsedValue_char (c : UInt8) (ts : List Token) :
    parsedValue (.char c :: ts) = if trimmed ts = [] then (if isSpace c then [] else [c])
      else c :: parsedValue ts := by
  by_cases h : trimmed ts = []
  · unfold parsedValue plainValue cut
    rw [trimmed_cons, if_pos h, if_pos h]
    show _ ++ _ = if isSpace c then [] else [c]
    by_cases hc : isSpace c = true <;> simp [Token.isBlank, Token.char?, hc]
  · rw [parsedValue, plainValue, cut_cons h, trimmed_cons, if_neg h, if_neg h]
    rfl

theorem parsedValue_continuation (ts : List Token) :
    parsedValue (.continuation :: ts) = if trimmed ts = [] then [92] else parsedValue ts := by
  by_cases h : trimmed ts = []
  · unfold parsedValue plainValue cut
    rw [trimmed_cons, if_pos h, if_pos h]
    rfl
  · rw [parsedValue, plainValue, cut_cons h, trimmed_cons, if_neg h, if_neg h]
    rfl

theorem parsedValue_comment (s : Bytes) (ts : List Token) :
    parsedValue (.comment s :: ts) = if trimmed ts = [] then [] else parsedValue ts := by
  by_cases h : trimmed ts = []
  · unfold parsedValue plainValue cut
    rw [trimmed_cons, if_pos h, if_pos h]
    rfl
  · rw [parsedValue, plainValue, cut_cons h, trimmed_cons, if_neg h, if_neg h]
    rfl

/-- A comment starts a text that is trimmed behind it. -/
theorem trim_hash (w : Bytes) : (35 :: w).rdropWhile isSpace = 35 :: w.rdropWhile isSpace := by
  rw [rdropWhile_cons]
  split
  · next h => rw [h]; rfl
  · rfl

/-- What the tokens are written with, trimmed. -/
theorem decodeValue_spec (h : Tokens k t ts r) : ∀ raw, t = raw ++ r → 0 ∉ raw →
    (raw.rdropWhile isSpace = [] ↔ trimmed ts = []) ∧
      ∀ acc, Returns decodeValue (fun s => s.1.length) (raw.rdropWhile isSpace, acc)
      (acc ++ parsedValue ts) := by
  have hnil : ∀ r : Bytes, ∀ raw, r = raw ++ r → (raw.rdropWhile isSpace = [] ↔ trimmed [] = []) ∧
      ∀ acc, Returns decodeValue (fun s => s.1.length) (raw.rdropWhile isSpace, acc)
      (acc ++ parsedValue []) := by
    intro r raw hraw
    obtain rfl : raw = [] := List.self_eq_append_left.mp hraw
    exact ⟨by simp [trimmed], fun acc => .done (by simp [decodeValue, parsedValue, plainValue, trimmed, cut])⟩
  induction h with
  | ends => exact fun raw hraw _ => hnil _ raw hraw
  | newline => exact fun raw hraw _ => hnil _ raw hraw
  | hash => exact fun raw hraw _ => hnil _ raw hraw
  | @char k c t ts r hline hhash hno htokens ih =>
      intro raw hraw hzero
      obtain ⟨raw', rfl⟩ := htokens.suffix
      obtain rfl : c :: raw' = raw := List.append_cancel_right hraw
      have hc : c ≠ 0 := fun hc => hzero (by simp [hc])
      obtain ⟨hiff, hreturns⟩ := ih raw' rfl fun hmem => hzero (List.mem_cons_of_mem c hmem)
      rw [rdropWhile_cons, trimmed_cons, parsedValue_char]
      by_cases hblank : trimmed ts = []
      · rw [if_pos hblank, if_pos hblank, if_pos (hiff.mpr hblank)]
        show ((if isSpace c then [] else [c]) = [] ↔ (if isSpace c then [] else [Token.char c]) = []) ∧ _
        by_cases hspace : isSpace c = true
        · simp only [if_pos hspace, true_and]
          exact fun acc => .done (by simp [decodeValue])
        · simp only [if_neg hspace]
          refine ⟨by simp, fun acc =>
            .turn (u := ([], acc ++ [c])) ?_ Nat.zero_lt_one (.done (by simp [decodeValue]))⟩
          have hcont : ¬ Continued [c] := by rintro ⟨s, hs⟩; cases hs
          simp [decodeValue, hc, hhash, continues_of_not hcont]
      · have hne : raw'.rdropWhile isSpace ≠ [] := fun hnil => hblank (hiff.mp hnil)
        rw [if_neg hblank, if_neg hblank, if_neg hne]
        refine ⟨by simp, fun acc =>
          .turn (u := (raw'.rdropWhile isSpace, acc ++ [c])) ?_ (Nat.lt_succ_self _) ?_⟩
        · -- a backslash in front of a newline would be one in the text
          have hcont : ¬ Continued (c :: raw'.rdropWhile isSpace) := by
            rintro ⟨s, hs⟩
            obtain ⟨hc, htail⟩ := List.cons.inj hs
            obtain ⟨q, hq⟩ := @List.rdropWhile_prefix _ isSpace raw'
            exact hno ⟨s ++ q ++ r, by rw [← hq, htail, hc]; simp⟩
          simp [decodeValue, hc, hhash, continues_of_not hcont]
        · simpa using hreturns (acc ++ [c])
  | @continuation k t ts r htokens ih =>
      intro raw hraw hzero
      obtain ⟨raw', rfl⟩ := htokens.suffix
      obtain rfl : 92 :: 10 :: raw' = raw := List.append_cancel_right hraw
      obtain ⟨hiff, hreturns⟩ := ih raw' rfl fun hmem => hzero (by simp [hmem])
      have htrim : (92 :: 10 :: raw').rdropWhile isSpace =
          if raw'.rdropWhile isSpace = [] then [92] else 92 :: 10 :: raw'.rdropWhile isSpace := by
        rw [rdropWhile_cons, rdropWhile_cons]
        by_cases hnil : raw'.rdropWhile isSpace = [] <;> simp [hnil, isSpace]
      rw [htrim, trimmed_cons, parsedValue_continuation]
      by_cases hblank : trimmed ts = []
      · -- the newline of the continuation has been trimmed
        rw [if_pos hblank, if_pos hblank, if_pos (hiff.mpr hblank)]
        refine ⟨by simp [Token.isBlank], fun acc =>
          .turn (u := ([], acc ++ [92])) ?_ Nat.zero_lt_one (.done (by simp [decodeValue]))⟩
        have hcont : ¬ Continued [92] := by rintro ⟨s, hs⟩; cases hs
        simp [decodeValue, continues_of_not hcont]
      · have hne : raw'.rdropWhile isSpace ≠ [] := fun hnil => hblank (hiff.mp hnil)
        rw [if_neg hblank, if_neg hblank, if_neg hne]
        refine ⟨by simp, fun acc => .turn (u := (raw'.rdropWhile isSpace, acc)) ?_ ?_ (hreturns acc)⟩
        · simp [decodeValue, continues_of_continued ⟨_, rfl⟩]
        · show (raw'.rdropWhile isSpace).length < (92 :: 10 :: raw'.rdropWhile isSpace).length
          simp
  | @comment t ts r htokens ih =>
      intro raw hraw hzero
      obtain ⟨raw', hraw'⟩ := htokens.suffix
      have hword : ∀ c ∈ t.takeWhile (· != 10), c ≠ 10 := fun c hc => by simpa using List.mem_takeWhile_imp hc
      have hsplit : t = t.takeWhile (· != 10) ++ t.dropWhile (· != 10) := List.takeWhile_append_dropWhile.symm
      have hhead := Parse.dropWhile_head (· != 10) t
      generalize t.takeWhile (· != 10) = w at hsplit hword ⊢
      generalize t.dropWhile (· != 10) = s at hsplit hhead hraw' ih
      have hends : ∀ acc, Returns decodeValue (fun s => s.1.length) ([], acc) (acc ++ []) :=
        fun acc => .done (by simp [decodeValue])
      -- a comment that nothing follows is trimmed inside
      have hlast : 0 ∉ w → ∀ acc, Returns decodeValue (fun s => s.1.length) (35 :: w.rdropWhile isSpace, acc)
          (acc ++ []) := by
        intro hw acc
        have hkept : w.rdropWhile isSpace <+: w := List.rdropWhile_prefix _ _
        refine .turn (u := ([], acc)) ?_ (Nat.zero_lt_succ _) (hends acc)
        simp [decodeValue, skipComment_word (fun c hc => hword c (hkept.subset hc)) fun hmem =>
          hw (hkept.subset hmem)]
      rw [parsedValue_comment, trimmed_cons]
      cases s with
      | nil =>
          obtain ⟨rfl, rfl⟩ := List.append_eq_nil_iff.mp hraw'
          obtain rfl : 35 :: w = raw := by simpa [hsplit] using hraw
          have hblank : trimmed ts = [] := (ih [] rfl (by simp)).1.mp rfl
          rw [if_pos hblank, if_pos hblank, trim_hash]
          exact ⟨by simp [Token.isBlank], hlast fun hmem => hzero (List.mem_cons_of_mem _ hmem)⟩
      | cons c s =>
          obtain rfl : c = 10 := by simpa using hhead
          obtain rfl : raw' ++ r = s := hraw'
          have hfront : 35 :: (w ++ 10 :: raw') ++ r = raw ++ r := by simpa [hsplit] using hraw
          obtain rfl : 35 :: (w ++ 10 :: raw') = raw := List.append_cancel_right hfront
          obtain ⟨hiff, hreturns⟩ := ih raw' rfl fun hmem => hzero (by simp [hmem])
          have htrim : (w ++ 10 :: raw').rdropWhile isSpace =
              if raw'.rdropWhile isSpace = [] then w.rdropWhile isSpace
                else w ++ 10 :: raw'.rdropWhile isSpace := by
            rw [rdropWhile_append, rdropWhile_cons]
            by_cases hnil : raw'.rdropWhile isSpace = [] <;> simp [hnil, isSpace]
          rw [trim_hash, htrim]
          by_cases hblank : trimmed ts = []
          · rw [if_pos hblank, if_pos hblank, if_pos (hiff.mpr hblank)]
            exact ⟨by simp [Token.isBlank], hlast fun hmem => hzero (by simp [hmem])⟩
          · have hne : raw'.rdropWhile isSpace ≠ [] := fun hnil => hblank (hiff.mp hnil)
            have hkept : raw'.rdropWhile isSpace <+: raw' := List.rdropWhile_prefix _ _
            rw [if_neg hblank, if_neg hblank, if_neg hne]
            refine ⟨by simp, fun acc => .turn (u := (raw'.rdropWhile isSpace, acc)) ?_ ?_ (hreturns acc)⟩
            · have hzero' : 0 ∉ w ++ 10 :: raw'.rdropWhile isSpace := by
                intro hmem
                rcases List.mem_append.mp hmem with hw | hmem
                · exact hzero (by simp [hw])
                · rcases List.mem_cons.mp hmem with h10 | hmem
                  · exact absurd h10 (by decide)
                  · exact hzero (by simp [hkept.subset hmem])
              simp [decodeValue, skipComment_line hword hzero']
            · show (raw'.rdropWhile isSpace).length < (35 :: (w ++ 10 :: raw'.rdropWhile isSpace)).length
              simp
              omega

/-- A value that is not continued is its characters. -/
theorem uncontinued_spec (h : Tokens k t ts r) : ∀ raw, t = raw ++ r → 0 ∉ raw → k = false →
    continued ts = false →
    raw.rdropWhile isSpace = parsedValue ts := by
  induction h with
  | ends | newline | hash =>
      intro raw hraw _ _ _
      obtain rfl : raw = [] := List.self_eq_append_left.mp hraw
      rfl
  | comment => exact fun _ _ _ hk _ => absurd hk (by decide)
  | continuation => exact fun _ _ _ _ hcont => absurd hcont (by simp [continued])
  | @char k c t ts r _ _ _ htokens ih =>
      intro raw hraw hzero hk hcont
      obtain ⟨raw', rfl⟩ := htokens.suffix
      obtain rfl : c :: raw' = raw := List.append_cancel_right hraw
      have hzero' : 0 ∉ raw' := fun hmem => hzero (List.mem_cons_of_mem c hmem)
      have hvalue := ih raw' rfl hzero' hk (by simpa [continued] using hcont)
      have hiff := (decodeValue_spec htokens raw' rfl hzero').1
      rw [rdropWhile_cons, parsedValue_char]
      by_cases hblank : trimmed ts = []
      · rw [if_pos hblank, if_pos (hiff.mpr hblank)]
      · rw [if_neg hblank, if_neg fun hnil => hblank (hiff.mp hnil), hvalue]

/-- **What the parser makes of an unquoted value.** -/
theorem valueOf_tokens (h : Tokens false t ts r) (hzero : 0 ∉ t) :
    valueOf (continued ts) ((upTo t r).rdropWhile isSpace) = some (parsedValue ts) := by
  obtain ⟨raw, rfl⟩ := h.suffix
  have hraw : 0 ∉ raw := fun hmem => hzero (List.mem_append_left _ hmem)
  rw [upTo_append, valueOf]
  by_cases hcont : continued ts = true
  · rw [if_pos hcont]
    exact ((decodeValue_spec h raw rfl hraw).2 []).run
  · rw [if_neg hcont, uncontinued_spec h raw rfl hraw rfl (by simpa using hcont)]

/-- The parser adds a backslash when the value ends in a continuation. -/
theorem parsedValue_eq_iff : parsedValue ts = plainValue ts ↔ cut ts = false := by
  unfold parsedValue
  cases cut ts <;> simp

end

/-! ## §4 Quoted values -/

section
variable {t r : Bytes} {is : List Item}

theorem Items.suffix (h : Items t is r) : r <:+ t := by
  induction h with
  | close => exact List.suffix_cons _ _
  | plain _ _ _ _ ih => exact ih.trans (List.suffix_cons _ _)
  | named _ _ ih => exact ih.trans ((List.suffix_cons _ _).trans (List.suffix_cons _ _))
  | @hex x a b t is r _ _ _ _ ih => exact ih.trans ⟨[92, x, a, b], rfl⟩
  | octal _ _ ih =>
      exact ih.trans ((List.drop_suffix _ _).trans ((List.suffix_cons _ _).trans (List.suffix_cons _ _)))

theorem not_isODigit_of_hexMark {x : UInt8} (h : x = 120 ∨ x = 88) :
    isODigit x = false ∧ isNamed x = false := by
  rcases h with rfl | rfl <;> decide

theorem isNamed_of_isODigit {x : UInt8} (h : isODigit x = true) : isNamed x = false := by
  by_contra hnamed
  simp only [Bool.not_eq_false, isNamed, Bool.or_eq_true, beq_iff_eq] at hnamed
  rcases hnamed with ((((rfl | rfl) | rfl) | rfl) | rfl) | rfl <;> revert h <;> decide

theorem Items.unique {is' : List Item} {s : Bytes} (h : Items t is r) (h' : Items t is' s) :
    is = is' ∧ r = s := by
  induction h generalizing is' with
  | close =>
      cases h' with
      | close => exact ⟨rfl, rfl⟩
      | plain hc => exact absurd rfl hc
  | plain hquote hback hline _ ih =>
      cases h' with
      | close => exact absurd rfl hquote
      | plain _ _ _ h' =>
          obtain ⟨rfl, rfl⟩ := ih h'
          exact ⟨rfl, rfl⟩
      | named => exact absurd rfl hback
      | hex => exact absurd rfl hback
      | octal => exact absurd rfl hback
  | named hnamed _ ih =>
      cases h' with
      | plain _ hback => exact absurd rfl hback
      | named _ h' =>
          obtain ⟨rfl, rfl⟩ := ih h'
          exact ⟨rfl, rfl⟩
      | hex hx => exact absurd hnamed (by simp [(not_isODigit_of_hexMark hx).2])
      | octal ha => exact absurd hnamed (by simp [isNamed_of_isODigit ha])
  | hex hx _ _ _ ih =>
      cases h' with
      | plain _ hback => exact absurd rfl hback
      | named hnamed => exact absurd hnamed (by simp [(not_isODigit_of_hexMark hx).2])
      | hex _ _ _ h' =>
          obtain ⟨rfl, rfl⟩ := ih h'
          exact ⟨rfl, rfl⟩
      | octal ha => exact absurd ha (by simp [(not_isODigit_of_hexMark hx).1])
  | octal ha _ ih =>
      cases h' with
      | plain _ hback => exact absurd rfl hback
      | named hnamed => exact absurd hnamed (by simp [isNamed_of_isODigit ha])
      | hex hx => exact absurd ha (by simp [(not_isODigit_of_hexMark hx).1])
      | octal _ h' =>
          obtain ⟨rfl, rfl⟩ := ih h'
          exact ⟨rfl, rfl⟩

/-- Up to two octal digits are eaten. -/
theorem eatODigits_eq (t : Bytes) :
    (do eatODigit (← eatODigit t)) = some (t.drop (run isODigit 2 t).length) := by
  match t with
  | [] => rfl
  | [a] =>
      have hzero : isODigit 0 = false := by decide
      by_cases ha : isODigit a = true <;> simp [eatODigit, run, ha, hzero]
  | a :: b :: t =>
      by_cases ha : isODigit a = true <;> by_cases hb : isODigit b = true <;> simp [eatODigit, run, ha, hb]

theorem Items.behind {c : UInt8} (h : Items (c :: t) is r) (hquote : c ≠ 34) (hback : c ≠ 92) :
    c ≠ 10 ∧ ∃ is', Items t is' r := by
  cases h with
  | close => exact absurd rfl hquote
  | plain _ _ hline h => exact ⟨hline, _, h⟩
  | named => exact absurd rfl hback
  | hex => exact absurd rfl hback
  | octal => exact absurd rfl hback

/-- The three kinds of escapes. -/
theorem Items.escape (h : Items (92 :: t) is r) : ∃ d s, t = d :: s ∧
    ((d = 120 ∨ d = 88) ∧
      (∃ a b s' is', s = a :: b :: s' ∧ isXDigit a = true ∧ isXDigit b = true ∧ Items s' is' r) ∨
      isODigit d = true ∧ (∃ is', Items (s.drop (run isODigit 2 s).length) is' r) ∨
      isNamed d = true ∧ ∃ is', Items s is' r) := by
  cases h with
  | plain _ hback => exact absurd rfl hback
  | named hnamed h => exact ⟨_, _, rfl, Or.inr (Or.inr ⟨hnamed, _, h⟩)⟩
  | hex hmark ha hb h => exact ⟨_, _, rfl, Or.inl ⟨hmark, _, _, _, _, rfl, ha, hb, h⟩⟩
  | octal ha h => exact ⟨_, _, rfl, Or.inr (Or.inl ⟨ha, _, h⟩)⟩

/-- A turn of the scan takes an item. -/
def Takes (t u : Bytes) (i : Item) : Prop :=
  unescapeScan t = some (.inl u) ∧ u.length < t.length ∧ u <:+ t ∧
    (∀ is r, Items u is r → Items t (i :: is) r) ∧
    ∀ is r, Items t is r → ∃ is', Items u is' r

/-- The scan stops where no items are. -/
def Stops (t : Bytes) : Prop := unescapeScan t = some (.inr none) ∧ ∀ is r, ¬ Items t is r

theorem takes_hex {d a b : UInt8} (hmark : d = 120 ∨ d = 88) (ha : isXDigit a = true) (hb : isXDigit b = true)
    (s : Bytes) :
    Takes (92 :: d :: a :: b :: s) s (.hex a b) := by
  have hkind := not_isODigit_of_hexMark hmark
  refine ⟨by simp [unescapeScan, hmark, ha, hb], by simp only [List.length_cons]; omega, ⟨[92, d, a, b], rfl⟩,
    fun is r h => .hex hmark ha hb h, fun is r h => ?_⟩
  obtain ⟨_, _, heq, ⟨-, _, _, _, is', hs, -, -, h'⟩ | ⟨hoct, -⟩ | ⟨hnamed, -⟩⟩ := h.escape <;>
    obtain ⟨rfl, rfl⟩ := List.cons.inj heq
  · cases hs
    exact ⟨is', h'⟩
  · exact absurd hoct (by simp [hkind])
  · exact absurd hnamed (by simp [hkind])

theorem takes_octal {d : UInt8} (hoct : isODigit d = true) (s : Bytes) :
    Takes (92 :: d :: s) (s.drop (run isODigit 2 s).length) (.octal (d :: run isODigit 2 s)) := by
  have hmark : ¬ (d = 120 ∨ d = 88) := fun hmark => by simp [(not_isODigit_of_hexMark hmark).1] at hoct
  have hdrop : s.drop (run isODigit 2 s).length <:+ s := List.drop_suffix _ _
  have heat : (eatODigit s).bind (fun cp => (eatODigit cp).bind fun cp => some (Sum.inl cp)) =
      some (Sum.inl (β := Option Bytes) (s.drop (run isODigit 2 s).length)) := by
    rw [← Option.bind_assoc, show (eatODigit s).bind eatODigit = _ from eatODigits_eq s]
    rfl
  refine ⟨by simp [unescapeScan, hmark, hoct, heat], ?_, hdrop.trans ⟨[92, d], rfl⟩, fun is r h =>
    .octal hoct h, fun is r h => ?_⟩
  · have := hdrop.length_le
    simp only [List.length_cons]
    omega
  · obtain ⟨_, _, heq, ⟨hd, -⟩ | ⟨-, is', h'⟩ | ⟨hnamed, -⟩⟩ := h.escape <;> obtain ⟨rfl, rfl⟩ :=
      List.cons.inj heq
    · exact absurd hd hmark
    · exact ⟨is', h'⟩
    · exact absurd hnamed (by simp [isNamed_of_isODigit hoct])

theorem takes_named {d : UInt8} (hnamed : isNamed d = true) (s : Bytes) :
    Takes (92 :: d :: s) s (.named d) := by
  have hmark : ¬ (d = 120 ∨ d = 88) := fun hmark => by simp [(not_isODigit_of_hexMark hmark).2] at hnamed
  have hoct : ¬ isODigit d = true := fun hoct => by simp [isNamed_of_isODigit hoct] at hnamed
  refine ⟨by simp [unescapeScan, hmark, hoct, hnamed], by simp only [List.length_cons]; omega, ⟨[92, d], rfl⟩,
    fun is r h => .named hnamed h, fun is r h => ?_⟩
  obtain ⟨_, _, heq, ⟨hd, -⟩ | ⟨hd, -⟩ | ⟨-, is', h'⟩⟩ := h.escape <;> obtain ⟨rfl, rfl⟩ := List.cons.inj heq
  · exact absurd hd hmark
  · exact absurd hd hoct
  · exact ⟨is', h'⟩

theorem takes_plain {c : UInt8} (hzero : c ≠ 0) (hquote : c ≠ 34) (hback : c ≠ 92) (hline : c ≠ 10)
    (s : Bytes) :
    Takes (c :: s) s (.plain c) :=
  ⟨by simp [unescapeScan, hzero, hquote, hback, hline], Nat.lt_succ_self _, List.suffix_cons _ _,
    fun _ _ h => .plain hquote hback hline h, fun _ _ h => (h.behind hquote hback).2⟩

/-- A hexadecimal escape without its digits. -/
theorem stops_hex {d : UInt8} (hmark : d = 120 ∨ d = 88) {s : Bytes}
    (hno : ¬ ∃ a b s', s = a :: b :: s' ∧ isXDigit a = true ∧ isXDigit b = true) : Stops (92 :: d :: s) := by
  have hkind := not_isODigit_of_hexMark hmark
  have hnone : isXDigit 0 = false := by decide
  constructor
  · match s, hno with
    | [], _ => simp [unescapeScan, hmark, hnone]
    | [a], _ => simp [unescapeScan, hmark, hnone]
    | a :: b :: s, hno =>
        by_cases ha : isXDigit a = true
        · have hb : isXDigit b = false := by
            by_contra hb
            exact hno ⟨a, b, s, rfl, ha, by simpa using hb⟩
          simp [unescapeScan, hmark, hb]
        · simp [unescapeScan, hmark, ha]
  · intro is r h
    obtain ⟨_, _, heq, ⟨-, a, b, s', is', hs, ha, hb, -⟩ | ⟨hoct, -⟩ | ⟨hnamed, -⟩⟩ := h.escape <;>
      obtain ⟨rfl, rfl⟩ := List.cons.inj heq
    · exact hno ⟨a, b, s', hs, ha, hb⟩
    · exact absurd hoct (by simp [hkind])
    · exact absurd hnamed (by simp [hkind])

/-- **What a turn of the scan does**: it finds the closing quote, takes an item, or stops. -/
theorem unescapeScan_cases (h : 0 ∉ t) : (∃ r, t = 34 :: r) ∨ (∃ u i, Takes t u i) ∨ Stops t := by
  have hnone : isODigit 0 = false ∧ isNamed 0 = false := by decide
  match t with
  | [] => exact Or.inr (Or.inr ⟨by simp [unescapeScan], fun _ _ h => (nomatch h)⟩)
  | c :: s =>
      by_cases hquote : c = 34
      · exact Or.inl ⟨s, by rw [hquote]⟩
      right
      by_cases hback : c = 92
      · subst hback
        cases s with
        | nil =>
            refine Or.inr ⟨by simp [unescapeScan, hnone], fun is r h => ?_⟩
            obtain ⟨_, _, hs, -⟩ := h.escape
            cases hs
        | cons d s =>
            by_cases hmark : d = 120 ∨ d = 88
            · by_cases hdigits : ∃ a b s', s = a :: b :: s' ∧ isXDigit a = true ∧ isXDigit b = true
              · obtain ⟨a, b, s', rfl, ha, hb⟩ := hdigits
                exact Or.inl ⟨_, _, takes_hex hmark ha hb s'⟩
              · exact Or.inr (stops_hex hmark hdigits)
            by_cases hoct : isODigit d = true
            · exact Or.inl ⟨_, _, takes_octal hoct s⟩
            by_cases hnamed : isNamed d = true
            · exact Or.inl ⟨_, _, takes_named hnamed s⟩
            refine Or.inr ⟨by simp [unescapeScan, hmark, hoct, hnamed], fun is r h => ?_⟩
            obtain ⟨_, _, heq, ⟨hd, -⟩ | ⟨hd, -⟩ | ⟨hd, -⟩⟩ := h.escape <;> obtain ⟨rfl, rfl⟩ :=
              List.cons.inj heq
            · exact hmark hd
            · exact hoct hd
            · exact hnamed hd
      by_cases hline : c = 10
      · exact Or.inr ⟨by simp [unescapeScan, hline], fun is r h => (h.behind hquote hback).1 hline⟩
      · exact Or.inl ⟨_, _, takes_plain (fun hc => h (by simp [hc])) hquote hback hline s⟩

/-- **The closing quote is found** if there are items up to it. -/
theorem unescapeScan_spec (n : Nat) : ∀ t : Bytes, t.length < n → 0 ∉ t →
    (∃ is r, Items t is r ∧ Returns unescapeScan List.length t (some (34 :: r))) ∨
      ((∀ is r, ¬ Items t is r) ∧ Returns unescapeScan List.length t none) := by
  induction n with
  | zero => exact fun t hlen _ => absurd hlen (Nat.not_lt_zero _)
  | succ n ih =>
      intro t hlen h
      rcases unescapeScan_cases h with ⟨r, rfl⟩ | ⟨u, i, hturn, hlt, hsuffix, hto, hfrom⟩ | ⟨hstop, hno⟩
      · exact Or.inl ⟨[], r, .close, .done (by simp [unescapeScan])⟩
      · rcases ih u (by omega) (notMem_suffix h hsuffix) with ⟨is, r, hitems, hreturns⟩ | ⟨hno, hreturns⟩
        · exact Or.inl ⟨i :: is, r, hto is r hitems, .turn hturn hlt hreturns⟩
        · refine Or.inr ⟨fun is r hitems => ?_, .turn hturn hlt hreturns⟩
          obtain ⟨is', h'⟩ := hfrom is r hitems
          exact hno is' r h'
      · exact Or.inr ⟨hno, .done hstop⟩

/-- The value of two more octal digits. -/
theorem readODigits_eq (t : Bytes) (n : Nat) :
    (do let (cp, n) ← readODigit t n; readODigit cp n) =
      some (t.drop (run isODigit 2 t).length, valueFrom 8 (fun c => c.toNat - 48) n (run isODigit 2 t)) := by
  have hzero : isODigit 0 = false := by decide
  have hdigit : ∀ (a : UInt8) (m : Nat), isODigit a = true → m * 8 + a.toNat - 48 = 8 * m + (a.toNat - 48) := by
    intro a m ha
    have hle : 48 ≤ a.toNat := by
      simp only [isODigit, Bool.and_eq_true, decide_eq_true_eq, UInt8.le_iff_toNat_le] at ha
      exact ha.1
    omega
  match t with
  | [] => simp [readODigit, run, hzero]
  | [a] => by_cases ha : isODigit a = true <;> simp [readODigit, run, ha, hzero, hdigit]
  | a :: b :: t =>
      by_cases ha : isODigit a = true <;> by_cases hb :
        isODigit b = true <;> simp [readODigit, run, ha, hb, hdigit]

theorem mapM_cons_some {i : Item} {c : UInt8} (h : i.value = some c) (is : List Item) :
    (i :: is).mapM Item.value = (is.mapM Item.value).map (c :: ·) := by
  rw [List.mapM_cons, h]
  cases is.mapM Item.value <;> rfl

/-- A turn of the decoder: the item that is taken, and the character that is stored for it. -/
def Decodes (t u : Bytes) (i : Item) : Prop :=
  u.length < t.length ∧ u <:+ t ∧
    ∀ acc, unescapeDecode (t, acc) = some (i.value.elim (.inr none) fun c => .inl (u, acc ++ [c]))

theorem decodes_plain {c : UInt8} (hzero : c ≠ 0) (hquote : c ≠ 34) (hback : c ≠ 92) (s : Bytes) :
    Decodes (c :: s) s (.plain c) :=
  ⟨Nat.lt_succ_self _, List.suffix_cons _ _, fun _ => by
    simp [unescapeDecode, hquote, hzero, hback, Item.value]⟩

theorem decodes_named {c : UInt8} (hnamed : isNamed c = true) (s : Bytes) :
    Decodes (92 :: c :: s) s (.named c) := by
  refine ⟨by simp only [List.length_cons]; omega, ⟨[92, c], rfl⟩, fun acc => ?_⟩
  simp only [isNamed, Bool.or_eq_true, beq_iff_eq] at hnamed
  rcases hnamed with ((((rfl | rfl) | rfl) | rfl) | rfl) | rfl <;> rfl

theorem decodes_hex {x a b : UInt8} (hmark : x = 120 ∨ x = 88) (ha : isXDigit a = true) (hb : isXDigit b = true)
    (s : Bytes) :
    Decodes (92 :: x :: a :: b :: s) s (.hex a b) := by
  refine ⟨by simp only [List.length_cons]; omega, ⟨[92, x, a, b], rfl⟩, fun acc => ?_⟩
  rcases hmark with rfl | rfl <;> simp [unescapeDecode, ha, hb, Item.value]

theorem decodes_octal {a : UInt8} (ha : isODigit a = true) (s : Bytes) :
    Decodes (92 :: a :: s) (s.drop (run isODigit 2 s).length) (.octal (a :: run isODigit 2 s)) := by
  have hdrop : s.drop (run isODigit 2 s).length <:+ s := List.drop_suffix _ _
  refine ⟨?_, hdrop.trans ⟨[92, a], rfl⟩, fun acc => ?_⟩
  · have := hdrop.length_le
    simp only [List.length_cons]
    omega
  · have hother : ¬ (a = 110 ∨ a = 114 ∨ a = 116) ∧ ¬ (a = 120 ∨ a = 88) := by
      constructor <;> rintro (rfl | rfl | rfl) <;> revert ha <;> decide
    obtain ⟨p, hp, hq⟩ := Option.bind_eq_some_iff.mp (readODigits_eq s (a.toNat - 48))
    have hnumber : octalNumber (a :: run isODigit 2 s) =
        valueFrom 8 (fun c => c.toNat - 48) (a.toNat - 48) (run isODigit 2 s) := by
      rw [octalNumber, value, valueFrom_cons, Nat.mul_zero, Nat.zero_add]
    rw [Item.value, hnumber]
    by_cases hle : valueFrom 8 (fun c => c.toNat - 48) (a.toNat - 48) (run isODigit 2 s) ≤ 255
    · simp [unescapeDecode, hother, ha, hp, hq, hle, Nat.not_lt.mpr hle]
    · simp [unescapeDecode, hother, ha, hp, hq, hle, Nat.not_le.mp hle]

/-- **The decoder takes the items that the scan takes.** -/
theorem Items.decodes {i : Item} (h : Items t (i :: is) r) (hzero : 0 ∉ t) :
    ∃ u, Items u is r ∧ Decodes t u i := by
  cases h with
  | plain hquote hback _ h => exact ⟨_, h, decodes_plain (fun hc => hzero (by simp [hc])) hquote hback _⟩
  | named hnamed h => exact ⟨_, h, decodes_named hnamed _⟩
  | hex hmark ha hb h => exact ⟨_, h, decodes_hex hmark ha hb _⟩
  | octal ha h => exact ⟨_, h, decodes_octal ha _⟩

/-- **The items are decoded.** -/
theorem unescapeDecode_spec (h : Items t is r) (hzero : 0 ∉ t) : ∀ acc,
    Returns unescapeDecode (fun s => s.1.length) (t, acc) ((is.mapM Item.value).map fun d =>
        (r, acc ++ d)) := by
  induction is generalizing t with
  | nil =>
      cases h
      exact fun acc => .done (by simp [unescapeDecode])
  | cons i is ih =>
      intro acc
      obtain ⟨u, hu, hlt, hsuffix, hturn⟩ := h.decodes hzero
      have hnext := hturn acc
      cases hvalue : i.value with
      | none =>
          rw [hvalue] at hnext
          rw [List.mapM_cons, hvalue]
          exact .done hnext
      | some c =>
          rw [hvalue] at hnext
          refine .turn hnext hlt ?_
          rw [mapM_cons_some hvalue, Option.map_map]
          simpa [Function.comp_def] using ih hu (notMem_suffix hzero hsuffix) (acc ++ [c])

/-- **`unescape_string` reads the quoted strings.** -/
theorem unescapeString_quoted {d : Bytes} (h : 0 ∉ t) (hquoted : Quoted t d r) :
    unescapeString (34 :: t) = some (some (r, d)) := by
  obtain ⟨is, hitems, hvalue⟩ := hquoted
  rcases unescapeScan_spec (t.length + 1) t (Nat.lt_succ_self _) h with ⟨is', s, hitems', hreturns⟩ | ⟨hno, -⟩
  · have hdecode := (unescapeDecode_spec hitems h []).run
    rw [hvalue] at hdecode
    simp only [unescapeString, peek_cons_zero, advance_cons, advance_zero, Option.bind_eq_bind,
      Option.bind_some, ne_eq, not_true_eq_false, if_false, hreturns.run]
    simpa using hdecode
  · exact absurd hitems (hno is r)

theorem unescapeString_malformed (h : 0 ∉ t) (hno : ∀ d r, ¬ Quoted t d r) :
    unescapeString (34 :: t) = some none := by
  rcases unescapeScan_spec (t.length + 1) t (Nat.lt_succ_self _) h with ⟨is, s, hitems, hreturns⟩ |
    ⟨-, hreturns⟩
  · have hdecode := (unescapeDecode_spec hitems h []).run
    have hvalue : is.mapM Item.value = none := by
      cases hmap : is.mapM Item.value with
      | none => rfl
      | some d => exact absurd ⟨is, hitems, hmap⟩ (hno d s)
    rw [hvalue] at hdecode
    simp only [unescapeString, peek_cons_zero, advance_cons, advance_zero, Option.bind_eq_bind,
      Option.bind_some, ne_eq, not_true_eq_false, if_false, hreturns.run]
    simpa using hdecode
  · simp [unescapeString, hreturns.run]

theorem Quoted.unique {d d' s : Bytes} (h : Quoted t d r) (h' : Quoted t d' s) : d = d' ∧ r = s := by
  obtain ⟨is, hitems, hvalue⟩ := h
  obtain ⟨is', hitems', hvalue'⟩ := h'
  obtain ⟨rfl, rfl⟩ := hitems.unique hitems'
  exact ⟨Option.some.inj (hvalue.symm.trans hvalue'), rfl⟩

end

end SploneBox.LineGrammar
