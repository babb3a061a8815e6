import ClassDiagram.Proofs.Token.Words
import Mathlib.Data.List.TakeWhile

/-! # Symbols, blanks, comments and quoted texts

Most symbols are cut off whatever stands behind them.  An opening angle and a hyphen begin longer
symbols too, and blanks go on with blanks, so there it matters what comes next.

* `pieces_fixed`: the symbols that stand for themselves everywhere;
* `pieces_openAngle`, `pieces_minus`, `pieces_blanks`, `pieces_quoted`: the others;
* `commentLength_cons`, `quotedLength_cons`: how far comments and quotations go;
* `quotedLength_append_congr`: what stands behind a quotation.
-/

namespace ClassDiagram

open TokenCatalog

/-- Symbols that no text behind them makes longer. -/
def fixedSymbols : List (Token × String) :=
  [(.newline, "\n"), (.plus, "+"), (.hash, "#"), (.tilde, "~"), (.dollar, "$"), (.asterisk, "*"),
   (.colon, ":"), (.openParen, "("), (.closeParen, ")"), (.comma, ","), (.closeAngle, ">"),
   (.openBracket, "["), (.closeBracket, "]"), (.question, "?"), (.annotationStart, "<<"),
   (.inheritsLeft, "<|--"), (.realizesRight, "..|>")]

theorem pieces_fixed {t : Token} {x : String} (h : (t, x) ∈ fixedSymbols) (rest : List Char) :
    classDiagram.pieces (x.toList ++ rest) = ⟨t, x.toList⟩ :: classDiagram.pieces rest := by
  have key : ∀ s ∈ fixedSymbols, s.2.toList ≠ [] ∧
      classDiagram.bestMatch (s.2.toList ++ rest) = some (s.1, s.2.toList.length) := by
    intro s hs
    simp only [fixedSymbols, List.mem_cons, List.not_mem_nil, or_false] at hs
    rcases hs with rfl | rfl | rfl | rfl | rfl | rfl | rfl | rfl | rfl | rfl | rfl | rfl | rfl |
      rfl | rfl | rfl | rfl <;> exact ⟨by decide, rfl⟩
  obtain ⟨hne, hbest⟩ := key _ h
  exact pieces_of_bestMatch hne hbest

theorem pieces_openAngle {rest : List Char} (h1 : rest.head? ≠ some '<')
    (h2 : rest.head? ≠ some '|') :
    classDiagram.pieces ('<' :: rest) = ⟨.openAngle, ['<']⟩ :: classDiagram.pieces rest := by
  apply pieces_of_bestMatch (u := ['<']) (by simp)
  cases rest with
  | nil => rfl
  | cons c rest =>
    have h1' : ('<' == c) = false := by
      rw [beq_eq_false_iff_ne]
      rintro rfl
      exact h1 rfl
    have h2' : ('|' == c) = false := by
      rw [beq_eq_false_iff_ne]
      rintro rfl
      exact h2 rfl
    simp [bestMatch, classDiagram, prefer, Matcher.length, literalEntry, wordLength, blankLength,
      commentLength, quotedLength, isWordChar, Text.isAlphanumeric, isInlineBlank, List.isPrefixOf,
      h1', h2']

theorem pieces_minus {rest : List Char} (h : rest.head? ≠ some '-') :
    classDiagram.pieces ('-' :: rest) = ⟨.minus, ['-']⟩ :: classDiagram.pieces rest := by
  apply pieces_of_bestMatch (u := ['-']) (by simp)
  cases rest with
  | nil => rfl
  | cons c rest =>
    have h' : ('-' == c) = false := by
      rw [beq_eq_false_iff_ne]
      rintro rfl
      exact h rfl
    simp [bestMatch, classDiagram, prefer, Matcher.length, literalEntry, wordLength, blankLength,
      commentLength, quotedLength, isWordChar, Text.isAlphanumeric, isInlineBlank, List.isPrefixOf,
      h']

/-! ## Blanks -/

def BlankEnds (rest : List Char) : Prop := blankLength rest = 0

theorem blankEnds_nil : BlankEnds [] := rfl

theorem blankLength_eq_zero_iff {c : Char} {t : List Char} :
    blankLength (c :: t) = 0 ↔ isInlineBlank c = false := by
  by_cases hc : isInlineBlank c = true <;> simp [blankLength, hc]

theorem blankEnds_cons {c : Char} (hc : isInlineBlank c = false) (rest : List Char) :
    BlankEnds (c :: rest) := blankLength_eq_zero_iff.2 hc

theorem pieces_blanks (n : Nat) {rest : List Char} (hrest : BlankEnds rest) :
    classDiagram.pieces (List.replicate (n + 1) ' ' ++ rest) =
      ⟨.whitespace, List.replicate (n + 1) ' '⟩ :: classDiagram.pieces rest := by
  have hlen : ∀ m, blankLength (List.replicate m ' ' ++ rest) = m := by
    intro m
    induction m with
    | zero => exact hrest
    | succ m ih =>
      rw [blankLength] at ih ⊢
      simp [List.replicate_succ, isInlineBlank, ih]
  apply pieces_of_bestMatch (by simp)
  have h := hlen (n + 1)
  rw [List.length_replicate]
  rw [List.replicate_succ, List.cons_append] at h ⊢
  simp [bestMatch, classDiagram, prefer, Matcher.length, literalEntry, wordLength, commentLength,
    quotedLength, isWordChar, Text.isAlphanumeric, List.isPrefixOf, h]

/-! ## Comments -/

/-- A comment goes on to the end of its line, but for the carriage returns there. -/
theorem commentLength_cons (r : List Char) : commentLength ('%' :: '%' :: r)
    = ((r.takeWhile (· != '\n')).reverse.dropWhile (· == '\r')).length + 2 := by
  have hkeep : ∀ u : List Char, (u ++ ['%', '%']).dropWhile (· == '\r')
      = u.dropWhile (· == '\r') ++ ['%', '%'] := by
    intro u
    rw [List.dropWhile_append]
    cases u.dropWhile (· == '\r') <;> rfl
  simp [commentLength, hkeep]

theorem commentLength_eq_zero_iff {t : List Char} :
    commentLength t = 0 ↔ ¬ ['%', '%'] <+: t := by
  constructor
  · rintro h ⟨r, rfl⟩
    have hcons := commentLength_cons r
    rw [show ['%', '%'] ++ r = '%' :: '%' :: r from rfl] at h
    omega
  · intro h
    unfold commentLength
    split
    · rename_i r
      exact absurd ⟨r, rfl⟩ h
    · rfl

/-! ## Quoted texts -/

def Quotable (text : List Char) : Prop := ∀ c ∈ text, c ≠ '"' ∧ c ≠ '\n'

def isQuotable (c : Char) : Bool := c != '"' && c != '\n'

/-- Whether a quotation that is open in front of a text ends in it. -/
def EndsQuotation (text : List Char) : Prop := (text.dropWhile isQuotable).head? = some '"'

instance (text : List Char) : Decidable (EndsQuotation text) := inferInstanceAs (Decidable (_ = _))

theorem endsQuotation_append {s : List Char} (hs : ∀ c ∈ s, isQuotable c = true) (v : List Char) :
    EndsQuotation (s ++ v) ↔ EndsQuotation v := by
  rw [EndsQuotation, EndsQuotation, List.dropWhile_append_of_pos hs]

/-- A quoted text goes to the next quotation mark, if no line feed comes first. -/
theorem quotedLength_cons (r : List Char) : quotedLength ('"' :: r) =
    if EndsQuotation r then (r.takeWhile isQuotable).length + 2 else 0 := by
  have hdrop : r.drop (r.takeWhile fun c => c != '"' && c != '\n').length
      = r.dropWhile isQuotable := by
    have h : (r.takeWhile isQuotable ++ r.dropWhile isQuotable).drop
        (r.takeWhile isQuotable).length = r.dropWhile isQuotable := List.drop_left
    rwa [List.takeWhile_append_dropWhile] at h
  change _ = if (r.dropWhile isQuotable).head? = some '"' then _ else 0
  simp only [quotedLength, hdrop]
  cases r.dropWhile isQuotable with
  | nil => rfl
  | cons c t =>
    by_cases hc : c = '"'
    · subst hc
      rfl
    · simp [hc]

/-- What is covered of a quotation within `s` does not depend on what stands behind `s`, as long as
that ends no quotation which was open there. -/
theorem quotedLength_append_congr {s v z : List Char} (hs : s ≠ [])
    (h : quotedLength (s ++ v) ≤ s.length) (hz : EndsQuotation z → EndsQuotation v) :
    quotedLength (s ++ z) = quotedLength (s ++ v) := by
  obtain ⟨c, s, rfl⟩ := List.exists_cons_of_ne_nil hs
  by_cases hc : c = '"'
  · subst hc
    rw [List.cons_append, quotedLength_cons] at h
    rw [List.cons_append, List.cons_append, quotedLength_cons, quotedLength_cons]
    cases hrest : s.dropWhile isQuotable with
    | nil =>
      -- the quotation would have to end behind `s`, which is too far
      have hall := List.dropWhile_eq_nil_iff.1 hrest
      simp only [endsQuotation_append hall, List.takeWhile_append_of_pos hall,
        List.length_append, List.length_cons] at h ⊢
      have hopen : ¬ EndsQuotation v := by
        intro hends
        rw [if_pos hends] at h
        omega
      rw [if_neg hopen, if_neg (mt hz hopen)]
    | cons d t =>
      -- it ends in `s`, or the line does
      have hlength := congrArg List.length
        (List.takeWhile_append_dropWhile (p := isQuotable) (l := s))
      rw [List.length_append, hrest, List.length_cons] at hlength
      have hne : (s.takeWhile isQuotable).length ≠ s.length := by omega
      simp [EndsQuotation, List.takeWhile_append, List.dropWhile_append, hrest, hne]
  · simp [quotedLength, hc]

theorem quotedLength_eq {body : List Char} (hbody : Quotable body) (rest : List Char) :
    quotedLength ('"' :: (body ++ '"' :: rest)) = body.length + 2 := by
  have htake : (body ++ '"' :: rest).takeWhile (fun c => c != '"' && c != '\n') = body := by
    rw [List.takeWhile_append_of_pos]
    · simp
    · intro c hc
      simpa using hbody c hc
  rw [quotedLength]
  simp [htake]

theorem pieces_quoted {body : List Char} (hbody : Quotable body) (rest : List Char) :
    classDiagram.pieces ('"' :: (body ++ '"' :: rest)) =
      ⟨.quotedString, '"' :: (body ++ ['"'])⟩ :: classDiagram.pieces rest := by
  have htext : '"' :: (body ++ '"' :: rest) = '"' :: (body ++ ['"']) ++ rest := by simp
  have hlen := quotedLength_eq hbody rest
  have hbest : classDiagram.bestMatch ('"' :: (body ++ '"' :: rest))
      = some (.quotedString, body.length + 2) := by
    simp [bestMatch, classDiagram, prefer, Matcher.length, literalEntry, wordLength, blankLength,
      commentLength, isWordChar, Text.isAlphanumeric, isInlineBlank, List.isPrefixOf, hlen]
  rw [htext] at hbest ⊢
  refine pieces_of_bestMatch (by simp) (hbest.trans ?_)
  simp

end ClassDiagram
