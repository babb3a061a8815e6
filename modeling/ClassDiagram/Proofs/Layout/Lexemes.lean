import ClassDiagram.Proofs.Grammar.Syntax
import ClassDiagram.Proofs.Token.Symbols

/-! # Lexemes of a text

Whatever the text, a lexeme that is called a word is one, a keyword has the text of a keyword, and
a quoted text stands in its quotation marks.

* `TokenCatalog.bestMatch_of_mem_pieces`: each piece is the best match where it stands;
* `genuine_ofText`: so lexemes look like their tokens.
-/

namespace ClassDiagram

open TokenCatalog Grammar

/-- A piece that is no raw text is the best match at its place, with all of its length. -/
theorem TokenCatalog.bestMatch_of_mem_pieces {catalog : TokenCatalog} {text : List Char} :
    ∀ p ∈ catalog.pieces text, p.token ≠ .rawText →
      ∃ rest, catalog.bestMatch (p.text ++ rest) = some (p.token, p.text.length) := by
  fun_induction pieces catalog text with
  | case1 => exact List.forall_mem_nil _
  | case2 c rest token n hnext ih =>
    intro p hp hraw
    rcases List.mem_cons.1 hp with rfl | hp
    · refine ⟨rest.drop n, ?_⟩
      have htext : c :: rest.take n ++ rest.drop n = c :: rest := by simp
      rw [htext]
      cases hbest : catalog.bestMatch (c :: rest) with
      | none =>
        simp only [nextPiece, hbest, Prod.mk.injEq] at hnext
        exact absurd hnext.1.symm hraw
      | some best =>
        obtain ⟨t, k⟩ := best
        simp only [nextPiece, hbest, Prod.mk.injEq] at hnext
        obtain ⟨rfl, rfl⟩ := hnext
        obtain ⟨e, _, _, hlength, hpos⟩ := bestMatch_eq_some hbest
        have hle := e.matcher.length_le (c :: rest)
        rw [hlength, List.length_cons] at hle
        have hlen : (c :: rest.take (k - 1)).length = k := by
          rw [List.length_cons, List.length_take]
          omega
        rw [hlen]
    · exact ih p hp hraw

/-! ## Texts of single tokens -/

theorem isWord_of_bestMatch {u rest : List Char}
    (h : classDiagram.bestMatch (u ++ rest) = some (.word, u.length)) :
    IsWord (String.ofList u) := by
  obtain ⟨hword, hpos, ht⟩ := word_of_bestMatch h
  rw [List.take_left] at ht
  rw [isWord_iff, String.toList_ofList]
  have hne := List.ne_nil_of_length_pos hpos
  exact ⟨hne, (wordLength_alone (Nat.le_of_eq hword)).trans hword, ht⟩

theorem keyword_of_bestMatch {u rest : List Char} {t : Token} (ht : isKeyword t = true)
    (h : classDiagram.bestMatch (u ++ rest) = some (t, u.length)) : Keyword (String.ofList u) := by
  obtain ⟨e, he, rfl, hlength, hpos⟩ := bestMatch_eq_some h
  have hentry : ∀ e ∈ classDiagram, isKeyword e.token = true →
      ∃ k ∈ ["classDiagram", "class", "note", "for"], e.matcher = .literal k.toList := by decide
  obtain ⟨k, hk, hmatcher⟩ := hentry e he ht
  rw [hmatcher] at hlength
  rw [eq_of_length_literal (List.ne_nil_of_length_pos hpos) hlength, String.ofList_toList]
  exact hk

/-- A text that is quoted, with what stands between the quotation marks. -/
theorem quoted_of_quotedLength {u rest : List Char} (h : quotedLength (u ++ rest) = u.length)
    (hpos : 0 < u.length) : ∃ body, Quotable body ∧ u = '"' :: (body ++ ['"']) := by
  obtain ⟨c, u, rfl⟩ := List.exists_cons_of_length_pos hpos
  by_cases hc : c = '"'
  · subst hc
    rw [List.cons_append, quotedLength_cons] at h
    by_cases hends : EndsQuotation (u ++ rest)
    · rw [if_pos hends, List.length_cons, Nat.succ_inj] at h
      obtain ⟨tail, htail⟩ := List.head?_eq_some_iff.1 hends
      have hsplit := List.takeWhile_append_dropWhile (p := isQuotable) (l := u ++ rest)
      rw [htail, List.append_cons] at hsplit
      obtain ⟨hu, -⟩ := List.append_inj hsplit (by rw [← h, List.length_append]; rfl)
      refine ⟨(u ++ rest).takeWhile isQuotable, fun c hc => ?_, congrArg _ hu.symm⟩
      simpa [isQuotable] using List.all_eq_true.1 List.all_takeWhile c hc
    · rw [if_neg hends] at h
      cases h
  · simp [quotedLength, hc] at h

theorem quoted_of_bestMatch {u rest : List Char}
    (h : classDiagram.bestMatch (u ++ rest) = some (.quotedString, u.length)) :
    ∃ body, Quotable body ∧ u = '"' :: (body ++ ['"']) := by
  obtain ⟨e, he, ht, hlength, hpos⟩ := bestMatch_eq_some h
  have hentry : ∀ e ∈ classDiagram, e.token = .quotedString → e.matcher = .quoted := by decide
  rw [hentry e he ht] at hlength
  exact quoted_of_quotedLength hlength hpos

/-! ## Lexemes -/

/-- A lexeme with the text of a word, of a keyword or of a quotation, if that is its token. -/
structure Lexeme.Genuine (l : Lexeme) : Prop where
  word : l.token = .word → IsWord l.text
  keyword : isKeyword l.token = true → Keyword l.text
  quoted : l.token = .quotedString →
    ∃ body, Quotable body ∧ l.text.toList = '"' :: (body ++ ['"'])

theorem exists_piece_of_mem_ofPieces {offset : Nat} {ps : List Piece} :
    ∀ l ∈ Lexeme.ofPieces offset ps,
      ∃ p ∈ ps, l.token = p.token ∧ l.text = String.ofList p.text := by
  induction ps generalizing offset with
  | nil => exact nofun
  | cons p ps ih =>
    intro l hl
    rw [Lexeme.ofPieces] at hl
    split at hl
    · obtain ⟨q, hq, hlq⟩ := ih l hl
      exact ⟨q, List.mem_cons_of_mem _ hq, hlq⟩
    · rcases List.mem_cons.1 hl with rfl | hl
      · exact ⟨p, List.mem_cons_self, rfl, rfl⟩
      · obtain ⟨q, hq, hlq⟩ := ih l hl
        exact ⟨q, List.mem_cons_of_mem _ hq, hlq⟩

/-- The lexemes of a text have the texts that belong to their tokens. -/
theorem genuine_ofText (text : List Char) : ∀ l ∈ Lexeme.ofText text, l.Genuine := by
  intro l hl
  obtain ⟨p, hp, ht, htext⟩ := exists_piece_of_mem_ofPieces l hl
  have hbest := bestMatch_of_mem_pieces p hp
  rw [← ht] at hbest
  refine ⟨?_, ?_, ?_⟩
  · intro hword
    obtain ⟨rest, h⟩ := hbest (by rw [hword]; decide)
    rw [htext]
    exact isWord_of_bestMatch (hword ▸ h)
  · intro hkeyword
    obtain ⟨rest, h⟩ := hbest (by rintro hraw; rw [hraw] at hkeyword; cases hkeyword)
    rw [htext]
    exact keyword_of_bestMatch hkeyword h
  · intro hquoted
    obtain ⟨rest, h⟩ := hbest (by rw [hquoted]; decide)
    rw [htext, String.toList_ofList]
    exact quoted_of_bestMatch (hquoted ▸ h)

end ClassDiagram
