import ClassDiagram.Proofs.Token.Alone

/-! # Identifiers and keywords

An identifier is a run of letters, digits and underscores, with single dots between two of them.
A token that starts with such a character covers the longest identifier there.  It is a keyword if
that is the text of the keyword, and a word otherwise; nothing else matches there.

* `longestIdentifier_take`: how far the matcher of words goes;
* `longestIdentifier_of_isCut`: what is cut off where an identifier starts;
* `tokenize_identifiers`: identifiers and keywords among the tokens of a text.
-/

namespace ClassDiagram

open TokenCatalog

/-- Characters of identifiers, with single dots between two of them. -/
inductive IsIdentifier : List Char → Prop
  | single {c : Char} : isWordChar c = true → IsIdentifier [c]
  | cons {c : Char} {w : List Char} : isWordChar c = true → IsIdentifier w → IsIdentifier (c :: w)
  | dot {c : Char} {w : List Char} :
      isWordChar c = true → IsIdentifier w → IsIdentifier (c :: '.' :: w)

/-- An identifier at the start of a text that no other one there goes beyond. -/
structure LongestIdentifier (w text : List Char) : Prop where
  isIdentifier : IsIdentifier w
  begins : w <+: text
  longest : ∀ x, IsIdentifier x → x <+: text → x <+: w

/-! ## How far an identifier goes -/

theorem IsIdentifier.startsWord {w : List Char} (h : IsIdentifier w) (v : List Char) :
    startsWord (w ++ v) = true := by
  cases h with
  | single hc => exact hc
  | cons hc _ => exact hc
  | dot hc _ => exact hc

theorem continuesWord_of_isWordChar {c : Char} (hc : isWordChar c = true) (rest : List Char) :
    continuesWord c rest = true := by
  rw [continuesWord, hc, Bool.true_or]

/-- The matcher of words goes through all of an identifier. -/
theorem IsIdentifier.length_le_wordTailLength {w : List Char} (h : IsIdentifier w)
    (v : List Char) : w.length ≤ wordTailLength (w ++ v) := by
  induction h with
  | single hc =>
    rw [List.singleton_append, wordTailLength, if_pos (continuesWord_of_isWordChar hc v)]
    exact Nat.le_add_left 1 _
  | cons hc _ ih =>
    rw [List.cons_append, wordTailLength, if_pos (continuesWord_of_isWordChar hc _)]
    exact Nat.succ_le_succ ih
  | @dot c w hc hw ih =>
    have hdot : continuesWord '.' (w ++ v) = true := by
      rw [continuesWord, hw.startsWord v]
      rfl
    rw [List.cons_append, List.cons_append, wordTailLength,
      if_pos (continuesWord_of_isWordChar hc _), wordTailLength, if_pos hdot]
    exact Nat.succ_le_succ (Nat.succ_le_succ ih)

theorem wordLength_of_startsWord {text : List Char} (h : startsWord text = true) :
    wordLength text = wordTailLength text := by
  cases text with
  | nil => rfl
  | cons c rest =>
    have hc : isWordChar c = true := h
    rw [wordLength, wordTailLength, if_pos hc, if_pos (continuesWord_of_isWordChar hc rest)]

theorem IsIdentifier.length_le_wordLength {w text : List Char} (h : IsIdentifier w)
    (hw : w <+: text) : w.length ≤ wordLength text := by
  obtain ⟨v, rfl⟩ := hw
  rw [wordLength_of_startsWord (h.startsWord v)]
  exact h.length_le_wordTailLength v

/-- A character of an identifier and what the matcher of words covers behind it. -/
theorem isIdentifier_take {c : Char} (hc : isWordChar c = true) :
    ∀ rest : List Char, IsIdentifier (c :: rest.take (wordTailLength rest))
  | [] => .single hc
  | [d] => by
    by_cases hd : isWordChar d = true
    · rw [wordTailLength, if_pos (continuesWord_of_isWordChar hd [])]
      exact .cons hc (.single hd)
    · rw [wordTailLength, if_neg (by simp [continuesWord, startsWord, hd])]
      exact .single hc
  | d :: e :: rest => by
    by_cases hd : isWordChar d = true
    · rw [wordTailLength, if_pos (continuesWord_of_isWordChar hd _), List.take_succ_cons]
      exact .cons hc (isIdentifier_take hd (e :: rest))
    · by_cases hjoins : d = '.' ∧ isWordChar e = true
      · obtain ⟨rfl, he⟩ := hjoins
        have hdot : continuesWord '.' (e :: rest) = true := he
        rw [wordTailLength, if_pos hdot, wordTailLength,
          if_pos (continuesWord_of_isWordChar he rest), List.take_succ_cons, List.take_succ_cons]
        exact .dot hc (isIdentifier_take he rest)
      · rw [wordTailLength, if_neg (by simpa [continuesWord, startsWord, hd] using hjoins),
          List.take_zero]
        exact .single hc

/-- The matcher of words covers the longest identifier. -/
theorem longestIdentifier_take {c : Char} (hc : isWordChar c = true) (v : List Char) :
    LongestIdentifier ((c :: v).take (wordLength (c :: v))) (c :: v) where
  isIdentifier := by
    rw [wordLength, if_pos hc, List.take_succ_cons]
    exact isIdentifier_take hc v
  begins := List.take_prefix _ _
  longest x hx hprefix := by
    refine List.prefix_of_prefix_length_le hprefix (List.take_prefix _ _) ?_
    rw [List.length_take_of_le (wordLength_le _)]
    exact hx.length_le_wordLength hprefix

/-! ## Keywords -/

theorem wordToken_eq_iff (w : List Char) :
    (∀ k ∈ keywords, wordToken w = k.1 ↔ w = k.2.toList) ∧
      (wordToken w = .word ↔ ∀ k ∈ keywords, w ≠ k.2.toList) := by
  by_cases hw : ∃ k ∈ keywords, w = k.2.toList
  · obtain ⟨k, hk, rfl⟩ := hw
    revert k
    decide
  · have hne : ∀ k ∈ keywords, w ≠ k.2.toList := fun k hk heq => hw ⟨k, hk, heq⟩
    have htoken : wordToken w = .word := by
      rw [wordToken, if_neg (hne (.forWord, "for") (by decide)),
        if_neg (hne (.noteWord, "note") (by decide)), if_neg (hne (.classWord, "class") (by decide)),
        if_neg (hne (.header, "classDiagram") (by decide))]
    have hword : ∀ k ∈ keywords, Token.word ≠ k.1 := by decide
    rw [htoken]
    exact ⟨fun k hk => iff_of_false (hword k hk) (hne k hk), iff_of_true rfl hne⟩

/-- Where a character of an identifier stands, only the entry for words and those for keywords
match. -/
theorem entry_of_coverage {c : Char} (hc : isWordChar c = true) {v : List Char} {e : CatalogEntry}
    (he : e ∈ classDiagram) (hcovers : 0 < e.coverage (c :: v)) :
    e = ⟨.word, .word⟩ ∨ ∃ k ∈ keywords, e = literalEntry k.1 k.2 := by
  have hlength := mt (e.coverage_eq_zero_iff _).2 (Nat.ne_of_gt hcovers)
  rw [classDiagram_eq] at he
  rcases List.mem_cons.1 he with hword | he
  · exact .inl hword
  · rcases List.mem_append.1 he with hsymbol | hkeyword
    · have hother := List.all_eq_true.1 startsOther_symbols e hsymbol
      exact absurd (length_of_startsOther hother hc v) hlength
    · exact .inr (by simpa [keywords, literalEntry] using hkeyword)

/-! ## Tokens -/

/-- Where a character of an identifier stands, the longest identifier is cut off. -/
theorem longestIdentifier_of_isCut {t : Token} {x v : List Char} (hx : x ≠ [])
    (h : classDiagram.IsCut t x v) (hstarts : startsWord (x ++ v) = true) :
    LongestIdentifier x (x ++ v) ∧ t = wordToken x := by
  have hpieces := pieces_of_isCut hx h
  generalize x ++ v = text at hstarts hpieces ⊢
  cases text with
  | nil => cases hstarts
  | cons c rest =>
    have hlongest := longestIdentifier_take hstarts rest
    have hlength := List.length_take_of_le (wordLength_le (c :: rest))
    generalize (c :: rest).take (wordLength (c :: rest)) = w at hlongest hlength
    have hne : w ≠ [] := by
      rintro rfl
      cases hlongest.isIdentifier
    obtain ⟨r, hr⟩ := hlongest.begins
    rw [← hr] at hlength hpieces
    rw [pieces_of_bestMatch hne (bestMatch_word hlength.symm hne)] at hpieces
    obtain ⟨rfl, rfl⟩ := Piece.mk.inj (List.cons.inj hpieces).1
    exact ⟨hlongest, rfl⟩

/-- A token that starts with a character of an identifier covers the longest identifier there, and
it is the keyword with this text, or a word if there is none; no other entry matches there.  The
text of any token, tokenized on its own, is that token. -/
theorem tokenize_identifiers (text : List Char) :
    (∀ s ∈ classDiagram.tokenize text, ∀ u c v, text = u ++ c :: v →
      s.offset = Text.byteCount u → isWordChar c = true →
      (∃ w, LongestIdentifier w (c :: v) ∧ s.length = Text.byteCount w ∧
        (∀ k ∈ keywords, s.token = k.1 ↔ w = k.2.toList) ∧
        (s.token = .word ↔ ∀ k ∈ keywords, w ≠ k.2.toList)) ∧
      ∀ e ∈ classDiagram, 0 < e.coverage (c :: v) →
        e = ⟨.word, .word⟩ ∨ ∃ k ∈ keywords, e = literalEntry k.1 k.2) ∧
    ∀ s ∈ classDiagram.tokenize text,
      classDiagram.tokenize (Text.slice text s.offset (s.offset + s.length))
        = [⟨s.token, 0, s.length⟩] := by
  refine ⟨?_, tokenize_slice classDiagram text⟩
  rintro s hs u c v rfl hoffset hc
  refine ⟨?_, fun e he => entry_of_coverage hc he⟩
  obtain ⟨u', x, v', htext, hlies, hx, hcut⟩ := isCut_of_mem_tokenize hs
  rw [List.append_assoc] at htext
  obtain ⟨rfl, hrest⟩ := Text.append_inj_of_byteCount (hoffset.symm.trans hlies.1) htext
  have hstarts : startsWord (x ++ v') = true := hrest ▸ hc
  obtain ⟨hlongest, ht⟩ := longestIdentifier_of_isCut hx hcut hstarts
  rw [ht, hrest]
  exact ⟨x, hlongest, hlies.2, wordToken_eq_iff x⟩

/-- A keyword in a dotted name is no keyword, though its entry matches there, and a dot at the end
belongs to no identifier. -/
theorem tokenize_identifiers_dotted :
    (∃ w, LongestIdentifier w "class.é. note.".toList ∧ 8 = Text.byteCount w ∧
      w ≠ "class".toList) ∧
    (∃ k ∈ keywords, literalEntry .classWord "class" = literalEntry k.1 k.2) ∧
    (∃ w, LongestIdentifier w "note.".toList ∧ 4 = Text.byteCount w ∧ w = "note".toList) ∧
    classDiagram.tokenize (Text.slice "class.é. note.".toList 8 9) = [⟨.rawText, 0, 1⟩] := by
  have htokens : classDiagram.tokenize "class.é. note.".toList = [⟨.word, 0, 8⟩, ⟨.rawText, 8, 1⟩,
      ⟨.whitespace, 9, 1⟩, ⟨.noteWord, 10, 4⟩, ⟨.rawText, 14, 1⟩] := by decide +kernel
  have hclass : 'c' :: "lass.é. note.".toList = "class.é. note.".toList := by decide
  have hnote : 'n' :: "ote.".toList = "note.".toList := by decide
  obtain ⟨hcover, halone⟩ := tokenize_identifiers "class.é. note.".toList
  rw [htokens] at hcover halone
  have hfirst := hcover ⟨.word, 0, 8⟩ (by simp) [] 'c' "lass.é. note.".toList hclass.symm rfl
    (by decide)
  have hfourth := hcover ⟨.noteWord, 10, 4⟩ (by simp) "class.é. ".toList 'n' "ote.".toList
    (by decide) (by decide) (by decide)
  rw [hclass] at hfirst
  rw [hnote] at hfourth
  obtain ⟨⟨w, hw, hlength, -, hword⟩, hentries⟩ := hfirst
  obtain ⟨⟨w', hw', hlength', hkeyword, -⟩, -⟩ := hfourth
  have hentry := hentries (literalEntry .classWord "class") (by decide) (by decide)
  exact ⟨⟨w, hw, hlength, hword.1 rfl (.classWord, "class") (by decide)⟩,
    hentry.resolve_left (by decide),
    ⟨w', hw', hlength', (hkeyword (.noteWord, "note") (by decide)).1 rfl⟩,
    halone ⟨.rawText, 8, 1⟩ (by simp)⟩

end ClassDiagram
