import ClassDiagram.Proofs.Token.Tokenization

/-! # Tokens on their own

A matcher that covers no more than a part of a text covers as much of this part alone.  So what is
cut off a text is cut off in the same way when nothing stands behind it: the text of a token is
tokenized to that token.

* `Matcher.length_alone`: what a matcher covers within a part of a text;
* `IsCut.alone`: matches and gaps without what stands behind them;
* `tokenize_slice`: the text of a token, tokenized again.
-/

namespace ClassDiagram

section

variable {x v : List Char}

/-! ## Matchers -/

theorem blankLength_alone (h : blankLength (x ++ v) ≤ x.length) :
    blankLength x = blankLength (x ++ v) := by
  unfold blankLength at h ⊢
  rw [List.takeWhile_append] at h ⊢
  split
  · rename_i hall
    rw [if_pos hall, List.length_append] at h
    rw [hall, List.length_append]
    omega
  · rfl

theorem commentLength_alone (h : commentLength (x ++ v) ≤ x.length) :
    commentLength x = commentLength (x ++ v) := by
  by_cases hsigns : ['%', '%'] <+: x
  · obtain ⟨r, rfl⟩ := hsigns
    change commentLength ('%' :: '%' :: (r ++ v)) ≤ r.length + 2 at h
    change commentLength ('%' :: '%' :: r) = commentLength ('%' :: '%' :: (r ++ v))
    rw [commentLength_cons, List.takeWhile_append] at h
    rw [commentLength_cons, commentLength_cons, List.takeWhile_append]
    split
    · rename_i hall
      -- the line goes on behind `x`, but only with carriage returns
      rw [if_pos hall, List.reverse_append, List.dropWhile_append] at h
      rw [List.reverse_append, List.dropWhile_append,
        (List.takeWhile_prefix _).eq_of_length hall]
      split
      · rfl
      · rename_i hrest
        rw [if_neg hrest, List.length_append, List.length_reverse] at h
        have hpos := List.length_pos_iff.2 (mt List.isEmpty_iff.2 hrest)
        omega
    · rfl
  · have hnone : ¬ ['%', '%'] <+: x ++ v := by
      rintro ⟨r, hr⟩
      rw [← hr] at h
      change commentLength ('%' :: '%' :: r) ≤ _ at h
      rw [commentLength_cons] at h
      exact hsigns (List.prefix_of_prefix_length_le ⟨r, hr⟩ (List.prefix_append x v)
        (Nat.le_trans (Nat.le_add_left 2 _) h))
    rw [commentLength_eq_zero_iff.2 hsigns, commentLength_eq_zero_iff.2 hnone]

theorem quotedLength_alone (h : quotedLength (x ++ v) ≤ x.length) :
    quotedLength x = quotedLength (x ++ v) := by
  by_cases hx : x = []
  · subst hx
    exact (Nat.le_zero.1 h).symm
  · have hends : ¬ EndsQuotation [] := nofun
    have halone := quotedLength_append_congr hx h fun h => absurd h hends
    rwa [List.append_nil] at halone

/-- What a matcher covers within `x` it covers of `x` alone. -/
theorem Matcher.length_alone (m : Matcher) (h : m.length (x ++ v) ≤ x.length) :
    m.length x = m.length (x ++ v) := by
  cases m with
  | literal k =>
    have hprefix := isPrefixOf_alone (k := k) fun hk => by
      rwa [length, if_pos (List.isPrefixOf_iff_prefix.2 hk)] at h
    rw [length, length, hprefix]
  | word => exact wordLength_alone h
  | blank => exact blankLength_alone h
  | comment => exact commentLength_alone h
  | quoted => exact quotedLength_alone h

end

namespace TokenCatalog

variable {catalog : TokenCatalog} {x v : List Char}

/-! ## What is cut off -/

theorem bestMatch_alone (h : ∀ e ∈ catalog, e.matcher.length (x ++ v) ≤ x.length) :
    catalog.bestMatch x = catalog.bestMatch (x ++ v) :=
  bestMatch_congr fun e he => e.matcher.length_alone (h e he)

theorem IsMatch.alone {t : Token} (h : catalog.IsMatch t x v) : catalog.IsMatch t x [] := by
  rw [isMatch_iff] at h
  have hle : ∀ e ∈ catalog, e.matcher.length (x ++ v) ≤ x.length := by
    obtain ⟨before, e, after, rfl, -, hlength, hleads⟩ := leads_of_bestMatch h
    rw [← hlength]
    exact hleads.length_le
  rw [isMatch_iff, List.append_nil, bestMatch_alone hle, h]

theorem Silent.alone (h : catalog.Silent (x ++ v)) : catalog.Silent x := by
  intro e he
  have hzero := (e.coverage_eq_zero_iff _).1 (h e he)
  rw [e.coverage_eq_zero_iff, e.matcher.length_alone (hzero ▸ Nat.zero_le _), hzero]

theorem IsGap.alone (h : catalog.IsGap x v) : catalog.IsGap x [] := by
  refine ⟨fun y z hyz hz => ?_, .inl rfl⟩
  rw [List.append_nil]
  exact (h.1 y z hyz hz).alone

/-- What is cut off a text is cut off without what stands behind it. -/
theorem IsCut.alone {t : Token} (h : catalog.IsCut t x v) : catalog.IsCut t x [] :=
  h.imp IsMatch.alone (And.imp_right IsGap.alone)

/-! ## Tokens -/

/-- The text of a token is tokenized to that token. -/
theorem tokenize_slice (catalog : TokenCatalog) (text : List Char) :
    ∀ s ∈ catalog.tokenize text, catalog.tokenize (Text.slice text s.offset (s.offset + s.length))
      = [⟨s.token, 0, s.length⟩] := by
  intro s hs
  obtain ⟨u, x, v, rfl, hlies, hx, hcut⟩ := isCut_of_mem_tokenize hs
  have hpieces := pieces_of_isCut hx hcut.alone
  rw [List.append_nil, pieces] at hpieces
  rw [hlies.slice_eq, tokenize, hpieces, spansFrom, spansFrom, hlies.2]

end TokenCatalog

end ClassDiagram
