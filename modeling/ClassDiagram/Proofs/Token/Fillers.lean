import ClassDiagram.Proofs.Token.Tokenization

/-! # Tokens in front of something put in

A filler begins with a blank and holds no line feed and no quotation mark.  Put behind a token it
leaves the token as it is: no matcher that ended there goes on with it, and none that found
nothing before it finds something now.

* `isPrefixOf_filler`, `commentLength_filler`: matchers in front of a filler;
* `bestMatch_filler`: the winner in front of a filler;
* `isMatch_filler`, `isGap_filler`: what is cut off in front of a filler.
-/

namespace ClassDiagram

open TokenCatalog

/-- Something that begins with a blank, ends no line, and neither opens nor closes a quotation. -/
structure Filler (x : List Char) : Prop where
  starts : ∃ c y, x = c :: y ∧ isInlineBlank c = true
  quotable : Quotable x

theorem isInlineBlank_iff {c : Char} : isInlineBlank c = true ↔ c = ' ' ∨ c = '\t' ∨ c = '\r' := by
  simp [isInlineBlank, or_assoc]

section

variable {s x v : List Char}

/-! ## Matchers -/

theorem Filler.isQuotable (hx : Filler x) : ∀ c ∈ x, isQuotable c = true := fun c hc => by
  simpa [ClassDiagram.isQuotable] using hx.quotable c hc

theorem Filler.wordEnds (hx : Filler x) (v : List Char) : WordEnds (x ++ v) := by
  obtain ⟨c, y, rfl, hc⟩ := hx.starts
  rcases isInlineBlank_iff.1 hc with rfl | rfl | rfl <;>
    exact wordEnds_cons rfl (by decide) _

/-- A literal is found in front of a filler exactly if it was found without.  It may begin with a
blank, as the line end `\r\n` does, but must hold none behind that. -/
theorem isPrefixOf_filler {k : List Char} (hk : ∀ c ∈ k.tail, isInlineBlank c = false)
    (hs : s ≠ []) (hx : Filler x) (h : k <+: s ++ v → k.length ≤ s.length) :
    k.isPrefixOf (s ++ (x ++ v)) = k.isPrefixOf (s ++ v) := by
  obtain ⟨c, y, rfl, hc⟩ := hx.starts
  refine (isPrefixOf_alone fun hprefix => ?_).symm.trans (isPrefixOf_alone h)
  have hblank : ¬ s ++ [c] <+: k := by
    rintro ⟨r, rfl⟩
    obtain ⟨d, s, rfl⟩ := List.exists_cons_of_ne_nil hs
    have hfree := hk c (by simp)
    rw [hc] at hfree
    cases hfree
  exact length_le_of_prefix_stops hblank ⟨y ++ v, by simp⟩ hprefix

theorem commentLength_filler (hs : s ≠ []) (hx : Filler x)
    (h : commentLength (s ++ v) ≤ s.length) :
    commentLength (s ++ (x ++ v)) = 0 ↔ commentLength (s ++ v) = 0 := by
  have hsigns : ['%', '%'] <+: s ++ v → ['%', '%'].length ≤ s.length := by
    rintro ⟨r, hr⟩
    have hcons := commentLength_cons r
    rw [← hr] at h
    change commentLength ('%' :: '%' :: r) ≤ s.length at h
    change 2 ≤ s.length
    omega
  have hprefix := isPrefixOf_filler (k := ['%', '%']) (by simp [isInlineBlank]) hs hx hsigns
  rw [commentLength_eq_zero_iff, commentLength_eq_zero_iff, ← List.isPrefixOf_iff_prefix,
    ← List.isPrefixOf_iff_prefix, hprefix]

/-! ## The winner -/

/-- Whether a matcher is no literal with a blank behind its first character. -/
def isInnerBlankFree : Matcher → Bool
  | .literal k => k.tail.all (!isInlineBlank ·)
  | .word | .blank | .comment | .quoted => true

theorem isInnerBlankFree_classDiagram :
    classDiagram.all (isInnerBlankFree ·.matcher) = true := by decide

/-- No entry covers more than `s` in front of `v`. -/
def EndsWithin (s v : List Char) : Prop :=
  ∀ e ∈ classDiagram, e.matcher.length (s ++ v) ≤ s.length

/-- Where neither blanks nor a comment begin, the winner does not depend on a filler behind it. -/
theorem bestMatch_filler (hs : s ≠ []) (hx : Filler x) (h : EndsWithin s v)
    (hblank : blankLength (s ++ v) = 0) (hcomment : commentLength (s ++ v) = 0) :
    classDiagram.bestMatch (s ++ (x ++ v)) = classDiagram.bestMatch (s ++ v) := by
  refine bestMatch_congr fun e he => ?_
  have hle := h e he
  have hfree := List.all_eq_true.1 isInnerBlankFree_classDiagram e he
  cases hm : e.matcher with
  | literal k =>
    rw [hm] at hle hfree
    have hprefix := isPrefixOf_filler (k := k) (by simpa [isInnerBlankFree] using hfree) hs hx
      fun hprefix => by
        rw [Matcher.length, if_pos (List.isPrefixOf_iff_prefix.2 hprefix)] at hle
        exact hle
    rw [Matcher.length, Matcher.length, hprefix]
  | word =>
    rw [hm] at hle
    exact wordLength_append_congr hs hle (hx.wordEnds v)
  | quoted =>
    rw [hm] at hle
    exact quotedLength_append_congr hs hle (endsQuotation_append hx.isQuotable v).1
  | blank =>
    obtain ⟨c, s, rfl⟩ := List.exists_cons_of_ne_nil hs
    exact (blankLength_eq_zero_iff.2 (blankLength_eq_zero_iff.1 hblank)).trans hblank.symm
  | comment =>
    rw [hm] at hle
    exact ((commentLength_filler hs hx hle).2 hcomment).trans hcomment.symm

theorem blankEntry_mem : (⟨.whitespace, .blank⟩ : CatalogEntry) ∈ classDiagram := by decide

theorem commentEntry_mem : (⟨.comment, .comment⟩ : CatalogEntry) ∈ classDiagram := by decide

theorem not_silent_of_length {t : List Char} {e : CatalogEntry} (he : e ∈ classDiagram)
    (h : e.matcher.length t ≠ 0) : ¬ classDiagram.Silent t := fun hsilent =>
  h ((e.coverage_eq_zero_iff t).1 (hsilent e he))

theorem endsWithin_of_bestMatch {t : Token} {n : Nat}
    (h : classDiagram.bestMatch (s ++ v) = some (t, n)) (hn : n ≤ s.length) : EndsWithin s v := by
  intro e he
  obtain ⟨before, e', after, heq, _, hlength, hleads⟩ := leads_of_bestMatch h
  rw [heq] at he
  exact Nat.le_trans (hleads.length_le e he) (hlength ▸ hn)

theorem endsWithin_of_silent (h : classDiagram.Silent (s ++ v)) : EndsWithin s v := fun e he => by
  rw [(e.coverage_eq_zero_iff _).1 (h e he)]
  exact Nat.zero_le _

/-- Something matches in front of a filler exactly if it did without. -/
theorem silent_filler (hs : s ≠ []) (hx : Filler x) (h : EndsWithin s v) :
    classDiagram.Silent (s ++ (x ++ v)) ↔ classDiagram.Silent (s ++ v) := by
  by_cases hblank : blankLength (s ++ v) = 0
  · by_cases hcomment : commentLength (s ++ v) = 0
    · rw [silent_iff, silent_iff, bestMatch_filler hs hx h hblank hcomment]
    · have hcomment' := mt (commentLength_filler hs hx (h _ commentEntry_mem)).1 hcomment
      exact iff_of_false (not_silent_of_length commentEntry_mem hcomment')
        (not_silent_of_length commentEntry_mem hcomment)
  · have hblank' : blankLength (s ++ (x ++ v)) ≠ 0 := by
      obtain ⟨c, s, rfl⟩ := List.exists_cons_of_ne_nil hs
      exact mt (fun h => blankLength_eq_zero_iff.2 (blankLength_eq_zero_iff.1 h)) hblank
    exact iff_of_false (not_silent_of_length blankEntry_mem hblank')
      (not_silent_of_length blankEntry_mem hblank)

/-! ## What is cut off -/

theorem isMatch_filler {t : Token} (hs : s ≠ []) (hx : Filler x) {u : List Char}
    (hblank : blankLength (s ++ (u ++ v)) = 0) (hcomment : commentLength (s ++ (u ++ v)) = 0)
    (h : classDiagram.IsMatch t s (u ++ v)) : classDiagram.IsMatch t s (u ++ (x ++ v)) := by
  rw [isMatch_iff] at h ⊢
  rw [← List.append_assoc] at h hblank hcomment ⊢
  have hends : EndsWithin (s ++ u) v := endsWithin_of_bestMatch h (by simp)
  rw [bestMatch_filler (by simp [hs]) hx hends hblank hcomment, h]

theorem isGap_filler (hx : Filler x) {u : List Char} (h : classDiagram.IsGap s (u ++ v))
    (hu : u ≠ [] → ¬ classDiagram.Silent (u ++ v) → EndsWithin u v) :
    classDiagram.IsGap s (u ++ (x ++ v)) := by
  obtain ⟨hsilent, hend⟩ := h
  refine ⟨fun y z hyz hz => ?_, .inr ?_⟩
  · have hz' := hsilent y z hyz hz
    rw [← List.append_assoc] at hz' ⊢
    exact (silent_filler (by simp [hz]) hx (endsWithin_of_silent hz')).2 hz'
  · by_cases hnil : u = []
    · obtain ⟨c, y, rfl, hc⟩ := hx.starts
      subst hnil
      exact not_silent_of_length blankEntry_mem (mt blankLength_eq_zero_iff.1 (by simp [hc]))
    · have hmatch := hend.resolve_left (by simp [hnil])
      exact mt (silent_filler hnil hx (hu hnil hmatch)).1 hmatch

end

end ClassDiagram
