import ClassDiagram.Token.Lexer

/-! # Words

Where a text begins with a character of an identifier, the longest match is that identifier; it
is a keyword if it is one of the four, and a word otherwise.  An identifier does not depend on
what comes behind it, as long as this does not continue it.

* `bestMatch_eq_some`: the winner is an entry of the catalog, with the length it covers;
* `wordLength_append_congr`, `wordLength_alone`: what stands behind an identifier;
* `bestMatch_word`: an identifier wins with all of its length;
* `pieces_identifier`: an identifier is cut off a text that does not continue it;
* `isWord_iff`: which texts are one word.
-/

namespace ClassDiagram

open TokenCatalog

/-! ## The winner -/

theorem prefer_eq_some {text : List Char} {best : Option (Token × Nat)} {e : CatalogEntry}
    {t : Token} {n : Nat} (h : prefer text best e = some (t, n)) :
    best = some (t, n) ∨ (e.token = t ∧ e.matcher.length text = n ∧ 0 < n) := by
  unfold prefer at h
  by_cases h0 : e.matcher.length text = 0
  · simp only [h0, if_true] at h
    exact Or.inl h
  · simp only [h0, if_false] at h
    have hpos := Nat.pos_of_ne_zero h0
    split at h
    · cases h
      exact Or.inr ⟨rfl, rfl, hpos⟩
    · rename_i t' m
      by_cases hm : m ≤ e.matcher.length text
      · rw [if_pos hm] at h
        cases h
        exact Or.inr ⟨rfl, rfl, hpos⟩
      · rw [if_neg hm] at h
        exact Or.inl h

/-- What wins is an entry that covers so much. -/
theorem bestMatch_eq_some {catalog : TokenCatalog} {text : List Char} {t : Token} {n : Nat}
    (h : catalog.bestMatch text = some (t, n)) :
    ∃ e ∈ catalog, e.token = t ∧ e.matcher.length text = n ∧ 0 < n := by
  have key : ∀ (es : TokenCatalog) (best : Option (Token × Nat)),
      es.foldl (prefer text) best = some (t, n) → best = some (t, n) ∨
        ∃ e ∈ es, e.token = t ∧ e.matcher.length text = n ∧ 0 < n := by
    intro es
    induction es with
    | nil => exact fun _ h => Or.inl h
    | cons e es ih =>
      intro best h
      rcases ih _ h with h | ⟨e', he', hwins⟩
      · rcases prefer_eq_some h with h | hwins
        · exact Or.inl h
        · exact Or.inr ⟨e, List.mem_cons_self, hwins⟩
      · exact Or.inr ⟨e', List.mem_cons_of_mem _ he', hwins⟩
  rcases key catalog none h with h | h
  · cases h
  · exact h

/-- A literal that covers all of `x` is `x`. -/
theorem eq_of_length_literal {k x v : List Char} (hx : x ≠ [])
    (h : (Matcher.literal k).length (x ++ v) = x.length) : x = k := by
  rw [Matcher.length] at h
  split at h
  · rename_i hprefix
    exact ((List.prefix_of_prefix_length_le (List.isPrefixOf_iff_prefix.1 hprefix)
      (List.prefix_append x v) (Nat.le_of_eq h)).eq_of_length h).symm
  · exact absurd (List.length_eq_zero_iff.1 h.symm) hx

theorem pieces_cons (catalog : TokenCatalog) (c : Char) (cs : List Char) :
    catalog.pieces (c :: cs) =
      ⟨(catalog.nextPiece c cs).1, c :: cs.take (catalog.nextPiece c cs).2⟩ ::
        catalog.pieces (cs.drop (catalog.nextPiece c cs).2) := by
  rw [pieces]

/-- Where something wins, the text is cut behind it. -/
theorem pieces_of_bestMatch {catalog : TokenCatalog} {u rest : List Char} {t : Token} (hu : u ≠ [])
    (h : catalog.bestMatch (u ++ rest) = some (t, u.length)) :
    catalog.pieces (u ++ rest) = ⟨t, u⟩ :: catalog.pieces rest := by
  obtain ⟨c, u, rfl⟩ := List.exists_cons_of_ne_nil hu
  rw [List.cons_append] at h ⊢
  have hnext : catalog.nextPiece c (u ++ rest) = (t, u.length) := by
    simp [nextPiece, h]
  rw [pieces_cons, hnext]
  simp

/-! ## How far an identifier goes -/

/-- What does not continue an identifier in front of it. -/
def WordEnds (rest : List Char) : Prop := wordTailLength rest = 0

theorem wordEnds_nil : WordEnds [] := rfl

theorem wordEnds_cons {c : Char} (hc : isWordChar c = false) (hdot : c ≠ '.') (rest : List Char) :
    WordEnds (c :: rest) := by
  simp [WordEnds, wordTailLength, continuesWord, hc, hdot]

theorem startsWord_append {u : List Char} (h : startsWord u = true) (rest : List Char) :
    startsWord (u ++ rest) = true := by
  cases u with
  | nil => cases h
  | cons c u => exact h

theorem startsWord_of_wordEnds {v : List Char} (h : WordEnds v) : startsWord v = false := by
  cases v with
  | nil => rfl
  | cons c v =>
    rw [← Bool.not_eq_true]
    intro hstarts
    have hword : isWordChar c = true := hstarts
    have hc : continuesWord c v = true := by rw [continuesWord, hword, Bool.true_or]
    rw [WordEnds, wordTailLength, if_pos hc] at h
    cases h

section

variable {s v z : List Char}

/-- What is covered of an identifier within `s` does not depend on what stands behind `s`, as long
as that continues no identifier. -/
theorem wordTailLength_append_congr (h : wordTailLength (s ++ v) ≤ s.length) (hz : WordEnds z) :
    wordTailLength (s ++ z) = wordTailLength (s ++ v) := by
  induction s with
  | nil => exact hz.trans (Nat.le_zero.1 h).symm
  | cons c s ih =>
    rw [List.cons_append, wordTailLength] at h
    rw [List.cons_append, List.cons_append, wordTailLength, wordTailLength]
    have hcontinues : continuesWord c (s ++ z) = continuesWord c (s ++ v) := by
      cases s with
      | cons d s => rfl
      | nil =>
        rw [List.nil_append] at h
        rw [List.nil_append, List.nil_append, continuesWord, startsWord_of_wordEnds hz]
        by_cases hc : continuesWord c v = true
        · -- a dot in front of a word would have been covered together with it
          rw [if_pos hc, List.length_singleton] at h
          have hv : WordEnds v := Nat.le_zero.1 (Nat.le_of_succ_le_succ h)
          rw [continuesWord, startsWord_of_wordEnds hv]
        · rw [Bool.not_eq_true] at hc
          have hword : isWordChar c = false := (Bool.or_eq_false_iff.1 hc).1
          rw [hc, hword, Bool.and_false, Bool.or_false]
    rw [hcontinues]
    by_cases hc : continuesWord c (s ++ v) = true
    · rw [if_pos hc, List.length_cons] at h
      rw [if_pos hc, if_pos hc, ih (Nat.le_of_succ_le_succ h)]
    · rw [if_neg hc, if_neg hc]

theorem wordLength_append_congr (hs : s ≠ []) (h : wordLength (s ++ v) ≤ s.length)
    (hz : WordEnds z) : wordLength (s ++ z) = wordLength (s ++ v) := by
  obtain ⟨c, s, rfl⟩ := List.exists_cons_of_ne_nil hs
  rw [List.cons_append, wordLength, List.length_cons] at h
  rw [List.cons_append, List.cons_append, wordLength, wordLength]
  by_cases hc : isWordChar c = true
  · rw [if_pos hc] at h
    rw [if_pos hc, if_pos hc, wordTailLength_append_congr (Nat.le_of_succ_le_succ h) hz]
  · rw [if_neg hc, if_neg hc]

theorem wordLength_append (hs : s ≠ []) (hz : WordEnds z) :
    wordLength (s ++ z) = wordLength s := by
  have h := wordLength_append_congr (v := []) hs (by simpa using wordLength_le s) hz
  rwa [List.append_nil] at h

/-- Behind what is covered to its end an identifier goes on with what would continue one. -/
theorem wordTailLength_append_of_full (hs : wordTailLength s = s.length) (v : List Char) :
    wordTailLength (s ++ v) = s.length + wordTailLength v := by
  induction s with
  | nil => exact (Nat.zero_add _).symm
  | cons c s ih =>
    rw [wordTailLength] at hs
    by_cases hc : continuesWord c s = true
    · rw [if_pos hc, List.length_cons, Nat.succ_inj] at hs
      have hc' : continuesWord c (s ++ v) = true := by
        simp only [continuesWord, Bool.or_eq_true, Bool.and_eq_true] at hc ⊢
        exact hc.imp id fun h => ⟨h.1, startsWord_append h.2 v⟩
      rw [List.cons_append, wordTailLength, if_pos hc', ih hs, List.length_cons,
        Nat.add_right_comm]
    · rw [if_neg hc] at hs
      cases hs

theorem wordLength_append_of_full (hne : s ≠ []) (hs : wordLength s = s.length) (v : List Char) :
    wordLength (s ++ v) = s.length + wordTailLength v := by
  obtain ⟨c, s, rfl⟩ := List.exists_cons_of_ne_nil hne
  rw [wordLength] at hs
  by_cases hc : isWordChar c = true
  · rw [if_pos hc, List.length_cons, Nat.succ_inj] at hs
    rw [List.cons_append, wordLength, if_pos hc, wordTailLength_append_of_full hs,
      List.length_cons, Nat.add_right_comm]
  · rw [if_neg hc] at hs
    cases hs

/-- What is covered within `s` is covered of `s` alone. -/
theorem wordLength_alone (h : wordLength (s ++ v) ≤ s.length) :
    wordLength s = wordLength (s ++ v) := by
  by_cases hs : s = []
  · subst hs
    exact (Nat.le_zero.1 h).symm
  · have halone := wordLength_append_congr hs h wordEnds_nil
    rwa [List.append_nil] at halone

end

/-! ## Keywords -/

def keywords : List (Token × String) :=
  [(.header, "classDiagram"), (.classWord, "class"), (.noteWord, "note"), (.forWord, "for")]

def Keyword (k : String) : Prop := k ∈ ["classDiagram", "class", "note", "for"]

theorem wordTailLength_of_all {k : List Char} (hk : k.all isWordChar = true) :
    wordTailLength k = k.length := by
  induction k with
  | nil => rfl
  | cons c k ih =>
    simp only [List.all_cons, Bool.and_eq_true] at hk
    have hc : continuesWord c k = true := by simp [continuesWord, hk.1]
    rw [wordTailLength, if_pos hc, ih hk.2, List.length_cons]

theorem le_wordLength_of_prefix {k text : List Char} (hk : k.all isWordChar = true)
    (h : k <+: text) : k.length ≤ wordLength text := by
  obtain ⟨rest, rfl⟩ := h
  cases k with
  | nil => exact Nat.zero_le _
  | cons c k =>
    simp only [List.all_cons, Bool.and_eq_true] at hk
    rw [List.cons_append, wordLength, if_pos hk.1,
      wordTailLength_append_of_full (wordTailLength_of_all hk.2), List.length_cons]
    exact Nat.succ_le_succ (Nat.le_add_right _ _)

/-- The keyword that an identifier is, or a word. -/
def wordToken (w : List Char) : Token :=
  if w = "for".toList then .forWord
  else if w = "note".toList then .noteWord
  else if w = "class".toList then .classWord
  else if w = "classDiagram".toList then .header
  else .word

/-- A keyword wins over an identifier only if it is all of it. -/
theorem prefer_keyword {w rest k : List Char} {t t' : Token}
    (hw : wordLength (w ++ rest) = w.length) (hk : k.all isWordChar = true) (hne : k ≠ []) :
    prefer (w ++ rest) (some (t', w.length)) ⟨t, .literal k⟩
      = some (if w = k then t else t', w.length) := by
  unfold prefer
  by_cases hprefix : k <+: w ++ rest
  · have hle := le_wordLength_of_prefix hk hprefix
    rw [hw] at hle
    have hlen : k.length ≠ 0 := by simpa using hne
    simp only [Matcher.length, List.isPrefixOf_iff_prefix.2 hprefix, if_true, hlen, if_false]
    by_cases heq : w = k
    · subst heq
      simp
    · have hlt : ¬ w.length ≤ k.length := by
        intro hge
        obtain ⟨r, hr⟩ := hprefix
        have hkw := congrArg (List.take k.length) hr
        rw [List.take_left, List.take_append_of_le_length hle,
          List.take_of_length_le hge] at hkw
        exact heq hkw.symm
      simp [heq, hlt]
  · have hfalse : k.isPrefixOf (w ++ rest) = false := by
      rw [← Bool.not_eq_true, List.isPrefixOf_iff_prefix]
      exact hprefix
    have hnot : w ≠ k := by
      rintro rfl
      exact hprefix (List.prefix_append _ _)
    simp [Matcher.length, hfalse, hnot]

theorem foldl_prefer_of_zero {text : List Char} {es : TokenCatalog}
    (h : ∀ e ∈ es, e.matcher.length text = 0) (best : Option (Token × Nat)) :
    es.foldl (prefer text) best = best := by
  induction es generalizing best with
  | nil => rfl
  | cons e es ih =>
    obtain ⟨he, hes⟩ := List.forall_mem_cons.1 h
    have hbest : prefer text best e = best := by simp [prefer, he]
    rw [List.foldl_cons, hbest, ih hes]

/-- A matcher that covers nothing where an identifier begins. -/
def startsOther : Matcher → Bool
  | .literal (d :: _) => !isWordChar d
  | .literal [] => true
  | .word => false
  | .blank => true
  | .comment => true
  | .quoted => true

theorem length_of_startsOther {m : Matcher} (hm : startsOther m = true) {c : Char}
    (hc : isWordChar c = true) (text : List Char) : m.length (c :: text) = 0 := by
  have hne : ∀ d, isWordChar d = false → d ≠ c := by
    rintro d hd rfl
    rw [hd] at hc
    cases hc
  cases m with
  | word => cases hm
  | literal k =>
    cases k with
    | nil => rfl
    | cons d k =>
      have hd : d ≠ c := hne d (by simpa [startsOther] using hm)
      simp [Matcher.length, hd]
  | blank =>
    have hblank : isInlineBlank c = false := by
      simp [isInlineBlank, (hne ' ' rfl).symm, (hne '\t' rfl).symm, (hne '\r' rfl).symm]
    simp [Matcher.length, blankLength, hblank]
  | comment =>
    rw [Matcher.length, commentLength]
    intro rest heq
    exact hne '%' rfl (List.cons.inj heq).1.symm
  | quoted =>
    rw [Matcher.length, quotedLength]
    intro rest heq
    exact hne '"' rfl (List.cons.inj heq).1.symm

/-- The entries between the one for identifiers and the keywords. -/
def symbols : TokenCatalog := (classDiagram.drop 1).take 27

theorem startsOther_symbols : symbols.all (fun e => startsOther e.matcher) = true := by decide

theorem classDiagram_eq : classDiagram = ⟨.word, .word⟩ :: (symbols ++
    [⟨.header, .literal "classDiagram".toList⟩, ⟨.classWord, .literal "class".toList⟩,
      ⟨.noteWord, .literal "note".toList⟩, ⟨.forWord, .literal "for".toList⟩]) := rfl

/-- An identifier wins with all of its length, as a keyword if it is one. -/
theorem bestMatch_word {w rest : List Char} (hw : wordLength (w ++ rest) = w.length)
    (hne : w ≠ []) :
    classDiagram.bestMatch (w ++ rest) = some (wordToken w, w.length) := by
  obtain ⟨c, u, hcu⟩ := List.exists_cons_of_ne_nil hne
  have hlen : w.length ≠ 0 := by simpa using hne
  have hc : isWordChar c = true := by
    rw [hcu, List.cons_append, wordLength] at hw
    by_cases hc : isWordChar c = true
    · exact hc
    · rw [if_neg hc] at hw
      cases hw
  have hfirst : prefer (w ++ rest) none ⟨.word, .word⟩ = some (.word, w.length) := by
    simp [prefer, Matcher.length, hw, hlen]
  have hsymbols : ∀ e ∈ symbols, e.matcher.length (w ++ rest) = 0 := by
    intro e he
    rw [hcu]
    exact length_of_startsOther (List.all_eq_true.1 startsOther_symbols e he) hc _
  rw [bestMatch, classDiagram_eq, List.foldl_cons, hfirst, List.foldl_append,
    foldl_prefer_of_zero hsymbols]
  simp only [List.foldl_cons, List.foldl_nil]
  rw [prefer_keyword hw (by decide) (by decide), prefer_keyword hw (by decide) (by decide),
    prefer_keyword hw (by decide) (by decide), prefer_keyword hw (by decide) (by decide)]
  rfl

theorem pieces_identifier {w rest : List Char} (hne : w ≠ []) (hw : wordLength w = w.length)
    (hrest : WordEnds rest) :
    classDiagram.pieces (w ++ rest) = ⟨wordToken w, w⟩ :: classDiagram.pieces rest :=
  pieces_of_bestMatch hne (bestMatch_word ((wordLength_append hne hrest).trans hw) hne)

/-! ## Words -/

/-- A text that is one word, and so no keyword. -/
def IsWord (w : String) : Prop := classDiagram.pieces w.toList = [⟨.word, w.toList⟩]

/-- Where a word wins, it is an identifier and no keyword. -/
theorem word_of_bestMatch {text : List Char} {n : Nat}
    (h : classDiagram.bestMatch text = some (.word, n)) :
    wordLength text = n ∧ 0 < n ∧ wordToken (text.take n) = .word := by
  obtain ⟨e, he, ht, hn, hpos⟩ := bestMatch_eq_some h
  have hentry : ∀ e ∈ classDiagram, e.token = .word → e.matcher = .word := by decide
  rw [hentry e he ht] at hn
  change wordLength text = n at hn
  have hle : n ≤ text.length := hn ▸ wordLength_le text
  have hlen : (text.take n).length = n := by simp [hle]
  have hne : text.take n ≠ [] := by
    rw [← List.length_pos_iff, hlen]
    exact hpos
  have hword : wordLength (text.take n ++ text.drop n) = (text.take n).length := by
    rw [List.take_append_drop, hn, hlen]
  have hbest := bestMatch_word hword hne
  rw [List.take_append_drop, h] at hbest
  exact ⟨hn, hpos, (Prod.mk.inj (Option.some.inj hbest)).1.symm⟩

theorem IsWord.spec {w : String} (h : IsWord w) :
    w.toList ≠ [] ∧ wordLength w.toList = w.toList.length ∧ wordToken w.toList = .word := by
  unfold IsWord at h
  generalize w.toList = cs at h ⊢
  cases cs with
  | nil => simp [pieces] at h
  | cons c cs =>
    rw [pieces_cons] at h
    obtain ⟨hpiece, _⟩ := List.cons.inj h
    obtain ⟨ht, hcs⟩ := Piece.mk.inj hpiece
    have hle : cs.length ≤ (classDiagram.nextPiece c cs).2 := by
      have hlen := congrArg List.length (List.cons.inj hcs).2
      rw [List.length_take] at hlen
      omega
    cases hbest : classDiagram.bestMatch (c :: cs) with
    | none => simp [nextPiece, hbest] at ht
    | some best =>
      obtain ⟨t, n⟩ := best
      simp only [nextPiece, hbest] at ht hle
      subst ht
      obtain ⟨hn, hpos, htoken⟩ := word_of_bestMatch hbest
      have hbound := wordLength_le (c :: cs)
      have hfull : n = (c :: cs).length := by
        rw [List.length_cons] at hbound ⊢
        omega
      rw [hfull, List.take_length] at htoken
      exact ⟨List.cons_ne_nil _ _, hn.trans hfull, htoken⟩

/-- A word is an identifier that is no keyword. -/
theorem isWord_iff {w : String} : IsWord w ↔
    w.toList ≠ [] ∧ wordLength w.toList = w.toList.length ∧ wordToken w.toList = .word := by
  refine ⟨IsWord.spec, ?_⟩
  rintro ⟨hne, hw, ht⟩
  have h := pieces_identifier hne hw wordEnds_nil
  rwa [List.append_nil, ht, pieces] at h

instance (w : String) : Decidable (IsWord w) := decidable_of_iff _ isWord_iff.symm

end ClassDiagram
