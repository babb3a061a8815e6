import ClassDiagram.Proofs.Token.Fillers

/-! # What a text shows to the rules

The rules see no trivia, and of a line end only that it is one.  What they see of a text does not
change when blanks are put between its tokens, when a comment is put at the end of a line, or when
its line ends are written in the other way.

* `gist_blanks`, `gist_comment`, `gist_lineFeed`: what is seen of blanks, comments and line ends;
* `gist_filler`: putting something between two tokens;
* `gist_addReturns`: a carriage return before each line feed.
-/

namespace ClassDiagram

open TokenCatalog

def Piece.sight (p : Piece) : Option (Token × List Char) :=
  if p.token.isTrivia then none
  else if p.token = .newline then some (.newline, [])
  else some (p.token, p.text)

def gist (text : List Char) : List (Token × List Char) :=
  (classDiagram.pieces text).filterMap Piece.sight

section

variable {u v x : List Char}

theorem gist_of_isCut {t : Token} (hx : x ≠ []) (h : classDiagram.IsCut t x v) :
    gist (x ++ v) = (Piece.sight ⟨t, x⟩).toList ++ gist v := by
  rw [gist, pieces_of_isCut hx h, List.filterMap_cons]
  cases Piece.sight ⟨t, x⟩ <;> rfl

theorem gist_of_bestMatch {t : Token} (hx : x ≠ [])
    (h : classDiagram.bestMatch (x ++ v) = some (t, x.length)) :
    gist (x ++ v) = (Piece.sight ⟨t, x⟩).toList ++ gist v :=
  gist_of_isCut hx (.inl (isMatch_iff.2 h))

/-! ## Line ends -/

theorem gist_newline (v : List Char) : gist ('\n' :: v) = (.newline, []) :: gist v :=
  gist_of_bestMatch (x := ['\n']) (by simp) rfl

theorem gist_returnNewline (v : List Char) : gist ('\r' :: '\n' :: v) = (.newline, []) :: gist v :=
  gist_of_bestMatch (x := ['\r', '\n']) (by simp) rfl

theorem gist_lineFeed (u v : List Char) :
    gist (u ++ '\n' :: v) = gist u ++ (.newline, []) :: gist v := by
  obtain ⟨ps, blanks, hps, hblank, hrest⟩ := pieces_lineFeed u
  have hnone : blanks.filterMap Piece.sight = [] := by
    refine List.filterMap_eq_nil_iff.2 fun p hp => ?_
    rw [Piece.sight, hblank p hp]
    rfl
  rw [gist, hrest, gist, hps, List.filterMap_append, List.filterMap_append, hnone,
    List.append_nil, List.filterMap_cons]
  rfl

/-! ## Blanks -/

theorem bestMatch_blank {c : Char} (hc : isInlineBlank c = true)
    (hr : c = '\r' → v.head? ≠ some '\n') :
    classDiagram.bestMatch (c :: v) = some (.whitespace, blankLength (c :: v)) := by
  have hlength : blankLength (c :: v) = blankLength v + 1 := by simp [blankLength, hc]
  rcases isInlineBlank_iff.1 hc with rfl | rfl | rfl
  · simp [bestMatch, classDiagram, prefer, Matcher.length, literalEntry, wordLength, commentLength,
      quotedLength, isWordChar, Text.isAlphanumeric, List.isPrefixOf, hlength]
  · simp [bestMatch, classDiagram, prefer, Matcher.length, literalEntry, wordLength, commentLength,
      quotedLength, isWordChar, Text.isAlphanumeric, List.isPrefixOf, hlength]
  · have hfeed : ['\n'].isPrefixOf v = false := by
      cases v with
      | nil => rfl
      | cons d v =>
        have hd : ('\n' == d) = false :=
          beq_eq_false_iff_ne.2 fun heq => hr rfl (congrArg some heq.symm)
        simp [List.isPrefixOf, hd]
    simp [bestMatch, classDiagram, prefer, Matcher.length, literalEntry, wordLength, commentLength,
      quotedLength, isWordChar, Text.isAlphanumeric, List.isPrefixOf, hlength, hfeed]

/-- The run of blanks at the start of a text is one piece, unless a line end begins in it. -/
theorem gist_dropBlanks (v : List Char) : gist (v.dropWhile isInlineBlank) = gist v := by
  induction v with
  | nil => rfl
  | cons c v ih =>
    by_cases hc : isInlineBlank c = true
    · rw [List.dropWhile_cons_of_pos hc, ih]
      by_cases hr : c = '\r' → v.head? ≠ some '\n'
      · have hrun : (c :: v).takeWhile isInlineBlank ++ v.dropWhile isInlineBlank = c :: v := by
          rw [List.takeWhile_cons_of_pos hc, List.cons_append, List.takeWhile_append_dropWhile]
        have hpiece := gist_of_bestMatch (x := (c :: v).takeWhile isInlineBlank)
          (v := v.dropWhile isInlineBlank) (by simp [hc]) (by rw [hrun, bestMatch_blank hc hr]; rfl)
        rw [hrun, ih] at hpiece
        exact hpiece.symm
      · obtain ⟨rfl, hfeed⟩ := Classical.not_imp.1 hr
        obtain ⟨v, rfl⟩ := List.head?_eq_some_iff.1 (not_not.1 hfeed)
        rw [gist_newline, gist_returnNewline]
    · rw [List.dropWhile_cons_of_neg hc]

/-- Blanks are not seen. -/
theorem gist_blanks (hx : ∀ c ∈ x, isInlineBlank c = true) (v : List Char) :
    gist (x ++ v) = gist v := by
  rw [← gist_dropBlanks, List.dropWhile_append_of_pos hx, gist_dropBlanks]

/-! ## Comments -/

theorem bestMatch_comment (r : List Char) : classDiagram.bestMatch ('%' :: '%' :: r)
    = some (.comment, commentLength ('%' :: '%' :: r)) := by
  have hlength := commentLength_cons r
  simp [bestMatch, classDiagram, prefer, Matcher.length, literalEntry, wordLength, blankLength,
    quotedLength, isWordChar, Text.isAlphanumeric, isInlineBlank, List.isPrefixOf, hlength]

/-- A comment is a stretch of its line, with only carriage returns behind it there. -/
theorem exists_comment (r : List Char) : ∃ z returns,
    r.takeWhile (· != '\n') = z ++ returns ∧ commentLength ('%' :: '%' :: r) = z.length + 2 ∧
      ∀ c ∈ returns, isInlineBlank c = true := by
  refine ⟨((r.takeWhile (· != '\n')).reverse.dropWhile (· == '\r')).reverse,
    ((r.takeWhile (· != '\n')).reverse.takeWhile (· == '\r')).reverse, ?_, ?_, fun c hc => ?_⟩
  · rw [← List.reverse_append, List.takeWhile_append_dropWhile, List.reverse_reverse]
  · rw [commentLength_cons, List.length_reverse]
  · have hreturn := List.mem_takeWhile_imp (List.mem_reverse.1 hc)
    rw [eq_of_beq hreturn]
    rfl

/-- A comment is not seen. -/
theorem gist_comment (r : List Char) :
    gist ('%' :: '%' :: r) = gist (r.dropWhile (· != '\n')) := by
  obtain ⟨z, returns, hline, hlength, hreturns⟩ := exists_comment r
  have htext : '%' :: '%' :: r = ('%' :: '%' :: z) ++ (returns ++ r.dropWhile (· != '\n')) := by
    rw [List.cons_append, List.cons_append, ← List.append_assoc, ← hline,
      List.takeWhile_append_dropWhile]
  have hbest := bestMatch_comment r
  rw [hlength, htext] at hbest
  rw [htext, gist_of_bestMatch (by simp) hbest, gist_blanks hreturns]
  rfl

/-! ## Fillers -/

theorem eq_of_isCut {t t' : Token} {n : Nat} (hx : x ≠ []) (h : classDiagram.IsCut t x v)
    (hbest : classDiagram.bestMatch (x ++ v) = some (t', n)) : t = t' ∧ x.length = n := by
  rcases h with hmatch | ⟨_, hgap⟩
  · rw [isMatch_iff.1 hmatch] at hbest
    exact Prod.mk.inj (Option.some.inj hbest)
  · have hsilent := silent_iff.1 (hgap.1 [] x rfl hx)
    rw [hbest] at hsilent
    cases hsilent

/-- What begins with a blank is blank, or it is a line end. -/
theorem blank_of_isCut {t : Token} (hx : x ≠ []) (h : classDiagram.IsCut t x v)
    (hblank : blankLength (x ++ v) ≠ 0) :
    (∀ c ∈ x, isInlineBlank c = true) ∨ x = ['\r', '\n'] := by
  obtain ⟨c, x, rfl⟩ := List.exists_cons_of_ne_nil hx
  have hc : isInlineBlank c = true := by
    by_contra hc
    exact hblank (blankLength_eq_zero_iff.2 (by simpa using hc))
  by_cases hr : c = '\r' → (x ++ v).head? ≠ some '\n'
  · left
    have hlength := (eq_of_isCut hx h (bestMatch_blank hc hr)).2
    have hprefix : c :: x <+: c :: x ++ v := List.prefix_append _ _
    have hrun : (c :: x ++ v).takeWhile isInlineBlank <+: c :: x ++ v := List.takeWhile_prefix _
    have heq := (List.prefix_of_prefix_length_le hprefix hrun hlength.le).eq_of_length hlength
    intro d hd
    rw [heq] at hd
    exact List.mem_takeWhile_imp hd
  · right
    obtain ⟨rfl, hfeed⟩ := Classical.not_imp.1 hr
    obtain ⟨w, hw⟩ := List.head?_eq_some_iff.1 (not_not.1 hfeed)
    have hbest : classDiagram.bestMatch ('\r' :: x ++ v) = some (.newline, 2) := by
      rw [List.cons_append, hw]
      rfl
    have hlength := (eq_of_isCut hx h hbest).2
    cases x with
    | nil => cases hlength
    | cons d x =>
      obtain ⟨rfl, -⟩ := List.cons.inj hw
      have hnil : x = [] := by simpa using hlength
      rw [hnil]

/-- Of a line with a comment only blanks are left behind the comment. -/
theorem comment_of_isCut {t : Token} (hx : x ≠ []) (h : classDiagram.IsCut t x v)
    (hcomment : commentLength (x ++ v) ≠ 0) :
    (∃ z, x = '%' :: '%' :: z ∧ ∀ c ∈ z, (c != '\n') = true) ∧
      ∀ c ∈ v.takeWhile (· != '\n'), isInlineBlank c = true := by
  rw [Ne, commentLength_eq_zero_iff, not_not] at hcomment
  obtain ⟨r, hr⟩ := hcomment
  obtain ⟨z, returns, hline, hlength, hreturns⟩ := exists_comment r
  have hbest := bestMatch_comment r
  change ('%' :: '%' :: r) = x ++ v at hr
  rw [hr] at hbest
  have hx' := (eq_of_isCut hx h hbest).2
  rw [← hr, hlength] at hx'
  have hrest : r = z ++ (returns ++ r.dropWhile (· != '\n')) := by
    rw [← List.append_assoc, ← hline, List.takeWhile_append_dropWhile]
  have hz : ∀ c ∈ z, (c != '\n') = true := fun c hc =>
    List.mem_takeWhile_imp (p := (· != '\n')) (hline ▸ List.mem_append_left _ hc)
  generalize r.dropWhile (· != '\n') = rest at hrest
  subst hrest
  rw [List.takeWhile_append_of_pos hz] at hline
  have hsplit : ('%' :: '%' :: z) ++ (returns ++ rest) = x ++ v := hr
  obtain ⟨rfl, rfl⟩ := List.append_inj hsplit (by simp [hx'])
  refine ⟨⟨z, rfl, hz⟩, ?_⟩
  rwa [List.append_cancel_left hline]

/-- The first piece of what is left lies in what is left. -/
theorem endsWithin_of_pieces {ps qs : List Piece}
    (h : classDiagram.pieces (ps.flatMap Piece.text ++ qs.flatMap Piece.text) = ps ++ qs)
    (hps : ps.flatMap Piece.text ≠ [])
    (hmatch : ¬ classDiagram.Silent (ps.flatMap Piece.text ++ qs.flatMap Piece.text)) :
    EndsWithin (ps.flatMap Piece.text) (qs.flatMap Piece.text) := by
  cases ps with
  | nil => exact absurd rfl hps
  | cons p ps =>
    obtain ⟨htext, hp, hcut, -⟩ := isCut_of_pieces_eq_cons h
    rw [htext] at hmatch
    rcases hcut with hcut | ⟨_, hgap⟩
    · have hbest := isMatch_iff.1 hcut
      rw [← htext] at hbest
      exact endsWithin_of_bestMatch hbest (by simp)
    · exact absurd (hgap.1 [] p.text rfl hp) hmatch

/-- What is put into a line behind a comment belongs to the comment. -/
theorem gist_filler_comment {t : Token} (hx : Filler x) {s : List Char} (hs : s ≠ [])
    (h : classDiagram.IsCut t s (u ++ v)) (hcomment : commentLength (s ++ (u ++ v)) ≠ 0)
    (hrest : gist (u ++ (x ++ v)) = gist (u ++ v)) :
    gist (s ++ (u ++ (x ++ v))) = gist (s ++ (u ++ v)) := by
  obtain ⟨⟨z, rfl, hz⟩, hblank⟩ := comment_of_isCut hs h hcomment
  have hline : ∀ y, gist ('%' :: '%' :: z ++ y) = gist (y.dropWhile (· != '\n')) := by
    intro y
    rw [List.cons_append, List.cons_append, gist_comment, List.dropWhile_append_of_pos hz]
  rw [hline, hline]
  by_cases hfeed : ∀ c ∈ u, (c != '\n') = true
  · have hx' : ∀ c ∈ x, (c != '\n') = true := fun c hc => by simpa using (hx.quotable c hc).2
    rw [List.dropWhile_append_of_pos hfeed, List.dropWhile_append_of_pos hfeed,
      List.dropWhile_append_of_pos hx']
  · -- the line ends before the place, and there are only blanks up to its end
    have hnil : u.dropWhile (· != '\n') ≠ [] := mt List.dropWhile_eq_nil_iff.1 hfeed
    have hu : ∀ c ∈ u.takeWhile (· != '\n'), isInlineBlank c = true := by
      refine fun c hc => hblank c ?_
      rw [List.takeWhile_append]
      split
      · exact List.mem_append_left _ ((List.takeWhile_prefix _).subset hc)
      · exact hc
    have hdrop : ∀ y, gist ((u ++ y).dropWhile (· != '\n')) = gist (u ++ y) := by
      intro y
      have hbehind : (u ++ y).dropWhile (· != '\n') = u.dropWhile (· != '\n') ++ y := by
        rw [List.dropWhile_append, if_neg (by simpa using hnil)]
      have hsplit : u ++ y = u.takeWhile (· != '\n') ++ (u.dropWhile (· != '\n') ++ y) := by
        rw [← List.append_assoc, List.takeWhile_append_dropWhile]
      rw [hbehind, hsplit, gist_blanks hu]
    rw [hdrop, hdrop, hrest]

/-- What is put between two pieces is not seen, if it is not seen in front of the second one. -/
theorem gist_filler {ps qs : List Piece} (hx : Filler x)
    (h : classDiagram.pieces (ps.flatMap Piece.text ++ qs.flatMap Piece.text) = ps ++ qs)
    (hseen : gist (x ++ qs.flatMap Piece.text) = gist (qs.flatMap Piece.text)) :
    gist (ps.flatMap Piece.text ++ (x ++ qs.flatMap Piece.text))
      = gist (ps.flatMap Piece.text ++ qs.flatMap Piece.text) := by
  induction ps with
  | nil => exact hseen
  | cons p ps ih =>
    rw [List.cons_append] at h
    obtain ⟨-, hp, hcut, hpieces⟩ := isCut_of_pieces_eq_cons h
    rw [List.flatMap_append] at hcut hpieces
    have hrest := ih hpieces
    rw [List.flatMap_cons, List.append_assoc, List.append_assoc]
    by_cases hblank : blankLength (p.text ++ (ps.flatMap Piece.text ++ qs.flatMap Piece.text)) = 0
    · by_cases hcomment :
          commentLength (p.text ++ (ps.flatMap Piece.text ++ qs.flatMap Piece.text)) = 0
      · have hcut' : classDiagram.IsCut p.token p.text
            (ps.flatMap Piece.text ++ (x ++ qs.flatMap Piece.text)) :=
          hcut.imp (isMatch_filler hp hx hblank hcomment) fun ⟨ht, hgap⟩ =>
            ⟨ht, isGap_filler hx hgap (endsWithin_of_pieces hpieces)⟩
        rw [gist_of_isCut hp hcut', gist_of_isCut hp hcut, hrest]
      · exact gist_filler_comment hx hp hcut hcomment hrest
    · rcases blank_of_isCut hp hcut hblank with hall | hend
      · rw [gist_blanks hall, gist_blanks hall, hrest]
      · rw [hend]
        exact (gist_returnNewline _).trans (hrest ▸ (gist_returnNewline _).symm)

/-! ## What may be put into a text -/

/-- Blanks between two pieces are not seen. -/
theorem gist_putBlanks {ps qs : List Piece} (hx : ∀ c ∈ x, c = ' ' ∨ c = '\t')
    (h : classDiagram.pieces (ps.flatMap Piece.text ++ qs.flatMap Piece.text) = ps ++ qs) :
    gist (ps.flatMap Piece.text ++ (x ++ qs.flatMap Piece.text))
      = gist (ps.flatMap Piece.text ++ qs.flatMap Piece.text) := by
  have hblank : ∀ c ∈ x, isInlineBlank c = true := fun c hc =>
    isInlineBlank_iff.2 ((hx c hc).imp_right .inl)
  cases x with
  | nil => rfl
  | cons c x =>
    refine gist_filler ⟨⟨c, x, rfl, hblank c List.mem_cons_self⟩, fun d hd => ?_⟩ h
      (gist_blanks hblank _)
    rcases hx d hd with rfl | rfl <;> decide

/-- A line end is a line feed, with or without a carriage return. -/
theorem newline_of_isCut (h : classDiagram.IsCut .newline x v) (hx : x ≠ []) :
    x = ['\n'] ∨ x = ['\r', '\n'] := by
  rcases h with hmatch | ⟨hraw, _⟩
  · obtain ⟨e, he, ht, hlength, _⟩ := bestMatch_eq_some (isMatch_iff.1 hmatch)
    have hentry : ∀ e ∈ classDiagram, e.token = .newline →
        e.matcher = .literal ['\n'] ∨ e.matcher = .literal ['\r', '\n'] := by decide
    have hliteral : ∀ k, e.matcher = .literal k → x = k := fun k hk =>
      eq_of_length_literal hx (hk ▸ hlength)
    exact (hentry e he ht).imp (hliteral _) (hliteral _)
  · cases hraw

/-- A comment at the end of a line is not seen. -/
theorem gist_putComment {ps qs : List Piece} {body : List Char} (hbody : Quotable body)
    (h : classDiagram.pieces (ps.flatMap Piece.text ++ qs.flatMap Piece.text) = ps ++ qs)
    (hend : ∀ q ∈ qs.head?, q.token = .newline) :
    gist (ps.flatMap Piece.text ++ (' ' :: '%' :: '%' :: body ++ qs.flatMap Piece.text))
      = gist (ps.flatMap Piece.text ++ qs.flatMap Piece.text) := by
  have hquotable : Quotable (' ' :: '%' :: '%' :: body) :=
    List.forall_mem_cons.2 ⟨by decide, List.forall_mem_cons.2 ⟨by decide,
      List.forall_mem_cons.2 ⟨by decide, hbody⟩⟩⟩
  refine gist_filler ⟨⟨' ', _, rfl, rfl⟩, hquotable⟩ h ?_
  have hline : ∀ c ∈ body, (c != '\n') = true := fun c hc => by simpa using (hbody c hc).2
  have hblank := gist_blanks (x := [' ']) (by simp [isInlineBlank])
    ('%' :: '%' :: (body ++ qs.flatMap Piece.text))
  rw [List.singleton_append] at hblank
  rw [List.cons_append, List.cons_append, List.cons_append, hblank, gist_comment,
    List.dropWhile_append_of_pos hline]
  have hpieces := pieces_behind h
  cases qs with
  | nil => rfl
  | cons q qs =>
    obtain ⟨-, hq, hcut, -⟩ := isCut_of_pieces_eq_cons hpieces
    rw [hend q rfl] at hcut
    rw [List.flatMap_cons]
    rcases newline_of_isCut hcut hq with hfeed | hfeed <;> rw [hfeed]
    · rfl
    · exact (gist_newline _).trans (gist_returnNewline _).symm

/-! ## Carriage returns -/

/-- A carriage return before each line feed that has none; `returned` says whether one stands before
the text. -/
def addReturns (returned : Bool) : List Char → List Char
  | [] => []
  | c :: rest =>
    if c = '\n' ∧ returned = false then '\r' :: '\n' :: addReturns false rest
    else c :: addReturns (c == '\r') rest

theorem addReturns_of_not_mem {s : List Char} (hs : '\n' ∉ s) (returned : Bool) :
    addReturns returned s = s := by
  induction s generalizing returned with
  | nil => rfl
  | cons c s ih =>
    obtain ⟨hc, hs⟩ := not_or.1 (mt List.mem_cons.2 hs)
    rw [addReturns, if_neg fun h => hc h.1.symm, ih hs]

theorem addReturns_line {s : List Char} (hs : '\n' ∉ s) (returned : Bool) (b : List Char) :
    ∃ y, (y = [] ∨ y = ['\r']) ∧
      addReturns returned (s ++ '\n' :: b) = s ++ y ++ '\n' :: addReturns false b := by
  induction s generalizing returned with
  | nil =>
    cases returned with
    | false => exact ⟨['\r'], .inr rfl, by simp [addReturns]⟩
    | true => exact ⟨[], .inl rfl, by simp [addReturns]⟩
  | cons c s ih =>
    obtain ⟨hc, hs⟩ := not_or.1 (mt List.mem_cons.2 hs)
    obtain ⟨y, hy, heq⟩ := ih hs (c == '\r')
    refine ⟨y, hy, ?_⟩
    rw [List.cons_append, addReturns, if_neg fun h => hc h.1.symm, heq]
    rfl

theorem gist_return (s : List Char) : gist (s ++ ['\r']) = gist s := by
  have hx : Filler ['\r'] := ⟨⟨'\r', [], rfl, rfl⟩, by simp [Quotable]⟩
  have hpieces : classDiagram.pieces ((classDiagram.pieces s).flatMap Piece.text
      ++ ([] : List Piece).flatMap Piece.text) = classDiagram.pieces s ++ [] := by
    rw [flatMap_text_pieces, List.flatMap_nil, List.append_nil, List.append_nil]
  have h := gist_filler hx hpieces (gist_blanks (by simp [isInlineBlank]) _)
  rwa [flatMap_text_pieces, List.flatMap_nil, List.append_nil, List.append_nil] at h

/-- It is not seen how line ends are written. -/
theorem gist_addReturns (returned : Bool) (t : List Char) :
    gist (addReturns returned t) = gist t := by
  -- on the length of the text, line by line
  induction hn : t.length using Nat.strongRecOn generalizing returned t with
  | ind n ih =>
    by_cases hfeed : '\n' ∈ t
    · obtain ⟨s, b, rfl, hs⟩ := List.eq_append_cons_of_mem hfeed
      obtain ⟨y, hy, heq⟩ := addReturns_line hs returned b
      have hline : gist (s ++ y) = gist s := by
        rcases hy with rfl | rfl
        · rw [List.append_nil]
        · exact gist_return s
      have hshorter : b.length < n := by
        rw [List.length_append, List.length_cons] at hn
        omega
      rw [heq, gist_lineFeed, gist_lineFeed, hline, ih b.length hshorter false b rfl]
    · rw [addReturns_of_not_mem hfeed]

end

end ClassDiagram
