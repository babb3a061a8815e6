import ClassDiagram.Proofs.Spacing
import ClassDiagram.Proofs.Text.Trimming

/-! # Recognised diagrams

The recogniser looks at trimmed lines, the grammar at the tokens that are no trivia.  Both come to
the header behind the same blanks and comments, so that no text that is accepted is turned away.
The recogniser is the more generous one: it knows more blanks, and it does not look further.

* `HasHeader`: the header behind blanks, line ends and comments;
* `looksLikeDiagram_iff`: this is what is recognised;
* `hasHeader_of_statementsOfText`: accepted texts have it;
* `accepted_recognised`: so they are recognised.
-/

namespace ClassDiagram

open TokenCatalog Document

/-- The header, behind blanks, line ends and comments on lines of their own. -/
inductive HasHeader : List Char → Prop
  | header (rest : List Char) : HasHeader ("classDiagram".toList ++ rest)
  | blank {c : Char} {rest : List Char} : Text.isBlank c = true → HasHeader rest →
      HasHeader (c :: rest)
  | comment {line rest : List Char} : "%%".toList <+: line → '\n' ∉ line → HasHeader rest →
      HasHeader (line ++ '\n' :: rest)

theorem HasHeader.blanks {x v : List Char} (hx : ∀ c ∈ x, Text.isBlank c = true)
    (hv : HasHeader v) : HasHeader (x ++ v) := by
  induction x with
  | nil => exact hv
  | cons c x ih =>
    obtain ⟨hc, hx⟩ := List.forall_mem_cons.1 hx
    exact .blank hc (ih hx)

/-! ## Lines -/

namespace Document

theorem linesOf_of_not_mem {u : List Char} (hu : '\n' ∉ u) : linesOf u = [u] := by
  induction u with
  | nil => rfl
  | cons c u ih =>
    obtain ⟨hc, hu⟩ := not_or.1 (mt List.mem_cons.2 hu)
    rw [linesOf, if_neg (Ne.symm hc), ih hu]

theorem linesOf_line {u : List Char} (hu : '\n' ∉ u) (v : List Char) :
    linesOf (u ++ '\n' :: v) = u :: linesOf v := by
  induction u with
  | nil => rfl
  | cons c u ih =>
    obtain ⟨hc, hu⟩ := not_or.1 (mt List.mem_cons.2 hu)
    rw [List.cons_append, linesOf, if_neg (Ne.symm hc), ih hu]

/-- A text is one line, or its first line ends somewhere. -/
theorem exists_line (t : List Char) : ∃ u others, '\n' ∉ u ∧ linesOf t = u :: others ∧
    ((t = u ∧ others = []) ∨ ∃ v, t = u ++ '\n' :: v ∧ others = linesOf v) := by
  by_cases hfeed : '\n' ∈ t
  · obtain ⟨u, v, rfl, hu⟩ := List.eq_append_cons_of_mem hfeed
    exact ⟨u, linesOf v, hu, linesOf_line hu v, .inr ⟨v, rfl, rfl⟩⟩
  · exact ⟨t, [], hfeed, linesOf_of_not_mem hfeed, .inl ⟨rfl, rfl⟩⟩

/-- Whether the first of some lines that says something begins with the header. -/
def headed (lines : List (List Char)) : Bool :=
  match (lines.map (Text.strip Text.isBlank)).find? isContent with
  | some line => "classDiagram".toList.isPrefixOf line
  | none => false

theorem looksLikeDiagram_eq (text : String) :
    looksLikeDiagram text = headed (linesOf text.toList) := rfl

theorem headed_cons (u : List Char) (others : List (List Char)) :
    headed (u :: others) = if isContent (Text.strip Text.isBlank u) then
      "classDiagram".toList.isPrefixOf (Text.strip Text.isBlank u) else headed others := by
  rw [headed, List.map_cons, List.find?_cons]
  cases isContent (Text.strip Text.isBlank u) <;> rfl

theorem headed_blank {c : Char} (hc : Text.isBlank c = true) (t : List Char) :
    headed (linesOf (c :: t)) = headed (linesOf t) := by
  obtain ⟨u, others, _, hlines, _⟩ := exists_line t
  by_cases hfeed : c = '\n'
  · rw [linesOf, if_pos hfeed, headed_cons]
    rfl
  · have hstrip : Text.strip Text.isBlank (c :: u) = Text.strip Text.isBlank u := by
      rw [Text.strip, List.dropWhile_cons_of_pos hc, Text.strip]
    rw [linesOf, if_neg hfeed, hlines, headed_cons, headed_cons, hstrip]

/-- A line that begins with a comment says nothing. -/
theorem not_isContent_of_comment {u : List Char} (h : "%%".toList <+: u) :
    isContent (Text.strip Text.isBlank u) = false := by
  obtain ⟨body, rfl⟩ := h
  have hprefix := Text.prefix_strip (p := Text.isBlank) (k := "%%".toList) (by decide) (by decide)
    body
  rw [isContent, List.isPrefixOf_iff_prefix.2 hprefix, Bool.not_true, Bool.and_false]

/-- A line that begins with the header says just this. -/
theorem headed_header (rest : List Char) (others : List (List Char)) :
    headed (("classDiagram".toList ++ rest) :: others) = true := by
  obtain ⟨z, hz⟩ := Text.prefix_strip (p := Text.isBlank) (k := "classDiagram".toList) (by decide)
    (by decide) rest
  rw [headed_cons, ← hz]
  rfl

theorem headed_of_hasHeader {t : List Char} (h : HasHeader t) : headed (linesOf t) = true := by
  induction h with
  | header rest =>
    -- the header holds no line feed, so it stands in the first line
    obtain ⟨u, _, hu, _, ⟨rfl, -⟩ | ⟨v, rfl, -⟩⟩ := exists_line rest
    · rw [linesOf_of_not_mem (by simp [hu])]
      exact headed_header _ _
    · rw [← List.append_assoc, linesOf_line (by simp [hu])]
      exact headed_header _ _
  | blank hc _ ih => rw [headed_blank hc, ih]
  | comment hsigns hline _ ih =>
    rw [linesOf_line hline, headed_cons, not_isContent_of_comment hsigns]
    exact ih

/-- Where the first line does not begin with a blank, it begins with the header or is a comment. -/
theorem headed_line {c : Char} {u : List Char} {others : List (List Char)}
    (hc : ¬ Text.isBlank c = true) (h : headed ((c :: u) :: others) = true) :
    "classDiagram".toList <+: c :: u ∨ "%%".toList <+: c :: u ∧ headed others = true := by
  have hfront : Text.strip Text.isBlank (c :: u) <+: c :: u := by
    have hstrip := Text.strip_prefix_dropWhile Text.isBlank (c :: u)
    rwa [List.dropWhile_cons_of_neg hc] at hstrip
  have hne : Text.strip Text.isBlank (c :: u) ≠ [] := by
    intro hnil
    have hall := Text.all_of_strip_eq_nil Text.isBlank hnil
    rw [List.all_cons, Bool.and_eq_true] at hall
    exact hc hall.1
  rw [headed_cons] at h
  by_cases hcontent : isContent (Text.strip Text.isBlank (c :: u)) = true
  · rw [if_pos hcontent, List.isPrefixOf_iff_prefix] at h
    exact .inl (h.trans hfront)
  · rw [if_neg hcontent] at h
    have hsigns : "%%".toList <+: Text.strip Text.isBlank (c :: u) := by
      simpa [isContent, hne] using hcontent
    exact .inr ⟨hsigns.trans hfront, h⟩

theorem hasHeader_of_headed {t : List Char} (h : headed (linesOf t) = true) : HasHeader t := by
  -- on the length of the text, blank by blank and line by line
  induction hn : t.length using Nat.strongRecOn generalizing t with
  | ind n ih =>
    cases t with
    | nil => cases h
    | cons c t =>
      by_cases hc : Text.isBlank c = true
      · rw [headed_blank hc] at h
        exact .blank hc (ih t.length (by simp [← hn]) h rfl)
      · have hfeed : c ≠ '\n' := by
          rintro rfl
          exact hc (by decide)
        obtain ⟨u, others, hu, hlines, hsplit⟩ := exists_line t
        rw [linesOf, if_neg hfeed, hlines] at h
        rcases headed_line hc h with hheader | ⟨hsigns, hothers⟩
        · have hut : c :: u <+: c :: t := by
            rcases hsplit with ⟨rfl, -⟩ | ⟨v, rfl, -⟩
            · exact List.prefix_refl _
            · exact List.prefix_append (c :: u) _
          obtain ⟨rest, hrest⟩ := hheader.trans hut
          exact hrest ▸ .header rest
        · rcases hsplit with ⟨-, rfl⟩ | ⟨v, rfl, rfl⟩
          · cases hothers
          · have hline : '\n' ∉ c :: u := by simp [hu, hfeed.symm]
            have hshort : v.length < n := by
              rw [← hn]
              simp only [List.length_append, List.length_cons]
              omega
            exact .comment hsigns hline (ih v.length hshort hothers rfl)

end Document

/-- Recognised is what has the header in front. -/
theorem looksLikeDiagram_iff (text : String) :
    looksLikeDiagram text = true ↔ HasHeader text.toList := by
  rw [looksLikeDiagram_eq]
  exact ⟨hasHeader_of_headed, headed_of_hasHeader⟩

/-! ## Accepted texts -/

/-- The first token that is seen, line ends apart, is the header. -/
def ShowsHeader (t : List Char) : Prop :=
  ((gist t).map Prod.fst).find? (· ≠ .newline) = some .header

theorem isBlank_of_isInlineBlank {c : Char} (h : isInlineBlank c = true) :
    Text.isBlank c = true := by
  rcases isInlineBlank_iff.1 h with rfl | rfl | rfl <;> rfl

section

variable {t : Token} {x v : List Char}

/-- A token that is passed over is a comment, or it is blank. -/
theorem blank_of_passed (hx : x ≠ []) (h : classDiagram.IsCut t x v)
    (hcomment : ¬ "%%".toList <+: x ++ v) (ht : t.isTrivia = true ∨ t = .newline) :
    ∀ c ∈ x, Text.isBlank c = true := by
  have hends : ∀ c ∈ ['\r', '\n'], Text.isBlank c = true :=
    List.forall_mem_cons.2 ⟨rfl, List.forall_mem_singleton.2 rfl⟩
  rcases ht with ht | rfl
  · have hmatch : classDiagram.IsMatch t x v := h.resolve_right fun hraw => by
      rw [hraw.1] at ht
      cases ht
    obtain ⟨e, he, rfl, hlength, hpos⟩ := bestMatch_eq_some (isMatch_iff.1 hmatch)
    have hentry : ∀ e ∈ classDiagram, e.token.isTrivia = true →
        e.matcher = .blank ∨ e.matcher = .comment := by decide
    rcases hentry e he ht with hm | hm
    · rw [hm] at hlength
      rcases blank_of_isCut hx h (hlength.trans_ne hpos.ne') with hblank | rfl
      · exact fun c hc => isBlank_of_isInlineBlank (hblank c hc)
      · exact hends
    · rw [hm, Matcher.length, commentLength_eq_zero_iff.2 hcomment] at hlength
      exact absurd hlength.symm hpos.ne'
  · rcases newline_of_isCut h hx with rfl | rfl
    · exact fun c hc => hends c (List.mem_of_mem_tail hc)
    · exact hends

theorem header_of_isCut (hx : x ≠ []) (h : classDiagram.IsCut .header x v) :
    x = "classDiagram".toList := by
  rcases h with hmatch | ⟨hraw, _⟩
  · obtain ⟨e, he, ht, hlength, _⟩ := bestMatch_eq_some (isMatch_iff.1 hmatch)
    have hentry : ∀ e ∈ classDiagram, e.token = .header →
        e.matcher = .literal "classDiagram".toList := by decide
    rw [hentry e he ht] at hlength
    exact eq_of_length_literal hx hlength
  · cases hraw

/-- Of what is passed over nothing is shown. -/
theorem ShowsHeader.behind (h : ShowsHeader (x ++ v)) (hx : x ≠ []) (hcut : classDiagram.IsCut t x v)
    (ht : t.isTrivia = true ∨ t = .newline) : ShowsHeader v := by
  have hnone : ((Piece.sight ⟨t, x⟩).toList.map Prod.fst).find? (· ≠ .newline) = none := by
    rcases ht with ht | rfl
    · rw [Piece.sight, if_pos ht]
      rfl
    · rfl
  rw [ShowsHeader, gist_of_isCut hx hcut, List.map_append, List.find?_append, hnone,
    Option.none_or] at h
  exact h

/-- The header is shown behind the line of a comment. -/
theorem ShowsHeader.behind_comment {r : List Char} (h : ShowsHeader ("%%".toList ++ r)) :
    ∃ u v, r = u ++ '\n' :: v ∧ '\n' ∉ u ∧ ShowsHeader v := by
  have hgist : gist ("%%".toList ++ r) = gist (r.dropWhile (· != '\n')) := gist_comment r
  rw [ShowsHeader, hgist] at h
  obtain ⟨u, _, hu, _, hsplit⟩ := exists_line r
  have hbody : ∀ c ∈ u, (c != '\n') = true := fun c hc => bne_iff_ne.2 fun heq => hu (heq ▸ hc)
  rcases hsplit with ⟨rfl, -⟩ | ⟨v, rfl, -⟩
  · rw [List.dropWhile_eq_nil_iff.2 hbody] at h
    simp [gist, pieces] at h
  · have hfeed : (u ++ '\n' :: v).dropWhile (· != '\n') = '\n' :: v := by
      rw [List.dropWhile_append_of_pos hbody]
      rfl
    rw [hfeed, gist_newline] at h
    exact ⟨u, v, rfl, hu, h⟩

end

theorem hasHeader_of_showsHeader {t : List Char} (h : ShowsHeader t) : HasHeader t := by
  -- on the length of the text, token by token; a comment is passed over with its line
  induction hn : t.length using Nat.strongRecOn generalizing t with
  | ind n ih =>
    by_cases hcomment : "%%".toList <+: t
    · obtain ⟨r, rfl⟩ := hcomment
      obtain ⟨u, v, rfl, hu, hv⟩ := h.behind_comment
      have hshort : v.length < n := by
        rw [← hn]
        simp only [List.length_append, List.length_cons]
        omega
      rw [← List.append_assoc]
      exact .comment (List.prefix_append _ u) (by simp [hu]) (ih v.length hshort hv rfl)
    · have hne : t ≠ [] := by
        rintro rfl
        simp [ShowsHeader, gist, pieces] at h
      obtain ⟨k, x, v, rfl, hx, hcut⟩ := classDiagram.exists_isCut hne
      by_cases hpassed : k.isTrivia = true ∨ k = .newline
      · have hshort : v.length < n := by
          have hpos := List.length_pos_iff.2 hx
          rw [← hn, List.length_append]
          omega
        have hv := h.behind hx hcut hpassed
        exact .blanks (blank_of_passed hx hcut hcomment hpassed) (ih v.length hshort hv rfl)
      · rw [not_or] at hpassed
        rw [ShowsHeader, gist_of_isCut hx hcut] at h
        have hk : k = .header := by simpa [Piece.sight, hpassed.1, hpassed.2] using h
        subst hk
        rw [header_of_isCut hx hcut]
        exact .header v

/-- A text that is accepted has the header in front. -/
theorem hasHeader_of_statementsOfText {text : String} {ss : List Statement}
    (h : statementsOfText text = .ok ss) : HasHeader text.toList := by
  obtain ⟨u, k, v, _, hs, hu, hk, _⟩ := Grammar.run_diagram_iff.1 (Grammar.ok_iff_run.1 h)
  have htokens : (gist text.toList).map Prod.fst = (u ++ k :: v).map Lexeme.token := by
    rw [← Lexeme.map_look_ofText, hs, List.map_map]
    exact List.map_congr_left fun l _ => l.fst_look
  have hends : (u.map Lexeme.token).find? (· ≠ .newline) = none := by
    rw [List.find?_eq_none]
    intro t ht
    obtain ⟨l, hl, rfl⟩ := List.mem_map.1 ht
    simp [hu l hl]
  apply hasHeader_of_showsHeader
  rw [ShowsHeader, htokens, List.map_append, List.find?_append, hends, List.map_cons, hk]
  rfl

/-- A text that is accepted is recognised.  What is recognised is just the header behind blanks,
line ends and comments, whatever comes after it. -/
theorem accepted_recognised (text : String) :
    (∀ ss, statementsOfText text = .ok ss → looksLikeDiagram text = true) ∧
      (looksLikeDiagram text = true ↔ HasHeader text.toList) := by
  refine ⟨fun ss h => ?_, looksLikeDiagram_iff text⟩
  exact (looksLikeDiagram_iff text).2 (hasHeader_of_statementsOfText h)

/-- A blank line with a carriage return, and a comment that names another header. -/
def remarked : String := " \t\r\n%% graph TD\r\n\r  classDiagram\nnote \"kept\""

theorem accepted_recognised_remarked :
    statementsOfText remarked = .ok [.note ⟨none, "kept"⟩] ∧ looksLikeDiagram remarked = true := by
  have h : statementsOfText remarked = .ok [.note ⟨none, "kept"⟩] :=
    ok_of_toOption (by decide +kernel)
  exact ⟨h, (accepted_recognised remarked).1 _ h⟩

end ClassDiagram
