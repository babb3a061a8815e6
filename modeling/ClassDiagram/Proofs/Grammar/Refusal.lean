import ClassDiagram.Proofs.Grammar.Agreement
import ClassDiagram.Proofs.Grammar.Completion

/-! # An error is at the first lexeme that cannot be right

Reading stops at some lexeme.  The lexemes before it begin a diagram: what was read up to there
can be completed.  With it they do not, whatever comes behind: no rule ever looked further.

* `Placed`: spans that lie in a text one behind another;
* `faces_spaced`: any lexemes can be cut out of some text;
* `refusal_is_sharp`: both halves together.
-/

namespace ClassDiagram.Grammar

open Rule

/-! ## Spans in a text -/

/-- An offset between two characters of a text, or at one of its ends. -/
def OnBoundary (text : List Char) (offset : Nat) : Prop :=
  ∃ u v, text = u ++ v ∧ offset = Text.byteCount u

/-- Spans that lie in a text on boundaries between characters, each behind the one before. -/
structure Placed (text : List Char) (spans : List Span) : Prop where
  boundary : ∀ s ∈ spans, OnBoundary text s.offset ∧ OnBoundary text (s.offset + s.length)
  ordered : spans.Pairwise fun s t => s.offset < t.offset ∧ s.offset + s.length ≤ t.offset

/-- What two lexemes at different places can have in common. -/
def face (l : Lexeme) : Token × String := (l.token, l.text)

/-- The lexemes of some spans, without their places. -/
def faces (text : String) (spans : List Span) : List (Token × String) :=
  (Lexeme.ofSpans text.toList spans).map face

theorem significant_ofSpans (text : List Char) (spans : List Span) :
    Significant (Lexeme.ofSpans text spans) := by
  intro l hl
  obtain ⟨s, hs, rfl⟩ := List.mem_map.1 hl
  simpa using (List.mem_filter.1 hs).2

/-! ### A text for any lexemes -/

def spacedText (fs : List (Token × String)) : List Char := fs.flatMap fun f => f.2.toList ++ [' ']

def spacedSpans (offset : Nat) : List (Token × String) → List Span
  | [] => []
  | f :: fs =>
    ⟨f.1, offset, Text.byteCount f.2.toList⟩ ::
      spacedSpans (offset + Text.byteCount f.2.toList + 1) fs

theorem ofSpans_cons {text : List Char} {s : Span} (hs : s.token.isTrivia = false)
    (spans : List Span) : Lexeme.ofSpans text (s :: spans) =
      ⟨s.token, String.ofList (Text.slice text s.offset (s.offset + s.length)), s.offset⟩ ::
        Lexeme.ofSpans text spans := by
  simp [Lexeme.ofSpans, hs]

/-- The texts of `f :: fs` behind `u` are those of `fs` behind `u`, the text of `f` and a blank. -/
theorem spaced_cons (u : List Char) (f : Token × String) (fs : List (Token × String)) :
    u ++ spacedText (f :: fs) = (u ++ f.2.toList ++ [' ']) ++ spacedText fs ∧
      spacedSpans (Text.byteCount u) (f :: fs) =
        ⟨f.1, Text.byteCount u, Text.byteCount f.2.toList⟩ ::
          spacedSpans (Text.byteCount (u ++ f.2.toList ++ [' '])) fs := by
  have hblank : Text.byteCount [' '] = 1 := rfl
  simp [spacedText, spacedSpans, hblank, Nat.add_assoc]

theorem faces_spaced (u : List Char) {fs : List (Token × String)}
    (h : ∀ f ∈ fs, f.1.isTrivia = false) :
    (Lexeme.ofSpans (u ++ spacedText fs) (spacedSpans (Text.byteCount u) fs)).map face = fs := by
  induction fs generalizing u with
  | nil => rfl
  | cons f fs ih =>
    obtain ⟨hf, hfs⟩ := List.forall_mem_cons.1 h
    obtain ⟨htext, hspans⟩ := spaced_cons u f fs
    have hslice : Text.slice ((u ++ f.2.toList ++ [' ']) ++ spacedText fs) (Text.byteCount u)
        (Text.byteCount u + Text.byteCount f.2.toList) = f.2.toList := by
      have h := Text.slice_append u f.2.toList (' ' :: spacedText fs)
      simpa using h
    rw [htext, hspans, ofSpans_cons hf, List.map_cons, ih _ hfs, hslice]
    simp [face]

theorem le_offset_of_mem_spaced {offset : Nat} {fs : List (Token × String)} :
    ∀ s ∈ spacedSpans offset fs, offset ≤ s.offset := by
  induction fs generalizing offset with
  | nil => nofun
  | cons f fs ih =>
    intro s hs
    rcases List.mem_cons.1 hs with rfl | hs
    · exact Nat.le_refl _
    · have := ih s hs
      omega

theorem placed_spaced (u : List Char) (fs : List (Token × String)) :
    Placed (u ++ spacedText fs) (spacedSpans (Text.byteCount u) fs) := by
  induction fs generalizing u with
  | nil => exact ⟨nofun, .nil⟩
  | cons f fs ih =>
    obtain ⟨htext, hspans⟩ := spaced_cons u f fs
    have htail := ih (u ++ f.2.toList ++ [' '])
    have hblank : Text.byteCount [' '] = 1 := rfl
    rw [htext, hspans]
    constructor
    · intro s hs
      rcases List.mem_cons.1 hs with rfl | hs
      · exact ⟨⟨u, f.2.toList ++ ' ' :: spacedText fs, by simp, rfl⟩,
          ⟨u ++ f.2.toList, ' ' :: spacedText fs, by simp, by simp⟩⟩
      · exact htail.boundary s hs
    · refine List.pairwise_cons.2 ⟨fun t ht => ?_, htail.ordered⟩
      have hle := le_offset_of_mem_spaced t ht
      simp only [Text.byteCount_append, hblank] at hle ⊢
      omega

/-- Whatever lexemes there are, some text with spans in it has them. -/
theorem exists_text {s : List Lexeme} (hs : Significant s) :
    ∃ (text : String) (spans : List Span), Placed text.toList spans ∧
      faces text spans = s.map face := by
  have hfaces : ∀ f ∈ s.map face, f.1.isTrivia = false := by
    intro f hf
    obtain ⟨l, hl, rfl⟩ := List.mem_map.1 hf
    exact hs l hl
  refine ⟨String.ofList (spacedText (s.map face)), spacedSpans 0 (s.map face), ?_, ?_⟩
  · have h := placed_spaced [] (s.map face)
    rwa [List.nil_append, Text.byteCount_nil, ← String.toList_ofList (l := spacedText _)] at h
  · have h := faces_spaced [] hfaces
    rwa [List.nil_append, Text.byteCount_nil, ← String.toList_ofList (l := spacedText _)] at h

/-! ## Refusals -/

theorem tokens_of_faces {s s' : List Lexeme} {k : Nat}
    (h : (s'.map face).take k = (s.map face).take k) : SameTokens k s s' := by
  have ht := congrArg (List.map Prod.fst) h
  simp only [← List.map_take, List.map_map] at ht
  exact ht.symm

theorem stop_of_refused {text : List Char} {s : List Lexeme} {k : Nat} :
    statementsOrStop text s = .error k ↔
      (diagram text s).found = none ∧ (diagram text s).reach = k := by
  cases h : (diagram text s).found with
  | none => simp [statementsOrStop, h]
  | some found => simp [statementsOrStop, h]

/-- The lexemes before the one at which the rule was stopped can be completed. -/
theorem exists_completion (text : List Char) (s : List Lexeme) :
    ∃ z, Significant z ∧ Leaves (diagram text) (s.take (diagram text s).reach ++ z) [] := by
  generalize hk : (diagram text s).reach = k
  have hlen : (s.take k).length = k := by
    rw [List.length_take, ← hk]
    exact Nat.min_eq_left ((reads_diagram text).reach_le s)
  -- it cannot be stopped earlier on them alone: it would have been stopped there on `s`
  have hreach : (diagram text (s.take k)).reach = (s.take k).length := by
    have hle := (reads_diagram text).reach_le (s.take k)
    rcases Nat.lt_or_ge (diagram text (s.take k)).reach k with hlt | hge
    · have h := (inStep_diagram text text _ _ _ (SameTokens.take k s).symm hlt).1
      omega
    · omega
  obtain ⟨z, hz, hleaves⟩ := completes_diagram text _ hreach
  exact ⟨z, hz, by simpa using hleaves [] rfl⟩

/-- Texts and places of lexemes do not decide whether they are a diagram. -/
theorem ok_of_leaves {text text' : List Char} {s s' : List Lexeme}
    (h : Leaves (diagram text) s []) (hs : s'.map face = s.map face) :
    ∃ statements, statementsOfLexemes text' s' = .ok statements := by
  obtain ⟨a, ha⟩ := h
  simp only [run, Option.map_eq_some_iff] at ha
  obtain ⟨⟨_, n⟩, hfound, _⟩ := ha
  have htokens : SameTokens ((diagram text s).reach + 1) s s' := tokens_of_faces (by rw [hs])
  have hmap := (inStep_diagram text text' _ _ _ htokens (Nat.lt_succ_self _)).2
  rw [hfound, Option.map_some, Option.map_eq_some_iff] at hmap
  obtain ⟨⟨statements, _⟩, hb, _⟩ := hmap
  exact ⟨statements, by simp [statementsOfLexemes, statementsOrStop, hb]⟩

/-- The spans of a text are refused at lexeme `k`, or at the end, with the message `m`; this is
reported for the place where lexeme `k` starts, or for the end of the text. -/
structure RefusedAt (text : String) (spans : List Span) (k : Nat) (m : String) : Prop where
  stop : statementsOrStop text.toList (Lexeme.ofSpans text.toList spans) = .error k
  le_length : k ≤ (Lexeme.ofSpans text.toList spans).length
  error : statementsOfSpans text spans = .error (.parseAt m text.toList
    (((Lexeme.ofSpans text.toList spans)[k]?.map Lexeme.offset).getD (Text.byteCount text.toList)))

theorem refusedAt_of_stop {text : String} {spans : List Span} {k : Nat}
    (h : statementsOrStop text.toList (Lexeme.ofSpans text.toList spans) = .error k) :
    RefusedAt text spans k
      (Refusal.ofLexeme? (Lexeme.ofSpans text.toList spans)[k]?).message where
  stop := h
  le_length := by
    rw [← (stop_of_refused.1 h).2]
    exact (reads_diagram _).reach_le _
  error := by simp [statementsOfSpans, statementsOfLexemes, h, refusalError]

/-- The message says no more of a lexeme than its token and its text. -/
theorem message_of_face {l l' : Lexeme} (h : face l = face l') :
    (Refusal.ofLexeme? (some l)).message = (Refusal.ofLexeme? (some l')).message := by
  obtain ⟨ht, hx⟩ := Prod.mk.inj h
  have hdescribe : l.describe = l'.describe := by
    simp only [Lexeme.describe, ht, hx]
  by_cases hraw : l'.token = .rawText
  · rw [Refusal.ofLexeme?, Refusal.ofLexeme?, if_pos (ht.trans hraw), if_pos hraw, hx]
  · rw [Refusal.ofLexeme?, Refusal.ofLexeme?, if_neg (ht ▸ hraw), if_neg hraw]
    exact congrArg ("unexpected " ++ ·) hdescribe

theorem exists_stop {text : List Char} {s : List Lexeme} {e : Error}
    (h : statementsOfLexemes text s = .error e) : ∃ k, statementsOrStop text s = .error k := by
  cases hstop : statementsOrStop text s with
  | ok statements => simp [statementsOfLexemes, hstop] at h
  | error k => exact ⟨k, rfl⟩

theorem refusedAt_of_faces {text other : String} {spans others : List Span} {k : Nat}
    (h : statementsOrStop text.toList (Lexeme.ofSpans text.toList spans) = .error k)
    (hk : k < (faces text spans).length)
    (hfaces : (faces other others).take (k + 1) = (faces text spans).take (k + 1)) :
    RefusedAt other others k
      (Refusal.ofLexeme? (Lexeme.ofSpans text.toList spans)[k]?).message := by
  obtain ⟨hnone, hreach⟩ := stop_of_refused.1 h
  have hstep := inStep_diagram text.toList other.toList _ _ _ (tokens_of_faces hfaces)
    (hreach ▸ Nat.lt_succ_self k)
  rw [hnone, Option.map_none, Option.map_eq_none_iff, hreach] at hstep
  have hrefused := refusedAt_of_stop (stop_of_refused.2 hstep.symm)
  -- the two lexemes have one face, and so one message
  have hface : (faces other others)[k]? = (faces text spans)[k]? := by
    have hget := congrArg (·[k]?) hfaces
    simpa [List.getElem?_take] using hget
  simp only [faces, List.getElem?_map] at hface
  rw [faces, List.length_map] at hk
  rw [List.getElem?_eq_getElem hk, Option.map_some, Option.map_eq_some_iff] at hface
  obtain ⟨l', hl', hface⟩ := hface
  rw [hl', message_of_face hface] at hrefused
  rwa [List.getElem?_eq_getElem hk]

/-- An error points at the first lexeme that cannot be right: what stands before it begins some
diagram, and no diagram begins with it as well. -/
theorem refusal_is_sharp (text : String) (spans : List Span) (e : Error)
    (h : statementsOfSpans text spans = .error e) :
    ∃ k m, RefusedAt text spans k m ∧
      (∃ (other : String) (others : List Span), Placed other.toList others ∧
        (∃ statements, statementsOfSpans other others = .ok statements) ∧
        (faces other others).take k = (faces text spans).take k) ∧
      (k < (faces text spans).length → ∀ (other : String) (others : List Span),
        (faces other others).take (k + 1) = (faces text spans).take (k + 1) →
        RefusedAt other others k m) := by
  obtain ⟨k, hstop⟩ := exists_stop h
  refine ⟨k, _, refusedAt_of_stop hstop, ?_, fun hk other others => refusedAt_of_faces hstop hk⟩
  have hreach := (stop_of_refused.1 hstop).2
  obtain ⟨z, hz, hleaves⟩ := exists_completion text.toList (Lexeme.ofSpans text.toList spans)
  have hle := (reads_diagram text.toList).reach_le (Lexeme.ofSpans text.toList spans)
  rw [hreach] at hleaves hle
  have hsig : Significant ((Lexeme.ofSpans text.toList spans).take k ++ z) := by
    refine Significant.append (fun l hl => ?_) hz
    exact significant_ofSpans _ _ l (List.mem_of_mem_take hl)
  obtain ⟨other, others, hplaced, hfaces⟩ := exists_text hsig
  refine ⟨other, others, hplaced, ok_of_leaves hleaves hfaces, ?_⟩
  rw [hfaces, List.map_append, List.map_take, faces]
  have hlen : (((Lexeme.ofSpans text.toList spans).map face).take k).length = k := by
    rw [List.length_take, List.length_map]
    exact Nat.min_eq_left hle
  exact List.take_left' hlen

/-- A name stands where a line should end. -/
theorem refusal_is_sharp_name :
    ∃ m, RefusedAt "classDiagram A" [⟨.header, 0, 12⟩, ⟨.whitespace, 12, 1⟩, ⟨.word, 13, 1⟩] 1 m ∧
      ∀ (other : String) (others : List Span),
        (faces other others).take 2 = [(.header, "classDiagram"), (.word, "A")] →
        RefusedAt other others 1 m := by
  obtain ⟨k, m, hrefused, _, hothers⟩ := refusal_is_sharp "classDiagram A"
    [⟨.header, 0, 12⟩, ⟨.whitespace, 12, 1⟩, ⟨.word, 13, 1⟩]
    (.parse "unexpected identifier 'A'" 13 ⟨1, 14⟩) rfl
  have hk : 1 = k := Except.error.inj hrefused.stop
  subst hk
  exact ⟨m, hrefused, hothers (by decide)⟩

end ClassDiagram.Grammar
