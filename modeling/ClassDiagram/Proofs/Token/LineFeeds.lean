import ClassDiagram.Lexeme
import ClassDiagram.Proofs.Token.Symbols

/-! # Tokens at line feeds

No token goes on behind a line feed, and what is cut off before one does not depend on it.  The
only exception is a carriage return of its own right before it, which is one line end with it.  So
a text of two parts with a line feed between them is cut into the pieces of both.

* `Matcher.length_lineFeed`: what a matcher covers in front of a line feed;
* `pieces_lineFeed`: pieces on either side of a line feed;
* `Lexeme.ofText_lineFeed`: lexemes on either side of a line feed.
-/

namespace ClassDiagram

open TokenCatalog

/-! ## Matchers -/

theorem takeWhile_lineFeed {p : Char → Bool} (hp : p '\n' = false) (s b : List Char) :
    (s ++ '\n' :: b).takeWhile p = s.takeWhile p := by
  induction s with
  | nil => simp [hp]
  | cons c s ih => rw [List.cons_append, List.takeWhile_cons, List.takeWhile_cons, ih]

theorem commentLength_lineFeed {s : List Char} (hs : s ≠ []) (b : List Char) :
    commentLength (s ++ '\n' :: b) = commentLength s := by
  obtain ⟨c, s, rfl⟩ := List.exists_cons_of_ne_nil hs
  by_cases hc : c = '%'
  · subst hc
    cases s with
    | nil => rfl
    | cons d s =>
      by_cases hd : d = '%'
      · subst hd
        simp only [List.cons_append, commentLength, takeWhile_lineFeed (p := (· != '\n')) rfl]
      · simp [commentLength, hd]
  · simp [commentLength, hc]

theorem quotedLength_lineFeed {s : List Char} (hs : s ≠ []) (b : List Char) :
    quotedLength (s ++ '\n' :: b) = quotedLength s := by
  have hends : ¬ EndsQuotation ('\n' :: b) := nofun
  have h := quotedLength_append_congr (v := []) hs (by simpa using quotedLength_le s)
    fun h => absurd h hends
  rwa [List.append_nil] at h

/-- A literal that is no longer than `s` is found in front of anything or nowhere. -/
theorem isPrefixOf_alone {k s v : List Char} (h : k <+: s ++ v → k.length ≤ s.length) :
    k.isPrefixOf s = k.isPrefixOf (s ++ v) := by
  rw [Bool.eq_iff_iff, List.isPrefixOf_iff_prefix, List.isPrefixOf_iff_prefix]
  exact ⟨fun hk => hk.trans (List.prefix_append s v),
    fun hk => List.prefix_of_prefix_length_le hk (List.prefix_append s v) (h hk)⟩

/-- A literal that does not hold the character behind `s` ends before it. -/
theorem length_le_of_prefix_stops {k s text : List Char} {c : Char} (hk : ¬ s ++ [c] <+: k)
    (hs : s ++ [c] <+: text) (h : k <+: text) : k.length ≤ s.length := by
  rcases List.prefix_or_prefix_of_prefix h hs with hshort | hlong
  · rcases List.prefix_concat_iff.1 hshort with heq | hshort
    · exact absurd (heq ▸ List.prefix_rfl) hk
    · exact hshort.length_le
  · exact absurd hlong hk

/-- What a matcher covers of a text that is not empty does not depend on a line feed behind it,
unless it is a literal that holds this line feed. -/
theorem Matcher.length_lineFeed {m : Matcher} {s : List Char} (hs : s ≠ [])
    (hm : ∀ k, m = .literal k → ¬ s ++ ['\n'] <+: k) (b : List Char) :
    m.length (s ++ '\n' :: b) = m.length s := by
  cases m with
  | literal k =>
    have hfeed : s ++ ['\n'] <+: s ++ '\n' :: b := ⟨b, by simp⟩
    rw [length, length, isPrefixOf_alone (length_le_of_prefix_stops (hm k rfl) hfeed)]
  | word => exact wordLength_append hs (wordEnds_cons rfl (by decide) b)
  | blank => exact congrArg List.length (takeWhile_lineFeed rfl s b)
  | comment => exact commentLength_lineFeed hs b
  | quoted => exact quotedLength_lineFeed hs b

/-! ## Pieces -/

namespace TokenCatalog

theorem bestMatch_congr {catalog : TokenCatalog} {s t : List Char}
    (h : ∀ e ∈ catalog, e.matcher.length s = e.matcher.length t) :
    catalog.bestMatch s = catalog.bestMatch t := by
  have key : ∀ best, catalog.foldl (prefer s) best = catalog.foldl (prefer t) best := by
    induction catalog with
    | nil => exact fun _ => rfl
    | cons e es ih =>
      obtain ⟨he, hes⟩ := List.forall_mem_cons.1 h
      intro best
      have hprefer : prefer s best e = prefer t best e := by simp only [prefer, he]
      rw [List.foldl_cons, List.foldl_cons, hprefer, ih hes]
  exact key none

def holdsLineFeed : Matcher → Bool
  | .literal k => k.contains '\n'
  | .word | .blank | .comment | .quoted => false

theorem filter_holdsLineFeed : classDiagram.filter (holdsLineFeed ·.matcher)
    = [literalEntry .newline "\n", literalEntry .newline "\r\n"] := by decide

/-- A token that goes on to a line feed is a line end: there is at most a carriage return before. -/
theorem eq_of_holdsLineFeed {e : CatalogEntry} (he : e ∈ classDiagram) {k s : List Char}
    (hk : e.matcher = .literal k) (hs : s ++ ['\n'] <+: k) : s = [] ∨ s = ['\r'] := by
  have hfeed : '\n' ∈ k := hs.subset (by simp)
  have hmem : e ∈ classDiagram.filter (holdsLineFeed ·.matcher) :=
    List.mem_filter.2 ⟨he, by simpa [hk, holdsLineFeed] using hfeed⟩
  rw [filter_holdsLineFeed] at hmem
  simp only [List.mem_cons, List.not_mem_nil, or_false] at hmem
  rcases hmem with rfl | rfl
  · cases hk
    have hlength := hs.length_le
    exact .inl (by simpa using hlength)
  · cases hk
    change s ++ ['\n'] <+: ['\r', '\n'] at hs
    cases s with
    | nil => exact .inl rfl
    | cons c s =>
      obtain ⟨rfl, hs⟩ := List.cons_prefix_cons.1 hs
      have hlength := hs.length_le
      have hnil : s = [] := by simpa using hlength
      exact .inr (congrArg _ hnil)

theorem bestMatch_lineFeed {s : List Char} (hs : s ≠ []) (hr : s ≠ ['\r']) (b : List Char) :
    classDiagram.bestMatch (s ++ '\n' :: b) = classDiagram.bestMatch s :=
  bestMatch_congr fun _ he => Matcher.length_lineFeed hs
    (fun _ hk hprefix => (eq_of_holdsLineFeed he hk hprefix).elim hs hr) b

theorem rawLength_lineFeed (s b : List Char) :
    classDiagram.rawLength (s ++ '\n' :: b) = classDiagram.rawLength s := by
  induction s with
  | nil => rfl
  | cons c s ih =>
    by_cases hr : c :: s = ['\r']
    · cases hr
      rfl
    · rw [List.cons_append, rawLength, rawLength, ih, ← List.cons_append,
        bestMatch_lineFeed (List.cons_ne_nil c s) hr]

theorem rawLength_le (catalog : TokenCatalog) (s : List Char) : catalog.rawLength s ≤ s.length := by
  induction s with
  | nil => exact Nat.le_refl 0
  | cons c s ih =>
    rw [rawLength, List.length_cons]
    split
    · exact Nat.zero_le _
    · exact Nat.succ_le_succ ih

/-- The first piece of a text in front of a line feed, unless it is a carriage return alone. -/
theorem nextPiece_lineFeed {c : Char} {s : List Char} (hr : c :: s ≠ ['\r']) (b : List Char) :
    classDiagram.nextPiece c (s ++ '\n' :: b) = classDiagram.nextPiece c s := by
  rw [nextPiece, nextPiece, ← List.cons_append, bestMatch_lineFeed (List.cons_ne_nil c s) hr,
    rawLength_lineFeed]

theorem nextPiece_le (catalog : TokenCatalog) (c : Char) (s : List Char) :
    (catalog.nextPiece c s).2 ≤ s.length := by
  rw [nextPiece]
  cases hbest : catalog.bestMatch (c :: s) with
  | none => exact catalog.rawLength_le s
  | some best =>
    obtain ⟨t, n⟩ := best
    obtain ⟨e, _, _, hn, _⟩ := bestMatch_eq_some hbest
    have hle := e.matcher.length_le (c :: s)
    rw [hn, List.length_cons] at hle
    exact Nat.sub_le_of_le_add hle

theorem pieces_carriageReturn : classDiagram.pieces ['\r'] = [⟨.whitespace, ['\r']⟩] := by
  have hpieces : classDiagram.pieces (['\r'] ++ [])
      = ⟨.whitespace, ['\r']⟩ :: classDiagram.pieces [] := pieces_of_bestMatch (by simp) rfl
  rwa [List.append_nil, pieces] at hpieces

/-- A text in front of a line feed is cut as it is alone, but for a carriage return at its end,
which is cut off together with the line feed. -/
theorem pieces_lineFeed (s : List Char) : ∃ ps blanks : List Piece,
    classDiagram.pieces s = ps ++ blanks ∧ (∀ p ∈ blanks, p.token = .whitespace) ∧
      ∀ b, classDiagram.pieces (s ++ '\n' :: b)
        = ps ++ ⟨.newline, blanks.flatMap Piece.text ++ ['\n']⟩ :: classDiagram.pieces b := by
  fun_induction pieces classDiagram s with
  | case1 =>
    have hfixed : (Token.newline, "\n") ∈ fixedSymbols := by decide
    exact ⟨[], [], rfl, List.forall_mem_nil _, fun b => pieces_fixed hfixed b⟩
  | case2 c s t n hnext ih =>
    by_cases hr : c :: s = ['\r']
    · cases hr
      cases hnext
      refine ⟨[], [⟨.whitespace, ['\r']⟩], ?_, by simp, fun b => ?_⟩
      · rw [← pieces_carriageReturn, pieces_cons]
        rfl
      · exact pieces_of_bestMatch (u := ['\r', '\n']) (by simp) rfl
    · obtain ⟨ps, blanks, hps, hblank, hrest⟩ := ih
      refine ⟨⟨t, c :: s.take n⟩ :: ps, blanks, by rw [hps, List.cons_append], hblank, fun b => ?_⟩
      have hn : n ≤ s.length := by
        have hle := nextPiece_le classDiagram c s
        rwa [hnext] at hle
      rw [List.cons_append, pieces_cons, nextPiece_lineFeed hr, hnext,
        List.take_append_of_le_length hn, List.drop_append_of_le_length hn, hrest, List.cons_append]

end TokenCatalog

/-! ## Lexemes -/

namespace Lexeme

/-- The lexeme in a text that has `n` bytes more before it. -/
def shift (n : Nat) (l : Lexeme) : Lexeme := { l with offset := n + l.offset }

theorem stop_shift (n : Nat) (l : Lexeme) : (l.shift n).stop = n + l.stop :=
  Nat.add_assoc n l.offset _

theorem ofPieces_add (n offset : Nat) (ps : List Piece) :
    ofPieces (n + offset) ps = (ofPieces offset ps).map (shift n) := by
  induction ps generalizing offset with
  | nil => rfl
  | cons p ps ih =>
    rw [ofPieces, ofPieces, Nat.add_assoc, ih]
    by_cases h : p.token.isTrivia = true
    · rw [if_pos h, if_pos h]
    · rw [if_neg h, if_neg h, List.map_cons]
      rfl

/-- No lexeme ends behind the pieces. -/
theorem stop_le_of_mem_ofPieces {offset : Nat} {ps : List Piece} :
    ∀ l ∈ ofPieces offset ps, l.stop ≤ offset + Text.byteCount (ps.flatMap Piece.text) := by
  induction ps generalizing offset with
  | nil => exact nofun
  | cons p ps ih =>
    intro l hl
    have hbytes : Text.byteCount ((p :: ps).flatMap Piece.text)
        = Text.byteCount p.text + Text.byteCount (ps.flatMap Piece.text) := by
      rw [List.flatMap_cons, Text.byteCount_append]
    rw [ofPieces] at hl
    split at hl
    · have hle := ih l hl
      omega
    · rcases List.mem_cons.1 hl with rfl | hl
      · have hstop : (⟨p.token, String.ofList p.text, offset⟩ : Lexeme).stop
            = offset + Text.byteCount p.text := congrArg _ (Text.utf8ByteSize_ofList p.text)
        omega
      · have hle := ih l hl
        omega

theorem stop_le_of_mem_ofText {text : List Char} :
    ∀ l ∈ ofText text, l.stop ≤ Text.byteCount text := by
  intro l hl
  have hle := stop_le_of_mem_ofPieces l hl
  rwa [flatMap_text_pieces, Nat.zero_add] at hle

theorem ofPieces_of_trivia {offset : Nat} {ps : List Piece}
    (h : ∀ p ∈ ps, p.token.isTrivia = true) : ofPieces offset ps = [] := by
  induction ps generalizing offset with
  | nil => rfl
  | cons p ps ih =>
    obtain ⟨hp, hps⟩ := List.forall_mem_cons.1 h
    rw [ofPieces, if_pos hp, ih hps]

/-- A text of two parts with a line feed between them has the lexemes of both, with a line end
between them that goes up to the second part. -/
theorem ofText_lineFeed (s b : List Char) : ∃ l : Lexeme, l.token = .newline ∧
    l.stop = Text.byteCount s + 1 ∧
    ofText (s ++ '\n' :: b) = ofText s ++ l :: (ofText b).map (shift (Text.byteCount s + 1)) := by
  obtain ⟨ps, blanks, hps, hblank, hrest⟩ := pieces_lineFeed s
  have htrivia : ∀ p ∈ blanks, p.token.isTrivia = true := fun p hp => by rw [hblank p hp]; rfl
  have hbytes : Text.byteCount s
      = Text.byteCount (ps.flatMap Piece.text) + Text.byteCount (blanks.flatMap Piece.text) := by
    rw [← Text.byteCount_append, ← List.flatMap_append, ← hps, flatMap_text_pieces]
  have hfeed : Text.byteCount ['\n'] = 1 := rfl
  have hend : ∀ (x : List Char) (o : Nat) (qs : List Piece), ofPieces o (⟨.newline, x⟩ :: qs)
      = ⟨.newline, String.ofList x, o⟩ :: ofPieces (o + Text.byteCount x) qs := fun _ _ _ => rfl
  refine ⟨⟨.newline, String.ofList (blanks.flatMap Piece.text ++ ['\n']),
    Text.byteCount (ps.flatMap Piece.text)⟩, rfl, ?_, ?_⟩
  · rw [stop, Text.utf8ByteSize_ofList, Text.byteCount_append, hfeed, ← Nat.add_assoc, ← hbytes]
  · rw [ofText, ofText, ofText, hrest, hps, ofPieces_append, ofPieces_append,
      ofPieces_of_trivia htrivia, List.append_nil, Nat.zero_add, hend, Text.byteCount_append,
      hfeed, ← Nat.add_assoc, ← hbytes]
    exact congrArg _ (congrArg _ (ofPieces_add _ 0 _))

end Lexeme

end ClassDiagram
