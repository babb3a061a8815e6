import ClassDiagram.Proofs.Token.Tokenization

/-! # The lines of lexemes

A line feed stands in each line end, once, and in nothing else.  So the line of a lexeme is known
from the tokens before it.

* `count_of_mem_pieces`: the line feeds of a piece;
* `line_placeAt`: the line of an offset, by the line feeds before it;
* `line_ofText`: the line of a lexeme, by the line ends before it.
-/

namespace ClassDiagram

open TokenCatalog Text

/-! ## Line feeds of pieces -/

/-- Whether an entry holds one line feed if it is for line ends, and none if not. -/
def holdsOwnLineFeed (e : CatalogEntry) : Bool :=
  match e.matcher with
  | .literal k => k.count '\n' = if e.token = .newline then 1 else 0
  | .word | .blank | .comment | .quoted => e.token != .newline

theorem holdsOwnLineFeed_classDiagram : classDiagram.all holdsOwnLineFeed = true := by decide

/-- Only a literal covers a line feed. -/
theorem not_mem_of_length {m : Matcher} (hm : ∀ k, m ≠ .literal k) {x v : List Char}
    (h : m.length (x ++ v) = x.length) : '\n' ∉ x := by
  intro hfeed
  obtain ⟨a, b, rfl, -⟩ := List.eq_append_cons_of_mem hfeed
  rw [List.append_assoc, List.cons_append] at h
  cases a with
  | nil =>
    have hzero : m.length ([] ++ '\n' :: (b ++ v)) = 0 := by
      cases m with
      | literal k => exact absurd rfl (hm k)
      | word => rfl
      | blank => rfl
      | comment => rfl
      | quoted => rfl
    rw [hzero] at h
    cases h
  | cons c a =>
    rw [Matcher.length_lineFeed (List.cons_ne_nil c a) (fun k hk => absurd hk (hm k))] at h
    have hle := m.length_le (c :: a)
    rw [h, List.length_append, List.length_cons] at hle
    simp only [List.length_cons] at hle
    omega

/-- A line end has one line feed and any other piece has none. -/
theorem count_of_isCut {t : Token} {x v : List Char} (hx : x ≠ [])
    (h : classDiagram.IsCut t x v) : x.count '\n' = if t = .newline then 1 else 0 := by
  rcases h with hmatch | ⟨rfl, hgap⟩
  · obtain ⟨e, he, rfl, hlength, _⟩ := bestMatch_eq_some (isMatch_iff.1 hmatch)
    have hown := List.all_eq_true.1 holdsOwnLineFeed_classDiagram e he
    have hnone : (∀ k, e.matcher ≠ .literal k) → e.token ≠ .newline →
        x.count '\n' = if e.token = .newline then 1 else 0 := fun hm ht => by
      rw [if_neg ht]
      exact List.count_eq_zero.2 (not_mem_of_length hm hlength)
    rw [holdsOwnLineFeed] at hown
    cases hm : e.matcher with
    | literal k =>
      rw [hm] at hown hlength
      rw [eq_of_length_literal hx hlength]
      simpa using hown
    | word | blank | comment | quoted =>
      rw [hm] at hown
      exact hnone (by simp [hm]) (by simpa using hown)
  · refine List.count_eq_zero.2 fun hfeed => ?_
    obtain ⟨a, b, rfl, -⟩ := List.eq_append_cons_of_mem hfeed
    have hsilent := silent_iff.1 (hgap.1 a ('\n' :: b) rfl (List.cons_ne_nil _ _))
    have hbest : classDiagram.bestMatch ('\n' :: b ++ v) = some (.newline, 1) := rfl
    rw [hbest] at hsilent
    cases hsilent

theorem count_of_mem_pieces (text : List Char) : ∀ p ∈ classDiagram.pieces text,
    p.text.count '\n' = if p.token = .newline then 1 else 0 := by
  generalize hps : classDiagram.pieces text = ps
  induction ps generalizing text with
  | nil => exact nofun
  | cons p ps ih =>
    obtain ⟨-, hp, hcut, hrest⟩ := isCut_of_pieces_eq_cons hps
    exact List.forall_mem_cons.2 ⟨count_of_isCut hp hcut, ih _ hrest⟩

/-! ## Lines -/

theorem line_foldl_after (p : Place) (u : List Char) :
    (u.foldl Place.after p).line = p.line + u.count '\n' := by
  induction u generalizing p with
  | nil => rfl
  | cons c u ih =>
    rw [List.foldl_cons, ih, Place.after]
    by_cases hc : c = '\n'
    · rw [if_pos hc, hc, List.count_cons_self]
      dsimp only
      omega
    · rw [if_neg hc, List.count_cons_of_ne hc]

/-- The line of an offset is one more than the line feeds before it. -/
theorem line_placeAt (u v : List Char) :
    (placeAt (u ++ v) (byteCount u)).line = 1 + u.count '\n' := by
  have h := placeFrom_append Place.start u v 0
  rw [Nat.add_zero, placeFrom_zero] at h
  rw [placeAt, h, line_foldl_after]
  rfl

namespace Lexeme

/-- Where lexeme `k` starts, or where the text ends if there is none. -/
def startOf (lexemes : List Lexeme) (k : Nat) (text : List Char) : Nat :=
  (lexemes[k]?.map Lexeme.offset).getD (byteCount text)

/-- The line of a lexeme among the lexemes of pieces behind `u`. -/
theorem line_ofPieces {ps : List Piece}
    (hps : ∀ p ∈ ps, p.text.count '\n' = if p.token = .newline then 1 else 0) (u : List Char)
    (k : Nat) :
    (placeAt (u ++ ps.flatMap Piece.text)
      (startOf (ofPieces (byteCount u) ps) k (u ++ ps.flatMap Piece.text))).line
      = 1 + u.count '\n'
        + (((ofPieces (byteCount u) ps).take k).map Lexeme.token).count .newline := by
  induction ps generalizing u k with
  | nil =>
    have h := line_placeAt u []
    simpa [startOf, ofPieces] using h
  | cons p ps ih =>
    obtain ⟨hp, hps⟩ := List.forall_mem_cons.1 hps
    have hrest := ih hps (u ++ p.text)
    rw [List.append_assoc, List.count_append, hp, Text.byteCount_append] at hrest
    rw [List.flatMap_cons, ofPieces]
    by_cases htrivia : p.token.isTrivia = true
    · have hne : p.token ≠ .newline := by
        intro heq
        rw [heq] at htrivia
        cases htrivia
      rw [if_pos htrivia, hrest k, if_neg hne]
      rfl
    · rw [if_neg htrivia]
      cases k with
      | zero => exact line_placeAt u _
      | succ k =>
        have hstart : startOf (⟨p.token, String.ofList p.text, byteCount u⟩ ::
            ofPieces (byteCount u + byteCount p.text) ps) (k + 1)
            (u ++ (p.text ++ ps.flatMap Piece.text))
            = startOf (ofPieces (byteCount u + byteCount p.text) ps) k
              (u ++ (p.text ++ ps.flatMap Piece.text)) := rfl
        rw [hstart, hrest k, List.take_succ_cons, List.map_cons, List.count_cons]
        simp only [beq_iff_eq]
        omega

/-- The line of a lexeme of a text is one more than the line ends before it. -/
theorem line_ofText (text : List Char) (k : Nat) :
    (placeAt text (startOf (ofText text) k text)).line
      = 1 + (((ofText text).take k).map Lexeme.token).count .newline := by
  have h := line_ofPieces (count_of_mem_pieces text) [] k
  simpa [flatMap_text_pieces, ofText] using h

end Lexeme

end ClassDiagram
