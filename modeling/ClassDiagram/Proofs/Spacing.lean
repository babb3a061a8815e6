import ClassDiagram.Proofs.Grammar.Unlabelled
import ClassDiagram.Proofs.Parts
import ClassDiagram.Proofs.Token.Gist
import ClassDiagram.Proofs.Token.LexemeLines

/-! # Layout does not matter

Blanks between tokens, comments at the ends of lines and the way in which line ends are written do
not change what is read of a text: the model is the same, or the text is refused with the same
message in the same line.

* `alike_ofText`: what is seen of a text decides what its lexemes look like;
* `sameReading_of_gist`: so it decides the model, or the refusal;
* `LayoutEdit`: the changes of layout;
* `ofText_layoutEdit`: they do not matter.
-/

namespace ClassDiagram

open Grammar TokenCatalog

/-! ## Lexemes of texts that show the same -/

namespace Lexeme

def look (l : Lexeme) : Token × List Char :=
  if l.token = .newline then (.newline, []) else (l.token, l.text.toList)

theorem map_look_ofPieces (offset : Nat) (ps : List Piece) :
    (ofPieces offset ps).map look = ps.filterMap Piece.sight := by
  induction ps generalizing offset with
  | nil => rfl
  | cons p ps ih =>
    rw [ofPieces, List.filterMap_cons, Piece.sight]
    by_cases htrivia : p.token.isTrivia = true
    · rw [if_pos htrivia, if_pos htrivia, ih]
    · rw [if_neg htrivia, if_neg htrivia, List.map_cons, ih, look, String.toList_ofList]
      by_cases hn : p.token = .newline
      · rw [if_pos hn, if_pos hn]
      · rw [if_neg hn, if_neg hn]

theorem map_look_ofText (t : List Char) : (ofText t).map look = gist t :=
  map_look_ofPieces 0 _

theorem look_of_ne {l : Lexeme} (hn : l.token ≠ .newline) : l.look = (l.token, l.text.toList) :=
  if_neg hn

theorem fst_look (l : Lexeme) : l.look.1 = l.token := by
  by_cases hn : l.token = .newline
  · rw [look, if_pos hn, hn]
  · rw [look_of_ne hn]

theorem token_of_look {l l' : Lexeme} (h : l.look = l'.look) : l.token = l'.token := by
  rw [← fst_look l, ← fst_look l', h]

theorem alike_look : Alike fun l l' => l.look = l'.look where
  token := token_of_look
  text := by
    intro l l' h hn
    have hn' : l'.token ≠ .newline := token_of_look h ▸ hn
    rw [look_of_ne hn, look_of_ne hn'] at h
    exact String.toList_inj.1 (Prod.mk.inj h).2

/-- Texts that show the same have lexemes that look alike. -/
theorem alike_ofText {t t' : List Char} (h : gist t = gist t') :
    List.Forall₂ (fun l l' => look l = look l') (ofText t) (ofText t') := by
  rw [← map_look_ofText, ← map_look_ofText, ← List.forall₂_eq_eq_eq, List.forall₂_map_left_iff,
    List.forall₂_map_right_iff] at h
  exact h

/-- The message says no more of a lexeme than is seen of it. -/
theorem message_of_look {o o' : Option Lexeme} (h : o.map look = o'.map look) :
    (Refusal.ofLexeme? o).message = (Refusal.ofLexeme? o').message := by
  match o, o', h with
  | none, none, _ => rfl
  | some l, some l', h =>
    have hl : l.look = l'.look := Option.some.inj h
    have ht := token_of_look hl
    by_cases hn : l.token = .newline
    · have hn' : l'.token = .newline := ht ▸ hn
      have hdescribe : l.describe = l'.describe := by rw [describe, describe, hn, hn']
      rw [Refusal.ofLexeme?, Refusal.ofLexeme?, if_neg (by rw [hn]; decide),
        if_neg (by rw [hn']; decide)]
      exact congrArg ("unexpected " ++ ·) hdescribe
    · have hx : l.text = l'.text := alike_look.text hl hn
      have hface : face l = face l' := by rw [face, face, ht, hx]
      exact message_of_face hface

end Lexeme

/-- Both texts make the same model, or both are refused with the same message in the same line. -/
def SameReading (r r' : Except Error Model) : Prop :=
  (∃ m, r = .ok m ∧ r' = .ok m) ∨
    ∃ message offset offset' place place', r = .error (.parse message offset place) ∧
      r' = .error (.parse message offset' place') ∧ place.line = place'.line

theorem refusalError_eq (t : List Char) (k : Nat) :
    refusalError t (Lexeme.ofText t) k
      = .parse (Refusal.ofLexeme? (Lexeme.ofText t)[k]?).message
        (Lexeme.startOf (Lexeme.ofText t) k t)
        (Text.placeAt t (Lexeme.startOf (Lexeme.ofText t) k t)) := rfl

/-- Where texts show the same, a refusal of the same lexeme has the same message and line. -/
theorem refusal_of_gist {t t' : List Char} (h : gist t = gist t') (k : Nat) :
    (Refusal.ofLexeme? (Lexeme.ofText t)[k]?).message
        = (Refusal.ofLexeme? (Lexeme.ofText t')[k]?).message ∧
      (Text.placeAt t (Lexeme.startOf (Lexeme.ofText t) k t)).line
        = (Text.placeAt t' (Lexeme.startOf (Lexeme.ofText t') k t')).line := by
  constructor
  · apply Lexeme.message_of_look
    rw [← List.getElem?_map, ← List.getElem?_map, Lexeme.map_look_ofText, Lexeme.map_look_ofText, h]
  · have htokens := map_token_eq Lexeme.alike_look (Lexeme.alike_ofText h)
    rw [Lexeme.line_ofText, Lexeme.line_ofText, List.map_take, List.map_take, htokens]

/-- What is seen of a text decides how it is read. -/
theorem sameReading_of_gist {t t' : String} (h : gist t.toList = gist t'.toList) :
    SameReading (Model.ofText t) (Model.ofText t') := by
  rcases statementsOrStop_alike Lexeme.alike_look t.toList t'.toList
    (Lexeme.alike_ofText h) with ⟨ss, ss', hread, hread', hsame⟩ | ⟨k, hstop, hstop'⟩
  · have hss : statementsOfText t = .ok ss := by
      rw [statementsOfText, statementsOfLexemes, hread]
    have hss' : statementsOfText t' = .ok ss' := by
      rw [statementsOfText, statementsOfLexemes, hread']
    have hmodel : Model.ofText t = Model.ofText t' := by
      simp only [Model.ofText, hss, hss', Model.ofStatements_unlabelled hsame]
    have haccepted := (ofText_of_statementsOfText hss).2
    exact .inl ⟨_, haccepted, hmodel ▸ haccepted⟩
  · obtain ⟨hmessage, hline⟩ := refusal_of_gist h k
    have herror : statementsOfText t
        = .error (refusalError t.toList (Lexeme.ofText t.toList) k) := by
      rw [statementsOfText, statementsOfLexemes, hstop]
    have herror' : statementsOfText t'
        = .error (refusalError t'.toList (Lexeme.ofText t'.toList) k) := by
      rw [statementsOfText, statementsOfLexemes, hstop']
    rw [refusalError_eq, hmessage] at herror
    rw [refusalError_eq] at herror'
    exact .inr ⟨_, _, _, _, _, ofText_of_error herror, ofText_of_error herror', hline⟩

/-! ## Changes of layout -/

/-- At the place between `u` and `v` the text ends, or there starts a token of it that is in `p`. -/
def TokenAt (p : Token → Prop) (u v : List Char) : Prop :=
  v = [] ∨ ∃ s ∈ classDiagram.tokenize (u ++ v), s.offset = Text.byteCount u ∧ p s.token

inductive LayoutEdit : List Char → List Char → Prop
  /-- Spaces and tabs between two tokens, or before the first or behind the last one. -/
  | blanks {u v x : List Char} (hat : TokenAt (fun _ => True) u v)
      (hx : ∀ c ∈ x, c = ' ' ∨ c = '\t') : LayoutEdit (u ++ v) (u ++ (x ++ v))
  /-- A space and a comment before a line end, or at the end of the text. -/
  | comment {u v body : List Char} (hat : TokenAt (· = .newline) u v) (hbody : Quotable body) :
      LayoutEdit (u ++ v) (u ++ (' ' :: '%' :: '%' :: body ++ v))
  /-- A carriage return before each line feed that has none. -/
  | lineEnds (t : List Char) : LayoutEdit t (addReturns false t)

theorem exists_pieces_of_mem_spansFrom {offset : Nat} {ps : List Piece} :
    ∀ s ∈ spansFrom offset ps, ∃ before p after, ps = before ++ p :: after ∧ s.token = p.token ∧
      s.offset = offset + Text.byteCount (before.flatMap Piece.text) := by
  induction ps generalizing offset with
  | nil => exact nofun
  | cons p ps ih =>
    refine List.forall_mem_cons.2 ⟨⟨[], p, ps, rfl, rfl, rfl⟩, fun s hs => ?_⟩
    obtain ⟨before, q, after, rfl, ht, hoffset⟩ := ih s hs
    refine ⟨p :: before, q, after, rfl, ht, ?_⟩
    rw [hoffset, List.flatMap_cons, Text.byteCount_append, Nat.add_assoc]

theorem exists_pieces_of_tokenAt {p : Token → Prop} {u v : List Char} (h : TokenAt p u v) :
    ∃ ps qs : List Piece, u = ps.flatMap Piece.text ∧ v = qs.flatMap Piece.text ∧
      classDiagram.pieces (u ++ v) = ps ++ qs ∧ ∀ q ∈ qs.head?, p q.token := by
  rcases h with rfl | ⟨s, hs, hoffset, hp⟩
  · refine ⟨classDiagram.pieces u, [], (flatMap_text_pieces _ u).symm, rfl, ?_, nofun⟩
    rw [List.append_nil, List.append_nil]
  · obtain ⟨before, q, after, hpieces, ht, hstart⟩ := exists_pieces_of_mem_spansFrom s hs
    have htext := flatMap_text_pieces classDiagram (u ++ v)
    rw [hpieces, List.flatMap_append] at htext
    rw [hoffset, Nat.zero_add] at hstart
    obtain ⟨hu, hv⟩ := Text.append_inj_of_byteCount hstart htext.symm
    exact ⟨before, q :: after, hu, hv, hpieces, fun q' hq' => by
      rw [← Option.some.inj hq', ← ht]
      exact hp⟩

/-- A change of layout is not seen. -/
theorem gist_layoutEdit {t t' : List Char} (h : LayoutEdit t t') : gist t = gist t' := by
  cases h with
  | blanks hat hx =>
    obtain ⟨ps, qs, rfl, rfl, hpieces, -⟩ := exists_pieces_of_tokenAt hat
    exact (gist_putBlanks hx hpieces).symm
  | comment hat hbody =>
    obtain ⟨ps, qs, rfl, rfl, hpieces, hend⟩ := exists_pieces_of_tokenAt hat
    exact (gist_putComment hbody hpieces hend).symm
  | lineEnds t => exact (gist_addReturns false t).symm

/-- Layout does not matter: a change of it leaves the model as it is, or the message and the line
of the refusal. -/
theorem ofText_layoutEdit (t t' : String) (h : LayoutEdit t.toList t'.toList) :
    SameReading (Model.ofText t) (Model.ofText t') :=
  sameReading_of_gist (gist_layoutEdit h)

def labelled : String := "classDiagram\nA <|-- B : some kind"

def spacedLabel : String := "classDiagram\nA <|-- B : some\t  kind"

def unfinished : String := "classDiagram\nclass"

def unfinishedReturns : String := "classDiagram\r\nclass"

/-- The labels differ and the models do not; the refusal is in the second line both times. -/
theorem ofText_layoutEdit_labelled :
    statementsOfText labelled ≠ statementsOfText spacedLabel ∧
      (∃ m, Model.ofText labelled = .ok m ∧ Model.ofText spacedLabel = .ok m) ∧
      ∃ offset offset' place place',
        Model.ofText unfinished = .error (.parse "unexpected end of input" offset place) ∧
          Model.ofText unfinishedReturns
            = .error (.parse "unexpected end of input" offset' place') ∧
          place.line = 2 ∧ place'.line = 2 := by
  have hblanks : LayoutEdit labelled.toList spacedLabel.toList :=
    .blanks (u := "classDiagram\nA <|-- B : some".toList) (v := " kind".toList) (x := ['\t', ' '])
      (.inr ⟨⟨.whitespace, 28, 1⟩, by decide +kernel, by decide, trivial⟩) (by simp)
  have hreturns : LayoutEdit unfinished.toList unfinishedReturns.toList := .lineEnds _
  have hlabelled : (Model.ofText labelled).toOption.isSome = true := by decide +kernel
  have hunfinished : Model.ofText unfinished
      = .error (.parse "unexpected end of input" 18 ⟨2, 6⟩) := by decide +kernel
  refine ⟨fun h => absurd (congrArg Except.toOption h) (by decide +kernel), ?_, ?_⟩
  · rcases ofText_layoutEdit labelled spacedLabel hblanks with hm | ⟨_, _, _, _, _, herror, _⟩
    · exact hm
    · rw [herror] at hlabelled
      cases hlabelled
  · rcases ofText_layoutEdit unfinished unfinishedReturns hreturns with
      ⟨m, hm, _⟩ | ⟨message, offset, offset', place, place', herror, herror', hline⟩
    · rw [hunfinished] at hm
      cases hm
    · rw [hunfinished] at herror
      cases herror
      exact ⟨_, offset', _, place', hunfinished, herror', rfl, hline.symm⟩

end ClassDiagram
