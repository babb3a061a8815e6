import ClassDiagram.Proofs.Grammar.Syntax
import ClassDiagram.Proofs.Token.Symbols

/-! # Spelling

A text spells a value if it is cut into lexemes that are written for the value.  Whether it is
cut in this way depends on what stands behind it: a word must not go on, a blank must not meet
another blank, and some symbols must not grow.  So each text comes with what may follow it.

* `Spells.append`: one text behind another, if it may follow there;
* `spells_word`, `spells_keyword`, `spells_fixed`, `spells_quoted`: single lexemes;
* `Spells.behindBlank`: a blank adds nothing.
-/

namespace ClassDiagram

open TokenCatalog Grammar

variable {α β : Type}

/-- In front of what is in `F`, the text `x` is cut into pieces of its own, and their lexemes are
written for `a` in `D`, wherever they lie. -/
def Spells (D : Grammar.Language α) (a : α) (x : String) (F : List Char → Prop) : Prop :=
  ∃ ps, (∀ rest, F rest → classDiagram.pieces (x.toList ++ rest) = ps ++ classDiagram.pieces rest) ∧
    ∀ o, D a (Lexeme.ofPieces o ps)

def Anything : List Char → Prop := fun _ => True

def Grammar.Language.both (D : Grammar.Language α) (E : Grammar.Language β) :
    Grammar.Language (α × β) := fun p u =>
  ∃ v w, D p.1 v ∧ E p.2 w ∧ u = v ++ w

def Grammar.Language.verbatim (t : Token) : Grammar.Language String := fun x u =>
  ∃ l : Lexeme, l.token = t ∧ l.text = x ∧ u = [l]

namespace Spells

theorem mono {D : Grammar.Language α} {E : Grammar.Language β} {a : α} {b : β} {x : String}
    {F G : List Char → Prop}
    (h : Spells D a x F) (hD : ∀ u, D a u → E b u) (hG : ∀ rest, G rest → F rest) :
    Spells E b x G := by
  obtain ⟨ps, hps, hwritten⟩ := h
  exact ⟨ps, fun rest hrest => hps rest (hG rest hrest), fun o => hD _ (hwritten o)⟩

/-- The same text for another value, in front of the same. -/
theorem imp {D : Grammar.Language α} {E : Grammar.Language β} {a : α} {b : β} {x : String}
    {F : List Char → Prop}
    (h : Spells D a x F) (hD : ∀ u, D a u → E b u) : Spells E b x F :=
  h.mono hD fun _ hrest => hrest

/-- What may stand in front of anything may stand in front of `F`. -/
theorem always {D : Grammar.Language α} {a : α} {x : String} (h : Spells D a x Anything)
    (F : List Char → Prop) : Spells D a x F :=
  h.mono (fun _ hu => hu) fun _ _ => trivial

theorem append {D : Grammar.Language α} {E : Grammar.Language β} {a : α} {b : β} {x y : String}
    {F G : List Char → Prop} (h : Spells D a x F) (h' : Spells E b y G)
    (hFG : ∀ rest, G rest → F (y.toList ++ rest)) : Spells (D.both E) (a, b) (x ++ y) G := by
  obtain ⟨ps, hps, hD⟩ := h
  obtain ⟨qs, hqs, hE⟩ := h'
  refine ⟨ps ++ qs, fun rest hrest => ?_, fun o => ?_⟩
  · rw [String.toList_append, List.append_assoc, hps _ (hFG rest hrest), hqs rest hrest,
      List.append_assoc]
  · exact ⟨_, _, hD o, hE _, Lexeme.ofPieces_append o ps qs⟩

/-- The empty text. -/
theorem empty {D : Grammar.Language α} {a : α} (h : D a []) : Spells D a "" Anything :=
  ⟨[], fun _ _ => rfl, fun _ => h⟩

/-- A text that is one piece. -/
theorem piece {t : Token} {x : String} {F : List Char → Prop} (ht : t.isTrivia = false)
    (h : ∀ rest, F rest → classDiagram.pieces (x.toList ++ rest)
      = ⟨t, x.toList⟩ :: classDiagram.pieces rest) :
    Spells (Grammar.Language.verbatim t) x x F := by
  refine ⟨[⟨t, x.toList⟩], h, fun o => ⟨⟨t, x, o⟩, rfl, rfl, ?_⟩⟩
  simp [Lexeme.ofPieces, ht]

/-- Blanks in front of a text. -/
theorem behindBlanks {D : Grammar.Language α} {a : α} {x : String} {F : List Char → Prop} (n : Nat)
    (h : Spells D a x F) (hx : ∀ rest, F rest → BlankEnds (x.toList ++ rest)) :
    Spells D a (String.ofList (List.replicate (n + 1) ' ') ++ x) F := by
  obtain ⟨ps, hps, hD⟩ := h
  refine ⟨⟨.whitespace, List.replicate (n + 1) ' '⟩ :: ps, fun rest hrest => ?_, fun o => ?_⟩
  · rw [String.toList_append, String.toList_ofList, List.append_assoc,
      pieces_blanks n (hx rest hrest), hps rest hrest, List.cons_append]
  · exact hD _

theorem behindBlank {D : Grammar.Language α} {a : α} {x : String} {F : List Char → Prop}
    (h : Spells D a x F) (hx : ∀ rest, F rest → BlankEnds (x.toList ++ rest)) :
    Spells D a (" " ++ x) F :=
  behindBlanks 0 h hx

end Spells

/-! ## Single lexemes -/

theorem spells_word {w : String} (h : IsWord w) :
    Spells (Grammar.Language.verbatim .word) w w WordEnds := by
  obtain ⟨hne, hw, ht⟩ := h.spec
  refine .piece rfl fun rest hrest => ?_
  rw [pieces_identifier hne hw hrest, ht]

theorem spells_keyword {t : Token} {k : String} (h : (t, k) ∈ keywords) :
    Spells (Grammar.Language.verbatim t) k k WordEnds := by
  have key : ∀ s ∈ keywords, s.2.toList ≠ [] ∧ wordLength s.2.toList = s.2.toList.length ∧
      wordToken s.2.toList = s.1 ∧ s.1.isTrivia = false := by decide
  obtain ⟨hne, hw, ht, htrivia⟩ := key _ h
  refine .piece htrivia fun rest hrest => ?_
  rw [pieces_identifier hne hw hrest, ht]

theorem spells_fixed {t : Token} {x : String} (h : (t, x) ∈ fixedSymbols) :
    Spells (Grammar.Language.verbatim t) x x Anything := by
  have ht : ∀ s ∈ fixedSymbols, s.1.isTrivia = false := by decide
  exact .piece (ht _ h) fun rest _ => pieces_fixed h rest

theorem spells_openAngle : Spells (Grammar.Language.verbatim .openAngle) "<" "<"
    fun rest => rest.head? ≠ some '<' ∧ rest.head? ≠ some '|' :=
  .piece rfl fun _ hrest => pieces_openAngle hrest.1 hrest.2

theorem spells_minus : Spells (Grammar.Language.verbatim .minus) "-" "-"
    fun rest => rest.head? ≠ some '-' :=
  .piece rfl fun _ hrest => pieces_minus hrest

theorem spells_quoted {text : String} (h : Quotable text.toList) :
    Spells (Grammar.Language.verbatim .quotedString) ("\"" ++ text ++ "\"")
      ("\"" ++ text ++ "\"") Anything := by
  refine .piece rfl fun rest _ => ?_
  have h := pieces_quoted h rest
  simpa using h

/-! ## What may follow -/

def Begins (x : String) (c : Char) : Prop := x.toList.head? = some c

theorem Begins.append {x : String} {c : Char} (h : Begins x c) (y : String) :
    Begins (x ++ y) c := by
  rw [Begins, String.toList_append, List.head?_append, h]
  rfl

theorem Begins.wordEnds {x : String} {c : Char} (h : Begins x c) (hc : isWordChar c = false)
    (hdot : c ≠ '.') (rest : List Char) : WordEnds (x.toList ++ rest) := by
  obtain ⟨cs, hx⟩ := List.head?_eq_some_iff.1 h
  rw [hx]
  exact wordEnds_cons hc hdot _

/-- A word ends in front of a blank. -/
theorem wordEnds_blank (y : String) (rest : List Char) : WordEnds ((" " ++ y).toList ++ rest) :=
  (Begins.append (x := " ") rfl y).wordEnds rfl (by decide) rest

theorem Begins.blankEnds {x : String} {c : Char} (h : Begins x c) (hc : isInlineBlank c = false)
    (rest : List Char) : BlankEnds (x.toList ++ rest) := by
  obtain ⟨cs, hx⟩ := List.head?_eq_some_iff.1 h
  rw [hx]
  exact blankEnds_cons hc _

def BeginsWord (x : String) : Prop := startsWord x.toList = true

theorem BeginsWord.append {x : String} (h : BeginsWord x) (y : String) : BeginsWord (x ++ y) := by
  rw [BeginsWord, String.toList_append]
  exact startsWord_append h _

theorem IsWord.begins {w : String} (h : IsWord w) : BeginsWord w := by
  obtain ⟨hne, hw, _⟩ := h.spec
  unfold BeginsWord
  generalize w.toList = cs at hne hw ⊢
  cases cs with
  | nil => exact absurd rfl hne
  | cons c cs =>
    rw [wordLength] at hw
    by_cases hc : isWordChar c = true
    · exact hc
    · rw [if_neg hc] at hw
      cases hw

theorem Keyword.begins {k : String} (h : Keyword k) : BeginsWord k := by
  simp only [Keyword, List.mem_cons, List.not_mem_nil, or_false] at h
  rcases h with rfl | rfl | rfl | rfl <;> rfl

theorem BeginsWord.head_ne {x : String} (h : BeginsWord x) (rest : List Char) {c : Char}
    (hc : isWordChar c = false) : (x.toList ++ rest).head? ≠ some c := by
  unfold BeginsWord at h
  cases hx : x.toList with
  | nil =>
    rw [hx] at h
    cases h
  | cons d cs =>
    rw [hx] at h
    rw [List.cons_append, List.head?_cons, ne_eq, Option.some_inj]
    rintro rfl
    exact absurd h (by simp [startsWord, hc])

theorem BeginsWord.blankEnds {x : String} (h : BeginsWord x) (rest : List Char) :
    BlankEnds (x.toList ++ rest) := by
  have h1 := h.head_ne rest (c := ' ') rfl
  have h2 := h.head_ne rest (c := '\t') rfl
  have h3 := h.head_ne rest (c := '\r') rfl
  cases hx : x.toList ++ rest with
  | nil => exact blankEnds_nil
  | cons c cs =>
    rw [hx] at h1 h2 h3
    apply blankEnds_cons
    simp only [List.head?_cons, ne_eq, Option.some_inj] at h1 h2 h3
    simp [isInlineBlank, h1, h2, h3]

/-! ## Blanks -/

def blankCodes : List Nat :=
  [0x9, 0xA, 0xB, 0xC, 0xD, 0x20, 0x85, 0xA0, 0x1680, 0x2000, 0x2001, 0x2002, 0x2003, 0x2004,
    0x2005, 0x2006, 0x2007, 0x2008, 0x2009, 0x200A, 0x2028, 0x2029, 0x202F, 0x205F, 0x3000]

theorem toNat_mem_blankCodes {c : Char} (h : Text.isBlank c = true) : c.toNat ∈ blankCodes := by
  simp only [Text.isBlank, Bool.or_eq_true, Bool.and_eq_true, Nat.ble_eq, beq_iff_eq] at h
  simp only [blankCodes, List.mem_cons, List.not_mem_nil, or_false]
  omega

theorem isWordChar_of_isBlank {c : Char} (h : Text.isBlank c = true) : isWordChar c = false := by
  have hall : ∀ n ∈ blankCodes, isWordChar (Char.ofNat n) = false := by decide +kernel
  have hc := hall c.toNat (toNat_mem_blankCodes h)
  rwa [Char.ofNat_toNat] at hc

theorem BeginsWord.not_blank {x : String} (h : BeginsWord x) : Text.isBlankText x = false := by
  unfold BeginsWord at h
  rw [Text.isBlankText]
  cases hx : x.toList with
  | nil =>
    rw [hx] at h
    cases h
  | cons c cs =>
    rw [hx] at h
    have hc : Text.isBlank c = false := by
      cases hblank : Text.isBlank c with
      | false => rfl
      | true =>
        have hword : isWordChar c = true := h
        rw [isWordChar_of_isBlank hblank] at hword
        cases hword
    rw [List.all_cons, hc, Bool.false_and]

end ClassDiagram
