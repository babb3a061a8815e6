import ClassDiagram.Proofs.Grammar.Matching
import ClassDiagram.Proofs.Layout.Canonical
import ClassDiagram.Proofs.Token.Tokenization

/-! # The tokens of a type name

A type name that is read from the lexemes of a text is one text again, without the blanks and
comments that stood in it.  Nothing else of it is lost: its lexemes are those it was read from, and
wherever they stand in a diagram they are read as this type name.

* `symbol_ofText`: a symbol has its own text;
* `IsTypeName.spells`: a type name spells the lexemes that are written for it;
* `typeName_relexed`: the lexemes of a type name, and how they are read.
-/

namespace ClassDiagram

open TokenCatalog Grammar

/-! ## Texts of symbols -/

def typeSymbols : List (Token × String) :=
  [(.comma, ","), (.openAngle, "<"), (.closeAngle, ">"), (.tilde, "~"), (.openBracket, "["),
   (.closeBracket, "]"), (.question, "?")]

/-- A lexeme that looks like its token, also where that is a symbol of type names. -/
structure Lexeme.Faithful (l : Lexeme) : Prop extends l.Genuine where
  symbol : ∀ f ∈ typeSymbols, l.token = f.1 → face l = f

theorem symbol_ofText (text : List Char) :
    ∀ l ∈ Lexeme.ofText text, ∀ f ∈ typeSymbols, l.token = f.1 → face l = f := by
  intro l hl f hf hlf
  obtain ⟨p, hp, ht, htext⟩ := exists_piece_of_mem_ofPieces l hl
  have hraw : ∀ f ∈ typeSymbols, f.1 ≠ .rawText := by decide
  obtain ⟨rest, hbest⟩ := bestMatch_of_mem_pieces p hp (ht ▸ hlf ▸ hraw f hf)
  obtain ⟨e, he, het, hlength, hpos⟩ := bestMatch_eq_some hbest
  have hentry : ∀ e ∈ classDiagram, ∀ f ∈ typeSymbols, e.token = f.1 →
      e.matcher = .literal f.2.toList := by decide
  rw [hentry e he f hf (het.trans (ht.symm.trans hlf))] at hlength
  rw [face, hlf, htext, eq_of_length_literal (List.ne_nil_of_length_pos hpos) hlength,
    String.ofList_toList]

theorem faithful_ofText (text : List Char) : ∀ l ∈ Lexeme.ofText text, l.Faithful := fun l hl =>
  ⟨genuine_ofText text l hl, symbol_ofText text l hl⟩

/-! ## Spelling lexemes -/

/-- The lexemes that look like this, wherever they lie. -/
def Grammar.Language.faces : Grammar.Language (List (Token × String)) := fun fs u => u.map face = fs

theorem Spells.face {t : Token} {x : String} {F : List Char → Prop}
    (h : Spells (Grammar.Language.verbatim t) x x F) :
    Spells Grammar.Language.faces [(t, x)] x F := by
  refine h.imp ?_
  rintro _ ⟨l, rfl, rfl, rfl⟩
  rfl

theorem Spells.behind {fs gs : List (Token × String)} {x y : String} {F G : List Char → Prop}
    (h : Spells Grammar.Language.faces fs x F) (h' : Spells Grammar.Language.faces gs y G)
    (hFG : ∀ rest, G rest → F (y.toList ++ rest)) :
    Spells Grammar.Language.faces (fs ++ gs) (x ++ y) G := by
  refine (h.append h' hFG).imp ?_
  rintro _ ⟨u, v, rfl, rfl, rfl⟩
  exact List.map_append

theorem spells_commas {commas : List Lexeme} (hcommas : ∀ l ∈ commas, l.token = .comma)
    (h : ∀ l ∈ commas, l.Faithful) :
    Spells Grammar.Language.faces (commas.map face) (String.ofList (commas.map fun _ => ','))
      Anything := by
  induction commas with
  | nil => exact .empty rfl
  | cons l commas ih =>
    obtain ⟨hl, hrest⟩ := List.forall_mem_cons.1 h
    obtain ⟨ht, htokens⟩ := List.forall_mem_cons.1 hcommas
    have hcomma := (spells_fixed (t := .comma) (x := ",") (by decide)).face
    have hall := hcomma.behind (ih htokens hrest) fun _ _ => trivial
    rw [List.map_cons, List.map_cons, hl.symbol (.comma, ",") (by decide) ht,
      String.ofList_cons]
    exact hall

namespace Grammar

theorem IsSuffix.spells {x : String} {u : List Lexeme} (h : IsSuffix x u)
    (hu : ∀ l ∈ u, l.Faithful) : Spells Grammar.Language.faces (u.map face) x Anything := by
  cases h with
  | @array o c commas ho hcommas hc =>
    obtain ⟨hopen, hrest⟩ := List.forall_mem_cons.1 hu
    obtain ⟨hall, hclose⟩ := List.forall_mem_append.1 hrest
    have hfirst := (spells_fixed (t := .openBracket) (x := "[") (by decide)).face
    have hlast := (spells_fixed (t := .closeBracket) (x := "]") (by decide)).face
    have h := (hfirst.behind (spells_commas hcommas hall) fun _ _ => trivial).behind hlast
      fun _ _ => trivial
    rw [List.map_cons, List.map_append, List.map_singleton,
      hopen.symbol (.openBracket, "[") (by decide) ho,
      (hclose c (by simp)).symbol (.closeBracket, "]") (by decide) hc]
    exact h
  | @nullable q hq =>
    have h := (spells_fixed (t := .question) (x := "?") (by decide)).face
    rwa [List.map_singleton, (hu q (by simp)).symbol (.question, "?") (by decide) hq]

theorem spells_suffixList {xs : List String} {u : List Lexeme} (h : Many IsSuffix xs u)
    (hu : ∀ l ∈ u, l.Faithful) :
    Spells Grammar.Language.faces (u.map face) (String.join xs) Anything := by
  induction h with
  | nil => exact .empty rfl
  | @cons x xs u v hx _ ih =>
    obtain ⟨hfirst, hrest⟩ := List.forall_mem_append.1 hu
    rw [String.join_cons, List.map_append]
    exact (hx.spells hfirst).behind (ih hrest) fun _ _ => trivial

/-! ## Spelling type names -/

theorem IsTypeArguments.wordEnds {x : String} {u : List Lexeme} (h : IsTypeArguments x u)
    {rest : List Char} (hrest : WordEnds rest) : WordEnds (x.toList ++ rest) := by
  cases h with
  | none => exact hrest
  | @angle _ _ ns _ _ _ _ =>
    have hopen : Begins ("<" ++ ", ".intercalate ns ++ ">") '<' :=
      .append (.append (x := "<") rfl _) _
    exact hopen.wordEnds rfl (by decide) rest
  | @tilde _ _ ns _ _ _ _ =>
    have hopen : Begins ("~" ++ ", ".intercalate ns ++ "~") '~' :=
      .append (.append (x := "~") rfl _) _
    exact hopen.wordEnds rfl (by decide) rest

theorem genuine_of_faithful {u : List Lexeme} (hu : ∀ l ∈ u, l.Faithful) : ∀ l ∈ u, l.Genuine :=
  fun l hl => (hu l hl).toGenuine

theorem IsTypeNames.begins {ns : List String} {u : List Lexeme} (h : IsTypeNames ns u)
    (hu : ∀ l ∈ u, l.Faithful) : BeginsWord (", ".intercalate ns) := by
  obtain ⟨hne, hall⟩ := canonicalTypes_of_isTypeNames h (genuine_of_faithful hu)
  exact begins_intercalate hne fun n hn => (hall n hn).begins

mutual

/-- A type name spells the lexemes that are written for it. -/
theorem IsTypeName.spells {n : String} {u : List Lexeme} (h : IsTypeName n u)
    (hu : ∀ l ∈ u, l.Faithful) : Spells Grammar.Language.faces (u.map face) n WordEnds := by
  match h with
  | @IsTypeName.mk w x xs u v hw harguments hsuffixes =>
    obtain ⟨hword, hrest⟩ := List.forall_mem_cons.1 hu
    obtain ⟨hargs, hsuffix⟩ := List.forall_mem_append.1 hrest
    have hcanonical := yields_suffix.many _ _ hsuffixes (genuine_of_faithful hsuffix)
    have htail := (harguments.spells hargs).behind (spells_suffixList hsuffixes hsuffix)
      fun _ _ => trivial
    have hends : ∀ rest, WordEnds rest → WordEnds ((x ++ String.join xs).toList ++ rest) := by
      intro rest hrest
      rw [String.toList_append, List.append_assoc]
      exact harguments.wordEnds (wordEnds_suffixes hcanonical hrest)
    have hall := (spells_word (hword.word hw)).face.behind (htail.always _) hends
    rw [String.append_assoc, List.map_cons, List.map_append, face, hw]
    exact hall

theorem IsTypeArguments.spells {x : String} {u : List Lexeme} (h : IsTypeArguments x u)
    (hu : ∀ l ∈ u, l.Faithful) : Spells Grammar.Language.faces (u.map face) x Anything := by
  match h with
  | .none => exact .empty rfl
  | @IsTypeArguments.angle o c ns u ho hns hc =>
    obtain ⟨hopen, hrest⟩ := List.forall_mem_cons.1 hu
    obtain ⟨hnames, hclose⟩ := List.forall_mem_append.1 hrest
    have hbegins := hns.begins hnames
    have hlast := (spells_fixed (t := .closeAngle) (x := ">") (by decide)).face
    have hall := (spells_openAngle.face.behind (hns.spells hnames) fun rest _ =>
      ⟨hbegins.head_ne rest rfl, hbegins.head_ne rest rfl⟩).behind hlast fun rest _ =>
        wordEnds_cons rfl (by decide) rest
    rw [List.map_cons, List.map_append, List.map_singleton,
      hopen.symbol (.openAngle, "<") (by decide) ho,
      (hclose c (by simp)).symbol (.closeAngle, ">") (by decide) hc]
    exact hall
  | @IsTypeArguments.tilde o c ns u ho hns hc =>
    obtain ⟨hopen, hrest⟩ := List.forall_mem_cons.1 hu
    obtain ⟨hnames, hclose⟩ := List.forall_mem_append.1 hrest
    have htilde := (spells_fixed (t := .tilde) (x := "~") (by decide)).face
    have hall := (htilde.behind (hns.spells hnames) fun _ _ => trivial).behind htilde fun rest _ =>
      wordEnds_cons rfl (by decide) rest
    rw [List.map_cons, List.map_append, List.map_singleton,
      hopen.symbol (.tilde, "~") (by decide) ho,
      (hclose c (by simp)).symbol (.tilde, "~") (by decide) hc]
    exact hall

theorem IsTypeNames.spells {ns : List String} {u : List Lexeme} (h : IsTypeNames ns u)
    (hu : ∀ l ∈ u, l.Faithful) :
    Spells Grammar.Language.faces (u.map face) (", ".intercalate ns) WordEnds := by
  match h with
  | @IsTypeNames.one n u hn =>
    rw [String.intercalate_singleton]
    exact hn.spells hu
  | @IsTypeNames.more n ns u v c hn hc hns =>
    obtain ⟨hfirst, hrest⟩ := List.forall_mem_append.1 hu
    obtain ⟨hcomma, hothers⟩ := List.forall_mem_cons.1 hrest
    have hbegins := hns.begins hothers
    have hne := (canonicalTypes_of_isTypeNames hns (genuine_of_faithful hothers)).1
    have hbehind : Spells Language.faces ((.comma, ",") :: v.map face)
        (", " ++ ", ".intercalate ns) WordEnds := by
      refine (spells_commaBlank (hns.spells hothers) hbegins).imp ?_
      rintro _ ⟨_, w, ⟨l, ht, hx, rfl⟩, hw, rfl⟩
      simp only [Language.faces, List.singleton_append, List.map_cons, face, ht, hx] at hw ⊢
      rw [hw]
    have hopen : Begins (", " ++ ", ".intercalate ns) ',' := .append (x := ", ") rfl _
    have hall := (hn.spells hfirst).behind hbehind fun rest _ =>
      hopen.wordEnds rfl (by decide) rest
    rw [String.intercalate_cons_of_ne_nil hne, List.map_append, List.map_cons,
      hcomma.symbol (.comma, ",") (by decide) hc, String.append_assoc]
    exact hall

end

/-! ## Reading the lexemes again -/

/-- What may stand behind a type name in a diagram: nothing, a token that ends it, or a name with a
dollar sign or the end of the line behind it. -/
inductive BehindTypeName : List Lexeme → Prop
  | nothing : BehindTypeName []
  | ending {l : Lexeme} {r : List Lexeme} :
      l.token ∈ [Token.colon, .asterisk, .dollar, .openBrace, .inheritsLeft, .inheritsRight,
        .realizesRight, .realizesLeft, .quotedString, .newline] → BehindTypeName (l :: r)
  | name {l : Lexeme} {r : List Lexeme} : l.token = .word ∨ isKeyword l.token = true →
      next r ∈ [none, some .dollar, some .newline] → BehindTypeName (l :: r)

theorem BehindTypeName.stops {rest : List Lexeme} (h : BehindTypeName rest) : Stops rest := by
  cases h with
  | nothing => exact stops_of_next (by simp)
  | @ending l r hl =>
    have hother : ∀ t ∈ [Token.colon, .asterisk, .dollar, .openBrace, .inheritsLeft,
        .inheritsRight, .realizesRight, .realizesLeft, .quotedString, .newline],
        t ∉ [Token.openAngle, .openBracket, .question, .tilde, .word] := by decide
    refine stops_of_next fun t ht hnext => hother _ hl ?_
    rwa [Option.some_inj.1 hnext]
  | @name l r hl hr =>
    have hbehind : ∀ t : Token, t ≠ .dollar → t ≠ .newline → next r ≠ some t := by
      intro t h1 h2 hnext
      simp [hnext, h1, h2] at hr
    rcases hl with hword | hkeyword
    · exact stops_word hword (stops_of_next fun t ht => hbehind t (by rintro rfl; simp at ht)
        (by rintro rfl; simp at ht)) (hbehind _ (by decide) (by decide))
        (hbehind _ (by decide) (by decide))
    · have hother : ∀ t ∈ [Token.openAngle, .openBracket, .question, .tilde, .word],
          isKeyword t = false := by decide
      refine stops_of_next fun t ht hnext => ?_
      rw [Option.some_inj.1 hnext, hother t ht] at hkeyword
      cases hkeyword

/-- Lexemes that look like those of a type name are a type name. -/
theorem IsTypeName.of_faces {n : String} {u v : List Lexeme} (h : IsTypeName n u)
    (huv : v.map face = u.map face) : IsTypeName n v := by
  have halike : Alike fun l l' => face l = face l' :=
    ⟨fun hl => congrArg Prod.fst hl, fun hl _ => congrArg Prod.snd hl⟩
  have hfaces := huv.symm
  rw [← List.forall₂_eq_eq_eq, List.forall₂_map_left_iff, List.forall₂_map_right_iff] at hfaces
  have hrun := run_typeName h (BehindTypeName.stops .nothing)
  rw [List.append_nil] at hrun
  obtain ⟨_, r, rfl, hr, hrun'⟩ := (carries_typeName halike (w := []) (.inl rfl)).some hfaces hrun
  cases hr
  rw [List.append_nil, List.append_nil] at hrun'
  obtain ⟨w, hw, hname⟩ := reads_typeName.run_eq hrun'
  rwa [hw, List.append_nil]

/-- A rule that leaves what stands behind `u` used all of `u`. -/
theorem Reads.found_of_run {α : Type} {p : Rule α} {D : Language α} (hp : Reads p D)
    {u rest : List Lexeme} {a : α} (h : p.run (u ++ rest) = some (a, rest)) :
    (p (u ++ rest)).found = some (a, u.length) := by
  simp only [Rule.run, Option.map_eq_some_iff] at h
  obtain ⟨⟨b, k⟩, hfound, heq⟩ := h
  obtain ⟨rfl, hdrop⟩ := Prod.mk.inj heq
  have hle := (hp.used_le hfound).1
  have hlength := congrArg List.length hdrop
  rw [List.length_drop, List.length_append] at hlength
  rw [List.length_append] at hle
  have hk : k = u.length := by omega
  rw [hfound, hk]

/-- A type name that is read somewhere in a text has the lexemes it was read from, but for their
places.  With anything behind them that may stand behind a type name, such lexemes are read as this
type name again, up to the last of them. -/
theorem typeName_relexed (text : List Char) (before s : List Lexeme) (n : String) (k : Nat)
    (hs : Lexeme.ofText text = before ++ s) (h : (typeName s).found = some (n, k)) :
    k ≤ s.length ∧ (Lexeme.ofText n.toList).map face = (s.take k).map face ∧
      ∀ u, u.map face = (s.take k).map face → ∀ rest, BehindTypeName rest →
        (typeName (u ++ rest)).found = some (n, k) := by
  have hname := reads_typeName.sound h
  have hle := (reads_typeName.used_le h).1
  have hfaithful : ∀ l ∈ s.take k, l.Faithful := fun l hl =>
    faithful_ofText text l (hs ▸ List.mem_append_right _ (List.mem_of_mem_take hl))
  refine ⟨hle, ?_, ?_⟩
  · obtain ⟨ps, hps, hfaces⟩ := hname.spells hfaithful
    have hpieces := hps [] wordEnds_nil
    rw [List.append_nil, pieces, List.append_nil] at hpieces
    rw [Lexeme.ofText, hpieces]
    exact hfaces 0
  · intro u hu rest hrest
    have hlength := congrArg List.length hu
    rw [List.length_map, List.length_map, List.length_take_of_le hle] at hlength
    rw [← hlength]
    exact reads_typeName.found_of_run (run_typeName (hname.of_faces hu) hrest.stops)

/-- Type arguments with blanks in them, the last of which ends in the tilde before the one that
closes them all. -/
theorem typeName_relexed_nested :
    (Lexeme.ofText "Map~K, List~A~~[,]?".toList).map face
        = [(.word, "Map"), (.tilde, "~"), (.word, "K"), (.comma, ","), (.word, "List"),
          (.tilde, "~"), (.word, "A"), (.tilde, "~"), (.tilde, "~"), (.openBracket, "["),
          (.comma, ","), (.closeBracket, "]"), (.question, "?")] ∧
      (typeName (Lexeme.ofText "Map~K, List~A~~[,]?".toList ++
        [⟨.word, "name", 0⟩, ⟨.dollar, "$", 4⟩])).found = some ("Map~K, List~A~~[,]?", 13) := by
  have hfound : (typeName ((Lexeme.ofText "x : Map ~K ,List~ A~ ~[ , ] ? y".toList).drop 2)).found
      = some ("Map~K, List~A~~[,]?", 13) := by decide +kernel
  have hfaces : (((Lexeme.ofText "x : Map ~K ,List~ A~ ~[ , ] ? y".toList).drop 2).take 13).map face
      = [(.word, "Map"), (.tilde, "~"), (.word, "K"), (.comma, ","), (.word, "List"),
        (.tilde, "~"), (.word, "A"), (.tilde, "~"), (.tilde, "~"), (.openBracket, "["),
        (.comma, ","), (.closeBracket, "]"), (.question, "?")] := by decide +kernel
  obtain ⟨-, hlexemes, hread⟩ := typeName_relexed _ _ _ _ _
    (List.take_append_drop 2 (Lexeme.ofText "x : Map ~K ,List~ A~ ~[ , ] ? y".toList)).symm hfound
  exact ⟨hlexemes.trans hfaces, hread _ hlexemes _ (.name (.inl rfl) (by decide))⟩

end Grammar

end ClassDiagram
