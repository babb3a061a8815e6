import ClassDiagram.Proofs.Grammar.Syntax

/-! # What the rules find is in the grammar

Every rule reads the language of its production.  So it finds phrases of the grammar only, and
where it is stopped by the end of the lexemes, these are the beginning of a phrase.  Of the rules
for blocks this holds without line ends between the items, since the rules ask for none.

* `reads_typeName`: type names, by induction on how deep the arguments nest;
* `reads_member`, `reads_statement`: members and statements;
* `reads_diagram`: whole diagrams.
-/

namespace ClassDiagram.Grammar

open Rule

/-! ## Names and type names -/

theorem reads_word : Reads word fun n u => ∃ w, w.token = .word ∧ n = w.text ∧ u = [w] := by
  refine (Reads.bind (Reads.token rfl) fun w => .pure w.text).mono ?_
  rintro n u ⟨w, _, _, ⟨hw, rfl⟩, ⟨rfl, rfl⟩, rfl⟩
  exact ⟨w, by simpa using hw, rfl, rfl⟩

theorem reads_keyword :
    Reads keyword fun n u => ∃ k, isKeyword k.token = true ∧ n = k.text ∧ u = [k] := by
  refine (Reads.bind (.orElse (.token rfl) (.orElse (.token rfl) (.orElse (.token rfl)
    (.token rfl)))) fun k => .pure k.text).mono ?_
  rintro n u ⟨k, _, _, ⟨hk, rfl⟩ | ⟨hk, rfl⟩ | ⟨hk, rfl⟩ | ⟨hk, rfl⟩, ⟨rfl, rfl⟩, rfl⟩ <;>
    exact ⟨k, by simp [isKeyword, beq_iff_eq.1 hk], rfl, rfl⟩

theorem reads_name : Reads name IsName := by
  refine (reads_word.orElse reads_keyword).mono ?_
  rintro n u (⟨w, hw, rfl, rfl⟩ | ⟨k, hk, rfl, rfl⟩)
  · exact .word hw
  · exact .keyword hk

theorem reads_newline : Reads (token .newline) fun l u => l.token = .newline ∧ u = [l] :=
  (Reads.token rfl).mono fun _ _ ⟨hl, hu⟩ => ⟨by simpa using hl, hu⟩

theorem Many.eq_of_single {P : Lexeme → Prop} {as u : List Lexeme}
    (h : Many (fun l u => P l ∧ u = [l]) as u) : u = as ∧ ∀ l ∈ as, P l := by
  induction h with
  | nil => exact ⟨rfl, by simp⟩
  | cons hl _ ih =>
    obtain ⟨hP, rfl⟩ := hl
    obtain ⟨rfl, hall⟩ := ih
    refine ⟨rfl, ?_⟩
    intro l hl
    rcases List.mem_cons.1 hl with rfl | hl
    · exact hP
    · exact hall l hl

theorem reads_blankLines : Reads blankLines fun as u => u = as ∧ Newlines as :=
  (Reads.many reads_newline).mono fun _ _ h => h.eq_of_single

theorem reads_flag {t : Token} (ht : t.isTrivia = false) : Reads (flag t) (IsFlag t) := by
  refine (Reads.flag ht).mono ?_
  rintro b u (⟨rfl, l, hl, rfl⟩ | ⟨rfl, rfl⟩)
  · exact .present hl
  · exact .absent

theorem reads_arraySuffix : Reads arraySuffix IsSuffix := by
  have commas : Reads (many (token .comma)) fun as u => u = as ∧ ∀ l ∈ as, l.token = .comma :=
    (Reads.many ((Reads.token rfl).mono fun _ _ ⟨hl, hu⟩ => ⟨beq_iff_eq.1 hl, hu⟩)).mono
      fun _ _ h => h.eq_of_single
  refine (Reads.bind (Reads.between commas rfl rfl) fun _ => .pure _).mono ?_
  rintro s u ⟨as, _, _, ⟨o, v, c, ho, ⟨rfl, hall⟩, hc, rfl⟩, ⟨rfl, rfl⟩, rfl⟩
  simpa using IsSuffix.array ho hall hc

theorem reads_nullableSuffix : Reads nullableSuffix IsSuffix := by
  refine (Reads.bind (Reads.token rfl) fun _ => .pure "?").mono ?_
  rintro s u ⟨q, _, _, ⟨hq, rfl⟩, ⟨rfl, rfl⟩, rfl⟩
  exact .nullable (beq_iff_eq.1 hq)

theorem isTypeNames_of_separated {names : List String} {u : List Lexeme}
    (h : Separated IsTypeName .comma names u) : IsTypeNames names u := by
  induction h with
  | one h => exact .one h
  | more h hc _ ih => exact .more h hc ih

theorem reads_angleArguments {p : Rule String} (hp : Reads p IsTypeName) :
    Reads (angleArguments p) IsTypeArguments := by
  refine (Reads.bind (Reads.between (Reads.sepBy1 hp rfl) rfl rfl) fun _ => .pure _).mono ?_
  rintro a u ⟨ns, _, _, ⟨o, v, c, ho, hns, hc, rfl⟩, ⟨rfl, rfl⟩, rfl⟩
  simpa using IsTypeArguments.angle ho (isTypeNames_of_separated hns) hc

theorem reads_tildeArguments {p : Rule String} (hp : Reads p IsTypeName) :
    Reads (tildeArguments p) IsTypeArguments := by
  refine (Reads.bind (Reads.between (Reads.sepBy1 hp rfl) rfl rfl) fun _ => .pure _).mono ?_
  rintro a u ⟨ns, _, _, ⟨o, v, c, ho, hns, hc, rfl⟩, ⟨rfl, rfl⟩, rfl⟩
  simpa using IsTypeArguments.tilde ho (isTypeNames_of_separated hns) hc

theorem isTypeName_word (w : Lexeme) (hw : w.token = .word) : IsTypeName w.text [w] := by
  simpa using IsTypeName.mk hw .none .nil

theorem reads_typeNameBelow (depth : Nat) : Reads (typeNameBelow depth) IsTypeName := by
  induction depth with
  | zero =>
    have hsignificant : Significant [⟨.word, "_", 0⟩] := by simp [Significant, Token.isTrivia]
    exact .refuse ⟨_, _, hsignificant, isTypeName_word ⟨.word, "_", 0⟩ rfl⟩
  | succ depth ih =>
    refine (Reads.bind reads_word fun _ =>
      Reads.bind (.option (.orElse (reads_angleArguments ih) (reads_tildeArguments ih))) fun _ =>
      Reads.bind (.many (.orElse reads_arraySuffix reads_nullableSuffix)) fun _ => .pure _).mono ?_
    rintro n u ⟨_, _, _, ⟨w, hw, rfl, rfl⟩,
      ⟨arguments, v, _, ha, ⟨suffixes, x, _, hs, ⟨rfl, rfl⟩, rfl⟩, rfl⟩, rfl⟩
    have hs' : Many IsSuffix suffixes x := by
      clear ha
      induction hs with
      | nil => exact .nil
      | cons h _ ih => exact .cons (h.elim id id) ih
    have ha' : IsTypeArguments (arguments.getD "") v := by
      cases arguments with
      | none =>
        cases ha
        exact .none
      | some a => exact Or.elim ha id id
    simpa using IsTypeName.mk hw ha' hs'

theorem reads_typeName : Reads typeName IsTypeName where
  reach_le s := (reads_typeNameBelow _).reach_le s
  used_le h := (reads_typeNameBelow _).used_le h
  sound h := (reads_typeNameBelow _).sound h
  viable h := (reads_typeNameBelow _).viable h

/-! ## Members -/

theorem reads_argumentPart : Reads (typeName <|> keyword) IsPart := by
  refine (reads_typeName.orElse reads_keyword).mono ?_
  rintro n u (h | ⟨k, hk, rfl, rfl⟩)
  · exact .typeName h
  · exact .keyword hk

theorem reads_argument : Reads argument IsArgument := by
  refine (Reads.bind (.many1 reads_argumentPart) fun _ => .pure _).mono ?_
  rintro a u ⟨parts, v, _, ⟨hne, hv⟩, ⟨rfl, rfl⟩, rfl⟩
  simpa using IsArgument.mk hne hv

theorem reads_arguments : Reads arguments IsArguments := by
  refine (Reads.bind (.between (.option (.sepBy1 reads_argument rfl)) rfl rfl) fun _ =>
    .pure _).mono ?_
  rintro a u ⟨items, _, _, ⟨o, v, c, ho, hv, hc, rfl⟩, ⟨rfl, rfl⟩, rfl⟩
  cases items with
  | none =>
    cases hv
    exact .none ho hc
  | some items => simpa using IsArguments.some ho hv hc

theorem reads_returnType : Reads returnType IsReturnType := by
  refine (Reads.option (.bind (reads_flag rfl) fun _ => reads_typeName)).mono ?_
  rintro r u h
  cases r with
  | none =>
    cases h
    exact .none
  | some n =>
    obtain ⟨colon, v, w, hv, hw, rfl⟩ := h
    exact .some hv hw

theorem reads_classifiers :
    Reads (many (token .asterisk <|> token .dollar)) fun as u => u = as ∧ IsClassifiers as := by
  refine (Reads.many (((Reads.token rfl).orElse (Reads.token rfl)).mono ?_)).mono
    fun _ _ h => h.eq_of_single
  rintro l u (⟨hl, rfl⟩ | ⟨hl, rfl⟩)
  · exact ⟨Or.inl (beq_iff_eq.1 hl), rfl⟩
  · exact ⟨Or.inr (beq_iff_eq.1 hl), rfl⟩

theorem reads_method : Reads method IsMethod := by
  refine (Reads.bind reads_name fun _ => .bind reads_arguments fun _ =>
    .bind (reads_flag rfl) fun _ => .bind reads_returnType fun _ =>
    .bind reads_classifiers fun _ => .pure _).mono ?_
  rintro m u ⟨n, u₁, _, hn, ⟨a, u₂, _, ha, ⟨b, u₃, _, hb, ⟨r, u₄, _, hr,
    ⟨cs, _, _, ⟨rfl, hcs⟩, ⟨rfl, rfl⟩, rfl⟩, rfl⟩, rfl⟩, rfl⟩, rfl⟩
  simpa using IsMethod.mk hn ha hb hr hcs

theorem reads_typedField : Reads typedField IsField := by
  refine (Reads.bind reads_typeName fun _ => .bind reads_name fun _ =>
    .bind (reads_flag rfl) fun _ => .pure _).mono ?_
  rintro f u ⟨t, u₁, _, ht, ⟨n, u₂, _, hn, ⟨b, u₃, _, hb, ⟨rfl, rfl⟩, rfl⟩, rfl⟩, rfl⟩
  simpa using IsField.typed ht hn hb

theorem reads_ascribedField : Reads ascribedField IsField := by
  refine (Reads.bind reads_name fun _ => .bind (.token rfl) fun _ => .bind reads_typeName fun _ =>
    .bind (reads_flag rfl) fun _ => .pure _).mono ?_
  rintro f u ⟨n, u₁, _, hn, ⟨c, _, _, ⟨hc, rfl⟩, ⟨t, u₂, _, ht, ⟨b, u₃, _, hb, ⟨rfl, rfl⟩, rfl⟩,
    rfl⟩, rfl⟩, rfl⟩
  simpa using IsField.ascribed hn (beq_iff_eq.1 hc) ht hb

theorem reads_bareField : Reads bareField IsField := by
  refine (Reads.bind reads_name fun _ => .bind (reads_flag rfl) fun _ => .pure _).mono ?_
  rintro f u ⟨n, u₁, _, hn, ⟨b, u₂, _, hb, ⟨rfl, rfl⟩, rfl⟩, rfl⟩
  simpa using IsField.bare hn hb

theorem reads_field : Reads field IsField :=
  (reads_typedField.orElse (reads_ascribedField.orElse reads_bareField)).mono
    fun _ _ h => h.elim id (·.elim id id)

theorem reads_visibility : Reads visibility IsVisibility := by
  refine (Reads.bind (.option (.orElse (.bind (.token rfl) fun _ => .pure Visibility.pub)
    (.orElse (.bind (.token rfl) fun _ => .pure Visibility.priv)
    (.orElse (.bind (.token rfl) fun _ => .pure Visibility.prot)
    (.bind (.token rfl) fun _ => .pure Visibility.internal))))) fun _ => .pure _).mono ?_
  rintro v u ⟨o, w, _, h, ⟨rfl, rfl⟩, rfl⟩
  rw [List.append_nil]
  cases o with
  | none =>
    cases h
    exact .absent
  | some v =>
    rcases h with h | h | h | h <;> obtain ⟨l, _, _, ⟨hl, rfl⟩, ⟨rfl, rfl⟩, rfl⟩ := h
    · exact .plus (beq_iff_eq.1 hl)
    · exact .minus (beq_iff_eq.1 hl)
    · exact .hash (beq_iff_eq.1 hl)
    · exact .tilde (beq_iff_eq.1 hl)

theorem reads_member : Reads member IsMember := by
  refine (Reads.bind reads_visibility fun _ =>
    .bind (.orElse (.bind reads_method fun m => .pure (Member.method m))
      (.bind reads_field fun f => .pure (Member.field f))) fun _ => .pure _).mono ?_
  rintro m u ⟨v, u₁, _, hv, ⟨k, u₂, _, hk, ⟨rfl, rfl⟩, rfl⟩, rfl⟩
  rw [List.append_nil]
  rcases hk with ⟨m, w, _, hm, ⟨rfl, rfl⟩, rfl⟩ | ⟨f, w, _, hf, ⟨rfl, rfl⟩, rfl⟩
  · simpa using IsMember.method hv hm
  · simpa using IsMember.field hv hf

/-! ## Statements -/

theorem reads_tag : Reads tag IsTag := by
  refine (Reads.bind (.token rfl) fun _ => .bind reads_word fun _ => .bind (.token rfl) fun _ =>
    .bind (.token rfl) fun _ => .pure _).mono ?_
  rintro t u ⟨o, _, _, ⟨ho, rfl⟩, ⟨_, _, _, ⟨w, hw, rfl, rfl⟩, ⟨c, _, _, ⟨hc, rfl⟩,
    ⟨d, _, _, ⟨hd, rfl⟩, ⟨rfl, rfl⟩, rfl⟩, rfl⟩, rfl⟩, rfl⟩
  exact .mk (beq_iff_eq.1 ho) hw (beq_iff_eq.1 hc) (beq_iff_eq.1 hd)

/-- An item with the line ends behind it. -/
def IsItemLine : Language BodyItem := fun item u =>
  ∃ v w, IsBodyItem item v ∧ Newlines w ∧ u = v ++ w

theorem reads_bodyItem : Reads bodyItem IsItemLine := by
  refine (Reads.bind (.orElse (.bind reads_tag fun t => .pure (BodyItem.tag t))
      (.bind reads_member fun m => .pure (BodyItem.member m))) fun _ =>
    .bind reads_blankLines fun _ => .pure _).mono ?_
  rintro i u ⟨k, v, _, hk, ⟨ls, _, _, ⟨rfl, hls⟩, ⟨rfl, rfl⟩, rfl⟩, rfl⟩
  rw [List.append_nil]
  refine ⟨v, _, ?_, hls, rfl⟩
  rcases hk with ⟨t, w, _, ht, ⟨rfl, rfl⟩, rfl⟩ | ⟨m, w, _, hm, ⟨rfl, rfl⟩, rfl⟩
  · simpa using IsBodyItem.tag ht
  · simpa using IsBodyItem.member hm

theorem isBodyItems_of_many {items : List BodyItem} {u : List Lexeme}
    (h : Many IsItemLine items u) : IsBodyItems false items u := by
  induction h with
  | nil => exact .nil
  | cons hi _ ih =>
    obtain ⟨v, w, hv, hw, rfl⟩ := hi
    rw [List.append_assoc]
    exact .cons hv hw ih (by simp)

theorem reads_body : Reads body (IsBody false) := by
  refine (Reads.bind (.token rfl) fun _ => .bind reads_blankLines fun _ =>
    .bind (.many reads_bodyItem) fun _ => .bind (.token rfl) fun _ => .pure _).mono ?_
  rintro is u ⟨o, _, _, ⟨ho, rfl⟩, ⟨ls, _, _, ⟨rfl, hls⟩, ⟨items, v, _, hv,
    ⟨c, _, _, ⟨hc, rfl⟩, ⟨rfl, rfl⟩, rfl⟩, rfl⟩, rfl⟩, rfl⟩
  simpa using IsBody.mk (beq_iff_eq.1 ho) hls (isBodyItems_of_many hv) (beq_iff_eq.1 hc)

theorem reads_declaration : Reads declaration (IsDeclaration false) := by
  refine (Reads.bind (.token rfl) fun _ => .bind reads_typeName fun _ =>
    .bind (.option reads_body) fun _ => .pure _).mono ?_
  rintro d u ⟨k, _, _, ⟨hk, rfl⟩, ⟨n, v, _, hn, ⟨items, w, _, hw, ⟨rfl, rfl⟩, rfl⟩, rfl⟩, rfl⟩
  cases items with
  | none =>
    cases hw
    rw [List.append_nil, List.append_nil]
    exact .bare (beq_iff_eq.1 hk) hn
  | some items => simpa using IsDeclaration.block (beq_iff_eq.1 hk) hn hw

theorem reads_tagging : Reads tagging fun a u =>
    ∃ v w, IsTag a.1 v ∧ IsTypeName a.2 w ∧ u = v ++ w := by
  refine (Reads.bind reads_tag fun _ => .bind reads_typeName fun _ => .pure _).mono ?_
  rintro a u ⟨t, v, _, ht, ⟨n, w, _, hn, ⟨rfl, rfl⟩, rfl⟩, rfl⟩
  exact ⟨v, w, ht, hn, by simp⟩

theorem reads_relationOp : Reads relationOp IsRelationOp := by
  refine (Reads.orElse (.bind (.token rfl) fun _ => .pure RelationOp.inheritsLeft)
    (.orElse (.bind (.token rfl) fun _ => .pure RelationOp.inheritsRight)
    (.orElse (.bind (.token rfl) fun _ => .pure RelationOp.realizesRight)
    (.bind (.token rfl) fun _ => .pure RelationOp.realizesLeft)))).mono ?_
  rintro op u h
  rcases h with h | h | h | h <;> obtain ⟨l, _, _, ⟨hl, rfl⟩, ⟨rfl, rfl⟩, rfl⟩ := h
  · exact .inheritsLeft (beq_iff_eq.1 hl)
  · exact .inheritsRight (beq_iff_eq.1 hl)
  · exact .realizesRight (beq_iff_eq.1 hl)
  · exact .realizesLeft (beq_iff_eq.1 hl)

theorem reads_label (text : List Char) : Reads (label text) (IsLabel text) := by
  have line : Reads (many1 (lexeme (·.token != .newline))) fun as u =>
      as ≠ [] ∧ u = as ∧ ∀ l ∈ as, l.token ≠ .newline :=
    (Reads.many1 ((Reads.lexeme (l := ⟨.word, "_", 0⟩) rfl rfl).mono
      fun _ _ ⟨hl, hu⟩ => ⟨bne_iff_ne.1 hl, hu⟩)).mono fun _ _ h => ⟨h.1, h.2.eq_of_single⟩
  refine (Reads.bind (.token rfl) fun _ => .bind line fun _ => .pure _).mono ?_
  rintro a u ⟨c, _, _, ⟨hc, rfl⟩, ⟨ls, _, _, ⟨hne, rfl, hls⟩, ⟨rfl, rfl⟩, rfl⟩, rfl⟩
  rw [List.append_nil]
  exact .mk (beq_iff_eq.1 hc) hne hls

theorem reads_link : Reads link IsLink := by
  refine (Reads.bind reads_relationOp fun _ => .bind reads_typeName fun _ => .pure _).mono ?_
  rintro a u ⟨op, v, _, hop, ⟨n, w, _, hn, ⟨rfl, rfl⟩, rfl⟩, rfl⟩
  simpa using IsLink.mk hop hn

theorem reads_chain (text : List Char) : Reads (chain text) (IsChain text) := by
  refine (Reads.bind reads_typeName fun _ => .bind (.many1 reads_link) fun _ =>
    .bind (.option (reads_label text)) fun _ => .pure _).mono ?_
  rintro a u ⟨head, u₁, _, hh, ⟨links, u₂, _, ⟨hne, hl⟩, ⟨label, u₃, _, hb, ⟨rfl, rfl⟩, rfl⟩, rfl⟩,
    rfl⟩
  simpa using IsChain.mk hh hne hl hb

theorem reads_ownedMember : Reads ownedMember fun a u =>
    ∃ v c w, IsTypeName a.owner v ∧ c.token = .colon ∧ IsMember a.member w ∧ u = v ++ c :: w := by
  refine (Reads.bind reads_typeName fun _ => .bind (.token rfl) fun _ =>
    .bind reads_member fun _ => .pure _).mono ?_
  rintro a u ⟨n, v, _, hn, ⟨c, _, _, ⟨hc, rfl⟩, ⟨m, w, _, hm, ⟨rfl, rfl⟩, rfl⟩, rfl⟩, rfl⟩
  exact ⟨v, c, w, hn, beq_iff_eq.1 hc, hm, by simp⟩

theorem reads_note : Reads note IsNote := by
  refine (Reads.bind (.token rfl) fun _ =>
    .bind (.option (.bind (.token rfl) fun _ => reads_typeName)) fun _ =>
    .bind (.token rfl) fun _ => .pure _).mono ?_
  rintro a u ⟨k, _, _, ⟨hk, rfl⟩, ⟨target, v, _, hv, ⟨q, _, _, ⟨hq, rfl⟩, ⟨rfl, rfl⟩, rfl⟩, rfl⟩,
    rfl⟩
  cases target with
  | none =>
    cases hv
    exact .plain (beq_iff_eq.1 hk) (beq_iff_eq.1 hq)
  | some n =>
    obtain ⟨f, _, w, ⟨hf, rfl⟩, hn, rfl⟩ := hv
    simpa using IsNote.about (beq_iff_eq.1 hk) (beq_iff_eq.1 hf) hn (beq_iff_eq.1 hq)

/-- The statements that have no block; between their items no line ends can be missing. -/
theorem reads_undeclared (lined : Bool) (text : List Char) :
    Reads ((do let (tag, owner) ← tagging; return Statement.annotate tag owner) <|>
        (do return Statement.relate (← chain text)) <|>
        (do return Statement.member (← ownedMember)) <|>
        (do return Statement.note (← note))) (IsStatement lined text) := by
  refine (Reads.orElse (.bind reads_tagging fun a => .pure (Statement.annotate a.1 a.2))
    (.orElse (.bind (reads_chain text) fun c => .pure (Statement.relate c))
    (.orElse (.bind reads_ownedMember fun m => .pure (Statement.member m))
    (.bind reads_note fun n => .pure (Statement.note n))))).mono ?_
  rintro s u h
  rcases h with h | h | h | h <;> obtain ⟨a, u, _, ha, ⟨rfl, rfl⟩, rfl⟩ := h <;>
    rw [List.append_nil]
  · obtain ⟨v, w, hv, hw, rfl⟩ := ha
    exact .annotate hv hw
  · exact .relate ha
  · obtain ⟨v, c, w, hv, hc, hw, rfl⟩ := ha
    exact .member hv hc hw
  · exact .note ha

theorem reads_statement (text : List Char) : Reads (statement text) (IsStatement false text) := by
  refine (Reads.orElse (.bind reads_declaration fun d => .pure (Statement.declare d))
    (reads_undeclared false text)).mono ?_
  rintro s u (⟨d, v, _, hd, ⟨rfl, rfl⟩, rfl⟩ | h)
  · rw [List.append_nil]
    exact .declare hd
  · exact h

theorem reads_statementLine (text : List Char) :
    Reads (statementLine text) (IsStatementLine false text) := by
  refine (Reads.bind (.many1 reads_newline) fun _ => reads_statement text).mono ?_
  rintro s u ⟨ls, v, w, ⟨hne, hls⟩, hs, rfl⟩
  obtain ⟨rfl, hls⟩ := hls.eq_of_single
  exact .mk hne hls hs

theorem reads_atEnd : Reads atEnd fun _ u => u = [] where
  reach_le s := by cases s <;> exact Nat.zero_le _
  used_le {s _ _} h := by
    cases s with
    | nil =>
      cases h
      exact ⟨Nat.le_refl _, Nat.zero_le _⟩
    | cons l s => cases h
  sound {s _ _} h := by
    cases s with
    | nil =>
      cases h
      rfl
    | cons l s => cases h
  viable {s} h := by
    cases s with
    | nil => exact ⟨(), [], by simp [Significant], rfl⟩
    | cons l s => simp [atEnd] at h

/-- The rule of whole diagrams finds phrases of the grammar only. -/
theorem reads_diagram (text : List Char) : Reads (diagram text) (IsDiagram false text) := by
  refine (Reads.bind reads_blankLines fun _ => .bind (.token rfl) fun _ =>
    .bind (.many (reads_statementLine text)) fun _ => .bind reads_blankLines fun _ =>
    .bind reads_atEnd fun _ => .pure _).mono ?_
  rintro ss u ⟨ls, _, _, ⟨rfl, hls⟩, ⟨h, _, _, ⟨hh, rfl⟩, ⟨statements, v, _, hv,
    ⟨ms, _, _, ⟨rfl, hms⟩, ⟨_, _, _, rfl, ⟨rfl, rfl⟩, rfl⟩, rfl⟩, rfl⟩, rfl⟩, rfl⟩
  simpa using IsDiagram.mk hls (beq_iff_eq.1 hh) hv hms

end ClassDiagram.Grammar
