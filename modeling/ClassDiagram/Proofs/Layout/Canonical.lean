import ClassDiagram.Document
import ClassDiagram.Proofs.Layout.Lexemes
import ClassDiagram.Proofs.Layout.Lines
import ClassDiagram.Proofs.Model.WellFormed

/-! # What is read is canonical

The names, types, arguments, tags and notes that the grammar makes of the lexemes of a text can be
written in canonical layout.  So can all of the model that is built of them.

* `Grammar.Yields`: what the values of a language are like, when they are read from a text;
* `canonical_of_statementsOfText`: the statements of a text are canonical;
* `ofText_of_statementsOfText`: they all have names, so they build a model;
* `canonicalModel_declared`: and so is the model that such statements declare;
* `canonical_of_ofText`: the model of a text can be written, and all names in it are classes.
-/

namespace ClassDiagram

namespace Grammar

variable {α : Type}

/-- The lexemes of a text give only values with `P`. -/
def Yields (D : Language α) (P : α → Prop) : Prop :=
  ∀ a u, D a u → (∀ l ∈ u, l.Genuine) → P a

theorem Yields.many {D : Language α} {P : α → Prop} (h : Yields D P) :
    Yields (Many D) fun as => ∀ a ∈ as, P a := by
  intro as u hmany
  induction hmany with
  | nil => exact fun _ => nofun
  | cons ha _ ih =>
    intro hu
    obtain ⟨hu, hv⟩ := List.forall_mem_append.1 hu
    exact List.forall_mem_cons.2 ⟨h _ _ ha hu, ih hv⟩

theorem Yields.separated {D : Language α} {P : α → Prop} (h : Yields D P) (t : Token) :
    Yields (Separated D t) fun as => as ≠ [] ∧ ∀ a ∈ as, P a := by
  intro as u hseparated
  induction hseparated with
  | one ha =>
    intro hu
    exact ⟨List.cons_ne_nil _ _, List.forall_mem_cons.2 ⟨h _ _ ha hu, nofun⟩⟩
  | more ha _ _ ih =>
    intro hu
    obtain ⟨hu, hv⟩ := List.forall_mem_append.1 hu
    have hrest := ih (List.forall_mem_cons.1 hv).2
    exact ⟨List.cons_ne_nil _ _, List.forall_mem_cons.2 ⟨h _ _ ha hu, hrest.2⟩⟩

/-! ## Names -/

theorem yields_name : Yields IsName CanonicalName := by
  rintro _ _ (h | h) hu
  · exact .inl ((hu _ List.mem_cons_self).word h)
  · exact .inr ((hu _ List.mem_cons_self).keyword h)

theorem yields_suffix : Yields IsSuffix CanonicalSuffix := by
  intro s u h _
  cases h with
  | @array _ _ commas _ _ _ =>
    rw [List.map_const']
    exact .array commas.length
  | nullable _ => exact .nullable

/-- The arguments of a canonical type name, with their angles or tildes. -/
def CanonicalBrackets (x : String) : Prop :=
  x = "" ∨ ∃ names, names ≠ [] ∧ (∀ n ∈ names, CanonicalType n) ∧
    (x = "<" ++ ", ".intercalate names ++ ">" ∨ x = "~" ++ ", ".intercalate names ++ "~")

theorem CanonicalBrackets.type {w x : String} {suffixes : List String} (hx : CanonicalBrackets x)
    (hw : IsWord w) (hs : ∀ s ∈ suffixes, CanonicalSuffix s) :
    CanonicalType (w ++ x ++ String.join suffixes) := by
  rcases hx with rfl | ⟨names, hne, hnames, rfl | rfl⟩
  · rw [String.append_empty]
    exact .bare hw hs
  · exact .angle hw hne hnames hs
  · exact .tilde hw hne hnames hs

mutual

theorem canonicalType_of_isTypeName {n : String} {u : List Lexeme} (h : IsTypeName n u)
    (hu : ∀ l ∈ u, l.Genuine) : CanonicalType n := by
  match h with
  | .mk hw harguments hsuffixes =>
    obtain ⟨hword, hrest⟩ := List.forall_mem_cons.1 hu
    obtain ⟨hv, hs⟩ := List.forall_mem_append.1 hrest
    exact (canonicalBrackets_of_isTypeArguments harguments hv).type (hword.word hw)
      (yields_suffix.many _ _ hsuffixes hs)

theorem canonicalBrackets_of_isTypeArguments {x : String} {u : List Lexeme}
    (h : IsTypeArguments x u) (hu : ∀ l ∈ u, l.Genuine) : CanonicalBrackets x := by
  match h with
  | .none => exact .inl rfl
  | .angle _ hnames _ =>
    have hv := (List.forall_mem_append.1 (List.forall_mem_cons.1 hu).2).1
    obtain ⟨hne, hall⟩ := canonicalTypes_of_isTypeNames hnames hv
    exact .inr ⟨_, hne, hall, .inl rfl⟩
  | .tilde _ hnames _ =>
    have hv := (List.forall_mem_append.1 (List.forall_mem_cons.1 hu).2).1
    obtain ⟨hne, hall⟩ := canonicalTypes_of_isTypeNames hnames hv
    exact .inr ⟨_, hne, hall, .inr rfl⟩

theorem canonicalTypes_of_isTypeNames {ns : List String} {u : List Lexeme} (h : IsTypeNames ns u)
    (hu : ∀ l ∈ u, l.Genuine) : ns ≠ [] ∧ ∀ n ∈ ns, CanonicalType n := by
  match h with
  | .one hn =>
    have hfirst := canonicalType_of_isTypeName hn hu
    exact ⟨List.cons_ne_nil _ _, List.forall_mem_cons.2 ⟨hfirst, nofun⟩⟩
  | .more hn _ hns =>
    obtain ⟨hu, hv⟩ := List.forall_mem_append.1 hu
    have hfirst := canonicalType_of_isTypeName hn hu
    have hrest := canonicalTypes_of_isTypeNames hns (List.forall_mem_cons.1 hv).2
    exact ⟨List.cons_ne_nil _ _, List.forall_mem_cons.2 ⟨hfirst, hrest.2⟩⟩

end

theorem yields_typeName : Yields IsTypeName CanonicalType := fun _ _ h hu =>
  canonicalType_of_isTypeName h hu

/-! ## Members -/

theorem yields_part : Yields IsPart fun p => CanonicalType p ∨ Keyword p := by
  rintro _ _ (h | h) hu
  · exact .inl (yields_typeName _ _ h hu)
  · exact .inr ((hu _ List.mem_cons_self).keyword h)

theorem yields_argument : Yields IsArgument CanonicalArgument := by
  rintro _ _ ⟨hne, hparts⟩ hu
  exact ⟨_, hne, yields_part.many _ _ hparts hu, rfl⟩

theorem yields_arguments : Yields IsArguments CanonicalArguments := by
  rintro _ _ (_ | ⟨_, hitems, _⟩) hu
  · exact ⟨[], nofun, rfl⟩
  · have hv := (List.forall_mem_append.1 (List.forall_mem_cons.1 hu).2).1
    exact ⟨_, (yields_argument.separated .comma _ _ hitems hv).2, rfl⟩

theorem yields_returnType :
    Yields IsReturnType fun o => o.getD "" = "" ∨ CanonicalType (o.getD "") := by
  rintro _ _ (_ | ⟨_, hn⟩) hu
  · exact .inl rfl
  · exact .inr (yields_typeName _ _ hn (List.forall_mem_append.1 hu).2)

theorem yields_method : Yields IsMethod CanonicalMethod := by
  rintro _ _ ⟨hname, harguments, _, hreturn, _⟩ hu
  simp only [List.forall_mem_append] at hu
  obtain ⟨hu, hv, _, hx, _⟩ := hu
  exact ⟨yields_name _ _ hname hu, yields_arguments _ _ harguments hv,
    yields_returnType _ _ hreturn hx⟩

theorem yields_field : Yields IsField CanonicalField := by
  rintro _ _ (⟨htype, hname, _⟩ | ⟨hname, _, htype, _⟩ | ⟨hname, _⟩) hu
  · simp only [List.forall_mem_append] at hu
    obtain ⟨hu, hv, _⟩ := hu
    exact ⟨yields_name _ _ hname hv, .inr (yields_typeName _ _ htype hu)⟩
  · simp only [List.forall_mem_append, List.forall_mem_cons] at hu
    obtain ⟨hu, _, hv, _⟩ := hu
    exact ⟨yields_name _ _ hname hu, .inr (yields_typeName _ _ htype hv)⟩
  · exact ⟨yields_name _ _ hname (List.forall_mem_append.1 hu).1, .inl rfl⟩

theorem yields_member : Yields IsMember CanonicalMember := by
  rintro _ _ (⟨_, hm⟩ | ⟨_, hf⟩) hu
  · obtain ⟨hname, harguments, hreturn⟩ := yields_method _ _ hm (List.forall_mem_append.1 hu).2
    exact ⟨hname, harguments, hreturn⟩
  · obtain ⟨hname, htype⟩ := yields_field _ _ hf (List.forall_mem_append.1 hu).2
    exact ⟨hname, htype⟩

end Grammar

/-! ## Statements -/

/-- A statement whose names, tags, members and notes can be written. -/
structure CanonicalStatement (s : Statement) : Prop where
  names : ∀ n ∈ s.names, CanonicalType n
  tags : ∀ n, ∀ tag ∈ s.tagsOf n, IsWord tag
  members : ∀ n, ∀ m ∈ s.membersOf n, CanonicalMember m
  notes : ∀ n ∈ s.notes, CanonicalNote n

namespace Grammar

def CanonicalItem : BodyItem → Prop
  | .tag text => IsWord text
  | .member m => CanonicalMember m

theorem yields_tag : Yields IsTag IsWord := by
  rintro _ _ ⟨_, hw, _, _⟩ hu
  exact (hu _ (List.mem_cons_of_mem _ List.mem_cons_self)).word hw

theorem yields_bodyItem : Yields IsBodyItem CanonicalItem := by
  rintro _ _ (h | h) hu
  · exact yields_tag _ _ h hu
  · exact yields_member _ _ h hu

theorem yields_bodyItems (lined : Bool) :
    Yields (IsBodyItems lined) fun items => ∀ i ∈ items, CanonicalItem i := by
  intro items u h
  induction h with
  | nil => exact fun _ => nofun
  | cons hitem _ _ _ ih =>
    intro hu
    simp only [List.forall_mem_append] at hu
    obtain ⟨hu, _, hw⟩ := hu
    exact List.forall_mem_cons.2 ⟨yields_bodyItem _ _ hitem hu, ih hw⟩

/-- A declaration of a class with items that can be written. -/
theorem canonical_declarationOf {name : String} {items : List BodyItem} (hname : CanonicalType name)
    (hitems : ∀ i ∈ items, CanonicalItem i) :
    CanonicalStatement (.declare (declarationOf name items)) := by
  refine ⟨?_, ?_, ?_, nofun⟩
  · intro n hn
    rcases List.mem_cons.1 hn with rfl | hn
    · exact hname
    · obtain ⟨owned, howned, rfl⟩ := List.mem_map.1 hn
      obtain ⟨_, _, rfl⟩ := List.mem_map.1 howned
      exact hname
  · intro n tag htag
    rw [Statement.tagsOf] at htag
    split at htag
    · obtain ⟨i, hi, htag⟩ := List.mem_filterMap.1 htag
      cases i with
      | tag text =>
        cases htag
        exact hitems _ hi
      | member m => cases htag
    · cases htag
  · intro n m hm
    obtain ⟨owned, howned, rfl⟩ := List.mem_map.1 hm
    obtain ⟨_, hitem, rfl⟩ := List.mem_map.1 (List.mem_filter.1 howned).1
    obtain ⟨i, hi, hitem⟩ := List.mem_filterMap.1 hitem
    cases i with
    | tag text => cases hitem
    | member m =>
      cases hitem
      exact hitems _ hi

theorem yields_declaration (lined : Bool) :
    Yields (IsDeclaration lined) fun d => CanonicalStatement (.declare d) := by
  rintro _ _ (⟨_, hname⟩ | ⟨_, hname, ⟨_, _, hitems, _⟩⟩) hu
  · exact canonical_declarationOf (yields_typeName _ _ hname (List.forall_mem_cons.1 hu).2) nofun
  · simp only [List.forall_mem_append, List.forall_mem_cons] at hu
    obtain ⟨_, hu, _, _, hv, _⟩ := hu
    exact canonical_declarationOf (yields_typeName _ _ hname hu)
      (yields_bodyItems lined _ _ hitems hv)

theorem yields_link : Yields IsLink fun link => CanonicalType link.2 := by
  rintro _ _ ⟨_, hright⟩ hu
  exact yields_typeName _ _ hright (List.forall_mem_append.1 hu).2

theorem yields_chain (text : List Char) :
    Yields (IsChain text) fun chain => CanonicalStatement (.relate chain) := by
  rintro _ _ ⟨hhead, _, hlinks, _⟩ hu
  simp only [List.forall_mem_append] at hu
  obtain ⟨hu, hv, _⟩ := hu
  refine ⟨?_, fun _ => nofun, fun _ => nofun, nofun⟩
  intro n hn
  rcases List.mem_cons.1 hn with rfl | hn
  · exact yields_typeName _ _ hhead hu
  · obtain ⟨link, hlink, rfl⟩ := List.mem_map.1 hn
    exact yields_link.many _ _ hlinks hv link hlink

/-- The text of a note is what stands in the quotation marks. -/
theorem quotable_strip {q : Lexeme} (hq : q.Genuine) (hquoted : q.token = .quotedString) :
    Quotable (String.ofList (Text.strip (· == '"') q.text.toList)).toList := by
  obtain ⟨body, hbody, htext⟩ := hq.quoted hquoted
  rw [htext, strip_quoted hbody, String.toList_ofList]
  exact hbody

theorem yields_note : Yields IsNote fun n => CanonicalStatement (.note n) := by
  have key : ∀ {n : Note}, CanonicalNote n → CanonicalStatement (.note n) := by
    intro n hn
    refine ⟨?_, fun _ => nofun, fun _ => nofun, List.forall_mem_cons.2 ⟨hn, nofun⟩⟩
    intro t ht
    exact hn.target t (Option.mem_toList.1 ht)
  rintro _ _ (⟨_, hquoted⟩ | ⟨_, _, htarget, hquoted⟩) hu
  · simp only [List.forall_mem_cons] at hu
    exact key ⟨nofun, quotable_strip hu.2.1 hquoted⟩
  · simp only [List.forall_mem_append, List.forall_mem_cons] at hu
    obtain ⟨_, _, hu, hq, _⟩ := hu
    refine key ⟨?_, quotable_strip hq hquoted⟩
    rintro _ ⟨⟩
    exact yields_typeName _ _ htarget hu

theorem yields_statement (lined : Bool) (text : List Char) :
    Yields (IsStatement lined text) CanonicalStatement := by
  intro s u h hu
  cases h with
  | declare h => exact yields_declaration lined _ _ h hu
  | annotate htag howner =>
    obtain ⟨hu, hv⟩ := List.forall_mem_append.1 hu
    refine ⟨?_, ?_, fun _ => List.forall_mem_nil _, List.forall_mem_nil _⟩
    · exact List.forall_mem_cons.2 ⟨yields_typeName _ _ howner hv, List.forall_mem_nil _⟩
    · intro n tag ht
      rw [Statement.tagsOf] at ht
      split at ht
      · rw [List.mem_singleton.1 ht]
        exact yields_tag _ _ htag hu
      · cases ht
  | relate h => exact yields_chain text _ _ h hu
  | member howner _ hm =>
    simp only [List.forall_mem_append, List.forall_mem_cons] at hu
    obtain ⟨hu, _, hv⟩ := hu
    refine ⟨?_, fun _ => List.forall_mem_nil _, ?_, List.forall_mem_nil _⟩
    · exact List.forall_mem_cons.2 ⟨yields_typeName _ _ howner hu, List.forall_mem_nil _⟩
    · intro n m hmem
      rw [Statement.membersOf] at hmem
      split at hmem
      · rw [List.mem_singleton.1 hmem]
        exact yields_member _ _ hm hv
      · cases hmem
  | note h => exact yields_note _ _ h hu

/-- What all statements are like, the statements of a diagram are. -/
theorem Yields.diagram {lined : Bool} {text : List Char} {P : Statement → Prop}
    (h : Yields (IsStatement lined text) P) :
    Yields (IsDiagram lined text) fun ss => ∀ s ∈ ss, P s := by
  have hline : Yields (IsStatementLine lined text) P := by
    rintro _ _ ⟨_, _, hs⟩ hu
    exact h _ _ hs (List.forall_mem_append.1 hu).2
  rintro _ _ ⟨_, _, hlines, _⟩ hu
  simp only [List.forall_mem_append, List.forall_mem_cons] at hu
  exact hline.many _ _ hlines hu.2.2.1

end Grammar

/-- What all statements read from texts are like, the statements of a text are. -/
theorem Grammar.Yields.of_statementsOfText {text : String} {P : Statement → Prop}
    (hyields : Yields (IsStatement false text.toList) P) {ss : List Statement}
    (h : statementsOfText text = .ok ss) : ∀ s ∈ ss, P s :=
  hyields.diagram _ _ (isDiagram_of_ok h) (genuine_ofText text.toList)

/-- The statements of a text are canonical. -/
theorem canonical_of_statementsOfText {text : String} {ss : List Statement}
    (h : statementsOfText text = .ok ss) : ∀ s ∈ ss, CanonicalStatement s :=
  (Grammar.yields_statement false text.toList).of_statementsOfText h

/-! ## Models -/

/-- Canonical statements declare a canonical model. -/
theorem canonicalModel_declared {ss : List Statement} (h : ∀ s ∈ ss, CanonicalStatement s) :
    CanonicalModel (Model.declared ss) := by
  have hnames : ∀ n ∈ ss.flatMap Statement.names, CanonicalType n := by
    intro n hn
    obtain ⟨s, hs, hn⟩ := List.mem_flatMap.1 hn
    exact (h s hs).names n hn
  constructor
  · intro c hc
    obtain ⟨k, hk, rfl⟩ := Model.mem_values_declared.1 hc
    refine ⟨hnames k hk, ?_, ?_, ?_⟩
    · intro tag htag
      obtain ⟨s, hs, htag⟩ := List.mem_flatMap.1 (OrderedSet.mem_ofList.1 htag)
      exact (h s hs).tags k tag htag
    · intro m hm
      obtain ⟨s, hs, hm⟩ := List.mem_flatMap.1 hm
      exact (h s hs).members k m hm
    · intro p hp
      exact hnames p (Class.parent_mem_names hp)
  · intro n hn
    obtain ⟨s, hs, hn⟩ := List.mem_flatMap.1 hn
    exact (h s hs).notes n hn

/-- Statements of a text all have names, so they build the model that they declare. -/
theorem ofText_of_statementsOfText {text : String} {ss : List Statement}
    (h : statementsOfText text = .ok ss) :
    (∀ s ∈ ss, s.Named) ∧ Model.ofText text = .ok (Model.declared ss) := by
  have hnamed : ∀ s ∈ ss, s.Named := fun s hs => Statement.named_iff.2 fun name hname =>
    ((canonical_of_statementsOfText h s hs).names name hname).not_blank
  exact ⟨hnamed, by simp only [Model.ofText, h, Model.ofStatements_of_named hnamed]⟩

theorem ofText_of_error {text : String} {e : Error} (h : statementsOfText text = .error e) :
    Model.ofText text = .error e := by
  simp only [Model.ofText, h]

/-- The model of a text is well-formed and canonical, and every name in it is a class. -/
theorem canonical_of_ofText {text : String} {m : Model} (h : Model.ofText text = .ok m) :
    m.WellFormed ∧ CanonicalModel m ∧ ∀ k ∈ m.mentioned, k ∈ m.names := by
  cases hstatements : statementsOfText text with
  | error e =>
    rw [ofText_of_error hstatements] at h
    cases h
  | ok ss =>
    rw [(ofText_of_statementsOfText hstatements).2] at h
    cases h
    exact ⟨Model.wellFormed_declared ss,
      canonicalModel_declared (canonical_of_statementsOfText hstatements),
      fun k => Model.mem_names_of_mentioned⟩

end ClassDiagram
