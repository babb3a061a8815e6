import ClassDiagram.Proofs.Grammar.Members

/-! # Statements are read as they are written

Each kind of statement begins in its own way, except that a chain of relations and a member of a
class both begin with a type name; these part at the token behind it.  So the order in which the
kinds are tried does not matter.  In a block, each item is read to the end of its line, and this
is where the line ends between the items are needed.

* `run_body`: a block whose items stand on lines of their own;
* `run_statement`: a statement, up to the end of its line;
* `run_diagram`: a whole diagram.
-/

namespace ClassDiagram.Grammar

open Rule

/-- The end of a statement: the end of its line or of the lexemes. -/
def AtStatementEnd (rest : List Lexeme) : Prop :=
  next rest = none ∨ next rest = some .newline

theorem AtStatementEnd.atLineEnd {rest : List Lexeme} (h : AtStatementEnd rest) : AtLineEnd rest :=
  h.elim Or.inl fun h => Or.inr (Or.inl h)

theorem AtStatementEnd.ne {rest : List Lexeme} (h : AtStatementEnd rest) {t : Token}
    (ht : t ≠ .newline) : next rest ≠ some t := by
  rcases h with h | h <;> rw [h]
  · simp
  · simpa using ht.symm

theorem AtStatementEnd.stops {rest : List Lexeme} (h : AtStatementEnd rest) : Stops rest :=
  h.atLineEnd.stops

/-! ## Line ends -/

theorem run_blankLines {u r : List Lexeme} (hu : Newlines u) (hr : next r ≠ some .newline) :
    blankLines.run (u ++ r) = some (u, r) := by
  induction u with
  | nil => exact run_many_of_none (advances_token _) (run_token_none hr)
  | cons l u ih =>
    obtain ⟨hl, hu⟩ := List.forall_mem_cons.1 hu
    exact run_many_of_some (advances_token _) (run_token hl _) (ih hu)

theorem next_newlines {u r : List Lexeme} (hu : Newlines u) (hne : u ≠ []) :
    next (u ++ r) = some .newline := by
  cases u with
  | nil => exact absurd rfl hne
  | cons l u => simp [hu l List.mem_cons_self]

/-! ## Blocks -/

theorem run_tag {t : String} {u : List Lexeme} (h : IsTag t u) (r : List Lexeme) :
    tag.run (u ++ r) = some (t, r) := by
  obtain ⟨ho, hw, hc, hd⟩ := h
  rw [tag]
  simp only [List.cons_append, List.nil_append]
  rw [run_bind_some (run_token ho _), run_bind_some (run_word hw _),
    run_bind_some (run_token hc _), run_bind_some (run_token hd _), run_pure]

theorem run_tag_none {s : List Lexeme} (h : next s ≠ some .annotationStart) : tag.run s = none :=
  run_bind_none (run_token_none h)

theorem IsTag.next_eq {t : String} {u : List Lexeme} (h : IsTag t u) (r : List Lexeme) :
    next (u ++ r) = some .annotationStart := by
  obtain ⟨ho, _, _, _⟩ := h
  simp [ho]

/-- What a member does not begin with. -/
theorem IsMember.next_ne {m : Member} {u : List Lexeme} (h : IsMember m u) (r : List Lexeme)
    {t : Token} (ht : isNameToken t = false)
    (hsign : t ∉ [Token.plus, .minus, .hash, .tilde]) : next (u ++ r) ≠ some t := by
  have key : ∀ {v} {u w : List Lexeme}, IsVisibility v u →
      (∃ t, isNameToken t = true ∧ next (w ++ r) = some t) → next (u ++ w ++ r) ≠ some t := by
    intro v u w hv hw
    cases hv with
    | absent =>
      obtain ⟨t', ht', hw⟩ := hw
      rw [List.nil_append, hw, ne_eq, Option.some_inj]
      rintro rfl
      rw [ht] at ht'
      cases ht'
    | plus hl | minus hl | hash hl | tilde hl =>
      rw [List.append_assoc, List.singleton_append, next_cons, hl, ne_eq, Option.some_inj]
      rintro rfl
      exact hsign (by simp)
  cases h with
  | method hv hm => exact key hv (hm.next_eq r)
  | field hv hf => exact key hv (hf.next_eq r)

theorem IsBodyItem.next_ne {i : BodyItem} {u : List Lexeme} (h : IsBodyItem i u) (r : List Lexeme)
    {t : Token} (ht : isNameToken t = false)
    (hsign : t ∉ [Token.plus, .minus, .hash, .tilde, .annotationStart]) :
    next (u ++ r) ≠ some t := by
  cases h with
  | tag htag =>
    rw [htag.next_eq, ne_eq, Option.some_inj]
    rintro rfl
    exact hsign (by simp)
  | member hm =>
    apply hm.next_ne r ht
    intro h
    apply hsign
    simp only [List.mem_cons, List.not_mem_nil, or_false] at h ⊢
    rcases h with h | h | h | h <;> simp [h]

theorem run_bodyItem {i : BodyItem} {u v r : List Lexeme} (h : IsBodyItem i u) (hv : Newlines v)
    (hend : AtLineEnd (v ++ r)) (hr : next r ≠ some .newline) :
    bodyItem.run (u ++ (v ++ r)) = some (i, r) := by
  have hitem : ((do return BodyItem.tag (← tag)) <|> (do return BodyItem.member (← member))).run
      (u ++ (v ++ r)) = some (i, v ++ r) := by
    cases h with
    | tag ht =>
      apply run_orElse_some
      rw [run_bind_some (run_tag ht _), run_pure]
    | member hm =>
      have htag : next (u ++ (v ++ r)) ≠ some .annotationStart := hm.next_ne _ rfl (by simp)
      rw [run_orElse_none (run_bind_none (run_tag_none htag)), run_bind_some (run_member hm hend),
        run_pure]
  rw [bodyItem, run_bind_some hitem, run_bind_some (run_blankLines hv hr), run_pure]

theorem run_bodyItem_none {c : Lexeme} (hc : c.token = .closeBrace) (r : List Lexeme) :
    bodyItem.run (c :: r) = none := by
  have hname : ∀ t, isNameToken t = true → next (c :: r) ≠ some t := by
    rintro t ht h
    rw [next_cons, hc, Option.some_inj] at h
    subst h
    cases ht
  have hvis : visibility.run (c :: r) = some (.pub, c :: r) := by
    simp [visibility, Rule.option, run_bind, run_orElse, run_token_cons, run_pure, run_give, hc]
  have hmethod : method.run (c :: r) = none := run_bind_none (run_name_none hname)
  have hfield : field.run (c :: r) = none := by
    have htyped : typedField.run (c :: r) = none :=
      run_bind_none (run_typeName_none (by simp [hc]))
    have hascribed : ascribedField.run (c :: r) = none := run_bind_none (run_name_none hname)
    rw [field, run_orElse_none htyped, run_orElse_none hascribed]
    exact run_bind_none (run_name_none hname)
  have hmember : member.run (c :: r) = none := by
    rw [member, run_bind_some hvis, run_bind_none]
    rw [run_orElse_none (run_bind_none hmethod), run_bind_none hfield]
  apply run_bind_none
  rw [run_orElse_none (run_bind_none (run_tag_none (by simp [hc]))), run_bind_none hmember]

theorem IsMember.ne_nil {m : Member} {u : List Lexeme} (h : IsMember m u) : u ≠ [] := by
  cases h with
  | @method _ _ u v _ hm =>
    obtain ⟨_, _, hnext⟩ := hm.next_eq []
    have hv : v ≠ [] := by
      rintro rfl
      cases hnext
    simp [hv]
  | @field _ _ u v _ hf =>
    obtain ⟨_, _, hnext⟩ := hf.next_eq []
    have hv : v ≠ [] := by
      rintro rfl
      cases hnext
    simp [hv]

theorem IsBodyItem.ne_nil {i : BodyItem} {u : List Lexeme} (h : IsBodyItem i u) : u ≠ [] := by
  cases h with
  | tag h =>
    cases h
    simp
  | member h => exact h.ne_nil

theorem advances_bodyItem : Advances bodyItem := by
  refine reads_bodyItem.advances ?_
  rintro i _ ⟨v, w, hv, _, rfl⟩
  simp [hv.ne_nil]

theorem IsBodyItems.next_ne {items : List BodyItem} {u : List Lexeme} (h : IsBodyItems true items u)
    {c : Lexeme} (hc : c.token = .closeBrace) (r : List Lexeme) :
    next (u ++ c :: r) ≠ some .newline := by
  cases h with
  | nil => simp [hc]
  | cons hi _ _ _ =>
    rw [List.append_assoc]
    exact hi.next_ne _ rfl (by simp)

theorem run_bodyItems {items : List BodyItem} {u : List Lexeme} (h : IsBodyItems true items u)
    {c : Lexeme} (hc : c.token = .closeBrace) (r : List Lexeme) :
    (many bodyItem).run (u ++ c :: r) = some (items, c :: r) := by
  induction h with
  | nil => exact run_many_of_none advances_bodyItem (run_bodyItem_none hc r)
  | @cons i items u v w hi hv hw hlined ih =>
    have hend : AtLineEnd (v ++ (w ++ c :: r)) := by
      by_cases hne : v = []
      · -- without a line end behind it the item is the last one
        have hitems := hlined rfl hne
        subst hne hitems
        cases hw
        exact Or.inr (Or.inr (by simp [hc]))
      · exact Or.inr (Or.inl (next_newlines hv hne))
    have hs : u ++ (v ++ w) ++ c :: r = u ++ (v ++ (w ++ c :: r)) := by simp
    rw [hs]
    exact run_many_of_some advances_bodyItem (run_bodyItem hi hv hend (hw.next_ne hc r)) ih

theorem run_body {items : List BodyItem} {u : List Lexeme} (h : IsBody true items u)
    (r : List Lexeme) : body.run (u ++ r) = some (items, r) := by
  obtain ⟨ho, hu, hv, hc⟩ := h
  rename_i o c u v
  have hs : o :: (u ++ (v ++ [c])) ++ r = o :: (u ++ (v ++ c :: r)) := by simp
  rw [hs, body, run_bind_some (run_token ho _), run_bind_some (run_blankLines hu (hv.next_ne hc r)),
    run_bind_some (run_bodyItems hv hc r), run_bind_some (run_token hc r), run_pure]

theorem run_body_none {s : List Lexeme} (h : next s ≠ some .openBrace) : body.run s = none :=
  run_bind_none (run_token_none h)

/-! ## The kinds of statements -/

theorem run_declaration {d : Declaration} {u rest : List Lexeme} (h : IsDeclaration true d u)
    (hr : AtStatementEnd rest) : declaration.run (u ++ rest) = some (d, rest) := by
  cases h with
  | bare hk hn =>
    have hbody : body.run rest = none := run_body_none (hr.ne (by decide))
    rw [declaration, List.cons_append, run_bind_some (run_token hk _),
      run_bind_some (run_typeName hn hr.stops), run_bind_some (run_option_none hbody), run_pure]
    rfl
  | @block k n items u v hk hn hb =>
    have hstop : Stops (v ++ rest) := by
      obtain ⟨ho, _, _, _⟩ := hb
      exact stops_of_next (by simp [ho])
    rw [declaration, List.cons_append, List.append_assoc, run_bind_some (run_token hk _),
      run_bind_some (run_typeName hn hstop), run_bind_some (run_option_some (run_body hb rest)),
      run_pure]
    rfl

theorem run_declaration_none {s : List Lexeme} (h : next s ≠ some .classWord) :
    declaration.run s = none :=
  run_bind_none (run_token_none h)

theorem run_tagging {t n : String} {u v rest : List Lexeme} (ht : IsTag t u) (hn : IsTypeName n v)
    (hr : AtStatementEnd rest) : tagging.run (u ++ (v ++ rest)) = some ((t, n), rest) := by
  rw [tagging, run_bind_some (run_tag ht _), run_bind_some (run_typeName hn hr.stops), run_pure]

theorem run_tagging_none {s : List Lexeme} (h : next s ≠ some .annotationStart) :
    tagging.run s = none :=
  run_bind_none (run_tag_none h)

theorem run_relationOp {op : RelationOp} {u : List Lexeme} (h : IsRelationOp op u)
    (r : List Lexeme) : relationOp.run (u ++ r) = some (op, r) := by
  cases h with
  | inheritsLeft hl | inheritsRight hl | realizesRight hl | realizesLeft hl =>
    simp [relationOp, run_bind, run_orElse, run_token_cons, run_pure, hl]

theorem run_relationOp_none {s : List Lexeme} (h : ∀ t ∈ [Token.inheritsLeft, .inheritsRight,
    .realizesRight, .realizesLeft], next s ≠ some t) : relationOp.run s = none := by
  rw [relationOp, run_orElse_none (run_bind_none (run_token_none (h _ (by simp)))),
    run_orElse_none (run_bind_none (run_token_none (h _ (by simp)))),
    run_orElse_none (run_bind_none (run_token_none (h _ (by simp)))),
    run_bind_none (run_token_none (h _ (by simp)))]

/-- Where the links of a chain end: before a label or at the end of the statement. -/
def AtChainEnd (rest : List Lexeme) : Prop :=
  next rest = none ∨ next rest = some .newline ∨ next rest = some .colon

theorem AtChainEnd.ne {rest : List Lexeme} (h : AtChainEnd rest) {t : Token} (h1 : t ≠ .newline)
    (h2 : t ≠ .colon) : next rest ≠ some t := by
  rcases h with h | h | h <;> rw [h]
  · simp
  · simpa using h1.symm
  · simpa using h2.symm

theorem AtChainEnd.stops {rest : List Lexeme} (h : AtChainEnd rest) : Stops rest := by
  apply stops_of_next
  intro t ht
  simp only [List.mem_cons, List.not_mem_nil, or_false] at ht
  rcases ht with rfl | rfl | rfl | rfl | rfl <;> exact h.ne (by decide) (by decide)

theorem run_link_none {rest : List Lexeme} (h : AtChainEnd rest) : link.run rest = none := by
  apply run_bind_none
  apply run_relationOp_none
  intro t ht
  simp only [List.mem_cons, List.not_mem_nil, or_false] at ht
  rcases ht with rfl | rfl | rfl | rfl <;> exact h.ne (by decide) (by decide)

theorem advances_link : Advances link := by
  refine reads_link.advances ?_
  rintro _ _ ⟨hop, _⟩
  cases hop <;> simp

theorem IsRelationOp.stops {op : RelationOp} {u : List Lexeme} (h : IsRelationOp op u)
    (r : List Lexeme) : Stops (u ++ r) := by
  cases h with
  | inheritsLeft hl | inheritsRight hl | realizesRight hl | realizesLeft hl =>
    exact stops_of_next (by simp [hl])

theorem links_stop {links : List (RelationOp × String)} {u rest : List Lexeme}
    (h : Many IsLink links u) (hr : AtChainEnd rest) : Stops (u ++ rest) := by
  cases h with
  | nil => exact hr.stops
  | cons hl _ =>
    obtain ⟨hop, _⟩ := hl
    rw [List.append_assoc, List.append_assoc]
    exact hop.stops _

theorem run_links {links : List (RelationOp × String)} {u rest : List Lexeme}
    (h : Many IsLink links u) (hr : AtChainEnd rest) :
    (many link).run (u ++ rest) = some (links, rest) := by
  induction h with
  | nil => exact run_many_of_none advances_link (run_link_none hr)
  | cons hl hls ih =>
    obtain ⟨hop, hn⟩ := hl
    rw [List.append_assoc, List.append_assoc]
    refine run_many_of_some advances_link ?_ ih
    rw [link, run_bind_some (run_relationOp hop _),
      run_bind_some (run_typeName hn (links_stop hls hr)), run_pure]

theorem advances_labelPart : Advances (lexeme (·.token != .newline)) := by
  refine (Reads.lexeme (l := ⟨.word, "_", 0⟩) rfl rfl).advances ?_
  rintro l u ⟨_, rfl⟩
  simp

theorem run_label {text : List Char} {label : String} {u rest : List Lexeme}
    (h : IsLabel text label u) (hr : AtStatementEnd rest) :
    (Grammar.label text).run (u ++ rest) = some (label, rest) := by
  obtain ⟨hc, hne, hls⟩ := h
  rename_i c ls
  have hmany : (many (lexeme (·.token != .newline))).run (ls ++ rest) = some (ls, rest) := by
    clear hne
    induction ls with
    | nil =>
      apply run_many_of_none advances_labelPart
      rcases hr with hr | hr
      · cases rest with
        | nil => rfl
        | cons l rest => simp at hr
      · cases rest with
        | nil => rfl
        | cons l rest =>
          rw [next_cons, Option.some_inj] at hr
          simp [run, lexeme, hr]
    | cons l ls ih =>
      obtain ⟨hl, hls⟩ := List.forall_mem_cons.1 hls
      refine run_many_of_some advances_labelPart ?_ (ih hls)
      simp [run, lexeme, hl]
  rw [Grammar.label, List.cons_append, run_bind_some (run_token hc _),
    run_bind_some (run_many1_of_many advances_labelPart hmany hne), run_pure]

theorem run_label_none {text : List Char} {s : List Lexeme} (h : next s ≠ some .colon) :
    (label text).run s = none :=
  run_bind_none (run_token_none h)

theorem run_chain {text : List Char} {c : Chain} {u rest : List Lexeme} (h : IsChain text c u)
    (hr : AtStatementEnd rest) : (chain text).run (u ++ rest) = some (c, rest) := by
  obtain ⟨hh, hne, hls, hlabel⟩ := h
  rename_i head links label u v w
  have hend : AtChainEnd (w ++ rest) := by
    cases label with
    | none =>
      cases hlabel
      exact hr.elim Or.inl fun h => Or.inr (Or.inl h)
    | some text =>
      obtain ⟨hc, _, _⟩ := hlabel
      exact Or.inr (Or.inr (by simp [hc]))
  have hopt : (option (Grammar.label text)).run (w ++ rest) = some (label, rest) := by
    cases label with
    | none =>
      cases hlabel
      exact run_option_none (run_label_none (hr.ne (by decide)))
    | some text => exact run_option_some (run_label hlabel hr)
  rw [List.append_assoc, List.append_assoc, chain,
    run_bind_some (run_typeName hh (links_stop hls hend)),
    run_bind_some (run_many1_of_many advances_link (run_links hls hend) hne), run_bind_some hopt,
    run_pure]

/-- A type name alone, with a colon behind it, is no chain. -/
theorem run_chain_none {text : List Char} {n : String} {u r : List Lexeme} (hn : IsTypeName n u)
    {c : Lexeme} (hc : c.token = .colon) : (chain text).run (u ++ c :: r) = none := by
  have hend : AtChainEnd (c :: r) := Or.inr (Or.inr (by simp [hc]))
  have hlinks : (many1 link).run (c :: r) = none := run_bind_none (run_link_none hend)
  rw [chain, run_bind_some (run_typeName hn hend.stops), run_bind_none hlinks]

theorem run_chain_none_of_next {text : List Char} {s : List Lexeme} (h : next s ≠ some .word) :
    (chain text).run s = none :=
  run_bind_none (run_typeName_none h)

theorem run_ownedMember {n : String} {m : Member} {c : Lexeme} {u v rest : List Lexeme}
    (hn : IsTypeName n u) (hc : c.token = .colon) (hm : IsMember m v) (hr : AtStatementEnd rest) :
    ownedMember.run (u ++ c :: (v ++ rest)) = some (⟨n, m⟩, rest) := by
  have hstop : Stops (c :: (v ++ rest)) := stops_of_next (by simp [hc])
  rw [ownedMember, run_bind_some (run_typeName hn hstop), run_bind_some (run_token hc _),
    run_bind_some (run_member hm hr.atLineEnd), run_pure]

theorem run_note {n : Note} {u : List Lexeme} (h : IsNote n u) (rest : List Lexeme) :
    note.run (u ++ rest) = some (n, rest) := by
  cases h with
  | @plain k q hk hq =>
    have htarget : (do let _ ← token .forWord; typeName).run (q :: rest) = none :=
      run_bind_none (run_token_none (by simp [hq]))
    simp only [List.cons_append, List.nil_append]
    rw [note, run_bind_some (run_token hk _), run_bind_some (run_option_none htarget),
      run_bind_some (run_token hq _), run_pure]
  | @about k f q target u hk hf hn hq =>
    have hs : k :: f :: (u ++ [q]) ++ rest = k :: f :: (u ++ q :: rest) := by simp
    have hstop : Stops (q :: rest) := stops_of_next (by simp [hq])
    have htarget : (do let _ ← token .forWord; typeName).run (f :: (u ++ q :: rest))
        = some (target, q :: rest) := by
      rw [run_bind_some (run_token hf _), run_typeName hn hstop]
    rw [hs, note, run_bind_some (run_token hk _), run_bind_some (run_option_some htarget),
      run_bind_some (run_token hq _), run_pure]

/-! ## Statements and diagrams -/

/-- A statement is read to the end of its line. -/
theorem run_statement {text : List Char} {s : Statement} {u rest : List Lexeme}
    (h : IsStatement true text s u) (hr : AtStatementEnd rest) :
    (statement text).run (u ++ rest) = some (s, rest) := by
  rw [statement]
  cases h with
  | declare hd =>
    apply run_orElse_some
    rw [run_bind_some (run_declaration hd hr), run_pure]
  | @annotate t n u v ht hn =>
    have hnext := ht.next_eq (v ++ rest)
    rw [List.append_assoc, run_orElse_none (run_bind_none (run_declaration_none (by simp [hnext])))]
    apply run_orElse_some
    rw [run_bind_some (run_tagging ht hn hr)]
    rfl
  | relate hc =>
    have hnext : next (u ++ rest) = some .word := by
      obtain ⟨hh, _, _, _⟩ := hc
      rw [List.append_assoc]
      exact hh.next_eq _
    rw [run_orElse_none (run_bind_none (run_declaration_none (by simp [hnext]))),
      run_orElse_none (run_bind_none (run_tagging_none (by simp [hnext])))]
    apply run_orElse_some
    rw [run_bind_some (run_chain hc hr), run_pure]
  | @member n m c u v hn hc hm =>
    have hs : u ++ c :: v ++ rest = u ++ c :: (v ++ rest) := by simp
    have hnext := hn.next_eq (c :: (v ++ rest))
    rw [hs, run_orElse_none (run_bind_none (run_declaration_none (by simp [hnext]))),
      run_orElse_none (run_bind_none (run_tagging_none (by simp [hnext]))),
      run_orElse_none (run_bind_none (run_chain_none hn hc))]
    apply run_orElse_some
    rw [run_bind_some (run_ownedMember hn hc hm hr), run_pure]
  | note hn =>
    have hnext : next (u ++ rest) = some .noteWord := by
      cases hn with
      | plain hk _ => simp [hk]
      | about hk _ _ _ => simp [hk]
    have howned : ownedMember.run (u ++ rest) = none :=
      run_bind_none (run_typeName_none (by simp [hnext]))
    rw [run_orElse_none (run_bind_none (run_declaration_none (by simp [hnext]))),
      run_orElse_none (run_bind_none (run_tagging_none (by simp [hnext]))),
      run_orElse_none (run_bind_none (run_chain_none_of_next (by simp [hnext]))),
      run_orElse_none (run_bind_none howned), run_bind_some (run_note hn rest), run_pure]

/-- No statement begins with the end of a line. -/
theorem run_statement_none {text : List Char} {s : List Lexeme}
    (h : next s = none ∨ next s = some .newline) : (statement text).run s = none := by
  have hne : ∀ {t}, t ≠ .newline → next s ≠ some t := fun ht => AtStatementEnd.ne h ht
  have howned : ownedMember.run s = none := run_bind_none (run_typeName_none (hne (by decide)))
  have hnote : note.run s = none := run_bind_none (run_token_none (hne (by decide)))
  rw [statement, run_orElse_none (run_bind_none (run_declaration_none (hne (by decide)))),
    run_orElse_none (run_bind_none (run_tagging_none (hne (by decide)))),
    run_orElse_none (run_bind_none (run_chain_none_of_next (hne (by decide)))),
    run_orElse_none (run_bind_none howned), run_bind_none hnote]

theorem IsStatement.next_ne {lined : Bool} {text : List Char} {s : Statement} {u : List Lexeme}
    (h : IsStatement lined text s u) (r : List Lexeme) : next (u ++ r) ≠ some .newline := by
  cases h with
  | declare hd => cases hd with
    | bare hk _ => simp [hk]
    | block hk _ _ => simp [hk]
  | annotate ht _ => rw [List.append_assoc, ht.next_eq]; simp
  | relate hc =>
    obtain ⟨hh, _, _, _⟩ := hc
    rw [List.append_assoc, hh.next_eq]
    simp
  | member hn _ _ => rw [List.append_assoc, hn.next_eq]; simp
  | note hn => cases hn with
    | plain hk _ => simp [hk]
    | about hk _ _ _ => simp [hk]

theorem advances_statementLine (text : List Char) : Advances (statementLine text) := by
  refine (reads_statementLine text).advances ?_
  rintro s _ ⟨hne, _, _⟩
  simp [hne]

theorem run_newlines {u r : List Lexeme} (hu : Newlines u) (hne : u ≠ [])
    (hr : next r ≠ some .newline) : (many1 (token .newline)).run (u ++ r) = some (u, r) :=
  run_many1_of_many (advances_token _) (run_blankLines hu hr) hne

theorem atStatementEnd_lines {text : List Char} {statements : List Statement} {v w : List Lexeme}
    (h : Many (IsStatementLine true text) statements v) (hw : Newlines w) :
    AtStatementEnd (v ++ w) := by
  cases h with
  | nil =>
    cases w with
    | nil => exact Or.inl rfl
    | cons l w => exact Or.inr (by simp [hw l List.mem_cons_self])
  | cons hs _ =>
    obtain ⟨hne, hu, _⟩ := hs
    rw [List.append_assoc, List.append_assoc]
    exact Or.inr (next_newlines hu hne)

theorem run_statementLine_none {text : List Char} {w : List Lexeme} (hw : Newlines w) :
    (statementLine text).run w = none := by
  by_cases hne : w = []
  · subst hne
    rfl
  · have h := run_newlines (r := []) hw hne (by simp)
    rw [List.append_nil] at h
    rw [statementLine, run_bind_some h]
    exact run_statement_none (Or.inl rfl)

theorem run_statementLines {text : List Char} {statements : List Statement} {v w : List Lexeme}
    (h : Many (IsStatementLine true text) statements v) (hw : Newlines w) :
    (many (statementLine text)).run (v ++ w) = some (statements, w) := by
  induction h with
  | nil => exact run_many_of_none (advances_statementLine text) (run_statementLine_none hw)
  | cons hs hss ih =>
    obtain ⟨hne, hu, hs⟩ := hs
    rw [List.append_assoc, List.append_assoc]
    refine run_many_of_some (advances_statementLine text) ?_ ih
    rw [statementLine, run_bind_some (run_newlines hu hne (hs.next_ne _)),
      run_statement hs (atStatementEnd_lines hss hw)]

/-- A diagram is read to the end of the lexemes. -/
theorem run_diagram {text : List Char} {statements : List Statement} {s : List Lexeme}
    (h : IsDiagram true text statements s) : (diagram text).run s = some (statements, []) := by
  obtain ⟨hu, hh, hv, hw⟩ := h
  rename_i h u v w
  have hblank := run_blankLines (r := []) hw (by simp)
  rw [List.append_nil] at hblank
  have hend : atEnd.run [] = some ((), []) := rfl
  rw [diagram, run_bind_some (run_blankLines hu (by simp [hh])), run_bind_some (run_token hh _),
    run_bind_some (run_statementLines hv hw), run_bind_some hblank, run_bind_some hend, run_pure]

end ClassDiagram.Grammar
