import ClassDiagram.Proofs.Grammar.TypeNames

/-! # Members are read as they are written

A member ends with its line or with the block around it.  Up to there it is read exactly as the
grammar says, although a method is tried before a field, and a field with its type first before
the two other forms.

* `run_arguments`: the arguments of a method;
* `run_method`, `run_field`: the two kinds of members;
* `run_member`: a member with its sign.
-/

namespace ClassDiagram.Grammar

open Rule

/-! ## Names -/

theorem isKeyword_cases {t : Token} (h : isKeyword t = true) :
    t = .header ∨ t = .classWord ∨ t = .noteWord ∨ t = .forWord := by
  cases t <;> simp_all [isKeyword]

theorem run_keyword {k : Lexeme} (hk : isKeyword k.token = true) (s : List Lexeme) :
    keyword.run (k :: s) = some (k.text, s) := by
  have h : (token .header <|> token .classWord <|> token .noteWord <|> token .forWord).run (k :: s)
      = some (k, s) := by
    rcases isKeyword_cases hk with h | h | h | h <;> simp [run_orElse, run_token_cons, h]
  rw [keyword, run_bind_some h, run_pure]

theorem run_keyword_none {s : List Lexeme} (h : ∀ t, isKeyword t = true → next s ≠ some t) :
    keyword.run s = none := by
  apply run_bind_none
  rw [run_orElse_none (run_token_none (h _ rfl)), run_orElse_none (run_token_none (h _ rfl)),
    run_orElse_none (run_token_none (h _ rfl)), run_token_none (h _ rfl)]

def isNameToken (t : Token) : Bool := t == .word || isKeyword t

theorem run_name {n : String} {u : List Lexeme} (h : IsName n u) (s : List Lexeme) :
    name.run (u ++ s) = some (n, s) := by
  cases h with
  | word hw => exact run_orElse_some (run_word hw s)
  | @keyword k hk =>
    have hne : next (k :: s) ≠ some .word := by
      intro h
      rw [next_cons, Option.some_inj] at h
      rw [h] at hk
      cases hk
    exact (run_orElse_none (run_word_none hne)).trans (run_keyword hk s)

theorem run_name_none {s : List Lexeme} (h : ∀ t, isNameToken t = true → next s ≠ some t) :
    name.run s = none := by
  rw [name, run_orElse_none (run_word_none (h _ rfl)), run_keyword_none]
  intro t ht
  exact h t (by simp [isNameToken, ht])

theorem IsName.next_eq {n : String} {u : List Lexeme} (h : IsName n u) (s : List Lexeme) :
    ∃ t, isNameToken t = true ∧ next (u ++ s) = some t := by
  cases h with
  | @word w hw => exact ⟨.word, rfl, by simp [hw]⟩
  | @keyword k hk => exact ⟨k.token, by simp [isNameToken, hk], by simp⟩

/-! ## Arguments -/

theorem isPart_ne_nil {n : String} {u : List Lexeme} (h : IsPart n u) : u ≠ [] := by
  cases h with
  | typeName h =>
    cases h
    simp
  | keyword _ => simp

theorem advances_argumentPart : Advances (typeName <|> keyword) :=
  reads_argumentPart.advances fun _ _ => isPart_ne_nil

theorem run_part {n : String} {u r : List Lexeme} (h : IsPart n u) (hr : InArguments r) :
    (typeName <|> keyword).run (u ++ r) = some (n, r) := by
  cases h with
  | typeName h => exact run_orElse_some (run_typeName h hr.stops)
  | @keyword k hk =>
    have hnone : typeName.run (k :: r) = none := by
      apply run_typeName_none
      intro h
      rw [next_cons, Option.some_inj] at h
      rw [h] at hk
      cases hk
    exact (run_orElse_none hnone).trans (run_keyword hk r)

theorem run_part_none {r : List Lexeme} (h : next r = some .comma ∨ next r = some .closeParen) :
    (typeName <|> keyword).run r = none := by
  have hne : ∀ t, isNameToken t = true → next r ≠ some t := by
    rintro t ht ht'
    rcases h with h | h <;> rw [h, Option.some_inj] at ht' <;> subst ht' <;> cases ht
  rw [run_orElse_none (run_typeName_none (hne _ rfl)), run_keyword_none]
  intro t ht
  exact hne t (by simp [isNameToken, ht])

theorem InArguments.parts {parts : List String} {u r : List Lexeme} (h : Many IsPart parts u)
    (hr : InArguments r) : InArguments (u ++ r) := by
  induction h with
  | nil => exact hr
  | cons hp _ ih =>
    rw [List.append_assoc]
    cases hp with
    | typeName hn => exact .typeName hn ih
    | keyword hk => exact .keyword hk ih

theorem run_parts {parts : List String} {u r : List Lexeme} (h : Many IsPart parts u)
    (hr : InArguments r) (hnext : next r = some .comma ∨ next r = some .closeParen) :
    (many (typeName <|> keyword)).run (u ++ r) = some (parts, r) := by
  induction h with
  | nil => exact run_many_of_none advances_argumentPart (run_part_none hnext)
  | cons hp hps ih =>
    rw [List.append_assoc]
    exact run_many_of_some advances_argumentPart (run_part hp (.parts hps hr)) ih

theorem run_argument {a : String} {u r : List Lexeme} (h : IsArgument a u) (hr : InArguments r)
    (hnext : next r = some .comma ∨ next r = some .closeParen) :
    argument.run (u ++ r) = some (a, r) := by
  obtain ⟨hne, hps⟩ := h
  have hmany := run_parts hps hr hnext
  rw [argument, run_bind_some (run_many1_of_many advances_argumentPart hmany hne), run_pure]

theorem InArguments.items {items : List String} {u r : List Lexeme}
    (h : Separated IsArgument .comma items u) (hr : InArguments r) : InArguments (u ++ r) := by
  induction h with
  | one ha =>
    obtain ⟨_, hps⟩ := ha
    exact .parts hps hr
  | more ha hc _ ih =>
    obtain ⟨_, hps⟩ := ha
    rw [List.append_assoc, List.cons_append]
    exact .parts hps (.comma hc ih)

theorem run_items {items : List String} {u : List Lexeme} (h : Separated IsArgument .comma items u)
    {c : Lexeme} (hc : c.token = .closeParen) (r : List Lexeme) :
    (sepBy1 argument .comma).run (u ++ c :: r) = some (items, c :: r) := by
  induction h with
  | one ha =>
    exact run_sepBy1_one reads_argument rfl (run_argument ha (.close hc) (by simp [hc]))
      (by simp [hc])
  | @more a as u v d ha hd has ih =>
    have hs : u ++ d :: v ++ c :: r = u ++ d :: (v ++ c :: r) := by simp
    rw [hs]
    exact run_sepBy1_more reads_argument rfl
      (run_argument ha (.comma hd (.items has (.close hc))) (by simp [hd])) hd ih

theorem run_arguments {a : String} {u : List Lexeme} (h : IsArguments a u) (r : List Lexeme) :
    arguments.run (u ++ r) = some (a, r) := by
  cases h with
  | @none o c ho hc =>
    have hn : argument.run (c :: r) = none := by
      apply run_bind_none
      rw [many1, run_bind_none (run_part_none (by simp [hc]))]
    have hb : (between .openParen .closeParen (option (sepBy1 argument .comma))).run (o :: c :: r)
        = some (none, r) := run_between ho (run_option_none (run_bind_none hn)) hc
    exact run_bind_some hb
  | @some o c items u ho hi hc =>
    have hb : (between .openParen .closeParen (option (sepBy1 argument .comma))).run
        (o :: (u ++ c :: r)) = .some (.some items, r) :=
      run_between ho (run_option_some (run_items hi hc r)) hc
    have hs : o :: (u ++ [c]) ++ r = o :: (u ++ c :: r) := by simp
    rw [hs]
    exact run_bind_some hb

theorem run_arguments_none {s : List Lexeme} (h : next s ≠ some .openParen) :
    arguments.run s = none :=
  run_bind_none (run_between_none h)

/-! ## Methods -/

/-- The end of a member: the end of its line, of the block around it, or of the lexemes. -/
def AtLineEnd (rest : List Lexeme) : Prop :=
  next rest = none ∨ next rest = some .newline ∨ next rest = some .closeBrace

theorem AtLineEnd.ne {rest : List Lexeme} (h : AtLineEnd rest) {t : Token} (h1 : t ≠ .newline)
    (h2 : t ≠ .closeBrace) : next rest ≠ some t := by
  rcases h with h | h | h <;> rw [h]
  · simp
  · simpa using h1.symm
  · simpa using h2.symm

theorem AtLineEnd.stops {rest : List Lexeme} (h : AtLineEnd rest) : Stops rest := by
  apply stops_of_next
  intro t ht
  simp only [List.mem_cons, List.not_mem_nil, or_false] at ht
  rcases ht with rfl | rfl | rfl | rfl | rfl <;> exact h.ne (by decide) (by decide)

/-- Behind the return type only classifiers stand. -/
theorem next_classifiers {signs rest : List Lexeme} (hs : IsClassifiers signs)
    (hr : AtLineEnd rest) {t : Token} (h1 : t ≠ .asterisk) (h2 : t ≠ .dollar) (h3 : t ≠ .newline)
    (h4 : t ≠ .closeBrace) : next (signs ++ rest) ≠ some t := by
  cases signs with
  | nil => exact hr.ne h3 h4
  | cons l signs =>
    rw [List.cons_append, next_cons, ne_eq, Option.some_inj]
    rintro rfl
    exact (hs l List.mem_cons_self).elim h1 h2

theorem classifiers_stop {signs rest : List Lexeme} (hs : IsClassifiers signs)
    (hr : AtLineEnd rest) : Stops (signs ++ rest) := by
  apply stops_of_next
  intro t ht
  simp only [List.mem_cons, List.not_mem_nil, or_false] at ht
  rcases ht with rfl | rfl | rfl | rfl | rfl <;>
    exact next_classifiers hs hr (by decide) (by decide) (by decide) (by decide)

theorem advances_classifier : Advances (token .asterisk <|> token .dollar) := by
  refine ((Reads.token rfl).orElse (Reads.token rfl)).advances ?_
  rintro l u (⟨_, rfl⟩ | ⟨_, rfl⟩) <;> simp

theorem run_classifiers {signs rest : List Lexeme} (hs : IsClassifiers signs)
    (hr : AtLineEnd rest) :
    (many (token .asterisk <|> token .dollar)).run (signs ++ rest) = some (signs, rest) := by
  induction signs with
  | nil =>
    apply run_many_of_none advances_classifier
    rw [List.nil_append, run_orElse_none (run_token_none (hr.ne (by decide) (by decide))),
      run_token_none (hr.ne (by decide) (by decide))]
  | cons l signs ih =>
    obtain ⟨hl, hs⟩ := List.forall_mem_cons.1 hs
    refine run_many_of_some advances_classifier ?_ (ih hs)
    rcases hl with hl | hl <;> simp [run_orElse, run_token_cons, hl]

theorem run_returnType {r : Option String} {u : List Lexeme} (h : IsReturnType r u)
    {signs rest : List Lexeme} (hs : IsClassifiers signs) (hr : AtLineEnd rest) :
    returnType.run (u ++ (signs ++ rest)) = some (r, signs ++ rest) := by
  cases h with
  | none =>
    have hcolon := next_classifiers hs hr (t := .colon) (by decide) (by decide) (by decide)
      (by decide)
    have hword := next_classifiers hs hr (t := .word) (by decide) (by decide) (by decide)
      (by decide)
    apply run_option_none
    rw [List.nil_append, run_bind_some (run_flag_false hcolon), run_typeName_none hword]
  | @some colon n u v hc hn =>
    apply run_option_some
    rw [List.append_assoc]
    cases hc with
    | absent =>
      have hcolon : next (v ++ (signs ++ rest)) ≠ some .colon := by simp [hn.next_eq]
      rw [List.nil_append, run_bind_some (run_flag_false hcolon),
        run_typeName hn (classifiers_stop hs hr)]
    | present hl =>
      rw [List.singleton_append, run_bind_some (run_flag_true hl _),
        run_typeName hn (classifiers_stop hs hr)]

/-- What stands behind the arguments of a method.  An asterisk directly behind them is always
taken for the first of the two places where it may stand; the method is the same. -/
theorem run_method_tail {marked : Bool} {r : Option String} {w x signs rest : List Lexeme}
    (hw : IsFlag .asterisk marked w) (hx : IsReturnType r x) (hs : IsClassifiers signs)
    (hr : AtLineEnd rest) :
    ∃ b s cs, (flag .asterisk).run (w ++ (x ++ (signs ++ rest))) = some (b, s) ∧
      returnType.run s = some (r, cs ++ rest) ∧ IsClassifiers cs ∧
      (b || cs.any (·.token == .asterisk)) = (marked || signs.any (·.token == .asterisk)) ∧
      cs.any (·.token == .dollar) = signs.any (·.token == .dollar) := by
  cases hw with
  | present hl => exact ⟨true, _, signs, run_flag_true hl _, run_returnType hx hs hr, hs, rfl, rfl⟩
  | absent =>
    by_cases hfirst : next (x ++ (signs ++ rest)) = some .asterisk
    · -- the return type is missing, and the first classifier is the asterisk
      cases hx with
      | @some colon n u v hc hn =>
        cases hc with
        | absent => simp [hn.next_eq] at hfirst
        | present hl => simp [hl] at hfirst
      | none =>
        cases signs with
        | nil => exact absurd hfirst (hr.ne (by decide) (by decide))
        | cons l signs =>
          obtain ⟨_, hs⟩ := List.forall_mem_cons.1 hs
          have hl : l.token = .asterisk := by simpa using hfirst
          exact ⟨true, _, signs, run_flag_true hl _, run_returnType .none hs hr, hs, by simp [hl],
            by simp [hl]⟩
    · exact ⟨false, _, signs, run_flag_false hfirst, run_returnType hx hs hr, hs, rfl, rfl⟩

theorem run_method {m : Method} {u rest : List Lexeme} (h : IsMethod m u) (hr : AtLineEnd rest) :
    method.run (u ++ rest) = some (m, rest) := by
  cases h with
  | @mk n a marked r u v w x signs hn ha hw hx hs =>
    obtain ⟨b, s, cs, hb, hret, hcs, habs, hstat⟩ := run_method_tail hw hx hs hr
    have hassoc : u ++ (v ++ (w ++ (x ++ signs))) ++ rest
        = u ++ (v ++ (w ++ (x ++ (signs ++ rest)))) := by simp
    rw [hassoc, method, run_bind_some (run_name hn _), run_bind_some (run_arguments ha _),
      run_bind_some hb, run_bind_some hret, run_bind_some (run_classifiers hcs hr), run_pure,
      habs, hstat]

/-! ## Fields -/

/-- What comes behind the name of a field: a dollar sign or the end of the line. -/
theorem next_isStatic {b : Bool} {w rest : List Lexeme} (hw : IsFlag .dollar b w)
    (hr : AtLineEnd rest) {t : Token} (h1 : t ≠ .dollar) (h2 : t ≠ .newline)
    (h3 : t ≠ .closeBrace) : next (w ++ rest) ≠ some t := by
  cases hw with
  | absent => exact hr.ne h2 h3
  | present hl => simpa [hl] using h1.symm

theorem isStatic_stops {b : Bool} {w rest : List Lexeme} (hw : IsFlag .dollar b w)
    (hr : AtLineEnd rest) : Stops (w ++ rest) := by
  apply stops_of_next
  intro t ht
  simp only [List.mem_cons, List.not_mem_nil, or_false] at ht
  rcases ht with rfl | rfl | rfl | rfl | rfl <;>
    exact next_isStatic hw hr (by decide) (by decide) (by decide)

theorem run_isStatic {b : Bool} {w rest : List Lexeme} (hw : IsFlag .dollar b w)
    (hr : AtLineEnd rest) : (flag .dollar).run (w ++ rest) = some (b, rest) := by
  cases hw with
  | absent => exact run_flag_false (hr.ne (by decide) (by decide))
  | present hl => exact run_flag_true hl rest

/-- The name of a field stops the type in front of it. -/
theorem name_stops {n : String} {v w rest : List Lexeme} {b : Bool} (hn : IsName n v)
    (hw : IsFlag .dollar b w) (hr : AtLineEnd rest) : Stops (v ++ (w ++ rest)) := by
  cases hn with
  | word hl =>
    have hstops := isStatic_stops hw hr
    exact stops_word hl hstops
      (next_isStatic hw hr (by decide) (by decide) (by decide))
      (next_isStatic hw hr (by decide) (by decide) (by decide))
  | keyword hk =>
    apply stops_of_next
    intro t ht h
    rw [List.singleton_append, next_cons, Option.some_inj] at h
    subst h
    rcases isKeyword_cases hk with h | h | h | h <;> simp [h] at ht

/-- A name alone is no field with its type first. -/
theorem run_typedField_none {n : String} {u r : List Lexeme} (hn : IsName n u) (hr : Stops r)
    (hr' : ∀ t, isNameToken t = true → next r ≠ some t) : typedField.run (u ++ r) = none := by
  cases hn with
  | word hw =>
    rw [typedField, run_bind_some (run_typeName (isTypeName_word _ hw) hr),
      run_bind_none (run_name_none hr')]
  | @keyword k hk =>
    apply run_bind_none
    apply run_typeName_none
    intro h
    rw [List.singleton_append, next_cons, Option.some_inj] at h
    rw [h] at hk
    cases hk

theorem run_field {f : Field} {u rest : List Lexeme} (h : IsField f u) (hr : AtLineEnd rest) :
    field.run (u ++ rest) = some (f, rest) := by
  cases h with
  | @typed t n b u v w ht hn hw =>
    apply run_orElse_some
    rw [List.append_assoc, List.append_assoc, typedField,
      run_bind_some (run_typeName ht (name_stops hn hw hr)), run_bind_some (run_name hn _),
      run_bind_some (run_isStatic hw hr), run_pure]
  | @ascribed t n b c u v w hn hc ht hw =>
    have hs : u ++ c :: (v ++ w) ++ rest = u ++ c :: (v ++ (w ++ rest)) := by simp
    have hnone : typedField.run (u ++ c :: (v ++ (w ++ rest))) = none := by
      apply run_typedField_none hn (stops_of_next (by simp [hc]))
      rintro t ht h
      rw [next_cons, hc, Option.some_inj] at h
      subst h
      cases ht
    rw [hs, field, run_orElse_none hnone]
    apply run_orElse_some
    rw [ascribedField, run_bind_some (run_name hn _), run_bind_some (run_token hc _),
      run_bind_some (run_typeName ht (isStatic_stops hw hr)), run_bind_some (run_isStatic hw hr),
      run_pure]
  | @bare n b u v hn hv =>
    have hname : ∀ t, isNameToken t = true → next (v ++ rest) ≠ some t := by
      rintro t ht
      apply next_isStatic hv hr <;> rintro rfl <;> cases ht
    have hcolon : next (v ++ rest) ≠ some .colon :=
      next_isStatic hv hr (by decide) (by decide) (by decide)
    have htyped : typedField.run (u ++ (v ++ rest)) = none :=
      run_typedField_none hn (isStatic_stops hv hr) hname
    have hascribed : ascribedField.run (u ++ (v ++ rest)) = none := by
      rw [ascribedField, run_bind_some (run_name hn _), run_bind_none (run_token_none hcolon)]
    rw [List.append_assoc, field, run_orElse_none htyped, run_orElse_none hascribed, bareField,
      run_bind_some (run_name hn _), run_bind_some (run_isStatic hv hr), run_pure]

/-! ## Members -/

/-- Behind the name that a type begins with no parenthesis opens. -/
theorem IsTypeName.tail {n : String} {u : List Lexeme} (h : IsTypeName n u) :
    ∃ w v, w.token = .word ∧ u = w :: v ∧
      ∀ r, next r ≠ some .openParen → next (v ++ r) ≠ some .openParen := by
  cases h with
  | @mk w a xs u v hw ha hv =>
    refine ⟨w, u ++ v, hw, rfl, ?_⟩
    intro r hr
    rw [List.append_assoc]
    cases ha with
    | angle ho _ _ => simp [ho]
    | tilde ho _ _ => simp [ho]
    | none =>
      cases hv with
      | nil => exact hr
      | cons hx _ =>
        cases hx with
        | array ho _ _ => simp [ho]
        | nullable hq => simp [hq]

theorem run_method_none {f : Field} {u rest : List Lexeme} (h : IsField f u) (hr : AtLineEnd rest) :
    method.run (u ++ rest) = none := by
  -- a field begins with a name behind which no parenthesis opens
  have key : ∃ n v r, IsName n v ∧ u ++ rest = v ++ r ∧ next r ≠ some .openParen := by
    cases h with
    | @typed t n b u v w ht hn hw =>
      obtain ⟨l, u', hl, rfl, hnext⟩ := ht.tail
      refine ⟨l.text, [l], _, .word hl, by simp, hnext (v ++ w ++ rest) ?_⟩
      obtain ⟨t, ht, h⟩ := hn.next_eq (w ++ rest)
      rw [List.append_assoc, h, ne_eq, Option.some_inj]
      rintro rfl
      cases ht
    | @ascribed t n b c u v w hn hc ht hw =>
      exact ⟨n, u, c :: (v ++ (w ++ rest)), hn, by simp, by simp [hc]⟩
    | @bare n b u v hn hv =>
      exact ⟨n, u, v ++ rest, hn, by simp,
        next_isStatic hv hr (by decide) (by decide) (by decide)⟩
  obtain ⟨n, v, r, hn, hs, hr⟩ := key
  rw [hs, method, run_bind_some (run_name hn r), run_bind_none (run_arguments_none hr)]

theorem run_visibility {v : Visibility} {u r : List Lexeme} (h : IsVisibility v u)
    (hr : ∃ t, isNameToken t = true ∧ next r = some t) :
    visibility.run (u ++ r) = some (v, r) := by
  cases h with
  | absent =>
    obtain ⟨t, ht, hr⟩ := hr
    have hne : ∀ t', isNameToken t' = false → next r ≠ some t' := by
      intro t' ht' h
      rw [hr, Option.some_inj] at h
      rw [h, ht'] at ht
      cases ht
    refine (run_bind_some (run_option_none ?_)).trans (run_pure _ _)
    rw [List.nil_append, run_orElse_none (run_bind_none (run_token_none (hne _ rfl))),
      run_orElse_none (run_bind_none (run_token_none (hne _ rfl))),
      run_orElse_none (run_bind_none (run_token_none (hne _ rfl))),
      run_bind_none (run_token_none (hne _ rfl))]
  | plus hl | minus hl | hash hl | tilde hl =>
    simp [visibility, option, run_bind, run_orElse, run_token_cons, run_pure, hl]

theorem IsMethod.next_eq {m : Method} {u : List Lexeme} (h : IsMethod m u) (r : List Lexeme) :
    ∃ t, isNameToken t = true ∧ next (u ++ r) = some t := by
  cases h with
  | mk hn _ _ _ _ =>
    rw [List.append_assoc]
    exact hn.next_eq _

theorem IsField.next_eq {f : Field} {u : List Lexeme} (h : IsField f u) (r : List Lexeme) :
    ∃ t, isNameToken t = true ∧ next (u ++ r) = some t := by
  cases h with
  | typed ht _ _ =>
    rw [List.append_assoc]
    exact ⟨.word, rfl, ht.next_eq _⟩
  | ascribed hn _ _ _ =>
    rw [List.append_assoc]
    exact hn.next_eq _
  | bare hn _ =>
    rw [List.append_assoc]
    exact hn.next_eq _

/-- A member is read to the end of its line. -/
theorem run_member {m : Member} {u rest : List Lexeme} (h : IsMember m u) (hr : AtLineEnd rest) :
    member.run (u ++ rest) = some (m, rest) := by
  cases h with
  | @method vis m u v hv hm =>
    have hfound : (do return Member.method (← method)).run (v ++ rest)
        = some (.method m, rest) := by
      rw [run_bind_some (run_method hm hr), run_pure]
    rw [List.append_assoc, member, run_bind_some (run_visibility hv (hm.next_eq rest)),
      run_bind_some (run_orElse_some hfound), run_pure]
  | @field vis f u v hv hf =>
    have hnone : (do return Member.method (← method)).run (v ++ rest) = none :=
      run_bind_none (run_method_none hf hr)
    have hfound : (do return Member.field (← field)).run (v ++ rest) = some (.field f, rest) := by
      rw [run_bind_some (run_field hf hr), run_pure]
    rw [List.append_assoc, member, run_bind_some (run_visibility hv (hf.next_eq rest)),
      run_bind_some ((run_orElse_none hnone).trans hfound), run_pure]

end ClassDiagram.Grammar
