import ClassDiagram.Proofs.Grammar.Running

/-! # Type names are read as they are written

A tilde opens type arguments and closes them, and a name may stand behind either.  So what reads
a type name cannot see at once where it ends: it first takes every tilde behind a word for an
opening one, and goes back where no closing one comes.

* `run_typeName`: a type name is read to its end wherever what comes behind it `Stops` it;
* `stops_of_next`, `stops_word`, `InArguments.stops`: what comes behind a type name in a diagram
  does stop it, also a name, and also further types in the arguments of a method.
-/

namespace ClassDiagram.Grammar

open Rule

/-! ## Suffixes -/

theorem run_word {w : Lexeme} (hw : w.token = .word) (s : List Lexeme) :
    word.run (w :: s) = some (w.text, s) := by
  rw [word, run_bind_some (run_token hw s), run_pure]

theorem run_word_none {s : List Lexeme} (h : next s ≠ some .word) : word.run s = none :=
  run_bind_none (run_token_none h)

theorem run_commas {commas : List Lexeme} (h : ∀ l ∈ commas, l.token = .comma) {r : List Lexeme}
    (hr : next r ≠ some .comma) : (many (token .comma)).run (commas ++ r) = some (commas, r) := by
  induction commas with
  | nil => exact run_many_of_none (advances_token _) (run_token_none hr)
  | cons l commas ih =>
    obtain ⟨hl, hc⟩ := List.forall_mem_cons.1 h
    exact run_many_of_some (advances_token _) (run_token hl _) (ih hc)

theorem run_suffix {x : String} {u : List Lexeme} (h : IsSuffix x u) (r : List Lexeme) :
    (arraySuffix <|> nullableSuffix).run (u ++ r) = some (x, r) := by
  cases h with
  | @array o c commas ho hcommas hc =>
    have hr : next (c :: r) ≠ some .comma := by simp [hc]
    have hb : (between .openBracket .closeBracket (many (token .comma))).run
        (o :: (commas ++ c :: r)) = some (commas, r) :=
      run_between ho (run_commas hcommas hr) hc
    have hs : o :: (commas ++ [c]) ++ r = o :: (commas ++ c :: r) := by simp
    rw [hs]
    exact run_orElse_some (run_bind_some hb)
  | @nullable q hq =>
    have ha : arraySuffix.run (q :: r) = none := run_bind_none (run_between_none (by simp [hq]))
    rw [List.singleton_append, run_orElse_none ha, nullableSuffix, run_bind_some (run_token hq r),
      run_pure]

theorem run_suffix_none {r : List Lexeme} (h1 : next r ≠ some .openBracket)
    (h2 : next r ≠ some .question) : (arraySuffix <|> nullableSuffix).run r = none := by
  have ha : arraySuffix.run r = none := run_bind_none (run_between_none h1)
  rw [run_orElse_none ha, nullableSuffix, run_bind_none (run_token_none h2)]

theorem IsSuffix.ne_nil {x : String} {u : List Lexeme} (h : IsSuffix x u) : u ≠ [] := by
  cases h <;> simp

theorem advances_suffix : Advances (arraySuffix <|> nullableSuffix) :=
  (reads_arraySuffix.orElse reads_nullableSuffix).advances fun _ _ h => h.elim IsSuffix.ne_nil
    IsSuffix.ne_nil

theorem run_suffixes {xs : List String} {u : List Lexeme} (h : Many IsSuffix xs u)
    {r : List Lexeme} (h1 : next r ≠ some .openBracket) (h2 : next r ≠ some .question) :
    (many (arraySuffix <|> nullableSuffix)).run (u ++ r) = some (xs, r) := by
  induction h with
  | nil => exact run_many_of_none advances_suffix (run_suffix_none h1 h2)
  | @cons x xs u v hx _ ih =>
    rw [List.append_assoc]
    exact run_many_of_some advances_suffix (run_suffix hx _) ih

/-! ## Type names -/

theorem run_typeName_none {s : List Lexeme} (h : next s ≠ some .word) : typeName.run s = none := by
  rw [typeName_eq, typeNameOver, run_bind_none (run_word_none h)]

theorem run_angleArguments_none {s : List Lexeme} (h : next s ≠ some .openAngle) :
    (angleArguments typeName).run s = none :=
  run_bind_none (run_between_none h)

theorem run_tildeArguments_none {s : List Lexeme} (h : next s ≠ some .tilde) :
    (tildeArguments typeName).run s = none :=
  run_bind_none (run_between_none h)

/-- What may come behind a type name without being taken for a part of it: no opening angle, no
suffix, and no tilde that would open arguments here or, after a closing tilde, one level down. -/
structure Stops (rest : List Lexeme) : Prop where
  angle : next rest ≠ some .openAngle
  bracket : next rest ≠ some .openBracket
  question : next rest ≠ some .question
  opening : (tildeArguments typeName).run rest = none
  closing : ∀ t : Lexeme, t.token = .tilde → (tildeArguments typeName).run (t :: rest) = none

/-- A tilde opens no arguments where the types behind it are not followed by a tilde again. -/
theorem run_tildeArguments_of_types {t : Lexeme} (ht : t.token = .tilde) {s : List Lexeme}
    (h : ∀ ns q, (sepBy1 typeName .comma).run s = some (ns, q) → next q ≠ some .tilde) :
    (tildeArguments typeName).run (t :: s) = none := by
  apply run_bind_none
  rw [between, run_bind_some (run_token ht s)]
  cases hs : (sepBy1 typeName .comma).run s with
  | none => exact run_bind_none hs
  | some found =>
    obtain ⟨ns, q⟩ := found
    rw [run_bind_some hs]
    exact run_bind_none (run_token_none (h ns q hs))

theorem run_tildeArguments_not_word {t : Lexeme} {s : List Lexeme} (ht : t.token = .tilde)
    (h : next s ≠ some .word) : (tildeArguments typeName).run (t :: s) = none := by
  apply run_tildeArguments_of_types ht
  intro ns q hq
  rw [sepBy1, run_bind_none (run_typeName_none h)] at hq
  cases hq

theorem stops_of_next {rest : List Lexeme} (h : ∀ t ∈ [Token.openAngle, .openBracket, .question,
    .tilde, .word], next rest ≠ some t) : Stops rest where
  angle := h _ (by simp)
  bracket := h _ (by simp)
  question := h _ (by simp)
  opening := run_tildeArguments_none (h _ (by simp))
  closing _ ht := run_tildeArguments_not_word ht (h _ (by simp))

/-- A closing tilde stops the last type in front of it, if what comes behind the tilde does not
go on with a type or is stopped by the tilde itself. -/
theorem stops_tilde {t : Lexeme} (ht : t.token = .tilde) {xs : List String} {v rest : List Lexeme}
    (hv : Many IsSuffix xs v) (hrest : Stops rest) : Stops (t :: (v ++ rest)) where
  angle := by simp [ht]
  bracket := by simp [ht]
  question := by simp [ht]
  opening := by
    cases hv with
    | nil => exact hrest.closing t ht
    | cons hx _ =>
      apply run_tildeArguments_not_word ht
      cases hx with
      | array ho _ _ => simp [ho]
      | nullable hq => simp [hq]
  closing s hs := run_tildeArguments_not_word hs (by simp [ht])

mutual

/-- A type name is read to its end wherever what comes behind it stops it. -/
theorem run_typeName {n : String} {u : List Lexeme} (h : IsTypeName n u) {rest : List Lexeme}
    (hrest : Stops rest) : typeName.run (u ++ rest) = some (n, rest) := by
  match h with
  | @IsTypeName.mk w a xs u v hw ha hv =>
    obtain ⟨o, ho, hget⟩ := run_typeArguments ha hv hrest
    rw [typeName_eq, typeNameOver, List.cons_append, run_bind_some (run_word hw _),
      List.append_assoc, run_bind_some ho,
      run_bind_some (run_suffixes hv hrest.bracket hrest.question), run_pure, hget]

theorem run_typeArguments {a : String} {u : List Lexeme} (h : IsTypeArguments a u)
    {xs : List String} {v rest : List Lexeme} (hv : Many IsSuffix xs v) (hrest : Stops rest) :
    ∃ o : Option String, (option (angleArguments typeName <|> tildeArguments typeName)).run
      (u ++ (v ++ rest)) = some (o, v ++ rest) ∧ o.getD "" = a := by
  match h with
  | .none =>
    refine ⟨none, run_option_none ?_, rfl⟩
    cases hv with
    | nil => exact (run_orElse_none (run_angleArguments_none hrest.angle)).trans hrest.opening
    | cons hx _ =>
      cases hx with
      | array ho _ _ =>
        rw [run_orElse_none (run_angleArguments_none (by simp [ho])),
          run_tildeArguments_none (by simp [ho])]
      | nullable hq =>
        rw [run_orElse_none (run_angleArguments_none (by simp [hq])),
          run_tildeArguments_none (by simp [hq])]
  | @IsTypeArguments.angle o c ns u ho hns hc =>
    refine ⟨some _, run_option_some ?_, rfl⟩
    have hstop : Stops (c :: (v ++ rest)) := stops_of_next (by simp [hc])
    have hb : (between .openAngle .closeAngle (sepBy1 typeName .comma)).run
        (o :: (u ++ c :: (v ++ rest))) = some (ns, v ++ rest) :=
      run_between ho (run_typeNames hns hstop (by simp [hc])) hc
    have hs : o :: (u ++ [c]) ++ (v ++ rest) = o :: (u ++ c :: (v ++ rest)) := by simp
    rw [hs]
    exact run_orElse_some (run_bind_some hb)
  | @IsTypeArguments.tilde o c ns u ho hns hc =>
    refine ⟨some _, run_option_some ?_, rfl⟩
    have hb : (between .tilde .tilde (sepBy1 typeName .comma)).run
        (o :: (u ++ c :: (v ++ rest))) = some (ns, v ++ rest) :=
      run_between ho (run_typeNames hns (stops_tilde hc hv hrest) (by simp [hc])) hc
    have hs : o :: (u ++ [c]) ++ (v ++ rest) = o :: (u ++ c :: (v ++ rest)) := by simp
    rw [hs, run_orElse_none (run_angleArguments_none (by simp [ho]))]
    exact run_bind_some hb

theorem run_typeNames {ns : List String} {u : List Lexeme} (h : IsTypeNames ns u)
    {rest : List Lexeme} (hrest : Stops rest) (hcomma : next rest ≠ some .comma) :
    (sepBy1 typeName .comma).run (u ++ rest) = some (ns, rest) := by
  match h with
  | .one hn => exact run_sepBy1_one reads_typeName rfl (run_typeName hn hrest) hcomma
  | @IsTypeNames.more n ns u v c hn hc hns =>
    have hstop : Stops (c :: (v ++ rest)) := stops_of_next (by simp [hc])
    have hs : u ++ c :: v ++ rest = u ++ c :: (v ++ rest) := by simp
    rw [hs]
    exact run_sepBy1_more reads_typeName rfl (run_typeName hn hstop) hc
      (run_typeNames hns hrest hcomma)

end

theorem IsTypeName.next_eq {n : String} {u : List Lexeme} (h : IsTypeName n u) (r : List Lexeme) :
    next (u ++ r) = some .word := by
  cases h with
  | mk hw _ _ => simp [hw]

/-! ## What stops a type name -/

/-- A name behind a type, as in a field, stops the type. -/
theorem stops_word {w : Lexeme} (hw : w.token = .word) {rest : List Lexeme} (hrest : Stops rest)
    (htilde : next rest ≠ some .tilde) (hcomma : next rest ≠ some .comma) :
    Stops (w :: rest) where
  angle := by simp [hw]
  bracket := by simp [hw]
  question := by simp [hw]
  opening := run_tildeArguments_none (by simp [hw])
  closing t ht := by
    apply run_tildeArguments_of_types ht
    intro ns q hq
    have hn := run_typeNames (.one (isTypeName_word w hw)) hrest hcomma
    rw [List.singleton_append, hq] at hn
    cases hn
    exact htilde

/-- What stands between some place in the arguments of a method and their closing parenthesis. -/
inductive InArguments : List Lexeme → Prop
  | close {c : Lexeme} {r : List Lexeme} : c.token = .closeParen → InArguments (c :: r)
  | comma {c : Lexeme} {r : List Lexeme} : c.token = .comma → InArguments r → InArguments (c :: r)
  | keyword {k : Lexeme} {r : List Lexeme} :
      isKeyword k.token = true → InArguments r → InArguments (k :: r)
  | typeName {n : String} {u r : List Lexeme} :
      IsTypeName n u → InArguments r → InArguments (u ++ r)

namespace InArguments

/-- Behind the types that may follow here after commas no tilde comes. -/
def NoTilde (r : List Lexeme) : Prop :=
  ∀ ns q, (many (do let _ ← token .comma; Grammar.typeName)).run r = some (ns, q) →
    next q ≠ some .tilde

theorem noTilde_of_next {r : List Lexeme} (hc : next r ≠ some .comma) (ht : next r ≠ some .tilde) :
    NoTilde r := by
  intro ns q h
  have hnone : (do let _ ← token .comma; Grammar.typeName).run r = none :=
    run_bind_none (run_token_none hc)
  rw [run_many_of_none (advances_behind reads_typeName rfl) hnone] at h
  cases h
  exact ht

/-- Behind a comma it is enough to look behind the type that stands there. -/
theorem noTilde_comma {c : Lexeme} {r : List Lexeme} (hc : c.token = .comma)
    (h : ∀ n q, Grammar.typeName.run r = some (n, q) → NoTilde q) : NoTilde (c :: r) := by
  intro ns q hq
  have hadv := advances_behind reads_typeName (t := .comma) rfl
  have hbehind : (do let _ ← token .comma; Grammar.typeName).run (c :: r)
      = Grammar.typeName.run r :=
    run_bind_some (run_token hc r)
  cases hn : Grammar.typeName.run r with
  | none =>
    rw [run_many_of_none hadv (hbehind.trans hn)] at hq
    cases hq
    simp [hc]
  | some found =>
    obtain ⟨n, r'⟩ := found
    cases hm : (many (do let _ ← token .comma; Grammar.typeName)).run r' with
    | none =>
      rw [many_eq hadv, run_orElse, run_give] at hm
      simp at hm
    | some found =>
      obtain ⟨ms, q'⟩ := found
      rw [run_many_of_some hadv (hbehind.trans hn) hm] at hq
      cases hq
      exact h n r' hn _ _ hm

/-- Reading types from a place in the arguments never ends at a tilde: every tilde from there on
is paired within its own type. -/
theorem noTilde {r : List Lexeme} (h : InArguments r) :
    Stops r ∧ NoTilde r ∧ ∀ n q, Grammar.typeName.run r = some (n, q) → NoTilde q := by
  induction h with
  | @close c r hc =>
    refine ⟨stops_of_next (by simp [hc]), noTilde_of_next (by simp [hc]) (by simp [hc]), ?_⟩
    intro n q hq
    rw [run_typeName_none (by simp [hc])] at hq
    cases hq
  | @comma c r hc _ ih =>
    refine ⟨stops_of_next (by simp [hc]), ?_, ?_⟩
    · exact noTilde_comma hc ih.2.2
    · intro n q hq
      rw [run_typeName_none (by simp [hc])] at hq
      cases hq
  | @keyword k r hk _ ih =>
    have hnot : ∀ t, isKeyword t = false → next (k :: r) ≠ some t := by
      intro t ht h
      rw [next_cons, Option.some_inj] at h
      rw [h, ht] at hk
      cases hk
    refine ⟨stops_of_next ?_, noTilde_of_next (hnot _ rfl) (hnot _ rfl), ?_⟩
    · intro t ht
      apply hnot
      simp only [List.mem_cons, List.not_mem_nil, or_false] at ht
      rcases ht with rfl | rfl | rfl | rfl | rfl <;> rfl
    · intro n q hq
      rw [run_typeName_none (hnot _ rfl)] at hq
      cases hq
  | @typeName n u r hn _ ih =>
    have hword := hn.next_eq r
    have hrun := run_typeName hn ih.1
    have hbehind : ∀ m q, Grammar.typeName.run (u ++ r) = some (m, q) → NoTilde q := by
      intro m q hq
      rw [hrun] at hq
      cases hq
      exact ih.2.1
    refine ⟨⟨by simp [hword], by simp [hword], by simp [hword],
      run_tildeArguments_none (by simp [hword]), ?_⟩,
      noTilde_of_next (by simp [hword]) (by simp [hword]), hbehind⟩
    intro t ht
    apply run_tildeArguments_of_types ht
    intro ns q hq
    rw [sepBy1, run_bind_some hrun] at hq
    obtain ⟨ms, q', hm, hq⟩ := run_bind_eq_some hq
    rw [run_pure] at hq
    cases hq
    exact ih.2.1 _ _ hm

theorem stops {r : List Lexeme} (h : InArguments r) : Stops r := h.noTilde.1

end InArguments

end ClassDiagram.Grammar
