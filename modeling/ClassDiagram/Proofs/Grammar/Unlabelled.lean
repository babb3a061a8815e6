import ClassDiagram.Model.Builder
import ClassDiagram.Proofs.Grammar.Seams

/-! # Statements up to their labels

A label is all that a diagram takes from the text between its lexemes, and no model shows it.  So
lexemes that look alike make the same model, whatever texts they are cut out of, or they are refused
at the same lexeme.

* `Statement.visit_unlabelled`: a label does nothing to a model;
* `carries_diagram`: alike lexemes make the same statements up to labels;
* `statementsOrStop_alike`: what is read of them, or where reading stops.
-/

namespace ClassDiagram

def Statement.unlabelled : Statement → Statement
  | .relate chain => .relate { chain with label := none }
  | .declare d => .declare d
  | .annotate tag owner => .annotate tag owner
  | .member owned => .member owned
  | .note n => .note n

/-! ## Labels in models -/

theorem Builder.visit_unlabelled (b : Builder) (s : Statement) :
    b.visit s.unlabelled = b.visit s := by
  cases s <;> rfl

theorem Builder.visitAll_unlabelled (b : Builder) (ss : List Statement) :
    b.visitAll (ss.map Statement.unlabelled) = b.visitAll ss := by
  induction ss generalizing b with
  | nil => rfl
  | cons s ss ih =>
    rw [List.map_cons, visitAll, visitAll, visit_unlabelled]
    exact congrArg _ (funext fun b => ih b)

/-- A model does not show the labels of its statements. -/
theorem Model.ofStatements_unlabelled {ss ss' : List Statement}
    (h : ss.map Statement.unlabelled = ss'.map Statement.unlabelled) :
    Model.ofStatements ss = Model.ofStatements ss' := by
  have hvisits := congrArg Builder.empty.visitAll h
  rw [Builder.visitAll_unlabelled, Builder.visitAll_unlabelled] at hvisits
  rw [Model.ofStatements, Model.ofStatements, hvisits]

/-! ## Alike lexemes -/

namespace Grammar

open Rule List

variable {t t' : List Char} {S : Lexeme → Lexeme → Prop} (h : Alike S)

/-- Statements that differ in their labels at most. -/
def SameUnlabelled (s s' : Statement) : Prop := s.unlabelled = s'.unlabelled

include h

theorem carries_body : Carries S [] Eq body body :=
  have hitem : Carries S [] Eq bodyItem bodyItem := carries_bodyItem h (.inl rfl) (by simp)
  (carries_token h (by simp)).bind fun _ => (carries_blankLines h (by simp)).bind fun _ =>
    (hitem.many advances_bodyItem advances_bodyItem).list_eq.bind fun hitems =>
      (carries_token h (by simp)).bind fun _ => .give hitems

theorem carries_declaration : Carries S [] Eq declaration declaration :=
  (carries_token h (by simp)).bind fun _ => (carries_typeName h (.inl rfl)).bind fun hname =>
    (carries_body h).option.bind fun hitems => .give (by rw [hname, hitems])

/-- The labels of alike chains may differ, for they are cut out of two texts. -/
theorem carries_chain_unlabelled :
    Carries S [] (fun c c' => c.head = c'.head ∧ c.links = c'.links) (chain t) (chain t') := by
  have hlabel : Carries S [] (fun _ _ => True) (label t) (label t') :=
    carries_labelOver h (.inl rfl) fun _ => trivial
  have hoption : Carries S [] (fun _ _ => True) (Rule.option (label t)) (Rule.option (label t')) :=
    (hlabel.bind fun _ => .give trivial).orElse (.give trivial)
  exact (carries_typeName h (.inl rfl)).bind fun hhead => (carries_links h (.inl rfl)).bind
    fun hlinks => hoption.bind fun _ => .give ⟨hhead, hlinks⟩

theorem carries_statement : Carries S [] SameUnlabelled (statement t) (statement t') :=
  ((carries_declaration h).bind fun hd => .give (by rw [hd]; rfl)).orElse <|
  ((carries_tagging h (.inl rfl)).bind fun ha => .give (by rw [ha]; rfl)).orElse <|
  ((carries_chain_unlabelled h).bind fun hc => .give (by
    simp [SameUnlabelled, Statement.unlabelled, hc.1, hc.2])).orElse <|
  ((carries_ownedMember h (.inl rfl)).bind fun hm => .give (by rw [hm]; rfl)).orElse <|
  (carries_note h (.inl rfl)).bind fun hn => .give (by rw [hn]; rfl)

theorem carries_statementLine : Carries S [] SameUnlabelled (statementLine t) (statementLine t') :=
  ((carries_token h (by simp)).many1 (advances_token _) (advances_token _)).bind fun _ =>
    carries_statement h

omit h in
theorem carries_atEnd : Carries S [] Eq atEnd atEnd where
  some hs hp := by
    cases hs with
    | nil =>
      cases hp
      exact ⟨_, [], rfl, .nil, rfl⟩
    | cons _ _ => cases hp
  none hs hp := by
    cases hs with
    | nil => cases hp
    | cons _ _ => rfl

theorem carries_diagram : Carries S [] (Forall₂ SameUnlabelled) (diagram t) (diagram t') :=
  (carries_blankLines h (by simp)).bind fun _ => (carries_token h (by simp)).bind fun _ =>
    ((carries_statementLine h).many (advances_statementLine t) (advances_statementLine t')).bind
      fun hss => (carries_blankLines h (by simp)).bind fun _ =>
        carries_atEnd.bind fun _ => .give hss

theorem map_token_eq {s s' : List Lexeme} (hs : Forall₂ S s s') :
    s.map Lexeme.token = s'.map Lexeme.token := by
  induction hs with
  | nil => rfl
  | cons hl _ ih => rw [map_cons, map_cons, ih, h.token hl]

/-- Alike lexemes make the same statements up to labels, or reading stops at the same one. -/
theorem statementsOrStop_alike (t t' : List Char) {s s' : List Lexeme} (hs : Forall₂ S s s') :
    (∃ ss ss', statementsOrStop t s = .ok ss ∧ statementsOrStop t' s' = .ok ss' ∧
      ss.map Statement.unlabelled = ss'.map Statement.unlabelled) ∨
    ∃ k, statementsOrStop t s = .error k ∧ statementsOrStop t' s' = .error k := by
  have hcarries : Carries S [] (Forall₂ SameUnlabelled) (diagram t) (diagram t') :=
    carries_diagram h
  cases hfound : (diagram t s).found with
  | some found =>
    obtain ⟨ss, n⟩ := found
    have hrun : (diagram t).run s = some (ss, s.drop n) := by rw [run, hfound]; rfl
    obtain ⟨ss', r', hss, -, hrun'⟩ := hcarries.some hs hrun
    rw [append_nil, run, Option.map_eq_some_iff] at hrun'
    obtain ⟨⟨ss₁, n'⟩, hfound', heq⟩ := hrun'
    obtain rfl : ss₁ = ss' := (Prod.mk.inj heq).1
    refine .inl ⟨ss, ss₁, by simp [statementsOrStop, hfound], by simp [statementsOrStop, hfound'],
      ?_⟩
    rw [← forall₂_eq_eq_eq, forall₂_map_left_iff, forall₂_map_right_iff]
    exact hss
  | none =>
    have hsame : SameTokens ((diagram t s).reach + 1) s s' := by
      rw [SameTokens, map_take, map_take, map_token_eq h hs]
    obtain ⟨hreach, hnone⟩ := inStep_diagram t t' _ s s' hsame (Nat.lt_succ_self _)
    rw [hfound, Option.map_none, Option.map_eq_none_iff] at hnone
    exact .inr ⟨_, stop_of_refused.2 ⟨hfound, rfl⟩, stop_of_refused.2 ⟨hnone, hreach⟩⟩

end Grammar

end ClassDiagram
