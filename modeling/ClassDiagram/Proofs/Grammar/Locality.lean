import ClassDiagram.Proofs.Grammar.Statements

/-! # A rule sees only what it reached

How far a rule gets, and how many lexemes it uses, depends on the tokens up to the one at which
it was stopped, and on nothing else: not on the texts of the lexemes, nor on their places, nor on
anything that stands further on.

* `SameTokens k`: two lists whose first `k` tokens are the same, ends included;
* `InStep`: two rules that cannot part on such lists before `k` tokens are seen;
* `inStep_diagram`: the rule for diagrams is in step with itself, whatever the texts are from
  which labels are cut.
-/

namespace ClassDiagram.Grammar

open Rule

variable {α β γ δ : Type}

/-- The first `k` tokens are the same; a list that ends before ends in both. -/
def SameTokens (k : Nat) (s s' : List Lexeme) : Prop :=
  (s.take k).map Lexeme.token = (s'.take k).map Lexeme.token

namespace SameTokens

theorem symm {k : Nat} {s s' : List Lexeme} (h : SameTokens k s s') : SameTokens k s' s :=
  Eq.symm h

theorem take (k : Nat) (s : List Lexeme) : SameTokens k s (s.take k) := by
  rw [SameTokens, List.take_take, Nat.min_self]

theorem append (s z w : List Lexeme) : SameTokens s.length (s ++ z) (s ++ w) := by
  rw [SameTokens, List.take_left, List.take_left]

theorem drop {k n : Nat} {s s' : List Lexeme} (h : SameTokens k s s') :
    SameTokens (k - n) (s.drop n) (s'.drop n) := by
  have hd := congrArg (List.drop n) h
  simpa only [SameTokens, ← List.drop_take, List.map_drop] using hd

theorem nil {k : Nat} {s' : List Lexeme} (h : SameTokens (k + 1) [] s') : s' = [] := by
  cases s' with
  | nil => rfl
  | cons l s' => simp [SameTokens] at h

theorem cons {k : Nat} {l : Lexeme} {s s' : List Lexeme} (h : SameTokens (k + 1) (l :: s) s') :
    ∃ l' t, s' = l' :: t ∧ l'.token = l.token := by
  cases s' with
  | nil => simp [SameTokens] at h
  | cons l' t =>
    simp only [SameTokens, List.take_succ_cons, List.map_cons, List.cons.injEq] at h
    exact ⟨l', t, rfl, h.1.symm⟩

end SameTokens

/-- Where the first `k` tokens are the same and `p` is stopped before them all, `q` is stopped at
the same token, finds something exactly if `p` does, and uses as many lexemes for it. -/
def InStep (p : Rule α) (q : Rule β) : Prop :=
  ∀ k s s', SameTokens k s s' → (p s).reach < k →
    (q s').reach = (p s).reach ∧ (q s').found.map Prod.snd = (p s).found.map Prod.snd

namespace InStep

theorem give (a : α) (b : β) : InStep (Rule.give a) (Rule.give b) :=
  fun _ _ _ _ _ => ⟨rfl, rfl⟩

theorem refuse : InStep (Rule.refuse : Rule α) (Rule.refuse : Rule β) :=
  fun _ _ _ _ _ => ⟨rfl, rfl⟩

theorem lexeme {test : Lexeme → Bool}
    (ht : ∀ l l' : Lexeme, l'.token = l.token → test l' = test l) :
    InStep (Rule.lexeme test) (Rule.lexeme test) := by
  intro k s s' h hk
  obtain ⟨k, rfl⟩ := Nat.exists_eq_add_of_le' (Nat.one_le_of_lt hk)
  cases s with
  | nil =>
    rw [h.nil]
    exact ⟨rfl, rfl⟩
  | cons l s =>
    obtain ⟨l', t, rfl, hl⟩ := h.cons
    simp only [Rule.lexeme, ht l l' hl]
    split <;> exact ⟨rfl, rfl⟩

theorem token (t : Token) : InStep (Rule.token t) (Rule.token t) :=
  lexeme fun l l' h => by rw [h]

theorem atEnd : InStep Rule.atEnd Rule.atEnd := by
  intro k s s' h hk
  obtain ⟨k, rfl⟩ := Nat.exists_eq_add_of_le' (Nat.one_le_of_lt hk)
  cases s with
  | nil =>
    rw [h.nil]
    exact ⟨rfl, rfl⟩
  | cons l s =>
    obtain ⟨l', t, rfl, _⟩ := h.cons
    exact ⟨rfl, rfl⟩

/-- What the first parts find may differ, so the second parts are in step for all values. -/
theorem bind {p : Rule α} {q : Rule β} {f : α → Rule γ} {g : β → Rule δ} (hp : InStep p q)
    (hf : ∀ a b, InStep (f a) (g b)) : InStep (p >>= f) (q >>= g) := by
  intro k s s' h hk
  change (Rule.andThen p f s).reach < k at hk
  show (Rule.andThen q g s').reach = (Rule.andThen p f s).reach ∧
    (Rule.andThen q g s').found.map Prod.snd = (Rule.andThen p f s).found.map Prod.snd
  cases hfound : (p s).found with
  | none =>
    simp only [Rule.andThen, hfound] at hk ⊢
    obtain ⟨hreach, hnone⟩ := hp k s s' h hk
    rw [hfound, Option.map_none, Option.map_eq_none_iff] at hnone
    simp only [hnone]
    exact ⟨hreach, rfl⟩
  | some found =>
    obtain ⟨a, n⟩ := found
    simp only [Rule.andThen, hfound] at hk ⊢
    obtain ⟨hreach, hsome⟩ := hp k s s' h (by omega)
    rw [hfound, Option.map_some, Option.map_eq_some_iff] at hsome
    obtain ⟨⟨b, n'⟩, hb, hn⟩ := hsome
    change n' = n at hn
    subst hn
    obtain ⟨hreach', hmap⟩ := hf a b (k - n') _ _ (h.drop (n := n')) (by omega)
    simp only [hb, hreach, hreach', Option.map_map]
    refine ⟨trivial, ?_⟩
    -- both count on from the same number
    have hcount : ∀ {ε : Type} (o : Option (ε × Nat)),
        o.map (Prod.snd ∘ fun x => (x.1, n' + x.2)) = (o.map Prod.snd).map (n' + ·) := by
      intro ε o
      cases o <;> rfl
    exact (hcount _).trans ((congrArg _ hmap).trans (hcount _).symm)

theorem orElse {p p' : Rule α} {q q' : Rule β} (hp : InStep p q) (hp' : InStep p' q') :
    InStep (p <|> p') (q <|> q') := by
  intro k s s' h hk
  change (Rule.orElse p p' s).reach < k at hk
  show (Rule.orElse q q' s').reach = (Rule.orElse p p' s).reach ∧
    (Rule.orElse q q' s').found.map Prod.snd = (Rule.orElse p p' s).found.map Prod.snd
  cases hfound : (p s).found with
  | some found =>
    simp only [Rule.orElse, hfound] at hk ⊢
    obtain ⟨hreach, hsome⟩ := hp k s s' h hk
    obtain ⟨⟨b, n⟩, hb, _⟩ :=
      Option.map_eq_some_iff.1 (hsome.trans (by rw [hfound, Option.map_some]))
    rw [hb, hfound] at hsome
    simp only [hb]
    exact ⟨hreach, hsome⟩
  | none =>
    simp only [Rule.orElse, hfound] at hk ⊢
    obtain ⟨hreach, hnone⟩ := hp k s s' h (by omega)
    rw [hfound, Option.map_none, Option.map_eq_none_iff] at hnone
    obtain ⟨hreach', hmap⟩ := hp' k s s' h (by omega)
    simp only [hnone, hreach, hreach']
    exact ⟨trivial, hmap⟩

/-! ## Derived combinators -/

theorem option {p : Rule α} {q : Rule β} (h : InStep p q) :
    InStep (Rule.option p) (Rule.option q) :=
  (h.bind fun _ _ => give _ _).orElse (give _ _)

theorem flag (t : Token) : InStep (Rule.flag t) (Rule.flag t) :=
  ((token t).bind fun _ _ => give _ _).orElse (give _ _)

theorem upTo {p : Rule α} {q : Rule β} (h : InStep p q) (n : Nat) :
    InStep (Rule.upTo n p) (Rule.upTo n q) := by
  induction n with
  | zero => exact give _ _
  | succ n ih => exact (h.bind fun _ _ => ih.bind fun _ _ => give _ _).orElse (give _ _)

theorem many {p : Rule α} {q : Rule β} (h : InStep p q) (hp : Advances p) (hq : Advances q) :
    InStep (Rule.many p) (Rule.many q) := by
  intro k s s' hs hk
  -- one bound that is large enough for both lists
  have hps := upTo_eq_many hp (n := s.length + s'.length + 1) (s := s) (by omega)
  have hqs := upTo_eq_many hq (n := s.length + s'.length + 1) (s := s') (by omega)
  rw [← hps] at hk
  rw [← hps, ← hqs]
  exact h.upTo _ k s s' hs hk

theorem many1 {p : Rule α} {q : Rule β} (h : InStep p q) (hp : Advances p) (hq : Advances q) :
    InStep (Rule.many1 p) (Rule.many1 q) :=
  h.bind fun _ _ => (h.many hp hq).bind fun _ _ => give _ _

theorem sepBy1 {p : Rule α} {q : Rule β} {D : Language α} {E : Language β} (h : InStep p q)
    (hp : Reads p D) (hq : Reads q E) {t : Token} (ht : t.isTrivia = false) :
    InStep (Rule.sepBy1 p t) (Rule.sepBy1 q t) :=
  h.bind fun _ _ =>
    (((token t).bind fun _ _ => h).many (advances_behind hp ht) (advances_behind hq ht)).bind
      fun _ _ => give _ _

theorem between {p : Rule α} {q : Rule β} (h : InStep p q) (opening closing : Token) :
    InStep (Rule.between opening closing p) (Rule.between opening closing q) :=
  (token opening).bind fun _ _ => h.bind fun _ _ => (token closing).bind fun _ _ => give _ _

end InStep

/-! ## The rules -/

theorem inStep_word : InStep word word :=
  (InStep.token _).bind fun _ _ => .give _ _

theorem inStep_keyword : InStep keyword keyword :=
  ((InStep.token _).orElse ((InStep.token _).orElse ((InStep.token _).orElse (.token _)))).bind
    fun _ _ => .give _ _

theorem inStep_name : InStep name name := inStep_word.orElse inStep_keyword

theorem inStep_suffix :
    InStep (arraySuffix <|> nullableSuffix) (arraySuffix <|> nullableSuffix) := by
  have commas : InStep (many (token .comma)) (many (token .comma)) :=
    (InStep.token _).many (advances_token _) (advances_token _)
  exact ((commas.between _ _).bind fun _ _ => .give _ _).orElse
    ((InStep.token _).bind fun _ _ => .give _ _)

theorem inStep_typeNameBelow (depth : Nat) :
    InStep (typeNameBelow depth) (typeNameBelow depth) := by
  induction depth with
  | zero => exact .refuse
  | succ depth ih =>
    have hreads := reads_typeNameBelow depth
    have hnames := ih.sepBy1 hreads hreads (t := .comma) rfl
    have hargs : InStep
        (angleArguments (typeNameBelow depth) <|> tildeArguments (typeNameBelow depth))
        (angleArguments (typeNameBelow depth) <|> tildeArguments (typeNameBelow depth)) :=
      ((hnames.between _ _).bind fun _ _ => .give _ _).orElse
        ((hnames.between _ _).bind fun _ _ => .give _ _)
    exact inStep_word.bind fun _ _ => hargs.option.bind fun _ _ =>
      (inStep_suffix.many advances_suffix advances_suffix).bind fun _ _ => .give _ _

theorem inStep_typeName : InStep typeName typeName := by
  intro k s s' h hk
  have hs : typeNameBelow (s.length + s'.length + 1) s = typeName s :=
    typeNameBelow_eq_typeName (by omega)
  have hs' : typeNameBelow (s.length + s'.length + 1) s' = typeName s' :=
    typeNameBelow_eq_typeName (by omega)
  rw [← hs] at hk
  rw [← hs, ← hs']
  exact inStep_typeNameBelow _ k s s' h hk

theorem inStep_argument : InStep argument argument :=
  ((inStep_typeName.orElse inStep_keyword).many1 advances_argumentPart advances_argumentPart).bind
    fun _ _ => .give _ _

theorem inStep_arguments : InStep arguments arguments :=
  ((inStep_argument.sepBy1 reads_argument reads_argument rfl).option.between _ _).bind
    fun _ _ => .give _ _

theorem inStep_method : InStep method method :=
  inStep_name.bind fun _ _ => inStep_arguments.bind fun _ _ => (InStep.flag _).bind fun _ _ =>
    ((InStep.flag _).bind fun _ _ => inStep_typeName).option.bind fun _ _ =>
    (((InStep.token _).orElse (.token _)).many advances_classifier advances_classifier).bind
      fun _ _ => .give _ _

theorem inStep_field : InStep field field := by
  have typed : InStep typedField typedField :=
    inStep_typeName.bind fun _ _ => inStep_name.bind fun _ _ => (InStep.flag _).bind
      fun _ _ => .give _ _
  have ascribed : InStep ascribedField ascribedField :=
    inStep_name.bind fun _ _ => (InStep.token _).bind fun _ _ => inStep_typeName.bind
      fun _ _ => (InStep.flag _).bind fun _ _ => .give _ _
  have bare : InStep bareField bareField :=
    inStep_name.bind fun _ _ => (InStep.flag _).bind fun _ _ => .give _ _
  exact typed.orElse (ascribed.orElse bare)

theorem inStep_visibility : InStep visibility visibility := by
  have sign : ∀ (t : Token) (v : Visibility), InStep (do let _ ← token t; return v)
      (do let _ ← token t; return v) := fun t v => (InStep.token t).bind fun _ _ => .give _ _
  exact ((sign _ _).orElse ((sign _ _).orElse ((sign _ _).orElse (sign _ _)))).option.bind
    fun _ _ => .give _ _

theorem inStep_member : InStep member member :=
  inStep_visibility.bind fun _ _ =>
    ((inStep_method.bind fun _ _ => .give _ _).orElse
      (inStep_field.bind fun _ _ => .give _ _)).bind fun _ _ => .give _ _

theorem inStep_blankLines : InStep blankLines blankLines :=
  (InStep.token _).many (advances_token _) (advances_token _)

theorem inStep_tag : InStep tag tag :=
  (InStep.token _).bind fun _ _ => inStep_word.bind fun _ _ => (InStep.token _).bind fun _ _ =>
    (InStep.token _).bind fun _ _ => .give _ _

theorem inStep_bodyItem : InStep bodyItem bodyItem :=
  ((inStep_tag.bind fun _ _ => .give _ _).orElse (inStep_member.bind fun _ _ => .give _ _)).bind
    fun _ _ => inStep_blankLines.bind fun _ _ => .give _ _

theorem inStep_body : InStep body body :=
  (InStep.token _).bind fun _ _ => inStep_blankLines.bind fun _ _ =>
    (inStep_bodyItem.many advances_bodyItem advances_bodyItem).bind fun _ _ =>
    (InStep.token _).bind fun _ _ => .give _ _

theorem inStep_declaration : InStep declaration declaration :=
  (InStep.token _).bind fun _ _ => inStep_typeName.bind fun _ _ => inStep_body.option.bind
    fun _ _ => .give _ _

theorem inStep_tagging : InStep tagging tagging :=
  inStep_tag.bind fun _ _ => inStep_typeName.bind fun _ _ => .give _ _

theorem inStep_link : InStep link link := by
  have op : ∀ (t : Token) (o : RelationOp), InStep (do let _ ← token t; return o)
      (do let _ ← token t; return o) := fun t o => (InStep.token t).bind fun _ _ => .give _ _
  exact ((op _ _).orElse ((op _ _).orElse ((op _ _).orElse (op _ _)))).bind fun _ _ =>
    inStep_typeName.bind fun _ _ => .give _ _

/-- A label is the only thing that is cut out of the text, and it is found in any text. -/
theorem inStep_label (text text' : List Char) : InStep (label text) (label text') :=
  (InStep.token _).bind fun _ _ =>
    ((InStep.lexeme fun _ _ h => by rw [h]).many1 advances_labelPart advances_labelPart).bind
      fun _ _ => .give _ _

theorem inStep_chain (text text' : List Char) : InStep (chain text) (chain text') :=
  inStep_typeName.bind fun _ _ => (inStep_link.many1 advances_link advances_link).bind fun _ _ =>
    (inStep_label text text').option.bind fun _ _ => .give _ _

theorem inStep_ownedMember : InStep ownedMember ownedMember :=
  inStep_typeName.bind fun _ _ => (InStep.token _).bind fun _ _ => inStep_member.bind
    fun _ _ => .give _ _

theorem inStep_note : InStep note note :=
  (InStep.token _).bind fun _ _ => ((InStep.token _).bind fun _ _ => inStep_typeName).option.bind
    fun _ _ => (InStep.token _).bind fun _ _ => .give _ _

theorem inStep_statement (text text' : List Char) : InStep (statement text) (statement text') :=
  (inStep_declaration.bind fun _ _ => .give _ _).orElse <|
  (inStep_tagging.bind fun _ _ => .give _ _).orElse <|
  ((inStep_chain text text').bind fun _ _ => .give _ _).orElse <|
  (inStep_ownedMember.bind fun _ _ => .give _ _).orElse <|
  inStep_note.bind fun _ _ => .give _ _

theorem inStep_statementLine (text text' : List Char) :
    InStep (statementLine text) (statementLine text') :=
  ((InStep.token _).many1 (advances_token _) (advances_token _)).bind fun _ _ =>
    inStep_statement text text'

theorem inStep_diagram (text text' : List Char) : InStep (diagram text) (diagram text') :=
  inStep_blankLines.bind fun _ _ => (InStep.token _).bind fun _ _ =>
    ((inStep_statementLine text text').many (advances_statementLine text)
      (advances_statementLine text')).bind fun _ _ =>
    inStep_blankLines.bind fun _ _ => InStep.atEnd.bind fun _ _ => .give _ _

end ClassDiagram.Grammar
