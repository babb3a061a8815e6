import ClassDiagram.Proofs.Grammar.Soundness

/-! # Repetition and nesting without bounds

A repetition stops after as many times as there are lexemes, and type arguments nest less deep
than there are lexemes.  Neither bound is ever reached, since each time and each level uses a
lexeme.  So both rules satisfy the equations that one would write down without a bound.

* `many_eq`: a repetition is its rule and then the repetition again, or nothing;
* `typeName_eq`: a type name reads its arguments by the rule of type names;
* `run_many_of_some`, `run_many_of_none`: what a repetition finds.
-/

namespace ClassDiagram.Grammar

open Rule

variable {α β : Type}

/-- What `p` finds always uses a lexeme. -/
def Advances (p : Rule α) : Prop :=
  ∀ s a n, (p s).found = some (a, n) → 0 < n ∧ n ≤ s.length

theorem Reads.advances {p : Rule α} {D : Language α} (hp : Reads p D)
    (hD : ∀ a u, D a u → u ≠ []) : Advances p := by
  intro s a n h
  refine ⟨Nat.pos_of_ne_zero ?_, (hp.used_le h).1⟩
  rintro rfl
  exact hD _ _ (hp.sound h) List.take_zero

/-! ## Rules that agree on short lists -/

/-- `p` and `q` do the same on lists of fewer than `m` lexemes. -/
def EqBelow (m : Nat) (p q : Rule α) : Prop :=
  ∀ s, s.length < m → p s = q s

namespace EqBelow

theorem refl (m : Nat) (p : Rule α) : EqBelow m p p := fun _ _ => rfl

theorem bind {m : Nat} {p q : Rule α} {f g : α → Rule β} (hp : EqBelow m p q)
    (hf : ∀ a, EqBelow m (f a) (g a)) : EqBelow m (p >>= f) (q >>= g) := by
  intro s hs
  show andThen p f s = andThen q g s
  simp only [andThen, hp s hs]
  cases h : (q s).found with
  | none => rfl
  | some found =>
    have hd : (s.drop found.2).length < m := by
      rw [List.length_drop]
      omega
    simp only [hf found.1 _ hd]

/-- Behind a rule that uses a lexeme the list is shorter. -/
theorem bind_advances {m : Nat} {p : Rule α} {f g : α → Rule β} (hp : Advances p)
    (hf : ∀ a, EqBelow m (f a) (g a)) : EqBelow (m + 1) (p >>= f) (p >>= g) := by
  intro s hs
  show andThen p f s = andThen p g s
  simp only [andThen]
  cases h : (p s).found with
  | none => rfl
  | some found =>
    have hn := hp s found.1 found.2 h
    have hd : (s.drop found.2).length < m := by
      rw [List.length_drop]
      omega
    simp only [hf found.1 _ hd]

theorem orElse {m : Nat} {p p' q q' : Rule α} (hp : EqBelow m p p') (hq : EqBelow m q q') :
    EqBelow m (p <|> q) (p' <|> q') := by
  intro s hs
  show Rule.orElse p q s = Rule.orElse p' q' s
  simp only [Rule.orElse, hp s hs, hq s hs]

theorem option {m : Nat} {p q : Rule α} (h : EqBelow m p q) :
    EqBelow m (Rule.option p) (Rule.option q) :=
  (h.bind fun _ => refl m _).orElse (refl m _)

theorem upTo {m : Nat} {p q : Rule α} (h : EqBelow m p q) (n : Nat) :
    EqBelow m (Rule.upTo n p) (Rule.upTo n q) := by
  induction n with
  | zero => exact refl m _
  | succ n ih => exact (h.bind fun _ => ih.bind fun _ => refl m _).orElse (refl m _)

theorem many {m : Nat} {p q : Rule α} (h : EqBelow m p q) :
    EqBelow m (Rule.many p) (Rule.many q) :=
  fun s hs => h.upTo (s.length + 1) s hs

theorem sepBy1 {m : Nat} {p q : Rule α} (h : EqBelow m p q) (t : Token) :
    EqBelow m (Rule.sepBy1 p t) (Rule.sepBy1 q t) :=
  h.bind fun _ => ((refl m _).bind fun _ => h).many.bind fun _ => refl m _

theorem between {m : Nat} {p q : Rule α} (h : EqBelow m p q) (opening closing : Token) :
    EqBelow m (Rule.between opening closing p) (Rule.between opening closing q) :=
  (refl m _).bind fun _ => h.bind fun _ => refl m _

end EqBelow

/-! ## Repetition -/

theorem upTo_eq {p : Rule α} (hp : Advances p) {m n k : Nat} (hn : m ≤ n) (hk : m ≤ k) :
    EqBelow m (upTo n p) (upTo k p) := by
  induction m generalizing n k with
  | zero =>
    intro s hs
    exact absurd hs (Nat.not_lt_zero _)
  | succ m ih =>
    obtain ⟨n, rfl⟩ := Nat.exists_eq_add_of_le' hn
    obtain ⟨k, rfl⟩ := Nat.exists_eq_add_of_le' hk
    have h := ih (n := n + m) (k := k + m) (Nat.le_add_left _ _) (Nat.le_add_left _ _)
    exact (EqBelow.bind_advances hp fun _ => h.bind fun _ => .refl _ _).orElse (.refl _ _)

theorem upTo_eq_many {p : Rule α} (hp : Advances p) {n : Nat} {s : List Lexeme}
    (hs : s.length < n) : upTo n p s = many p s :=
  upTo_eq hp hs (Nat.le_refl (s.length + 1)) s (Nat.lt_succ_self _)

theorem many_eq {p : Rule α} (hp : Advances p) :
    many p = ((do let a ← p; let rest ← many p; return a :: rest) <|> give []) := by
  funext s
  have h : EqBelow s.length (upTo s.length p) (many p) := fun t ht => upTo_eq_many hp ht
  exact ((EqBelow.bind_advances hp fun _ => h.bind fun _ => .refl _ _).orElse (.refl _ _)) s
    (Nat.lt_succ_self _)

theorem run_many_of_none {p : Rule α} (hp : Advances p) {s : List Lexeme} (h : p.run s = none) :
    (many p).run s = some ([], s) := by
  rw [many_eq hp, run_orElse, run_bind, h]
  rfl

theorem run_many_of_some {p : Rule α} (hp : Advances p) {s r : List Lexeme} {a : α}
    (h : p.run s = some (a, r)) {as : List α} {t : List Lexeme}
    (hr : (many p).run r = some (as, t)) : (many p).run s = some (a :: as, t) := by
  rw [many_eq hp, run_orElse, run_bind, h]
  simp [run_bind, hr, run_pure]

/-! ## Nesting -/

theorem advances_token (t : Token) : Advances (token t) := by
  intro s a n h
  cases s with
  | nil => cases h
  | cons l s =>
    simp only [token, lexeme] at h
    split at h
    · cases h
      exact ⟨Nat.one_pos, by simp⟩
    · cases h

theorem advances_word : Advances word :=
  reads_word.advances fun _ _ ⟨_, _, _, hu⟩ => by simp [hu]

theorem typeNameOver_eq {m : Nat} {p q : Rule String} (h : EqBelow m p q) :
    EqBelow (m + 1) (typeNameOver p) (typeNameOver q) := by
  have angle : EqBelow m (angleArguments p) (angleArguments q) :=
    ((h.sepBy1 _).between _ _).bind fun _ => .refl _ _
  have tilde : EqBelow m (tildeArguments p) (tildeArguments q) :=
    ((h.sepBy1 _).between _ _).bind fun _ => .refl _ _
  exact EqBelow.bind_advances advances_word fun _ =>
    (angle.orElse tilde).option.bind fun _ => .refl _ _

theorem typeNameBelow_eq {m d e : Nat} (hd : m ≤ d) (he : m ≤ e) :
    EqBelow m (typeNameBelow d) (typeNameBelow e) := by
  induction m generalizing d e with
  | zero =>
    intro s hs
    exact absurd hs (Nat.not_lt_zero _)
  | succ m ih =>
    obtain ⟨d, rfl⟩ := Nat.exists_eq_add_of_le' hd
    obtain ⟨e, rfl⟩ := Nat.exists_eq_add_of_le' he
    exact typeNameOver_eq (ih (d := d + m) (e := e + m) (Nat.le_add_left _ _) (Nat.le_add_left _ _))

theorem typeNameBelow_eq_typeName {depth : Nat} {s : List Lexeme} (hs : s.length < depth) :
    typeNameBelow depth s = typeName s :=
  typeNameBelow_eq hs (Nat.le_refl (s.length + 1)) s (Nat.lt_succ_self _)

theorem typeName_eq : typeName = typeNameOver typeName := by
  funext s
  have h : EqBelow s.length (typeNameBelow s.length) typeName := fun t ht =>
    typeNameBelow_eq_typeName ht
  exact typeNameOver_eq h s (Nat.lt_succ_self _)

end ClassDiagram.Grammar
