import ClassDiagram.Grammar.Rule

/-! # What a rule reads

A language says which stretches of lexemes are written for a value.  A rule reads a language when
it finds nothing else, and when it is stopped by the end of the lexemes only where more of them
would make a phrase of the language.

* `Reads.bind`, `Reads.orElse`: a sequence reads one phrase behind another, a choice either of
  two;
* `Reads.many`: a repetition reads phrases one behind another;
* `Reads.run_eq`: what a rule finds is a phrase at the start of what it was given.
-/

namespace ClassDiagram.Grammar

/-- Which lexemes may be written for a value. -/
abbrev Language (α : Type) := α → List Lexeme → Prop

/-- Lexemes that a text can leave to the grammar: none of them is trivia. -/
def Significant (s : List Lexeme) : Prop :=
  ∀ l ∈ s, l.token.isTrivia = false

theorem Significant.append {u v : List Lexeme} (hu : Significant u) (hv : Significant v) :
    Significant (u ++ v) := by
  intro l hl
  rcases List.mem_append.1 hl with h | h
  · exact hu l h
  · exact hv l h

/-- `p` finds only phrases of `D`.  Where it got as far as the last lexeme, some phrase of `D`
begins with all of them. -/
structure Reads {α : Type} (p : Rule α) (D : Language α) : Prop where
  reach_le : ∀ s, (p s).reach ≤ s.length
  used_le : ∀ {s a n}, (p s).found = some (a, n) → n ≤ s.length ∧ n ≤ (p s).reach + 1
  sound : ∀ {s a n}, (p s).found = some (a, n) → D a (s.take n)
  viable : ∀ {s}, (p s).reach = s.length → ∃ a z, Significant z ∧ D a (s ++ z)

/-! ## Languages of the combinators -/

namespace Language

/-- The phrases of one value: no lexeme. -/
def only {α : Type} (a : α) : Language α := fun b u => b = a ∧ u = []

/-- A phrase of `D` and behind it one of the language that its value chooses. -/
def andThen {α β : Type} (D : Language α) (E : α → Language β) : Language β := fun b u =>
  ∃ a v w, D a v ∧ E a b w ∧ u = v ++ w

def either {α : Type} (D E : Language α) : Language α := fun a u => D a u ∨ E a u

def lexeme (test : Lexeme → Bool) : Language Lexeme := fun l u => test l = true ∧ u = [l]

/-- A phrase of `D`, or no lexeme for no value. -/
def optional {α : Type} (D : Language α) : Language (Option α) := fun o u =>
  match o with
  | none => u = []
  | some a => D a u

end Language

inductive Many {α : Type} (D : Language α) : Language (List α)
  | nil : Many D [] []
  | cons {a : α} {as : List α} {u v : List Lexeme} :
      D a u → Many D as v → Many D (a :: as) (u ++ v)

/-- At least one phrase, with a token between any two of them. -/
inductive Separated {α : Type} (D : Language α) (t : Token) : Language (List α)
  | one {a : α} {u : List Lexeme} : D a u → Separated D t [a] u
  | more {a : α} {as : List α} {u v : List Lexeme} {c : Lexeme} :
      D a u → c.token = t → Separated D t as v → Separated D t (a :: as) (u ++ c :: v)

namespace Reads

variable {α β : Type}

theorem mono {p : Rule α} {D E : Language α} (h : Reads p D) (hDE : ∀ a u, D a u → E a u) :
    Reads p E where
  reach_le := h.reach_le
  used_le := h.used_le
  sound hs := hDE _ _ (h.sound hs)
  viable hs := by
    obtain ⟨a, z, hz, hD⟩ := h.viable hs
    exact ⟨a, z, hz, hDE _ _ hD⟩

/-- Every language that is read has a phrase: reading nothing stops at the end. -/
theorem exists_phrase {p : Rule α} {D : Language α} (h : Reads p D) :
    ∃ a z, Significant z ∧ D a z := by
  have h0 : (p []).reach = ([] : List Lexeme).length := Nat.le_zero.1 (h.reach_le [])
  obtain ⟨a, z, hz, hD⟩ := h.viable h0
  exact ⟨a, z, hz, hD⟩

theorem give (a : α) : Reads (Rule.give a) (Language.only a) where
  reach_le _ := Nat.zero_le _
  used_le h := by
    cases h
    exact ⟨Nat.zero_le _, Nat.zero_le _⟩
  sound h := by
    cases h
    exact ⟨rfl, rfl⟩
  viable h := by
    rename_i s
    have hs : s = [] := List.length_eq_zero_iff.1 h.symm
    subst hs
    exact ⟨a, [], by simp [Significant], rfl, rfl⟩

theorem pure (a : α) : Reads (Pure.pure a : Rule α) (Language.only a) := give a

/-- A rule that never finds anything reads every language that has a phrase. -/
theorem refuse {D : Language α} (h : ∃ a z, Significant z ∧ D a z) :
    Reads (Rule.refuse : Rule α) D where
  reach_le _ := Nat.zero_le _
  used_le h := by cases h
  sound h := by cases h
  viable hs := by
    rename_i s
    have hnil : s = [] := List.length_eq_zero_iff.1 hs.symm
    subst hnil
    exact h

theorem lexeme {test : Lexeme → Bool} {l : Lexeme} (hl : test l = true)
    (ht : l.token.isTrivia = false) :
    Reads (Rule.lexeme test) (Language.lexeme test) where
  reach_le s := by
    cases s with
    | nil => exact Nat.le_refl _
    | cons k s =>
      simp only [Rule.lexeme]
      split <;> exact Nat.zero_le _
  used_le {s a n} h := by
    cases s with
    | nil => cases h
    | cons k s =>
      simp only [Rule.lexeme] at h ⊢
      split at h
      · cases h
        exact ⟨by simp, by omega⟩
      · cases h
  sound {s a n} h := by
    cases s with
    | nil => cases h
    | cons k s =>
      simp only [Rule.lexeme] at h
      split at h
      · rename_i hk
        cases h
        exact ⟨hk, rfl⟩
      · cases h
  viable {s} h := by
    cases s with
    | nil => exact ⟨l, [l], by simpa [Significant] using ht, hl, rfl⟩
    | cons k s =>
      simp only [Rule.lexeme] at h
      split at h <;> simp at h

theorem bind {p : Rule α} {f : α → Rule β} {D : Language α} {E : α → Language β}
    (hp : Reads p D) (hf : ∀ a, Reads (f a) (E a)) :
    Reads (p >>= f) (Language.andThen D E) where
  reach_le s := by
    show (Rule.andThen p f s).reach ≤ _
    have h1 := hp.reach_le s
    cases h : (p s).found with
    | none => simpa [Rule.andThen, h] using h1
    | some found =>
      obtain ⟨a, n⟩ := found
      have h2 := (hf a).reach_le (s.drop n)
      have hn := (hp.used_le h).1
      simp only [Rule.andThen, h, List.length_drop] at h2 ⊢
      omega
  used_le {s b m} hs := by
    change (Rule.andThen p f s).found = _ at hs
    show m ≤ _ ∧ m ≤ (Rule.andThen p f s).reach + 1
    cases h : (p s).found with
    | none => simp [Rule.andThen, h] at hs
    | some found =>
      obtain ⟨a, n⟩ := found
      simp only [Rule.andThen, h, Option.map_eq_some_iff] at hs ⊢
      obtain ⟨⟨c, k⟩, hk, he⟩ := hs
      cases he
      have hn := hp.used_le h
      have hm := (hf a).used_le hk
      simp only [List.length_drop] at hm
      omega
  sound {s b m} hs := by
    change (Rule.andThen p f s).found = _ at hs
    cases h : (p s).found with
    | none => simp [Rule.andThen, h] at hs
    | some found =>
      obtain ⟨a, n⟩ := found
      simp only [Rule.andThen, h, Option.map_eq_some_iff] at hs
      obtain ⟨⟨c, k⟩, hk, he⟩ := hs
      cases he
      exact ⟨a, s.take n, (s.drop n).take k, hp.sound h, (hf a).sound hk, List.take_add⟩
  viable {s} hs := by
    change (Rule.andThen p f s).reach = _ at hs
    -- where the first rule got to the end, the second one begins behind its completion
    have first : (p s).reach = s.length →
        ∃ b z, Significant z ∧ Language.andThen D E b (s ++ z) := by
      intro h1
      obtain ⟨a, z, hz, hD⟩ := hp.viable h1
      obtain ⟨b, y, hy, hE⟩ := (hf a).exists_phrase
      exact ⟨b, z ++ y, hz.append hy, a, s ++ z, y, hD, hE, (List.append_assoc ..).symm⟩
    cases h : (p s).found with
    | none => exact first (by simpa [Rule.andThen, h] using hs)
    | some found =>
      obtain ⟨a, n⟩ := found
      simp only [Rule.andThen, h] at hs
      have hn := (hp.used_le h).1
      by_cases h1 : (p s).reach = s.length
      · exact first h1
      · have h2 : (f a (s.drop n)).reach = (s.drop n).length := by
          have := hp.reach_le s
          have := (hf a).reach_le (s.drop n)
          simp only [List.length_drop] at this ⊢
          omega
        obtain ⟨b, z, hz, hE⟩ := (hf a).viable h2
        refine ⟨b, z, hz, a, s.take n, s.drop n ++ z, hp.sound h, hE, ?_⟩
        rw [← List.append_assoc, List.take_append_drop]

theorem orElse {p q : Rule α} {D E : Language α} (hp : Reads p D) (hq : Reads q E) :
    Reads (p <|> q) (Language.either D E) where
  reach_le s := by
    show (Rule.orElse p q s).reach ≤ _
    have h1 := hp.reach_le s
    have h2 := hq.reach_le s
    cases h : (p s).found with
    | none => simp only [Rule.orElse, h]; omega
    | some found => simpa [Rule.orElse, h] using h1
  used_le {s a n} hs := by
    change (Rule.orElse p q s).found = _ at hs
    show n ≤ _ ∧ n ≤ (Rule.orElse p q s).reach + 1
    cases h : (p s).found with
    | none =>
      simp only [Rule.orElse, h] at hs ⊢
      have := hq.used_le hs
      omega
    | some found =>
      simp only [Rule.orElse, h] at hs ⊢
      exact hp.used_le (h.trans hs)
  sound {s a n} hs := by
    change (Rule.orElse p q s).found = _ at hs
    cases h : (p s).found with
    | none =>
      simp only [Rule.orElse, h] at hs
      exact Or.inr (hq.sound hs)
    | some found =>
      simp only [Rule.orElse, h] at hs
      exact Or.inl (hp.sound (h.trans hs))
  viable {s} hs := by
    change (Rule.orElse p q s).reach = _ at hs
    have first : (p s).reach = s.length →
        ∃ a z, Significant z ∧ Language.either D E a (s ++ z) := by
      intro h1
      obtain ⟨a, z, hz, hD⟩ := hp.viable h1
      exact ⟨a, z, hz, Or.inl hD⟩
    cases h : (p s).found with
    | some found => exact first (by simpa [Rule.orElse, h] using hs)
    | none =>
      simp only [Rule.orElse, h] at hs
      by_cases h1 : (p s).reach = s.length
      · exact first h1
      · have := hp.reach_le s
        obtain ⟨a, z, hz, hE⟩ := hq.viable (show (q s).reach = s.length by omega)
        exact ⟨a, z, hz, Or.inr hE⟩

/-! ## Derived combinators -/

theorem token {t : Token} (ht : t.isTrivia = false) :
    Reads (Rule.token t) (Language.lexeme fun l => l.token == t) :=
  lexeme (l := ⟨t, "_", 0⟩) (by simp) ht

theorem option {p : Rule α} {D : Language α} (hp : Reads p D) :
    Reads (Rule.option p) (Language.optional D) := by
  refine (orElse (bind hp fun a => pure (some a)) (give none)).mono ?_
  rintro o u (⟨a, v, w, hD, ⟨rfl, rfl⟩, rfl⟩ | ⟨rfl, rfl⟩)
  · simpa [Language.optional] using hD
  · rfl

theorem flag {t : Token} (ht : t.isTrivia = false) :
    Reads (Rule.flag t) fun b u =>
      (b = true ∧ ∃ l, l.token = t ∧ u = [l]) ∨ (b = false ∧ u = []) := by
  refine (orElse (bind (token ht) fun _ => pure true) (give false)).mono ?_
  rintro b u (⟨l, v, w, ⟨hl, rfl⟩, ⟨rfl, rfl⟩, rfl⟩ | ⟨rfl, rfl⟩)
  · exact Or.inl ⟨rfl, l, by simpa using hl, rfl⟩
  · exact Or.inr ⟨rfl, rfl⟩

theorem upTo {p : Rule α} {D : Language α} (hp : Reads p D) (n : Nat) :
    Reads (Rule.upTo n p) (Many D) := by
  induction n with
  | zero =>
    refine (give []).mono ?_
    rintro as u ⟨rfl, rfl⟩
    exact .nil
  | succ n ih =>
    refine (orElse (bind hp fun a => bind ih fun rest => pure (a :: rest)) (give [])).mono ?_
    rintro as u (⟨a, v, _, hD, ⟨rest, w, _, hrest, ⟨rfl, rfl⟩, rfl⟩, rfl⟩ | ⟨rfl, rfl⟩)
    · simpa using Many.cons hD hrest
    · exact .nil

theorem many {p : Rule α} {D : Language α} (hp : Reads p D) :
    Reads (Rule.many p) (Many D) where
  reach_le s := (upTo hp _).reach_le s
  used_le h := (upTo hp _).used_le h
  sound h := (upTo hp _).sound h
  viable h := (upTo hp _).viable h

theorem many1 {p : Rule α} {D : Language α} (hp : Reads p D) :
    Reads (Rule.many1 p) fun as u => as ≠ [] ∧ Many D as u := by
  refine (bind hp fun a => bind (many hp) fun rest => pure (a :: rest)).mono ?_
  rintro as u ⟨a, v, _, hD, ⟨rest, w, _, hrest, ⟨rfl, rfl⟩, rfl⟩, rfl⟩
  exact ⟨List.cons_ne_nil _ _, by simpa using Many.cons hD hrest⟩

theorem sepBy1 {p : Rule α} {D : Language α} (hp : Reads p D) {t : Token}
    (ht : t.isTrivia = false) : Reads (Rule.sepBy1 p t) (Separated D t) := by
  refine (bind hp fun a => bind (many (bind (token ht) fun _ => hp)) fun rest =>
    pure (a :: rest)).mono ?_
  rintro as u ⟨a, v, _, hD, ⟨rest, w, _, hrest, ⟨rfl, rfl⟩, rfl⟩, rfl⟩
  rw [List.append_nil]
  -- the phrases behind the first one come with the separator before them
  clear hp
  induction hrest generalizing a v with
  | nil => simpa using Separated.one hD
  | cons hb _ ih =>
    obtain ⟨c, _, x, ⟨hc, rfl⟩, hx, rfl⟩ := hb
    exact .more hD (by simpa using hc) (ih _ _ hx)

theorem between {p : Rule α} {D : Language α} (hp : Reads p D) {opening closing : Token}
    (ho : opening.isTrivia = false) (hc : closing.isTrivia = false) :
    Reads (Rule.between opening closing p) fun a u =>
      ∃ o v c, o.token = opening ∧ D a v ∧ c.token = closing ∧ u = o :: (v ++ [c]) := by
  refine (bind (token ho) fun _ => bind hp fun a => bind (token hc) fun _ => pure a).mono ?_
  rintro a u ⟨o, _, _, ⟨h1, rfl⟩, ⟨b, v, _, hD, ⟨c, _, _, ⟨h2, rfl⟩, ⟨rfl, rfl⟩, rfl⟩, rfl⟩, rfl⟩
  exact ⟨o, v, c, by simpa using h1, hD, by simpa using h2, by simp⟩

/-- What a rule finds is written at the start of what it was given. -/
theorem run_eq {p : Rule α} {D : Language α} (hp : Reads p D) {s rest : List Lexeme} {a : α}
    (h : p.run s = some (a, rest)) : ∃ u, s = u ++ rest ∧ D a u := by
  simp only [Rule.run, Option.map_eq_some_iff] at h
  obtain ⟨⟨b, n⟩, hf, he⟩ := h
  cases he
  exact ⟨s.take n, (List.take_append_drop n s).symm, hp.sound hf⟩

end Reads

end ClassDiagram.Grammar
