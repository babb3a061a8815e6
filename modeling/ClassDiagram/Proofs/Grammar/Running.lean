import ClassDiagram.Proofs.Grammar.Unrolling

/-! # Running the combinators

What sequences, choices, options and repetitions find, once it is known what their parts find,
and the token that stands first in what they are given.

* `run_bind_some`, `run_orElse_some`: a sequence and a choice whose first part finds something;
* `run_sepBy1_one`, `run_sepBy1_more`: lists with separators, item by item.
-/

namespace ClassDiagram.Grammar

open Rule

variable {α : Type}

def next (s : List Lexeme) : Option Token := s.head?.map Lexeme.token

@[simp] theorem next_nil : next [] = none := rfl

@[simp] theorem next_cons (l : Lexeme) (s : List Lexeme) : next (l :: s) = some l.token := rfl

@[simp] theorem next_append (u v : List Lexeme) : next (u ++ v) = (next u).or (next v) := by
  cases u <;> rfl

/-! ## Sequences and choices -/

theorem run_bind_some {β : Type} {p : Rule α} {f : α → Rule β} {s r : List Lexeme} {a : α}
    (h : p.run s = some (a, r)) : (p >>= f).run s = (f a).run r := by
  rw [run_bind, h]
  rfl

theorem run_bind_none {β : Type} {p : Rule α} {f : α → Rule β} {s : List Lexeme}
    (h : p.run s = none) : (p >>= f).run s = none := by
  rw [run_bind, h]
  rfl

theorem run_bind_eq_some {β : Type} {p : Rule α} {f : α → Rule β} {s r : List Lexeme} {b : β}
    (h : (p >>= f).run s = some (b, r)) :
    ∃ a q, p.run s = some (a, q) ∧ (f a).run q = some (b, r) := by
  rw [run_bind] at h
  obtain ⟨⟨a, q⟩, ha, hb⟩ := Option.bind_eq_some_iff.1 h
  exact ⟨a, q, ha, hb⟩

theorem run_orElse_some {p q : Rule α} {s r : List Lexeme} {a : α} (h : p.run s = some (a, r)) :
    (p <|> q).run s = some (a, r) := by
  rw [run_orElse, h]
  rfl

theorem run_orElse_none {p q : Rule α} {s : List Lexeme} (h : p.run s = none) :
    (p <|> q).run s = q.run s := by
  rw [run_orElse, h]
  rfl

/-! ## Single lexemes, options and repetitions -/

theorem run_token {t : Token} {l : Lexeme} (h : l.token = t) (s : List Lexeme) :
    (token t).run (l :: s) = some (l, s) := by
  rw [run_token_cons, if_pos h]

theorem run_token_none {t : Token} {s : List Lexeme} (h : next s ≠ some t) :
    (token t).run s = none := by
  cases s with
  | nil => rfl
  | cons l s =>
    rw [run_token_cons, if_neg]
    exact fun hl => h (by simp [hl])

theorem run_option_some {p : Rule α} {s r : List Lexeme} {a : α} (h : p.run s = some (a, r)) :
    (option p).run s = some (some a, r) :=
  run_orElse_some (run_bind_some h)

theorem run_option_none {p : Rule α} {s : List Lexeme} (h : p.run s = none) :
    (option p).run s = some (none, s) :=
  run_orElse_none (run_bind_none h)

theorem run_flag_true {t : Token} {l : Lexeme} (h : l.token = t) (s : List Lexeme) :
    (flag t).run (l :: s) = some (true, s) :=
  run_orElse_some (run_bind_some (run_token h s))

theorem run_flag_false {t : Token} {s : List Lexeme} (h : next s ≠ some t) :
    (flag t).run s = some (false, s) :=
  run_orElse_none (run_bind_none (run_token_none h))

theorem run_many1_of_many {p : Rule α} (hp : Advances p) {s r : List Lexeme} {as : List α}
    (h : (many p).run s = some (as, r)) (hne : as ≠ []) : (many1 p).run s = some (as, r) := by
  rw [many_eq hp, run_orElse] at h
  cases h1 : (many1 p).run s with
  | none =>
    rw [many1] at h1
    rw [h1] at h
    cases h
    exact absurd rfl hne
  | some found =>
    rw [many1] at h1
    rw [h1] at h
    exact h

theorem advances_behind {p : Rule α} {D : Language α} (hp : Reads p D) {t : Token}
    (ht : t.isTrivia = false) : Advances (do let _ ← token t; p) := by
  refine (Reads.bind (.token ht) fun _ => hp).advances ?_
  rintro a _ ⟨l, _, w, ⟨_, rfl⟩, _, rfl⟩
  simp

theorem run_sepBy1_one {p : Rule α} {D : Language α} (hp : Reads p D) {t : Token}
    (ht : t.isTrivia = false) {s r : List Lexeme} {a : α} (h : p.run s = some (a, r))
    (hr : next r ≠ some t) : (sepBy1 p t).run s = some ([a], r) := by
  have hnone : (do let _ ← token t; p).run r = none := run_bind_none (run_token_none hr)
  rw [sepBy1, run_bind_some h, run_bind_some (run_many_of_none (advances_behind hp ht) hnone),
    run_pure]

theorem run_sepBy1_more {p : Rule α} {D : Language α} (hp : Reads p D) {t : Token}
    (ht : t.isTrivia = false) {s r q : List Lexeme} {a : α} {as : List α} {c : Lexeme}
    (h : p.run s = some (a, c :: r)) (hc : c.token = t)
    (hr : (sepBy1 p t).run r = some (as, q)) : (sepBy1 p t).run s = some (a :: as, q) := by
  obtain ⟨b, r', hb, hr⟩ := run_bind_eq_some hr
  obtain ⟨bs, q', hbs, hr⟩ := run_bind_eq_some hr
  rw [run_pure] at hr
  cases hr
  have hone : (do let _ ← token t; p).run (c :: r) = some (b, r') := by
    rw [run_bind_some (run_token hc r), hb]
  rw [sepBy1, run_bind_some h, run_bind_some (run_many_of_some (advances_behind hp ht) hone hbs),
    run_pure]

theorem run_between {p : Rule α} {o c : Lexeme} {opening closing : Token} {s r : List Lexeme}
    {a : α} (ho : o.token = opening) (h : p.run s = some (a, c :: r)) (hc : c.token = closing) :
    (between opening closing p).run (o :: s) = some (a, r) := by
  rw [between, run_bind_some (run_token ho s), run_bind_some h, run_bind_some (run_token hc r),
    run_pure]

theorem run_between_none {p : Rule α} {opening closing : Token} {s : List Lexeme}
    (h : next s ≠ some opening) : (between opening closing p).run s = none :=
  run_bind_none (run_token_none h)

end ClassDiagram.Grammar
