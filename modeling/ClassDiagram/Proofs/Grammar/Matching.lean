import Mathlib.Data.List.Forall2
import ClassDiagram.Proofs.Grammar.Refusal

/-! # Lexemes are read alike wherever they stand

The rules see the tokens and texts of lexemes, but for the texts of line ends, and a label is cut
out of the text between two of them.  So lexemes that look alike are read alike in another text, if
the same stands between them there.  What comes behind them does not matter either, if no rule goes
on with it: a rule inside a line stops at the end of the line, and the items of a block stop at its
closing brace.

* `Alike`: lexemes that no rule tells apart, but for what labels they make;
* `Matching`: lexemes of two texts that look alike;
* `Carries`: what a rule finds in some lexemes, another one finds in matching ones;
* `carries_member`, `carries_bodyItems` and the like: the rules.
-/

namespace ClassDiagram.Grammar

open Rule List

variable {α β γ δ : Type}

/-- Pairs of lexemes that look alike; of a line end only the token is looked at. -/
structure Alike (S : Lexeme → Lexeme → Prop) : Prop where
  token : ∀ {l l'}, S l l' → l.token = l'.token
  text : ∀ {l l'}, S l l' → l.token ≠ .newline → l.text = l'.text

/-- Pairs of lexemes that look alike in two texts, with the same text between any two of them. -/
structure Matching (t t' : List Char) (S : Lexeme → Lexeme → Prop) : Prop where
  face : ∀ {l l'}, S l l' → Grammar.face l = Grammar.face l'
  slice : ∀ {k k' l l'}, S k k' → S l l' →
    Text.slice t k.offset l.stop = Text.slice t' k'.offset l'.stop

namespace Matching

variable {t t' : List Char} {S : Lexeme → Lexeme → Prop}

theorem refl (t : List Char) : Matching t t Eq where
  face h := congrArg _ h
  slice hk hl := by rw [hk, hl]

theorem token (h : Matching t t' S) {l l' : Lexeme} (hl : S l l') : l.token = l'.token :=
  congrArg Prod.fst (h.face hl)

theorem text (h : Matching t t' S) {l l' : Lexeme} (hl : S l l') : l.text = l'.text :=
  congrArg Prod.snd (h.face hl)

theorem alike (h : Matching t t' S) : Alike S where
  token := h.token
  text hl _ := h.text hl

theorem next_eq (h : Matching t t' S) {s s' : List Lexeme} (hs : Forall₂ S s s') :
    next s = next s' := by
  cases hs with
  | nil => rfl
  | cons hl _ => rw [next_cons, next_cons, h.token hl]

theorem newlines (h : Matching t t' S) {s s' : List Lexeme} (hs : Forall₂ S s s')
    (hn : Newlines s) : Newlines s' := by
  induction hs with
  | nil => exact nofun
  | cons hl _ ih =>
    obtain ⟨hfirst, hrest⟩ := forall_mem_cons.1 hn
    exact forall_mem_cons.2 ⟨(h.token hl).symm.trans hfirst, ih hrest⟩

end Matching

/-- In lexemes that match and have `w` behind them, `q` finds something that is in `R` with what
`p` finds, and leaves what matches and `w`; it finds nothing where `p` finds nothing. -/
structure Carries (S : Lexeme → Lexeme → Prop) (w : List Lexeme) (R : α → β → Prop) (p : Rule α)
    (q : Rule β) : Prop where
  some : ∀ {s s' r a}, Forall₂ S s s' → p.run s = .some (a, r) →
    ∃ b r', R a b ∧ Forall₂ S r r' ∧ q.run (s' ++ w) = .some (b, r' ++ w)
  none : ∀ {s s'}, Forall₂ S s s' → p.run s = .none → q.run (s' ++ w) = .none

namespace Carries

variable {S : Lexeme → Lexeme → Prop} {w : List Lexeme} {R : α → β → Prop} {p : Rule α} {q : Rule β}

theorem mono {R' : α → β → Prop} (h : Carries S w R p q) (hR : ∀ {a b}, R a b → R' a b) :
    Carries S w R' p q where
  some hs hp := by
    obtain ⟨b, r', hb, hr, hq⟩ := h.some hs hp
    exact ⟨b, r', hR hb, hr, hq⟩
  none := h.none

theorem give {a : α} {b : β} (h : R a b) : Carries S w R (Rule.give a) (Rule.give b) where
  some hs hp := by
    cases hp
    exact ⟨b, _, h, hs, rfl⟩
  none _ hp := nomatch hp

theorem refuse : Carries S w R (Rule.refuse : Rule α) (Rule.refuse : Rule β) where
  some _ hp := nomatch hp
  none _ _ := rfl

theorem lexeme {test : Lexeme → Bool} (ht : ∀ {l l'}, S l l' → test l = test l')
    (hw : ∀ l ∈ w.head?, test l = false) :
    Carries S w (fun l l' => S l l' ∧ test l = true) (Rule.lexeme test) (Rule.lexeme test) where
  some := by
    intro s s' r a hs hp
    cases hs with
    | nil => cases hp
    | @cons l l' s s' hl hs =>
      have hsame := ht hl
      by_cases htest : test l = true
      · rw [run, Rule.lexeme, if_pos htest] at hp
        cases hp
        exact ⟨l', s', ⟨hl, htest⟩, hs, by simp [run, Rule.lexeme, ← hsame, htest]⟩
      · rw [run, Rule.lexeme, if_neg htest] at hp
        cases hp
  none := by
    intro s s' hs hp
    cases hs with
    | nil =>
      cases w with
      | nil => rfl
      | cons l w =>
        simp [run, Rule.lexeme, hw l rfl]
    | @cons l l' s s' hl hs =>
      have hsame := ht hl
      by_cases htest : test l = true
      · simp [run, Rule.lexeme, htest] at hp
      · simp [run, Rule.lexeme, ← hsame, htest]

theorem bind {R' : γ → δ → Prop} {f : α → Rule γ} {g : β → Rule δ} (hp : Carries S w R p q)
    (hf : ∀ {a b}, R a b → Carries S w R' (f a) (g b)) : Carries S w R' (p >>= f) (q >>= g) where
  some hs h := by
    obtain ⟨a, t, hpa, hfa⟩ := run_bind_eq_some h
    obtain ⟨b, t', hab, ht, hqb⟩ := hp.some hs hpa
    rw [run_bind_some hqb]
    exact (hf hab).some ht hfa
  none := by
    intro s s' hs h
    cases hpa : p.run s with
    | none => exact run_bind_none (hp.none hs hpa)
    | some found =>
      obtain ⟨a, t⟩ := found
      obtain ⟨b, t', hab, ht, hqb⟩ := hp.some hs hpa
      rw [run_bind_some hpa] at h
      rw [run_bind_some hqb]
      exact (hf hab).none ht h

theorem orElse {p' : Rule α} {q' : Rule β} (hp : Carries S w R p q) (hp' : Carries S w R p' q') :
    Carries S w R (p <|> p') (q <|> q') where
  some := by
    intro s s' r a hs h
    cases hpa : p.run s with
    | none =>
      rw [run_orElse_none hpa] at h
      rw [run_orElse_none (hp.none hs hpa)]
      exact hp'.some hs h
    | some found =>
      obtain ⟨b, r', hab, hr, hqb⟩ := hp.some hs hpa
      rw [run_orElse_some hpa] at h
      cases h
      exact ⟨b, r', hab, hr, run_orElse_some hqb⟩
  none := by
    intro s s' hs h
    cases hpa : p.run s with
    | none =>
      rw [run_orElse_none hpa] at h
      rw [run_orElse_none (hp.none hs hpa)]
      exact hp'.none hs h
    | some found =>
      rw [run_orElse_some hpa] at h
      cases h

/-! ## Derived combinators -/

theorem option {p q : Rule α} (h : Carries S w Eq p q) :
    Carries S w Eq (Rule.option p) (Rule.option q) :=
  (h.bind fun hab => give (congrArg _ hab)).orElse (give rfl)

theorem upTo (h : Carries S w R p q) (n : Nat) :
    Carries S w (Forall₂ R) (Rule.upTo n p) (Rule.upTo n q) := by
  induction n with
  | zero => exact give .nil
  | succ n ih => exact (h.bind fun ha => ih.bind fun has => give (.cons ha has)).orElse (give .nil)

/-- Rules that are bounded ones where the bound is above the length of the lexemes are carried if
those are for every bound. -/
theorem of_bounded {P : Nat → Rule α} {Q : Nat → Rule β}
    (hP : ∀ {n : Nat} {s : List Lexeme}, s.length < n → P n s = p s)
    (hQ : ∀ {n : Nat} {s : List Lexeme}, s.length < n → Q n s = q s)
    (h : ∀ n, Carries S w R (P n) (Q n)) : Carries S w R p q := by
  -- one bound that is large enough for both lists
  have hbound : ∀ s s' : List Lexeme, p.run s = (P (s.length + s'.length + 1)).run s ∧
      q.run s' = (Q (s.length + s'.length + 1)).run s' := by
    intro s s'
    rw [run, run, run, run, hP (by omega), hQ (by omega)]
    exact ⟨rfl, rfl⟩
  refine ⟨fun {s s' r a} hs hrun => ?_, fun {s s'} hs hrun => ?_⟩
  · obtain ⟨hp, hq⟩ := hbound s (s' ++ w)
    rw [hp] at hrun
    rw [hq]
    exact (h _).some hs hrun
  · obtain ⟨hp, hq⟩ := hbound s (s' ++ w)
    rw [hp] at hrun
    rw [hq]
    exact (h _).none hs hrun

theorem many (h : Carries S w R p q) (hp : Advances p) (hq : Advances q) :
    Carries S w (Forall₂ R) (Rule.many p) (Rule.many q) :=
  .of_bounded (upTo_eq_many hp) (upTo_eq_many hq) h.upTo

theorem many1 (h : Carries S w R p q) (hp : Advances p) (hq : Advances q) :
    Carries S w (Forall₂ R) (Rule.many1 p) (Rule.many1 q) :=
  h.bind fun ha => (h.many hp hq).bind fun has => give (.cons ha has)

theorem list_eq {p q : Rule (List α)} (h : Carries S w (Forall₂ Eq) p q) : Carries S w Eq p q :=
  h.mono fun hab => by rwa [forall₂_eq_eq_eq] at hab

end Carries

/-! ## The rules of a line -/

section

variable {S : Lexeme → Lexeme → Prop} {w : List Lexeme}

theorem carries_token (h : Alike S) {k : Token} (hk : next w ≠ some k) :
    Carries S w (fun l l' => S l l' ∧ l.token = k) (token k) (token k) := by
  have hlexeme : Carries S w (fun l l' => S l l' ∧ (l.token == k) = true) (token k) (token k) := by
    refine .lexeme (fun hl => by rw [h.token hl]) fun l hl => ?_
    have hnext : next w = some l.token := by rw [next, hl]; rfl
    rw [hnext] at hk
    exact beq_eq_false_iff_ne.2 fun heq => hk (congrArg _ heq)
  exact hlexeme.mono fun hl => hl.imp_right eq_of_beq

theorem carries_flag (h : Alike S) {k : Token} (hk : next w ≠ some k) :
    Carries S w Eq (flag k) (flag k) :=
  ((carries_token h hk).bind fun _ => .give rfl).orElse (.give rfl)

theorem carries_between (h : Alike S) {α β : Type} {R : α → β → Prop} {p : Rule α}
    {q : Rule β} (hp : Carries S w R p q) {opening closing : Token} (ho : next w ≠ some opening)
    (hc : next w ≠ some closing) :
    Carries S w R (between opening closing p) (between opening closing q) :=
  (carries_token h ho).bind fun _ => hp.bind fun hab => (carries_token h hc).bind fun _ => .give hab

theorem carries_sepBy1 (h : Alike S) {p : Rule α} (hp : Carries S w Eq p p)
    {D : Language α} (hreads : Reads p D) {k : Token} (htrivia : k.isTrivia = false)
    (hk : next w ≠ some k) : Carries S w Eq (sepBy1 p k) (sepBy1 p k) := by
  have hadvances := advances_behind hreads htrivia
  have hrest := (((carries_token h hk).bind fun _ => hp).many hadvances hadvances).list_eq
  exact hp.bind fun ha => hrest.bind fun has => .give (by rw [ha, has])

variable (h : Alike S) (hw : AtLineEnd w)

include h hw

/-- The tokens of a line do not go on at its end. -/
theorem carries_inline {k : Token} (hk : k ∉ [Token.newline, .closeBrace]) :
    Carries S w (fun l l' => S l l' ∧ l.token = k) (token k) (token k) := by
  simp only [mem_cons, not_mem_nil, or_false, not_or] at hk
  exact carries_token h (hw.ne hk.1 hk.2)

theorem carries_word : Carries S w Eq word word :=
  (carries_inline h hw (by decide)).bind fun ⟨hl, ht⟩ => .give (h.text hl (by rw [ht]; decide))

theorem carries_keyword : Carries S w Eq keyword keyword := by
  have hkeyword : ∀ k, k ∉ [Token.newline, .closeBrace] →
      Carries S w (fun l l' => l.text = l'.text) (token k) (token k) := fun k hk =>
    (carries_inline h hw hk).mono fun ⟨hl, ht⟩ => h.text hl fun hn => hk (by simp [← ht, hn])
  exact ((hkeyword _ (by decide)).orElse ((hkeyword _ (by decide)).orElse
    ((hkeyword _ (by decide)).orElse (hkeyword _ (by decide))))).bind fun hl => .give hl

theorem carries_name : Carries S w Eq name name :=
  (carries_word h hw).orElse (carries_keyword h hw)

theorem carries_suffix :
    Carries S w Eq (arraySuffix <|> nullableSuffix) (arraySuffix <|> nullableSuffix) := by
  have hcommas := (carries_inline h hw (k := .comma) (by decide)).many (advances_token _)
    (advances_token _)
  refine .orElse (.bind (carries_between h hcommas (hw.ne (by decide) (by decide))
    (hw.ne (by decide) (by decide))) fun {us vs} huv => .give ?_)
    ((carries_inline h hw (by decide)).bind fun _ => .give rfl)
  rw [map_const', map_const', huv.length_eq]

theorem carries_typeNameBelow (depth : Nat) :
    Carries S w Eq (typeNameBelow depth) (typeNameBelow depth) := by
  induction depth with
  | zero => exact .refuse
  | succ depth ih =>
    have hnames := carries_sepBy1 h ih (reads_typeNameBelow depth) (k := .comma) rfl
      (hw.ne (by decide) (by decide))
    have harguments : Carries S w Eq
        (angleArguments (typeNameBelow depth) <|> tildeArguments (typeNameBelow depth))
        (angleArguments (typeNameBelow depth) <|> tildeArguments (typeNameBelow depth)) :=
      .orElse
        (.bind (carries_between h hnames (hw.ne (by decide) (by decide))
          (hw.ne (by decide) (by decide))) fun hab => .give (by rw [hab]))
        (.bind (carries_between h hnames (hw.ne (by decide) (by decide))
          (hw.ne (by decide) (by decide))) fun hab => .give (by rw [hab]))
    have hsuffixes := ((carries_suffix h hw).many advances_suffix advances_suffix).list_eq
    exact (carries_word h hw).bind fun hbase => harguments.option.bind fun harguments =>
      hsuffixes.bind fun hsuffixes => .give (by rw [hbase, harguments, hsuffixes])

theorem carries_typeName : Carries S w Eq typeName typeName :=
  .of_bounded typeNameBelow_eq_typeName typeNameBelow_eq_typeName (carries_typeNameBelow h hw)

theorem carries_argument : Carries S w Eq argument argument :=
  (((carries_typeName h hw).orElse (carries_keyword h hw)).many1 advances_argumentPart
    advances_argumentPart).list_eq.bind fun hparts => .give (by rw [hparts])

theorem carries_arguments : Carries S w Eq arguments arguments := by
  have hitems := carries_sepBy1 h (carries_argument h hw) reads_argument (k := .comma) rfl
    (hw.ne (by decide) (by decide))
  exact (carries_between h hitems.option (hw.ne (by decide) (by decide))
    (hw.ne (by decide) (by decide))).bind fun hitems => .give (by rw [hitems])

theorem carries_returnType : Carries S w Eq returnType returnType :=
  ((carries_flag h (hw.ne (by decide) (by decide))).bind fun _ => carries_typeName h hw).option

theorem carries_method : Carries S w Eq method method := by
  have hclassifiers : Carries S w (Forall₂ S) (many (token .asterisk <|> token .dollar))
      (many (token .asterisk <|> token .dollar)) :=
    (((carries_inline h hw (by decide)).mono And.left).orElse
      ((carries_inline h hw (by decide)).mono And.left)).many advances_classifier
      advances_classifier
  have hany : ∀ {us vs : List Lexeme} {k : Token}, Forall₂ S us vs →
      us.any (·.token == k) = vs.any (·.token == k) := by
    intro us vs k huv
    induction huv with
    | nil => rfl
    | cons hl _ ih => rw [any_cons, any_cons, ih, h.token hl]
  exact (carries_name h hw).bind fun hname => (carries_arguments h hw).bind fun harguments =>
    (carries_flag h (hw.ne (by decide) (by decide))).bind fun hmarked =>
    (carries_returnType h hw).bind fun htype => hclassifiers.bind fun hsigns =>
      .give (by rw [hname, harguments, hmarked, htype, hany hsigns, hany hsigns])

theorem carries_field : Carries S w Eq field field := by
  have hstatic : Carries S w Eq (flag .dollar) (flag .dollar) :=
    carries_flag h (hw.ne (by decide) (by decide))
  have htyped : Carries S w Eq typedField typedField :=
    (carries_typeName h hw).bind fun htype => (carries_name h hw).bind fun hname =>
      hstatic.bind fun hstatic => .give (by rw [htype, hname, hstatic])
  have hascribed : Carries S w Eq ascribedField ascribedField :=
    (carries_name h hw).bind fun hname => (carries_inline h hw (by decide)).bind fun _ =>
      (carries_typeName h hw).bind fun htype => hstatic.bind fun hstatic =>
        .give (by rw [htype, hname, hstatic])
  have hbare : Carries S w Eq bareField bareField :=
    (carries_name h hw).bind fun hname => hstatic.bind fun hstatic =>
      .give (by rw [hname, hstatic])
  exact htyped.orElse (hascribed.orElse hbare)

theorem carries_visibility : Carries S w Eq visibility visibility := by
  have hsign : ∀ {k : Token} {v : Visibility}, k ∉ [Token.newline, .closeBrace] →
      Carries S w Eq (do let _ ← token k; return v) (do let _ ← token k; return v) :=
    fun hk => (carries_inline h hw hk).bind fun _ => .give rfl
  exact ((hsign (by decide)).orElse ((hsign (by decide)).orElse ((hsign (by decide)).orElse
    (hsign (by decide))))).option.bind fun hsign => .give (by rw [hsign])

theorem carries_member : Carries S w Eq member member := by
  have hkind : Carries S w Eq
      ((do return Member.method (← method)) <|> (do return Member.field (← field)))
      ((do return Member.method (← method)) <|> (do return Member.field (← field))) :=
    ((carries_method h hw).bind fun hm => .give (by rw [hm])).orElse
      ((carries_field h hw).bind fun hf => .give (by rw [hf]))
  exact (carries_visibility h hw).bind fun hv => hkind.bind fun hm => .give (by rw [hv, hm])

theorem carries_tag : Carries S w Eq tag tag :=
  (carries_inline h hw (by decide)).bind fun _ => (carries_word h hw).bind fun hword =>
    (carries_inline h hw (by decide)).bind fun _ => (carries_inline h hw (by decide)).bind fun _ =>
      .give hword

theorem carries_tagging : Carries S w Eq tagging tagging :=
  (carries_tag h hw).bind fun htag => (carries_typeName h hw).bind fun howner =>
    .give (by rw [htag, howner])

theorem carries_link : Carries S w Eq link link := by
  have hop : ∀ {k : Token} {op : RelationOp}, k ∉ [Token.newline, .closeBrace] →
      Carries S w Eq (do let _ ← token k; return op) (do let _ ← token k; return op) :=
    fun hk => (carries_inline h hw hk).bind fun _ => .give rfl
  exact ((hop (by decide)).orElse ((hop (by decide)).orElse ((hop (by decide)).orElse
    (hop (by decide))))).bind fun hop => (carries_typeName h hw).bind fun hright =>
      .give (by rw [hop, hright])

theorem carries_ownedMember : Carries S w Eq ownedMember ownedMember :=
  (carries_typeName h hw).bind fun howner => (carries_inline h hw (by decide)).bind fun _ =>
    (carries_member h hw).bind fun hmember => .give (by rw [howner, hmember])

theorem carries_note : Carries S w Eq note note :=
  (carries_inline h hw (by decide)).bind fun _ =>
    ((carries_inline h hw (by decide)).bind fun _ => carries_typeName h hw).option.bind
      fun htarget => (carries_inline h hw (by decide)).bind fun ⟨hquoted, ht⟩ =>
        .give (by rw [htarget, h.text hquoted (by rw [ht]; decide)])

end

/-! ## Labels and the items of blocks -/

section

variable {t t' : List Char} {S : Lexeme → Lexeme → Prop} {w : List Lexeme}

/-- From the first to the last of matching lexemes there stands the same text. -/
theorem Matching.spannedText_eq (h : Matching t t' S) {us vs : List Lexeme}
    (huv : Forall₂ S us vs) : spannedText t us = spannedText t' vs := by
  have hlast := forall₂_reverse_iff.2 huv
  rw [spannedText, spannedText, ← head?_reverse, ← head?_reverse]
  cases huv with
  | nil => rfl
  | cons hfirst _ =>
    generalize (_ :: _ : List Lexeme).reverse = ur at hlast ⊢
    generalize (_ :: _ : List Lexeme).reverse = vr at hlast ⊢
    cases hlast with
    | nil => rfl
    | cons hlast _ => simp only [head?_cons, h.slice hfirst hlast]

/-- A label is found in matching lexemes, whatever is known of the texts that it spans. -/
theorem carries_labelOver (h : Alike S) (hw : AtStatementEnd w) {R : String → String → Prop}
    (hspan : ∀ {us vs}, Forall₂ S us vs → R (spannedText t us) (spannedText t' vs)) :
    Carries S w R (label t) (label t') := by
  have hpart : Carries S w S (lexeme (·.token != .newline)) (lexeme (·.token != .newline)) := by
    refine .mono (.lexeme (fun {l l'} hl => by rw [h.token hl]) fun l hl => ?_) And.left
    have hnext : next w = some l.token := by rw [next, hl]; rfl
    rcases hw with hw | hw
    · rw [hnext] at hw
      cases hw
    · rw [hnext] at hw
      rw [Option.some.inj hw]
      rfl
  exact (carries_token h (hw.ne (by decide))).bind fun _ =>
    (hpart.many1 advances_labelPart advances_labelPart).bind fun hls => .give (hspan hls)

theorem carries_label (h : Matching t t' S) (hw : AtStatementEnd w) :
    Carries S w Eq (label t) (label t') :=
  carries_labelOver h.alike hw h.spannedText_eq

theorem carries_links (h : Alike S) (hw : AtStatementEnd w) :
    Carries S w Eq (many1 link) (many1 link) :=
  ((carries_link h hw.atLineEnd).many1 advances_link advances_link).list_eq

theorem carries_chain (h : Matching t t' S) (hw : AtStatementEnd w) :
    Carries S w Eq (chain t) (chain t') :=
  (carries_typeName h.alike hw.atLineEnd).bind fun hhead =>
    (carries_links h.alike hw).bind fun hlinks =>
      (carries_label h hw).option.bind fun hlabel => .give (by rw [hhead, hlinks, hlabel])

def bodyItems : Rule (List BodyItem) := do
  let _ ← blankLines
  many bodyItem

theorem reads_bodyItems : Reads bodyItems fun _ _ => True :=
  (Reads.bind reads_blankLines fun _ => .many reads_bodyItem).mono fun _ _ _ => trivial

theorem carries_blankLines (h : Alike S) (hw : next w ≠ some .newline) :
    Carries S w (Forall₂ fun l l' => S l l' ∧ l.token = .newline) blankLines blankLines :=
  (carries_token h hw).many (advances_token _) (advances_token _)

theorem carries_bodyItem (h : Alike S) (hend : AtLineEnd w) (hw : next w ≠ some .newline) :
    Carries S w Eq bodyItem bodyItem := by
  have hkind : Carries S w Eq
      ((do return BodyItem.tag (← tag)) <|> (do return BodyItem.member (← member)))
      ((do return BodyItem.tag (← tag)) <|> (do return BodyItem.member (← member))) :=
    ((carries_tag h hend).bind fun htag => .give (by rw [htag])).orElse
      ((carries_member h hend).bind fun hm => .give (by rw [hm]))
  exact hkind.bind fun hitem => (carries_blankLines h hw).bind fun _ => .give hitem

theorem carries_bodyItems (h : Alike S) (hw : next w = some .closeBrace) :
    Carries S w Eq bodyItems bodyItems := by
  have hlines : next w ≠ some .newline := by simp [hw]
  exact (carries_blankLines h hlines).bind fun _ =>
    ((carries_bodyItem h (.inr (.inr hw)) hlines).many advances_bodyItem advances_bodyItem).list_eq

end

end ClassDiagram.Grammar
