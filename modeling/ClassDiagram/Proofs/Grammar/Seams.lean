import ClassDiagram.Proofs.Grammar.Matching

/-! # Statements stay as they are when more lines come behind them

A statement that was read up to the end of its line is read the same in front of more lines: of
its rules only a block goes on behind a line end, and a block that was read had its closing brace.
So the lines of two diagrams, one behind the other, are read as the statements of both.

* `Matching.run_body`, `Matching.run_statement`: what was read is read in matching lexemes;
* `Matching.run_statementLines`: statements in front of more of them;
* `run_statementLines_newlines`: how many line ends stand before a statement does not matter;
* `run_diagram_iff`: what makes a diagram.
-/

namespace ClassDiagram.Grammar

open Rule List

variable {α : Type}

/-! ## What was found -/

theorem run_token_eq_some {k : Token} {s r : List Lexeme} {l : Lexeme}
    (h : (token k).run s = some (l, r)) : s = l :: r ∧ l.token = k := by
  cases s with
  | nil => cases h
  | cons l' s =>
    rw [run_token_cons] at h
    split at h
    · rename_i hk
      cases h
      exact ⟨rfl, hk⟩
    · cases h

theorem run_many_ne_none {p : Rule α} (hp : Advances p) (s : List Lexeme) :
    (many p).run s ≠ none := by
  rw [many_eq hp, run_orElse, run_give]
  simp

/-- A repetition found nothing, or something and then the rest of it. -/
theorem run_many_eq_some {p : Rule α} (hp : Advances p) {s r : List Lexeme} {as : List α}
    (h : (many p).run s = some (as, r)) :
    (as = [] ∧ r = s ∧ p.run s = none) ∨
      ∃ a bs q, as = a :: bs ∧ p.run s = some (a, q) ∧ (many p).run q = some (bs, r) := by
  rw [many_eq hp] at h
  cases hps : p.run s with
  | none =>
    rw [run_orElse_none (run_bind_none hps)] at h
    cases h
    exact .inl ⟨rfl, rfl, rfl⟩
  | some found =>
    obtain ⟨a, q⟩ := found
    rw [run_orElse, run_bind_some hps] at h
    cases hrest : (many p).run q with
    | none => exact absurd hrest (run_many_ne_none hp q)
    | some found =>
      obtain ⟨bs, r'⟩ := found
      rw [run_bind_some hrest] at h
      cases h
      exact .inr ⟨a, bs, q, rfl, rfl, hrest⟩

theorem forall₂_append_left {S : Lexeme → Lexeme → Prop} {u v s' : List Lexeme}
    (h : Forall₂ S (u ++ v) s') :
    ∃ u' v', s' = u' ++ v' ∧ Forall₂ S u u' ∧ Forall₂ S v v' := by
  have htake := forall₂_take u.length h
  have hdrop := forall₂_drop u.length h
  rw [take_left] at htake
  rw [drop_left] at hdrop
  exact ⟨_, _, (take_append_drop u.length s').symm, htake, hdrop⟩

namespace Matching

variable {t t' : List Char} {S : Lexeme → Lexeme → Prop}

/-- A block has its closing brace, and what comes behind it does not matter. -/
theorem run_body (h : Matching t t' S) {s s' r : List Lexeme} {items : List BodyItem}
    (hs : Forall₂ S s s') (hbody : body.run s = some (items, r)) (w : List Lexeme) :
    ∃ r', Forall₂ S r r' ∧ body.run (s' ++ w) = some (items, r' ++ w) := by
  obtain ⟨o, s₁, hopen, hbody⟩ := run_bind_eq_some hbody
  obtain ⟨ls, s₂, hlines, hbody⟩ := run_bind_eq_some hbody
  obtain ⟨is, s₃, hitems, hbody⟩ := run_bind_eq_some hbody
  obtain ⟨c, q, hclose, hbody⟩ := run_bind_eq_some hbody
  rw [run_pure] at hbody
  obtain ⟨rfl, rfl⟩ := Prod.mk.inj (Option.some.inj hbody)
  obtain ⟨rfl, ho⟩ := run_token_eq_some hopen
  obtain ⟨rfl, hc⟩ := run_token_eq_some hclose
  have hinner : bodyItems.run s₁ = some (is, c :: q) := by
    rw [bodyItems, run_bind_some hlines, hitems]
  obtain ⟨x, rfl, _⟩ := reads_bodyItems.run_eq hinner
  -- what stands before the brace is read alone, and so it is read before any brace
  have hcarries := carries_bodyItems (Matching.refl t).alike (w := c :: q) (by simp [hc])
  have halone : bodyItems.run x = some (is, []) := by
    have hsame : Forall₂ Eq x x := forall₂_refl x
    cases hx : bodyItems.run x with
    | none =>
      rw [hcarries.none hsame hx] at hinner
      cases hinner
    | some found =>
      obtain ⟨is', r₀⟩ := found
      obtain ⟨_, r₁, rfl, hr, hrun⟩ := hcarries.some hsame hx
      rw [hinner] at hrun
      obtain ⟨rfl, hrest⟩ := Prod.mk.inj (Option.some.inj hrun)
      have hnil : r₁ = [] := append_left_eq_self.1 hrest.symm
      rw [hnil, forall₂_nil_right_iff] at hr
      rw [hr]
  obtain ⟨o', s₁', hoo, hs₁, rfl⟩ := forall₂_cons_left_iff.1 hs
  obtain ⟨x', s₂', rfl, hx, hs₂⟩ := forall₂_append_left hs₁
  obtain ⟨c', r', hcc, hr, rfl⟩ := forall₂_cons_left_iff.1 hs₂
  have hc' : c'.token = .closeBrace := (h.token hcc).symm.trans hc
  have hcarries' := carries_bodyItems h.alike (w := c' :: (r' ++ w)) (by simp [hc'])
  obtain ⟨_, _, rfl, hnil, hrun⟩ := hcarries'.some hx halone
  rw [forall₂_nil_left_iff.1 hnil, nil_append] at hrun
  obtain ⟨_, _, hlines', hitems'⟩ := run_bind_eq_some hrun
  have hs' : o' :: (x' ++ c' :: r') ++ w = o' :: (x' ++ c' :: (r' ++ w)) := by simp
  refine ⟨r', hr, ?_⟩
  rw [hs', body, run_bind_some (run_token ((h.token hoo).symm.trans ho) _), run_bind_some hlines',
    run_bind_some hitems', run_bind_some (run_token hc' _), run_pure]

/-- The end of a statement is one in matching lexemes too, if another one stands behind them. -/
theorem atStatementEnd (h : Matching t t' S) {r r' w : List Lexeme} (hr : Forall₂ S r r')
    (hend : AtStatementEnd r) (hw : AtStatementEnd w) : AtStatementEnd (r' ++ w) := by
  cases hr with
  | nil => exact hw
  | cons hl _ =>
    rcases hend with hend | hend
    · cases hend
    · exact .inr (by rw [cons_append, next_cons, ← h.token hl]; exact hend)

/-- A declaration without a block goes on with none behind the end of its line. -/
theorem run_declaration (h : Matching t t' S) {s s' r w : List Lexeme} {d : Declaration}
    (hs : Forall₂ S s s') (hrun : declaration.run s = some (d, r)) (hr : AtStatementEnd r)
    (hw : AtStatementEnd w) :
    ∃ r', Forall₂ S r r' ∧ declaration.run (s' ++ w) = some (d, r' ++ w) := by
  obtain ⟨k, s₁, hk, hrun⟩ := run_bind_eq_some hrun
  obtain ⟨n, s₂, hn, hrun⟩ := run_bind_eq_some hrun
  obtain ⟨_, s₁', _, hs₁, hk'⟩ := (carries_inline h.alike hw.atLineEnd (by decide)).some hs hk
  obtain ⟨_, s₂', rfl, hs₂, hn'⟩ := (carries_typeName h.alike hw.atLineEnd).some hs₁ hn
  rw [declaration, run_bind_some hk', run_bind_some hn']
  cases hbody : body.run s₂ with
  | none =>
    rw [run_bind_some (run_option_none hbody)] at hrun
    cases hrun
    have hnone := run_body_none ((h.atStatementEnd hs₂ hr hw).ne (t := .openBrace) (by decide))
    exact ⟨s₂', hs₂, by rw [run_bind_some (run_option_none hnone)]; rfl⟩
  | some found =>
    obtain ⟨items, q⟩ := found
    rw [run_bind_some (run_option_some hbody)] at hrun
    cases hrun
    obtain ⟨r', hr', hbody'⟩ := h.run_body hs₂ hbody w
    exact ⟨r', hr', by rw [run_bind_some (run_option_some hbody')]; rfl⟩

theorem run_declaration_none (h : Matching t t' S) {s s' w : List Lexeme} (hs : Forall₂ S s s')
    (hrun : declaration.run s = none) (hw : AtLineEnd w) : declaration.run (s' ++ w) = none := by
  have hclass := carries_inline h.alike hw (k := .classWord) (by decide)
  cases hk : (Rule.token .classWord).run s with
  | none => exact run_bind_none (hclass.none hs hk)
  | some found =>
    obtain ⟨k, s₁⟩ := found
    obtain ⟨_, s₁', _, hs₁, hk'⟩ := hclass.some hs hk
    rw [declaration, run_bind_some hk] at hrun
    rw [declaration, run_bind_some hk']
    cases hn : typeName.run s₁ with
    | none => exact run_bind_none ((carries_typeName h.alike hw).none hs₁ hn)
    | some found =>
      -- behind a name a declaration is complete
      obtain ⟨n, s₂⟩ := found
      rw [run_bind_some hn] at hrun
      cases hbody : body.run s₂ with
      | none =>
        rw [run_bind_some (run_option_none hbody)] at hrun
        cases hrun
      | some found =>
        rw [run_bind_some (run_option_some hbody)] at hrun
        cases hrun

end Matching

def undeclared (t : List Char) : Rule Statement :=
  (do let (tag, owner) ← tagging; return Statement.annotate tag owner) <|>
  (do return Statement.relate (← chain t)) <|>
  (do return Statement.member (← ownedMember)) <|>
  (do return Statement.note (← note))

theorem statement_eq (t : List Char) :
    statement t = ((do return Statement.declare (← declaration)) <|> undeclared t) := rfl

theorem carries_undeclared {t t' : List Char} {S : Lexeme → Lexeme → Prop} {w : List Lexeme}
    (h : Matching t t' S) (hw : AtStatementEnd w) :
    Carries S w Eq (undeclared t) (undeclared t') := by
  have hline := hw.atLineEnd
  exact ((carries_tagging h.alike hline).bind fun ha => .give (by rw [ha])).orElse <|
    ((carries_chain h hw).bind fun hc => .give (by rw [hc])).orElse <|
    ((carries_ownedMember h.alike hline).bind fun hm => .give (by rw [hm])).orElse <|
    (carries_note h.alike hline).bind fun hn => .give (by rw [hn])

namespace Matching

variable {t t' : List Char} {S : Lexeme → Lexeme → Prop}

/-- A statement that was read to the end of its line is read in front of more lines. -/
theorem run_statement (h : Matching t t' S) {s s' r w : List Lexeme} {st : Statement}
    (hs : Forall₂ S s s') (hrun : (statement t).run s = some (st, r)) (hr : AtStatementEnd r)
    (hw : AtStatementEnd w) :
    ∃ r', Forall₂ S r r' ∧ (statement t').run (s' ++ w) = some (st, r' ++ w) := by
  rw [statement_eq] at hrun ⊢
  cases hd : declaration.run s with
  | none =>
    have hnone := h.run_declaration_none hs hd hw.atLineEnd
    rw [run_orElse_none (run_bind_none hd)] at hrun
    obtain ⟨_, r', rfl, hr', hrun'⟩ := (carries_undeclared h hw).some hs hrun
    exact ⟨r', hr', by rw [run_orElse_none (run_bind_none hnone), hrun']⟩
  | some found =>
    obtain ⟨d, q⟩ := found
    have hfound : (do return Statement.declare (← declaration)).run s = some (.declare d, q) := by
      rw [run_bind_some hd, run_pure]
    rw [run_orElse_some hfound] at hrun
    cases hrun
    obtain ⟨r', hr', hd'⟩ := h.run_declaration hs hd hr hw
    exact ⟨r', hr', run_orElse_some (by rw [run_bind_some hd', run_pure])⟩

end Matching

/-- Behind line ends there is a statement, which is what the rule for lines found. -/
theorem run_statementLine_eq_some {t : List Char} {s r : List Lexeme} {st : Statement}
    (h : (statementLine t).run s = some (st, r)) :
    ∃ u v, s = u ++ v ∧ u ≠ [] ∧ Newlines u ∧ next v ≠ none ∧ next v ≠ some .newline ∧
      (statement t).run v = some (st, r) := by
  obtain ⟨us, v, hlines, hst⟩ := run_bind_eq_some h
  obtain ⟨u, rfl, hne, hmany⟩ := (Reads.many1 reads_newline).run_eq hlines
  obtain ⟨rfl, hu⟩ := hmany.eq_of_single
  have hstart : ∀ o : Option Token, o = none ∨ o = some .newline → next v ≠ o := by
    rintro o ho rfl
    rw [run_statement_none ho] at hst
    cases hst
  exact ⟨u, v, rfl, hne, hu, hstart _ (.inl rfl), hstart _ (.inr rfl), hst⟩

theorem run_statementLine {t : List Char} {u v r : List Lexeme} {st : Statement} (hne : u ≠ [])
    (hu : Newlines u) (hv : next v ≠ some .newline) (hst : (statement t).run v = some (st, r)) :
    (statementLine t).run (u ++ v) = some (st, r) := by
  rw [statementLine, run_bind_some (run_newlines hu hne hv), hst]

/-- Lines of statements begin with a line end, if there is anything. -/
theorem atStatementEnd_of_run {t : List Char} {s r : List Lexeme} {ss : List Statement}
    (h : (many (statementLine t)).run s = some (ss, r)) (hr : Newlines r) : AtStatementEnd s := by
  rcases run_many_eq_some (advances_statementLine t) h with ⟨_, rfl, _⟩ | ⟨_, _, _, _, hline, _⟩
  · cases r with
    | nil => exact .inl rfl
    | cons l r => exact .inr (congrArg _ (hr l mem_cons_self))
  · obtain ⟨u, v, rfl, hne, hu, _⟩ := run_statementLine_eq_some hline
    exact .inr (next_newlines hu hne)

/-- Statements that were read to the end of the lexemes are read in front of more of them. -/
theorem Matching.run_statementLines {t t' : List Char} {S : Lexeme → Lexeme → Prop}
    (h : Matching t t' S) {s s' r w : List Lexeme} {ss : List Statement} (hs : Forall₂ S s s')
    (hrun : (many (statementLine t)).run s = some (ss, r)) (hr : Newlines r)
    (hw : AtStatementEnd w) :
    ∃ r', Newlines r' ∧ ∀ ss' q, (many (statementLine t')).run (r' ++ w) = some (ss', q) →
      (many (statementLine t')).run (s' ++ w) = some (ss ++ ss', q) := by
  induction ss generalizing s s' with
  | nil =>
    rcases run_many_eq_some (advances_statementLine t) hrun with ⟨_, rfl, _⟩ | ⟨_, _, _, hnil, _⟩
    · exact ⟨s', h.newlines hs hr, fun _ _ hrest => hrest⟩
    · cases hnil
  | cons st ss ih =>
    rcases run_many_eq_some (advances_statementLine t) hrun with
      ⟨hnil, _⟩ | ⟨_, _, s₁, hcons, hline, hrest⟩
    · cases hnil
    · cases hcons
      obtain ⟨u, v, rfl, hne, hu, hsome, hv, hst⟩ := run_statementLine_eq_some hline
      obtain ⟨u', v', rfl, hu', hv'⟩ := forall₂_append_left hs
      obtain ⟨s₁', hs₁, hst'⟩ := h.run_statement hv' hst (atStatementEnd_of_run hrest hr) hw
      obtain ⟨r', hr', hlines⟩ := ih hs₁ hrest
      refine ⟨r', hr', fun ss' q hq => ?_⟩
      have hne' : u' ≠ [] := by
        rintro rfl
        exact hne (forall₂_nil_right_iff.1 hu')
      have hnext : next (v' ++ w) ≠ some .newline := by
        rw [next_append, ← h.next_eq hv']
        cases hnext : next v with
        | none => exact absurd hnext hsome
        | some k => rwa [hnext] at hv
      have hline' := run_statementLine hne' (h.newlines hu' hu) hnext hst'
      rw [← append_assoc] at hline'
      exact run_many_of_some (advances_statementLine t') hline' (hlines ss' q hq)

/-- It does not matter how many line ends stand before statements, if there is one. -/
theorem run_statementLines_newlines {t : List Char} {u u' z r : List Lexeme} {ss : List Statement}
    (hu : Newlines u) (hne : u ≠ []) (hu' : Newlines u') (hne' : u' ≠ [])
    (hrun : (many (statementLine t)).run (u ++ z) = some (ss, r)) (hr : Newlines r) :
    ∃ r', Newlines r' ∧ (many (statementLine t)).run (u' ++ z) = some (ss, r') := by
  have hadvances := advances_statementLine t
  rcases run_many_eq_some hadvances hrun with ⟨rfl, rfl, _⟩ | ⟨st, ss', q, rfl, hline, hrest⟩
  · -- there are line ends only
    have hz : Newlines (u' ++ z) :=
      forall_mem_append.2 ⟨hu', (forall_mem_append.1 hr).2⟩
    exact ⟨u' ++ z, hz, run_many_of_none hadvances (run_statementLine_none hz)⟩
  · obtain ⟨x, v, hz, _, hx, hsome, hv, hst⟩ := run_statementLine_eq_some hline
    obtain ⟨y, hy, rfl⟩ : ∃ y, Newlines y ∧ z = y ++ v := by
      rcases append_eq_append_iff.1 hz with ⟨y, rfl, rfl⟩ | ⟨y, rfl, rfl⟩
      · exact ⟨y, (forall_mem_append.1 hx).2, rfl⟩
      · cases y with
        | nil => exact ⟨[], nofun, rfl⟩
        | cons l y => exact absurd (congrArg some (hu l (by simp))) hv
    have hline' := run_statementLine (u := u' ++ y) (by simp [hne'])
      (forall_mem_append.2 ⟨hu', hy⟩) hv hst
    rw [append_assoc] at hline'
    exact ⟨r, hr, run_many_of_some hadvances hline' hrest⟩

/-- A diagram is line ends, the header, lines with statements, and line ends. -/
theorem run_diagram_iff {t : List Char} {s : List Lexeme} {ss : List Statement} :
    (diagram t).run s = some (ss, []) ↔
      ∃ u h v r, s = u ++ h :: v ∧ Newlines u ∧ h.token = .header ∧
        (many (statementLine t)).run v = some (ss, r) ∧ Newlines r := by
  constructor
  · intro hrun
    obtain ⟨ls, s₁, hblank, hrun⟩ := run_bind_eq_some hrun
    obtain ⟨h, v, hheader, hrun⟩ := run_bind_eq_some hrun
    obtain ⟨ss', r, hlines, hrun⟩ := run_bind_eq_some hrun
    obtain ⟨ms, s₄, hblank', hrun⟩ := run_bind_eq_some hrun
    obtain ⟨_, s₅, hend, hrun⟩ := run_bind_eq_some hrun
    obtain ⟨u, rfl, rfl, hu⟩ := reads_blankLines.run_eq hblank
    obtain ⟨rfl, hh⟩ := run_token_eq_some hheader
    obtain ⟨w, rfl, rfl, hw⟩ := reads_blankLines.run_eq hblank'
    cases s₄ with
    | cons l s₄ => cases hend
    | nil =>
      cases hend
      cases hrun
      exact ⟨_, h, v, _, rfl, hu, hh, hlines, by rwa [append_nil]⟩
  · rintro ⟨u, h, v, r, rfl, hu, hh, hlines, hr⟩
    have hblank := run_blankLines (r := []) hr (by simp)
    rw [append_nil] at hblank
    have hend : atEnd.run [] = some ((), []) := rfl
    rw [diagram, run_bind_some (run_blankLines hu (by simp [hh])), run_bind_some (run_token hh _),
      run_bind_some hlines, run_bind_some hblank, run_bind_some hend, run_pure]

end ClassDiagram.Grammar
