import ClassDiagram.Proofs.Grammar.Locality

/-! # What was read can be completed

Where a rule was not stopped before the end of the lexemes, there is a way to go on: with some
lexemes more it finds something.  For most rules this follows from what they read.  It does not
for the block of a class, whose items may stand on one line without being separable; there the
items that were already read stay as they are, and only the last one is completed.

* `Completes.bind`, `Completes.many`: sequences and repetitions;
* `completes_diagram`: the start of a diagram that was not stopped is the start of a diagram.
-/

namespace ClassDiagram.Grammar

open Rule

variable {α β : Type}

/-- `p` finds something at the start of `s` and leaves `rest`. -/
def Leaves (p : Rule α) (s rest : List Lexeme) : Prop := ∃ a, p.run s = some (a, rest)

theorem leaves_pure (a : α) (s : List Lexeme) : Leaves (pure a : Rule α) s s := ⟨a, run_pure a s⟩

theorem Leaves.bind {p : Rule α} {f : α → Rule β} {s t rest : List Lexeme} (h : Leaves p s t)
    (hf : ∀ a, Leaves (f a) t rest) : Leaves (p >>= f) s rest := by
  obtain ⟨a, ha⟩ := h
  obtain ⟨b, hb⟩ := hf a
  exact ⟨b, (run_bind_some ha).trans hb⟩

theorem leaves_token {t : Token} {l : Lexeme} (h : l.token = t) (s : List Lexeme) :
    Leaves (token t) (l :: s) s := ⟨l, run_token h s⟩

theorem InStep.leaves {p : Rule α} {q : Rule β} (h : InStep p q) {s rest : List Lexeme}
    (hp : Leaves p s rest) : Leaves q s rest := by
  obtain ⟨a, ha⟩ := hp
  simp only [run, Option.map_eq_some_iff] at ha
  obtain ⟨⟨a', n⟩, hfound, he⟩ := ha
  obtain ⟨_, hmap⟩ := h ((p s).reach + 1) s s rfl (Nat.lt_succ_self _)
  rw [hfound, Option.map_some, Option.map_eq_some_iff] at hmap
  obtain ⟨⟨b, n'⟩, hb, hn⟩ := hmap
  change n' = n at hn
  subst hn
  exact ⟨b, by simpa [run, hb] using (Prod.mk.inj he).2⟩

/-- What was found without looking at the end is found whatever stands behind the end. -/
theorem InStep.leaves_append {p : Rule α} (h : InStep p p) {s : List Lexeme} {a : α} {n : Nat}
    (hfound : (p s).found = some (a, n)) (hreach : (p s).reach < s.length) (hn : n ≤ s.length)
    (z : List Lexeme) : Leaves p (s ++ z) (s.drop n ++ z) := by
  have htokens : SameTokens s.length s (s ++ z) := by
    simpa using SameTokens.append s [] z
  obtain ⟨_, hmap⟩ := h s.length s (s ++ z) htokens hreach
  rw [hfound, Option.map_some, Option.map_eq_some_iff] at hmap
  obtain ⟨⟨b, n'⟩, hb, hn'⟩ := hmap
  change n' = n at hn'
  subst hn'
  exact ⟨b, by simp [run, hb, List.drop_append_of_le_length hn]⟩

/-- If `p` was not stopped before the end of `s`, some lexemes more make it find something, and
it leaves what stands behind them, if that is in `F`. -/
def CompletesAt (p : Rule α) (F : List Lexeme → Prop) (s : List Lexeme) : Prop :=
  (p s).reach = s.length →
    ∃ z, Significant z ∧ ∀ rest, F rest → Leaves p (s ++ (z ++ rest)) rest

/-- What `p` was reading can always be completed. -/
def Completes (p : Rule α) (F : List Lexeme → Prop) : Prop := ∀ s, CompletesAt p F s

/-- A sequence is completed where its second part was reading, or else behind its first part,
where `y` serves for the second one. -/
theorem CompletesAt.bind {p : Rule α} {D : Language α} {f : α → Rule β} {F G : List Lexeme → Prop}
    {s : List Lexeme} (hp : Reads p D) (hs : InStep p p) (hG : CompletesAt p G s)
    (hf : ∀ a n, (p s).found = some (a, n) → CompletesAt (f a) F (s.drop n))
    (hff : ∀ a b, InStep (f a) (f b)) (y : List Lexeme) (hy : Significant y)
    (hGy : ∀ rest, F rest → G (y ++ rest))
    (hfy : ∀ a rest, F rest → Leaves (f a) (y ++ rest) rest) : CompletesAt (p >>= f) F s := by
  intro h
  change (Rule.andThen p f s).reach = _ at h
  by_cases h1 : (p s).reach = s.length
  · obtain ⟨z, hz, hleaves⟩ := hG h1
    refine ⟨z ++ y, hz.append hy, fun rest hrest => ?_⟩
    rw [List.append_assoc]
    exact (hleaves _ (hGy rest hrest)).bind fun a => hfy a rest hrest
  · have hlt : (p s).reach < s.length := Nat.lt_of_le_of_ne (hp.reach_le s) h1
    cases hfound : (p s).found with
    | none =>
      simp only [Rule.andThen, hfound] at h
      exact absurd h h1
    | some found =>
      obtain ⟨a, n⟩ := found
      have hn := (hp.used_le hfound).1
      simp only [Rule.andThen, hfound] at h
      have hreach : (f a (s.drop n)).reach = (s.drop n).length := by
        rw [List.length_drop]
        omega
      obtain ⟨z, hz, hleaves⟩ := hf a n hfound hreach
      refine ⟨z, hz, fun rest hrest => ?_⟩
      exact (hs.leaves_append hfound hlt hn _).bind fun b => (hff a b).leaves (hleaves rest hrest)

theorem reach_orElse_give (p : Rule α) (a : α) (s : List Lexeme) :
    ((p <|> give a) s).reach = (p s).reach := by
  show (Rule.orElse p (give a) s).reach = _
  cases hfound : (p s).found with
  | none => simp [Rule.orElse, hfound, give]
  | some found => simp [Rule.orElse, hfound]

theorem CompletesAt.orElse_give {p : Rule α} {F : List Lexeme → Prop} {s : List Lexeme}
    (h : CompletesAt p F s) (a : α) : CompletesAt (p <|> give a) F s := by
  intro hreach
  obtain ⟨z, hz, hleaves⟩ := h ((reach_orElse_give p a s).symm.trans hreach)
  refine ⟨z, hz, fun rest hrest => ?_⟩
  obtain ⟨b, hb⟩ := hleaves rest hrest
  exact ⟨b, run_orElse_some hb⟩

namespace Completes

theorem mono {p : Rule α} {F G : List Lexeme → Prop} (h : Completes p F) (hG : ∀ s, G s → F s) :
    Completes p G := by
  intro s hs
  obtain ⟨z, hz, hleaves⟩ := h s hs
  exact ⟨z, hz, fun rest hrest => hleaves rest (hG rest hrest)⟩

/-- A rule that reads a language, and finds each of its phrases in front of `F`. -/
theorem of_reads {p : Rule α} {D : Language α} {F : List Lexeme → Prop} (hp : Reads p D)
    (hrun : ∀ a u rest, D a u → F rest → Leaves p (u ++ rest) rest) : Completes p F := by
  intro s hs
  obtain ⟨a, z, hz, hD⟩ := hp.viable hs
  refine ⟨z, hz, fun rest hrest => ?_⟩
  rw [← List.append_assoc]
  exact hrun a (s ++ z) rest hD hrest

theorem bind {p : Rule α} {D : Language α} {f : α → Rule β} {F G : List Lexeme → Prop}
    (hp : Reads p D) (hs : InStep p p) (hG : Completes p G) (hf : ∀ a, Completes (f a) F)
    (hff : ∀ a b, InStep (f a) (f b)) (y : List Lexeme) (hy : Significant y)
    (hGy : ∀ rest, F rest → G (y ++ rest))
    (hfy : ∀ a rest, F rest → Leaves (f a) (y ++ rest) rest) : Completes (p >>= f) F :=
  fun s => CompletesAt.bind hp hs (hG s) (fun a n _ => hf a (s.drop n)) hff y hy hGy hfy

theorem pure (a : α) (F : List Lexeme → Prop) : Completes (Pure.pure a : Rule α) F := by
  intro s h
  have hs : s = [] := List.length_eq_zero_iff.1 h.symm
  subst hs
  exact ⟨[], nofun, fun rest _ => leaves_pure a rest⟩

theorem map {p : Rule α} {D : Language α} {F : List Lexeme → Prop} (hp : Reads p D)
    (hs : InStep p p) (h : Completes p F) (g : α → β) :
    Completes (p >>= fun a => Pure.pure (g a)) F :=
  bind hp hs h (fun _ => pure _ F) (fun _ _ => .give _ _) [] nofun (fun _ hrest => hrest)
    fun _ rest _ => leaves_pure _ rest

theorem option {p : Rule α} {D : Language α} {F : List Lexeme → Prop} (hp : Reads p D)
    (hs : InStep p p) (h : Completes p F) : Completes (Rule.option p) F :=
  fun s => (map hp hs h some s).orElse_give none

theorem token {t : Token} (ht : t.isTrivia = false) (F : List Lexeme → Prop) :
    Completes (Rule.token t) F :=
  of_reads (.token ht) fun _ _ rest ⟨hl, hu⟩ _ => hu ▸ leaves_token (beq_iff_eq.1 hl) rest

/-- What the rule already found stays found; only the last phrase is completed. -/
theorem many {p : Rule α} {D : Language α} {F : List Lexeme → Prop} (hp : Reads p D)
    (hadv : Advances p) (hs : InStep p p) (h : Completes p F)
    (hF : ∀ rest, F rest → p.run rest = none) : Completes (Rule.many p) F := by
  have hmany := InStep.many hs hadv hadv
  have hreads := Reads.many hp
  have step : ∀ m s, s.length < m → CompletesAt (Rule.many p) F s := by
    intro m
    induction m with
    | zero =>
      intro s hm
      exact absurd hm (Nat.not_lt_zero _)
    | succ m ih =>
      intro s hm
      rw [many_eq hadv]
      refine CompletesAt.orElse_give ?_ []
      refine CompletesAt.bind hp hs (h s) ?_ (fun _ _ => hmany.bind fun _ _ => .give _ _) [] nofun
        (fun rest hrest => hrest) ?_
      · -- behind a phrase the list is shorter
        intro a n hfound
        have hn := hadv s a n hfound
        have hlt : (s.drop n).length < m := by
          rw [List.length_drop]
          omega
        exact CompletesAt.bind hreads hmany (ih _ hlt) (fun _ _ _ => pure _ F _)
          (fun _ _ => .give _ _) [] nofun (fun _ hrest => hrest) fun _ rest _ => leaves_pure _ rest
      · intro a rest hrest
        exact Leaves.bind ⟨[], run_many_of_none hadv (hF rest hrest)⟩ fun _ => leaves_pure _ rest
  exact fun s => step (s.length + 1) s (Nat.lt_succ_self _)

end Completes

/-! ## Blocks -/

def brace : Lexeme := ⟨.closeBrace, "\x7d", 0⟩

theorem exists_of_next {s : List Lexeme} {t : Token} (h : next s = some t) :
    ∃ l r, s = l :: r ∧ l.token = t := by
  cases s with
  | nil => cases h
  | cons l r => exact ⟨l, r, rfl, Option.some_inj.1 h⟩

theorem completes_bodyItem : Completes bodyItem fun rest => next rest = some .closeBrace := by
  refine .of_reads reads_bodyItem ?_
  rintro i _ rest ⟨u, v, hi, hv, rfl⟩ hrest
  have hend : AtLineEnd (v ++ rest) := by
    by_cases hne : v = []
    · subst hne
      exact Or.inr (Or.inr hrest)
    · exact Or.inr (Or.inl (next_newlines hv hne))
  rw [List.append_assoc]
  exact ⟨i, run_bodyItem hi hv hend (by simp [hrest])⟩

theorem completes_bodyItems :
    Completes (many bodyItem) fun rest => next rest = some .closeBrace := by
  refine completes_bodyItem.many reads_bodyItem advances_bodyItem inStep_bodyItem ?_
  intro rest hrest
  obtain ⟨c, r, rfl, hc⟩ := exists_of_next hrest
  exact run_bodyItem_none hc r

theorem completes_blankLines :
    Completes blankLines fun rest => next rest ≠ some .newline := by
  refine .of_reads reads_blankLines ?_
  rintro ls _ rest ⟨rfl, hls⟩ hrest
  exact ⟨_, run_blankLines hls hrest⟩

def bodyTail : Rule (List BodyItem) := do
  let items ← many bodyItem
  let _ ← token .closeBrace
  return items

theorem leaves_bodyTail (rest : List Lexeme) : Leaves bodyTail (brace :: rest) rest :=
  Leaves.bind ⟨[], run_many_of_none advances_bodyItem (run_bodyItem_none rfl rest)⟩ fun _ =>
    (leaves_token rfl rest).bind fun _ => leaves_pure _ rest

theorem inStep_bodyTail : InStep bodyTail bodyTail :=
  (inStep_bodyItem.many advances_bodyItem advances_bodyItem).bind fun _ _ =>
    (InStep.token _).bind fun _ _ => .give _ _

theorem significant_brace : Significant [brace] := by
  intro l hl
  cases List.mem_singleton.1 hl
  rfl

theorem completes_bodyTail : Completes bodyTail fun _ => True := by
  refine .bind (.many reads_bodyItem) (inStep_bodyItem.many advances_bodyItem advances_bodyItem)
    completes_bodyItems (fun _ => .map (.token rfl) (.token _) (.token rfl _) _)
    (fun _ _ => (InStep.token _).bind fun _ _ => .give _ _) [brace] significant_brace
    (fun _ _ => rfl) ?_
  intro _ rest _
  exact (leaves_token rfl rest).bind fun _ => leaves_pure _ rest

theorem completes_body : Completes body fun _ => True := by
  have hblank : ∀ rest, Leaves (do let _ ← blankLines; bodyTail) (brace :: rest) rest := by
    intro rest
    exact Leaves.bind ⟨[], run_blankLines (u := []) nofun (by simp [brace])⟩ fun _ =>
      leaves_bodyTail rest
  have behind : Completes (do let _ ← blankLines; bodyTail) fun _ => True :=
    .bind reads_blankLines inStep_blankLines completes_blankLines (fun _ => completes_bodyTail)
      (fun _ _ => inStep_bodyTail) [brace] significant_brace (by simp [brace])
      fun _ rest _ => leaves_bodyTail rest
  exact .bind (.token rfl) (.token _) (.token rfl fun _ => True) (fun _ => behind)
    (fun _ _ => inStep_blankLines.bind fun _ _ => inStep_bodyTail) [brace] significant_brace
    (fun _ _ => trivial) fun _ rest _ => hblank rest

/-! ## Statements -/

theorem completes_typeName : Completes typeName Stops :=
  .of_reads reads_typeName fun n _ _ hn hrest => ⟨n, run_typeName hn hrest⟩

theorem leaves_noBody {rest : List Lexeme} (h : AtStatementEnd rest) (n : String) :
    Leaves (do let items ← option body; return declarationOf n (items.getD [])) rest rest :=
  Leaves.bind ⟨none, run_option_none (run_body_none (h.ne (by decide)))⟩ fun _ => leaves_pure _ rest

theorem completes_declaration : Completes declaration AtStatementEnd := by
  have hoption : Completes (option body) AtStatementEnd :=
    .option reads_body inStep_body (completes_body.mono fun _ _ => trivial)
  have htail : ∀ n n' : String, InStep
      (do let items ← option body; return declarationOf n (items.getD []))
      (do let items ← option body; return declarationOf n' (items.getD [])) :=
    fun _ _ => inStep_body.option.bind fun _ _ => .give _ _
  -- behind the word `class` a name can stand, and behind the name nothing more is needed
  let a : Lexeme := ⟨.word, "A", 0⟩
  have ha : Significant [a] := by
    intro l hl
    cases List.mem_singleton.1 hl
    rfl
  have behind : Completes (do
      let n ← typeName
      let items ← option body
      return declarationOf n (items.getD [])) AtStatementEnd :=
    .bind reads_typeName inStep_typeName completes_typeName
      (fun _ => .map (.option reads_body) inStep_body.option hoption _) htail [] nofun
      (fun _ hrest => hrest.stops) fun n _ hrest => leaves_noBody hrest n
  refine .bind (.token rfl) (.token _) (.token rfl fun _ => True) (fun _ => behind)
    (fun _ _ => inStep_typeName.bind htail) [a] ha (fun _ _ => trivial) ?_
  intro _ rest hrest
  exact Leaves.bind ⟨"A", run_typeName (isTypeName_word a rfl) hrest.stops⟩ (leaves_noBody hrest)

theorem reach_orElse_cases {p q : Rule α} {s : List Lexeme} (h : ((p <|> q) s).reach = s.length) :
    (p s).reach = s.length ∨ (q s).reach = s.length := by
  change (Rule.orElse p q s).reach = _ at h
  cases hfound : (p s).found with
  | some found =>
    simp only [Rule.orElse, hfound] at h
    exact Or.inl h
  | none =>
    simp only [Rule.orElse, hfound] at h
    omega

theorem completes_statement (text : List Char) : Completes (statement text) AtStatementEnd := by
  intro s hreach
  rcases reach_orElse_cases hreach with h | h
  · obtain ⟨z, hz, hleaves⟩ :=
      Completes.map reads_declaration inStep_declaration completes_declaration Statement.declare s h
    refine ⟨z, hz, fun rest hrest => ?_⟩
    obtain ⟨a, ha⟩ := hleaves rest hrest
    exact ⟨a, run_orElse_some ha⟩
  · obtain ⟨st, z, hz, hst⟩ := (reads_undeclared true text).viable h
    refine ⟨z, hz, fun rest hrest => ⟨st, ?_⟩⟩
    rw [← List.append_assoc]
    exact run_statement hst hrest

/-- A statement that can stand on any line: a note without a text. -/
def noteLexemes : List Lexeme := [⟨.noteWord, "note", 0⟩, ⟨.quotedString, "\"\"", 5⟩]

theorem significant_noteLexemes : Significant noteLexemes := by
  intro l hl
  simp only [noteLexemes, List.mem_cons, List.not_mem_nil, or_false] at hl
  rcases hl with rfl | rfl <;> rfl

theorem isStatement_noteLexemes (text : List Char) :
    ∃ st, IsStatement true text st noteLexemes := ⟨_, .note (.plain rfl rfl)⟩

theorem completes_statementLine (text : List Char) :
    Completes (statementLine text) AtStatementEnd := by
  have hlines : Completes (many1 (token .newline)) fun rest => next rest ≠ some .newline := by
    refine .of_reads (.many1 reads_newline) ?_
    rintro ls u rest ⟨hne, hls⟩ hrest
    obtain ⟨rfl, hls⟩ := hls.eq_of_single
    exact ⟨_, run_newlines hls hne hrest⟩
  refine .bind (.many1 reads_newline) ((InStep.token _).many1 (advances_token _) (advances_token _))
    hlines (fun _ => completes_statement text) (fun _ _ => inStep_statement text text) noteLexemes
    significant_noteLexemes (fun rest _ => by simp [noteLexemes]) ?_
  intro _ rest hrest
  obtain ⟨st, hst⟩ := isStatement_noteLexemes text
  exact ⟨st, run_statement hst hrest⟩

/-! ## Diagrams -/

def diagramEnd (statements : List Statement) : Rule (List Statement) := do
  let _ ← blankLines
  let _ ← atEnd
  return statements

theorem leaves_diagramEnd (statements : List Statement) : Leaves (diagramEnd statements) [] [] :=
  Leaves.bind ⟨[], run_blankLines (u := []) nofun (by simp)⟩ fun _ =>
    Leaves.bind ⟨(), rfl⟩ fun _ => leaves_pure _ []

theorem inStep_diagramEnd (ss ss' : List Statement) : InStep (diagramEnd ss) (diagramEnd ss') :=
  inStep_blankLines.bind fun _ _ => InStep.atEnd.bind fun _ _ => .give _ _

theorem completes_diagramEnd (statements : List Statement) :
    Completes (diagramEnd statements) (· = []) := by
  have hend : Completes atEnd (· = []) := by
    refine .of_reads reads_atEnd ?_
    rintro _ u rest rfl rfl
    exact ⟨(), rfl⟩
  have hblank : Completes blankLines (· = []) :=
    completes_blankLines.mono fun s hs => by simp [hs]
  refine .bind reads_blankLines inStep_blankLines hblank
    (fun _ => .map reads_atEnd InStep.atEnd hend fun _ => statements)
    (fun _ _ => InStep.atEnd.bind fun _ _ => .give _ _) [] nofun (fun _ hrest => hrest) ?_
  rintro _ rest rfl
  exact Leaves.bind ⟨(), rfl⟩ fun _ => leaves_pure _ []

def diagramTail (text : List Char) : Rule (List Statement) := do
  let statements ← many (statementLine text)
  diagramEnd statements

theorem leaves_diagramTail (text : List Char) : Leaves (diagramTail text) [] [] :=
  Leaves.bind ⟨[], run_statementLines .nil (w := []) nofun⟩ fun _ => leaves_diagramEnd _

theorem inStep_diagramTail (text : List Char) : InStep (diagramTail text) (diagramTail text) :=
  ((inStep_statementLine text text).many (advances_statementLine text)
    (advances_statementLine text)).bind fun _ _ => inStep_diagramEnd _ _

theorem completes_diagramTail (text : List Char) : Completes (diagramTail text) (· = []) := by
  have hline := inStep_statementLine text text
  have hadv := advances_statementLine text
  have hlines : Completes (many (statementLine text)) (· = []) := by
    refine ((completes_statementLine text).mono fun s hs => Or.inl (by simp [hs])).many
      (reads_statementLine text) hadv hline ?_
    rintro rest rfl
    exact run_statementLine_none (w := []) nofun
  refine .bind (.many (reads_statementLine text)) (hline.many hadv hadv) hlines
    completes_diagramEnd inStep_diagramEnd [] nofun (fun _ hrest => hrest) ?_
  rintro ss rest rfl
  exact leaves_diagramEnd ss

/-- The lexemes of a diagram that was not stopped before their end begin a diagram. -/
theorem completes_diagram (text : List Char) : Completes (diagram text) (· = []) := by
  let h : Lexeme := ⟨.header, "classDiagram", 0⟩
  have hh : Significant [h] := by
    intro l hl
    cases List.mem_singleton.1 hl
    rfl
  have behind : Completes (do let _ ← token .header; diagramTail text) (· = []) := by
    refine .bind (.token rfl) (.token _) (.token rfl fun _ => True)
      (fun _ => completes_diagramTail text) (fun _ _ => inStep_diagramTail text) [] nofun
      (fun _ _ => trivial) ?_
    rintro _ rest rfl
    exact leaves_diagramTail text
  refine .bind reads_blankLines inStep_blankLines completes_blankLines (fun _ => behind)
    (fun _ _ => (InStep.token _).bind fun _ _ => inStep_diagramTail text) [h] hh (by simp [h]) ?_
  rintro _ rest rfl
  exact (leaves_token rfl []).bind fun _ => leaves_diagramTail text

end ClassDiagram.Grammar
