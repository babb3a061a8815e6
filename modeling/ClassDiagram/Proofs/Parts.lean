import ClassDiagram.Proofs.Grammar.Seams
import ClassDiagram.Proofs.Layout.Canonical
import ClassDiagram.Proofs.Model.Merging
import ClassDiagram.Proofs.Token.LineFeeds

/-! # Texts read in parts

The lines of one diagram may be put behind another one: a line feed parts the lexemes, each
statement is read to the end of its line, and a label is cut out of the same characters.  And
diagrams may be read into a model one after another: what they declare is merged part by part, and
a text that is refused does nothing.

* `matching_front`, `matching_behind`: lexemes of a part and of the whole text;
* `statementsOfText_joined`: the statements of a text and of further lines;
* `foldl_absorbed`: texts that are read into a model one after another;
* `read_in_parts`: both ways of reading in parts.
-/

namespace ClassDiagram

open Grammar Rule

/-! ## Lexemes of a part -/

/-- What lies in the first part of a text lies in this part alone. -/
theorem matching_front (u v : List Char) :
    Matching u (u ++ v) fun l l' => l = l' ∧ l.stop ≤ Text.byteCount u where
  face h := congrArg face h.1
  slice := by
    rintro k _ l _ ⟨rfl, _⟩ ⟨rfl, hl⟩
    exact (Text.slice_append_of_le hl _ v).symm

/-- The same lexeme behind a line of `m` bytes and behind one of `n` bytes. -/
def Lexeme.Shifted (m n : Nat) (l l' : Lexeme) : Prop :=
  ∃ k : Lexeme, l = k.shift (m + 1) ∧ l' = k.shift (n + 1)

theorem Lexeme.forall₂_shifted (m n : Nat) (ls : List Lexeme) :
    List.Forall₂ (Shifted m n) (ls.map (shift (m + 1))) (ls.map (shift (n + 1))) := by
  rw [List.forall₂_map_left_iff, List.forall₂_map_right_iff, List.forall₂_same]
  exact fun l _ => ⟨l, rfl, rfl⟩

/-- What lies behind the line feed may have another text before it. -/
theorem matching_behind (u u' v : List Char) :
    Matching (u ++ '\n' :: v) (u' ++ '\n' :: v)
      (Lexeme.Shifted (Text.byteCount u) (Text.byteCount u')) where
  face := by
    rintro _ _ ⟨m, rfl, rfl⟩
    rfl
  slice := by
    rintro _ _ _ _ ⟨k, rfl, rfl⟩ ⟨l, rfl, rfl⟩
    have hslice : ∀ x : List Char, Text.slice (x ++ '\n' :: v)
        (k.shift (Text.byteCount x + 1)).offset (l.shift (Text.byteCount x + 1)).stop
          = Text.slice v k.offset l.stop := by
      intro x
      have hadd := Text.slice_add (x ++ ['\n']) v k.offset l.stop
      rw [Text.byteCount_append, List.append_assoc] at hadd
      rw [Lexeme.stop_shift]
      exact hadd
    rw [hslice, hslice]

/-! ## Lines behind a diagram -/

theorem ofText_header : Lexeme.ofText "classDiagram".toList = [⟨.header, "classDiagram", 0⟩] := by
  decide +kernel

/-- Behind a header there are the lines of the statements. -/
theorem run_statementLines_header {b : String} {ss : List Statement}
    (h : statementsOfText ("classDiagram\n" ++ b) = .ok ss) :
    ∃ (l : Lexeme) (r : List Lexeme), l.token = .newline ∧ Newlines r ∧
      (many (statementLine ("classDiagram".toList ++ '\n' :: b.toList))).run
        (l :: (Lexeme.ofText b.toList).map
          (Lexeme.shift (Text.byteCount "classDiagram".toList + 1))) = some (ss, r) := by
  have htext : ("classDiagram\n" ++ b).toList = "classDiagram".toList ++ '\n' :: b.toList := by
    rw [String.toList_append]
    rfl
  obtain ⟨l, hl, -, hlexemes⟩ := Lexeme.ofText_lineFeed "classDiagram".toList b.toList
  obtain ⟨u, k, v, r, hs, hu, _, hlines, hr⟩ := run_diagram_iff.1 (ok_iff_run.1 h)
  rw [htext] at hlines
  rw [htext, hlexemes, ofText_header, List.singleton_append] at hs
  cases u with
  | nil =>
    rw [← (List.cons.inj hs).2] at hlines
    exact ⟨l, r, hl, hr, hlines⟩
  | cons m u =>
    have hm := hu m List.mem_cons_self
    rw [← (List.cons.inj hs).1] at hm
    cases hm

/-- The lines behind a header are read behind any other text too, whatever line ends there are
before them. -/
theorem run_statementLines_behind {b : String} {ss : List Statement}
    (h : statementsOfText ("classDiagram\n" ++ b) = .ok ss) (t : List Char) {u : List Lexeme}
    (hu : Newlines u) (hne : u ≠ []) :
    ∃ r, Newlines r ∧ (many (statementLine (t ++ '\n' :: b.toList))).run
      (u ++ (Lexeme.ofText b.toList).map (Lexeme.shift (Text.byteCount t + 1))) = some (ss, r) := by
  obtain ⟨l, r, hl, hr, hlines⟩ := run_statementLines_header h
  -- a line end that both texts have in common
  let e : Lexeme := ⟨.newline, "\n", 0⟩
  have he : ∀ n : Nat, Newlines [e.shift n] := fun n => List.forall_mem_singleton.2 rfl
  obtain ⟨r₁, hr₁, hfirst⟩ := run_statementLines_newlines (u := [l])
    (List.forall_mem_singleton.2 hl) (by simp) (he _) (by simp) hlines hr
  obtain ⟨r₂, hr₂, hmoved⟩ := (matching_behind _ t b.toList).run_statementLines
    (Lexeme.forall₂_shifted _ _ (e :: Lexeme.ofText b.toList)) hfirst hr₁ (w := []) (.inl rfl)
  have hnone : (many (statementLine (t ++ '\n' :: b.toList))).run (r₂ ++ []) = some ([], r₂) := by
    rw [List.append_nil]
    exact run_many_of_none (advances_statementLine _) (run_statementLine_none hr₂)
  have hsecond := hmoved _ _ hnone
  rw [List.append_nil, List.append_nil] at hsecond
  exact run_statementLines_newlines (he _) (by simp) hu hne hsecond hr₂

/-- A text with further lines behind it has the statements of both. -/
theorem statementsOfText_joined {t b : String} {ss ss' : List Statement}
    (h : statementsOfText t = .ok ss) (h' : statementsOfText ("classDiagram\n" ++ b) = .ok ss') :
    statementsOfText (t ++ "\n" ++ b) = .ok (ss ++ ss') := by
  have htext : (t ++ "\n" ++ b).toList = t.toList ++ '\n' :: b.toList := by
    rw [String.toList_append, String.toList_append, List.append_assoc]
    rfl
  obtain ⟨l, hl, -, hlexemes⟩ := Lexeme.ofText_lineFeed t.toList b.toList
  obtain ⟨u, k, v, r, hs, hu, hk, hlines, hr⟩ := run_diagram_iff.1 (ok_iff_run.1 h)
  have hv : List.Forall₂ (fun l l' => l = l' ∧ l.stop ≤ Text.byteCount t.toList) v v := by
    refine List.forall₂_same.2 fun x hx => ⟨rfl, Lexeme.stop_le_of_mem_ofText x ?_⟩
    rw [hs]
    exact List.mem_append_right _ (List.mem_cons_of_mem _ hx)
  obtain ⟨r', hr', hjoined⟩ := (matching_front t.toList ('\n' :: b.toList)).run_statementLines hv
    hlines hr (w := l :: (Lexeme.ofText b.toList).map (Lexeme.shift (Text.byteCount t.toList + 1)))
    (.inr (congrArg some hl))
  have hends : Newlines (r' ++ [l]) :=
    List.forall_mem_append.2 ⟨hr', List.forall_mem_singleton.2 hl⟩
  obtain ⟨q, hq, hbehind⟩ := run_statementLines_behind h' t.toList hends (by simp)
  rw [List.append_assoc, List.singleton_append] at hbehind
  rw [statementsOfText, htext, ok_iff_run, hlexemes, hs, List.append_assoc, List.cons_append]
  exact run_diagram_iff.2 ⟨u, k, _, q, rfl, hu, hk, hjoined _ _ hbehind, hq⟩

/-! ## Texts read one after another -/

/-- The statements of a text that is accepted, and none of a text that is refused. -/
def Document.statements (text : String) : List Statement :=
  match Model.ofText text with
  | .ok _ => (statementsOfText text).toOption.getD []
  | .error _ => []

/-- The model after a text was read into it; a text that is refused leaves it as it was. -/
def Model.absorbed (m : Model) (text : String) : Model :=
  (m.absorb text).toOption.getD m

/-- Reading a text adds what its statements declare, which all have names. -/
theorem absorbed_declared (ss : List Statement) (text : String) :
    (∀ s ∈ Document.statements text, s.Named) ∧
      (Model.declared ss).absorbed text = Model.declared (ss ++ Document.statements text) := by
  cases h : statementsOfText text with
  | error e =>
    have hrefused := ofText_of_error h
    have hnone : Document.statements text = [] := by rw [Document.statements, hrefused]
    refine ⟨by rw [hnone]; exact nofun, ?_⟩
    rw [hnone, List.append_nil, Model.absorbed, Model.absorb, hrefused]
    rfl
  | ok ss' =>
    obtain ⟨hnamed, haccepted⟩ := ofText_of_statementsOfText h
    have hsome : Document.statements text = ss' := by
      rw [Document.statements, haccepted, h]
      rfl
    refine ⟨by rwa [hsome], ?_⟩
    rw [hsome, ← Model.merge_declared, Model.absorbed, Model.absorb, haccepted]
    rfl

/-- Reading texts one after another adds what the statements of all accepted ones declare. -/
theorem foldl_absorbed (ss : List Statement) (texts : List String) :
    texts.foldl Model.absorbed (Model.declared ss)
      = Model.declared (ss ++ texts.flatMap Document.statements) := by
  induction texts generalizing ss with
  | nil => rw [List.flatMap_nil, List.append_nil, List.foldl_nil]
  | cons text texts ih =>
    rw [List.foldl_cons, (absorbed_declared ss text).2, ih, List.flatMap_cons, List.append_assoc]

/-- The lines of a diagram may be put behind another diagram, and have their statements there too.
Texts that are read one after another into an empty model leave what the statements of those that
were accepted build together. -/
theorem read_in_parts :
    (∀ (t b : String) (ss ss' : List Statement), statementsOfText t = .ok ss →
      statementsOfText ("classDiagram\n" ++ b) = .ok ss' →
      statementsOfText (t ++ "\n" ++ b) = .ok (ss ++ ss') ∧
        ∃ m, Model.ofText (t ++ "\n" ++ b) = .ok m) ∧
    ∀ texts : List String, Model.ofStatements (texts.flatMap Document.statements)
      = .ok (texts.foldl Model.absorbed Model.empty) := by
  refine ⟨fun t b ss ss' h h' => ?_, fun texts => ?_⟩
  · have hjoined := statementsOfText_joined h h'
    exact ⟨hjoined, _, (ofText_of_statementsOfText hjoined).2⟩
  · have hnamed : ∀ s ∈ texts.flatMap Document.statements, s.Named := by
      intro s hs
      obtain ⟨text, _, hs⟩ := List.mem_flatMap.1 hs
      exact (absorbed_declared [] text).1 s hs
    rw [Model.ofStatements_of_named hnamed]
    exact congrArg Except.ok (foldl_absorbed [] texts).symm

def kennel : String := "classDiagram\nclass Dog\nPet <|.. Dog\nGuard <|-- Dog"

def kennelStatements : List Statement :=
  [.declare ⟨"Dog", [], []⟩, .relate ⟨"Pet", [(.realizesLeft, "Dog")], none⟩,
    .relate ⟨"Guard", [(.inheritsLeft, "Dog")], none⟩]

/-- Lines that write the first edge again, with another kind. -/
def kennelLines : String := "Pet <|-- Dog : tame\nnote \"open\""

def kennelLineStatements : List Statement :=
  [.relate ⟨"Pet", [(.inheritsLeft, "Dog")], some "tame"⟩, .note ⟨none, "open"⟩]

def kennelModel : Model :=
  { classes := ⟨[
      ("Dog", { name := "Dog", parents := ⟨[("Pet", .inherits), ("Guard", .inherits)]⟩ }),
      ("Pet", { name := "Pet" }),
      ("Guard", { name := "Guard" })]⟩
    notes := [⟨none, "open"⟩] }

/-- The lines may stand in the text or in a text of their own, with a refused text before it. -/
theorem read_in_parts_kennel :
    statementsOfText (kennel ++ "\n" ++ kennelLines)
        = .ok (kennelStatements ++ kennelLineStatements) ∧
      [kennel, "classDiagram\nclass", "classDiagram\n" ++ kennelLines].foldl Model.absorbed
        Model.empty = kennelModel ∧
      Model.ofStatements (kennelStatements ++ kennelLineStatements) = .ok kennelModel := by
  obtain ⟨hjoined, hmerged⟩ := read_in_parts
  have hparts := hmerged [kennel, "classDiagram\nclass", "classDiagram\n" ++ kennelLines]
  have hstatements : [kennel, "classDiagram\nclass", "classDiagram\n" ++ kennelLines].flatMap
      Document.statements = kennelStatements ++ kennelLineStatements := by decide +kernel
  have hbuilt : Model.ofStatements (kennelStatements ++ kennelLineStatements)
      = .ok kennelModel := ok_of_toOption (by decide +kernel)
  rw [hstatements, hbuilt] at hparts
  refine ⟨(hjoined kennel kennelLines _ _ ?_ ?_).1, (Except.ok.inj hparts).symm, hbuilt⟩
  · exact ok_of_toOption (by decide +kernel)
  · exact ok_of_toOption (by decide +kernel)

end ClassDiagram
