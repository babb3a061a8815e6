import ClassDiagram.Proofs.Grammar.Agreement
import ClassDiagram.Proofs.Layout.Members

/-! # The canonical layout is a diagram

Each line of the layout of a model, but the empty ones, spells a statement.  All of them together
are a diagram, and reading it gives these statements back.

* `Layout.statements`: what the lines say;
* `spells_link`: an operator and the name behind it;
* `CanonicalModel`: names, types and texts that can be written;
* `statementsOfText_layout`: the layout of such a model is read as the statements it was made of.
-/

namespace ClassDiagram

open TokenCatalog Grammar

/-! ## Statements of a layout -/

namespace Layout

def parentStatement (child : String) (edge : String × RelationKind) : Statement :=
  match edge.2 with
  | .inherits => .relate { head := edge.1, links := [(.inheritsLeft, child)], label := none }
  | .implements => .relate { head := child, links := [(.realizesRight, edge.1)], label := none }

def classStatements (c : Class) : List Statement :=
  .declare (declarationOf c.name []) ::
    (c.tags.items.map fun tag => Statement.annotate tag c.name)
    ++ (c.members.map fun m => Statement.member ⟨c.name, m⟩)
    ++ c.parents.entries.map (parentStatement c.name)

def statements (m : Model) : List Statement :=
  m.classes.values.flatMap classStatements ++ m.notes.map .note

end Layout

/-! ## Canonical models -/

structure CanonicalClass (c : Class) : Prop where
  name : CanonicalType c.name
  tags : ∀ tag ∈ c.tags.items, IsWord tag
  members : ∀ m ∈ c.members, CanonicalMember m
  parents : ∀ p ∈ c.parents.keys, CanonicalType p

structure CanonicalNote (n : Note) : Prop where
  target : ∀ t, n.target = some t → CanonicalType t
  text : Quotable n.text.toList

/-- A model all of which can be written. -/
structure CanonicalModel (m : Model) : Prop where
  classes : ∀ c ∈ m.classes.values, CanonicalClass c
  notes : ∀ n ∈ m.notes, CanonicalNote n

/-! ## Operators -/

theorem spells_relationOp (op : RelationOp) :
    Spells IsRelationOp op op.symbol Anything := by
  have hone : ∀ t x, t.isTrivia = false → x.toList ≠ [] →
      (∀ rest, classDiagram.bestMatch (x.toList ++ rest) = some (t, x.toList.length)) →
      (∀ l : Lexeme, l.token = t → IsRelationOp op [l]) → Spells IsRelationOp op x Anything := by
    intro t x ht hx hbest hop
    refine (Spells.piece ht fun rest _ => pieces_of_bestMatch hx (hbest rest)).imp ?_
    rintro _ ⟨l, hl, _, rfl⟩
    exact hop l hl
  cases op with
  | inheritsLeft => exact hone _ "<|--" rfl (by decide) (fun _ => rfl) fun _ => .inheritsLeft
  | inheritsRight => exact hone _ "--|>" rfl (by decide) (fun _ => rfl) fun _ => .inheritsRight
  | realizesRight => exact hone _ "..|>" rfl (by decide) (fun _ => rfl) fun _ => .realizesRight
  | realizesLeft => exact hone _ "<|.." rfl (by decide) (fun _ => rfl) fun _ => .realizesLeft

theorem blankEnds_symbol (op : RelationOp) (y : String) (rest : List Char) :
    BlankEnds ((op.symbol ++ y).toList ++ rest) := by
  cases op with
  | inheritsLeft => exact (Begins.append (x := "<|--") rfl y).blankEnds rfl rest
  | inheritsRight => exact (Begins.append (x := "--|>") rfl y).blankEnds rfl rest
  | realizesRight => exact (Begins.append (x := "..|>") rfl y).blankEnds rfl rest
  | realizesLeft => exact (Begins.append (x := "<|..") rfl y).blankEnds rfl rest

theorem spells_link (op : RelationOp) {right : String} (h : CanonicalType right) :
    Spells IsLink (op, right) (" " ++ (op.symbol ++ (" " ++ right))) WordEnds := by
  have hright := h.spells.behindBlank fun rest _ => h.begins.blankEnds rest
  have hlink := ((spells_relationOp op).append hright fun _ _ => trivial).behindBlank
    fun rest _ => blankEnds_symbol op _ rest
  refine hlink.imp ?_
  rintro _ ⟨u, v, hu, hv, rfl⟩
  exact .mk hu hv

/-! ## Lines -/

/-- A line spells a statement, and blanks in front of it end where it begins. -/
def Line (text : List Char) (s : Statement) (line : String) : Prop :=
  Spells (IsStatement true text) s line WordEnds ∧ ∀ rest, BlankEnds (line.toList ++ rest)

section

variable (text : List Char)

theorem line_class {n : String} (h : CanonicalType n) :
    Line text (.declare (declarationOf n [])) ("class " ++ n) := by
  have hname := h.spells.behindBlank fun rest _ => h.begins.blankEnds rest
  have hblank : Begins (" " ++ n) ' ' := .append (x := " ") rfl n
  have hkeyword := spells_keyword (t := .classWord) (k := "class") (by decide)
  have hline := hkeyword.append hname fun rest _ => hblank.wordEnds rfl (by decide) rest
  have htext : "class " ++ n = "class" ++ (" " ++ n) := by
    rw [← String.append_assoc]
    rfl
  refine ⟨?_, fun rest => (Begins.append (x := "class ") rfl n).blankEnds rfl rest⟩
  rw [htext]
  refine hline.imp ?_
  rintro _ ⟨_, u, ⟨k, hk, _, rfl⟩, hu, rfl⟩
  exact .declare (.bare hk hu)

theorem line_tag {tag n : String} (ht : IsWord tag) (h : CanonicalType n) :
    Line text (.annotate tag n) ("<<" ++ tag ++ ">> " ++ n) := by
  have hname := h.spells.behindBlank fun rest _ => h.begins.blankEnds rest
  have hopen := spells_fixed (t := .annotationStart) (x := "<<") (by decide)
  have hclose := spells_fixed (t := .closeAngle) (x := ">") (by decide)
  have hends := hclose.append (hclose.append hname fun _ _ => trivial) fun _ _ => trivial
  have hword := (spells_word ht).append hends fun rest _ =>
    (Begins.append (x := ">") rfl _).wordEnds rfl (by decide) rest
  have hline := hopen.append hword fun _ _ => trivial
  have htext : "<<" ++ tag ++ ">> " ++ n = "<<" ++ (tag ++ (">" ++ (">" ++ (" " ++ n)))) := by
    have hblank : ">> " = ">" ++ (">" ++ " ") := by decide
    simp only [hblank, String.append_assoc]
  rw [htext]
  refine ⟨hline.imp ?_, fun rest => (Begins.append (x := "<<") rfl _).blankEnds rfl rest⟩
  rintro _ ⟨_, _, ⟨o, ho, _, rfl⟩, ⟨_, _, ⟨w, hw, htext, rfl⟩, ⟨_, _, ⟨c, hc, _, rfl⟩,
    ⟨_, u, ⟨d, hd, _, rfl⟩, hu, rfl⟩, rfl⟩, rfl⟩, rfl⟩
  have htag := IsTag.mk ho hw hc hd
  rw [htext] at htag
  exact IsStatement.annotate (u := [o, w, c, d]) htag hu

theorem line_member {n : String} {m : Member} (h : CanonicalType n) (hm : CanonicalMember m) :
    Line text (.member ⟨n, m⟩) (n ++ " : " ++ Layout.member m) := by
  have hmember := hm.spells.behindBlank fun rest _ => blankEnds_member m rest
  have hcolon := spells_fixed (t := .colon) (x := ":") (by decide)
  have hbehind := (hcolon.append hmember fun _ _ => trivial).behindBlank fun rest _ =>
    (Begins.append (x := ":") rfl _).blankEnds rfl rest
  have hline := h.spells.append hbehind fun rest _ => wordEnds_blank _ rest
  have htext : n ++ " : " ++ Layout.member m = n ++ (" " ++ (":" ++ (" " ++ Layout.member m))) := by
    have hblank : " : " = " " ++ (":" ++ " ") := by decide
    simp only [hblank, String.append_assoc]
  rw [htext]
  refine ⟨hline.imp ?_, fun rest => (h.begins.append _).blankEnds rest⟩
  rintro _ ⟨u, _, hu, ⟨_, v, ⟨c, hc, _, rfl⟩, hv, rfl⟩, rfl⟩
  exact .member hu hc hv

/-- Two names with an operator between them. -/
theorem line_chain {left right : String} (op : RelationOp) (hl : CanonicalType left)
    (hr : CanonicalType right) :
    Line text (.relate { head := left, links := [(op, right)], label := none })
      (left ++ (" " ++ (op.symbol ++ (" " ++ right)))) := by
  have hline := hl.spells.append (spells_link op hr) fun rest _ => wordEnds_blank _ rest
  refine ⟨hline.imp ?_, fun rest => (hl.begins.append _).blankEnds rest⟩
  rintro _ ⟨u, v, hu, hv, rfl⟩
  have hlinks : Many IsLink [(op, right)] v := by simpa using Many.cons hv .nil
  have hlabel : Grammar.Language.optional (IsLabel text) none [] := rfl
  have hchain := IsChain.mk hu (by simp) hlinks hlabel
  rw [List.append_nil] at hchain
  exact .relate hchain

theorem line_parent {child : String} {edge : String × RelationKind} (hc : CanonicalType child)
    (he : CanonicalType edge.1) :
    Line text (Layout.parentStatement child edge) (Layout.parent child edge) := by
  obtain ⟨parent, kind⟩ := edge
  cases kind with
  | inherits =>
    have htext : Layout.parent child (parent, .inherits)
        = parent ++ (" " ++ ("<|--" ++ (" " ++ child))) := by
      have hblank : " <|-- " = " " ++ ("<|--" ++ " ") := by decide
      simp only [Layout.parent, hblank, String.append_assoc]
    rw [htext]
    exact line_chain text .inheritsLeft he hc
  | implements =>
    have htext : Layout.parent child (parent, .implements)
        = child ++ (" " ++ ("..|>" ++ (" " ++ parent))) := by
      have hblank : " ..|> " = " " ++ ("..|>" ++ " ") := by decide
      simp only [Layout.parent, hblank, String.append_assoc]
    rw [htext]
    exact line_chain text .realizesRight hc he

/-- The quotation marks around a note are taken off again. -/
theorem strip_quoted {body : List Char} (h : Quotable body) :
    Text.strip (· == '"') ('"' :: (body ++ ['"'])) = body := by
  have hdrop : ∀ u v : List Char, Quotable u → (u ++ '"' :: v).dropWhile (· == '"')
      = if u = [] then v.dropWhile (· == '"') else u ++ '"' :: v := by
    intro u v hu
    cases u with
    | nil => simp
    | cons c u =>
      have hc : c ≠ '"' := (hu c List.mem_cons_self).1
      simp [hc]
  have hreverse : Quotable body.reverse := fun c hc => h c (List.mem_reverse.1 hc)
  have hfirst : ('"' :: (body ++ ['"'])).dropWhile (· == '"')
      = if body = [] then [] else body ++ ['"'] := by
    simpa using hdrop body [] h
  rw [Text.strip, hfirst]
  by_cases hnil : body = []
  · simp [hnil]
  · have hlast : body.reverse.dropWhile (· == '"') = body.reverse := by
      obtain ⟨c, u, hcu⟩ := List.exists_cons_of_ne_nil (List.reverse_ne_nil_iff.2 hnil)
      have hc : c ≠ '"' := (hreverse c (by simp [hcu])).1
      rw [hcu]
      simp [hc]
    simp [hnil, hlast]

def IsNoteText : Grammar.Language String := fun body u =>
  ∃ q : Lexeme, q.token = .quotedString ∧
    String.ofList (Text.strip (· == '"') q.text.toList) = body ∧ u = [q]

theorem spells_noteText {body : String} (h : Quotable body.toList) :
    Spells IsNoteText body (" " ++ ("\"" ++ body ++ "\"")) WordEnds := by
  have hbegins : Begins ("\"" ++ body ++ "\"") '"' := .append (.append (x := "\"") rfl _) _
  have hquoted := (spells_quoted h).behindBlank fun rest _ => hbegins.blankEnds rfl rest
  refine (hquoted.always WordEnds).imp ?_
  rintro _ ⟨q, hq, htext, rfl⟩
  have hlist : q.text.toList = '"' :: (body.toList ++ ['"']) := by simp [htext]
  exact ⟨q, hq, by rw [hlist, strip_quoted h, String.ofList_toList], rfl⟩

theorem line_note {n : Note} (h : CanonicalNote n) : Line text (.note n) (Layout.note n) := by
  obtain ⟨target, body⟩ := n
  obtain ⟨htarget, hbody⟩ := h
  have hbody := spells_noteText hbody
  have hkeyword := spells_keyword (t := .noteWord) (k := "note") (by decide)
  cases target with
  | none =>
    have hline := hkeyword.append hbody fun rest _ => wordEnds_blank _ rest
    have htext : Layout.note ⟨none, body⟩ = "note" ++ (" " ++ ("\"" ++ body ++ "\"")) := by
      have hblank : "note \"" = "note" ++ (" " ++ "\"") := by decide
      simp only [Layout.note, hblank, String.append_assoc]
    rw [htext]
    refine ⟨hline.imp ?_, fun rest => (Begins.append (x := "note") rfl _).blankEnds rfl rest⟩
    rintro _ ⟨_, _, ⟨k, hk, _, rfl⟩, ⟨q, hq, rfl, rfl⟩, rfl⟩
    exact .note (.plain hk hq)
  | some t =>
    have ht := htarget t rfl
    have hname := (ht.spells.behindBlank fun rest _ => ht.begins.blankEnds rest).append hbody
      fun rest _ => wordEnds_blank _ rest
    have hfor := (spells_keyword (t := .forWord) (k := "for") (by decide)).append hname fun rest _ =>
      by
        rw [String.append_assoc]
        exact wordEnds_blank _ rest
    have hbehind := hfor.behindBlank fun rest _ =>
      (Begins.append (x := "for") rfl _).blankEnds rfl rest
    have hline := hkeyword.append hbehind fun rest _ => wordEnds_blank _ rest
    have htext : Layout.note ⟨some t, body⟩ = "note" ++ (" " ++ ("for" ++ ((" " ++ t) ++
        (" " ++ ("\"" ++ body ++ "\""))))) := by
      have hblank : "note for " = "note" ++ (" " ++ ("for" ++ " ")) := by decide
      have hquote : " \"" = " " ++ "\"" := by decide
      simp only [Layout.note, hblank, hquote, String.append_assoc]
    rw [htext]
    refine ⟨hline.imp ?_, fun rest => (Begins.append (x := "note") rfl _).blankEnds rfl rest⟩
    rintro _ ⟨_, _, ⟨k, hk, _, rfl⟩, ⟨_, _, ⟨f, hf, _, rfl⟩, ⟨u, _, hu, ⟨q, hq, rfl, rfl⟩, rfl⟩, rfl⟩,
      rfl⟩
    exact .note (.about hk hf hu hq)

end

/-! ## Whole layouts -/

/-- Statement lines and then line ends, as behind the header of a diagram. -/
def StatementLines (text : List Char) : Grammar.Language (List Statement) := fun ss u =>
  ∃ v w, Many (IsStatementLine true text) ss v ∧ Newlines w ∧ u = v ++ w

/-- One more line end in front changes nothing. -/
theorem StatementLines.newline {text : List Char} {ss : List Statement} {u : List Lexeme}
    (h : StatementLines text ss u) {l : Lexeme} (hl : l.token = .newline) :
    StatementLines text ss (l :: u) := by
  obtain ⟨v, w, hv, hw, rfl⟩ := h
  cases hv with
  | nil => exact ⟨[], l :: w, .nil, List.forall_mem_cons.2 ⟨hl, hw⟩, rfl⟩
  | @cons s ss _ v hs hss =>
    obtain ⟨_, hlines, hstatement⟩ := hs
    rename_i u x hne
    have hs : IsStatementLine true text s ((l :: u) ++ x) :=
      .mk (by simp) (List.forall_mem_cons.2 ⟨hl, hlines⟩) hstatement
    exact ⟨(l :: u) ++ x ++ v, w, .cons hs hss, hw, by simp⟩

theorem StatementLines.cons {text : List Char} {s : Statement} {ss : List Statement}
    {u v : List Lexeme} (hs : IsStatement true text s u) (hss : StatementLines text ss v)
    {l : Lexeme} (hl : l.token = .newline) : StatementLines text (s :: ss) (l :: (u ++ v)) := by
  obtain ⟨v, w, hv, hw, rfl⟩ := hss
  have hline : IsStatementLine true text s ([l] ++ u) :=
    .mk (by simp) (List.forall_mem_cons.2 ⟨hl, nofun⟩) hs
  exact ⟨[l] ++ u ++ v, w, .cons hline hv, hw, by simp⟩

/-- Lines that say some statements, among them empty ones that say nothing. -/
inductive Says (text : List Char) : List Statement → List String → Prop
  | nil : Says text [] []
  | blank {ss : List Statement} {lines : List String} :
      Says text ss lines → Says text ss ("" :: lines)
  | line {s : Statement} {ss : List Statement} {line : String} {lines : List String} :
      Line text s line → Says text ss lines →
      Says text (s :: ss) ((Layout.indent ++ line) :: lines)

namespace Says

variable {text : List Char}

theorem append {ss ss' : List Statement} {lines lines' : List String} (h : Says text ss lines)
    (h' : Says text ss' lines') : Says text (ss ++ ss') (lines ++ lines') := by
  induction h with
  | nil => exact h'
  | blank _ ih => exact .blank ih
  | line hl _ ih => exact .line hl ih

/-- Lines that each say one statement. -/
theorem map {α : Type} {xs : List α} {f : α → Statement} {g : α → String}
    (h : ∀ x ∈ xs, Line text (f x) (g x)) :
    Says text (xs.map f) (xs.map fun x => Layout.indent ++ g x) := by
  induction xs with
  | nil => exact .nil
  | cons x xs ih =>
    obtain ⟨hx, hxs⟩ := List.forall_mem_cons.1 h
    exact .line hx (ih hxs)

theorem flatMap {α : Type} {xs : List α} {f : α → List Statement} {g : α → List String}
    (h : ∀ x ∈ xs, Says text (f x) (g x)) : Says text (xs.flatMap f) (xs.flatMap g) := by
  induction xs with
  | nil => exact .nil
  | cons x xs ih =>
    obtain ⟨hx, hxs⟩ := List.forall_mem_cons.1 h
    rw [List.flatMap_cons, List.flatMap_cons]
    exact hx.append (ih hxs)

/-- Lines behind a line end, each of them ended, are statement lines. -/
theorem spells {ss : List Statement} {lines : List String} (h : Says text ss lines) :
    Spells (StatementLines text) ss ("\n" ++ Layout.endLines lines) Anything := by
  have hnewline := spells_fixed (t := .newline) (x := "\n") (by decide)
  induction h with
  | nil =>
    refine hnewline.imp ?_
    rintro _ ⟨l, hl, _, rfl⟩
    exact ⟨[], [l], .nil, List.forall_mem_cons.2 ⟨hl, nofun⟩, rfl⟩
  | @blank ss lines _ ih =>
    have htext : Layout.endLines ("" :: lines) = "\n" ++ Layout.endLines lines := by
      simp [Layout.endLines]
    rw [htext]
    refine (hnewline.append ih fun _ _ => trivial).imp ?_
    rintro _ ⟨_, u, ⟨l, hl, _, rfl⟩, hu, rfl⟩
    exact hu.newline hl
  | @line s ss line lines hline _ ih =>
    have htext : Layout.endLines ((Layout.indent ++ line) :: lines)
        = Layout.indent ++ line ++ ("\n" ++ Layout.endLines lines) := by
      simp [Layout.endLines, String.append_assoc]
    rw [htext]
    have hindent := hline.1.behindBlanks 3 fun rest _ => hline.2 rest
    have hbehind := hindent.append ih fun rest _ =>
      (Begins.append (x := "\n") rfl _).wordEnds rfl (by decide) rest
    refine (hnewline.append hbehind fun _ _ => trivial).imp ?_
    rintro _ ⟨_, _, ⟨l, hl, _, rfl⟩, ⟨u, v, hu, hv, rfl⟩, rfl⟩
    exact .cons hu hv hl

end Says

theorem says_class (text : List Char) {c : Class} (h : CanonicalClass c) :
    Says text (Layout.classStatements c) (Layout.classBlock c) := by
  have htags := Says.map fun tag htag => line_tag text (h.tags tag htag) h.name
  have hmembers := Says.map fun m hm => line_member text h.name (h.members m hm)
  have hparents := Says.map fun (e : String × RelationKind) he =>
    line_parent text h.name (h.parents e.1 (List.mem_map_of_mem he))
  have hlines := (Says.line (line_class text h.name)
    ((htags.append hmembers).append hparents)).append (.blank .nil)
  rw [List.append_nil] at hlines
  simpa [Layout.classStatements, Layout.classBlock, Layout.classLines, Function.comp_def]
    using hlines

theorem spells_layout (text : List Char) {m : Model} (h : CanonicalModel m) :
    Spells (IsDiagram true text) (Layout.statements m) m.layout Anything := by
  have hclasses := Says.flatMap fun c hc => says_class text (h.classes c hc)
  have hnotes := Says.map fun n hn => line_note text (h.notes n hn)
  have hheader := spells_keyword (t := .header) (k := "classDiagram") (by decide)
  have hlines := (hclasses.append hnotes).spells
  have hall := hheader.append hlines fun rest _ =>
    (Begins.append (x := "\n") rfl _).wordEnds rfl (by decide) rest
  have htext : m.layout = "classDiagram" ++ ("\n" ++ Layout.endLines
      (m.classes.values.flatMap Layout.classBlock
        ++ m.notes.map (Layout.indent ++ Layout.note ·))) := by
    rw [Model.layout, Layout.lines, Layout.endLines, List.cons_append, List.map_cons,
      String.join_cons, String.append_assoc]
    rfl
  rw [htext]
  refine hall.imp ?_
  rintro _ ⟨_, _, ⟨l, hl, _, rfl⟩, ⟨v, w, hv, hw, rfl⟩, rfl⟩
  exact IsDiagram.mk (u := []) (v := v) nofun hl hv hw

/-- The layout of a model is read as the statements that it was made of. -/
theorem statementsOfText_layout {m : Model} (h : CanonicalModel m) :
    statementsOfText m.layout = .ok (Layout.statements m) := by
  obtain ⟨ps, hps, hdiagram⟩ := spells_layout m.layout.toList h
  have hpieces := hps [] trivial
  simp only [List.append_nil, pieces] at hpieces
  have hlexemes : Lexeme.ofText m.layout.toList = Lexeme.ofPieces 0 ps := by
    rw [Lexeme.ofText, hpieces]
  rw [statementsOfText, hlexemes]
  exact ok_of_isDiagram (hdiagram 0)

end ClassDiagram
