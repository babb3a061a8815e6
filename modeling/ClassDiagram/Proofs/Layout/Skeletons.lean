import ClassDiagram.Proofs.Layout.Settling

/-! # Skeletons of formatted texts

Formatting a text moves its classes and changes nothing in them, neither the order of the parents
nor that of the members.  So the skeleton keeps its notes and its blocks to the byte, and the blocks
come in the new order of the classes.

* `Skeleton.page`, `Model.WellFormed.skeleton_eq`: a skeleton is put together from notes and blocks;
* `Model.Reordered`: the same classes in another order, with the same notes;
* `skeleton_reformatted`: the skeleton of a text and that of the text formatted;
* `skeleton_reformatTimes`: the skeleton after any number of formattings.
-/

namespace ClassDiagram

/-- Notes with blocks behind them: an empty line stands between two blocks and between the notes and
the first block. -/
def Skeleton.page (notes blocks : List String) : String :=
  String.join notes
    ++ (if notes.isEmpty then "" else if blocks.isEmpty then "" else "\n")
    ++ "\n".intercalate blocks

namespace Model

def blockOf (m : Model) (style : SkeletonStyle) (name : String) : String :=
  Skeleton.classBlock style ((m.get? name).getD (.named name))

/-- The skeleton of a model has its notes, and the blocks of its classes in their order. -/
theorem WellFormed.skeleton_eq {m : Model} (h : m.WellFormed) (style : SkeletonStyle) :
    m.skeleton style
      = Skeleton.page (m.notes.map Skeleton.note) (m.names.map (m.blockOf style)) := by
  have hblocks : m.names.map (m.blockOf style)
      = m.classes.values.map (Skeleton.classBlock style) := by
    rw [← h.map_name_values, List.map_map]
    refine List.map_congr_left fun c hc => ?_
    rw [Function.comp_apply, blockOf, h.mem_values_iff.1 hc]
    rfl
  simp only [skeleton, Skeleton.page, hblocks, List.isEmpty_map]

/-- The same classes in an order of their own, with the same notes in the same order. -/
structure Reordered (m m' : Model) : Prop where
  names : m'.names.Perm m.names
  get : ∀ name, m'.get? name = m.get? name
  notes : m'.notes = m.notes

namespace Reordered

variable {m m' m'' : Model}

theorem refl (m : Model) : m.Reordered m :=
  ⟨.refl _, fun _ => rfl, rfl⟩

theorem trans (h : m.Reordered m') (h' : m'.Reordered m'') : m.Reordered m'' :=
  ⟨h'.names.trans h.names, fun name => (h'.get name).trans (h.get name), h'.notes.trans h.notes⟩

/-- The skeleton of the reordered model has the notes and blocks of the first one. -/
theorem skeleton_eq (h : m.Reordered m') (hwell : m'.WellFormed) (style : SkeletonStyle) :
    m'.skeleton style
      = Skeleton.page (m.notes.map Skeleton.note) (m'.names.map (m.blockOf style)) := by
  have hblocks : m'.blockOf style = m.blockOf style := by
    funext name
    rw [blockOf, h.get, blockOf]
  rw [hwell.skeleton_eq, h.notes, hblocks]

end Reordered

end Model

theorem skeleton_of_ofText {text : String} {m : Model} (h : Model.ofText text = .ok m)
    (style : SkeletonStyle) : Document.skeleton style text = .ok (m.skeleton style) := by
  rw [Document.skeleton, h]
  rfl

/-- Formatting a text that was read only moves classes. -/
theorem reordered_of_ofText {text : String} {m : Model} (h : Model.ofText text = .ok m) :
    ∃ m', Model.ofText m.layout = .ok m' ∧ m'.names = m.classWalk ∧ m.Reordered m' := by
  obtain ⟨m', hm', hnames, hget, hnotes⟩ := ofText_layout_round h
  have hperm : m'.classes.entries.Perm m.classes.entries :=
    OrderedMap.perm_of_get? (canonical_of_ofText hm').1.distinct
      (canonical_of_ofText h).1.distinct hget
  exact ⟨m', hm', hnames, hperm.map Prod.fst, hget, hnotes⟩

/-- The text that formatting writes has a skeleton with the same notes and with the same blocks, in
the order in which its classes come; these are the classes of the first text. -/
theorem skeleton_reformatted {text : String} {m : Model} (h : Model.ofText text = .ok m)
    (style : SkeletonStyle) :
    ∃ text' m', Document.reformat text = .ok text' ∧ Model.ofText text' = .ok m' ∧
      m'.names = m.classWalk ∧ m'.names.Perm m.names ∧
      Document.skeleton style text
        = .ok (Skeleton.page (m.notes.map Skeleton.note) (m.names.map (m.blockOf style))) ∧
      Document.skeleton style text'
        = .ok (Skeleton.page (m.notes.map Skeleton.note) (m'.names.map (m.blockOf style))) := by
  obtain ⟨m', hm', hnames, hreordered⟩ := reordered_of_ofText h
  have hwell := (canonical_of_ofText h).1
  have hwell' := (canonical_of_ofText hm').1
  refine ⟨m.layout, m', reformat_of_ofText h, hm', hnames, hreordered.names, ?_, ?_⟩
  · rw [skeleton_of_ofText h, hwell.skeleton_eq]
  · rw [skeleton_of_ofText hm', hreordered.skeleton_eq hwell']

/-- Parents behind another class, a tag in capitals and a field behind a method. -/
def kitten : String :=
  "classDiagram\nnote \"small\"\nclass Kitten\nclass Box \x7b\n+open()*\nint size\n\x7d\n"
    ++ "Pet <|-- Kitten\nNamed <|.. Kitten\n<<Interface>> Named\nnote for Box \"warm\""

def kittenModel : Model :=
  { classes := ⟨[
      ("Kitten", {
        name := "Kitten"
        parents := ⟨[("Pet", .inherits), ("Named", .implements)]⟩ }),
      ("Box", {
        name := "Box"
        members := [
          .method { name := "open", isAbstract := true },
          .field { name := "size", type := "int" }] }),
      ("Pet", { name := "Pet" }),
      ("Named", { name := "Named", tags := ⟨["Interface"]⟩ })]⟩
    notes := [⟨none, "small"⟩, ⟨some "Box", "warm"⟩] }

/-- The box comes behind the parents of the kitten. -/
theorem skeleton_reformatted_kitten :
    Model.ofText kitten = .ok kittenModel ∧
      kittenModel.blockOf {} "Kitten" = "public class Kitten : Pet, Named\n\x7b\n\x7d\n" ∧
      ∃ text' m', Document.reformat kitten = .ok text' ∧ Model.ofText text' = .ok m' ∧
        m'.names = ["Kitten", "Pet", "Named", "Box"] ∧
        Document.skeleton {} text' = .ok (Skeleton.page ["// small\n", "// Box: warm\n"]
          (["Kitten", "Pet", "Named", "Box"].map (kittenModel.blockOf {}))) := by
  have haccepted : Model.ofText kitten = .ok kittenModel := ok_of_toOption (by decide +kernel)
  have hwalk : kittenModel.classWalk = ["Kitten", "Pet", "Named", "Box"] := by decide
  obtain ⟨text', m', htext', hm', hnames, _, _, hskeleton⟩ := skeleton_reformatted haccepted {}
  rw [hwalk] at hnames
  rw [hnames] at hskeleton
  exact ⟨haccepted, by decide +kernel, text', m', htext', hm', hnames, hskeleton⟩

/-! ## Formatting over and over -/

/-- However many times a text is formatted, its classes are only moved. -/
theorem reordered_reformatTimes {text : String} {m : Model} (h : Model.ofText text = .ok m)
    (k : Nat) : ∃ text' m', Document.reformatTimes k text = .ok text' ∧
      Model.ofText text' = .ok m' ∧ m.Reordered m' := by
  induction k with
  | zero => exact ⟨text, m, rfl, h, .refl m⟩
  | succ k ih =>
    obtain ⟨text', m', htimes, hm', hreordered⟩ := ih
    obtain ⟨m'', hm'', _, hnext⟩ := reordered_of_ofText hm'
    refine ⟨m'.layout, m'', ?_, hm'', hreordered.trans hnext⟩
    rw [Document.reformatTimes, htimes]
    exact reformat_of_ofText hm'

/-- So the skeleton has the same notes and, in some order, the same blocks after any number of
formattings. -/
theorem skeleton_reformatTimes {text : String} {m : Model} (h : Model.ofText text = .ok m)
    (style : SkeletonStyle) (k : Nat) :
    ∃ (text' : String) (names : List String), Document.reformatTimes k text = .ok text' ∧
      names.Perm m.names ∧
      Document.skeleton style text'
        = .ok (Skeleton.page (m.notes.map Skeleton.note) (names.map (m.blockOf style))) := by
  obtain ⟨text', m', htimes, hm', hreordered⟩ := reordered_reformatTimes h k
  have hwell' := (canonical_of_ofText hm').1
  refine ⟨text', m'.names, htimes, hreordered.names, ?_⟩
  rw [skeleton_of_ofText hm', hreordered.skeleton_eq hwell']

end ClassDiagram
