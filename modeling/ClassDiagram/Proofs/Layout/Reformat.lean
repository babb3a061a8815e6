import ClassDiagram.Proofs.Layout.RoundTrip

/-! # Reformatting

A text that is read can be written again in canonical layout: the layout is accepted, and it holds
the same classes and notes.

* `ofText_layout_of_ofText`: the model of a text is read back from its layout.
-/

namespace ClassDiagram

/-- Reformatting an accepted text gives a text that is accepted too.  Its model has the same class
under each name, member by member, tag by tag and parent by parent, and the same notes; only the
order of the classes may differ. -/
theorem ofText_layout_of_ofText {text : String} {m : Model} (h : Model.ofText text = .ok m) :
    Document.reformat text = .ok m.layout ∧
      ∃ m', Model.ofText m.layout = .ok m' ∧ (∀ name, m'.get? name = m.get? name) ∧
        m'.classes.entries.Perm m.classes.entries ∧ m'.notes = m.notes ∧
        m'.sameContent m = true := by
  obtain ⟨hwell, hcanonical, hclosed⟩ := canonical_of_ofText h
  have hcompleted : m.completed = m := hwell.completed_eq hclosed
  have hreformat : Document.reformat text = .ok m.layout := by
    rw [Document.reformat, h]
    rfl
  have hget := hwell.get?_declared
  have hperm := hwell.perm_declared
  rw [hcompleted] at hget hperm
  have hnotes := Layout.notes_statements m
  exact ⟨hreformat, _, ofText_layout hcanonical, hget, hperm, hnotes,
    hwell.sameContent_of_perm hperm hnotes⟩

def looseText : String :=
  "\nclassDiagram\n Shelf ~Item~ ..|> Storage: label\n\nclass Shelf~Item~ \x7b get(int  i) : Item ?"
    ++ "\n<<final>> \x7d\n%% no class\nnote for Item  \"kept\""

def looseModel : Model :=
  { classes := ⟨[
      ("Shelf~Item~",
        { name := "Shelf~Item~"
          members := [.method { name := "get", arguments := "int i", returnType := "Item?" }]
          tags := ⟨["final"]⟩
          parents := ⟨[("Storage", .implements)]⟩ }),
      ("Storage", { name := "Storage" }),
      ("Item", { name := "Item" })]⟩
    notes := [⟨some "Item", "kept"⟩] }

theorem ofText_looseText : Model.ofText looseText = .ok looseModel := by
  have h : (Model.ofText looseText).toOption = some looseModel := by decide +kernel
  cases hm : Model.ofText looseText with
  | error e =>
    rw [hm] at h
    cases h
  | ok m =>
    rw [hm] at h
    cases h
    rfl

theorem ofText_layout_looseModel :
    Model.ofText looseText = .ok looseModel ∧
      ∃ m', Model.ofText looseModel.layout = .ok m' ∧ m'.sameContent looseModel = true := by
  obtain ⟨_, m', hm', _, _, _, hsame⟩ := ofText_layout_of_ofText ofText_looseText
  exact ⟨ofText_looseText, m', hm', hsame⟩

end ClassDiagram
