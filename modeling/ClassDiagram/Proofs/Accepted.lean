import Mathlib.Tactic.Common
import ClassDiagram.Proofs.Layout.Canonical

/-! # An accepted text makes a model

Building a model fails on a blank name, and on nothing else.  Names that are read from a text begin
with a character of a word, and no such character is blank; the members in the block of a class
are given its name.  So all that can fail between a text and its model is the reading.

* `Statement.OwnsBlock`, `Grammar.yields_ownsBlock`: whose the members of a block are;
* `Model.Closed`: a model that has all classes it speaks of;
* `refused_or_built`: a text is refused by the grammar, or it makes a closed model.
-/

namespace ClassDiagram

/-- The members in the block of a class belong to this class. -/
def Statement.OwnsBlock : Statement → Prop
  | .declare d => ∀ owned ∈ d.members, owned.owner = d.name
  | .annotate _ _ | .member _ | .relate _ | .note _ => True

namespace Grammar

theorem ownsBlock_declarationOf (name : String) (items : List BodyItem) :
    (Statement.declare (declarationOf name items)).OwnsBlock := by
  intro owned howned
  obtain ⟨_, _, rfl⟩ := List.mem_map.1 howned
  rfl

theorem yields_ownsBlock (lined : Bool) (text : List Char) :
    Yields (IsStatement lined text) Statement.OwnsBlock := by
  intro s u h _
  cases h with
  | declare h =>
    cases h with
    | bare _ _ => exact ownsBlock_declarationOf _ _
    | block _ _ _ => exact ownsBlock_declarationOf _ _
  | annotate _ _ => trivial
  | relate _ => trivial
  | member _ _ _ => trivial
  | note _ => trivial

end Grammar

/-- A text that is no diagram is refused at a place in it. -/
theorem parseAt_of_statementsOfText {text : String} {e : Error}
    (h : statementsOfText text = .error e) :
    ∃ message offset, e = .parseAt message text.toList offset := by
  rw [statementsOfText, statementsOfLexemes] at h
  split at h
  · cases h
  · cases h
    exact ⟨_, _, rfl⟩

/-- Every parent of a class and every target of a note is a class of the model. -/
structure Model.Closed (m : Model) : Prop where
  parents : ∀ c ∈ m.classes.values, ∀ p ∈ c.parents.keys, p ∈ m.names
  targets : ∀ n ∈ m.notes, ∀ target ∈ n.target, target ∈ m.names

/-- What statements declare speaks of no other classes. -/
theorem Model.closed_declared (ss : List Statement) : (declared ss).Closed where
  parents _ hc _ hp :=
    mem_names_of_mentioned (List.mem_append_left _ (List.mem_flatMap.2 ⟨_, hc, hp⟩))
  targets _ hn _ ht :=
    mem_names_of_mentioned
      (List.mem_append_right _ (List.mem_flatMap.2 ⟨_, hn, Option.mem_toList.2 ht⟩))

/-- Where a text makes no model, the reading has failed.  All statements of a text that is read
name what they speak of, members in a block belong to the class of the block, and the statements
make a model that is closed. -/
theorem refused_or_built (text : String) :
    (∀ e, Model.ofText text = .error e →
      statementsOfText text = .error e ∧
        ∃ message offset, e = .parseAt message text.toList offset) ∧
    ∀ ss, statementsOfText text = .ok ss →
      (∀ s ∈ ss, s.OwnsBlock ∧ ∀ name ∈ s.names, Text.isBlankText name = false) ∧
        ∃ m, Model.ofStatements ss = .ok m ∧ Model.ofText text = .ok m ∧ m.Closed := by
  constructor
  · intro e he
    cases h : statementsOfText text with
    | error e' =>
      rw [ofText_of_error h] at he
      cases he
      exact ⟨rfl, parseAt_of_statementsOfText h⟩
    | ok ss =>
      rw [(ofText_of_statementsOfText h).2] at he
      cases he
  · intro ss h
    obtain ⟨hnamed, hmodel⟩ := ofText_of_statementsOfText h
    have howns := (Grammar.yields_ownsBlock false text.toList).of_statementsOfText h
    exact ⟨fun s hs => ⟨howns s hs, Statement.named_iff.1 (hnamed s hs)⟩,
      Model.declared ss, Model.ofStatements_of_named hnamed, hmodel, Model.closed_declared ss⟩

/-- A block, a chain, and a note about a class that nothing else speaks of. -/
def shelter : String :=
  "classDiagram\nclass Dog \x7b\n<<tame>>\n+bark()\n\x7d\n"
    ++ "Pet <|-- Dog <|.. Pup\nnote for Cat \"gone\""

def shelterStatements : List Statement :=
  [.declare ⟨"Dog", ["tame"], [⟨"Dog", .method { name := "bark" }⟩]⟩,
    .relate ⟨"Pet", [(.inheritsLeft, "Dog"), (.realizesLeft, "Pup")], none⟩,
    .note ⟨some "Cat", "gone"⟩]

def openShelter : String := "classDiagram\nclass Dog \x7b"

theorem refused_or_built_shelter :
    statementsOfText shelter = .ok shelterStatements ∧
      (∀ s ∈ shelterStatements, s.OwnsBlock) ∧
      (∃ m, Model.ofText shelter = .ok m ∧ m.Closed) ∧
      Model.ofText openShelter
        = .error (.parseAt "unexpected end of input" openShelter.toList 24) ∧
      statementsOfText openShelter
        = .error (.parseAt "unexpected end of input" openShelter.toList 24) := by
  have haccepted : statementsOfText shelter = .ok shelterStatements :=
    ok_of_toOption (by decide +kernel)
  have hrefused : Model.ofText openShelter
      = .error (.parseAt "unexpected end of input" openShelter.toList 24) := by decide +kernel
  obtain ⟨hstatements, m, _, hmodel, hclosed⟩ := (refused_or_built shelter).2 _ haccepted
  exact ⟨haccepted, fun s hs => (hstatements s hs).1, ⟨m, hmodel, hclosed⟩, hrefused,
    ((refused_or_built openShelter).1 _ hrefused).1⟩

end ClassDiagram
