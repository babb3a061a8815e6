import Mathlib.Data.List.Induction
import ClassDiagram.Error

/-! # Places of boundaries

An offset between two characters of a text, before the first one or behind the last one is a
boundary.  The place of a boundary says which one it is: it counts what stands before the
boundary, and of two boundaries the earlier one has the earlier place.

* `foldl_after_start`: the place behind a text, by its line feeds and its last line;
* `before_foldl_after`: a place is left behind by any character;
* `lt_iff_before`: boundaries stand in the order of their places;
* `parseAt_places`: the offset and the place of a parse error.
-/

namespace ClassDiagram.Text

namespace Place

/-- The place behind a text: its line feeds are counted, and the characters since the last one. -/
def behind (u : List Char) : Place :=
  ⟨1 + u.count '\n', 1 + (u.reverse.takeWhile (· != '\n')).length⟩

/-- A place is on an earlier line than another one, or more to the left on the same line. -/
def Before (p q : Place) : Prop :=
  p.line < q.line ∨ p.line = q.line ∧ p.column < q.column

instance (p q : Place) : Decidable (p.Before q) := by unfold Before; infer_instance

theorem behind_append_singleton (u : List Char) (c : Char) :
    behind (u ++ [c]) = (behind u).after c := by
  unfold behind after
  rw [List.count_append, List.count_singleton, List.reverse_append, List.reverse_singleton,
    List.singleton_append, List.takeWhile_cons]
  by_cases hc : c = '\n'
  · simp [hc, Nat.add_assoc]
  · simp [hc]
    omega

/-- Going through a text from the first place leads to the place that its counts give. -/
theorem foldl_after_start (u : List Char) : u.foldl after start = behind u := by
  induction u using List.reverseRecOn with
  | nil => rfl
  | append_singleton u c ih =>
    rw [List.foldl_append, ih, behind_append_singleton, List.foldl_cons, List.foldl_nil]

/-! ## The order of places -/

theorem before_after (p : Place) (c : Char) : p.Before (p.after c) := by
  unfold Before after
  split
  · exact .inl (Nat.lt_succ_self _)
  · exact .inr ⟨rfl, Nat.lt_succ_self _⟩

theorem Before.trans {p q r : Place} (h : p.Before q) (h' : q.Before r) : p.Before r := by
  unfold Before at *
  omega

theorem Before.irrefl (p : Place) : ¬ p.Before p := by
  unfold Before
  omega

/-- One or more characters lead to a later place. -/
theorem before_foldl_after (p : Place) {u : List Char} (hu : u ≠ []) :
    p.Before (u.foldl after p) := by
  induction u generalizing p with
  | nil => exact absurd rfl hu
  | cons c u ih =>
    rw [List.foldl_cons]
    cases u with
    | nil => exact before_after p c
    | cons d u => exact (before_after p c).trans (ih (p.after c) (List.cons_ne_nil d u))

end Place

/-! ## Boundaries -/

/-- An offset that no character of the text lies across. -/
def IsBoundary (text : List Char) (offset : Nat) : Prop :=
  ∃ u v, text = u ++ v ∧ offset = byteCount u

theorem placeAt_append (u v : List Char) : placeAt (u ++ v) (byteCount u) = Place.behind u := by
  have h := placeFrom_append Place.start u v 0
  rwa [placeFrom_zero, Place.foldl_after_start] at h

/-- Every offset inside a character has the place of the character's start. -/
theorem placeAt_inside {u v : List Char} {c : Char} {offset : Nat} (hle : byteCount u ≤ offset)
    (hlt : offset < byteCount u + c.utf8Size) :
    placeAt (u ++ c :: v) offset = Place.behind u := by
  obtain ⟨n, rfl⟩ := Nat.exists_eq_add_of_le hle
  have hn : n < c.utf8Size := by omega
  rw [placeAt, placeFrom_append, placeFrom, if_pos hn, Place.foldl_after_start]

theorem before_of_lt {text : List Char} {first last : Nat} (hfirst : IsBoundary text first)
    (hlast : IsBoundary text last) (h : first < last) :
    (placeAt text first).Before (placeAt text last) := by
  obtain ⟨u, v, rfl, rfl⟩ := hfirst
  obtain ⟨u', v', heq, rfl⟩ := hlast
  rcases List.append_eq_append_iff.1 heq with ⟨w, rfl, -⟩ | ⟨w, rfl, -⟩
  · have hw : w ≠ [] := by
      rintro rfl
      simp at h
    rw [heq, placeAt_append, ← heq, placeAt_append, ← Place.foldl_after_start,
      ← Place.foldl_after_start, List.foldl_append]
    exact Place.before_foldl_after _ hw
  · rw [byteCount_append] at h
    omega

/-- The earlier boundary is the one with the earlier place. -/
theorem lt_iff_before {text : List Char} {first last : Nat} (hfirst : IsBoundary text first)
    (hlast : IsBoundary text last) :
    first < last ↔ (placeAt text first).Before (placeAt text last) := by
  refine ⟨before_of_lt hfirst hlast, fun h => ?_⟩
  rcases Nat.lt_trichotomy first last with hlt | rfl | hgt
  · exact hlt
  · exact absurd h (Place.Before.irrefl _)
  · exact absurd (h.trans (before_of_lt hlast hfirst hgt)) (Place.Before.irrefl _)

theorem eq_of_placeAt_eq {text : List Char} {first last : Nat} (hfirst : IsBoundary text first)
    (hlast : IsBoundary text last) (h : placeAt text first = placeAt text last) :
    first = last := by
  rcases Nat.lt_trichotomy first last with hlt | heq | hgt
  · exact absurd (h ▸ before_of_lt hfirst hlast hlt) (Place.Before.irrefl _)
  · exact heq
  · exact absurd (h ▸ before_of_lt hlast hfirst hgt) (Place.Before.irrefl _)

/-- A parse error keeps its offset.  Its place is the number of line feeds before the offset and
of characters since the last of them; boundaries have their places in their own order, no two of
them the same; an offset inside a character has the place of the character's start, and one past
the end has the place of the end. -/
theorem parseAt_places (message : String) (text : List Char) :
    (∀ offset, Error.parseAt message text offset = .parse message offset (placeAt text offset)) ∧
    (∀ u v, text = u ++ v → placeAt text (byteCount u) =
      ⟨1 + u.count '\n', 1 + (u.reverse.takeWhile (· != '\n')).length⟩) ∧
    (∀ first last, IsBoundary text first → IsBoundary text last →
      (first < last ↔ (placeAt text first).Before (placeAt text last)) ∧
      (placeAt text first = placeAt text last → first = last)) ∧
    (∀ u c v offset, text = u ++ c :: v → byteCount u ≤ offset →
      offset < byteCount u + c.utf8Size → placeAt text offset = placeAt text (byteCount u)) ∧
    (∀ offset, byteCount text ≤ offset →
      placeAt text offset = placeAt text (byteCount text)) := by
  refine ⟨fun _ => rfl, ?_, fun first last hfirst hlast =>
    ⟨lt_iff_before hfirst hlast, eq_of_placeAt_eq hfirst hlast⟩, ?_, fun offset h => ?_⟩
  · rintro u v rfl
    exact placeAt_append u v
  · rintro u c v offset rfl hle hlt
    rw [placeAt_inside hle hlt, placeAt_append]
  · rw [placeAt_of_le h, placeAt_of_le (Nat.le_refl _)]

/-- In this text an accented letter has two bytes: offset 2 is inside of it, offset 4 is behind
the line feed and offset 9 is past the end. -/
theorem parseAt_places_accented :
    Error.parseAt "m" ['a', 'é', '\n', 'b'] 2 = .parse "m" 2 ⟨1, 2⟩ ∧
    Error.parseAt "m" ['a', 'é', '\n', 'b'] 4 = .parse "m" 4 ⟨2, 1⟩ ∧
    Error.parseAt "m" ['a', 'é', '\n', 'b'] 9 = .parse "m" 9 ⟨2, 2⟩ ∧
    (placeAt ['a', 'é', '\n', 'b'] 3).Before (placeAt ['a', 'é', '\n', 'b'] 4) := by
  obtain ⟨herror, hcount, horder, hinside, hend⟩ := parseAt_places "m" ['a', 'é', '\n', 'b']
  have hone := hcount ['a'] ['é', '\n', 'b'] rfl
  have hfour := hcount ['a', 'é', '\n'] ['b'] rfl
  have hall := hcount ['a', 'é', '\n', 'b'] [] rfl
  refine ⟨?_, ?_, ?_, ?_⟩
  · rw [herror, hinside ['a'] 'é' ['\n', 'b'] 2 rfl (by decide) (by decide), hone]
    rfl
  · rw [herror]
    exact congrArg (Error.parse "m" 4) hfour
  · rw [herror, hend 9 (by decide), hall]
    rfl
  · exact (horder 3 4 ⟨['a', 'é'], ['\n', 'b'], rfl, rfl⟩
      ⟨['a', 'é', '\n'], ['b'], rfl, rfl⟩).1.1 (by decide)

end ClassDiagram.Text
