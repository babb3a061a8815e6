import ClassDiagram.Descriptor.Request
import ClassDiagram.Proofs.Model.Collections
import ClassDiagram.Proofs.Text.Trimming

/-! # The form of requested names

What a name is looked up under has neither blanks at its ends nor type arguments, so it is its own
form.  A name differs from its form when it has a blank at an end, or an opening bracket before a
closing one.

* `Request.metadataForm_eq_self_iff`: names without type arguments;
* `Request.sought_sought`: the form of a name is its own form;
* `Request.sought_eq_self_iff`: names that are their own form;
* `Request.normalize_eq`: a list of names is looked up under the forms of those that are not blank,
  each once.
-/

namespace ClassDiagram

/-! ## Type arguments -/

namespace Request

/-- An opening angle bracket somewhere before a closing one. -/
def Bracketed (cs : List Char) : Prop := ∃ u v w, cs = u ++ '<' :: v ++ '>' :: w

theorem beforeLastAngle_eq_none_iff {cs : List Char} : beforeLastAngle cs = none ↔ '>' ∉ cs := by
  have hnil : cs.reverse.dropWhile (· ≠ '>') = [] ↔ '>' ∉ cs := by
    rw [Text.dropWhile_eq_nil_iff_all, List.all_eq_true]
    simp only [List.mem_reverse, decide_eq_true_eq]
    exact ⟨fun h hmem => h _ hmem rfl, fun h c hc heq => h (heq ▸ hc)⟩
  rw [beforeLastAngle, ← hnil]
  cases cs.reverse.dropWhile (· ≠ '>') with
  | nil => exact iff_of_true rfl rfl
  | cons _ before => exact iff_of_false (Option.some_ne_none _) (List.cons_ne_nil _ _)

/-- The arguments begin at the first opening bracket. -/
theorem bracketed_iff {cs : List Char} :
    Bracketed cs ↔ ∃ rest, cs.dropWhile (· ≠ '<') = '<' :: rest ∧ '>' ∈ rest := by
  constructor
  · rintro ⟨u, v, w, rfl⟩
    induction u with
    | nil => exact ⟨v ++ '>' :: w, by simp, by simp⟩
    | cons c u ih =>
      by_cases hc : c = '<'
      · subst hc
        exact ⟨u ++ '<' :: v ++ '>' :: w, by simp, by simp⟩
      · obtain ⟨rest, hdrop, hmem⟩ := ih
        refine ⟨rest, ?_, hmem⟩
        rw [List.cons_append, List.cons_append, List.dropWhile_cons, if_pos (by simpa using hc)]
        exact hdrop
  · rintro ⟨rest, hdrop, hmem⟩
    obtain ⟨v, w, rfl⟩ := List.append_of_mem hmem
    refine ⟨cs.takeWhile (· ≠ '<'), v, w, ?_⟩
    rw [List.append_assoc, List.cons_append, ← hdrop, List.takeWhile_append_dropWhile]

/-- A name without type arguments is its own metadata form; of another one the form is what stands
before the arguments, and their number. -/
theorem metadataForm_cases (s : String) :
    (¬ Bracketed s.toList ∧ metadataForm s = s) ∨
      Bracketed s.toList ∧ ∃ n : Nat, metadataForm s
        = String.ofList (s.toList.takeWhile (· ≠ '<')) ++ "`" ++ toString n := by
  rw [bracketed_iff, metadataForm]
  cases hdrop : s.toList.dropWhile (· ≠ '<') with
  | nil => exact .inl ⟨by simp, rfl⟩
  | cons c rest =>
    have hc : c = '<' := by
      have := Text.head?_dropWhile (· ≠ '<') s.toList c (by rw [hdrop]; rfl)
      simpa using this
    subst hc
    simp only [List.cons.injEq, true_and, exists_eq_left']
    cases hbefore : beforeLastAngle rest with
    | none => exact .inl ⟨beforeLastAngle_eq_none_iff.1 hbefore, rfl⟩
    | some arguments =>
      refine .inr ⟨Decidable.not_not.1 fun hmem => ?_, _, rfl⟩
      rw [beforeLastAngle_eq_none_iff.2 hmem] at hbefore
      cases hbefore

theorem isDigit_of_mem_toString {n : Nat} {c : Char} (h : c ∈ (toString n).toList) :
    c.isDigit = true := by
  rw [Nat.toString_eq_ofList_toDigits, String.toList_ofList] at h
  exact Nat.isDigit_of_mem_toDigits (by decide) (by decide) h

theorem toList_toString_ne_nil (n : Nat) : (toString n).toList ≠ [] := by
  rw [Nat.toString_eq_ofList_toDigits, String.toList_ofList]
  exact Nat.toDigits_ne_nil

/-- The form of a name with type arguments has no opening bracket left. -/
theorem no_angle_form (s : String) (n : Nat) :
    '<' ∉ (String.ofList (s.toList.takeWhile (· ≠ '<')) ++ "`" ++ toString n).toList := by
  rw [String.toList_append, String.toList_append, String.toList_ofList, List.mem_append,
    List.mem_append, not_or, not_or]
  refine ⟨⟨fun hmem => ?_, by decide⟩, fun hmem => absurd (isDigit_of_mem_toString hmem) (by decide)⟩
  have hother := List.all_eq_true.1 List.all_takeWhile '<' hmem
  simp at hother

theorem metadataForm_eq_self_iff {s : String} : metadataForm s = s ↔ ¬ Bracketed s.toList := by
  rcases metadataForm_cases s with ⟨hplain, hform⟩ | ⟨⟨u, v, w, hs⟩, n, hform⟩
  · exact iff_of_true hform hplain
  · refine iff_of_false (fun heq => ?_) (not_not_intro ⟨u, v, w, hs⟩)
    have hmem : '<' ∈ s.toList := by simp [hs]
    rw [← heq, hform] at hmem
    exact no_angle_form s n hmem

theorem metadataForm_metadataForm (s : String) :
    metadataForm (metadataForm s) = metadataForm s := by
  rcases metadataForm_cases s with ⟨_, hform⟩ | ⟨_, n, hform⟩
  · rw [hform, hform]
  · rw [hform]
    exact metadataForm_of_no_angle (no_angle_form s n)

/-! ## What a name is looked up under -/

/-- The metadata form of a name without blanks around it. -/
def sought (name : String) : String := metadataForm (Text.trim name)

theorem trim_sought (name : String) : Text.trim (sought name) = sought name := by
  rw [sought]
  rcases metadataForm_cases (Text.trim name) with ⟨_, hform⟩ | ⟨_, n, hform⟩
  · rw [hform, Text.trim_trim]
  · have hfirst := (Text.trim_eq_self_iff.1 (Text.trim_trim name)).1
    generalize Text.trim name = s at hfirst hform
    rw [hform, Text.trim_eq_self_iff, String.toList_append, String.toList_append,
      String.toList_ofList]
    constructor
    · -- the first character is that of the trimmed name, or the grave accent
      rw [List.append_assoc, List.head?_append, List.head?_takeWhile]
      intro c hc
      cases hbare : s.toList.head?.filter (· ≠ '<') with
      | none =>
        rw [hbare] at hc
        rw [← Option.some.inj hc]
        decide
      | some d =>
        rw [hbare] at hc
        rw [← Option.some.inj hc]
        exact hfirst d (Option.filter_eq_some_iff.1 hbare).1
    · -- the last one is a digit
      rw [List.getLast?_append]
      intro c hc
      cases hlast : (toString n).toList.getLast? with
      | none => exact absurd (List.getLast?_eq_none_iff.1 hlast) (toList_toString_ne_nil n)
      | some d =>
        rw [hlast] at hc
        rw [← Option.some.inj hc]
        exact Text.isBlank_of_isDigit (isDigit_of_mem_toString (List.mem_of_getLast? hlast))

theorem sought_sought (name : String) : sought (sought name) = sought name := by
  rw [sought, trim_sought, sought, metadataForm_metadataForm]

/-- A name is its own form when it has no blank at an end and no opening bracket before a closing
one. -/
theorem sought_eq_self_iff {name : String} : sought name = name ↔
    ((∀ c ∈ name.toList.head?, Text.isBlank c = false) ∧
        ∀ c ∈ name.toList.getLast?, Text.isBlank c = false) ∧
      ¬ ∃ u v w, name.toList = u ++ '<' :: v ++ '>' :: w := by
  show _ ↔ _ ∧ ¬ Bracketed name.toList
  rw [← Text.trim_eq_self_iff, ← metadataForm_eq_self_iff]
  constructor
  · intro h
    have htrim := trim_sought name
    rw [h] at htrim
    have hform := h
    rw [sought, htrim] at hform
    exact ⟨htrim, hform⟩
  · rintro ⟨htrim, hform⟩
    rw [sought, htrim, hform]

/-! ## Lists of names -/

theorem normalize_eq (names : List String) :
    normalize names = ((names.filter fun n => !Text.isBlankText n).map sought).eraseDups := by
  have hforms : ((names.map Text.trim).filter (· ≠ "")).map metadataForm
      = (names.filter fun n => !Text.isBlankText n).map sought := by
    induction names with
    | nil => simp only [List.map_nil, List.filter_nil]
    | cons name names ih =>
      have hblank : Text.trim name = "" ↔ Text.isBlankText name = true :=
        Text.trim_eq_empty_iff name
      cases h : Text.isBlankText name with
      | true =>
        rw [List.map_cons, List.filter_cons_of_neg (by simp [hblank, h]), ih,
          List.filter_cons_of_neg (by simp [h])]
      | false =>
        rw [List.map_cons, List.filter_cons_of_pos (by simp [hblank, h]), List.map_cons, ih,
          List.filter_cons_of_pos (by simp [h]), List.map_cons, sought]
  rw [normalize, OrderedSet.items_ofList, hforms]

theorem normalize_singleton {name : String} (h : Text.isBlankText name = false) :
    normalize [name] = [sought name] := by
  simp [normalize_eq, h, List.eraseDups_cons]

end Request

end ClassDiagram
