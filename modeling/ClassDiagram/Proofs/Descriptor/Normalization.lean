import ClassDiagram.Proofs.Descriptor.Contributions
import ClassDiagram.Proofs.Descriptor.Histories
import ClassDiagram.Proofs.Descriptor.Notation
import ClassDiagram.Proofs.Descriptor.TypeArguments

/-! # Normal forms of requests

Requests are brought to their forms before they are looked up, and each look-up does so once more.
The second time changes nothing, and the first time only what the note says: blank names are not
asked for, and names of the same form are asked for once.

* `Request.normalize_normalize`: a list of forms is its own normal form;
* `TypeRef.normalize_displayName`: the form of the name that a type is shown by;
* `Catalog.classes_model`: names and their forms give models of the same classes;
* `Catalog.notes_model_iff`: when there is a note;
* `Catalog.normalize_lawful`: normalization changes nothing of what is found.
-/

namespace ClassDiagram

namespace Request

/-! ## Lists of forms -/

theorem sought_not_blank {name : String} (h : Text.isBlankText name = false) :
    Text.isBlankText (sought name) = false := by
  refine Bool.eq_false_iff.2 fun hblank => ?_
  have hempty : sought name = "" := by
    rw [← trim_sought, Text.trim_eq_empty_iff, hblank]
  rw [sought] at hempty
  rcases metadataForm_cases (Text.trim name) with ⟨_, hform⟩ | ⟨_, n, hform⟩
  · rw [hform, Text.trim_eq_empty_iff, h] at hempty
    cases hempty
  · rw [hform] at hempty
    simp at hempty

theorem mem_normalize {names : List String} {key : String} : key ∈ normalize names ↔
    ∃ name ∈ names, Text.isBlankText name = false ∧ sought name = key := by
  rw [normalize_eq, List.mem_eraseDups, List.mem_map]
  simp only [List.mem_filter, Bool.not_eq_true', and_assoc]

theorem nodup_normalize (names : List String) : (normalize names).Nodup :=
  OrderedSet.nodup_ofList _

/-- Forms are not blank and their own forms, so that a list of them stays as it is. -/
theorem normalize_normalize (names : List String) :
    normalize (normalize names) = normalize names := by
  have hkept : (normalize names).filter (fun key => !Text.isBlankText key) = normalize names := by
    refine List.filter_eq_self.2 fun key hkey => ?_
    obtain ⟨name, _, hname, rfl⟩ := mem_normalize.1 hkey
    rw [sought_not_blank hname]
    rfl
  have hforms : (normalize names).map sought = normalize names := by
    have hself : ∀ key ∈ normalize names, sought key = id key := by
      intro key hkey
      obtain ⟨name, _, _, rfl⟩ := mem_normalize.1 hkey
      rw [id_eq, sought_sought]
    rw [List.map_congr_left hself, List.map_id]
  rw [normalize_eq (normalize names), hkept, hforms, ← OrderedSet.items_ofList, normalize,
    OrderedSet.ofList_items (OrderedSet.nodup_ofList _)]

end Request

/-! ## Names that types are shown by -/

namespace TypeRef

open Request

/-- The commas of a list of type parameters tell their number. -/
theorem topCommas_parameterList {n : Nat} (hn : 0 < n) :
    topCommas 0 (parameterList n).toList + 1 = n := by
  have hsealed : ∀ name ∈ (List.range n).map parameterName, Sealed name := by
    intro name hname
    obtain ⟨i, _, rfl⟩ := List.mem_map.1 hname
    have hword := @Sealed.bare (parameterName i) [] (isWord_parameterName i) (List.forall_mem_nil _)
    rwa [String.join_nil, String.append_empty] at hword
  have hne : (List.range n).map parameterName ≠ [] := by simpa using Nat.ne_of_gt hn
  have hzero : (((List.range n).map parameterName).map fun name => topCommas 0 name.toList).sum
      = 0 := by
    rw [List.sum_eq_zero_iff_forall_eq_nat]
    intro k hk
    obtain ⟨name, hname, rfl⟩ := List.mem_map.1 hk
    exact (hsealed name hname).topCommas_eq_zero
  have hcount := topCommas_intercalate hne fun name hname => (hsealed name hname).canonical.balanced
  rwa [hzero, List.length_map, List.length_range, Nat.add_zero] at hcount

/-- The name that a type with parameters is shown by stands for its name in metadata. -/
theorem normalize_displayName {r : TypeRef} (hr : 0 < r.arity) (hangle : '<' ∉ r.name.toList)
    (htrim : Text.trim r.name = r.name) :
    normalize [r.displayName false] = [r.metadataName] := by
  have hname : r.displayName false = r.name ++ ("<" ++ parameterList r.arity ++ ">") := by
    rw [displayName_eq, shownName, shownParameters, if_neg (Nat.ne_of_gt hr),
      if_neg (Nat.ne_of_gt hr), if_neg Bool.false_ne_true, String.append_empty]
  have hblank : Text.isBlankText (r.displayName false) = false := by
    rw [Text.isBlankText, List.all_eq_false]
    exact ⟨'<', by simp [hname], by decide⟩
  rw [normalize_singleton hblank, hname, sought_generic hangle htrim,
    topCommas_parameterList hr, metadataName, if_neg (Nat.ne_of_gt hr)]

end TypeRef

/-! ## Models of requests -/

namespace Catalog

open Request

variable {c : Catalog}

theorem classes_model (h : c.WellFormed) (filter : MemberFilter) (names : List String) :
    (Model.ofRequests filter (c.resolve names)).classes = (c.model filter names).classes := by
  refine Model.classes_ofRequests_congr filter ?_
  rw [h.found_resolve, Adapter.found, resolve, List.filterMap_map, foundFor]
  rfl

theorem edges_model (h : c.WellFormed) (filter : MemberFilter) (names : List String) :
    (Model.ofRequests filter (c.resolve names)).edges = (c.model filter names).edges := by
  rw [Model.edges, Model.edges, classes_model h]

theorem mem_unresolved {names : List String} {key : String} :
    key ∈ Adapter.unresolved (c.resolve names) ↔ key ∈ names ∧ c.lookup? key = none := by
  rw [Adapter.unresolved, resolve, List.filter_map, List.map_map, List.mem_map]
  simp [Function.comp_def]

/-- There is a note when a name that is not blank finds nothing. -/
theorem notes_model_iff (c : Catalog) (filter : MemberFilter) (names : List String) :
    (c.model filter names).notes ≠ [] ↔
      ∃ name ∈ names, Text.isBlankText name = false ∧ c.lookup? name = none := by
  have hnotes : ∀ missing : List String, Adapter.notes missing ≠ [] ↔ missing ≠ [] := by
    intro missing
    cases missing with
    | nil => exact iff_of_false (fun h => h rfl) (fun h => h rfl)
    | cons name missing => exact iff_of_true (List.cons_ne_nil _ _) (List.cons_ne_nil _ _)
  rw [model, Model.notes_ofRequests, hnotes]
  constructor
  · intro hne
    obtain ⟨key, hkey⟩ := List.exists_mem_of_ne_nil _ hne
    obtain ⟨hmem, hnone⟩ := mem_unresolved.1 hkey
    obtain ⟨name, hname, hblank, rfl⟩ := mem_normalize.1 hmem
    exact ⟨name, hname, hblank, by rwa [lookup?_sought] at hnone⟩
  · rintro ⟨name, hname, hblank, hnone⟩
    refine List.ne_nil_of_mem (a := sought name) (mem_unresolved.2 ⟨?_, ?_⟩)
    · exact mem_normalize.2 ⟨name, hname, hblank, rfl⟩
    · rw [lookup?_sought, hnone]

/-- Normalization changes nothing of what is found.  A list of names comes to the forms of those
that are not blank, each where it first comes up, and to nothing else if that is done again.  In a
catalog reached by any operations a name finds what its form finds.  The model of the names as they
stand and that of their forms have the same classes, with their members, and the same edges, and
there is a note exactly if a name that is not blank finds nothing.  The form of the name that a type
with parameters is shown by is its name in metadata. -/
theorem normalize_lawful (ops : List Operation) (filter : MemberFilter) (names : List String) :
    (normalize (normalize names) = normalize names ∧
      (normalize names).Nodup ∧
      (∀ key ∈ normalize names, Text.isBlankText key = false) ∧
      normalize names = ((names.filter fun n => !Text.isBlankText n).map sought).eraseDups) ∧
    (∀ name, (replay ops).lookup? (sought name) = (replay ops).lookup? name ∧
      (Text.isBlankText name = false → normalize [name] = [sought name])) ∧
    ((Model.ofRequests filter ((replay ops).resolve names)).classes
        = ((replay ops).model filter names).classes ∧
      (Model.ofRequests filter ((replay ops).resolve names)).edges
        = ((replay ops).model filter names).edges ∧
      (((replay ops).model filter names).notes ≠ [] ↔ ∃ name ∈ names,
        Text.isBlankText name = false ∧ (replay ops).lookup? name = none)) ∧
    ∀ (name : String) (arity : Nat), 0 < arity → '<' ∉ name.toList → '>' ∉ name.toList →
      Text.trim name = name →
      normalize [TypeRef.displayName ⟨name, arity⟩ false] = [name ++ "`" ++ toString arity] := by
  have hwell := WellFormed.replay ops
  refine ⟨⟨normalize_normalize names, nodup_normalize names, ?_, normalize_eq names⟩,
    fun name => ⟨lookup?_sought _ name, normalize_singleton⟩,
    ⟨classes_model hwell filter names, edges_model hwell filter names,
      notes_model_iff _ filter names⟩, ?_⟩
  · intro key hkey
    obtain ⟨name, _, hblank, rfl⟩ := mem_normalize.1 hkey
    exact sought_not_blank hblank
  · intro name arity harity hangle _ htrim
    have hname : TypeRef.metadataName ⟨name, arity⟩ = name ++ "`" ++ toString arity :=
      if_neg (Nat.ne_of_gt harity)
    rw [← hname]
    exact TypeRef.normalize_displayName harity hangle htrim

/-- Among two names of one player and a blank one, a name that finds nothing. -/
theorem normalize_lawful_players :
    ((replay players).model {} [" Video.Player", "Deck<K, V>", "", "Video.Player"]).notes ≠ [] ∧
      normalize [TypeRef.displayName ⟨"Deck", 8⟩ false] = ["Deck`8"] := by
  obtain ⟨-, -, ⟨-, -, hnote⟩, hshown⟩ :=
    normalize_lawful players {} [" Video.Player", "Deck<K, V>", "", "Video.Player"]
  have hdeck := hshown "Deck" 8 (by decide) (by decide) (by decide) (by decide)
  have htext : "Deck" ++ "`" ++ toString 8 = "Deck`8" := by decide
  rw [htext] at hdeck
  exact ⟨hnote.2 ⟨"Deck<K, V>", by decide, by decide, by decide +kernel⟩, hdeck⟩

end Catalog

end ClassDiagram
