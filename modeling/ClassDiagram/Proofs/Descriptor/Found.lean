import Mathlib.Data.List.Induction
import Mathlib.Data.List.Nodup
import ClassDiagram.Descriptor.Adapter
import ClassDiagram.Proofs.Model.Collections

/-! # Found types

Of the present types that share a bare name and an arity the first one counts as found, and the
found types come in the order of these first ones.

* `Adapter.mem_distinct_iff`: which types are found;
* `Adapter.firstOfEach_distinct`: the found types in their order;
* `Adapter.distinct_filterMap_ofList`: what is asked for again changes nothing.
-/

namespace ClassDiagram.Adapter

/-! ## References -/

theorem nodup_ref_distinct (ds : List Descriptor) : ((distinct ds).map Descriptor.ref).Nodup := by
  induction ds with
  | nil => exact .nil
  | cons d ds ih =>
    rw [distinct, List.map_cons, List.nodup_cons]
    constructor
    · intro hmem
      obtain ⟨e, he, href⟩ := List.mem_map.1 hmem
      have hdiffers := (List.mem_filter.1 he).2
      simp [Descriptor.sameType, href] at hdiffers
    · exact ih.sublist (List.filter_sublist.map _)

theorem mem_ref_distinct {ds : List Descriptor} {r : TypeRef} :
    r ∈ (distinct ds).map Descriptor.ref ↔ r ∈ ds.map Descriptor.ref := by
  induction ds with
  | nil => rfl
  | cons d ds ih =>
    have hfilter : r ∈ ((distinct ds).filter (!·.sameType d)).map Descriptor.ref
        ↔ r ∈ (distinct ds).map Descriptor.ref ∧ r ≠ d.ref := by
      simp only [List.mem_map, List.mem_filter, Descriptor.sameType]
      constructor
      · rintro ⟨e, ⟨he, hdiffers⟩, rfl⟩
        exact ⟨⟨e, he, rfl⟩, by simpa using hdiffers⟩
      · rintro ⟨⟨e, he, rfl⟩, hne⟩
        exact ⟨e, ⟨he, by simpa using hne⟩, rfl⟩
    rw [distinct, List.map_cons, List.map_cons, List.mem_cons, List.mem_cons, hfilter, ih]
    by_cases hr : r = d.ref
    · simp [hr]
    · simp [hr]

/-! ## The first of each -/

variable {d e : Descriptor} {ds : List Descriptor}

theorem sameType_iff_ref : d.sameType e = true ↔ d.ref = e.ref := by simp [Descriptor.sameType]

/-- Of each type the first descriptor is kept. -/
theorem mem_distinct_iff : e ∈ distinct ds ↔ ds.find? (·.sameType e) = some e := by
  induction ds with
  | nil => exact iff_of_false List.not_mem_nil (Option.some_ne_none e).symm
  | cons d ds ih =>
    rw [distinct, List.mem_cons, List.mem_filter, ih, List.find?_cons]
    cases hsame : d.sameType e with
    | true =>
      have hback : e.sameType d = true := sameType_iff_ref.2 (sameType_iff_ref.1 hsame).symm
      simp [hback, eq_comm]
    | false =>
      have hne : d.ref ≠ e.ref := fun href => by simp [sameType_iff_ref.2 href] at hsame
      have hback : e.sameType d = false := Bool.eq_false_iff.2 fun h => hne (sameType_iff_ref.1 h).symm
      have hother : e ≠ d := fun heq => hne (heq ▸ rfl)
      simp [hback, hother]

/-- Behind others, types are kept that are not among those. -/
theorem distinct_append (ds es : List Descriptor) :
    distinct (ds ++ es)
      = distinct ds ++ (distinct es).filter (·.ref ∉ ds.map Descriptor.ref) := by
  induction ds with
  | nil => simp [distinct]
  | cons d ds ih =>
    rw [List.cons_append, distinct, ih, List.filter_append, List.filter_filter, distinct,
      List.cons_append]
    congr 2
    refine List.filter_congr fun e _ => ?_
    by_cases href : e.ref = d.ref
    · simp [Descriptor.sameType, href]
    · simp [Descriptor.sameType, href]

/-- The first of the present types with each bare name and arity, in order. -/
structure FirstOfEach (present found : List Descriptor) : Prop where
  refs : found.map Descriptor.ref = (present.map Descriptor.ref).eraseDups
  first : ∀ d ∈ found, present.find? (·.ref = d.ref) = some d

theorem firstOfEach_distinct (ds : List Descriptor) : FirstOfEach ds (distinct ds) where
  refs := by
    induction ds using List.reverseRecOn with
    | nil => rfl
    | append_singleton ds d ih =>
      rw [distinct_append, List.map_append, List.map_append, List.eraseDups_append, ih]
      congr 1
      generalize ds.map Descriptor.ref = rs
      by_cases hd : d.ref ∈ rs
      · simp [distinct, List.removeAll, hd]
      · simp [distinct, List.removeAll, hd, List.eraseDups_cons]
  first d hd := by
    have hsame : ∀ e : Descriptor, decide (e.ref = d.ref) = e.sameType d := fun e => by
      rw [Bool.eq_iff_iff, decide_eq_true_iff, sameType_iff_ref]
    simp only [hsame]
    exact mem_distinct_iff.1 hd

/-- What is asked for again changes nothing. -/
theorem distinct_filterMap_ofList {α : Type} [DecidableEq α] (f : α → Option Descriptor)
    (xs : List α) :
    distinct ((OrderedSet.ofList xs).items.filterMap f) = distinct (xs.filterMap f) := by
  induction xs using List.reverseRecOn with
  | nil => rfl
  | append_singleton xs x ih =>
    have hrefs : ∀ r, r ∈ ((OrderedSet.ofList xs).items.filterMap f).map Descriptor.ref
        ↔ r ∈ (xs.filterMap f).map Descriptor.ref := by
      intro r
      rw [← mem_ref_distinct, ih, mem_ref_distinct]
    rw [OrderedSet.ofList_append, List.filterMap_append, distinct_append, ← ih]
    show distinct (((OrderedSet.ofList xs).insert x).items.filterMap f) = _
    by_cases hx : x ∈ (OrderedSet.ofList xs).items
    · have hnone : (distinct ([x].filterMap f)).filter
          (·.ref ∉ (xs.filterMap f).map Descriptor.ref) = [] := by
        refine List.filter_eq_nil_iff.2 fun e he hnot => of_decide_eq_true hnot ?_
        obtain ⟨y, hy, hye⟩ := List.mem_filterMap.1 (mem_distinct he)
        rw [List.mem_singleton.1 hy] at hye
        exact List.mem_map_of_mem (List.mem_filterMap.2 ⟨x, OrderedSet.mem_ofList.1 hx, hye⟩)
      rw [OrderedSet.insert_of_mem hx, hnone, List.append_nil]
    · rw [OrderedSet.insert, if_neg hx, List.filterMap_append, distinct_append]
      simp only [hrefs]

end ClassDiagram.Adapter
