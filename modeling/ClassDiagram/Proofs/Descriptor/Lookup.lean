import ClassDiagram.Descriptor.Catalog
import ClassDiagram.Proofs.Descriptor.Requests
import ClassDiagram.Proofs.Model.Collections

/-! # Looking up descriptors

In a catalog that keeps its descriptors under their full names, a name finds the descriptor whose
full name it comes to, and where there is none the first one with that short name.

* `Catalog.WellFormed`: catalogs that keep descriptors with names, each under its full name;
* `Catalog.WellFormed.lookup?_eq_some_iff`, `Catalog.WellFormed.lookup?_eq_none_iff`: what a name
  finds;
* `Catalog.lookup?_sought`: a name finds the same as its form;
* `Catalog.WellFormed.lookup?_fullName`: when a descriptor is found under its own full name.
-/

namespace ClassDiagram.Catalog

open Request

/-- Descriptors with names, kept once each under their full names. -/
structure WellFormed (c : Catalog) : Prop where
  distinct : c.names.Nodup
  keyed : ∀ k d, c.types.get? k = some d → d.fullName = k
  named : ∀ d ∈ c.descriptors, Text.isBlankText d.name = false

/-- The first of some descriptors with a short name. -/
def FirstShort (ds : List Descriptor) (k : String) (d : Descriptor) : Prop :=
  ∃ front back, ds = front ++ d :: back ∧ d.shortName = k ∧ ∀ e ∈ front, e.shortName ≠ k

theorem find?_shortName_iff {ds : List Descriptor} {k : String} {d : Descriptor} :
    ds.find? (·.shortName == k) = some d ↔ FirstShort ds k d := by
  rw [List.find?_eq_some_iff_append, FirstShort]
  constructor
  · rintro ⟨hk, front, back, hds, hfront⟩
    exact ⟨front, back, hds, by simpa using hk, by simpa using hfront⟩
  · rintro ⟨front, back, hds, hk, hfront⟩
    exact ⟨by simpa using hk, front, back, hds, by simpa using hfront⟩

theorem lookup?_eq (c : Catalog) (name : String) : c.lookup? name
    = (c.types.get? (sought name)).or (c.descriptors.find? (·.shortName == sought name)) := rfl

/-- A name finds the same as its form. -/
theorem lookup?_sought (c : Catalog) (name : String) : c.lookup? (sought name) = c.lookup? name := by
  rw [lookup?_eq, lookup?_eq, sought_sought]

namespace WellFormed

variable {c : Catalog} {d : Descriptor} {k name : String}

theorem get?_eq_some_iff (h : c.WellFormed) :
    c.types.get? k = some d ↔ d ∈ c.descriptors ∧ d.fullName = k := by
  rw [descriptors, OrderedMap.values, List.mem_map]
  constructor
  · intro hget
    exact ⟨⟨(k, d), (OrderedMap.mem_entries_iff h.distinct).2 hget, rfl⟩, h.keyed k d hget⟩
  · rintro ⟨⟨⟨k', d'⟩, he, rfl⟩, rfl⟩
    have hget := (OrderedMap.mem_entries_iff h.distinct).1 he
    rwa [h.keyed k' d' hget]

theorem get?_eq_none_iff (h : c.WellFormed) :
    c.types.get? k = none ↔ ∀ e ∈ c.descriptors, e.fullName ≠ k := by
  constructor
  · intro hnone e he hk
    rw [h.get?_eq_some_iff.2 ⟨he, hk⟩] at hnone
    cases hnone
  · intro hother
    rw [Option.eq_none_iff_forall_ne_some]
    intro d hget
    obtain ⟨hd, hk⟩ := h.get?_eq_some_iff.1 hget
    exact hother d hd hk

theorem lookup?_eq_some_iff (h : c.WellFormed) : c.lookup? name = some d ↔
    d ∈ c.descriptors ∧ d.fullName = sought name ∨
      (∀ e ∈ c.descriptors, e.fullName ≠ sought name) ∧
        FirstShort c.descriptors (sought name) d := by
  rw [lookup?_eq, Option.or_eq_some_iff, h.get?_eq_some_iff, h.get?_eq_none_iff,
    find?_shortName_iff]

theorem lookup?_eq_none_iff (h : c.WellFormed) : c.lookup? name = none ↔
    ∀ e ∈ c.descriptors, e.fullName ≠ sought name ∧ e.shortName ≠ sought name := by
  rw [lookup?_eq, Option.or_eq_none_iff, h.get?_eq_none_iff, List.find?_eq_none]
  simp only [beq_iff_eq, forall_and]

/-- A descriptor is found under its own full name when that is its own form, or else when it is the
first one whose short name is the form. -/
theorem lookup?_fullName (h : c.WellFormed) (hd : d ∈ c.descriptors) :
    c.lookup? d.fullName = some d ↔ sought d.fullName = d.fullName ∨
      (∀ e ∈ c.descriptors, e.fullName ≠ sought d.fullName) ∧
        FirstShort c.descriptors (sought d.fullName) d := by
  rw [h.lookup?_eq_some_iff]
  simp only [hd, true_and, eq_comm]

end WellFormed

end ClassDiagram.Catalog
