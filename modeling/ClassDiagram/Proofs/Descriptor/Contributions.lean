import ClassDiagram.Proofs.Descriptor.Classes
import ClassDiagram.Proofs.Descriptor.Histories

/-! # What requested types contribute

Of the requested types that share a bare name and an arity only the first one is kept, wherever the
others live.  A type that is kept contributes all its members that are visible enough, to the class
that it is shown by; types that are shown alike contribute to one class, in the order of the
requests.  So a requested type contributes its members unless an earlier name found another type
with its bare name and arity.

* `Model.members_ofRequests`: the members of a class, whatever the types are called;
* `Catalog.WellFormed.found_resolve`: names that are asked for twice or in another form change
  nothing;
* `Catalog.members_model_requested`: what the class of a requested type holds.
-/

namespace ClassDiagram

/-! ## Members of classes -/

theorem Class.members_foldl_merge (c : Class) (cs : List Class) :
    (cs.foldl (fun c d => c.merge d) c).members = c.members ++ cs.flatMap Class.members := by
  induction cs generalizing c with
  | nil => exact (List.append_nil _).symm
  | cons d cs ih =>
    rw [List.foldl_cons, ih, List.flatMap_cons, ← List.append_assoc]
    rfl

/-- The class of a found type has the members of all found types that are shown by its name. -/
theorem Model.members_ofRequests (filter : MemberFilter)
    {requests : List (String × Option Descriptor)} {found : List Descriptor}
    (hfound : Adapter.found requests = found) {d : Descriptor} (hd : d ∈ found) :
    ∃ c, (ofRequests filter requests).get? (Adapter.className found d) = some c ∧
      c.members = (found.filter (Adapter.className found · = Adapter.className found d)).flatMap
        (Descriptor.keptMembers filter) := by
  have hname : Adapter.className found d
      ∈ (found.map (Adapter.classOf filter found)).map Class.name := by
    rw [List.map_map]
    exact List.mem_map_of_mem hd
  rw [ofRequests, get?_foldl_addNote, hfound]
  show ∃ c, ((Adapter.edges found).foldl addEdge (classesOf filter found)).get? _ = some c ∧ _
  rw [get?_foldl_addEdge (ends_mem_classesOf filter), classesOf,
    foldl_addClass empty (wellFormed_classOf filter), get?, OrderedMap.get?_alterAll, if_pos hname]
  refine ⟨_, rfl, ?_⟩
  show (List.foldl (fun c d : Class => c.merge d) _ _).members = _
  rw [Class.members_foldl_merge, List.filter_map, List.flatMap_map]
  rfl

/-! ## Catalogs -/

namespace Catalog

open Adapter Request

/-- The types that names ask for: what they find, each type once, where it first comes. -/
def foundFor (c : Catalog) (names : List String) : List Descriptor :=
  distinct (names.filterMap c.lookup?)

namespace WellFormed

variable {c : Catalog}

theorem ne_empty (h : c.WellFormed) {d : Descriptor} (hd : d ∈ c.descriptors) :
    d.shortName ≠ "" ∧ d.fullName ≠ "" := by
  have hname : d.name ≠ "" := by
    intro hempty
    have := h.named d hd
    rw [hempty] at this
    cases this
  have hshort : d.shortName ≠ "" := by
    rw [Descriptor.shortName, TypeRef.metadataName]
    split
    · exact hname
    · simp [Descriptor.ref, hname]
  refine ⟨hshort, ?_⟩
  rw [Descriptor.fullName]
  split
  · exact hshort
  · exact hshort
  · simp [hshort]

/-- A blank name finds nothing. -/
theorem lookup?_blank (h : c.WellFormed) {name : String} (hblank : Text.trim name = "") :
    c.lookup? name = none := by
  have hsought : sought name = "" := by
    rw [sought, hblank]
    rfl
  rw [h.lookup?_eq_none_iff, hsought]
  exact fun e he => (h.ne_empty he).symm

theorem filterMap_form (h : c.WellFormed) (names : List String) :
    (((names.map Text.trim).filter (· ≠ "")).map metadataForm).filterMap c.lookup?
      = names.filterMap c.lookup? := by
  induction names with
  | nil => rfl
  | cons name names ih =>
    rw [List.map_cons]
    by_cases hblank : Text.trim name = ""
    · rw [List.filter_cons_of_neg (by simpa using hblank), ih, List.filterMap_cons,
        h.lookup?_blank hblank]
    · have hsought : c.lookup? (metadataForm (Text.trim name)) = c.lookup? name :=
        c.lookup?_sought name
      rw [List.filter_cons_of_pos (by simpa using hblank), List.map_cons, List.filterMap_cons, ih,
        List.filterMap_cons, hsought]

/-- Names that are blank, asked for twice or in another form change nothing. -/
theorem found_resolve (h : c.WellFormed) (names : List String) :
    found (c.resolve (Request.normalize names)) = c.foundFor names := by
  have hresolve : ∀ names' : List String,
      (c.resolve names').filterMap (·.2) = names'.filterMap c.lookup? := by
    intro names'
    rw [resolve, List.filterMap_map]
    rfl
  rw [found, hresolve, Request.normalize, distinct_filterMap_ofList, h.filterMap_form, foundFor]

end WellFormed

/-- A requested type that is found has a class under the name it is shown by.  In it are the visible
members of all types that were found and are shown so, in the order of the requests.  Of the types
with its bare name and arity that is the first one; it is the type itself if no name finds another
one. -/
theorem members_model_requested (ops : List Operation) (filter : MemberFilter) {names : List String}
    {name : String} (hname : name ∈ names) {d : Descriptor}
    (hd : (replay ops).lookup? name = some d) :
    ∃ e c, (names.filterMap (replay ops).lookup?).find? (·.sameType d) = some e ∧
      ((replay ops).model filter names).get? (className ((replay ops).foundFor names) d) = some c ∧
      c.members = (((replay ops).foundFor names).filter fun d' =>
          className ((replay ops).foundFor names) d'
            = className ((replay ops).foundFor names) d).flatMap (Descriptor.keptMembers filter) ∧
      e.keptMembers filter <:+: c.members ∧
      ((∀ other ∈ names, ∀ d', (replay ops).lookup? other = some d' → d'.ref = d.ref → d' = d) →
        d.keptMembers filter <:+: c.members) := by
  have hmem : d ∈ names.filterMap (replay ops).lookup? := List.mem_filterMap.2 ⟨name, hname, hd⟩
  obtain ⟨e, he⟩ : ∃ e, (names.filterMap (replay ops).lookup?).find? (·.sameType d) = some e := by
    rw [← Option.isSome_iff_exists, List.find?_isSome]
    exact ⟨d, hmem, sameType_iff_ref.2 rfl⟩
  have href : e.ref = d.ref := sameType_iff_ref.1 (by simpa using List.find?_some he)
  have hfound : e ∈ (replay ops).foundFor names := by
    rw [foundFor, mem_distinct_iff, ← he]
    simp only [Descriptor.sameType, href]
  have hshown : className ((replay ops).foundFor names) e
      = className ((replay ops).foundFor names) d := className_congr href
  obtain ⟨c, hc, hmembers⟩ :=
    Model.members_ofRequests filter ((WellFormed.replay ops).found_resolve names) hfound
  rw [hshown] at hc hmembers
  have hinfix : e.keptMembers filter <:+: c.members := by
    rw [hmembers, List.flatMap_def]
    exact List.infix_of_mem_flatten (List.mem_map_of_mem
      (List.mem_filter.2 ⟨hfound, decide_eq_true hshown⟩))
  refine ⟨e, c, he, hc, hmembers, hinfix, fun honly => ?_⟩
  obtain ⟨other, hother, hlookup⟩ := List.mem_filterMap.1 (List.mem_of_find?_eq_some he)
  rwa [honly other hother e hlookup href] at hinfix

def soundPlayer : Descriptor :=
  { name := "Player", scope := some "Audio"
    members := [{ kind := .field, name := "volume", type := "int" }] }

def filmPlayer : Descriptor :=
  { name := "Player", scope := some "Video"
    members := [{ kind := .field, name := "frames", type := "int" },
      { kind := .field, name := "cache", type := "int", visibility := .priv }] }

def players : List Operation := [.insert soundPlayer, .insert filmPlayer]

theorem members_model_film : ∃ c,
    ((replay players).model {} ["Disc", " Video.Player "]).get? "Player" = some c ∧
      [.field { name := "frames", type := "int" }] <:+: c.members := by
  have hname : " Video.Player " ∈ ["Disc", " Video.Player "] := by decide
  have hfilm : (replay players).lookup? " Video.Player " = some filmPlayer := by decide +kernel
  obtain ⟨_, c, _, hget, _, _, hown⟩ := members_model_requested players {} hname hfilm
  refine ⟨c, hget, hown fun other hother d' hd' _ => ?_⟩
  rcases List.mem_cons.1 hother with rfl | hother
  · have hnone : (replay players).lookup? "Disc" = none := by decide +kernel
    rw [hnone] at hd'
    cases hd'
  · rw [List.mem_singleton.1 hother, hfilm] at hd'
    exact (Option.some.inj hd').symm

/-- Behind the one type, the other one is found, but contributes nothing to the model. -/
theorem members_model_players :
    (replay players).lookup? "Video.Player" = some filmPlayer ∧
      ((replay players).model {} ["Audio.Player", "Video.Player"]).classes.values
        = [{ name := "Player", members := soundPlayer.keptMembers {} }] ∧
      ¬ filmPlayer.keptMembers {} ⊆ soundPlayer.keptMembers {} := by
  decide +kernel

end Catalog

end ClassDiagram
