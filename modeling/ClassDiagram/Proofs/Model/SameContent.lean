import Mathlib.Data.List.Nodup
import Mathlib.Data.List.Perm.Subperm
import ClassDiagram.Proofs.Model.Histories

/-! # Equality of models, and merging

Models are compared without regard to the order of their classes, tags and parents.  Merging does
not depend on how models are grouped, and it takes equal models to equal ones; so does every other
operation.  What a model says of its classes never depends on their order.

* `OrderedMap.agrees_iff`, `OrderedSet.agrees_iff`: comparison key by key and item by item;
* `Model.WellFormed.sameContent_iff`: what equality of models means;
* `Model.SameContent.after`, `Model.SameContent.foldl_after`: what one operation and many keep;
* `Model.WellFormed.merge_assoc`: models may be merged in any grouping;
* `Model.merge_lawful`: all of this together.
-/

namespace ClassDiagram

/-! ## Comparison without regard to order -/

/-- Of distinct items, as many of which all are in another list are the same ones. -/
theorem length_eq_and_subset_iff {α : Type} {xs ys : List α} (hx : xs.Nodup) (hy : ys.Nodup) :
    xs.length = ys.length ∧ xs ⊆ ys ↔ ∀ a, a ∈ xs ↔ a ∈ ys := by
  constructor
  · rintro ⟨hlength, hsubset⟩ a
    exact ((List.subperm_of_subset hx hsubset).perm_of_length_le (Nat.le_of_eq hlength.symm)).mem_iff
  · intro h
    exact ⟨((List.perm_ext_iff_of_nodup hx hy).2 h).length_eq, fun a ha => (h a).1 ha⟩

theorem OrderedSet.agrees_iff {α : Type} [DecidableEq α] {s t : OrderedSet α}
    (hs : s.items.Nodup) (ht : t.items.Nodup) :
    s.agrees t = true ↔ ∀ a, a ∈ s.items ↔ a ∈ t.items := by
  rw [← length_eq_and_subset_iff hs ht, agrees, Bool.and_eq_true, beq_iff_eq, List.all_eq_true]
  simp only [decide_eq_true_eq, List.subset_def]

namespace OrderedMap

variable {κ ν : Type} [DecidableEq κ] {m other : OrderedMap κ ν} {same : ν → ν → Bool}

/-- Maps agree if under each key there are values that agree, or none in either. -/
theorem agrees_iff (hd : m.keys.Nodup) (hd' : other.keys.Nodup) :
    m.agrees same other = true ↔
      ∀ k, Option.Rel (fun v w => same v w = true) (m.get? k) (other.get? k) := by
  have hkey : ∀ {n : OrderedMap κ ν} {k}, k ∈ n.keys ↔ ∃ v, n.get? k = some v := fun {n k} => by
    rw [← Option.ne_none_iff_exists', Ne, get?_eq_none_iff, not_not]
  have hsize : ∀ n : OrderedMap κ ν, n.size = n.keys.length := fun n => (List.length_map ..).symm
  have hagrees : m.agrees same other = true ↔ m.keys.length = other.keys.length ∧
      ∀ k v, m.get? k = some v → ∃ w, other.get? k = some w ∧ same v w = true := by
    rw [agrees, Bool.and_eq_true, beq_iff_eq, hsize, hsize, List.all_eq_true]
    simp only [Prod.forall, mem_entries_iff hd]
    refine and_congr_right fun _ => forall_congr' fun k => forall_congr' fun v =>
      imp_congr_right fun _ => ?_
    cases other.get? k with
    | none => simp
    | some w => simp
  rw [hagrees]
  constructor
  · rintro ⟨hlength, hvalues⟩ k
    have hkeys := (length_eq_and_subset_iff hd hd').1 ⟨hlength, fun k hk => by
      obtain ⟨v, hv⟩ := hkey.1 hk
      obtain ⟨w, hw, _⟩ := hvalues k v hv
      exact hkey.2 ⟨w, hw⟩⟩ k
    cases hv : m.get? k with
    | none =>
      rw [get?_eq_none_iff.2 fun hk => get?_eq_none_iff.1 hv (hkeys.2 hk)]
      exact .none
    | some v =>
      obtain ⟨w, hw, hsame⟩ := hvalues k v hv
      rw [hw]
      exact .some hsame
  · intro h
    have hvalue : ∀ k v, m.get? k = some v → ∃ w, other.get? k = some w ∧ same v w = true := by
      intro k v hv
      have hk := h k
      rw [hv] at hk
      generalize other.get? k = found at hk
      cases hk with
      | some hsame => exact ⟨_, rfl, hsame⟩
    refine ⟨((length_eq_and_subset_iff hd hd').2 fun k => ?_).1, hvalue⟩
    rw [hkey, hkey]
    have hk := h k
    generalize m.get? k = value, other.get? k = value' at hk
    cases hk with
    | none => simp
    | some _ => simp

end OrderedMap

/-! ## Classes -/

/-- The same class, whatever the order of its tags and parents. -/
structure Class.SameContent (c d : Class) : Prop where
  name : c.name = d.name
  members : c.members = d.members
  tags : ∀ tag, tag ∈ c.tags.items ↔ tag ∈ d.tags.items
  parents : ∀ parent, c.parents.get? parent = d.parents.get? parent

namespace Class

variable {c c' d d' : Class}

theorem WellFormed.sameContent_iff (hc : c.WellFormed) (hd : d.WellFormed) :
    c.sameContent d = true ↔ c.SameContent d := by
  have hparents : c.parents.agrees (· == ·) d.parents = true
      ↔ ∀ parent, c.parents.get? parent = d.parents.get? parent := by
    rw [OrderedMap.agrees_iff hc.parents hd.parents]
    refine forall_congr' fun parent => ?_
    cases c.parents.get? parent <;> cases d.parents.get? parent <;> simp
  rw [sameContent, Bool.and_eq_true, Bool.and_eq_true, Bool.and_eq_true, beq_iff_eq, beq_iff_eq,
    OrderedSet.agrees_iff hc.tags hd.tags, hparents]
  constructor
  · rintro ⟨⟨⟨hname, hmembers⟩, htags⟩, hparents⟩
    exact ⟨hname, hmembers, htags, hparents⟩
  · rintro ⟨hname, hmembers, htags, hparents⟩
    exact ⟨⟨⟨hname, hmembers⟩, htags⟩, hparents⟩

theorem SameContent.refl (c : Class) : c.SameContent c :=
  ⟨rfl, rfl, fun _ => .rfl, fun _ => rfl⟩

namespace SameContent

theorem merge (h : c.SameContent c') (hd : d.SameContent d') (hwell : d.WellFormed)
    (hwell' : d'.WellFormed) : (c.merge d).SameContent (c'.merge d') where
  name := h.name
  members := congrArg₂ (· ++ ·) h.members hd.members
  tags tag := by
    rw [Class.merge, Class.merge, OrderedSet.mem_insertAll, OrderedSet.mem_insertAll, h.tags,
      hd.tags]
  parents parent := by
    rw [Class.merge, Class.merge, OrderedMap.get?_extend _ hwell.parents,
      OrderedMap.get?_extend _ hwell'.parents, h.parents, hd.parents]

theorem addMember (h : c.SameContent c') (m : Member) :
    (c.addMember m).SameContent (c'.addMember m) :=
  ⟨h.name, congrArg (· ++ [m]) h.members, h.tags, h.parents⟩

theorem addParent (h : c.SameContent c') (parent : String) (kind : RelationKind) :
    (c.addParent parent kind).SameContent (c'.addParent parent kind) where
  name := h.name
  members := h.members
  tags := h.tags
  parents p := by
    rw [Class.addParent, Class.addParent, OrderedMap.get?_insert, OrderedMap.get?_insert, h.parents]

end SameContent

/-- Declarations of a class may be merged in any grouping. -/
theorem merge_assoc {e : Class} (hc : c.WellFormed) (hd : d.WellFormed) (he : e.WellFormed) :
    (c.merge d).merge e = c.merge (d.merge e) := by
  simp only [merge, OrderedSet.insertAll_insertAll, List.append_assoc,
    OrderedMap.extend_extend hc.parents hd.parents he.parents]

end Class

/-! ## Models -/

/-- The same classes under the same names, whatever their order, and the same notes. -/
structure Model.SameContent (m m' : Model) : Prop where
  classes : ∀ name, Option.Rel Class.SameContent (m.get? name) (m'.get? name)
  notes : m.notes = m'.notes

namespace Model

variable {m m' a a' b b' c : Model}

theorem WellFormed.sameContent_iff (h : m.WellFormed) (h' : m'.WellFormed) :
    m.sameContent m' = true ↔ m.SameContent m' := by
  have hclass : ∀ k, Option.Rel (fun c d => Class.sameContent c d = true) (m.get? k) (m'.get? k)
      ↔ Option.Rel Class.SameContent (m.get? k) (m'.get? k) := by
    intro k
    cases hc : m.get? k with
    | none => cases m'.get? k <;> simp
    | some c =>
      cases hd : m'.get? k with
      | none => simp
      | some d =>
        simp only [Option.rel_some_some]
        exact (h.classes k c hc).sameContent_iff (h'.classes k d hd)
  have hclasses : m.classes.agrees Class.sameContent m'.classes = true
      ↔ ∀ k, Option.Rel Class.SameContent (m.get? k) (m'.get? k) :=
    (OrderedMap.agrees_iff h.distinct h'.distinct).trans (forall_congr' hclass)
  rw [sameContent, Bool.and_eq_true, hclasses, beq_iff_eq]
  exact ⟨fun h => ⟨h.1, h.2⟩, fun h => ⟨h.classes, h.notes⟩⟩

/-! ## Operations -/

namespace SameContent

theorem refl (m : Model) : m.SameContent m where
  classes name := by
    cases m.get? name with
    | none => exact .none
    | some c => exact .some (.refl c)
  notes := rfl

/-- A class may be changed, or a new one put at the end, alike in both models. -/
theorem alter (h : m.SameContent m') (name : String) {fresh fresh' : Class}
    {change change' : Class → Class} (hfresh : fresh.SameContent fresh')
    (hchange : ∀ c c' : Class, c.SameContent c' → (change c).SameContent (change' c')) :
    SameContent { m with classes := m.classes.alter name fresh change }
      { m' with classes := m'.classes.alter name fresh' change' } where
  classes k := by
    have hk : Option.Rel Class.SameContent (m.classes.get? k) (m'.classes.get? k) := h.classes k
    show Option.Rel _ ((m.classes.alter name fresh change).get? k)
      ((m'.classes.alter name fresh' change').get? k)
    rw [OrderedMap.get?_alter, OrderedMap.get?_alter]
    by_cases hname : k = name
    · subst hname
      rw [if_pos rfl, if_pos rfl]
      generalize m.classes.get? k = found, m'.classes.get? k = found' at hk
      cases hk with
      | none => exact .some hfresh
      | some hc => exact .some (hchange _ _ hc)
    · rw [if_neg hname, if_neg hname]
      exact hk
  notes := h.notes

theorem addClass (h : m.SameContent m') {c : Class} (hc : c.WellFormed) :
    (m.addClass c).SameContent (m'.addClass c) :=
  h.alter c.name (.refl c) fun _ _ hd => hd.merge (.refl c) hc hc

theorem changeClass (h : m.SameContent m') (name : String) {change : Class → Class}
    (hchange : ∀ c c' : Class, c.SameContent c' → (change c).SameContent (change c')) :
    (m.changeClass name change).SameContent (m'.changeClass name change) :=
  h.alter name (hchange _ _ (.refl _)) hchange

theorem ensureClass (h : m.SameContent m') (name : String) :
    (m.ensureClass name).SameContent (m'.ensureClass name) :=
  h.changeClass name fun _ _ hc => hc

theorem addEdge (h : m.SameContent m') (e : Edge) : (m.addEdge e).SameContent (m'.addEdge e) :=
  (h.ensureClass e.parent).changeClass e.child fun _ _ hc => hc.addParent e.parent e.kind

theorem addNote (h : m.SameContent m') (n : Note) : (m.addNote n).SameContent (m'.addNote n) :=
  ⟨h.classes, congrArg (· ++ [n]) h.notes⟩

theorem addMember (h : m.SameContent m') (name : String) (member : Member) :
    (m.addMember name member).SameContent (m'.addMember name member) where
  classes k := by
    have hk : Option.Rel Class.SameContent (m.classes.get? k) (m'.classes.get? k) := h.classes k
    show Option.Rel _ ((m.classes.modify name _).get? k) ((m'.classes.modify name _).get? k)
    rw [OrderedMap.get?_modify, OrderedMap.get?_modify]
    generalize m.classes.get? k = found, m'.classes.get? k = found' at hk
    cases hk with
    | none => exact .none
    | some hc =>
      by_cases hname : k = name
      · simp only [Option.map_some, if_pos hname]
        exact .some (hc.addMember member)
      · simp only [Option.map_some, if_neg hname]
        exact .some hc
  notes := h.notes

theorem addClasses (h : m.SameContent m') {cs : List Class} (hcs : ∀ c ∈ cs, c.WellFormed) :
    (cs.foldl Model.addClass m).SameContent (cs.foldl Model.addClass m') := by
  induction cs generalizing m m' with
  | nil => exact h
  | cons c cs ih =>
    obtain ⟨hc, hcs⟩ := List.forall_mem_cons.1 hcs
    exact ih (h.addClass hc) hcs

/-- The same model may be merged into both. -/
theorem merge_left (h : m.SameContent m') {other : Model}
    (hother : ∀ c ∈ other.classes.values, c.WellFormed) :
    (m.merge other).SameContent (m'.merge other) := by
  have hjoined := h.addClasses hother
  exact ⟨hjoined.classes, congrArg (· ++ other.notes) hjoined.notes⟩

theorem absorbed (h : m.SameContent m') (text : String) :
    (m.absorbed text).SameContent (m'.absorbed text) := by
  rw [Model.absorbed, Model.absorbed, absorb, absorb]
  cases htext : ofText text with
  | error _ => exact h
  | ok other => exact h.merge_left (canonical_of_ofText htext).1.values

/-- No operation looks at the order of classes, tags or parents. -/
theorem after (h : m.SameContent m') (op : Operation) : (m.after op).SameContent (m'.after op) := by
  cases op with
  | addClass c hc => exact h.addClass hc
  | addEdge e => exact h.addEdge e
  | addNote n => exact h.addNote n
  | ensureClass name => exact h.ensureClass name
  | addMember name member => exact h.addMember name member
  | merge other hother => exact h.merge_left hother
  | absorb text => exact h.absorbed text
  | clear => exact .refl empty

theorem foldl_after (h : m.SameContent m') (ops : List Operation) :
    (ops.foldl Model.after m).SameContent (ops.foldl Model.after m') := by
  induction ops generalizing m m' with
  | nil => exact h
  | cons op ops ih => exact ih (h.after op)

end SameContent

/-! ## Merging -/

/-- What is found in a merged model: a class of the other model is merged into the one of its
name, or into a new one. -/
theorem WellFormed.get?_merge_elim (hb : b.WellFormed) (name : String) :
    (a.merge b).get? name
      = (b.get? name).elim (a.get? name) fun c =>
          some (((a.get? name).getD (.named name)).merge c) := by
  rw [hb.get?_merge]
  cases hc : b.get? name with
  | none =>
    have hname : name ∉ b.names := OrderedMap.get?_eq_none_iff.1 hc
    rw [if_neg hname, Option.elim_none]
  | some c =>
    have hname : name ∈ b.names := OrderedMap.mem_keys_of_get? hc
    rw [if_pos hname, Option.map_some, Option.elim_some]

theorem WellFormed.notes_merge (hb : b.WellFormed) : (a.merge b).notes = a.notes ++ b.notes := by
  rw [hb.merge_eq]

/-- Equal models may be merged in place of one another. -/
theorem SameContent.merge (h : a.SameContent a') (hb : b.SameContent b') (hwell : b.WellFormed)
    (hwell' : b'.WellFormed) : (a.merge b).SameContent (a'.merge b') where
  classes name := by
    have hold : ((a.get? name).getD (.named name)).SameContent
        ((a'.get? name).getD (.named name)) := by
      have hname := h.classes name
      generalize a.get? name = found, a'.get? name = found' at hname
      cases hname with
      | none => exact .refl _
      | some hc => exact hc
    have hnew := hb.classes name
    rw [hwell.get?_merge_elim, hwell'.get?_merge_elim]
    cases hc : b.get? name with
    | none =>
      cases hc' : b'.get? name with
      | none => exact h.classes name
      | some c' =>
        rw [hc, hc'] at hnew
        cases hnew
    | some c =>
      cases hc' : b'.get? name with
      | none =>
        rw [hc, hc'] at hnew
        cases hnew
      | some c' =>
        rw [hc, hc', Option.rel_some_some] at hnew
        exact .some (hold.merge hnew (hwell.classes name c hc) (hwell'.classes name c' hc'))
  notes := by rw [hwell.notes_merge, hwell'.notes_merge, h.notes, hb.notes]

theorem merge_empty (a : Model) : a.merge empty = a := by
  have hnotes : a.notes ++ [] = a.notes := List.append_nil _
  exact congrArg (Model.mk a.classes) hnotes

namespace WellFormed

/-- A class that is found is the class of its name with what it says. -/
theorem named_merge (ha : a.WellFormed) {name : String} {c : Class} (hc : a.get? name = some c) :
    (Class.named name).merge c = c := by
  rw [← ha.named name c hc]
  exact (ha.classes name c hc).named_merge

theorem empty_merge (ha : a.WellFormed) : empty.merge a = a := by
  refine ext_names (wellFormed_empty.merge ha).distinct ?_ (fun name => ?_) ?_
  · rw [ha.names_merge]
    exact congrArg OrderedSet.items (OrderedSet.ofList_items (s := ⟨a.names⟩) ha.distinct)
  · rw [ha.get?_merge_elim]
    cases hc : a.get? name with
    | none => rfl
    | some c => exact congrArg some (ha.named_merge hc)
  · rw [ha.notes_merge]
    rfl

/-- Models may be merged in any grouping, with the same order of everything. -/
theorem merge_assoc (ha : a.WellFormed) (hb : b.WellFormed) (hc : c.WellFormed) :
    (a.merge b).merge c = a.merge (b.merge c) := by
  have hbc := hb.merge hc
  refine ext_names ((ha.merge hb).merge hc).distinct ?_ (fun name => ?_) ?_
  · rw [hc.names_merge, hb.names_merge, hbc.names_merge, hc.names_merge]
    exact (congrArg OrderedSet.items
      (OrderedSet.insertAll_insertAll ⟨a.names⟩ ⟨b.names⟩ c.names)).symm
  · rw [hc.get?_merge_elim, hbc.get?_merge_elim, hc.get?_merge_elim, hb.get?_merge_elim]
    cases hz : c.get? name with
    | none => rfl
    | some z =>
      cases hy : b.get? name with
      | none =>
        -- a class that only the last model has is merged into a new one first
        simp only [Option.elim_some, Option.elim_none, Option.getD_none, hc.named_merge hz]
      | some y =>
        have hx : ((a.get? name).getD (.named name)).WellFormed := by
          cases hget : a.get? name with
          | none => exact Class.wellFormed_named name
          | some x => exact ha.classes name x hget
        have hassoc := Class.merge_assoc hx (hb.classes name y hy) (hc.classes name z hz)
        simp only [Option.elim_some, Option.getD_some, hassoc]
  · rw [hc.notes_merge, hb.notes_merge, hbc.notes_merge, hc.notes_merge, List.append_assoc]

end WellFormed

/-- Models may be merged in any grouping, and the empty one changes nothing, all orders included.
Equal models may be merged in place of one another, and stay equal under any operations. -/
theorem merge_lawful (ha : a.WellFormed) (hb : b.WellFormed) (hc : c.WellFormed)
    (ha' : a'.WellFormed) (hb' : b'.WellFormed) :
    (a.merge b).merge c = a.merge (b.merge c) ∧ empty.merge a = a ∧ a.merge empty = a ∧
      (a.sameContent a' = true →
        (b.sameContent b' = true → (a.merge b).sameContent (a'.merge b') = true) ∧
          ∀ ops : List Operation,
            (ops.foldl after a).sameContent (ops.foldl after a') = true) := by
  refine ⟨ha.merge_assoc hb hc, ha.empty_merge, a.merge_empty, fun hsame => ?_⟩
  have h : a.SameContent a' := (ha.sameContent_iff ha').1 hsame
  refine ⟨fun hsame' => ?_, fun ops => ?_⟩
  · rw [(ha.merge hb).sameContent_iff (ha'.merge hb')]
    exact h.merge ((hb.sameContent_iff hb').1 hsame') hb hb'
  · rw [(ha.foldl_after ops).sameContent_iff (ha'.foldl_after ops)]
    exact h.foldl_after ops

/-- An edge, then two tags of its child. -/
def pets : List Operation :=
  [.addEdge ⟨"Dog", "Pet", .inherits⟩,
    .addClass { name := "Dog", tags := ⟨["small", "loud"]⟩ } ⟨by decide, .nil⟩]

/-- The same in another order: the child comes first, and its tags are swapped. -/
def petsSwapped : List Operation :=
  [.addClass { name := "Dog", tags := ⟨["loud", "small"]⟩ } ⟨by decide, .nil⟩,
    .addEdge ⟨"Dog", "Pet", .inherits⟩]

def strays : List Operation :=
  [.addEdge ⟨"Dog", "Pet", .implements⟩, .addMember "Dog" (.field { name := "age" }),
    .ensureClass "Cat"]

def arrivals : List Operation :=
  [.absorb "classDiagram\nPet <|-- Cat", .addMember "Dog" (.method { name := "bark" }),
    .addNote ⟨some "Cat", "shy"⟩]

theorem merge_lawful_pets :
    replay pets ≠ replay petsSwapped ∧ (replay pets).sameContent (replay petsSwapped) = true ∧
      ((replay pets).merge (replay strays)).merge (replay petsSwapped)
        = (replay pets).merge ((replay strays).merge (replay petsSwapped)) ∧
      ((replay pets).merge (replay strays)).sameContent
        ((replay petsSwapped).merge (replay strays)) = true ∧
      (arrivals.foldl after (replay pets)).sameContent
        (arrivals.foldl after (replay petsSwapped)) = true := by
  have hsame : (replay pets).sameContent (replay petsSwapped) = true := by decide
  obtain ⟨hassoc, _, _, hequal⟩ := merge_lawful (.replay pets) (.replay strays)
    (.replay petsSwapped) (.replay petsSwapped) (.replay strays)
  obtain ⟨hmerged, hoperated⟩ := hequal hsame
  exact ⟨by decide, hsame, hassoc, hmerged (by decide), hoperated arrivals⟩

end Model

end ClassDiagram
