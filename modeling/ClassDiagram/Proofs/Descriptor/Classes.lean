import ClassDiagram.Proofs.Descriptor.Members
import ClassDiagram.Proofs.Descriptor.Names
import ClassDiagram.Proofs.Model.Merging

/-! # The classes of found types

Classes are added first and edges afterwards, by the names that the types are shown by.  As long as
no two types are shown alike, nothing gets mixed up: there is one class for each found type, with
the members that are kept, and its parents are the other found types that it refers to, in the
order of the references.  What was not found is in the note and nowhere else.

* `Model.get?_foldl_addEdge`: edges between classes reach the class of their child only;
* `Adapter.isClassOf_edges`: what the class of a found type holds;
* `Model.ofRequests_exact`: the model of requests, class by class;
* `Model.classes_ofRequests_congr`: the classes depend on the types that were found, and on nothing
  else.
-/

namespace ClassDiagram

/-! ## Classes with names of their own -/

/-- Of items with keys of their own, one is found by its key. -/
theorem filter_key_of_nodup {α κ : Type} [DecidableEq κ] {key : α → κ} {xs : List α} {a : α}
    (hd : (xs.map key).Nodup) (ha : a ∈ xs) : xs.filter (key · = key a) = [a] := by
  induction xs with
  | nil => cases ha
  | cons x xs ih =>
    obtain ⟨hx, hxs⟩ := List.nodup_cons.1 hd
    rcases List.mem_cons.1 ha with rfl | ha
    · have hnone : xs.filter (key · = key a) = [] := by
        rw [List.filter_eq_nil_iff]
        intro y hy hkey
        exact hx (List.mem_map.2 ⟨y, hy, of_decide_eq_true hkey⟩)
      rw [List.filter_cons_of_pos (by simp), hnone]
    · have hne : key x ≠ key a := fun heq => hx (heq ▸ List.mem_map_of_mem ha)
      rw [List.filter_cons_of_neg (by simpa using hne), ih hxs ha]

namespace Model

/-- A class that was added under a name of its own is there as it was. -/
theorem get?_foldl_addClass {cs : List Class} (h : ∀ c ∈ cs, c.WellFormed)
    (hd : (cs.map Class.name).Nodup) {c : Class} (hc : c ∈ cs) :
    (cs.foldl addClass empty).get? c.name = some c := by
  have hmem : c.name ∈ cs.map Class.name := List.mem_map_of_mem hc
  rw [foldl_addClass empty h, get?, OrderedMap.get?_alterAll, if_pos hmem,
    filter_key_of_nodup hd hc]
  exact congrArg some (h c hc).named_merge

/-! ## Edges between classes -/

/-- An edge between classes of a model changes its child only. -/
theorem get?_addEdge {m : Model} {e : Edge} (hchild : e.child ∈ m.names)
    (hparent : e.parent ∈ m.names) (k : String) :
    (m.addEdge e).get? k
      = (m.get? k).map fun c => if e.child = k then c.addParent e.parent e.kind else c := by
  have hensure : ∀ j, (m.ensureClass e.parent).get? j = m.get? j := by
    intro j
    have hget : (m.ensureClass e.parent).get? j = _ := OrderedMap.get?_alter ..
    by_cases hj : j = e.parent
    · obtain ⟨c, hc⟩ : ∃ c, m.classes.get? j = some c := by
        rw [← Option.ne_none_iff_exists', Ne, OrderedMap.get?_eq_none_iff, hj]
        exact not_not_intro hparent
      subst hj
      rw [hget, if_pos rfl, hc]
      exact hc.symm
    · rw [hget, if_neg hj]
      rfl
  have hget : (m.addEdge e).get? k = _ := OrderedMap.get?_alter ..
  by_cases hk : k = e.child
  · obtain ⟨c, hc⟩ : ∃ c, m.get? k = some c := by
      rw [← Option.ne_none_iff_exists', Ne, get?, OrderedMap.get?_eq_none_iff, hk]
      exact not_not_intro hchild
    have hc' : (m.ensureClass e.parent).classes.get? k = some c := (hensure k).trans hc
    subst hk
    rw [hget, if_pos rfl, hc', hc]
    simp
  · have hk' : e.child ≠ k := Ne.symm hk
    have hrest : (m.addEdge e).get? k = m.get? k := by
      rw [hget, if_neg hk]
      exact hensure k
    simp [hrest, hk']

/-- The parents that edges give to the class of a name, in order. -/
def parentsIn (es : List Edge) (child : String) : List (String × RelationKind) :=
  (es.filter (·.child = child)).map fun e => (e.parent, e.kind)

/-- Of edges between classes, each class gets its own, in order. -/
theorem get?_foldl_addEdge {m : Model} {es : List Edge}
    (h : ∀ e ∈ es, e.child ∈ m.names ∧ e.parent ∈ m.names) (k : String) :
    (es.foldl addEdge m).get? k = (m.get? k).map fun c =>
      { c with parents := c.parents.extend ⟨parentsIn es k⟩ } := by
  induction es generalizing m with
  | nil => exact (Option.map_id_fun' ▸ rfl)
  | cons e es ih =>
    obtain ⟨⟨hchild, hparent⟩, hes⟩ := List.forall_mem_cons.1 h
    have hsame := names_addEdge hchild hparent
    rw [List.foldl_cons, ih (by rwa [hsame]), get?_addEdge hchild hparent, Option.map_map]
    congr 1
    funext c
    by_cases hk : e.child = k
    · simp [hk, parentsIn, Class.addParent, OrderedMap.extend]
    · simp [hk, parentsIn]

end Model

/-! ## Parents -/

/-- Where each key has one value only, writing a list of entries drops the repetitions. -/
theorem OrderedMap.mem_entries_ofList {κ ν : Type} [DecidableEq κ] [DecidableEq ν]
    {es : List (κ × ν)} (h : ∀ a ∈ es, ∀ b ∈ es, a.1 = b.1 → a.2 = b.2) {k : κ} {v : ν} :
    (k, v) ∈ (ofList es).entries ↔ (k, v) ∈ es := by
  rw [mem_entries_iff (nodup_ofList es), get?_ofList, lastValue, Option.map_eq_some_iff]
  constructor
  · rintro ⟨e, he, rfl⟩
    obtain ⟨hmem, hkey⟩ := List.mem_filter.1 (List.mem_of_getLast? he)
    rw [← of_decide_eq_true hkey]
    exact hmem
  · intro hmem
    have hfilter : (k, v) ∈ es.filter (·.1 = k) := List.mem_filter.2 ⟨hmem, decide_eq_true rfl⟩
    obtain ⟨e, he⟩ := Option.ne_none_iff_exists'.1 fun hnone =>
      List.ne_nil_of_mem hfilter (List.getLast?_eq_none_iff.1 hnone)
    obtain ⟨hmem', hkey⟩ := List.mem_filter.1 (List.mem_of_getLast? he)
    exact ⟨e, he, h e hmem' _ hmem (of_decide_eq_true hkey)⟩

namespace Adapter

variable {found : List Descriptor} {d : Descriptor}

def kindOf (parent : Descriptor) : RelationKind :=
  if parent.isAbstract then .implements else .inherits

/-- The references of a type to other found types, that to the base type in front of those to the
interfaces. -/
def relatives (found : List Descriptor) (d : Descriptor) : List TypeRef :=
  (d.base.toList ++ d.interfaces).filter fun r => r ≠ d.ref ∧ r ∈ found.map Descriptor.ref

/-- The class of a found type: its name among the found ones, the members that pass the floors of
their kinds, no tags, and as its parents the other found types that it refers to, in the order of
the references. -/
structure IsClassOf (filter : MemberFilter) (found : List Descriptor) (d : Descriptor) (c : Class) :
    Prop where
  name : c.name = nameAmong found d.ref
  tags : c.tags.items = []
  members : filter.Selects d.members c.members
  parents : ∀ p kind, (p, kind) ∈ c.parents.entries ↔
    ∃ e ∈ found, e.ref ≠ d.ref ∧ (d.base = some e.ref ∨ e.ref ∈ d.interfaces) ∧
      p = nameAmong found e.ref ∧ kind = kindOf e
  order : c.parents.keys = ((relatives found d).map (nameAmong found)).eraseDups

theorem mem_parents {r : TypeRef} : r ∈ d.parents ↔ d.base = some r ∨ r ∈ d.interfaces := by
  rw [Descriptor.parents, List.mem_append, Option.mem_toList]

/-- Where references are distinct, there is an edge just for each one to another found type. -/
theorem edge?_eq_some_iff (hd : (found.map Descriptor.ref).Nodup) {r : TypeRef} {edge : Edge} :
    edge? found d r = some edge ↔ ∃ e ∈ found, e.ref = r ∧ e.ref ≠ d.ref ∧
      edge = ⟨className found d, className found e, kindOf e⟩ := by
  constructor
  · exact of_edge?_eq_some
  · rintro ⟨e, he, rfl, hne, rfl⟩
    have hfind : found.find? (·.isNamedBy e.ref) = some e := by
      cases hp : found.find? (·.isNamedBy e.ref) with
      | none =>
        have := List.find?_eq_none.1 hp e he
        simp [Descriptor.isNamedBy] at this
      | some p =>
        obtain ⟨hmem, hr⟩ := find?_isNamedBy hp
        rw [List.inj_on_of_nodup_map hd hmem he hr]
    have hsame : e.sameType d = false := by simpa [Descriptor.sameType] using hne
    simp [edge?, hfind, hsame, kindOf]

/-- The parents that the edges of a type lead to are shown as its references to them. -/
theorem map_parent_edges (hd : (found.map Descriptor.ref).Nodup) :
    (d.parents.filterMap (edge? found d)).map Edge.parent
      = (relatives found d).map (nameAmong found) := by
  change _ = (d.parents.filter _).map _
  induction d.parents with
  | nil => rfl
  | cons r rs ih =>
    by_cases hr : r ≠ d.ref ∧ r ∈ found.map Descriptor.ref
    · obtain ⟨hne, hmem⟩ := hr
      obtain ⟨e, he, rfl⟩ := List.mem_map.1 hmem
      have hedge := (edge?_eq_some_iff (d := d) hd).2 ⟨e, he, rfl, hne, rfl⟩
      rw [List.filterMap_cons_some hedge,
        List.filter_cons_of_pos (by simpa using ⟨hne, e, he, rfl⟩), List.map_cons, List.map_cons,
        ih, className_eq_nameAmong hd he]
    · have hedge : edge? found d r = none := by
        rw [Option.eq_none_iff_forall_ne_some]
        intro edge hedge
        obtain ⟨e, he, rfl, hne, _⟩ := (edge?_eq_some_iff hd).1 hedge
        exact hr ⟨hne, List.mem_map_of_mem he⟩
      rw [List.filterMap_cons_none hedge, List.filter_cons_of_neg (by simpa using hr), ih]

/-- Where types are shown by names of their own, the edges that leave the name of a type are its
own edges. -/
theorem filter_edges (hnames : (found.map (className found)).Nodup) (h : d ∈ found) :
    (edges found).filter (·.child = className found d) = d.parents.filterMap (edge? found d) := by
  have hchild : ∀ e, ∀ edge ∈ e.parents.filterMap (edge? found e),
      edge.child = className found e := by
    intro e edge hedge
    obtain ⟨r, _, hr⟩ := List.mem_filterMap.1 hedge
    obtain ⟨p, _, _, _, rfl⟩ := of_edge?_eq_some hr
    rfl
  have hsplit : ∀ ds : List Descriptor,
      (ds.flatMap fun e => e.parents.filterMap (edge? found e)).filter
          (·.child = className found d)
        = (ds.filter (className found · = className found d)).flatMap fun e =>
            e.parents.filterMap (edge? found e) := by
    intro ds
    induction ds with
    | nil => rfl
    | cons e ds ih =>
      rw [List.flatMap_cons, List.filter_append, ih]
      by_cases he : className found e = className found d
      · have hall : (e.parents.filterMap (edge? found e)).filter (·.child = className found d)
            = e.parents.filterMap (edge? found e) :=
          List.filter_eq_self.2 fun edge hedge => decide_eq_true ((hchild e edge hedge).trans he)
        rw [hall, List.filter_cons_of_pos (by simpa using he), List.flatMap_cons]
      · have hnone : (e.parents.filterMap (edge? found e)).filter (·.child = className found d)
            = [] :=
          List.filter_eq_nil_iff.2 fun edge hedge hsame =>
            he ((hchild e edge hedge).symm.trans (of_decide_eq_true hsame))
        rw [hnone, List.filter_cons_of_neg (by simpa using he), List.nil_append]
  rw [edges, hsplit, filter_key_of_nodup hnames h, List.flatMap_cons, List.flatMap_nil,
    List.append_nil]

/-- The parents that the edges of a type lead to, with what the edges say of them. -/
theorem mem_map_edges (hd : (found.map Descriptor.ref).Nodup) {p : String} {kind : RelationKind} :
    (p, kind) ∈ (d.parents.filterMap (edge? found d)).map (fun e => (e.parent, e.kind)) ↔
      ∃ e ∈ found, e.ref ≠ d.ref ∧ (d.base = some e.ref ∨ e.ref ∈ d.interfaces) ∧
        p = nameAmong found e.ref ∧ kind = kindOf e := by
  rw [List.mem_map]
  constructor
  · rintro ⟨edge, hedge, heq⟩
    obtain ⟨r, hr, hedge⟩ := List.mem_filterMap.1 hedge
    obtain ⟨e, he, rfl, hne, rfl⟩ := (edge?_eq_some_iff hd).1 hedge
    obtain ⟨rfl, rfl⟩ := Prod.mk.inj heq
    exact ⟨e, he, hne, mem_parents.1 hr, className_eq_nameAmong hd he, rfl⟩
  · rintro ⟨e, he, hne, hr, rfl, rfl⟩
    refine ⟨_, List.mem_filterMap.2 ⟨e.ref, mem_parents.2 hr, (edge?_eq_some_iff hd).2
      ⟨e, he, rfl, hne, rfl⟩⟩, ?_⟩
    rw [className_eq_nameAmong hd he]

/-- The class of a found type with the parents that its edges lead to. -/
theorem isClassOf_edges (filter : MemberFilter) (hd : d ∈ found)
    (hrefs : (found.map Descriptor.ref).Nodup)
    (hnames : (found.map fun e => nameAmong found e.ref).Nodup) :
    IsClassOf filter found d { classOf filter found d with
      parents := .ofList ((d.parents.filterMap (edge? found d)).map fun e =>
        (e.parent, e.kind)) } where
  name := className_eq_nameAmong hrefs hd
  tags := rfl
  members := d.selects_keptMembers filter
  parents p kind := by
    rw [← mem_map_edges hrefs]
    apply OrderedMap.mem_entries_ofList
    rintro ⟨q, l⟩ ha ⟨q', l'⟩ hb (heq : q = q')
    obtain ⟨e, he, _, _, hq, rfl⟩ := (mem_map_edges hrefs).1 ha
    obtain ⟨e', he', _, _, hq', rfl⟩ := (mem_map_edges hrefs).1 hb
    have hsame : nameAmong found e.ref = nameAmong found e'.ref := by rw [← hq, ← hq', heq]
    rw [List.inj_on_of_nodup_map hnames he he' hsame]
  order := by
    have hkeys :
        ((d.parents.filterMap (edge? found d)).map fun e => (e.parent, e.kind)).map Prod.fst
          = (relatives found d).map (nameAmong found) := by
      rw [List.map_map, ← map_parent_edges hrefs]
      rfl
    rw [OrderedMap.keys_ofList, hkeys, OrderedSet.items_ofList]

/-- Found types are shown by their names among the found ones. -/
theorem map_className (hrefs : (found.map Descriptor.ref).Nodup) :
    found.map (className found) = found.map fun e => nameAmong found e.ref :=
  List.map_congr_left fun _ he => className_eq_nameAmong hrefs he

theorem unresolved_eq (requests : List (String × Option Descriptor)) :
    unresolved requests = (requests.filter (·.2 = none)).map Prod.fst := by
  have hnone : ∀ r : String × Option Descriptor, r.2.isNone = decide (r.2 = none) := fun r => by
    rw [Bool.eq_iff_iff, Option.isNone_iff_eq_none, decide_eq_true_iff]
  simp only [unresolved, hnone]

end Adapter

/-! ## Models of requests -/

namespace Model

variable (filter : MemberFilter)

/-- The classes of found types before the edges are added. -/
def classesOf (found : List Descriptor) : Model :=
  (found.map (Adapter.classOf filter found)).foldl addClass empty

variable {found : List Descriptor}

theorem wellFormed_classOf : ∀ c ∈ found.map (Adapter.classOf filter found), c.WellFormed := by
  intro c hc
  obtain ⟨e, _, rfl⟩ := List.mem_map.1 hc
  exact ⟨.nil, .nil⟩

/-- An edge between found types joins classes. -/
theorem ends_mem_classesOf : ∀ e ∈ Adapter.edges found,
    e.child ∈ (classesOf filter found).names ∧ e.parent ∈ (classesOf filter found).names := by
  have hnames : (classesOf filter found).names
      = (OrderedSet.ofList (found.map (Adapter.className found))).items := by
    rw [classesOf, names_foldl_addClass, List.map_map]
    rfl
  intro e he
  rw [hnames, OrderedSet.mem_ofList, OrderedSet.mem_ofList]
  exact Adapter.ends_of_mem_edges he

/-- Where types are shown by names of their own, the class of a found type is under its name. -/
theorem get?_ofRequests {requests : List (String × Option Descriptor)}
    (hfound : Adapter.found requests = found)
    (hnames : (found.map (Adapter.className found)).Nodup) {d : Descriptor} (hd : d ∈ found) :
    (ofRequests filter requests).get? (Adapter.className found d)
      = some { Adapter.classOf filter found d with
          parents := .ofList ((d.parents.filterMap (Adapter.edge? found d)).map fun e =>
            (e.parent, e.kind)) } := by
  have hclasses : (classesOf filter found).get? (Adapter.className found d)
      = some (Adapter.classOf filter found d) := by
    have hnodup : ((found.map (Adapter.classOf filter found)).map Class.name).Nodup := by
      rw [List.map_map]
      exact hnames
    exact get?_foldl_addClass (wellFormed_classOf filter) hnodup (List.mem_map_of_mem hd)
  rw [ofRequests, get?_foldl_addNote, hfound]
  show ((Adapter.edges found).foldl addEdge (classesOf filter found)).get? _ = _
  rw [get?_foldl_addEdge (ends_mem_classesOf filter), hclasses, parentsIn,
    Adapter.filter_edges hnames hd]
  rfl

/-- Where types are shown by names of their own, the classes are named by them. -/
theorem names_ofRequests_of_nodup {requests : List (String × Option Descriptor)}
    (hfound : Adapter.found requests = found)
    (hnames : (found.map (Adapter.className found)).Nodup) :
    (ofRequests filter requests).names = found.map (Adapter.className found) := by
  rw [names_ofRequests, hfound]
  exact congrArg OrderedSet.items (OrderedSet.ofList_items (s := ⟨_⟩) hnames)

/-- The classes and edges come from the types that were found; what was asked for otherwise has no
part in them. -/
theorem classes_ofRequests_congr {requests requests' : List (String × Option Descriptor)}
    (h : Adapter.found requests = Adapter.found requests') :
    (ofRequests filter requests).classes = (ofRequests filter requests').classes := by
  rw [ofRequests, ofRequests, foldl_addNote, foldl_addNote, h]

theorem notes_ofRequests (requests : List (String × Option Descriptor)) :
    (ofRequests filter requests).notes = Adapter.notes (Adapter.unresolved requests) := by
  have hadd : ∀ (es : List Edge) (m : Model), (es.foldl addEdge m).notes = m.notes := by
    intro es
    induction es with
    | nil => exact fun _ => rfl
    | cons e es ih => exact fun m => ih (m.addEdge e)
  have hclass : ∀ (cs : List Class) (m : Model), (cs.foldl addClass m).notes = m.notes := by
    intro cs
    induction cs with
    | nil => exact fun _ => rfl
    | cons c cs ih => exact fun m => ih (m.addClass c)
  rw [ofRequests, foldl_addNote]
  show (List.foldl addEdge _ _).notes ++ _ = _
  rw [hadd, hclass]
  exact List.nil_append _

/-- Where types are shown by names of their own, edges join the names of found types. -/
theorem ends_of_mem_edges {requests : List (String × Option Descriptor)}
    (hfound : Adapter.found requests = found)
    (hnames : (found.map fun d => Adapter.nameAmong found d.ref).Nodup) {e : Edge}
    (he : e ∈ (ofRequests filter requests).edges) :
    (∃ d ∈ found, Adapter.nameAmong found d.ref = e.child) ∧
      ∃ d ∈ found, Adapter.nameAmong found d.ref = e.parent := by
  have hrefs : (found.map Descriptor.ref).Nodup := hfound ▸ Adapter.nodup_ref_distinct _
  have hshown := Adapter.map_className hrefs
  have hkeys := names_ofRequests_of_nodup filter hfound (hshown ▸ hnames)
  obtain ⟨c, hc, he⟩ := List.mem_flatMap.1 he
  obtain ⟨⟨k, c'⟩, hentry, rfl⟩ := List.mem_map.1 hc
  obtain ⟨⟨p, kind⟩, hparent, rfl⟩ := List.mem_map.1 he
  have hdistinct : (ofRequests filter requests).names.Nodup := by rwa [hkeys, hshown]
  have hget := (OrderedMap.mem_entries_iff hdistinct).1 hentry
  have hk := OrderedMap.mem_keys_of_get? hget
  obtain ⟨d, hd, rfl⟩ := List.mem_map.1 (hkeys ▸ hk : k ∈ found.map (Adapter.className found))
  obtain rfl : c' = _ :=
    Option.some.inj (hget.symm.trans (get?_ofRequests filter hfound (hshown ▸ hnames) hd))
  have hclass := Adapter.isClassOf_edges filter hd hrefs hnames
  obtain ⟨q, hq, _, _, rfl, _⟩ := (hclass.parents p kind).1 hparent
  exact ⟨⟨d, hd, hclass.name.symm⟩, q, hq, rfl⟩

/-- The model of requests whose found types have names of their own.  The found types are the first
ones of each bare name and arity.  There is one class for each of them, in their order, as it is
described; one note with the names that were not found, if there are any; and nothing of those
names in the classes and edges. -/
theorem ofRequests_exact (requests : List (String × Option Descriptor))
    (h : ((Adapter.found requests).map fun d =>
      Adapter.nameAmong (Adapter.found requests) d.ref).Nodup) :
    Adapter.FirstOfEach (requests.filterMap (·.2)) (Adapter.found requests) ∧
      (ofRequests filter requests).names
        = ((Adapter.found requests).map fun d =>
            Adapter.nameAmong (Adapter.found requests) d.ref) ∧
      (∀ d ∈ Adapter.found requests, ∃ c,
        (ofRequests filter requests).get? (Adapter.nameAmong (Adapter.found requests) d.ref)
            = some c ∧
          Adapter.IsClassOf filter (Adapter.found requests) d c) ∧
      (ofRequests filter requests).notes
        = (if requests.filter (·.2 = none) = [] then []
          else [⟨none, ", ".intercalate ((requests.filter (·.2 = none)).map Prod.fst)
            ++ " not found"⟩]) ∧
      (ofRequests filter requests).classes
        = (ofRequests filter (requests.filter (·.2.isSome))).classes ∧
      (∀ name,
        (∀ d ∈ Adapter.found requests,
          Adapter.nameAmong (Adapter.found requests) d.ref ≠ name) →
        (ofRequests filter requests).get? name = none ∧
          ∀ e ∈ (ofRequests filter requests).edges, e.child ≠ name ∧ e.parent ≠ name) := by
  have hrefs : ((Adapter.found requests).map Descriptor.ref).Nodup := Adapter.nodup_ref_distinct _
  have hshown := Adapter.map_className hrefs
  have hnames := names_ofRequests_of_nodup filter rfl (hshown ▸ h)
  have hclass : ∀ d ∈ Adapter.found requests, ∃ c,
      (ofRequests filter requests).get? (Adapter.nameAmong (Adapter.found requests) d.ref)
          = some c ∧
        Adapter.IsClassOf filter (Adapter.found requests) d c := by
    intro d hd
    rw [← Adapter.className_eq_nameAmong hrefs hd]
    exact ⟨_, get?_ofRequests filter rfl (hshown ▸ h) hd,
      Adapter.isClassOf_edges filter hd hrefs h⟩
  have hfound : Adapter.found requests = Adapter.found (requests.filter (·.2.isSome)) := by
    have hsame : (requests.filter (·.2.isSome)).filterMap (·.2) = requests.filterMap (·.2) := by
      rw [List.filterMap_filter]
      congr 1
      funext r
      cases r.2 <;> rfl
    rw [Adapter.found, Adapter.found, hsame]
  refine ⟨Adapter.firstOfEach_distinct _, hnames.trans hshown, hclass, ?_,
    classes_ofRequests_congr filter hfound, ?_⟩
  · rw [notes_ofRequests, Adapter.notes, Adapter.unresolved_eq]
    simp only [List.isEmpty_iff, List.map_eq_nil_iff]
  · intro name hname
    have hnot : name ∉ (ofRequests filter requests).names := by
      rw [hnames, hshown]
      intro hmem
      obtain ⟨d, hd, rfl⟩ := List.mem_map.1 hmem
      exact hname d hd rfl
    refine ⟨OrderedMap.get?_eq_none_iff.2 hnot, ?_⟩
    intro e he
    obtain ⟨⟨d, hd, hchild⟩, d', hd', hparent⟩ := ends_of_mem_edges filter rfl h he
    exact ⟨fun heq => hname d hd (hchild.trans heq), fun heq => hname d' hd' (hparent.trans heq)⟩

/-- Methods that are protected, fields that are public and properties that are internal are visible
enough. -/
def steps : MemberFilter := { methods := .prot, fields := .pub, properties := .internal }

/-- A type in front of its parents that refers to itself, to a type that was not asked for and to a
parent twice, with members on both sides of each floor; two types that share a bare name; a type
with many parameters; the first type again; and two names that were not found. -/
def drawing : List (String × Option Descriptor) :=
  [("Circle", some {
      name := "Circle"
      base := some ⟨"Shape", 0⟩
      interfaces := [⟨"Drawable", 0⟩, ⟨"Circle", 0⟩, ⟨"Shape", 0⟩, ⟨"Shape", 1⟩, ⟨"Curve", 0⟩]
      members := [
        { kind := .method, name := "draw", type := "void", visibility := .prot, isAbstract := true
          parameters := [⟨"canvas", "Canvas"⟩, ⟨"scale", ""⟩, ⟨"", "int"⟩] },
        { kind := .property, name := "Name", type := "string", visibility := .internal },
        { kind := .field, name := "cache", type := "Image", visibility := .internal },
        { kind := .method, name := "unit", type := "Circle", isStatic := true },
        { kind := .method, name := "grow", type := "void", visibility := .priv },
        { kind := .property, name := "Tag", type := "string", visibility := .prot },
        { kind := .field, name := "count", type := "void", isStatic := true, isAbstract := true }] }),
    ("Square", none),
    ("Drawable", some { name := "Drawable", isAbstract := true }),
    ("Shape", some { name := "Shape" }),
    ("Group<T>", some { name := "Group", arity := 1, base := some ⟨"Group", 2⟩ }),
    ("Group<T, U>", some { name := "Group", arity := 2 }),
    ("Row`8", some { name := "Row", arity := 8 }),
    ("Flat.Circle", some { name := "Circle", isAbstract := true }),
    ("Rhombus", none)]

theorem ofRequests_drawing :
    (ofRequests steps drawing).names
        = ["Circle", "Drawable", "Shape", "Group1<T>", "Group2<T, U>",
          "Row<T, U, V, W, X, Y, Z, T7>"] ∧
      (ofRequests steps drawing).notes = [⟨none, "Square, Rhombus not found"⟩] ∧
      (∃ c, (ofRequests steps drawing).get? "Circle" = some c ∧
        c.members = [
          .method { name := "draw", arguments := "Canvas canvas, scale, int", visibility := .prot,
                    isAbstract := true },
          .field { name := "Name", type := "string", visibility := .internal },
          .method { name := "unit", returnType := "Circle", isStatic := true },
          .field { name := "count", type := "void", isStatic := true }] ∧
        c.parents.keys = ["Shape", "Drawable"] ∧
        ("Drawable", .implements) ∈ c.parents.entries ∧ ("Shape", .inherits) ∈ c.parents.entries) ∧
      (ofRequests steps drawing).get? "Square" = none := by
  obtain ⟨_, hnames, hclass, hnotes, _, hnone⟩ := ofRequests_exact steps drawing (by decide +kernel)
  obtain ⟨c, hget, hc⟩ := hclass (Adapter.found drawing)[0] (List.getElem_mem _)
  refine ⟨hnames.trans (by decide +kernel), hnotes.trans (by decide +kernel),
    ⟨c, hget, ?_, ?_, ?_, ?_⟩, (hnone "Square" (by decide +kernel)).1⟩
  · rw [MemberFilter.selects_iff.1 hc.members]
    decide +kernel
  · rw [hc.order]
    decide +kernel
  · rw [hc.parents]
    decide +kernel
  · rw [hc.parents]
    decide +kernel

end Model

end ClassDiagram
