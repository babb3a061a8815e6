import ClassDiagram.Proofs.Layout.RoundTrip

/-! # Repeated formatting settles

The layout writes the edges of a class into its block, so a parent comes up right behind its first
child when the layout is read.  This may move classes, and then the next layout is another text.
Each round leaves the first class in its place, and each further round leaves one more: what comes
behind the classes that stay does not depend on the others.

* `Layout.round`: the names in the order in which the next layout holds them;
* `Layout.Settled.round`: each round settles one more name;
* `ofText_layout_round`: formatting is such a round, and changes no class;
* `reformat_twice`: formatting again moves classes and does nothing else;
* `reformat_settles`: after as many rounds as there are classes the layout stays as it is.
-/

namespace ClassDiagram

/-! ## Rounds -/

namespace Layout

section

variable (parents : String → List String)

/-- Names with their parents behind each of them, where they first come up. -/
def round (names : List String) : List String :=
  (names.flatMap fun name => name :: parents name).eraseDups

/-- The next round leaves the first `j` names in their places. -/
def Settled (j : Nat) (names : List String) : Prop :=
  (round parents names).take j = names.take j

end

variable {parents : String → List String}

theorem mem_round {names : List String} {x : String} :
    x ∈ round parents names ↔ ∃ name ∈ names, x = name ∨ x ∈ parents name := by
  rw [round, List.mem_eraseDups, List.mem_flatMap]
  simp only [List.mem_cons]

theorem nodup_round (names : List String) : (round parents names).Nodup := by
  rw [round, ← OrderedSet.items_ofList]
  exact OrderedSet.nodup_ofList _

/-- The names of some classes come up in front of those of the classes behind. -/
theorem round_append (parents : String → List String) (u v : List String) :
    round parents u <+: round parents (u ++ v) := by
  rw [round, round, List.flatMap_append, List.eraseDups_append]
  exact List.prefix_append _ _

/-- A new name stays behind names that stay. -/
theorem round_append_cons {u : List String} (hu : round parents u = u) {x : String} (hx : x ∉ u)
    (v : List String) : ∃ w, round parents (u ++ x :: v) = u ++ x :: w := by
  have hnew : x ∉ u.flatMap fun name => name :: parents name := by
    intro hmem
    rw [← List.mem_eraseDups] at hmem
    exact hx (hu ▸ hmem)
  rw [round] at hu
  rw [round, List.flatMap_append, List.eraseDups_append, hu, List.flatMap_cons, List.cons_append,
    List.removeAll, List.filter_cons_of_pos (by simpa using hnew), List.eraseDups_cons]
  exact ⟨_, rfl⟩

/-- The first name stays where it is. -/
theorem settled_one (names : List String) : Settled parents 1 names := by
  cases names with
  | nil => rfl
  | cons name names =>
    have hnone : round parents [] = [] := rfl
    obtain ⟨w, hw⟩ := round_append_cons hnone List.not_mem_nil names
    rw [List.nil_append, List.nil_append] at hw
    rw [Settled, hw]
    rfl

/-- Behind names that stay one more name stays. -/
theorem Settled.round_of_closed {u v : List String} (hu : Layout.round parents u = u)
    (hd : (u ++ v).Nodup) : Settled parents (u.length + 1) (Layout.round parents (u ++ v)) := by
  cases v with
  | nil => rw [List.append_nil, hu, Settled, hu]
  | cons x v =>
    have hx : x ∉ u := fun hmem => (List.nodup_append.1 hd).2.2 x hmem x List.mem_cons_self rfl
    obtain ⟨w, hw⟩ := round_append_cons hu hx v
    obtain ⟨w', hw'⟩ := round_append_cons hu hx w
    rw [hw, Settled, hw', List.take_length_add_append, List.take_length_add_append]
    rfl

/-- Names that are all behind some of their parents and themselves are those names. -/
theorem round_eq_of_prefix {u : List String} (hd : u.Nodup) (h : round parents u <+: u) :
    round parents u = u := by
  obtain ⟨w, hw⟩ := h
  have hnil : w = [] := by
    refine List.eq_nil_iff_forall_not_mem.2 fun x hx => ?_
    have hxu : x ∈ u := hw ▸ List.mem_append_right _ hx
    have hround : x ∈ round parents u := mem_round.2 ⟨x, hxu, .inl rfl⟩
    rw [← hw] at hd
    exact (List.nodup_append.1 hd).2.2 x hround x hx rfl
  rwa [hnil, List.append_nil] at hw

/-- Each round settles one more name. -/
theorem Settled.round {j : Nat} {names : List String} (hd : names.Nodup) (hj : j ≤ names.length)
    (h : Settled parents j names) : Settled parents (j + 1) (round parents names) := by
  obtain ⟨u, hu⟩ : ∃ u, names.take j = u := ⟨_, rfl⟩
  have hnames : u ++ names.drop j = names := hu ▸ List.take_append_drop j names
  have hround : u ++ (Layout.round parents names).drop j = Layout.round parents names := by
    rw [← hu, ← h]
    exact List.take_append_drop j _
  -- what the settled names and their parents come to is the same in both rounds
  obtain ⟨w, hw⟩ := hnames ▸ round_append parents u (names.drop j)
  obtain ⟨w', hw'⟩ := hround ▸ round_append parents u
    ((Layout.round parents names).drop j)
  by_cases hlong : j + 1 ≤ (Layout.round parents u).length
  · rw [Settled, ← hw', ← hw, List.take_append_of_le_length hlong,
      List.take_append_of_le_length hlong]
  · -- it is no more than these names, so the next one is new
    have hprefix := List.prefix_take_iff.2 ⟨⟨w, hw⟩, Nat.le_of_not_lt hlong⟩
    rw [h, hu] at hprefix
    have hclosed := round_eq_of_prefix (hd.sublist (hu ▸ List.take_sublist j names)) hprefix
    have hlength : u.length = j := by
      rw [← hu, List.length_take]
      exact Nat.min_eq_left hj
    rw [← hnames] at hd
    have hnext := round_of_closed hclosed hd
    rwa [hlength, hnames] at hnext

/-- Names that are all settled stay as they are. -/
theorem Settled.eq {names : List String} (hp : (Layout.round parents names).Perm names)
    {j : Nat} (hj : names.length ≤ j) (h : Settled parents j names) :
    Layout.round parents names = names := by
  rwa [Settled, List.take_of_length_le (hp.length_eq ▸ hj), List.take_of_length_le hj] at h

/-- Names that all come behind their parents stay as they are. -/
theorem round_eq_of_parents_first {names : List String} (hd : names.Nodup)
    (h : ∀ u x v, names = u ++ x :: v → ∀ p ∈ parents x, p = x ∨ p ∈ u) :
    round parents names = names := by
  have key : ∀ (names : List String) (s : OrderedSet String), (s.items ++ names).Nodup →
      (∀ u x v, names = u ++ x :: v → ∀ p ∈ parents x, p = x ∨ p ∈ s.items ++ u) →
      (s.insertAll (names.flatMap fun name => name :: parents name)).items
        = s.items ++ names := by
    intro names
    induction names with
    | nil => exact fun s _ _ => (List.append_nil s.items).symm
    | cons x names ih =>
      intro s hd h
      have hx : x ∉ s.items := fun hmem =>
        (List.nodup_append.1 hd).2.2 x hmem x List.mem_cons_self rfl
      have hinsert : (s.insert x).items = s.items ++ [x] := by simp [OrderedSet.insert, hx]
      have hparents : (s.insert x).insertAll (parents x) = s.insert x := by
        refine OrderedSet.insertAll_of_subset fun p hp => ?_
        rw [hinsert]
        have hfirst := h [] x names rfl p hp
        rw [List.append_nil] at hfirst
        exact hfirst.elim (fun h => by simp [h]) fun h => by simp [h]
      rw [List.flatMap_cons, OrderedSet.insertAll_append]
      show (((s.insert x).insertAll (parents x)).insertAll _).items = _
      rw [hparents, ih, hinsert, List.append_assoc, List.singleton_append]
      · rw [hinsert]
        simpa using hd
      · intro u y v hnames p hp
        have hlater := h (x :: u) y v (by rw [hnames]; rfl) p hp
        rw [hinsert]
        simpa using hlater
  have hround := key names OrderedSet.empty hd h
  rw [round, ← OrderedSet.items_ofList]
  exact hround

/-- Where all parents are names, a round only moves names. -/
theorem perm_round {names : List String} (hd : names.Nodup)
    (hclosed : ∀ name ∈ names, ∀ p ∈ parents name, p ∈ names) :
    (round parents names).Perm names := by
  rw [List.perm_ext_iff_of_nodup (nodup_round names) hd]
  intro x
  rw [mem_round]
  constructor
  · rintro ⟨name, hname, rfl | hx⟩
    · exact hname
    · exact hclosed name hname x hx
  · exact fun hx => ⟨x, hx, .inl rfl⟩

end Layout

/-! ## Rounds of formatting -/

namespace Model

def parentsOf (m : Model) (name : String) : List String :=
  ((m.get? name).map (·.parents.keys)).getD []

/-- The classes, each one in front of its parents, where they first come up. -/
def classWalk (m : Model) : List String :=
  (m.classes.values.flatMap fun c => c.name :: c.parents.keys).eraseDups

theorem parentsOf_congr {m m' : Model} (hget : ∀ name, m'.get? name = m.get? name) :
    m'.parentsOf = m.parentsOf := by
  funext name
  rw [parentsOf, parentsOf, hget]

namespace WellFormed

variable {m : Model}

/-- The walk past the classes is the next round of their names. -/
theorem classWalk_eq (h : m.WellFormed) : m.classWalk = Layout.round m.parentsOf m.names := by
  have hentry : ∀ e ∈ m.classes.entries,
      e.2.name :: e.2.parents.keys = e.1 :: m.parentsOf e.1 := by
    intro e he
    have hget : m.get? e.1 = some e.2 := (OrderedMap.mem_entries_iff h.distinct).1 he
    rw [h.named e.1 e.2 hget, parentsOf, hget]
    rfl
  rw [classWalk, Layout.round, OrderedMap.values, names, OrderedMap.keys, List.flatMap_map,
    List.flatMap_map, List.flatMap_def, List.map_congr_left hentry, List.flatMap_def]

theorem parents_mem_names (h : m.WellFormed) (hclosed : ∀ k ∈ m.mentioned, k ∈ m.names) :
    ∀ name ∈ m.names, ∀ p ∈ m.parentsOf name, p ∈ m.names := by
  intro name _ p hp
  rw [parentsOf] at hp
  cases hget : m.get? name with
  | none =>
    rw [hget] at hp
    cases hp
  | some c =>
    rw [hget] at hp
    have hc : c ∈ m.classes.values := h.mem_values_iff.2 (by rw [h.named name c hget, hget])
    exact hclosed p (List.mem_append_left _ (List.mem_flatMap.2 ⟨c, hc, hp⟩))

end WellFormed

end Model

/-- Where all that is mentioned are classes, the layout holds them in the order of the walk. -/
theorem Layout.names_declared_statements {m : Model} (h : m.WellFormed)
    (hclosed : ∀ k ∈ m.mentioned, k ∈ m.names) :
    (Model.declared (statements m)).names = m.classWalk := by
  have htargets : (m.notes.flatMap (·.target.toList)).removeAll
      (m.classes.values.flatMap fun c => c.name :: c.parents.keys) = [] := by
    refine List.filter_eq_nil_iff.2 fun k hk => ?_
    have hname := hclosed k (List.mem_append_right _ hk)
    have hwalk : k ∈ m.classWalk := by
      rw [h.classWalk_eq]
      exact mem_round.2 ⟨k, hname, .inl rfl⟩
    rw [List.elem_eq_true_of_mem (List.mem_eraseDups.1 hwalk)]
    exact Bool.false_ne_true
  rw [Model.names_declared, names_statements, OrderedSet.items_ofList, Model.walk,
    List.eraseDups_append, htargets]
  exact List.append_nil _

def Layout.declaredNames : Statement → List String
  | .declare d => [d.name]
  | .annotate _ _ | .member _ | .relate _ | .note _ => []

/-- The lines of a layout declare the classes in their order. -/
theorem Layout.declaredNames_statements {m : Model} (h : m.WellFormed) :
    (statements m).flatMap declaredNames = m.names := by
  have hparent : ∀ child edge, declaredNames (parentStatement child edge) = [] := by
    rintro child ⟨parent, kind⟩
    cases kind <;> rfl
  have hclass : ∀ c : Class, (classStatements c).flatMap declaredNames = [c.name] := by
    intro c
    rw [flatMap_classStatements]
    simp only [hparent]
    simp [declaredNames, Grammar.declarationOf]
  rw [flatMap_statements]
  simp only [hclass]
  rw [← h.map_name_values, List.map_eq_flatMap]
  simp [declaredNames]

/-- Formatting a text that was read changes no class and no note; the classes are moved by one
round. -/
theorem ofText_layout_round {text : String} {m : Model} (h : Model.ofText text = .ok m) :
    ∃ m', Model.ofText m.layout = .ok m' ∧ m'.names = m.classWalk ∧
      (∀ name, m'.get? name = m.get? name) ∧ m'.notes = m.notes := by
  obtain ⟨hwell, hcanonical, hclosed⟩ := canonical_of_ofText h
  have hget := hwell.get?_declared
  rw [hwell.completed_eq hclosed] at hget
  exact ⟨_, ofText_layout hcanonical, Layout.names_declared_statements hwell hclosed, hget,
    Layout.notes_statements m⟩

theorem reformat_of_ofText {text : String} {m : Model} (h : Model.ofText text = .ok m) :
    Document.reformat text = .ok m.layout := by
  rw [Document.reformat, h]
  rfl

/-- A text that formatting leaves as it is is one whose classes stay in their places. -/
theorem reformat_layout_iff {text : String} {m : Model} (h : Model.ofText text = .ok m) :
    Document.reformat m.layout = .ok m.layout ↔ m.classWalk = m.names := by
  obtain ⟨m', hm', hnames, hget, hnotes⟩ := ofText_layout_round h
  obtain ⟨_, hcanonical, _⟩ := canonical_of_ofText h
  obtain ⟨hwell', hcanonical', _⟩ := canonical_of_ofText hm'
  rw [reformat_of_ofText hm']
  constructor
  · intro hlayout
    have hlayout := Except.ok.inj hlayout
    -- the same text has the same statements, and these declare the classes in order
    have hstatements := statementsOfText_layout hcanonical'
    rw [hlayout, statementsOfText_layout hcanonical] at hstatements
    have hdeclared := congrArg (List.flatMap Layout.declaredNames) (Except.ok.inj hstatements)
    rw [Layout.declaredNames_statements (canonical_of_ofText h).1,
      Layout.declaredNames_statements hwell'] at hdeclared
    rw [← hnames, ← hdeclared]
  · intro hwalk
    rw [Model.ext_names hwell'.distinct (hnames.trans hwalk) hget hnotes]

/-! ## Formatting again -/

/-- Every parent of a class comes up before the class. -/
def Model.ParentsFirst (m : Model) : Prop :=
  ∀ u c v, m.classes.values = u ++ c :: v → ∀ p ∈ c.parents.keys, p = c.name ∨ p ∈ u.map Class.name

/-- Where parents come first, the walk comes past the classes in their order. -/
theorem Model.ParentsFirst.classWalk {m : Model} (hwell : m.WellFormed) (h : m.ParentsFirst) :
    m.classWalk = m.names := by
  rw [hwell.classWalk_eq]
  refine Layout.round_eq_of_parents_first hwell.distinct fun u x v hnames p hp => ?_
  rw [← hwell.map_name_values] at hnames
  obtain ⟨cs, cs', hvalues, rfl, hrest⟩ := List.map_eq_append_iff.1 hnames
  obtain ⟨c, cs'', rfl, rfl, _⟩ := List.map_eq_cons_iff.1 hrest
  have hc : c ∈ m.classes.values := by simp [hvalues]
  rw [parentsOf, hwell.mem_values_iff.1 hc] at hp
  exact h cs c cs'' hvalues p hp

/-- Formatting again keeps all classes and notes but may move the classes; it moves none where
parents come first. -/
theorem reformat_twice {text : String} {m : Model} (h : Model.ofText text = .ok m) :
    Document.reformat text = .ok m.layout ∧
      ∃ m' : Model, Document.reformat m.layout = .ok m'.layout ∧
        m'.classes.entries.Perm m.classes.entries ∧ m'.notes = m.notes ∧
        (m.ParentsFirst → m'.layout = m.layout) := by
  obtain ⟨hwell, _, _⟩ := canonical_of_ofText h
  obtain ⟨m', hm', hnames, hget, hnotes⟩ := ofText_layout_round h
  obtain ⟨hwell', _, _⟩ := canonical_of_ofText hm'
  refine ⟨reformat_of_ofText h, m', reformat_of_ofText hm', ?_, hnotes, ?_⟩
  · exact OrderedMap.perm_of_get? hwell'.distinct hwell.distinct hget
  · intro hfirst
    rw [Model.ext_names hwell'.distinct (hnames.trans (hfirst.classWalk hwell)) hget hnotes]

/-- A parent that comes up behind another class. -/
def lateParent : String := "classDiagram\nclass A\nclass B\nC <|-- A"

def lateParentModel : Model :=
  { classes := ⟨[
      ("A", { name := "A", parents := ⟨[("C", .inherits)]⟩ }),
      ("B", { name := "B" }),
      ("C", { name := "C" })]⟩
    notes := [] }

theorem ofText_lateParent : Model.ofText lateParent = .ok lateParentModel :=
  ok_of_toOption (by decide +kernel)

/-- The second formatting brings the parent to the front of the other class. -/
theorem reformat_twice_lateParent :
    Model.ofText lateParent = .ok lateParentModel ∧
      ∃ m' : Model, Document.reformat lateParentModel.layout = .ok m'.layout ∧
        m'.classes.entries.Perm lateParentModel.classes.entries := by
  obtain ⟨_, m', hm', hperm, _⟩ := reformat_twice ofText_lateParent
  exact ⟨ofText_lateParent, m', hm', hperm⟩

/-- Formatting is not idempotent. -/
theorem reformat_not_idempotent :
    ¬ ∀ text once, Document.reformat text = .ok once → Document.reformat once = .ok once := by
  intro h
  have hagain := h _ _ (reformat_of_ofText ofText_lateParent)
  have hmoved : (Document.reformat lateParentModel.layout).toOption
      ≠ some lateParentModel.layout := by decide +kernel
  rw [hagain] at hmoved
  exact hmoved rfl

/-! ## Formatting over and over -/

def Document.reformatTimes : Nat → String → Except Error String
  | 0, text => .ok text
  | n + 1, text => (reformatTimes n text).bind reformat

/-- After one formatting and `k` rounds more, `k + 1` classes have come to their places. -/
theorem reformatTimes_settled {text : String} {m : Model} (h : Model.ofText text = .ok m) {k : Nat}
    (hk : k + 1 ≤ max 1 m.classCount) :
    ∃ source m', Model.ofText source = .ok m' ∧
      Document.reformatTimes (k + 1) text = .ok m'.layout ∧
      (∀ name, m'.get? name = m.get? name) ∧ m'.names.length = m.classCount ∧
      Layout.Settled m.parentsOf (k + 1) m'.names := by
  induction k with
  | zero =>
    have hlength : m.names.length = m.classCount := List.length_map _
    exact ⟨text, m, h, reformat_of_ofText h, fun _ => rfl, hlength, Layout.settled_one m.names⟩
  | succ k ih =>
    obtain ⟨source, m', hm', htimes, hget, hlength, hsettled⟩ := ih (by omega)
    obtain ⟨m'', hm'', hnames, hget', _⟩ := ofText_layout_round hm'
    obtain ⟨hwell', _, hclosed'⟩ := canonical_of_ofText hm'
    have hround : m''.names = Layout.round m.parentsOf m'.names := by
      rw [hnames, hwell'.classWalk_eq, Model.parentsOf_congr hget]
    have hperm := Layout.perm_round hwell'.distinct (hwell'.parents_mem_names hclosed')
    rw [Model.parentsOf_congr hget, ← hround] at hperm
    refine ⟨_, m'', hm'', ?_, fun name => (hget' name).trans (hget name),
      hperm.length_eq.trans hlength, ?_⟩
    · rw [Document.reformatTimes, htimes]
      exact reformat_of_ofText hm''
    · rw [hround]
      exact hsettled.round hwell'.distinct (by omega)

theorem reformatTimes_of_fixed {text : String} (h : Document.reformat text = .ok text) (k : Nat) :
    Document.reformatTimes k text = .ok text := by
  induction k with
  | zero => rfl
  | succ k ih =>
    rw [Document.reformatTimes, ih]
    exact h

/-- Reading the layout gives the classes in the order of the walk, so the layout stays where this
is their order.  Formatting as many times as there are classes, and at least once, gives a layout
that stays. -/
theorem reformat_settles {text : String} {m : Model} (h : Model.ofText text = .ok m) :
    (∃ m', Model.ofText m.layout = .ok m' ∧ m'.names = m.classWalk) ∧
      (Document.reformat m.layout = .ok m.layout ↔ m.classWalk = m.names) ∧
      ∃ settled, Document.reformatTimes (max 1 m.classCount) text = .ok settled ∧
        ∀ k, Document.reformatTimes k settled = .ok settled := by
  obtain ⟨m', hm', hnames, _, _⟩ := ofText_layout_round h
  refine ⟨⟨m', hm', hnames⟩, reformat_layout_iff h, ?_⟩
  obtain ⟨k, hk⟩ : ∃ k, max 1 m.classCount = k + 1 :=
    Nat.exists_eq_add_of_le' (Nat.le_max_left 1 m.classCount)
  obtain ⟨source, last, hlast, htimes, hget, hlength, hsettled⟩ :=
    reformatTimes_settled h (Nat.le_of_eq hk.symm)
  obtain ⟨hwell, _, hclosed⟩ := canonical_of_ofText hlast
  have hperm := Layout.perm_round hwell.distinct (hwell.parents_mem_names hclosed)
  rw [← Model.parentsOf_congr hget] at hsettled
  have hwalk : last.classWalk = last.names := by
    rw [hwell.classWalk_eq]
    exact hsettled.eq hperm (by omega)
  refine ⟨last.layout, by rw [hk, htimes], reformatTimes_of_fixed ?_⟩
  exact (reformat_layout_iff hlast).2 hwalk

/-- Each class is the parent of the one before it, but for the second one. -/
def ladder : String :=
  "classDiagram\nclass A\nclass B\nC <|-- A\nD <|-- C\nE <|-- D"

def ladderModel : Model :=
  { classes := ⟨[
      ("A", { name := "A", parents := ⟨[("C", .inherits)]⟩ }),
      ("B", { name := "B" }),
      ("C", { name := "C", parents := ⟨[("D", .inherits)]⟩ }),
      ("D", { name := "D", parents := ⟨[("E", .inherits)]⟩ }),
      ("E", { name := "E" })]⟩
    notes := [] }

theorem ofText_ladder : Model.ofText ladder = .ok ladderModel :=
  ok_of_toOption (by decide +kernel)

/-- The second class moves down one place in each round. -/
theorem reformat_settles_ladder :
    ladderModel.classWalk = ["A", "C", "B", "D", "E"] ∧
      (∃ m', Model.ofText ladderModel.layout = .ok m' ∧ m'.names = ladderModel.classWalk) ∧
      ∃ settled, Document.reformatTimes 5 ladder = .ok settled ∧
        ∀ k, Document.reformatTimes k settled = .ok settled := by
  obtain ⟨hround, _, hsettled⟩ := reformat_settles ofText_ladder
  exact ⟨by decide, hround, hsettled⟩

end ClassDiagram
