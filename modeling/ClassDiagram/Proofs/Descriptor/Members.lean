import ClassDiagram.Descriptor.Adapter

/-! # The members of found types

Each kind of member has a floor of its own, and a member is kept if its visibility is one of those
that pass it.  A method stays a method and says nothing of a type of nothing; a field or a property
becomes a field.  The members that are kept stay in their order.

* `MemberFilter.keeps_iff`: which members are kept;
* `DescribedMember.becomes_iff`: what a member becomes;
* `MemberFilter.selects_iff`: what is left of a list of members.
-/

namespace ClassDiagram

/-! ## Floors -/

/-- The levels that pass a floor. -/
def Visibility.passing : Visibility → List Visibility
  | .pub => [.pub]
  | .internal => [.pub, .internal]
  | .prot => [.pub, .internal, .prot]
  | .priv => [.pub, .internal, .prot, .priv]

theorem Visibility.atLeast_iff {v floor : Visibility} :
    v.atLeast floor = true ↔ v ∈ floor.passing := by
  cases v <;> cases floor <;> decide

/-- A member passes the floor of its kind. -/
inductive MemberFilter.Admits (f : MemberFilter) (m : DescribedMember) : Prop
  | method : m.kind = .method → m.visibility ∈ f.methods.passing → Admits f m
  | field : m.kind = .field → m.visibility ∈ f.fields.passing → Admits f m
  | property : m.kind = .property → m.visibility ∈ f.properties.passing → Admits f m

theorem MemberFilter.keeps_iff {f : MemberFilter} {m : DescribedMember} :
    f.keeps m = true ↔ f.Admits m := by
  rw [keeps, Visibility.atLeast_iff]
  constructor
  · intro h
    cases hkind : m.kind with
    | method => exact .method hkind (by rwa [hkind] at h)
    | field => exact .field hkind (by rwa [hkind] at h)
    | property => exact .property hkind (by rwa [hkind] at h)
  · rintro (⟨hkind, h⟩ | ⟨hkind, h⟩ | ⟨hkind, h⟩)
    · rwa [hkind]
    · rwa [hkind]
    · rwa [hkind]

/-! ## Members of classes -/

namespace DescribedMember

/-- The method that a described one becomes.  A parameter is its type and its name with a blank
between them, or the one of the two that is there; a method that returns nothing has no return
type. -/
structure IsMethod (m : DescribedMember) (k : Method) : Prop where
  kind : m.kind = .method
  name : k.name = m.name
  arguments : k.arguments = ", ".intercalate (m.parameters.map fun p =>
    " ".intercalate ([p.type, p.name].filter (· ≠ "")))
  returnType : k.returnType =
    if m.type = "void" ∨ m.type = "Void" ∨ m.type = "System.Void" then "" else m.type
  visibility : k.visibility = m.visibility
  isStatic : k.isStatic = m.isStatic
  isAbstract : k.isAbstract = m.isAbstract

/-- The field that a described field or property becomes. -/
structure IsField (m : DescribedMember) (f : Field) : Prop where
  kind : m.kind = .field ∨ m.kind = .property
  name : f.name = m.name
  type : f.type = m.type
  visibility : f.visibility = m.visibility
  isStatic : f.isStatic = m.isStatic

inductive Becomes (m : DescribedMember) : Member → Prop
  | method {k : Method} : m.IsMethod k → Becomes m (.method k)
  | field {f : Field} : m.IsField f → Becomes m (.field f)

theorem parameterText_eq (p : Parameter) :
    parameterText p = " ".intercalate ([p.type, p.name].filter (· ≠ "")) := by
  rw [parameterText]
  by_cases htype : p.type = ""
  · by_cases hname : p.name = ""
    · simp [htype, hname]
    · simp [htype, hname]
  · by_cases hname : p.name = ""
    · simp [htype, hname]
    · simp [htype, hname, String.append_assoc]

theorem isMethod_toMember {m : DescribedMember} (h : m.kind = .method) :
    ∃ k, m.toMember = .method k ∧ m.IsMethod k := by
  rw [toMember, h]
  refine ⟨_, rfl, h, rfl, ?_, ?_, rfl, rfl, rfl⟩
  · simp only [← parameterText_eq]
  · simp only [returnType, voidNames, List.mem_cons, List.not_mem_nil, or_false]

theorem isField_toMember {m : DescribedMember} (h : m.kind = .field ∨ m.kind = .property) :
    ∃ f, m.toMember = .field f ∧ m.IsField f := by
  rw [toMember]
  rcases h with hkind | hkind
  · rw [hkind]
    exact ⟨_, rfl, .inl hkind, rfl, rfl, rfl, rfl⟩
  · rw [hkind]
    exact ⟨_, rfl, .inr hkind, rfl, rfl, rfl, rfl⟩

theorem IsMethod.unique {m : DescribedMember} {k k' : Method} (h : m.IsMethod k)
    (h' : m.IsMethod k') : k = k' := by
  rw [Method.mk.injEq]
  exact ⟨h.name.trans h'.name.symm, h.arguments.trans h'.arguments.symm,
    h.returnType.trans h'.returnType.symm, h.visibility.trans h'.visibility.symm,
    h.isStatic.trans h'.isStatic.symm, h.isAbstract.trans h'.isAbstract.symm⟩

theorem IsField.unique {m : DescribedMember} {f f' : Field} (h : m.IsField f)
    (h' : m.IsField f') : f = f' := by
  rw [Field.mk.injEq]
  exact ⟨h.name.trans h'.name.symm, h.type.trans h'.type.symm,
    h.visibility.trans h'.visibility.symm, h.isStatic.trans h'.isStatic.symm⟩

theorem becomes_iff {m : DescribedMember} {c : Member} : m.Becomes c ↔ c = m.toMember := by
  constructor
  · rintro (hk | hf)
    · obtain ⟨k', hmember, hk'⟩ := isMethod_toMember hk.kind
      rw [hmember, hk.unique hk']
    · obtain ⟨f', hmember, hf'⟩ := isField_toMember hf.kind
      rw [hmember, hf.unique hf']
  · rintro rfl
    cases hkind : m.kind with
    | method =>
      obtain ⟨k, hmember, hk⟩ := isMethod_toMember hkind
      exact hmember ▸ .method hk
    | field =>
      obtain ⟨f, hmember, hf⟩ := isField_toMember (.inl hkind)
      exact hmember ▸ .field hf
    | property =>
      obtain ⟨f, hmember, hf⟩ := isField_toMember (.inr hkind)
      exact hmember ▸ .field hf

end DescribedMember

/-! ## Lists of members -/

/-- Of some described members the admitted ones are left, in their order, as what they become. -/
inductive MemberFilter.Selects (f : MemberFilter) : List DescribedMember → List Member → Prop
  | nil : Selects f [] []
  | keep {m : DescribedMember} {c : Member} {ms : List DescribedMember} {cs : List Member} :
      f.Admits m → m.Becomes c → Selects f ms cs → Selects f (m :: ms) (c :: cs)
  | drop {m : DescribedMember} {ms : List DescribedMember} {cs : List Member} :
      ¬ f.Admits m → Selects f ms cs → Selects f (m :: ms) cs

theorem MemberFilter.selects_iff {f : MemberFilter} {ms : List DescribedMember}
    {cs : List Member} :
    f.Selects ms cs ↔ cs = (ms.filter f.keeps).map DescribedMember.toMember := by
  constructor
  · intro h
    induction h with
    | nil => rfl
    | keep hadmits hbecomes _ ih =>
      rw [List.filter_cons_of_pos (keeps_iff.2 hadmits), List.map_cons,
        DescribedMember.becomes_iff.1 hbecomes, ih]
    | drop hadmits _ ih => rw [List.filter_cons_of_neg (mt keeps_iff.1 hadmits), ih]
  · rintro rfl
    induction ms with
    | nil => exact .nil
    | cons m ms ih =>
      by_cases hkeeps : f.keeps m = true
      · rw [List.filter_cons_of_pos hkeeps, List.map_cons]
        exact .keep (keeps_iff.1 hkeeps) (DescribedMember.becomes_iff.2 rfl) ih
      · rw [List.filter_cons_of_neg hkeeps]
        exact .drop (mt keeps_iff.2 hkeeps) ih

/-- The members of a type that are visible enough, as members of a class. -/
def Descriptor.keptMembers (filter : MemberFilter) (d : Descriptor) : List Member :=
  (d.members.filter filter.keeps).map DescribedMember.toMember

theorem Descriptor.selects_keptMembers (filter : MemberFilter) (d : Descriptor) :
    filter.Selects d.members (d.keptMembers filter) :=
  MemberFilter.selects_iff.2 rfl

end ClassDiagram
