import ClassDiagram.Proofs.Descriptor.Classes
import ClassDiagram.Proofs.Layout.RoundTrip

/-! # Diagrams of found types can be read

A found type is shown by a word, or by a word with a list of words between angle brackets, so its
name is one that a diagram can hold.  Where its members are written as a diagram writes them, and
the names in the note have no quotation mark and no line feed, nothing of the model is lost in its
diagram.

* `IsWord.append_digits`: a word goes on with digits;
* `Adapter.canonical_className`: the names that found types are shown by are type names;
* `Model.forall_classes_ofRequests`: what holds of the classes that a model is built from holds of
  its classes;
* `Model.canonical_ofRequests`: the model of requests that can be written is canonical;
* `Catalog.ofText_diagram`: its diagram is read as this model again.
-/

namespace ClassDiagram

/-! ## Words with digits -/

theorem isWordChar_of_isDigit {c : Char} (h : c.isDigit = true) : isWordChar c = true := by
  have hc : Text.isAlphanumeric c = true :=
    Text.isAlphanumeric_of_isAlphanum (by simp [Char.isAlphanum, h])
  rw [isWordChar, hc, Bool.true_or]

/-- No keyword ends with a digit. -/
theorem wordToken_of_digit {w : List Char} {c : Char} (hw : w.getLast? = some c)
    (hc : c.isDigit = true) : wordToken w = .word := by
  have hne : ∀ k : List Char, (k.getLast?.all fun d => !d.isDigit) = true → w ≠ k := by
    rintro k hk rfl
    rw [hw, Option.all_some, hc] at hk
    cases hk
  rw [wordToken, if_neg (hne _ (by decide)), if_neg (hne _ (by decide)),
    if_neg (hne _ (by decide)), if_neg (hne _ (by decide))]

/-- A word with digits behind it is a word. -/
theorem IsWord.append_digits {w ds : String} (h : IsWord w) (hne : ds.toList ≠ [])
    (hds : ∀ c ∈ ds.toList, c.isDigit = true) : IsWord (w ++ ds) := by
  obtain ⟨hw, hlength, _⟩ := h.spec
  rw [isWord_iff, String.toList_append]
  refine ⟨List.append_ne_nil_of_left_ne_nil hw _, ?_, ?_⟩
  · have hall : ds.toList.all isWordChar = true :=
      List.all_eq_true.2 fun d hd => isWordChar_of_isDigit (hds d hd)
    rw [wordLength_append_of_full hw hlength, wordTailLength_of_all hall, List.length_append]
  · have hlast := List.getLast?_eq_some_getLast hne
    refine wordToken_of_digit ?_ (hds _ (List.getLast_mem hne))
    rw [List.getLast?_append, hlast]
    rfl

theorem IsWord.append_toString {w : String} (h : IsWord w) (n : Nat) :
    IsWord (w ++ toString n) :=
  h.append_digits (Request.toList_toString_ne_nil n) fun _ => Request.isDigit_of_mem_toString

/-! ## Names of types -/

namespace TypeRef

theorem isWord_parameterName (i : Nat) : IsWord (parameterName i) := by
  have hletters : ∀ letter ∈ parameterLetters, IsWord letter := by decide
  rw [parameterName]
  cases h : parameterLetters[i]? with
  | some letter => exact hletters letter (List.mem_of_getElem? h)
  | none => exact IsWord.append_toString (w := "T") (by decide) i

/-- A reference to a type whose name is a word is shown by a type name. -/
theorem canonical_displayName {r : TypeRef} (h : IsWord r.name) (shared : Bool) :
    CanonicalType (r.displayName shared) := by
  rw [displayName]
  by_cases harity : r.arity = 0
  · rw [if_pos harity]
    exact .word h
  · rw [if_neg harity]
    have hname : IsWord (r.name ++ if shared then toString r.arity else "") := by
      cases shared with
      | false => exact (String.append_empty (s := r.name)).symm ▸ h
      | true => exact h.append_toString r.arity
    have hne : (List.range r.arity).map parameterName ≠ [] := by simpa using harity
    have hparameters : ∀ n ∈ (List.range r.arity).map parameterName, CanonicalType n := by
      intro n hn
      obtain ⟨i, _, rfl⟩ := List.mem_map.1 hn
      exact .word (isWord_parameterName i)
    have htype := @CanonicalType.angle _ _ [] hname hne hparameters (List.forall_mem_nil _)
    rw [String.join_nil, String.append_empty] at htype
    simpa only [String.append_assoc] using htype

end TypeRef

/-! ## What can be written -/

/-- A member that is written as a diagram writes it: a method that returns nothing may name the
type of nothing. -/
structure DescribedMember.Writable (m : DescribedMember) : Prop where
  name : CanonicalName m.name
  type : m.type = "" ∨ m.kind = .method ∧ m.type ∈ voidNames ∨ CanonicalType m.type
  parameters : m.kind = .method → ∀ p ∈ m.parameters, CanonicalArgument (parameterText p)

/-- A type whose name and kept members can be written. -/
structure Descriptor.Writable (filter : MemberFilter) (d : Descriptor) : Prop where
  name : IsWord d.name
  members : ∀ m ∈ d.members, filter.keeps m = true → m.Writable

/-- Requests that found what can be written, and whose other names fit between quotation marks. -/
structure Adapter.Writable (filter : MemberFilter) (requests : List (String × Option Descriptor)) :
    Prop where
  found : ∀ d ∈ Adapter.found requests, d.Writable filter
  unresolved : ∀ name ∈ Adapter.unresolved requests, Quotable name.toList

theorem DescribedMember.Writable.canonical {m : DescribedMember} (h : m.Writable) :
    CanonicalMember m.toMember := by
  rw [toMember]
  cases hkind : m.kind with
  | method =>
    refine CanonicalMethod.mk h.name ⟨_, ?_, rfl⟩ ?_
    · intro a ha
      obtain ⟨p, hp, rfl⟩ := List.mem_map.1 ha
      exact h.parameters hkind p hp
    · show m.returnType = "" ∨ CanonicalType m.returnType
      rw [returnType]
      by_cases hvoid : m.type ∈ voidNames
      · exact .inl (if_pos hvoid)
      · rw [if_neg hvoid]
        rcases h.type with hempty | ⟨_, hmem⟩ | htype
        · exact .inl hempty
        · exact absurd hmem hvoid
        · exact .inr htype
  | field | property =>
    refine CanonicalField.mk h.name ?_
    rcases h.type with hempty | ⟨hmethod, _⟩ | htype
    · exact .inl hempty
    · rw [hkind] at hmethod
      cases hmethod
    · exact .inr htype

namespace Adapter

variable {filter : MemberFilter} {found : List Descriptor} {d : Descriptor}

theorem canonical_className (h : IsWord d.name) : CanonicalType (className found d) :=
  TypeRef.canonical_displayName h _

end Adapter

/-! ## Classes that a model is built from -/

namespace Model

/-- What holds of a class that is put in, and what a change keeps, holds of all classes. -/
theorem forall_alter {P : Class → Prop} {m : Model} (h : ∀ k c, m.get? k = some c → P c)
    {name : String} {fresh : Class} {change : Class → Class} (hfresh : P fresh)
    (hchange : ∀ c, P c → P (change c)) :
    ∀ k c, (m.classes.alter name fresh change).get? k = some c → P c := by
  intro k c hc
  rw [OrderedMap.get?_alter] at hc
  by_cases hk : k = name
  · rw [if_pos hk] at hc
    cases hc
    cases hget : m.classes.get? name with
    | none => exact hfresh
    | some d => exact hchange d (h name d hget)
  · rw [if_neg hk] at hc
    exact h k c hc

variable {filter : MemberFilter} {requests : List (String × Option Descriptor)}

/-- What holds of the classes of found types and of the empty classes of their names, and is kept
where classes are merged and get parents, holds of all classes in the model of requests. -/
theorem forall_classes_ofRequests {P : Class → Prop}
    (hclass : ∀ d ∈ Adapter.found requests, P (Adapter.classOf filter (Adapter.found requests) d))
    (hnamed : ∀ d ∈ Adapter.found requests,
      P (Class.named (Adapter.className (Adapter.found requests) d)))
    (hmerge : ∀ c other, P c → P other → P (c.merge other))
    (hparent : ∀ c, P c → ∀ d ∈ Adapter.found requests, ∀ kind,
      P (c.addParent (Adapter.className (Adapter.found requests) d) kind)) :
    ∀ k c, (ofRequests filter requests).get? k = some c → P c := by
  have hfound : ∀ c ∈ (Adapter.found requests).map
      (Adapter.classOf filter (Adapter.found requests)), P c := by
    intro c hc
    obtain ⟨d, hd, rfl⟩ := List.mem_map.1 hc
    exact hclass d hd
  intro k c hc
  rw [ofRequests, get?_foldl_addNote] at hc
  revert k c
  refine List.foldlRecOn (motive := fun m : Model => ∀ k c, m.get? k = some c → P c) _ _
    (List.foldlRecOn (motive := fun m : Model => ∀ k c, m.get? k = some c → P c) _ _ ?_ ?_) ?_
  · rintro k c ⟨⟩
  · intro m hm c hc
    exact forall_alter hm (hfound c hc) fun d hd => hmerge d c hd (hfound c hc)
  · intro m hm e he
    obtain ⟨hchild, hup⟩ := Adapter.ends_of_mem_edges he
    obtain ⟨d, hd, hchild⟩ := List.mem_map.1 hchild
    obtain ⟨p, hp, hup⟩ := List.mem_map.1 hup
    have hensure : ∀ k c, (m.ensureClass e.parent).get? k = some c → P c :=
      forall_alter hm (hup ▸ hnamed p hp) fun _ hc => hc
    refine forall_alter hensure ?_ ?_
    · rw [← hchild, ← hup]
      exact hparent _ (hnamed d hd) p hp e.kind
    · intro c hc
      rw [← hup]
      exact hparent c hc p hp e.kind

theorem wellFormed_ofRequests : (ofRequests filter requests).WellFormed := by
  have hclass : ∀ c ∈ (Adapter.found requests).map
      (Adapter.classOf filter (Adapter.found requests)), c.WellFormed := by
    intro c hc
    obtain ⟨d, _, rfl⟩ := List.mem_map.1 hc
    exact ⟨.nil, .nil⟩
  refine List.foldlRecOn _ _ (List.foldlRecOn _ _ (List.foldlRecOn _ _ wellFormed_empty ?_) ?_) ?_
  · exact fun m hm c hc => hm.addClass (hclass c hc)
  · exact fun m hm e _ => hm.addEdge e
  · exact fun m hm n _ => hm.addNote n

end Model

/-! ## Canonical models -/

namespace Adapter

/-- A class without tags that can be written, all of whose parents are shown as found types are. -/
structure Drawable (found : List Descriptor) (c : Class) : Prop where
  name : CanonicalType c.name
  tags : c.tags.items = []
  members : ∀ m ∈ c.members, CanonicalMember m
  parents : ∀ p ∈ c.parents.keys, p ∈ found.map (className found)

namespace Drawable

variable {found : List Descriptor} {d : Descriptor} {c other : Class}

theorem classOf {filter : MemberFilter} (h : d.Writable filter) :
    Drawable found (classOf filter found d) := by
  refine ⟨canonical_className h.name, rfl, ?_, nofun⟩
  intro m hm
  obtain ⟨described, hdescribed, rfl⟩ := List.mem_map.1 hm
  obtain ⟨hmem, hkept⟩ := List.mem_filter.1 hdescribed
  exact (h.members described hmem hkept).canonical

theorem named (h : IsWord d.name) : Drawable found (Class.named (className found d)) :=
  ⟨canonical_className h, rfl, nofun, nofun⟩

theorem merge (h : Drawable found c) (hother : Drawable found other) :
    Drawable found (c.merge other) := by
  refine ⟨h.name, ?_, ?_, ?_⟩
  · rw [Class.merge, hother.tags]
    exact h.tags
  · intro m hm
    exact (List.mem_append.1 hm).elim (h.members m) (hother.members m)
  · intro p hp
    rw [Class.merge, OrderedMap.keys_extend, OrderedSet.mem_insertAll] at hp
    exact hp.elim (h.parents p) (hother.parents p)

theorem addParent (h : Drawable found c) (hd : d ∈ found) (kind : RelationKind) :
    Drawable found (c.addParent (className found d) kind) := by
  refine ⟨h.name, h.tags, h.members, ?_⟩
  intro p hp
  rw [Class.addParent, OrderedMap.keys_insert] at hp
  by_cases hmem : className found d ∈ c.parents.keys
  · rw [if_pos hmem] at hp
    exact h.parents p hp
  · rw [if_neg hmem, List.mem_append, List.mem_singleton] at hp
    rcases hp with hp | rfl
    · exact h.parents p hp
    · exact List.mem_map_of_mem hd

end Drawable

end Adapter

/-- A text put together from texts that fit between quotation marks fits there too. -/
theorem quotable_intercalate {separator : String} {xs : List String}
    (hseparator : Quotable separator.toList) (h : ∀ x ∈ xs, Quotable x.toList) :
    Quotable (separator.intercalate xs).toList := by
  induction xs with
  | nil => exact nofun
  | cons x xs ih =>
    obtain ⟨hx, hxs⟩ := List.forall_mem_cons.1 h
    cases xs with
    | nil => exact hx
    | cons y ys =>
      rw [String.intercalate_cons_cons, String.toList_append, String.toList_append]
      intro c hc
      rcases List.mem_append.1 hc with hc | hc
      · exact (List.mem_append.1 hc).elim (hx c) (hseparator c)
      · exact ih hxs c hc

namespace Model

variable {filter : MemberFilter} {requests : List (String × Option Descriptor)}

theorem drawable_ofRequests (h : ∀ d ∈ Adapter.found requests, d.Writable filter) :
    ∀ k c, (ofRequests filter requests).get? k = some c →
      Adapter.Drawable (Adapter.found requests) c :=
  forall_classes_ofRequests (fun d hd => .classOf (h d hd)) (fun d hd => .named (h d hd).name)
    (fun _ _ hc hother => hc.merge hother) fun _ hc _ hd kind => hc.addParent hd kind

/-- The model of requests that can be written is canonical. -/
theorem canonical_ofRequests (h : Adapter.Writable filter requests) :
    CanonicalModel (ofRequests filter requests) := by
  constructor
  · intro c hc
    have hdrawable := drawable_ofRequests h.found _ c (wellFormed_ofRequests.mem_values_iff.1 hc)
    refine ⟨hdrawable.name, ?_, hdrawable.members, ?_⟩
    · rw [hdrawable.tags]
      exact List.forall_mem_nil _
    · intro p hp
      obtain ⟨d, hd, rfl⟩ := List.mem_map.1 (hdrawable.parents p hp)
      exact Adapter.canonical_className (h.found d hd).name
  · intro n hn
    rw [notes_ofRequests, Adapter.notes] at hn
    split at hn
    · cases hn
    · rw [List.mem_singleton.1 hn]
      refine ⟨by rintro _ ⟨⟩, ?_⟩
      have hnames : Quotable (", ".intercalate (Adapter.unresolved requests)).toList :=
        quotable_intercalate (by simp [Quotable]) h.unresolved
      have hend : Quotable " not found".toList := by simp [Quotable]
      intro c hc
      rw [String.toList_append] at hc
      exact (List.mem_append.1 hc).elim (hnames c) (hend c)

/-- Parents of classes in the model of requests are classes of it, and the note is about none. -/
theorem mentioned_ofRequests (h : ∀ d ∈ Adapter.found requests, d.Writable filter) :
    ∀ k ∈ (ofRequests filter requests).mentioned, k ∈ (ofRequests filter requests).names := by
  intro k hk
  rcases List.mem_append.1 hk with hk | hk
  · obtain ⟨c, hc, hk⟩ := List.mem_flatMap.1 hk
    have hdrawable := drawable_ofRequests h _ c (wellFormed_ofRequests.mem_values_iff.1 hc)
    rw [names_ofRequests, OrderedSet.mem_ofList]
    exact hdrawable.parents k hk
  · obtain ⟨n, hn, hk⟩ := List.mem_flatMap.1 hk
    rw [notes_ofRequests, Adapter.notes] at hn
    split at hn
    · cases hn
    · rw [List.mem_singleton.1 hn] at hk
      cases hk

end Model

/-- The diagram of types and names that can be written is read, as a model with the classes and
notes of the one that it shows. -/
theorem Catalog.ofText_diagram (c : Catalog) (filter : MemberFilter) (names : List String)
    (h : Adapter.Writable filter (c.resolve (Request.normalize names))) :
    ∃ m, Model.ofText (c.diagram filter names) = .ok m ∧
      m.sameContent (c.model filter names) = true ∧
      m.classes.entries.Perm (c.model filter names).classes.entries ∧
      m.notes = (c.model filter names).notes := by
  have hcomplete : (c.model filter names).completed = c.model filter names :=
    Model.wellFormed_ofRequests.completed_eq (Model.mentioned_ofRequests h.found)
  obtain ⟨m, hm, hperm, hnotes, hsame⟩ :=
    ofText_layout_completed Model.wellFormed_ofRequests (Model.canonical_ofRequests h)
  refine ⟨m, hm, ?_, ?_, ?_⟩
  · rwa [← hcomplete]
  · rwa [← hcomplete]
  · rwa [← hcomplete]

/-- A type in three arities, the first of which has the others as parents. -/
def stackTypes : List Descriptor :=
  [{ name := "Stack"
     arity := 1
     base := some ⟨"Stack", 9⟩
     interfaces := [⟨"Stack", 2⟩]
     members := [
       { kind := .method
         name := "push"
         type := "void"
         parameters := [⟨"item", "ref T"⟩, ⟨"class", "int"⟩] },
       { kind := .field, name := "a size", type := "int[", visibility := .priv }] },
    { name := "Stack", arity := 9 },
    { name := "Stack", arity := 2, isAbstract := true }]

def stackCatalog : Catalog := ⟨.ofList (stackTypes.map fun d => (d.fullName, d))⟩

def stackNames : List String := [" Stack<A> ", "Stack`9", "Heap", "Stack<A, B>"]

theorem ofText_diagram_stacks :
    ∃ m, Model.ofText (stackCatalog.diagram {} stackNames) = .ok m ∧
      m.sameContent (stackCatalog.model {} stackNames) = true ∧
      (stackCatalog.model {} stackNames).names
        = ["Stack1<T>", "Stack9<T, U, V, W, X, Y, Z, T7, T8>", "Stack2<T, U>"] := by
  have hfound :
      Adapter.found (stackCatalog.resolve (Request.normalize stackNames)) = stackTypes := by
    decide +kernel
  have hunresolved : Adapter.unresolved (stackCatalog.resolve (Request.normalize stackNames))
      = ["Heap"] := by
    decide +kernel
  have hpush : DescribedMember.Writable
      { kind := .method, name := "push", type := "void"
        parameters := [⟨"item", "ref T"⟩, ⟨"class", "int"⟩] } := by
    refine ⟨.inl (by decide), .inr (.inl ⟨rfl, by decide⟩), fun _ => ?_⟩
    simp only [List.mem_cons, List.not_mem_nil, or_false, forall_eq_or_imp, forall_eq]
    refine ⟨⟨["ref", "T", "item"], by simp, ?_, by decide⟩,
      ⟨["int", "class"], by simp, ?_, by decide⟩⟩
    · simp only [List.mem_cons, List.not_mem_nil, or_false, forall_eq_or_imp, forall_eq]
      exact ⟨.inl (.word (by decide)), .inl (.word (by decide)), .inl (.word (by decide))⟩
    · simp only [List.mem_cons, List.not_mem_nil, or_false, forall_eq_or_imp, forall_eq]
      exact ⟨.inl (.word (by decide)), .inr (by simp [Keyword])⟩
  have hwritable : ∀ d ∈ stackTypes, d.Writable {} := by
    simp only [stackTypes, List.mem_cons, List.not_mem_nil, or_false, forall_eq_or_imp, forall_eq]
    refine ⟨⟨by decide, ?_⟩, ⟨by decide, List.forall_mem_nil _⟩, ⟨by decide, List.forall_mem_nil _⟩⟩
    simp only [List.mem_cons, List.not_mem_nil, or_false, forall_eq_or_imp, forall_eq]
    exact ⟨fun _ => hpush, by rintro ⟨⟩⟩
  obtain ⟨m, hm, hsame, _⟩ := Catalog.ofText_diagram stackCatalog {} stackNames
    ⟨hfound ▸ hwritable, by simp [hunresolved, Quotable]⟩
  exact ⟨m, hm, hsame, by decide +kernel⟩

end ClassDiagram
