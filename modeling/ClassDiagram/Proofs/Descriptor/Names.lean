import Mathlib.Data.List.Nodup
import Mathlib.Data.List.Perm.Subperm
import ClassDiagram.Proofs.Descriptor.Found
import ClassDiagram.Proofs.Descriptor.Requests
import ClassDiagram.Proofs.Token.Words

/-! # The names that found types are shown by

A type with parameters is shown with a list of them, whose length tells the arity.  Before it
stands the bare name, and behind that the arity if other found types share the bare name.  So
there is just one way for two types to be shown alike: one is shown with its arity, and the other
one's bare name is what that comes to.

* `TypeRef.displayName_eq_iff`: when two references are shown alike;
* `Adapter.className_eq_nameAmong`: when the arity is part of a name;
* `Adapter.className_eq_iff`: when two found types are shown alike;
* `Model.names_ofRequests`: the classes have the names that the found types are shown by;
* `Model.classes_ofRequests`: when they are one for each found type.
-/

namespace ClassDiagram

/-! ## Names of references -/

theorem mem_of_wordTailLength {u : List Char} (hu : wordTailLength u = u.length) :
    ∀ c ∈ u, isWordChar c = true ∨ c = '.' := by
  induction u with
  | nil => exact nofun
  | cons c u ih =>
    rw [wordTailLength] at hu
    by_cases hc : continuesWord c u = true
    · rw [if_pos hc, List.length_cons, Nat.succ_inj] at hu
      refine List.forall_mem_cons.2 ⟨?_, ih hu⟩
      simp only [continuesWord, Bool.or_eq_true, Bool.and_eq_true, beq_iff_eq] at hc
      exact hc.imp id And.left
    · rw [if_neg hc] at hu
      cases hu

/-- A word has only letters, digits and points in it, and the signs that stand for letters. -/
theorem IsWord.not_mem {w : String} (h : IsWord w) {c : Char} (hc : isWordChar c = false)
    (hdot : c ≠ '.') : c ∉ w.toList := by
  obtain ⟨hne, hw, _⟩ := h.spec
  obtain ⟨d, u, hdu⟩ := List.exists_cons_of_ne_nil hne
  rw [hdu, wordLength] at hw
  by_cases hd : isWordChar d = true
  · rw [if_pos hd, List.length_cons, Nat.succ_inj] at hw
    rw [hdu]
    intro hmem
    rcases List.mem_cons.1 hmem with rfl | hmem
    · rw [hc] at hd
      cases hd
    · rcases mem_of_wordTailLength hw _ hmem with hword | rfl
      · rw [hc] at hword
        cases hword
      · exact hdot rfl
  · rw [if_neg hd] at hw
    cases hw

/-- A word has no opening angle in it. -/
theorem IsWord.no_angle {w : String} (h : IsWord w) : '<' ∉ w.toList :=
  h.not_mem (by decide) (by decide)

namespace TypeRef

def parameterList (n : Nat) : String := ", ".intercalate ((List.range n).map parameterName)

/-- What stands before the type parameters. -/
def shownName (r : TypeRef) (shared : Bool) : String :=
  if r.arity = 0 then r.name else r.name ++ if shared then toString r.arity else ""

def shownParameters (r : TypeRef) : String :=
  if r.arity = 0 then "" else "<" ++ parameterList r.arity ++ ">"

theorem displayName_eq (r : TypeRef) (shared : Bool) :
    r.displayName shared = r.shownName shared ++ r.shownParameters := by
  rw [displayName, shownName, shownParameters]
  by_cases h : r.arity = 0
  · rw [if_pos h, if_pos h, if_pos h, String.append_empty]
  · rw [if_neg h, if_neg h, if_neg h]
    simp only [parameterList, String.append_assoc]

/-- More parameters make a longer list. -/
theorem length_parameterList_lt {m n : Nat} (hm : 0 < m) (h : m < n) :
    (parameterList m).length < (parameterList n).length := by
  obtain ⟨k, rfl⟩ := Nat.exists_eq_add_of_lt h
  have hsplit : (List.range (m + k + 1)).map parameterName
      = (List.range m).map parameterName
        ++ ((List.range (k + 1)).map (m + ·)).map parameterName := by
    rw [Nat.add_assoc, List.range_add, List.map_append]
  have hfirst : (List.range m).map parameterName ≠ [] := by
    simpa using Nat.ne_of_gt hm
  have hsecond : ((List.range (k + 1)).map (m + ·)).map parameterName ≠ [] := by simp
  have hcomma : ", ".length = 2 := rfl
  rw [parameterList, parameterList, hsplit, String.intercalate_append_of_ne_nil hfirst hsecond,
    String.length_append, String.length_append, hcomma]
  omega

theorem shownParameters_injective {r r' : TypeRef} (h : r.shownParameters = r'.shownParameters) :
    r.arity = r'.arity := by
  have hempty : ∀ n : Nat, "" ≠ "<" ++ parameterList n ++ ">" := by
    intro n heq
    have hlength := congrArg String.length heq
    have hangle : "<".length = 1 := rfl
    rw [String.length_append, String.length_append, hangle, String.length_empty] at hlength
    omega
  rw [shownParameters, shownParameters] at h
  by_cases hr : r.arity = 0
  · by_cases hr' : r'.arity = 0
    · rw [hr, hr']
    · rw [if_pos hr, if_neg hr'] at h
      exact absurd h (hempty _)
  · by_cases hr' : r'.arity = 0
    · rw [if_neg hr, if_pos hr'] at h
      exact absurd h.symm (hempty _)
    · rw [if_neg hr, if_neg hr'] at h
      have hlength := congrArg String.length h
      simp only [String.length_append, Nat.add_right_cancel_iff, Nat.add_left_cancel_iff] at hlength
      rcases Nat.lt_trichotomy r.arity r'.arity with hlt | heq | hlt
      · have := length_parameterList_lt (Nat.pos_of_ne_zero hr) hlt
        omega
      · exact heq
      · have := length_parameterList_lt (Nat.pos_of_ne_zero hr') hlt
        omega

/-- Behind a text without an opening angle, one that begins with it or is empty is told apart. -/
theorem append_inj_of_angle {u u' v v' : List Char} (hu : '<' ∉ u) (hu' : '<' ∉ u')
    (hv : ∀ c ∈ v.head?, c = '<') (hv' : ∀ c ∈ v'.head?, c = '<') (h : u ++ v = u' ++ v') :
    u = u' ∧ v = v' := by
  have hcut : ∀ {x y : List Char}, '<' ∉ x → (∀ c ∈ y.head?, c = '<') →
      (x ++ y).takeWhile (· ≠ '<') = x := by
    intro x y hx hy
    have hall : ∀ c ∈ x, decide (c ≠ '<') = true := fun c hc =>
      decide_eq_true fun heq => hx (heq ▸ hc)
    rw [List.takeWhile_append_of_pos hall]
    cases y with
    | nil => exact List.append_nil x
    | cons c y =>
      rw [hy c rfl]
      exact List.append_nil x
  have hfirst : u = u' := by rw [← hcut hu hv, h, hcut hu' hv']
  subst hfirst
  exact ⟨rfl, List.append_cancel_left h⟩

theorem head?_shownParameters (r : TypeRef) : ∀ c ∈ r.shownParameters.toList.head?, c = '<' := by
  rw [shownParameters]
  by_cases h : r.arity = 0
  · rw [if_pos h]
    exact nofun
  · rw [if_neg h, String.toList_append, String.toList_append]
    exact fun c hc => (Option.some.inj hc).symm

theorem no_angle_shownName {r : TypeRef} (h : '<' ∉ r.name.toList) (shared : Bool) :
    '<' ∉ (r.shownName shared).toList := by
  rw [shownName]
  by_cases harity : r.arity = 0
  · rwa [if_pos harity]
  · rw [if_neg harity, String.toList_append, List.mem_append, not_or]
    refine ⟨h, ?_⟩
    cases shared with
    | false => exact nofun
    | true =>
      intro hmem
      rw [if_pos rfl] at hmem
      exact absurd (Request.isDigit_of_mem_toString hmem) (by decide)

/-- Two references are shown alike when their arities agree and what stands before the parameters
does. -/
theorem displayName_eq_iff {r r' : TypeRef} (h : '<' ∉ r.name.toList) (h' : '<' ∉ r'.name.toList)
    (shared shared' : Bool) : r.displayName shared = r'.displayName shared' ↔
      r.arity = r'.arity ∧ r.shownName shared = r'.shownName shared' := by
  rw [displayName_eq, displayName_eq]
  constructor
  · intro heq
    have hlist := congrArg String.toList heq
    rw [String.toList_append, String.toList_append] at hlist
    obtain ⟨hname, hparameters⟩ := append_inj_of_angle (no_angle_shownName h shared)
      (no_angle_shownName h' shared') r.head?_shownParameters r'.head?_shownParameters hlist
    exact ⟨shownParameters_injective (String.toList_inj.1 hparameters), String.toList_inj.1 hname⟩
  · rintro ⟨harity, hname⟩
    rw [hname, shownParameters, shownParameters, harity]

/-- Of the same arity, references with the same text before the parameters have the same name, or
the name of one is that of the other with the arity behind it. -/
theorem shownName_eq {r r' : TypeRef} {shared shared' : Bool} (harity : r.arity = r'.arity)
    (h : r.shownName shared = r'.shownName shared') : r.name = r'.name ∨
      r.arity ≠ 0 ∧ (shared = true ∧ shared' = false ∧ r'.name = r.name ++ toString r.arity ∨
        shared = false ∧ shared' = true ∧ r.name = r'.name ++ toString r.arity) := by
  rw [shownName, shownName, ← harity] at h
  by_cases hzero : r.arity = 0
  · rw [if_pos hzero, if_pos hzero] at h
    exact .inl h
  · rw [if_neg hzero, if_neg hzero] at h
    cases shared with
    | false =>
      cases shared' with
      | false => exact .inl (by simpa using h)
      | true => exact .inr ⟨hzero, .inr ⟨rfl, rfl, by simpa using h⟩⟩
    | true =>
      cases shared' with
      | false => exact .inr ⟨hzero, .inl ⟨rfl, rfl, by simpa using h.symm⟩⟩
      | true =>
        have hlist := congrArg String.toList h
        rw [if_pos rfl, String.toList_append, String.toList_append] at hlist
        exact .inl (String.toList_inj.1 (List.append_cancel_right hlist))

end TypeRef

/-! ## Names of found types -/

namespace Adapter

/-- Whether several found types have the bare name of `d`. -/
def isShared (found : List Descriptor) (d : Descriptor) : Bool :=
  Nat.blt 1 (found.countP (·.name == d.name))

/-- The name of a reference among found types: the arity is part of it if another one of them has
its bare name. -/
def nameAmong (found : List Descriptor) (r : TypeRef) : String :=
  r.displayName (decide (∃ e ∈ found, e.ref ≠ r ∧ e.name = r.name))

/-- The type `d` is shown with its arity behind its name, and the bare name of `d'`, which no other
found type has, is just that. -/
structure Captures (found : List Descriptor) (d d' : Descriptor) : Prop where
  generic : d.arity ≠ 0
  arity : d'.arity = d.arity
  shared : isShared found d = true
  alone : isShared found d' = false
  name : d'.name = d.name ++ toString d.arity

instance (found : List Descriptor) (d d' : Descriptor) : Decidable (Captures found d d') :=
  decidable_of_iff (d.arity ≠ 0 ∧ d'.arity = d.arity ∧ isShared found d = true ∧
      isShared found d' = false ∧ d'.name = d.name ++ toString d.arity)
    ⟨fun ⟨h1, h2, h3, h4, h5⟩ => ⟨h1, h2, h3, h4, h5⟩,
      fun h => ⟨h.generic, h.arity, h.shared, h.alone, h.name⟩⟩

variable {found : List Descriptor} {d d' : Descriptor}

/-- A bare name that occurs more than once belongs to another type too. -/
theorem isShared_iff (hd : (found.map Descriptor.ref).Nodup) (h : d ∈ found) :
    isShared found d = true ↔ ∃ e ∈ found, e.ref ≠ d.ref ∧ e.name = d.name := by
  obtain ⟨before, after, rfl⟩ := List.append_of_mem h
  have hothers : ∀ e ∈ before ++ after, e.ref ≠ d.ref := by
    rw [List.map_append, List.map_cons] at hd
    have hnot := (List.nodup_cons.1 (List.perm_middle.nodup_iff.1 hd)).1
    intro e he href
    rw [← List.map_append] at hnot
    exact hnot (href ▸ List.mem_map_of_mem he)
  have hcount : isShared (before ++ d :: after) d = true
      ↔ 0 < (before ++ after).countP (·.name == d.name) := by
    have hself : (d :: after).countP (·.name == d.name) = after.countP (·.name == d.name) + 1 :=
      List.countP_cons_of_pos (beq_self_eq_true d.name)
    rw [isShared, Nat.blt_eq, List.countP_append, List.countP_append, hself]
    omega
  rw [hcount, List.countP_pos_iff]
  constructor
  · rintro ⟨e, he, hname⟩
    have hmem : e ∈ before ++ d :: after := List.perm_middle.mem_iff.2 (List.mem_cons_of_mem d he)
    exact ⟨e, hmem, hothers e he, eq_of_beq hname⟩
  · rintro ⟨e, he, href, hname⟩
    rcases List.mem_cons.1 (List.perm_middle.mem_iff.1 he) with rfl | he
    · exact absurd rfl href
    · exact ⟨e, he, beq_iff_eq.2 hname⟩

theorem className_eq_nameAmong (hd : (found.map Descriptor.ref).Nodup) (h : d ∈ found) :
    className found d = nameAmong found d.ref := by
  have hshared : isShared found d = decide (∃ e ∈ found, e.ref ≠ d.ref ∧ e.name = d.name) := by
    rw [Bool.eq_iff_iff, isShared_iff hd h, decide_eq_true_iff]
  exact congrArg d.ref.displayName hshared

theorem className_congr (h : d.ref = d'.ref) : className found d = className found d' := by
  obtain ⟨hname, _⟩ := TypeRef.mk.inj h
  rw [className, className, h, hname]

theorem Captures.className_eq (h : Captures found d d') :
    className found d = className found d' := by
  show d.ref.displayName (isShared found d) = d'.ref.displayName (isShared found d')
  rw [TypeRef.displayName_eq, TypeRef.displayName_eq, h.shared, h.alone]
  simp only [TypeRef.shownName, TypeRef.shownParameters, Descriptor.ref, h.generic, h.arity,
    h.name, if_true, if_false, Bool.false_eq_true, String.append_empty]

/-- Two found types are shown alike only if they are one, or one captures the other's name. -/
theorem className_eq_iff (hd : '<' ∉ d.name.toList) (hd' : '<' ∉ d'.name.toList) :
    className found d = className found d' ↔
      d.ref = d'.ref ∨ Captures found d d' ∨ Captures found d' d := by
  constructor
  · intro h
    obtain ⟨harity, hname⟩ := (TypeRef.displayName_eq_iff hd hd' _ _).1 h
    rcases TypeRef.shownName_eq harity hname with hname | ⟨hzero, hdigits⟩
    · exact .inl (TypeRef.mk.injEq .. ▸ ⟨hname, harity⟩)
    · rcases hdigits with ⟨hs, hs', hdigits⟩ | ⟨hs, hs', hdigits⟩
      · exact .inr (.inl ⟨hzero, harity.symm, hs, hs', hdigits⟩)
      · have harity' : d.arity = d'.arity := harity
        refine .inr (.inr ⟨fun h' => hzero (harity.trans h'), harity, hs', hs, ?_⟩)
        rw [← harity']
        exact hdigits
  · rintro (h | h | h)
    · exact className_congr h
    · exact h.className_eq
    · exact h.className_eq.symm

/-! ## Edges -/

/-- The found type that a reference names. -/
theorem find?_isNamedBy {r : TypeRef} {p : Descriptor} (h : found.find? (·.isNamedBy r) = some p) :
    p ∈ found ∧ p.ref = r :=
  ⟨List.mem_of_find?_eq_some h, by simpa [Descriptor.isNamedBy] using List.find?_some h⟩

/-- An edge leads to another found type, under the name that it is shown by. -/
theorem of_edge?_eq_some {r : TypeRef} {edge : Edge} (h : edge? found d r = some edge) :
    ∃ e ∈ found, e.ref = r ∧ e.ref ≠ d.ref ∧
      edge = ⟨className found d, className found e,
        if e.isAbstract then .implements else .inherits⟩ := by
  rw [edge?] at h
  split at h
  · cases h
  · rename_i p hp
    obtain ⟨hmem, hr⟩ := find?_isNamedBy hp
    split at h
    · cases h
    · rename_i hne
      cases h
      exact ⟨p, hmem, hr, by simpa [Descriptor.sameType] using hne, rfl⟩

/-- Edges join names that found types are shown by. -/
theorem ends_of_mem_edges {e : Edge} (h : e ∈ edges found) :
    e.child ∈ found.map (className found) ∧ e.parent ∈ found.map (className found) := by
  obtain ⟨d, hd, he⟩ := List.mem_flatMap.1 h
  obtain ⟨r, _, he⟩ := List.mem_filterMap.1 he
  obtain ⟨p, hp, _, _, rfl⟩ := of_edge?_eq_some he
  exact ⟨List.mem_map_of_mem hd, List.mem_map_of_mem hp⟩

end Adapter

/-! ## Names of classes -/

/-- A set has as many items as the list that it was made of just if none is repeated there. -/
theorem OrderedSet.length_ofList_iff {α : Type} [DecidableEq α] {xs : List α} :
    (ofList xs).items.length = xs.length ↔ xs.Nodup := by
  constructor
  · intro h
    have hsubset : (ofList xs).items ⊆ xs := fun a ha => mem_ofList.1 ha
    have hsubperm := List.subperm_of_subset (nodup_ofList xs) hsubset
    have hperm := hsubperm.perm_of_length_le (Nat.le_of_eq h.symm)
    exact hperm.nodup_iff.1 (nodup_ofList xs)
  · intro h
    exact congrArg (fun s => s.items.length) (ofList_items (s := ⟨xs⟩) h)

namespace Model

theorem names_foldl_addClass (m : Model) (cs : List Class) :
    (cs.foldl addClass m).names
      = ((OrderedSet.mk m.names).insertAll (cs.map Class.name)).items := by
  induction cs generalizing m with
  | nil => rfl
  | cons c cs ih =>
    have hadd : OrderedSet.mk (m.addClass c).names = (OrderedSet.mk m.names).insert c.name := by
      rw [names, addClass, OrderedMap.keys_alter]
      by_cases hc : c.name ∈ m.classes.keys
      · rw [if_pos hc, OrderedSet.insert, names, if_pos hc]
      · rw [if_neg hc, OrderedSet.insert, names, if_neg hc]
    rw [List.foldl_cons, ih, hadd]
    rfl

/-- An edge between classes of a model adds no class to it. -/
theorem names_addEdge {m : Model} {e : Edge} (hchild : e.child ∈ m.names)
    (hparent : e.parent ∈ m.names) : (m.addEdge e).names = m.names := by
  have hensure : (m.ensureClass e.parent).names = m.names :=
    (OrderedMap.keys_alter ..).trans (if_pos hparent)
  have hchild' : e.child ∈ (m.ensureClass e.parent).names := by rwa [hensure]
  have hchange : (m.addEdge e).names = (m.ensureClass e.parent).names :=
    (OrderedMap.keys_alter ..).trans (if_pos hchild')
  rw [hchange, hensure]

theorem names_foldl_addEdge {m : Model} {es : List Edge}
    (h : ∀ e ∈ es, e.child ∈ m.names ∧ e.parent ∈ m.names) :
    (es.foldl addEdge m).names = m.names := by
  induction es generalizing m with
  | nil => rfl
  | cons e es ih =>
    obtain ⟨⟨hchild, hparent⟩, hes⟩ := List.forall_mem_cons.1 h
    have hsame := names_addEdge hchild hparent
    rw [List.foldl_cons, ih (by rwa [hsame]), hsame]

/-- Notes are put behind those of a model, and nothing else changes. -/
theorem foldl_addNote (m : Model) (ns : List Note) :
    ns.foldl addNote m = { m with notes := m.notes ++ ns } := by
  induction ns generalizing m with
  | nil => rw [List.foldl_nil, List.append_nil]
  | cons n ns ih =>
    rw [List.foldl_cons, ih]
    simp only [addNote, List.append_assoc, List.singleton_append]

theorem names_foldl_addNote (m : Model) (ns : List Note) :
    (ns.foldl addNote m).names = m.names := by
  rw [foldl_addNote, names, names]

theorem get?_foldl_addNote (m : Model) (ns : List Note) (k : String) :
    (ns.foldl addNote m).get? k = m.get? k := by
  rw [foldl_addNote, get?, get?]

/-- The classes have the names that the found types are shown by, in the order of the requests. -/
theorem names_ofRequests (filter : MemberFilter) (requests : List (String × Option Descriptor)) :
    (ofRequests filter requests).names = (OrderedSet.ofList ((Adapter.found requests).map
      (Adapter.className (Adapter.found requests)))).items := by
  have hclasses : (((Adapter.found requests).map
      (Adapter.classOf filter (Adapter.found requests))).foldl addClass empty).names
      = (OrderedSet.ofList ((Adapter.found requests).map
          (Adapter.className (Adapter.found requests)))).items := by
    rw [names_foldl_addClass, List.map_map]
    rfl
  rw [ofRequests, names_foldl_addNote, names_foldl_addEdge, hclasses]
  intro e he
  rw [hclasses, OrderedSet.mem_ofList, OrderedSet.mem_ofList]
  exact Adapter.ends_of_mem_edges he

theorem classCount_ofRequests (filter : MemberFilter) {requests : List (String × Option Descriptor)}
    (h : ∀ d ∈ requests.filterMap (·.2), IsWord d.name) :
    (ofRequests filter requests).classCount = (Adapter.found requests).length ↔
      ∀ d ∈ Adapter.found requests, ∀ d' ∈ Adapter.found requests,
        ¬ Adapter.Captures (Adapter.found requests) d d' := by
  have hno : ∀ d ∈ Adapter.found requests, '<' ∉ d.name.toList := fun d hd =>
    (h d (Adapter.mem_distinct hd)).no_angle
  have hrefs : ((Adapter.found requests).map Descriptor.ref).Nodup := Adapter.nodup_ref_distinct _
  have hcount : (ofRequests filter requests).classCount
      = (ofRequests filter requests).names.length := (List.length_map ..).symm
  rw [hcount, names_ofRequests, ← List.length_map (f := Adapter.className (Adapter.found requests)),
    OrderedSet.length_ofList_iff]
  constructor
  · intro hd d hmem d' hmem' hcaptures
    have hsame := List.inj_on_of_nodup_map hd hmem hmem' hcaptures.className_eq
    have halone := hcaptures.alone
    rw [← hsame, hcaptures.shared] at halone
    cases halone
  · intro hnone
    refine List.Nodup.map_on ?_ hrefs.of_map
    intro d hmem d' hmem' hname
    rcases (Adapter.className_eq_iff (hno d hmem) (hno d' hmem')).1 hname with href | hc | hc
    · exact List.inj_on_of_nodup_map hrefs hmem hmem' href
    · exact absurd hc (hnone d hmem d' hmem')
    · exact absurd hc (hnone d' hmem' d hmem)

/-- The found types are one for each name and arity.  The classes are those that they are shown by,
and two of them are shown alike just if one captures the name of the other; if none does, there is
one class for each. -/
theorem classes_ofRequests (filter : MemberFilter) (requests : List (String × Option Descriptor))
    (h : ∀ d ∈ requests.filterMap (·.2), IsWord d.name) :
    ((Adapter.found requests).map Descriptor.ref).Nodup ∧
      (∀ r, r ∈ (Adapter.found requests).map Descriptor.ref
        ↔ r ∈ (requests.filterMap (·.2)).map Descriptor.ref) ∧
      (ofRequests filter requests).names = (OrderedSet.ofList ((Adapter.found requests).map
        (Adapter.className (Adapter.found requests)))).items ∧
      (∀ d ∈ Adapter.found requests, ∀ d' ∈ Adapter.found requests,
        Adapter.className (Adapter.found requests) d = Adapter.className (Adapter.found requests) d'
          ↔ d.ref = d'.ref ∨ Adapter.Captures (Adapter.found requests) d d' ∨
            Adapter.Captures (Adapter.found requests) d' d) ∧
      ((ofRequests filter requests).classCount = (Adapter.found requests).length ↔
        ∀ d ∈ Adapter.found requests, ∀ d' ∈ Adapter.found requests,
          ¬ Adapter.Captures (Adapter.found requests) d d') := by
  have hno : ∀ d ∈ Adapter.found requests, '<' ∉ d.name.toList := fun d hd =>
    (h d (Adapter.mem_distinct hd)).no_angle
  exact ⟨Adapter.nodup_ref_distinct _, fun r => Adapter.mem_ref_distinct,
    names_ofRequests filter requests,
    fun d hd d' hd' => Adapter.className_eq_iff (hno d hd) (hno d' hd'),
    classCount_ofRequests filter h⟩

/-- Two types that share a bare name, a third one with that name and a digit, and the first one
again. -/
def queues : List (String × Option Descriptor) :=
  [("Queue`1", some { name := "Queue", arity := 1 }),
    ("Queue`2", some { name := "Queue", arity := 2 }),
    ("Queue1`2", some { name := "Queue1", arity := 2 }),
    ("Queue<T>", some { name := "Queue", arity := 1 })]

theorem classes_ofRequests_queues :
    (ofRequests {} queues).names = ["Queue1<T>", "Queue2<T, U>", "Queue1<T, U>"] ∧
      (ofRequests {} queues).classCount = 3 := by
  obtain ⟨_, _, hnames, _, hcount⟩ := classes_ofRequests {} queues (by decide +kernel)
  exact ⟨hnames.trans (by decide +kernel), hcount.2 (by decide +kernel)⟩

/-- Two types that share a bare name, and a third one whose name is what the first one is shown
by. -/
def capturedQueues : List (String × Option Descriptor) :=
  [("Queue`1", some { name := "Queue", arity := 1 }),
    ("Queue`2", some { name := "Queue", arity := 2 }),
    ("Queue1`1", some { name := "Queue1", arity := 1 })]

/-- Three types of three names and arities, all of them words, make two classes: the first and the
last are shown alike. -/
theorem classes_capturedQueues :
    (∀ d ∈ capturedQueues.filterMap (·.2), IsWord d.name) ∧
      (Adapter.found capturedQueues).map Descriptor.ref
        = [⟨"Queue", 1⟩, ⟨"Queue", 2⟩, ⟨"Queue1", 1⟩] ∧
      (Adapter.found capturedQueues).map (Adapter.className (Adapter.found capturedQueues))
        = ["Queue1<T>", "Queue2<T, U>", "Queue1<T>"] ∧
      (ofRequests {} capturedQueues).names = ["Queue1<T>", "Queue2<T, U>"] := by
  decide +kernel

end Model

end ClassDiagram
