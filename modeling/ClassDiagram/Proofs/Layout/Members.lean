import ClassDiagram.Layout
import ClassDiagram.Proofs.Layout.TypeNames

/-! # Members in canonical layout

The line of a member spells the member, if its names and types are canonical.

* `CanonicalField.spells`, `CanonicalMethod.spells`: the two kinds of members;
* `CanonicalMember.spells`: a member with its sign.
-/

namespace ClassDiagram

open TokenCatalog Grammar

structure CanonicalField (f : Field) : Prop where
  name : CanonicalName f.name
  type : f.type = "" ∨ CanonicalType f.type

structure CanonicalMethod (m : Method) : Prop where
  name : CanonicalName m.name
  arguments : CanonicalArguments m.arguments
  returnType : m.returnType = "" ∨ CanonicalType m.returnType

def CanonicalMember : Member → Prop
  | .field f => CanonicalField f
  | .method m => CanonicalMethod m

/-! ## Signs -/

theorem spells_visibility (v : Visibility) : Spells IsVisibility v (String.singleton v.marker)
    fun rest => rest.head? ≠ some '-' := by
  cases v with
  | pub =>
    refine (spells_fixed (t := .plus) (x := "+") (by decide)).mono ?_ fun _ _ => trivial
    rintro _ ⟨l, hl, _, rfl⟩
    exact .plus hl
  | priv =>
    refine spells_minus.imp ?_
    rintro _ ⟨l, hl, _, rfl⟩
    exact .minus hl
  | prot =>
    refine (spells_fixed (t := .hash) (x := "#") (by decide)).mono ?_ fun _ _ => trivial
    rintro _ ⟨l, hl, _, rfl⟩
    exact .hash hl
  | internal =>
    refine (spells_fixed (t := .tilde) (x := "~") (by decide)).mono ?_ fun _ _ => trivial
    rintro _ ⟨l, hl, _, rfl⟩
    exact .tilde hl

theorem spells_flag {t : Token} {x : String} (h : (t, x) ∈ fixedSymbols) (b : Bool) :
    Spells (IsFlag t) b (if b then x else "") Anything := by
  cases b with
  | false => exact .empty .absent
  | true =>
    refine (spells_fixed h).imp ?_
    rintro _ ⟨l, hl, _, rfl⟩
    exact .present hl

/-- A flag does not continue a word in front of it. -/
theorem wordEnds_flag {x : String} {c : Char} (hx : Begins x c) (hc : isWordChar c = false)
    (hdot : c ≠ '.') (b : Bool) {rest : List Char} (hrest : WordEnds rest) :
    WordEnds ((if b then x else "").toList ++ rest) := by
  cases b with
  | false => exact hrest
  | true => exact hx.wordEnds hc hdot rest

/-! ## Fields -/

/-- The line of a field behind its sign. -/
theorem CanonicalField.spells {f : Field} (h : CanonicalField f) :
    Spells IsField { f with visibility := .pub }
      ((if f.type = "" then "" else f.type ++ " ") ++ (f.name ++ (if f.isStatic then "$" else "")))
      WordEnds := by
  obtain ⟨n, type, v, isStatic⟩ := f
  obtain ⟨hn, htype⟩ := h
  change CanonicalName n at hn
  change type = "" ∨ CanonicalType type at htype
  have hflag : Spells (IsFlag .dollar) isStatic (if isStatic then "$" else "") Anything :=
    spells_flag (by decide) isStatic
  have hname := hn.spells.append (hflag.always WordEnds) fun rest hrest =>
    wordEnds_flag (x := "$") rfl rfl (by decide) isStatic hrest
  by_cases hempty : type = ""
  · subst hempty
    simp only [if_true, String.empty_append]
    refine hname.imp ?_
    rintro _ ⟨u, w, hu, hw, rfl⟩
    exact .bare hu hw
  · have hcanonical := htype.resolve_left hempty
    have hbegins : BeginsWord (n ++ (if isStatic then "$" else "")) := hn.begins.append _
    have hblank : Begins (" " ++ (n ++ (if isStatic then "$" else ""))) ' ' :=
      .append (x := " ") rfl _
    have hrest := hname.behindBlank fun rest _ => hbegins.blankEnds rest
    have h := hcanonical.spells.append hrest fun rest _ => hblank.wordEnds rfl (by decide) rest
    simp only [hempty, if_false, String.append_assoc]
    refine h.imp ?_
    rintro _ ⟨u, _, hu, ⟨v, w, hv, hw, rfl⟩, rfl⟩
    exact .typed hu hv hw

theorem CanonicalField.begins {f : Field} (h : CanonicalField f) (y : String) :
    BeginsWord ((if f.type = "" then "" else f.type ++ " ") ++ (f.name ++ y)) := by
  by_cases hempty : f.type = ""
  · simp only [hempty, if_true, String.empty_append]
    exact h.name.begins.append _
  · simp only [hempty, if_false]
    exact ((h.type.resolve_left hempty).begins.append _).append _

/-! ## Methods -/

/-- The signs at the end of a method. -/
theorem spells_classifiers (isAbstract isStatic : Bool) :
    Spells (fun (b : Bool × Bool) signs => IsClassifiers signs ∧
        signs.any (·.token == .asterisk) = b.1 ∧ signs.any (·.token == .dollar) = b.2)
      (isAbstract, isStatic)
      ((if isAbstract then "*" else "") ++ (if isStatic then "$" else "")) Anything := by
  have ha : Spells (IsFlag .asterisk) isAbstract (if isAbstract then "*" else "") Anything :=
    spells_flag (by decide) isAbstract
  have hs : Spells (IsFlag .dollar) isStatic (if isStatic then "$" else "") Anything :=
    spells_flag (by decide) isStatic
  refine (ha.append hs fun _ _ => trivial).imp ?_
  rintro _ ⟨u, v, hu, hv, rfl⟩
  change IsFlag .asterisk isAbstract u at hu
  change IsFlag .dollar isStatic v at hv
  cases hu <;> cases hv <;> simp_all [IsClassifiers]

theorem wordEnds_classifiers (isAbstract isStatic : Bool) {rest : List Char}
    (hrest : WordEnds rest) :
    WordEnds
      (((if isAbstract then "*" else "") ++ (if isStatic then "$" else "")).toList ++ rest) := by
  rw [String.toList_append, List.append_assoc]
  exact wordEnds_flag (x := "*") rfl rfl (by decide) isAbstract
    (wordEnds_flag (x := "$") rfl rfl (by decide) isStatic hrest)

/-- The return type of a method with the blank in front of it. -/
theorem spells_returnType {type : String} (h : type = "" ∨ CanonicalType type) :
    Spells IsReturnType (if type = "" then none else some type)
      (if type = "" then "" else " " ++ type) WordEnds := by
  by_cases hempty : type = ""
  · simp only [hempty, if_true]
    exact Spells.always (.empty .none) _
  · have hcanonical := h.resolve_left hempty
    simp only [hempty, if_false]
    refine (hcanonical.spells.behindBlank fun rest _ => hcanonical.begins.blankEnds rest).imp ?_
    intro u hu
    exact .some .absent hu

/-- The line of a method behind its sign. -/
theorem CanonicalMethod.spells {m : Method} (h : CanonicalMethod m) :
    Spells IsMethod { m with visibility := .pub }
      (m.name ++ ("(" ++ m.arguments ++ ")"
        ++ ((if m.returnType = "" then "" else " " ++ m.returnType)
        ++ ((if m.isAbstract then "*" else "") ++ (if m.isStatic then "$" else "")))))
      WordEnds := by
  have hsigns := spells_classifiers m.isAbstract m.isStatic
  have htail := (spells_returnType h.returnType).append (hsigns.always WordEnds) fun rest hrest =>
    wordEnds_classifiers m.isAbstract m.isStatic hrest
  have hargs := h.arguments.spells.append htail fun _ _ => trivial
  have hopen : ∀ y, Begins ("(" ++ m.arguments ++ ")" ++ y) '(' := fun y =>
    .append (.append (.append (x := "(") rfl _) _) y
  have hall := h.name.spells.append hargs fun rest _ => (hopen _).wordEnds rfl (by decide) rest
  refine hall.imp ?_
  rintro _ ⟨u, _, hu, ⟨v, _, hv, ⟨x, signs, hx, ⟨hsigns, ha, hs⟩, rfl⟩, rfl⟩, rfl⟩
  have hm := IsMethod.mk hu hv .absent hx hsigns
  have htype : (if m.returnType = "" then none else some m.returnType).getD "" = m.returnType := by
    by_cases hempty : m.returnType = ""
    · simp [hempty]
    · simp [hempty]
  rw [htype, ha, hs, Bool.false_or] at hm
  exact hm

/-! ## Members -/

theorem blankEnds_member (m : Member) (rest : List Char) :
    BlankEnds ((Layout.member m).toList ++ rest) := by
  have hsign : ∀ v : Visibility, isInlineBlank v.marker = false := by
    intro v
    cases v <;> rfl
  have hbegins : ∀ (v : Visibility) y, Begins (String.singleton v.marker ++ y) v.marker :=
    fun v y => .append (by simp [Begins]) y
  cases m with
  | field f =>
    simp only [Layout.member, Layout.field, String.append_assoc]
    exact (hbegins _ _).blankEnds (hsign _) rest
  | method m =>
    simp only [Layout.member, Layout.method, String.append_assoc]
    exact (hbegins _ _).blankEnds (hsign _) rest

/-- A member of a class, without the class it belongs to. -/
theorem CanonicalMember.spells {m : Member} (h : CanonicalMember m) :
    Spells IsMember m (Layout.member m) WordEnds := by
  cases m with
  | field f =>
    change CanonicalField f at h
    have hbegins := h.begins (if f.isStatic then "$" else "")
    have hall := (spells_visibility f.visibility).append h.spells fun rest _ =>
      hbegins.head_ne rest rfl
    simp only [Layout.member, Layout.field, String.append_assoc] at hall ⊢
    refine hall.imp ?_
    rintro _ ⟨u, v, hu, hv, rfl⟩
    exact IsMember.field (f := { f with visibility := .pub }) hu hv
  | method m =>
    change CanonicalMethod m at h
    have hall := (spells_visibility m.visibility).append h.spells fun rest _ =>
      (h.name.begins.append _).head_ne rest rfl
    simp only [Layout.member, Layout.method, String.append_assoc] at hall ⊢
    refine hall.imp ?_
    rintro _ ⟨u, v, hu, hv, rfl⟩
    exact IsMember.method (m := { m with visibility := .pub }) hu hv

end ClassDiagram
