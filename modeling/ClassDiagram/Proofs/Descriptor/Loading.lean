import ClassDiagram.Descriptor.Catalog
import ClassDiagram.Proofs.Json.Writing
import ClassDiagram.Proofs.Model.Collections

/-! # Loading catalogs

A descriptor has many texts: its fields may come in any order, those with the value that they have
when absent may be left out, others may stand between them, the type of a member has two names, and
there may be blanks between the chunks.  All of these texts are read as the descriptor, and what it
is written as is one of them.

* `Descriptor.slot` and the like: the names and values of the fields, and when they may be left out;
* `Descriptor.takes_reader`: a descriptor is read from every text of it;
* `Descriptor.form_chunks`: what it is written as is such a text;
* `Catalog.ofList_eq`: descriptors with names make a catalog;
* `Catalog.ofJson_form`: which is loaded from every text of them.
-/

namespace ClassDiagram

open Json

/-! ## References -/

namespace TypeRef

variable (r : TypeRef)

def slot : Part → Slot
  | .name => ⟨["name"], TextForm r.name, False⟩
  | .arity => ⟨["arity"], CountForm r.arity, r.arity = 0⟩

def form : Form := RecordForm r.slot

def values : (f : Part) → Part.Holds f
  | .name => r.name
  | .arity => r.arity

variable {r}

theorem keys_slot (f : Part) : (r.slot f).keys = format.names f := by
  cases f <;> rfl

theorem takes_reader {ts : List Chunk} (h : r.form ts) : Takes reader r ts := by
  have hrecord : Takes format.reader r.values ts := by
    refine format.takes_record keys_slot (by decide) ?_ ?_ h
    · rintro (_ | _) ts hts
      · exact takes_string hts
      · exact takes_count hts
    · rintro (_ | _) homittable
      · exact homittable.elim
      · exact congrArg some homittable.symm
  exact hrecord.bind_pure fun v => TypeRef.mk (v .name) (v .arity)

theorem form_chunks (h : r.arity ≤ natLimit) : r.form r.toJson.chunks := by
  refine format.recordForm_chunks [.name, .arity]
    (fun | .name => .string r.name | .arity => .natural r.arity) keys_slot (by decide)
    (by decide) ?_ ?_
  · rintro (_ | _) _
    · exact textForm_chunks r.name
    · exact countForm_chunks h
  · rintro (_ | _) hf <;> exact absurd hf (by decide)

end TypeRef

/-! ## Parameters -/

namespace Parameter

variable (p : Parameter)

def slot : Part → Slot
  | .name => ⟨["name"], TextForm p.name, False⟩
  | .type => ⟨["type_name", "type"], TextForm p.type, p.type = ""⟩

def form : Form := RecordForm p.slot

def values : Part → String
  | .name => p.name
  | .type => p.type

variable {p}

theorem keys_slot (f : Part) : (p.slot f).keys = format.names f := by
  cases f <;> rfl

theorem takes_reader {ts : List Chunk} (h : p.form ts) : Takes reader p ts := by
  have hrecord : Takes format.reader p.values ts := by
    refine format.takes_record keys_slot (by decide) ?_ ?_ h
    · rintro (_ | _) ts hts
      · exact takes_string hts
      · exact takes_string hts
    · rintro (_ | _) homittable
      · exact homittable.elim
      · exact congrArg some homittable.symm
  exact hrecord.bind_pure fun v => Parameter.mk (v .name) (v .type)

theorem form_chunks : p.form p.toJson.chunks := by
  refine format.recordForm_chunks [.name, .type]
    (fun | .name => .string p.name | .type => .string p.type) keys_slot (by decide)
    (by decide) ?_ ?_
  · rintro (_ | _) _
    · exact textForm_chunks p.name
    · exact textForm_chunks p.type
  · rintro (_ | _) hf <;> exact absurd hf (by decide)

end Parameter

/-! ## Members -/

/-- The word for a visibility, or the other one for what is visible internally. -/
def Visibility.form (v : Visibility) : Form := fun ts =>
  ∃ word, (word = v.keyword ∨ word = "package" ∧ v = .internal) ∧ TextForm word ts

theorem Visibility.takes_reader {v : Visibility} {ts : List Chunk} (h : v.form ts) :
    Takes reader v ts := by
  obtain ⟨word, rfl | ⟨rfl, rfl⟩, htext⟩ := h
  · cases v with
    | priv => exact takes_choice rfl htext
    | prot => exact takes_choice rfl htext
    | internal => exact takes_choice rfl htext
    | pub => exact takes_choice rfl htext
  · exact takes_choice rfl htext

theorem MemberKind.takes_reader {k : MemberKind} {ts : List Chunk} (h : TextForm k.keyword ts) :
    Takes reader k ts := by
  cases k with
  | method => exact takes_choice rfl h
  | field => exact takes_choice rfl h
  | property => exact takes_choice rfl h

namespace DescribedMember

variable (m : DescribedMember)

def slot : Part → Slot
  | .kind => ⟨["kind"], TextForm m.kind.keyword, False⟩
  | .name => ⟨["name"], TextForm m.name, False⟩
  | .type => ⟨["type_name", "type"], TextForm m.type, m.type = ""⟩
  | .parameters => ⟨["parameters"], ListForm Parameter.form m.parameters, m.parameters = []⟩
  | .visibility => ⟨["accessibility"], m.visibility.form, m.visibility = .pub⟩
  | .isStatic => ⟨["is_static"], BooleanForm m.isStatic, m.isStatic = false⟩
  | .isAbstract => ⟨["is_abstract"], BooleanForm m.isAbstract, m.isAbstract = false⟩

def form : Form := RecordForm m.slot

def values : (f : Part) → Part.Holds f
  | .kind => m.kind
  | .name => m.name
  | .type => m.type
  | .parameters => m.parameters
  | .visibility => m.visibility
  | .isStatic => m.isStatic
  | .isAbstract => m.isAbstract

variable {m}

theorem keys_slot (f : Part) : (m.slot f).keys = format.names f := by
  cases f <;> rfl

theorem takes_reader {ts : List Chunk} (h : m.form ts) : Takes reader m ts := by
  have hrecord : Takes format.reader m.values ts := by
    refine format.takes_record keys_slot (by decide) ?_ ?_ h
    · intro f ts hts
      cases f with
      | kind => exact MemberKind.takes_reader hts
      | name => exact takes_string hts
      | type => exact takes_string hts
      | parameters =>
        exact takes_list (fun _ _ => Parameter.takes_reader) (fun _ _ => opensOff_record) hts
      | visibility => exact Visibility.takes_reader hts
      | isStatic => exact takes_boolean hts
      | isAbstract => exact takes_boolean hts
    · intro f homittable
      cases f with
      | kind => exact homittable.elim
      | name => exact homittable.elim
      | type => exact congrArg some homittable.symm
      | parameters => exact congrArg some homittable.symm
      | visibility => exact congrArg some homittable.symm
      | isStatic => exact congrArg some homittable.symm
      | isAbstract => exact congrArg some homittable.symm
  exact hrecord.bind_pure fun v => DescribedMember.mk (v .kind) (v .name) (v .type) (v .parameters)
    (v .visibility) (v .isStatic) (v .isAbstract)

def written (m : DescribedMember) : Part → Value
  | .kind => .string m.kind.keyword
  | .name => .string m.name
  | .type => .string m.type
  | .parameters => .list (m.parameters.map Parameter.toJson)
  | .visibility => .string m.visibility.keyword
  | .isStatic => .boolean m.isStatic
  | .isAbstract => .boolean m.isAbstract

theorem form_chunks : m.form m.toJson.chunks := by
  refine format.recordForm_chunks format.fields m.written keys_slot (by decide) (by decide) ?_
    fun f hf => absurd (format.mem_fields f) hf
  intro f _
  cases f with
  | kind => exact textForm_chunks _
  | name => exact textForm_chunks m.name
  | type => exact textForm_chunks m.type
  | parameters => exact listForm_chunks fun _ _ => Parameter.form_chunks
  | visibility => exact ⟨_, .inl rfl, textForm_chunks _⟩
  | isStatic => exact booleanForm_chunks m.isStatic
  | isAbstract => exact booleanForm_chunks m.isAbstract

end DescribedMember

/-! ## Descriptors -/

namespace Descriptor

variable (d : Descriptor)

def slot : Part → Slot
  | .name => ⟨["name"], TextForm d.name, False⟩
  | .arity => ⟨["arity"], CountForm d.arity, d.arity = 0⟩
  | .scope => ⟨["namespace"], OptionForm TextForm d.scope, d.scope = none⟩
  | .base => ⟨["base_type"], OptionForm TypeRef.form d.base, d.base = none⟩
  | .interfaces => ⟨["interfaces"], ListForm TypeRef.form d.interfaces, d.interfaces = []⟩
  | .isAbstract => ⟨["is_abstract"], BooleanForm d.isAbstract, d.isAbstract = false⟩
  | .members => ⟨["members"], ListForm DescribedMember.form d.members, d.members = []⟩

def form : Form := RecordForm d.slot

def values : (f : Part) → Part.Holds f
  | .name => d.name
  | .arity => d.arity
  | .scope => d.scope
  | .base => d.base
  | .interfaces => d.interfaces
  | .isAbstract => d.isAbstract
  | .members => d.members

variable {d}

theorem keys_slot (f : Part) : (d.slot f).keys = format.names f := by
  cases f <;> rfl

theorem takes_reader {ts : List Chunk} (h : d.form ts) : Takes reader d ts := by
  have hrecord : Takes format.reader d.values ts := by
    refine format.takes_record keys_slot (by decide) ?_ ?_ h
    · intro f ts hts
      cases f with
      | name => exact takes_string hts
      | arity => exact takes_count hts
      | scope => exact takes_optional (fun _ _ => takes_string) (fun _ _ => opensOff_text) hts
      | base =>
        exact takes_optional (fun _ _ => TypeRef.takes_reader) (fun _ _ => opensOff_record) hts
      | interfaces =>
        exact takes_list (fun _ _ => TypeRef.takes_reader) (fun _ _ => opensOff_record) hts
      | isAbstract => exact takes_boolean hts
      | members =>
        exact takes_list (fun _ _ => DescribedMember.takes_reader) (fun _ _ => opensOff_record) hts
    · intro f homittable
      cases f with
      | name => exact homittable.elim
      | arity => exact congrArg some homittable.symm
      | scope => exact congrArg some homittable.symm
      | base => exact congrArg some homittable.symm
      | interfaces => exact congrArg some homittable.symm
      | isAbstract => exact congrArg some homittable.symm
      | members => exact congrArg some homittable.symm
  exact hrecord.bind_pure fun v => Descriptor.mk (v .name) (v .arity) (v .scope) (v .base)
    (v .interfaces) (v .isAbstract) (v .members)

/-- A descriptor whose counts have at most 64 bits. -/
structure InRange (d : Descriptor) : Prop where
  arity : d.arity ≤ natLimit
  parents : ∀ r ∈ d.parents, r.arity ≤ natLimit

def written (d : Descriptor) : Part → Value
  | .name => .string d.name
  | .arity => .natural d.arity
  | .scope => .string (d.scope.getD "")
  | .base => (d.base.map TypeRef.toJson).getD .null
  | .interfaces => .list (d.interfaces.map TypeRef.toJson)
  | .isAbstract => .boolean d.isAbstract
  | .members => .list (d.members.map DescribedMember.toJson)

def writtenFields (d : Descriptor) : List Part :=
  if d.scope = none then [.name, .arity, .base, .interfaces, .isAbstract, .members]
  else [.name, .arity, .scope, .base, .interfaces, .isAbstract, .members]

theorem toJson_eq :
    d.toJson = .object (d.writtenFields.map fun f => (format.name f, d.written f)) := by
  cases hscope : d.scope with
  | none => simp [toJson, writtenFields, written, hscope, format]
  | some scope => simp [toJson, writtenFields, written, hscope, format]

theorem form_chunks (h : d.InRange) : d.form d.toJson.chunks := by
  rw [toJson_eq]
  have hfields : d.writtenFields.Nodup ∧
      ∀ f, f ∉ d.writtenFields → f = .scope ∧ d.scope = none := by
    rw [writtenFields]
    split
    · next hscope => exact ⟨by decide, fun f hf => ⟨by cases f <;> simp_all, hscope⟩⟩
    · exact ⟨by decide, fun f hf => by cases f <;> simp_all⟩
  refine format.recordForm_chunks d.writtenFields d.written keys_slot (by decide) hfields.1 ?_ ?_
  · intro f hf
    cases f with
    | name => exact textForm_chunks d.name
    | arity => exact countForm_chunks h.arity
    | scope =>
      show OptionForm TextForm d.scope (Value.string (d.scope.getD "")).chunks
      cases hscope : d.scope with
      | none =>
        rw [writtenFields, if_pos hscope] at hf
        exact absurd hf (by decide)
      | some scope => exact textForm_chunks scope
    | base =>
      show OptionForm TypeRef.form d.base ((d.base.map TypeRef.toJson).getD .null).chunks
      cases hbase : d.base with
      | none => rfl
      | some r =>
        exact TypeRef.form_chunks (h.parents r (List.mem_append_left _ (by rw [hbase]; simp)))
    | interfaces =>
      exact listForm_chunks fun r hr =>
        TypeRef.form_chunks (h.parents r (List.mem_append_right _ hr))
    | isAbstract => exact booleanForm_chunks d.isAbstract
    | members => exact listForm_chunks fun _ _ => DescribedMember.form_chunks
  · intro f hf
    obtain ⟨rfl, hscope⟩ := hfields.2 f hf
    exact hscope

end Descriptor

/-! ## Catalogs -/

/-- What a reader takes is what it finds in a whole text. -/
theorem Json.Takes.whole {α : Type} {r : Reader α} {a : α} {F : Form}
    (h : ∀ ts, F ts → Takes r a ts) {s : Source} (hs : IsText F s) : r.whole s = .ok a := by
  obtain ⟨ts, x, w, hts, hx, hw, rfl⟩ := hs
  have hends : NumberEnds w := by
    have hnil : NumberEnds ([] : Source) := nofun
    simpa using numberEnds_blanks hw hnil
  have hrun := h ts hts x w hx hends
  have hblank : w.all isBlank = true := List.all_eq_true.2 hw
  rw [Reader.whole, hrun]
  show (if w.all isBlank then _ else _ : Except Fault α) = _
  rw [if_pos hblank]
  rfl

namespace Catalog

/-- Descriptors with names are all added. -/
theorem foldlM_insert (c : Catalog) {ds : List Descriptor}
    (h : ∀ d ∈ ds, Text.isBlankText d.name = false) :
    ds.foldlM insert c
      = .ok ⟨(ds.map fun d => (d.fullName, d)).foldl (fun m e => m.insert e.1 e.2) c.types⟩ := by
  induction ds generalizing c with
  | nil => rfl
  | cons d ds ih =>
    obtain ⟨hd, hds⟩ := List.forall_mem_cons.1 h
    rw [List.foldlM_cons, insert_ok c hd]
    exact ih _ hds

/-- Descriptors with names make a catalog: each under its full name, the later ones in the place of
the earlier ones. -/
theorem ofList_eq {ds : List Descriptor} (h : ∀ d ∈ ds, Text.isBlankText d.name = false) :
    ofList ds = .ok ⟨OrderedMap.ofList (ds.map fun d => (d.fullName, d))⟩ :=
  foldlM_insert empty h

/-- Where one of them has no name, none is added. -/
theorem ofList_blank {ds : List Descriptor} (h : ∃ d ∈ ds, Text.isBlankText d.name = true) :
    ofList ds = .error (.descriptor "descriptor name must not be empty") := by
  rw [ofList]
  generalize empty = c
  induction ds generalizing c with
  | nil => simp at h
  | cons d ds ih =>
    rw [List.foldlM_cons]
    by_cases hd : Text.isBlankText d.name = true
    · rw [insert_blank c hd]
      rfl
    · rw [insert_ok c (Bool.eq_false_iff.2 hd)]
      refine ih ?_ _
      obtain ⟨e, he, hblank⟩ := h
      rcases List.mem_cons.1 he with rfl | he
      · exact absurd hblank hd
      · exact ⟨e, he, hblank⟩

/-- The texts of a list of descriptors. -/
def IsTextOf (ds : List Descriptor) : Source → Prop := IsText (ListForm Descriptor.form ds)

/-- Descriptors with names are loaded from every text of them, as the catalog that they make; and
what they are written as is such a text. -/
theorem ofJson_form (ds : List Descriptor) (hnames : ∀ d ∈ ds, Text.isBlankText d.name = false)
    (hrange : ∀ d ∈ ds, d.InRange) :
    ofList ds = .ok ⟨OrderedMap.ofList (ds.map fun d => (d.fullName, d))⟩ ∧
      (∀ s, IsTextOf ds s → ofJson s = ofList ds) ∧
      IsTextOf ds (Source.ofString (Value.list (ds.map Descriptor.toJson)).compact) := by
  refine ⟨ofList_eq hnames, ?_, ?_⟩
  · intro s hs
    have hwhole : (Reader.list Descriptor.reader).whole s = .ok ds :=
      Takes.whole (fun ts => takes_list (fun _ _ => Descriptor.takes_reader)
        fun _ _ => opensOff_record) hs
    rw [ofJson, Reader.result, hwhole]
    rfl
  · exact Value.isText_compact (listForm_chunks fun d hd => Descriptor.form_chunks (hrange d hd))

def circle : Descriptor :=
  { name := "Circle", members := [{ kind := .field, name := "r", type := "int" }] }

/-- A text of it: the fields in another order, those with the value that they have when absent left
out, the other name of a type, one unknown field, and some blanks. -/
def circleText : String :=
  "[ \x7b\"members\":[\x7b\"type\":\"int\",\"kind\":\"field\",\"name\" : \"r\"\x7d]," ++
    "\n\t\"tags\":[null,\"\\ud800\"],\"name\":\"Circle\"\x7d ]\n"

def fieldEntries : List NamedEntry :=
  [⟨"type", ⟨stringChunk "type", [stringChunk "int"]⟩⟩,
    ⟨"kind", ⟨stringChunk "kind", [stringChunk "field"]⟩⟩,
    ⟨"name", ⟨stringChunk "name", [stringChunk "r"]⟩⟩]

def circleEntries : List NamedEntry :=
  [⟨"members", ⟨stringChunk "members",
      listChunks [objectChunks (fieldEntries.map NamedEntry.entry)]⟩⟩,
    ⟨"tags", ⟨stringChunk "tags", listChunks [["null".toList], [quotedChunk "\\ud800".toList]]⟩⟩,
    ⟨"name", ⟨stringChunk "name", [stringChunk "Circle"]⟩⟩]

theorem form_field : DescribedMember.form { kind := .field, name := "r", type := "int" }
    (objectChunks (fieldEntries.map NamedEntry.entry)) := by
  refine ⟨fieldEntries, ⟨?_, ?_, ?_, ?_⟩, rfl⟩
  · simp only [fieldEntries, List.mem_cons, List.not_mem_nil, or_false, forall_eq_or_imp, forall_eq]
    exact ⟨isString_stringChunk _, isString_stringChunk _, isString_stringChunk _⟩
  · simp only [fieldEntries, List.mem_cons, List.not_mem_nil, or_false, forall_eq_or_imp, forall_eq]
    exact ⟨.inl ⟨.type, by decide, _, isString_stringChunk _, rfl⟩,
      .inl ⟨.kind, by decide, _, isString_stringChunk _, rfl⟩,
      .inl ⟨.name, by decide, _, isString_stringChunk _, rfl⟩⟩
  · simp only [fieldEntries, List.pairwise_cons, List.mem_cons, List.not_mem_nil, or_false,
      forall_eq_or_imp, forall_eq]
    refine ⟨⟨?_, ?_⟩, ?_, nofun, .nil⟩
    · rintro (_ | _) <;> decide
    · rintro (_ | _) <;> decide
    · rintro (_ | _) <;> decide
  · rintro (_ | _)
    · exact .inl ⟨_, .tail _ (.head _), by decide⟩
    · exact .inl ⟨_, .tail _ (.tail _ (.head _)), by decide⟩
    · exact .inl ⟨_, .head _, by decide⟩
    · exact .inr rfl
    · exact .inr rfl
    · exact .inr rfl
    · exact .inr rfl

theorem form_circle : circle.form (objectChunks (circleEntries.map NamedEntry.entry)) := by
  have htags : IsJson (listChunks [["null".toList], [quotedChunk "\\ud800".toList]]) := by
    have hcode : IsCode "d800".toList 0xD800 :=
      IsCode.mk (i := 13) (j := 8) (k := 0) (l := 0) (by decide) (by decide) (by decide) (by decide)
    have hbody : IsBody "\\ud800".toList := .code hcode .nil
    refine .list ?_
    simp only [List.mem_cons, List.not_mem_nil, or_false, forall_eq_or_imp, forall_eq]
    exact ⟨.constant (by decide), .string ⟨_, hbody, rfl⟩⟩
  refine ⟨circleEntries, ⟨?_, ?_, ?_, ?_⟩, rfl⟩
  · simp only [circleEntries, List.mem_cons, List.not_mem_nil, or_false, forall_eq_or_imp,
      forall_eq]
    exact ⟨isString_stringChunk _, isString_stringChunk _, isString_stringChunk _⟩
  · simp only [circleEntries, List.mem_cons, List.not_mem_nil, or_false, forall_eq_or_imp,
      forall_eq]
    refine ⟨.inl ⟨.members, by decide, _, .cons form_field .nil, rfl⟩, .inr ⟨?_, htags⟩,
      .inl ⟨.name, by decide, _, isString_stringChunk _, rfl⟩⟩
    rintro (_ | _) <;> decide
  · simp only [circleEntries, List.pairwise_cons, List.mem_cons, List.not_mem_nil, or_false,
      forall_eq_or_imp, forall_eq]
    refine ⟨⟨?_, ?_⟩, ?_, nofun, .nil⟩
    · rintro (_ | _) <;> decide
    · rintro (_ | _) <;> decide
    · rintro (_ | _) <;> decide
  · rintro (_ | _)
    · exact .inl ⟨_, .tail _ (.tail _ (.head _)), by decide⟩
    · exact .inr rfl
    · exact .inr rfl
    · exact .inr rfl
    · exact .inr rfl
    · exact .inr rfl
    · exact .inl ⟨_, .head _, by decide⟩

theorem ofJson_form_circle :
    ofJson (Source.ofString circleText) = .ok ⟨⟨[("Circle", circle)]⟩⟩ ∧
      ofJson (Source.ofString (Value.list [circle.toJson]).compact)
        = .ok ⟨⟨[("Circle", circle)]⟩⟩ := by
  have hnames : ∀ d ∈ [circle], Text.isBlankText d.name = false := by decide
  have hrange : ∀ d ∈ [circle], d.InRange := by
    intro d hd
    rw [List.mem_singleton.1 hd]
    exact ⟨by decide, nofun⟩
  obtain ⟨hcatalog, hload, hown⟩ := ofJson_form [circle] hnames hrange
  have htext : IsTextOf [circle] (Source.ofString circleText) := by
    have hbehind : behind? (listChunks [objectChunks (circleEntries.map NamedEntry.entry)])
        (Source.ofString circleText) = some [some '\n'] := by
      decide +kernel
    obtain ⟨x, hx, htext⟩ := spaced_of_behind? hbehind
    exact ⟨_, x, [some '\n'], ⟨_, .cons form_circle .nil, rfl⟩, hx, by decide, htext⟩
  exact ⟨(hload _ htext).trans hcatalog, (hload _ hown).trans hcatalog⟩

end Catalog

end ClassDiagram
