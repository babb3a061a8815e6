import ClassDiagram.Proofs.Json.Records

/-! # Writing values

What a value is written as on one line is a row of chunks without blanks between them, and it is of
the form that the value has.

* `encodes_flatMap`: the escapes of a string stand for its characters;
* `Value.flatten_chunks`: the text of a value is its chunks in a row;
* `RecordFormat.recordForm_chunks`: the fields of a record, in whatever order.
-/

namespace ClassDiagram.Json

/-! ## Strings -/

/-- The escape of a control character. -/
theorem isCode_control {c : Char} (h : c.toNat < 0x20) :
    IsCode ['0', '0', Value.hexDigit (c.toNat / 16), Value.hexDigit (c.toNat % 16)] c.toNat := by
  have hdigit : ∀ d < 16, (Value.hexDigit d, d) ∈ hexDigits := by decide
  have hzero : ('0', 0) ∈ hexDigits := by decide
  have hcode := IsCode.mk hzero hzero (hdigit (c.toNat / 16) (by omega))
    (hdigit (c.toNat % 16) (by omega))
  have hvalue : 16 * (16 * (16 * 0 + 0) + c.toNat / 16) + c.toNat % 16 = c.toNat := by omega
  rwa [hvalue] at hcode

theorem encodes_escapeChar (c : Char) {body cs : List Char} (h : Encodes body cs) :
    Encodes (Value.escapeChar c ++ body) (c :: cs) := by
  unfold Value.escapeChar
  split
  · exact .short (by decide) h
  · exact .short (by decide) h
  · exact .short (by decide) h
  · exact .short (by decide) h
  · exact .short (by decide) h
  · exact .short (by decide) h
  · exact .short (by decide) h
  · next hquote hslash _ _ _ _ _ =>
    by_cases hcontrol : c.toNat < 0x20
    · rw [if_pos hcontrol]
      have hencodes := Encodes.code (isCode_control hcontrol) (by omega) h
      rwa [Char.ofNat_toNat] at hencodes
    · rw [if_neg hcontrol]
      exact .plain ⟨Nat.le_of_not_lt hcontrol, hquote, hslash⟩ h

/-- The escapes of a string stand for its characters. -/
theorem encodes_flatMap (cs : List Char) : Encodes (cs.flatMap Value.escapeChar) cs := by
  induction cs with
  | nil => exact .nil
  | cons c cs ih => exact encodes_escapeChar c ih

/-! ## Chunks of a value -/

def stringChunk (s : String) : Chunk := quotedChunk (s.toList.flatMap Value.escapeChar)

theorem isString_stringChunk (s : String) : IsString s (stringChunk s) :=
  ⟨_, encodes_flatMap s.toList, rfl⟩

namespace Value

mutual

def chunks : Value → List Chunk
  | null => ["null".toList]
  | boolean b => [(toString b).toList]
  | natural n => [(toString n).toList]
  | string s => [stringChunk s]
  | list items => listChunks (itemChunks items)
  | object fields => objectChunks (entries fields)

def itemChunks : List Value → List (List Chunk)
  | [] => []
  | v :: rest => chunks v :: itemChunks rest

def entries : List (String × Value) → List Entry
  | [] => []
  | (k, v) :: rest => ⟨stringChunk k, chunks v⟩ :: entries rest

end

theorem itemChunks_eq (items : List Value) : itemChunks items = items.map chunks := by
  induction items with
  | nil => rfl
  | cons v rest ih => rw [itemChunks, ih, List.map_cons]

theorem entries_eq (fields : List (String × Value)) :
    entries fields = fields.map fun f => ⟨stringChunk f.1, f.2.chunks⟩ := by
  induction fields with
  | nil => rfl
  | cons f rest ih => rw [entries, ih, List.map_cons]

theorem toList_quoted (s : String) : (quoted s).toList = stringChunk s := by
  rw [quoted, String.toList_ofList]
  rfl

/-- Texts with commas between them are the rows of their chunks with commas between them. -/
theorem toList_intercalate {texts : List String} {items : List (List Chunk)}
    (h : List.Forall₂ (fun x ts => x.toList = ts.flatten) texts items) :
    (",".intercalate texts).toList = (commaSeparated true items).flatten := by
  induction h with
  | nil => rfl
  | @cons x ts texts items hx h ih =>
    cases h with
    | nil => simp [commaSeparated, hx]
    | cons hy h =>
      rw [String.intercalate_cons_cons, String.toList_append, String.toList_append, ih, hx]
      simp [commaSeparated]

mutual

/-- The text of a value is its chunks in a row. -/
theorem flatten_chunks : (v : Value) → v.compact.toList = v.chunks.flatten
  | null => by simp [compact, chunks]
  | boolean b => by simp [compact, chunks]
  | natural n => by simp [compact, chunks]
  | string s => by simp [compact, chunks, toList_quoted]
  | list items => by
    have hitems := toList_intercalate (flatten_itemChunks items)
    simp [compact, chunks, listChunks, hitems]
  | object fields => by
    have hfields := toList_intercalate (flatten_entries fields)
    simp [compact, chunks, objectChunks, hfields]

theorem flatten_itemChunks : (items : List Value) →
    List.Forall₂ (fun x ts => x.toList = ts.flatten) (compactItems items) (itemChunks items)
  | [] => .nil
  | v :: rest => .cons (flatten_chunks v) (flatten_itemChunks rest)

theorem flatten_entries : (fields : List (String × Value)) →
    List.Forall₂ (fun x ts => x.toList = ts.flatten) (compactFields fields)
      ((entries fields).map Entry.chunks)
  | [] => .nil
  | (k, v) :: rest => by
    refine .cons ?_ (flatten_entries rest)
    simp [Entry.chunks, flatten_chunks v, toList_quoted]

end

/-- What a value is written as is a text of each form that its chunks have. -/
theorem isText_compact {F : Form} {v : Value} (h : F v.chunks) :
    IsText F (Source.ofString v.compact) := by
  refine ⟨v.chunks, v.chunks.flatten.map some, [], h, .join _, nofun, ?_⟩
  rw [Source.ofString, flatten_chunks, List.append_nil]

end Value

/-! ## Forms -/

theorem textForm_chunks (s : String) : TextForm s (Value.string s).chunks :=
  ⟨_, isString_stringChunk s, by rw [Value.chunks]⟩

theorem booleanForm_chunks (b : Bool) : BooleanForm b (Value.boolean b).chunks := by
  rw [BooleanForm, Value.chunks]

theorem countForm_chunks {n : Nat} (h : n ≤ natLimit) : CountForm n (Value.natural n).chunks :=
  ⟨h, by rw [Value.chunks]⟩

theorem listForm_chunks {α : Type} {F : α → Form} {w : α → Value} {as : List α}
    (h : ∀ a ∈ as, F a (w a).chunks) : ListForm F as (Value.list (as.map w)).chunks := by
  refine ⟨(as.map w).map Value.chunks, ?_, ?_⟩
  · rw [List.map_map, List.forall₂_map_right_iff, List.forall₂_same]
    exact h
  · rw [Value.chunks, Value.itemChunks_eq]

namespace RecordFormat

variable {F : Type} {V : F → Type} (format : RecordFormat F V)

/-- The fields of a record under their own names, in whatever order; those that are left out may be
left out. -/
theorem recordForm_chunks {slot : F → Slot} (fs : List F) (w : F → Value)
    (hnames : ∀ f, (slot f).keys = format.names f)
    (hdistinct : (format.fields.flatMap format.names).Nodup) (hfs : fs.Nodup)
    (hvalue : ∀ f ∈ fs, (slot f).value (w f).chunks)
    (homittable : ∀ f, f ∉ fs → (slot f).omittable) :
    RecordForm slot (Value.object (fs.map fun f => (format.name f, w f))).chunks := by
  have hname : ∀ f g, format.name f ∈ (slot g).keys ↔ f = g := by
    intro f g
    rw [hnames]
    constructor
    · exact fun hg => format.field_unique hdistinct List.mem_cons_self hg
    · rintro rfl
      exact List.mem_cons_self
  refine ⟨fs.map fun f => ⟨format.name f, ⟨stringChunk (format.name f), (w f).chunks⟩⟩,
    ⟨?_, ?_, ?_, ?_⟩, ?_⟩
  · intro e he
    obtain ⟨f, _, rfl⟩ := List.mem_map.1 he
    exact isString_stringChunk _
  · intro e he
    obtain ⟨f, hf, rfl⟩ := List.mem_map.1 he
    exact .inl ⟨f, (hname f f).2 rfl, hvalue f hf⟩
  · rw [List.pairwise_map]
    refine hfs.imp ?_
    intro f g hne k hf hg
    exact hne (((hname f k).1 hf).trans ((hname g k).1 hg).symm)
  · intro f
    by_cases hf : f ∈ fs
    · exact .inl ⟨_, List.mem_map_of_mem hf, (hname f f).2 rfl⟩
    · exact .inr (homittable f hf)
  · rw [Value.chunks, Value.entries_eq, List.map_map, List.map_map]
    rfl

end RecordFormat

end ClassDiagram.Json
