import Mathlib.Data.List.Induction
import ClassDiagram.Proofs.Descriptor.Loading
import ClassDiagram.Proofs.Descriptor.Lookup

/-! # Catalogs under any operations

A catalog comes from the empty one by loads, which put another catalog in its place, and by
insertions.  An operation is refused when what it brings cannot be read or has a descriptor without
a name; then nothing changes.  What the catalog holds is what was accepted since the last load: each
full name where it first came up, with the descriptor that came last.

* `Catalog.attempt_of_accepted`, `Catalog.attempt_of_refused`: what an operation does, and when it
  fails;
* `Catalog.types_replay`: what any operations leave;
* `Catalog.replay_keyed`: the entries of a catalog after any operations, and what is found there;
* `Catalog.lookup?_fullName_replay`: which descriptors are found under their own full names.
-/

namespace ClassDiagram.Catalog

open Request

/-! ## Operations -/

/-- An operation on catalogs: a load, from a JSON text or from descriptors, or an insertion. -/
inductive Operation where
  | load (s : Json.Source)
  | loadList (ds : List Descriptor)
  | insert (d : Descriptor)

/-- The catalog that an operation makes of another one, or why it fails. -/
def attempt (c : Catalog) : Operation → Except Error Catalog
  | .load s => ofJson s
  | .loadList ds => ofList ds
  | .insert d => c.insert d

/-- The catalog after an operation; one that fails leaves it as it was. -/
def after (c : Catalog) (op : Operation) : Catalog := (c.attempt op).toOption.getD c

def replay (ops : List Operation) : Catalog := ops.foldl after empty

namespace Operation

/-- The descriptors that an operation brings, if they can be read. -/
def brought : Operation → Option (List Descriptor)
  | .load s => ((Json.Reader.list Descriptor.reader).result s).toOption
  | .loadList ds => some ds
  | .insert d => some [d]

/-- The descriptors that are accepted from an operation: all of them, if all have names. -/
def accepted? (op : Operation) : Option (List Descriptor) :=
  op.brought.filter fun ds => ds.all fun d => !Text.isBlankText d.name

/-- Whether the operation puts another catalog in the place of the old one. -/
def isLoad : Operation → Bool
  | .load _ | .loadList _ => true
  | .insert _ => false

variable {op : Operation} {ds : List Descriptor}

theorem accepted?_eq_some_iff : op.accepted? = some ds ↔
    op.brought = some ds ∧ ∀ d ∈ ds, Text.isBlankText d.name = false := by
  simp [accepted?, Option.filter_eq_some_iff]

/-- What is refused cannot be read, or has a descriptor without a name. -/
theorem accepted?_eq_none_iff : op.accepted? = none ↔
    op.brought = none ∨
      ∃ ds, op.brought = some ds ∧ ∃ d ∈ ds, Text.isBlankText d.name = true := by
  rw [accepted?]
  cases op.brought <;> simp

end Operation

def acceptedAfter (ds : List Descriptor) (op : Operation) : List Descriptor :=
  match op.accepted? with
  | none => ds
  | some es => if op.isLoad then es else ds ++ es

/-- The descriptors accepted since the last load that succeeded, in order. -/
def accepted (ops : List Operation) : List Descriptor := ops.foldl acceptedAfter []

/-! ## One operation -/

variable {op : Operation} {ds : List Descriptor}

/-- What is accepted is written behind the old entries, or on its own. -/
theorem attempt_of_accepted (c : Catalog) (h : op.accepted? = some ds) :
    c.attempt op = .ok ⟨(ds.map fun d => (d.fullName, d)).foldl (fun m e => m.insert e.1 e.2)
      (if op.isLoad then .empty else c.types)⟩ := by
  obtain ⟨hbrought, hnamed⟩ := Operation.accepted?_eq_some_iff.1 h
  cases op with
  | load s =>
    have hread : (Json.Reader.list Descriptor.reader).result s = .ok ds := ok_of_toOption hbrought
    rw [attempt, ofJson, hread]
    exact ofList_eq hnamed
  | loadList es =>
    cases hbrought
    exact ofList_eq hnamed
  | insert d =>
    cases hbrought
    exact c.insert_ok (hnamed d List.mem_cons_self)

theorem attempt_of_refused (c : Catalog) (h : op.accepted? = none) :
    ∃ e, c.attempt op = .error e := by
  rcases Operation.accepted?_eq_none_iff.1 h with hnone | ⟨ds, hbrought, hblank⟩
  · cases op with
    | load s =>
      cases hread : (Json.Reader.list Descriptor.reader).result s with
      | error e => exact ⟨e, by rw [attempt, ofJson, hread]; rfl⟩
      | ok ds => rw [Operation.brought, hread] at hnone; cases hnone
    | loadList ds => cases hnone
    | insert d => cases hnone
  · cases op with
    | load s =>
      have hread : (Json.Reader.list Descriptor.reader).result s = .ok ds :=
        ok_of_toOption hbrought
      exact ⟨_, by rw [attempt, ofJson, hread]; exact ofList_blank hblank⟩
    | loadList es =>
      cases hbrought
      exact ⟨_, ofList_blank hblank⟩
    | insert d =>
      cases hbrought
      exact ⟨_, c.insert_blank (by simpa using hblank)⟩

theorem attempt_eq_ok_iff (c : Catalog) : (∃ c', c.attempt op = .ok c') ↔
    ∃ ds, op.brought = some ds ∧ ∀ d ∈ ds, Text.isBlankText d.name = false := by
  simp only [← Operation.accepted?_eq_some_iff]
  cases h : op.accepted? with
  | none =>
    obtain ⟨e, he⟩ := c.attempt_of_refused h
    simp [he]
  | some ds => simp [c.attempt_of_accepted h]

/-- A failure changes neither the catalog nor what counts as accepted. -/
theorem after_of_error {c : Catalog} {e : Error} (h : c.attempt op = .error e)
    (ds : List Descriptor) : c.after op = c ∧ acceptedAfter ds op = ds := by
  refine ⟨by rw [after, h]; rfl, ?_⟩
  cases haccepted : op.accepted? with
  | none => rw [acceptedAfter, haccepted]
  | some es =>
    rw [c.attempt_of_accepted haccepted] at h
    cases h

/-! ## Any operations -/

theorem replay_snoc (ops : List Operation) (op : Operation) :
    replay (ops ++ [op]) = (replay ops).after op := by
  rw [replay, List.foldl_append]
  rfl

theorem accepted_snoc (ops : List Operation) (op : Operation) :
    accepted (ops ++ [op]) = acceptedAfter (accepted ops) op := by
  rw [accepted, List.foldl_append]
  rfl

/-- The catalog is made of what was accepted since the last load. -/
theorem types_replay (ops : List Operation) :
    (replay ops).types = .ofList ((accepted ops).map fun d => (d.fullName, d)) := by
  induction ops using List.reverseRecOn with
  | nil => rfl
  | append_singleton ops op ih =>
    rw [replay_snoc, accepted_snoc]
    cases h : op.accepted? with
    | none =>
      obtain ⟨e, he⟩ := (replay ops).attempt_of_refused h
      obtain ⟨hsame, haccepted⟩ := after_of_error he (accepted ops)
      rw [hsame, haccepted, ih]
    | some ds =>
      rw [after, attempt_of_accepted _ h, acceptedAfter, h]
      cases hload : op.isLoad with
      | true => rfl
      | false =>
        -- an insertion goes on where the accepted ones end
        show ((ds.map fun d => (d.fullName, d)).foldl _ (replay ops).types) = _
        rw [ih, OrderedMap.ofList, OrderedMap.ofList, ← List.foldl_append, ← List.map_append]
        rfl

theorem named_accepted (ops : List Operation) :
    ∀ d ∈ accepted ops, Text.isBlankText d.name = false := by
  induction ops using List.reverseRecOn with
  | nil => exact nofun
  | append_singleton ops op ih =>
    rw [accepted_snoc, acceptedAfter]
    cases h : op.accepted? with
    | none => exact ih
    | some ds =>
      obtain ⟨_, hnamed⟩ := Operation.accepted?_eq_some_iff.1 h
      cases op.isLoad with
      | true => exact hnamed
      | false => exact List.forall_mem_append.2 ⟨ih, hnamed⟩

/-- Under a full name there is the descriptor that was accepted last. -/
theorem get?_replay (ops : List Operation) (k : String) :
    (replay ops).types.get? k = ((accepted ops).filter (·.fullName = k)).getLast? := by
  rw [types_replay, OrderedMap.get?_ofList, OrderedMap.lastValue, List.filter_map,
    List.getLast?_map, Option.map_map]
  exact Option.map_id_fun' ▸ rfl

theorem names_replay (ops : List Operation) :
    (replay ops).names = ((accepted ops).map Descriptor.fullName).eraseDups := by
  rw [names, types_replay, OrderedMap.keys_ofList, OrderedSet.items_ofList, List.map_map]
  rfl

theorem WellFormed.replay (ops : List Operation) : (replay ops).WellFormed := by
  have hdistinct : (Catalog.replay ops).names.Nodup := by
    rw [names, types_replay]
    exact OrderedMap.nodup_ofList _
  have hget : ∀ k d, (Catalog.replay ops).types.get? k = some d →
      d ∈ accepted ops ∧ d.fullName = k := by
    intro k d hd
    rw [get?_replay] at hd
    obtain ⟨hmem, hk⟩ := List.mem_filter.1 (List.mem_of_getLast? hd)
    exact ⟨hmem, of_decide_eq_true hk⟩
  refine ⟨hdistinct, fun k d hd => (hget k d hd).2, fun d hd => ?_⟩
  obtain ⟨⟨k, d'⟩, he, rfl⟩ := List.mem_map.1 hd
  exact named_accepted ops d' (hget k d' ((OrderedMap.mem_entries_iff hdistinct).1 he)).1

/-- After any operations, failing ones among them, a catalog holds what was accepted since the last
load: each full name where it first came up, with the descriptor that came last.  A name finds the
descriptor whose full name it comes to, else the first one with that short name, and nothing just if
no descriptor has the one or the other. -/
theorem replay_keyed (ops : List Operation) :
    ((replay ops).names = ((accepted ops).map Descriptor.fullName).eraseDups ∧
        (replay ops).types.entries = (replay ops).names.filterMap fun k =>
          ((accepted ops).filter (·.fullName = k)).getLast?.map fun d => (k, d)) ∧
      (∀ op : Operation, (∃ c, (replay ops).attempt op = .ok c) ↔
        ∃ ds, op.brought = some ds ∧ ∀ d ∈ ds, Text.isBlankText d.name = false) ∧
      (∀ (op : Operation) (e : Error), (replay ops).attempt op = .error e →
        replay (ops ++ [op]) = replay ops ∧ accepted (ops ++ [op]) = accepted ops) ∧
      ∀ name : String,
        (∀ d, (replay ops).lookup? name = some d ↔
          d ∈ (replay ops).descriptors ∧ d.fullName = sought name ∨
            (∀ e ∈ (replay ops).descriptors, e.fullName ≠ sought name) ∧
              FirstShort (replay ops).descriptors (sought name) d) ∧
        ((replay ops).lookup? name = none ↔
          ∀ e ∈ (replay ops).descriptors, e.fullName ≠ sought name ∧ e.shortName ≠ sought name) := by
  have hwell := WellFormed.replay ops
  refine ⟨⟨names_replay ops, ?_⟩, fun _ => attempt_eq_ok_iff _, ?_, fun name =>
    ⟨fun d => hwell.lookup?_eq_some_iff, hwell.lookup?_eq_none_iff⟩⟩
  · rw [OrderedMap.entries_eq_filterMap hwell.distinct]
    simp only [get?_replay]
    rfl
  · intro op e he
    rw [replay_snoc, accepted_snoc]
    exact after_of_error he (accepted ops)

/-- A descriptor that the load behind it removes, two with the same bare name, one in the place of
the first of them, and one without a name. -/
def atlas : List Operation :=
  [.insert { name := "Point" },
    .load (.ofString "[\x7b\"name\":\"Pin\"\x7d]"),
    .insert { name := "Map", scope := some "Geo" },
    .insert { name := "Map", scope := some "Site" },
    .insert { name := "Map", scope := some "Geo", isAbstract := true },
    .insert { name := " " }]

def namelessLoad : Operation := .loadList [{ name := "Road" }, { name := " " }]

theorem replay_keyed_atlas :
    (replay atlas).types.entries
        = [("Pin", { name := "Pin" }),
          ("Geo.Map", { name := "Map", scope := some "Geo", isAbstract := true }),
          ("Site.Map", { name := "Map", scope := some "Site" })] ∧
      (replay atlas).attempt namelessLoad
        = .error (.descriptor "descriptor name must not be empty") ∧
      replay (atlas ++ [namelessLoad]) = replay atlas ∧
      (replay atlas).lookup? " Map "
        = some { name := "Map", scope := some "Geo", isAbstract := true } ∧
      (replay atlas).lookup? "Pin<T>" = none := by
  obtain ⟨⟨hnames, hentries⟩, _, hfailure, hlookup⟩ := replay_keyed atlas
  have haccepted : accepted atlas
      = [{ name := "Pin" }, { name := "Map", scope := some "Geo" },
        { name := "Map", scope := some "Site" },
        { name := "Map", scope := some "Geo", isAbstract := true }] := by decide +kernel
  rw [hnames, haccepted] at hentries
  have hdescriptors : (replay atlas).descriptors
      = [{ name := "Pin" }] ++ { name := "Map", scope := some "Geo", isAbstract := true } ::
        [{ name := "Map", scope := some "Site" }] := by
    rw [descriptors, OrderedMap.values, hentries]
    decide +kernel
  have hrefused : (replay atlas).attempt namelessLoad
      = .error (.descriptor "descriptor name must not be empty") := rfl
  refine ⟨hentries.trans (by decide +kernel), hrefused, (hfailure namelessLoad _ hrefused).1,
    ((hlookup " Map ").1 _).2 (.inr ⟨?_, _, _, hdescriptors, by decide +kernel, ?_⟩),
    (hlookup "Pin<T>").2.2 ?_⟩
  · rw [hdescriptors]
    decide +kernel
  · decide +kernel
  · rw [hdescriptors]
    decide +kernel

/-! ## Descriptors under their own names -/

/-- After any operations a descriptor is found under its own full name if that has no blank at an end
and no opening bracket before a closing one.  Otherwise the name is looked up in another form, and
finds the descriptor only if no full name and no earlier short name is that form, but its own short
name is. -/
theorem lookup?_fullName_replay (ops : List Operation) {d : Descriptor}
    (hd : d ∈ (replay ops).descriptors) :
    (replay ops).lookup? d.fullName = some d ↔
      (((∀ c ∈ d.fullName.toList.head?, Text.isBlank c = false) ∧
          ∀ c ∈ d.fullName.toList.getLast?, Text.isBlank c = false) ∧
        ¬ ∃ u v w, d.fullName.toList = u ++ '<' :: v ++ '>' :: w) ∨
      (∀ e ∈ (replay ops).descriptors, e.fullName ≠ sought d.fullName) ∧
        FirstShort (replay ops).descriptors (sought d.fullName) d := by
  rw [(WellFormed.replay ops).lookup?_fullName hd, sought_eq_self_iff]

/-- A type whose scope looks like a request with type arguments. -/
def boxed : Descriptor := { name := "Box", arity := 1, scope := some "Box<>" }

theorem lookup?_boxed : boxed ∈ (replay [.insert boxed]).descriptors ∧
    (replay [.insert boxed]).lookup? "Box<>.Box`1" = some boxed := by
  have hmem : boxed ∈ (replay [.insert boxed]).descriptors := by decide +kernel
  refine ⟨hmem, (lookup?_fullName_replay [.insert boxed] hmem).2 (.inr ⟨?_, [], [], ?_, ?_, nofun⟩)⟩
  · decide +kernel
  · decide +kernel
  · decide +kernel

/-- The type that a compiler makes of an iterator. -/
def iterator : Descriptor := { name := "<Items>d__5" }

/-- It is accepted, but its own full name is looked up as that of a type with one argument. -/
theorem lookup?_iterator : iterator ∈ (replay [.insert iterator]).descriptors ∧
    (replay [.insert iterator]).lookup? iterator.fullName = none := by
  decide +kernel

end ClassDiagram.Catalog
