import Mathlib.Data.List.Nodup
import Mathlib.Data.List.Pairwise
import ClassDiagram.Json.Record
import ClassDiagram.Proofs.Json.Skipping

/-! # Reading records

The entries of an object fill in the fields that their keys spell, one after another; what other
keys have is passed over.  As no field is given twice, the order does not matter, and a field that
is not given has the value it has when absent.

* `Draft.fill_apply`: the fields that are filled in, and those that are left;
* `RecordFormat.field?_eq_some_iff`: which field a key spells;
* `RecordFormat.run_keyedWithin`: all entries of an object;
* `RecordFormat.takes_record`: a record is read from every object of its form.
-/

namespace ClassDiagram.Json

open Reader

namespace Draft

variable {F : Type} {V : F → Type} [DecidableEq F]

def fill (d : Draft V) (v : (f : F) → V f) (fs : List F) : Draft V :=
  fs.foldl (fun d f => d.set f (v f)) d

theorem fill_apply (d : Draft V) (v : (f : F) → V f) (fs : List F) (f : F) :
    d.fill v fs f = if f ∈ fs then some (v f) else d f := by
  induction fs generalizing d with
  | nil => rfl
  | cons g fs ih =>
    rw [fill, List.foldl_cons]
    show (d.set g (v g)).fill v fs f = _
    rw [ih]
    by_cases hf : f ∈ fs
    · rw [if_pos hf, if_pos (List.mem_cons_of_mem g hf)]
    · by_cases hg : g = f
      · subst hg
        rw [if_neg hf, if_pos List.mem_cons_self, set_same]
      · have hnot : f ∉ g :: fs := List.not_mem_cons_of_ne_of_not_mem (Ne.symm hg) hf
        rw [if_neg hf, if_neg hnot, set_other d (v g) hg]

end Draft

/-- In front of another key, or of the comma before it. -/
theorem run_anotherKey {first : Bool} {body : List Char} {ts : List Chunk} {x : Source}
    (hx : Spaced ((if first then [] else [[',']]) ++ (quotedChunk body :: ts)) x) :
    ∃ y, Spaced ts y ∧ ∀ rest, (anotherKey first).run (x ++ rest)
      = .ok (true, some '"' :: (body.map some ++ some '"' :: (y ++ rest))) := by
  cases first with
  | true =>
    obtain ⟨y, hy, _, hnext⟩ := Spaced.next (c := '"') hx rfl
    refine ⟨y, hy, fun rest => ?_⟩
    rw [anotherKey, run_bind_of (hnext _ _), map_quotedChunk]
    rfl
  | false =>
    obtain ⟨z, hz, _, hcomma⟩ := Spaced.sign (c := ',') hx rfl
    obtain ⟨y, hy, _, hnext⟩ := hz.next (c := '"') rfl
    refine ⟨y, hy, fun rest => ?_⟩
    rw [anotherKey, run_bind_of (hcomma _ _)]
    show (advance >>= fun _ => Reader.next .value >>= fun u => _).run _ = _
    rw [run_bind_of (run_advance_cons _ _), run_bind_of (hnext _ _), map_quotedChunk]
    rfl

namespace RecordFormat

variable {F : Type} {V : F → Type} (format : RecordFormat F V)

def names (f : F) : List String := format.name f :: (format.otherName f).toList

/-- Names that are listed once each are names of one field each. -/
theorem field_unique (h : (format.fields.flatMap format.names).Nodup) {key : String} {f g : F}
    (hf : key ∈ format.names f) (hg : key ∈ format.names g) : f = g := by
  by_contra hne
  have hsymm : Std.Symm (Function.onFun List.Disjoint format.names) :=
    ⟨fun _ _ hd _ hg hf => hd hf hg⟩
  exact (List.nodup_flatMap.1 h).2.forall (format.mem_fields f) (format.mem_fields g) hne hf hg

/-- Where no name is one of two fields, a key spells the field that it is a name of. -/
theorem field?_eq_some_iff (h : (format.fields.flatMap format.names).Nodup) {key : String} {f : F} :
    format.field? key = some f ↔ key ∈ format.names f := by
  have hspells : ∀ f, (format.name f == key || format.otherName f == some key) = true
      ↔ key ∈ format.names f := by
    intro f
    simp only [names, Bool.or_eq_true, beq_iff_eq, List.mem_cons, Option.mem_toList]
    exact or_congr eq_comm Iff.rfl
  have hfound : ∀ g, format.field? key = some g → key ∈ format.names g := fun g hfield =>
    (hspells g).1 (@List.find?_some _
      (fun g => format.name g == key || format.otherName g == some key) _ _ hfield)
  constructor
  · exact hfound f
  · intro hkey
    cases hfield : format.field? key with
    | none =>
      have hnone := List.find?_eq_none.1 hfield f (format.mem_fields f)
      exact absurd ((hspells f).2 hkey) hnone
    | some g => rw [format.field_unique h hkey (hfound g hfield)]

variable [DecidableEq F]

def given (entries : List NamedEntry) : List F := entries.filterMap fun e => format.field? e.name

/-- The entries of an object fill in the fields that they give. -/
theorem run_keyedWithin {v : (f : F) → V f} {entries : List NamedEntry}
    (hkeys : ∀ e ∈ entries, IsString e.name e.entry.key)
    (hknown : ∀ e ∈ entries, ∀ f, format.field? e.name = some f →
      Takes (format.read f) (v f) e.entry.value)
    (hunknown : ∀ e ∈ entries, format.field? e.name = none → IsJson e.entry.value)
    (honce : (format.given entries).Nodup) {d : Draft V}
    (hd : ∀ f ∈ format.given entries, d f = none)
    {first : Bool} {x : Source}
    (hx : Spaced (commaSeparated first (entries.map fun e => e.entry.chunks) ++ [['\x7d']]) x)
    {bound : Nat} (hbound : entries.length < bound) (rest : Source) :
    (format.keyedWithin bound first d).run (x ++ rest)
      = .ok (d.fill v (format.given entries), some '\x7d' :: rest) := by
  induction entries generalizing first x bound d with
  | nil =>
    obtain ⟨bound, rfl⟩ := Nat.exists_eq_succ_of_ne_zero (Nat.ne_zero_of_lt hbound)
    have hclose := Spaced.single (c := '\x7d') (t := []) hx rfl
    have hend : (anotherKey first).run (x ++ rest) = .ok (false, some '\x7d' :: rest) := by
      rw [anotherKey, run_bind_of (hclose _ _)]
      rfl
    rw [keyedWithin, run_bind_of hend]
    rfl
  | cons e entries ih =>
    obtain ⟨bound, rfl⟩ := Nat.exists_eq_succ_of_ne_zero (Nat.ne_zero_of_lt hbound)
    obtain ⟨⟨body, hbody, hkey⟩, hkeys⟩ := List.forall_mem_cons.1 hkeys
    obtain ⟨hknownFirst, hknown⟩ := List.forall_mem_cons.1 hknown
    obtain ⟨hunknownFirst, hunknown⟩ := List.forall_mem_cons.1 hunknown
    have hnext := Nat.lt_of_succ_lt_succ hbound
    rw [List.map_cons, commaSeparated, List.append_assoc, List.append_assoc, Entry.chunks,
      hkey] at hx
    obtain ⟨y, hy, hmore⟩ := run_anotherKey hx
    obtain ⟨z, hz, _, hcolon⟩ := run_colon hy
    obtain ⟨u, w, hu, hw, rfl⟩ := Spaced.append_inv hz
    have hends := numberEnds_commaSeparated hw (by decide) rest
    rw [keyedWithin, run_bind_of (hmore rest), if_pos rfl, run_bind_of (run_advance_cons _ _),
      run_bind_of (run_stringRest hbody _)]
    cases hfield : format.field? e.name with
    | none =>
      have hgiven : format.given (e :: entries) = format.given entries :=
        List.filterMap_cons_none (f := fun e : NamedEntry => format.field? e.name) hfield
      rw [hgiven] at honce hd ⊢
      show (colon >>= fun _ => skip >>= fun _ => format.keyedWithin bound false d).run _ = _
      rw [run_bind_of (hcolon rest), List.append_assoc,
        run_bind_of (takes_skip (hunknownFirst hfield) u _ hu hends)]
      exact ih hkeys hknown hunknown honce hd hw hnext
    | some f =>
      have hgiven : format.given (e :: entries) = f :: format.given entries :=
        List.filterMap_cons_some (f := fun e : NamedEntry => format.field? e.name) hfield
      rw [hgiven] at honce hd ⊢
      obtain ⟨hf, honce⟩ := List.nodup_cons.1 honce
      obtain ⟨hdf, hd⟩ := List.forall_mem_cons.1 hd
      have hd' : ∀ g ∈ format.given entries, d.set f (v f) g = none := by
        intro g hg
        have hne : f ≠ g := fun heq => hf (heq ▸ hg)
        rw [Draft.set_other d (v f) hne, hd g hg]
      show ((if (d f).isSome then _ else colon >>= fun _ => format.read f >>= fun v =>
        format.keyedWithin bound false (d.set f v)) : Reader (Draft V)).run _ = _
      rw [hdf, if_neg (by simp), run_bind_of (hcolon rest), List.append_assoc,
        run_bind_of (hknownFirst f hfield u _ hu hends)]
      exact ih hkeys hknown hunknown honce hd' hw hnext

/-- A record is read from every object of its form. -/
theorem takes_record {slot : F → Slot} {v : (f : F) → V f}
    (hnames : ∀ f, (slot f).keys = format.names f)
    (hdistinct : (format.fields.flatMap format.names).Nodup)
    (hvalue : ∀ f ts, (slot f).value ts → Takes (format.read f) (v f) ts)
    (homittable : ∀ f, (slot f).omittable → format.absent f = some (v f)) {ts : List Chunk}
    (h : RecordForm slot ts) : Takes format.reader v ts := by
  obtain ⟨entries, ⟨hkeys, hvalues, honce, hpresent⟩, rfl⟩ := h
  have hfield : ∀ {key f}, format.field? key = some f ↔ key ∈ (slot f).keys := by
    intro key f
    rw [format.field?_eq_some_iff hdistinct, hnames]
  have hknown : ∀ e ∈ entries, ∀ f, format.field? e.name = some f →
      Takes (format.read f) (v f) e.entry.value := by
    intro e he f hf
    rcases hvalues e he with ⟨g, hg, hval⟩ | ⟨hnone, _⟩
    · have hsame : f = g := Option.some.inj (hf.symm.trans (hfield.2 hg))
      exact hsame ▸ hvalue g _ hval
    · exact absurd (hfield.1 hf) (hnone f)
  have hunknown : ∀ e ∈ entries, format.field? e.name = none → IsJson e.entry.value := by
    intro e he hnone
    rcases hvalues e he with ⟨g, hg, _⟩ | ⟨_, hjson⟩
    · rw [hfield.2 hg] at hnone
      cases hnone
    · exact hjson
  have hgiven : (format.given entries).Nodup := by
    rw [given, List.Nodup, List.pairwise_filterMap]
    refine honce.imp ?_
    intro e e' hdiffer f hf g hg heq
    exact hdiffer f (hfield.1 hf) (hfield.1 (heq ▸ hg))
  have hvalue? : ∀ f, format.value? (Draft.empty.fill v (format.given entries)) f = some (v f) := by
    intro f
    rw [value?, Draft.fill_apply]
    by_cases hf : f ∈ format.given entries
    · rw [if_pos hf]
      rfl
    · rw [if_neg hf]
      rcases hpresent f with ⟨e, he, hkey⟩ | homit
      · exact absurd (List.mem_filterMap.2 ⟨e, he, hfield.2 hkey⟩) hf
      · exact homittable f homit
  intro x rest hx hrest
  obtain ⟨y, hy, _, hopen⟩ := Spaced.sign (c := '\x7b') hx rfl
  rw [List.map_map] at hy
  have hbound : entries.length < (y ++ rest).length + 1 := by
    have hle := length_le_of_commaSeparated hy
    rw [List.length_map] at hle
    rw [List.length_append]
    omega
  have hrun := format.run_keyedWithin hkeys hknown hunknown hgiven (d := Draft.empty)
    (fun _ _ => rfl) hy hbound rest
  have hcomplete : format.complete (Draft.empty.fill v (format.given entries)) = pure v := by
    rw [complete, (format.complete?_eq_some_iff _ v).2 hvalue?]
  rw [reader, run_bind_of (hopen _ _)]
  show (advance >>= fun _ => format.keyed).run _ = _
  rw [run_bind_of (run_advance_cons _ _), keyed, run_bind_of (run_get _), run_bind_of hrun,
    hcomplete]
  rfl

end RecordFormat

end ClassDiagram.Json
