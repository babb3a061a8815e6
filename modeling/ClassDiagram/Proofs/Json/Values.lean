import ClassDiagram.Proofs.Json.Numbers

/-! # Reading values of a kind

Strings, words, truth values, values that may be absent, and lists.  Where a reader looks at the
next unit to find out whether a value follows, it matters what values begin with.

* `takes_string`, `takes_choice`, `takes_boolean`: single values;
* `OpensOff`: what values do not begin with;
* `takes_optional`, `takes_list`: a value or nothing, and any number of values.
-/

namespace ClassDiagram.Json

open Reader

/-! ## Single values -/

theorem takes_string {s : String} {ts : List Chunk} (h : TextForm s ts) :
    Takes Reader.string s ts := by
  obtain ⟨_, ⟨body, hbody, rfl⟩, rfl⟩ := h
  intro x rest hx _
  have hnext := hx.single rfl
  have hcontent : content.run (x ++ rest) = .ok (.string s, rest) := by
    rw [content, run_bind_of (hnext _ _)]
    show (advance >>= fun _ => stringRest >>= fun s => pure (Content.string s)).run _ = _
    rw [run_bind_of (run_advance_cons _ _), map_quotedChunk,
      run_bind_of (run_stringRest hbody rest)]
    rfl
  rw [Reader.string, run_bind_of hcontent]
  rfl

theorem takes_choice {α : Type} {variants : List (String × α)} {word word' : String} {a : α}
    (hfind : variants.find? (·.1 == word) = some (word', a)) {ts : List Chunk}
    (h : TextForm word ts) : Takes (Reader.choice variants) a ts := by
  obtain ⟨_, ⟨body, hbody, rfl⟩, rfl⟩ := h
  intro x rest hx _
  have hnext := hx.single rfl
  rw [Reader.choice, run_bind_of (hnext _ _)]
  show (variant variants).run _ = _
  rw [variant, run_bind_of (run_advance_cons _ _), map_quotedChunk,
    run_bind_of (run_stringRest hbody rest), hfind]
  rfl

theorem takes_boolean {b : Bool} {ts : List Chunk} (h : BooleanForm b ts) :
    Takes Reader.boolean b ts := by
  subst h
  intro x rest hx _
  have hcontent : content.run (x ++ rest) = .ok (.boolean b, rest) := by
    cases b with
    | true =>
      have hnext := Spaced.single (c := 't') (t := "rue".toList) hx rfl
      rw [content, run_bind_of (hnext _ _)]
      exact run_bind_of (run_constant "true".toList rest)
    | false =>
      have hnext := Spaced.single (c := 'f') (t := "alse".toList) hx rfl
      rw [content, run_bind_of (hnext _ _)]
      exact run_bind_of (run_constant "false".toList rest)
  rw [Reader.boolean, run_bind_of hcontent]
  rfl

/-! ## What a value begins with -/

/-- A row of chunks whose first unit is no blank and none of some characters. -/
def OpensOff (avoided : List Char) (ts : List Chunk) : Prop :=
  ∃ c t us, ts = (c :: t) :: us ∧ isBlank (some c) = false ∧ c ∉ avoided

theorem OpensOff.append {avoided : List Char} {ts : List Chunk} (h : OpensOff avoided ts)
    (us : List Chunk) : OpensOff avoided (ts ++ us) := by
  obtain ⟨c, t, vs, rfl, hc, havoided⟩ := h
  exact ⟨c, t, vs ++ us, rfl, hc, havoided⟩

/-- To look at the next unit drops the blanks in front of it. -/
theorem Spaced.peek {avoided : List Char} {ts : List Chunk} {x : Source} (h : Spaced ts x)
    (hopens : OpensOff avoided ts) :
    ∃ c y, c ∉ avoided ∧ Spaced ts y ∧ y.length ≤ x.length ∧ ∀ inside rest,
      (Reader.next inside).run (x ++ rest) = .ok (some c, y ++ rest) := by
  obtain ⟨c, t, us, rfl, hc, havoided⟩ := hopens
  obtain ⟨y, hy, hlength, hnext⟩ := h.next hc
  refine ⟨c, some c :: (t.map some ++ y), havoided, @Spaced.cons [] _ (c :: t) us nofun hy, ?_, ?_⟩
  · simp only [List.length_cons, List.length_append, List.length_map]
    omega
  · intro inside rest
    rw [hnext inside rest]
    simp

theorem opensOff_text {s : String} {ts : List Chunk} (h : TextForm s ts) :
    OpensOff [']', 'n'] ts := by
  obtain ⟨_, ⟨body, _, rfl⟩, rfl⟩ := h
  exact ⟨'"', _, _, rfl, rfl, by decide⟩

theorem opensOff_record {F : Type} {slot : F → Slot} {ts : List Chunk} (h : RecordForm slot ts) :
    OpensOff [']', 'n'] ts := by
  obtain ⟨entries, _, rfl⟩ := h
  exact ⟨'\x7b', [], _, rfl, rfl, by decide⟩

/-! ## Values or nothing -/

theorem takes_optional {α : Type} {F : α → Form} {r : Reader α}
    (htakes : ∀ a ts, F a ts → Takes r a ts)
    (hopens : ∀ a ts, F a ts → OpensOff [']', 'n'] ts) {o : Option α} {ts : List Chunk}
    (h : OptionForm F o ts) : Takes (Reader.optional r) o ts := by
  intro x rest hx hrest
  cases o with
  | none =>
    obtain rfl : ts = ["null".toList] := h
    have hnext := Spaced.single (c := 'n') (t := "ull".toList) hx rfl
    rw [Reader.optional, run_bind_of (hnext _ _)]
    exact run_bind_of (run_constant "null".toList rest)
  | some a =>
    obtain ⟨c, y, hc, hy, _, hnext⟩ := hx.peek (hopens a ts h)
    rw [Reader.optional, run_bind_of (hnext _ _)]
    split
    · next heq =>
      cases heq
      exact absurd hc (by decide)
    · rw [run_bind_of (htakes a ts h y rest hy hrest)]
      rfl

/-! ## Lists -/

/-- In front of another element, or of the comma before it. -/
theorem run_anotherElement {first : Bool} {item ts : List Chunk} (hitem : OpensOff [']', 'n'] item)
    {x : Source} (hx : Spaced ((if first then [] else [[',']]) ++ (item ++ ts)) x) :
    ∃ y, Spaced (item ++ ts) y ∧
      ∀ rest, (anotherElement first).run (x ++ rest) = .ok (true, y ++ rest) := by
  have hopens := hitem.append ts
  cases first with
  | true =>
    obtain ⟨c, y, hc, hy, _, hnext⟩ := Spaced.peek hx hopens
    refine ⟨y, hy, fun rest => ?_⟩
    rw [anotherElement, run_bind_of (hnext _ _)]
    split
    · next heq =>
      cases heq
      exact absurd hc (by decide)
    · rfl
  | false =>
    obtain ⟨z, hz, _, hcomma⟩ := Spaced.sign (c := ',') hx rfl
    obtain ⟨c, y, hc, hy, _, hnext⟩ := hz.peek hopens
    refine ⟨y, hy, fun rest => ?_⟩
    rw [anotherElement, run_bind_of (hcomma _ _)]
    show (advance >>= fun _ => Reader.next .value >>= fun u => _).run _ = _
    rw [run_bind_of (run_advance_cons _ _), run_bind_of (hnext _ _)]
    split
    · next heq =>
      cases heq
      exact absurd hc (by decide)
    · rfl

theorem Spaced.length_le {ts : List Chunk} {x : Source} (h : Spaced ts x) :
    ts.flatten.length ≤ x.length := by
  induction h with
  | nil => exact Nat.le_refl 0
  | cons _ _ ih =>
    simp only [List.flatten_cons, List.length_append, List.length_map]
    omega

/-- A row of items with a sign behind it is at least as long as there are items. -/
theorem length_le_of_commaSeparated {first : Bool} {items : List (List Chunk)} {c : Char}
    {x : Source} (h : Spaced (commaSeparated first items ++ [[c]]) x) :
    items.length ≤ x.length := by
  have hcommas : ∀ items, items.length ≤ (commaSeparated false items).flatten.length := by
    intro items
    induction items with
    | nil => exact Nat.le_refl 0
    | cons item items ih =>
      simp only [commaSeparated, Bool.false_eq_true, if_false, List.flatten_append,
        List.flatten_cons, List.flatten_nil, List.length_append, List.length_cons, List.length_nil]
      omega
  have hle := h.length_le
  cases items with
  | nil => exact Nat.zero_le _
  | cons item items =>
    have hrest := hcommas items
    simp only [commaSeparated, List.flatten_append, List.flatten_cons, List.flatten_nil,
      List.length_append, List.length_cons, List.length_nil] at hle ⊢
    omega

/-- Behind an item there is a comma or the sign that closes the row. -/
theorem numberEnds_commaSeparated {items : List (List Chunk)} {c : Char} {x : Source}
    (h : Spaced (commaSeparated false items ++ [[c]]) x) (hc : continuesNumber (some c) = false)
    (rest : Source) : NumberEnds (x ++ rest) := by
  cases items with
  | nil => exact Spaced.numberEnds h hc rest
  | cons item items => exact Spaced.numberEnds (c := ',') h (by decide) rest

section

variable {α : Type} {F : α → Form} {r : Reader α} (htakes : ∀ a ts, F a ts → Takes r a ts)
  (hopens : ∀ a ts, F a ts → OpensOff [']', 'n'] ts)

include htakes hopens

theorem run_elementsWithin {as : List α} {items : List (List Chunk)} (h : List.Forall₂ F as items)
    {first : Bool} {x : Source} (hx : Spaced (commaSeparated first items ++ [[']']]) x)
    {bound : Nat} (hbound : items.length < bound) :
    ∃ y, Spaced [[']']] y ∧
      ∀ rest, (elementsWithin r bound first).run (x ++ rest) = .ok (as, y ++ rest) := by
  induction h generalizing first x bound with
  | nil =>
    obtain ⟨bound, rfl⟩ := Nat.exists_eq_succ_of_ne_zero (Nat.ne_zero_of_lt hbound)
    obtain ⟨y, hy, _, hnext⟩ := Spaced.sign (c := ']') hx rfl
    refine ⟨some ']' :: y, @Spaced.cons [] _ [']'] [] nofun hy, fun rest => ?_⟩
    rw [elementsWithin]
    show (anotherElement first >>= fun more => _).run _ = _
    have hend : (anotherElement first).run (x ++ rest) = .ok (false, some ']' :: (y ++ rest)) := by
      rw [anotherElement, run_bind_of (hnext _ _)]
      rfl
    rw [run_bind_of hend]
    rfl
  | @cons a item as items ha _ ih =>
    obtain ⟨bound, rfl⟩ := Nat.exists_eq_succ_of_ne_zero (Nat.ne_zero_of_lt hbound)
    rw [commaSeparated, List.append_assoc, List.append_assoc] at hx
    obtain ⟨y, hy, hmore⟩ := run_anotherElement (hopens a item ha) hx
    obtain ⟨u, v, hu, hv, rfl⟩ := hy.append_inv
    obtain ⟨z, hz, hrun⟩ := ih hv (Nat.lt_of_succ_lt_succ hbound)
    refine ⟨z, hz, fun rest => ?_⟩
    have hends := numberEnds_commaSeparated hv (by decide) rest
    have helement : r.run (u ++ v ++ rest) = .ok (a, v ++ rest) := by
      rw [List.append_assoc]
      exact htakes a item ha u _ hu hends
    rw [elementsWithin, run_bind_of (hmore rest), if_pos rfl, run_bind_of helement,
      run_bind_of (hrun rest)]
    rfl

theorem takes_list {as : List α} {ts : List Chunk} (h : ListForm F as ts) :
    Takes (Reader.list r) as ts := by
  obtain ⟨items, hitems, rfl⟩ := h
  intro x rest hx _
  obtain ⟨y, hy, _, hopen⟩ := Spaced.sign (c := '[') hx rfl
  have hbound : items.length < (y ++ rest).length + 1 := by
    have hle := length_le_of_commaSeparated hy
    rw [List.length_append]
    omega
  obtain ⟨z, hz, hrun⟩ := run_elementsWithin htakes hopens hitems hy hbound
  have hclose := hz.single rfl
  rw [Reader.list, run_bind_of (hopen _ _)]
  show (advance >>= fun _ => elements r).run _ = _
  rw [run_bind_of (run_advance_cons _ _), elements, run_bind_of (run_get _),
    run_bind_of (hrun rest)]
  have hlast : closeList.run (z ++ rest) = .ok ((), rest) := by
    rw [closeList, run_bind_of (hclose _ _)]
    rfl
  rw [run_bind_of hlast]
  rfl

end

end ClassDiagram.Json
