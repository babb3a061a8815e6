import ClassDiagram.Json.Skip
import ClassDiagram.Proofs.Json.Values

/-! # Skipping values

Whatever is a value is passed over, up to the end of its chunks.  The bound on the nesting is never
met, since each level has a bracket of its own: a value in a text of at most `n` units is passed
over with the bound `n + 1`.

* `TakesWithin`: a reader takes a row of chunks in any text of at most so many units;
* `run_skipLoop`: the items of a list and the entries of an object, one after another;
* `takesWithin_skip`: every value is passed over;
* `takes_skip`: whatever its length.
-/

namespace ClassDiagram.Json

open Reader

/-! ## Strings -/

theorem run_skipEscape_short {e c : Char} (h : (e, c) ∈ shortEscapes) (rest : Source) :
    skipEscape.run (some e :: rest) = .ok (none, rest) := by
  obtain ⟨hcode, hshort⟩ := shortEscape?_of_mem h
  rw [skipEscape, run_bind_of (run_stringUnit _ _), if_neg hcode, hshort]
  rfl

theorem run_skipEscape_code {ds : List Char} {n : Nat} (h : IsCode ds n) (rest : Source) :
    skipEscape.run (some 'u' :: (ds.map some ++ rest)) = .ok (none, rest) := by
  rw [skipEscape, run_bind_of (run_stringUnit _ _), if_pos rfl, run_bind_of (run_hexEscape h rest)]
  rfl

theorem run_skipUnits {body : List Char} (h : IsBody body) {bound : Nat}
    (hbound : body.length ≤ bound) (rest : Source) :
    ∃ us, (unitsWithin skipEscape (bound + 1)).run (body.map some ++ some '"' :: rest)
      = .ok (us, rest) := by
  induction h generalizing bound with
  | nil => exact ⟨[], rfl⟩
  | @plain c body hc _ ih =>
    obtain ⟨bound, rfl, hk⟩ := exists_bound (v := body) (u := c :: body) (by simp) hbound
    obtain ⟨us, hus⟩ := ih hk
    exact ⟨_, run_unitsWithin_plain hc hus⟩
  | @short e c body he _ ih =>
    obtain ⟨bound, rfl, hk⟩ :=
      exists_bound (v := body) (by simp only [List.length_cons]; omega) hbound
    obtain ⟨us, hus⟩ := ih hk
    exact ⟨_, run_unitsWithin_escape (run_skipEscape_short he _) hus⟩
  | @code ds body n hcode _ ih =>
    obtain ⟨bound, rfl, hk⟩ :=
      exists_bound (v := body) (by simp only [List.length_cons, List.length_append]; omega) hbound
    obtain ⟨us, hus⟩ := ih hk
    have hescape := run_skipEscape_code hcode (body.map some ++ some '"' :: rest)
    exact ⟨_, by simpa using run_unitsWithin_escape hescape hus⟩

theorem run_skipString {body : List Char} (h : IsBody body) (rest : Source) :
    skipString.run ((body ++ ['"']).map some ++ rest) = .ok ((), rest) := by
  rw [map_quotedChunk]
  have hlength : body.length ≤ (body.map some ++ some '"' :: rest).length := by simp
  obtain ⟨us, hus⟩ := run_skipUnits h hlength rest
  have hunits : (units skipEscape).run (body.map some ++ some '"' :: rest) = .ok (us, rest) := by
    rw [units, run_bind_of (run_get _)]
    exact hus
  rw [skipString, run_bind_of hunits]
  rfl

/-! ## Rows of items -/

/-- A reader uses up a row of chunks, in any text for it of at most `n` units. -/
def TakesWithin (n : Nat) (r : Reader Unit) (ts : List Chunk) : Prop :=
  ∀ x rest, Spaced ts x → NumberEnds rest → x.length ≤ n → r.run (x ++ rest) = .ok ((), rest)

section

variable {inside : Construct} {c : Char} {fault : Fault} {r : Reader Unit}
  {loop : Nat → Bool → Reader Unit}

/-- Items in a row, each passed over, and the sign that closes the row. -/
theorem run_skipLoop
    (hloop : ∀ bound first, loop (bound + 1) first = (do
      let u ← next inside
      if u = some c then advance
      else if first then
        r
        loop bound false
      else if u = some ',' then
        advance
        r
        loop bound false
      else fail fault))
    (hc : isBlank (some c) = false) (hnumber : continuesNumber (some c) = false) (hcomma : c ≠ ',')
    {n : Nat} {items : List (List Chunk)}
    (hitems : ∀ item ∈ items, OpensOff [c] item ∧ TakesWithin n r item) {first : Bool} {x : Source}
    (hx : Spaced (commaSeparated first items ++ [[c]]) x) (hn : x.length ≤ n) {bound : Nat}
    (hbound : items.length < bound) (rest : Source) :
    (loop bound first).run (x ++ rest) = .ok ((), rest) := by
  induction items generalizing first x bound with
  | nil =>
    obtain ⟨bound, rfl⟩ := Nat.exists_eq_succ_of_ne_zero (Nat.ne_zero_of_lt hbound)
    have hclose := Spaced.single (c := c) (t := []) hx hc
    rw [hloop, run_bind_of (hclose _ _), if_pos rfl]
    rfl
  | cons item items ih =>
    obtain ⟨bound, rfl⟩ := Nat.exists_eq_succ_of_ne_zero (Nat.ne_zero_of_lt hbound)
    obtain ⟨⟨hopens, htakes⟩, hitems⟩ := List.forall_mem_cons.1 hitems
    have hgo : ∀ {y : Source}, Spaced (item ++ (commaSeparated false items ++ [[c]])) y →
        y.length ≤ n → (r >>= fun _ => loop bound false).run (y ++ rest) = .ok ((), rest) := by
      intro y hy hlength
      obtain ⟨u, v, hu, hv, rfl⟩ := hy.append_inv
      rw [List.length_append] at hlength
      have hitem := htakes u (v ++ rest) hu (numberEnds_commaSeparated hv hnumber rest) (by omega)
      rw [List.append_assoc, run_bind_of hitem]
      exact ih hitems hv (by omega) (Nat.lt_of_succ_lt_succ hbound)
    rw [commaSeparated, List.append_assoc, List.append_assoc] at hx
    cases first with
    | true =>
      obtain ⟨d, y, hd, hy, hlength, hnext⟩ :=
        Spaced.peek hx (hopens.append (commaSeparated false items ++ [[c]]))
      have hne : some d ≠ some c := fun heq => hd (Option.some.inj heq ▸ List.mem_cons_self)
      rw [hloop, run_bind_of (hnext _ _), if_neg hne, if_pos rfl]
      exact hgo hy (by omega)
    | false =>
      obtain ⟨y, hy, hlength, hnext⟩ := Spaced.sign (c := ',') hx rfl
      have hne : some ',' ≠ some c := fun heq => hcomma (Option.some.inj heq).symm
      rw [hloop, run_bind_of (hnext _ _), if_neg hne, if_neg Bool.false_ne_true, if_pos rfl,
        run_bind_of (run_advance_cons _ _)]
      exact hgo hy (by omega)

end

/-! ## Entries -/

theorem Entry.opensOff {e : Entry} (h : IsAnyString e.key) : OpensOff ['\x7d'] e.chunks := by
  obtain ⟨body, _, hkey⟩ := h
  rw [chunks, hkey]
  exact ⟨'"', _, _, rfl, rfl, by decide⟩

/-- The colon behind a key. -/
theorem run_colon {ts : List Chunk} {x : Source} (h : Spaced ([':'] :: ts) x) :
    ∃ y, Spaced ts y ∧ y.length ≤ x.length ∧
      ∀ rest, colon.run (x ++ rest) = .ok ((), y ++ rest) := by
  obtain ⟨y, hy, hlength, hnext⟩ := h.sign rfl
  refine ⟨y, hy, Nat.le_of_lt hlength, fun rest => ?_⟩
  rw [colon, run_bind_of (hnext _ _)]
  rfl

theorem takesWithin_skipEntry {n : Nat} {r : Reader Unit} {e : Entry} (hkey : IsAnyString e.key)
    (hvalue : TakesWithin n r e.value) : TakesWithin n (skipEntry r) e.chunks := by
  intro x rest hx hrest hn
  obtain ⟨body, hbody, hkey⟩ := hkey
  rw [Entry.chunks, hkey] at hx
  obtain ⟨y, hy, hlength, hnext⟩ := hx.next rfl
  obtain ⟨z, hz, hlength', hcolon⟩ := run_colon hy
  rw [skipEntry, run_bind_of (hnext _ _)]
  show (advance >>= fun _ => skipString >>= fun _ => colon >>= fun _ => r).run _ = _
  rw [run_bind_of (run_advance_cons _ _), run_bind_of (run_skipString hbody _),
    run_bind_of (hcolon rest)]
  exact hvalue z rest hz hrest (by omega)

/-! ## Values -/

/-- A reader that passes over a word, where the first letter of the word is next. -/
theorem takesWithin_word {c : Char} {cs : List Char} (hc : isBlank (some c) = false) {n : Nat}
    {r : Reader Unit}
    (hr : ∀ x s, (next .value).run x = .ok (some c, s) → r.run x = (constant (c :: cs)).run s) :
    TakesWithin n r [c :: cs] := by
  intro x rest hx _ _
  rw [hr _ _ (hx.single hc .value rest)]
  exact run_constant (c :: cs) rest

/-- Where a digit is next, a number is passed over. -/
theorem run_skipWithin_digit {c : Char} (hc : c.isDigit = true) {x s : Source} {bound : Nat}
    (hnext : (next .value).run x = .ok (some c, s)) :
    (skipWithin (bound + 1)).run x = (numeral .badNumber >>= fun _ => pure ()).run s := by
  rw [skipWithin, run_bind_of hnext]
  split
  case h_8 =>
    rw [digit?_of_isDigit hc]
    rfl
  all_goals
    next heq =>
      cases heq
      exact absurd hc (by decide)

theorem takesWithin_number {t : Chunk} (h : IsNumber t) :
    OpensOff [']'] [t] ∧ ∀ n, TakesWithin n (skipWithin (n + 1)) [t] := by
  obtain ⟨sign, whole, fraction, exponent, hsign, hwhole, hfraction, hexponent, rfl⟩ := h
  have hrun : ∀ rest, NumberEnds rest →
      (numeral .badNumber >>= fun _ => pure () : Reader Unit).run
        ((whole ++ (fraction ++ exponent)).map some ++ rest) = .ok ((), rest) := by
    intro rest hrest
    obtain ⟨ds, power, _, _, hrun⟩ := run_numeral hwhole hfraction hexponent hrest .badNumber
    rw [run_bind_of hrun]
    rfl
  obtain ⟨c, cs, rfl⟩ := List.exists_cons_of_ne_nil hwhole.1.1
  have hc : c.isDigit = true := hwhole.1.2 c List.mem_cons_self
  simp only [List.mem_cons, List.not_mem_nil, or_false] at hsign
  rcases hsign with rfl | rfl
  · refine ⟨⟨c, _, [], rfl, isBlank_of_isDigit hc, ?_⟩, fun n x rest hx hrest _ => ?_⟩
    · rw [List.mem_singleton]
      rintro rfl
      cases hc
    · rw [run_skipWithin_digit hc (Spaced.single hx (isBlank_of_isDigit hc) _ _)]
      exact hrun rest hrest
  · refine ⟨⟨'-', _, [], rfl, rfl, by decide⟩, fun n x rest hx hrest _ => ?_⟩
    have hnext := Spaced.single (c := '-') hx rfl
    rw [skipWithin, run_bind_of (hnext _ _)]
    exact hrun rest hrest

/-- Every value is passed over. -/
theorem takesWithin_skip {ts : List Chunk} (h : IsJson ts) :
    OpensOff [']'] ts ∧ ∀ n, TakesWithin n (skipWithin (n + 1)) ts := by
  induction h with
  | @constant word hword =>
    simp only [List.mem_cons, List.not_mem_nil, or_false] at hword
    rcases hword with rfl | rfl | rfl
    · refine ⟨⟨'n', _, [], rfl, rfl, by decide⟩, fun n => takesWithin_word rfl fun x s hnext => ?_⟩
      rw [skipWithin, run_bind_of hnext]
      rfl
    · refine ⟨⟨'t', _, [], rfl, rfl, by decide⟩, fun n => takesWithin_word rfl fun x s hnext => ?_⟩
      rw [skipWithin, run_bind_of hnext]
      rfl
    · refine ⟨⟨'f', _, [], rfl, rfl, by decide⟩, fun n => takesWithin_word rfl fun x s hnext => ?_⟩
      rw [skipWithin, run_bind_of hnext]
      rfl
  | number h => exact takesWithin_number h
  | string h =>
    obtain ⟨body, hbody, rfl⟩ := h
    refine ⟨⟨'"', _, [], rfl, rfl, by decide⟩, fun n x rest hx _ _ => ?_⟩
    have hnext := hx.single rfl
    rw [skipWithin, run_bind_of (hnext _ _)]
    show (advance >>= fun _ => skipString).run _ = _
    rw [run_bind_of (run_advance_cons _ _)]
    exact run_skipString hbody rest
  | @list items _ ih =>
    refine ⟨⟨'[', [], _, rfl, rfl, by decide⟩, fun n x rest hx _ hn => ?_⟩
    obtain ⟨y, hy, hlength, hopen⟩ := Spaced.sign (c := '[') hx rfl
    obtain ⟨n, rfl⟩ :=
      Nat.exists_eq_succ_of_ne_zero (Nat.ne_zero_of_lt (Nat.lt_of_lt_of_le hlength hn))
    have hbound := length_le_of_commaSeparated hy
    rw [skipWithin, run_bind_of (hopen _ _)]
    show (advance >>= fun _ => skipElements (skipWithin (n + 1)) (n + 1 + 1) true).run _ = _
    rw [run_bind_of (run_advance_cons _ _)]
    exact run_skipLoop (fun _ _ => rfl) rfl (by decide) (by decide)
      (fun item hitem => ⟨(ih item hitem).1, (ih item hitem).2 n⟩) hy (by omega) (by omega) rest
  | @object entries hkeys _ ih =>
    refine ⟨⟨'\x7b', [], _, rfl, rfl, by decide⟩, fun n x rest hx _ hn => ?_⟩
    obtain ⟨y, hy, hlength, hopen⟩ := Spaced.sign (c := '\x7b') hx rfl
    obtain ⟨n, rfl⟩ :=
      Nat.exists_eq_succ_of_ne_zero (Nat.ne_zero_of_lt (Nat.lt_of_lt_of_le hlength hn))
    have hbound := length_le_of_commaSeparated hy
    rw [skipWithin, run_bind_of (hopen _ _)]
    show (advance >>= fun _ => skipEntries (skipWithin (n + 1)) (n + 1 + 1) true).run _ = _
    rw [run_bind_of (run_advance_cons _ _)]
    refine run_skipLoop (n := n) (r := skipEntry (skipWithin (n + 1))) (fun _ _ => rfl) rfl
      (by decide) (by decide) ?_ hy (by omega) (by omega) rest
    intro item hitem
    obtain ⟨e, he, rfl⟩ := List.mem_map.1 hitem
    exact ⟨Entry.opensOff (hkeys e he), takesWithin_skipEntry (hkeys e he) ((ih e he).2 n)⟩

/-- Every value is passed over, however long it is. -/
theorem takes_skip {ts : List Chunk} (h : IsJson ts) : Takes skip () ts := by
  intro x rest hx hrest
  rw [skip, run_bind_of (run_get _)]
  exact (takesWithin_skip h).2 _ x rest hx hrest (by simp)

end ClassDiagram.Json
