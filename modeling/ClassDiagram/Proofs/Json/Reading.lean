import Mathlib.Tactic.Common
import ClassDiagram.Json.Scalar
import ClassDiagram.Proofs.Json.Texts

/-! # Reading rows of chunks

A reader takes a value if it uses up all of its chunks, with the blanks in front of them, and
nothing behind them.  Only a number could go on behind its chunk; so what follows must not continue
one.

* `Takes`: a reader finds a value in a row of chunks;
* `Spaced.next`: the next unit is the first one of the next chunk;
* `run_constant`, `run_stringRest`: constants and strings behind their first unit.
-/

namespace ClassDiagram.Json

open Reader

/-! ## Readers on rows of chunks -/

theorem run_bind_of {α β : Type} {r : Reader α} {f : α → Reader β} {s s' : Source} {a : α}
    (h : r.run s = .ok (a, s')) : (r >>= f).run s = (f a).run s' := by
  rw [StateT.run_bind, h]
  rfl

theorem run_get (s : Source) : (get : Reader Source).run s = .ok (s, s) := rfl

def continuesNumber (u : Option Char) : Bool :=
  (digit? u).isSome || u == some '.' || u == some 'e' || u == some 'E'

/-- What does not continue a number in front of it. -/
def NumberEnds (rest : Source) : Prop := ∀ u ∈ rest.head?, continuesNumber u = false

theorem continuesNumber_of_isBlank {u : Option Char} (h : isBlank u = true) :
    continuesNumber u = false := by
  unfold isBlank at h
  split at h
  · decide
  · decide
  · decide
  · decide
  · cases h

theorem numberEnds_blanks {w rest : Source} (hw : ∀ u ∈ w, isBlank u = true)
    (hrest : NumberEnds rest) : NumberEnds (w ++ rest) := by
  cases w with
  | nil => exact hrest
  | cons u w =>
    intro v hv
    cases hv
    exact continuesNumber_of_isBlank (hw u List.mem_cons_self)

/-- No sign continues a number. -/
theorem Spaced.numberEnds {c : Char} {t : List Char} {ts : List Chunk} {x : Source}
    (h : Spaced ((c :: t) :: ts) x) (hc : continuesNumber (some c) = false) (rest : Source) :
    NumberEnds (x ++ rest) := by
  cases h with
  | cons hw _ =>
    rw [List.append_assoc]
    refine numberEnds_blanks hw ?_
    rintro u ⟨⟩
    exact hc

/-- A reader finds a value in a row of chunks, and uses up just these. -/
def Takes {α : Type} (r : Reader α) (a : α) (ts : List Chunk) : Prop :=
  ∀ x rest, Spaced ts x → NumberEnds rest → r.run (x ++ rest) = .ok (a, rest)

theorem Takes.bind_pure {α β : Type} {r : Reader α} {a : α} {ts : List Chunk} (h : Takes r a ts)
    (f : α → β) : Takes (r >>= fun a => pure (f a)) (f a) ts := by
  intro x rest hx hrest
  rw [run_bind_of (h x rest hx hrest)]
  rfl

/-- The next unit is the first one of the next chunk. -/
theorem Spaced.next {c : Char} {t : List Char} {ts : List Chunk} {x : Source}
    (h : Spaced ((c :: t) :: ts) x) (hc : isBlank (some c) = false) :
    ∃ y, Spaced ts y ∧ y.length + t.length < x.length ∧ ∀ inside rest,
      (Reader.next inside).run (x ++ rest)
        = .ok (some c, some c :: (t.map some ++ (y ++ rest))) := by
  cases h with
  | @cons w y _ _ hw hy =>
    refine ⟨y, hy, by simp; omega, fun inside rest => ?_⟩
    have hblanks : ∀ (w s : Source), (∀ u ∈ w, isBlank u = true) →
        (Reader.next inside).run (w ++ s) = (Reader.next inside).run s := by
      intro w s
      induction w with
      | nil => exact fun _ => rfl
      | cons u w ih =>
        intro hw
        obtain ⟨hu, hw⟩ := List.forall_mem_cons.1 hw
        exact (run_next_blank inside hu _).trans (ih hw)
    rw [List.append_assoc, hblanks w _ hw]
    simpa using run_next_cons inside hc (t.map some ++ (y ++ rest))

/-- The unit of a sign. -/
theorem Spaced.sign {c : Char} {ts : List Chunk} {x : Source} (h : Spaced ([c] :: ts) x)
    (hc : isBlank (some c) = false) :
    ∃ y, Spaced ts y ∧ y.length < x.length ∧ ∀ inside rest,
      (Reader.next inside).run (x ++ rest) = .ok (some c, some c :: (y ++ rest)) := by
  obtain ⟨y, hy, hlength, hnext⟩ := h.next hc
  exact ⟨y, hy, hlength, hnext⟩

theorem Spaced.nil_inv {x : Source} (h : Spaced [] x) : x = [] := by
  cases h
  rfl

/-- One chunk, which begins with no blank. -/
theorem Spaced.single {c : Char} {t : List Char} {x : Source} (h : Spaced [c :: t] x)
    (hc : isBlank (some c) = false) (inside : Construct) (rest : Source) :
    (Reader.next inside).run (x ++ rest) = .ok (some c, some c :: (t.map some ++ rest)) := by
  obtain ⟨y, hy, _, hnext⟩ := h.next hc
  rw [hnext, hy.nil_inv]
  rfl

/-! ## Constants -/

theorem run_constant (cs : List Char) (rest : Source) :
    (constant cs).run (cs.map some ++ rest) = .ok ((), rest) := by
  induction cs with
  | nil => rfl
  | cons c cs ih =>
    rw [constant, List.map_cons, List.cons_append]
    show (if some c = some c then _ else _ : Reader Unit).run _ = _
    rw [if_pos rfl]
    exact ih

/-! ## Strings -/

theorem run_hexEscape {ds : List Char} {n : Nat} (h : IsCode ds n) (rest : Source) :
    hexEscape.run (ds.map some ++ rest) = .ok (n, rest) := by
  have hvalue : ∀ p ∈ hexDigits, hexValue? (some p.1) = some p.2 := by decide
  cases h with
  | @mk a b c d i j k l ha hb hc hd =>
    have hsize :
        ¬ ([some a, some b, some c, some d].foldl (fun n u => n + unitSize u) 0 < 4) := by
      have h1 := a.utf8Size_pos
      have h2 := b.utf8Size_pos
      have h3 := c.utf8Size_pos
      have h4 := d.utf8Size_pos
      simp only [List.foldl_cons, List.foldl_nil, unitSize]
      omega
    have hmap : [some a, some b, some c, some d].mapM hexValue? = some [i, j, k, l] := by
      simp [List.mapM_cons, hvalue _ ha, hvalue _ hb, hvalue _ hc, hvalue _ hd]
    rw [hexEscape]
    show (if [some a, some b, some c, some d].foldl (fun n u => n + unitSize u) 0 < 4
      then _ else _ : Reader Nat).run _ = _
    rw [if_neg hsize]
    split
    · next ds hds =>
      obtain rfl := Option.some.inj (hds.symm.trans hmap)
      show Except.ok _ = _
      simp
    · next hnone => cases hnone.symm.trans hmap

theorem run_stringUnit (u : Option Char) (rest : Source) :
    stringUnit.run (u :: rest) = .ok (u, rest) := rfl

theorem run_codeEscape {ds : List Char} {n : Nat} (h : IsCode ds n)
    (hn : ¬ (0xD800 ≤ n ∧ n ≤ 0xDFFF)) (rest : Source) :
    codeEscape.run (ds.map some ++ rest) = .ok (Char.ofNat n, rest) := by
  rw [codeEscape, run_bind_of (run_hexEscape h rest), if_neg (by omega), if_neg (by omega)]
  rfl

theorem run_pairEscape {ds ds' : List Char} {n m : Nat} (h : IsCode ds n) (hn : 0xD800 ≤ n)
    (hn' : n ≤ 0xDBFF) (h' : IsCode ds' m) (hm : 0xDC00 ≤ m) (hm' : m ≤ 0xDFFF) (rest : Source) :
    codeEscape.run (ds.map some ++ some '\\' :: some 'u' :: (ds'.map some ++ rest))
      = .ok (Char.ofNat ((n - 0xD800) * 0x400 + (m - 0xDC00) + 0x10000), rest) := by
  have hpair : ∀ (c : Char) (s : Source), (pairUnit c).run (some c :: s) = .ok ((), s) := by
    intro c s
    rw [pairUnit, run_bind_of (run_stringUnit _ _), if_pos rfl]
    rfl
  rw [codeEscape, run_bind_of (run_hexEscape h _), if_neg (by omega), if_pos ⟨hn, hn'⟩,
    run_bind_of (hpair _ _), run_bind_of (hpair _ _), run_bind_of (run_hexEscape h' _),
    if_pos ⟨hm, hm'⟩]
  rfl

/-- An escape of one letter is none of a code, and is known. -/
theorem shortEscape?_of_mem {e c : Char} (h : (e, c) ∈ shortEscapes) :
    some e ≠ some 'u' ∧ shortEscape? (some e) = some c := by
  have hall : ∀ p ∈ shortEscapes, some p.1 ≠ some 'u' ∧ shortEscape? (some p.1) = some p.2 := by
    decide
  exact hall _ h

section

variable {esc : Reader (Option Char)} {bound : Nat} {s rest : Source} {us : List (Option Char)}

theorem run_unitsWithin_plain {c : Char} (hc : IsPlain c)
    (h : (unitsWithin esc bound).run s = .ok (us, rest)) :
    (unitsWithin esc (bound + 1)).run (some c :: s) = .ok (some c :: us, rest) := by
  obtain ⟨hcontrol, hquote, hslash⟩ := hc
  rw [unitsWithin, run_bind_of (run_stringUnit _ _)]
  split
  · next heq =>
    cases heq
    exact absurd rfl hquote
  · next heq =>
    cases heq
    exact absurd rfl hslash
  · have hplain : (some c).any (·.toNat < 0x20) = false := by simpa using hcontrol
    rw [hplain, if_neg Bool.false_ne_true, run_bind_of h]
    rfl

theorem run_unitsWithin_escape {u : Option Char} {s' : Source} (hesc : esc.run s = .ok (u, s'))
    (h : (unitsWithin esc bound).run s' = .ok (us, rest)) :
    (unitsWithin esc (bound + 1)).run (some '\\' :: s) = .ok (u :: us, rest) := by
  rw [unitsWithin, run_bind_of (run_stringUnit _ _)]
  show (esc >>= fun u => _).run s = _
  rw [run_bind_of hesc, run_bind_of h]
  rfl

end

theorem run_escape_short {e c : Char} (h : (e, c) ∈ shortEscapes) (rest : Source) :
    escape.run (some e :: rest) = .ok (some c, rest) := by
  obtain ⟨hcode, hshort⟩ := shortEscape?_of_mem h
  rw [escape, run_bind_of (run_stringUnit _ _), if_neg hcode, hshort]
  rfl

theorem run_escape_code {c : Char} {s rest : Source} (h : codeEscape.run s = .ok (c, rest)) :
    escape.run (some 'u' :: s) = .ok (some c, rest) := by
  rw [escape, run_bind_of (run_stringUnit _ _), if_pos rfl, run_bind_of h]
  rfl

/-- A bound on a body is one more than a bound on a shorter one. -/
theorem exists_bound {u v : List Char} {n : Nat} (hless : v.length < u.length)
    (hbound : u.length ≤ n) : ∃ k, n = k + 1 ∧ v.length ≤ k :=
  ⟨n - 1, by omega, by omega⟩

/-- The units of a string up to the quote that closes it. -/
theorem run_unitsWithin {body cs : List Char} (h : Encodes body cs) {bound : Nat}
    (hbound : body.length ≤ bound) (rest : Source) :
    (unitsWithin escape (bound + 1)).run (body.map some ++ some '"' :: rest)
      = .ok (cs.map some, rest) := by
  induction h generalizing bound with
  | nil => rfl
  | @plain c body cs hc _ ih =>
    obtain ⟨bound, rfl, hk⟩ := exists_bound (v := body) (u := c :: body) (by simp) hbound
    exact run_unitsWithin_plain hc (ih hk)
  | @short e c body cs he _ ih =>
    obtain ⟨bound, rfl, hk⟩ :=
      exists_bound (v := body) (by simp only [List.length_cons]; omega) hbound
    exact run_unitsWithin_escape (run_escape_short he _) (ih hk)
  | @code ds body cs n hcode hn _ ih =>
    obtain ⟨bound, rfl, hk⟩ :=
      exists_bound (v := body) (by simp only [List.length_cons, List.length_append]; omega) hbound
    have hescape := run_escape_code (run_codeEscape hcode hn (body.map some ++ some '"' :: rest))
    simpa using run_unitsWithin_escape hescape (ih hk)
  | @pair ds ds' body cs n m hcode hn hn' hcode' hm hm' _ ih =>
    obtain ⟨bound, rfl, hk⟩ :=
      exists_bound (v := body) (by simp only [List.length_cons, List.length_append]; omega) hbound
    have hescape := run_escape_code
      (run_pairEscape hcode hn hn' hcode' hm hm' (body.map some ++ some '"' :: rest))
    simpa using run_unitsWithin_escape hescape (ih hk)

/-- A string behind the quote that opens it. -/
theorem run_stringRest {body : List Char} {s : String} (h : Encodes body s.toList) (rest : Source) :
    stringRest.run (body.map some ++ some '"' :: rest) = .ok (s, rest) := by
  have hunits : (units escape).run (body.map some ++ some '"' :: rest)
      = .ok (s.toList.map some, rest) := by
    rw [units]
    show (unitsWithin escape ((body.map some ++ some '"' :: rest).length + 1)).run _ = _
    exact run_unitsWithin h (by simp) rest
  have hcharacters : (s.toList.map some).mapM id = some s.toList := by
    induction s.toList with
    | nil => rfl
    | cons c cs ih => simp [List.mapM_cons, ih]
  rw [stringRest, run_bind_of hunits, hcharacters]
  show Except.ok (String.ofList s.toList, rest) = _
  rw [String.ofList_toList]

/-- The units of a chunk that is a string, behind its first one. -/
theorem map_quotedChunk (body : List Char) (rest : Source) :
    (body ++ ['"']).map some ++ rest = body.map some ++ some '"' :: rest := by
  simp

end ClassDiagram.Json
