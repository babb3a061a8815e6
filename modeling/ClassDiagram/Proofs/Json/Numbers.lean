import ClassDiagram.Proofs.Json.Reading

/-! # Reading numbers

A number is read up to the end of its chunk, in front of what does not continue it.  The digits of a
natural number of at most 64 bits all fit into its significand, so that it is found as it is.

* `run_numeral`: a number behind its sign;
* `isWhole_toDigits`: how a natural number is written;
* `takes_count`: a natural number of at most 64 bits is found.
-/

namespace ClassDiagram.Json

open Reader

/-! ## Numbers -/

def digitValue (c : Char) : Nat := c.toNat - '0'.toNat

def NoDigit (s : Source) : Prop := ∀ u ∈ s.head?, digit? u = none

theorem digit?_of_isDigit {c : Char} (h : c.isDigit = true) :
    digit? (some c) = some (digitValue c) := by
  rw [digit?, if_pos h]
  rfl

theorem isBlank_of_isDigit {c : Char} (h : c.isDigit = true) : isBlank (some c) = false := by
  cases hblank : isBlank (some c) with
  | false => rfl
  | true =>
    have hnot := continuesNumber_of_isBlank hblank
    rw [continuesNumber, digit?_of_isDigit h] at hnot
    cases hnot

/-- No other digit has the value of zero. -/
theorem isDigit_eq_zero {c : Char} (h : c.isDigit = true) (hvalue : digitValue c = 0) :
    c = '0' := by
  have hle : '0'.toNat ≤ c.toNat := by
    simp only [Char.isDigit, Bool.and_eq_true, decide_eq_true_eq] at h
    exact h.1
  exact Char.toNat_inj.1 (Nat.le_antisymm (Nat.sub_eq_zero_iff_le.1 hvalue) hle)

theorem NumberEnds.noDigit {rest : Source} (h : NumberEnds rest) : NoDigit rest := by
  intro u hu
  have hends := h u hu
  simp only [continuesNumber, Bool.or_eq_false_iff] at hends
  exact Option.not_isSome_iff_eq_none.1 (by simp [hends])

theorem splitDigits_append {ds : List Char} (hds : ∀ c ∈ ds, c.isDigit = true) {rest : Source}
    (hrest : NoDigit rest) : splitDigits (ds.map some ++ rest) = (ds.map digitValue, rest) := by
  induction ds with
  | nil =>
    cases rest with
    | nil => rfl
    | cons u rest =>
      show splitDigits (u :: rest) = _
      rw [splitDigits, hrest u rfl]
      rfl
  | cons c ds ih =>
    obtain ⟨hc, hds⟩ := List.forall_mem_cons.1 hds
    rw [List.map_cons, List.cons_append, splitDigits, digit?_of_isDigit hc, ih hds]
    rfl

theorem run_digits {ds : List Char} (hds : IsDigits ds) {rest : Source} (hrest : NoDigit rest)
    (fault : Fault) : (digits fault).run (ds.map some ++ rest) = .ok (ds.map digitValue, rest) := by
  obtain ⟨hne, hall⟩ := hds
  obtain ⟨c, cs, rfl⟩ := List.exists_cons_of_ne_nil hne
  rw [digits, run_bind_of (run_get _), splitDigits_append hall hrest]
  rfl

theorem noDigit_exponent {exponent : List Char} (h : IsExponent exponent) {rest : Source}
    (hrest : NumberEnds rest) : NoDigit (exponent.map some ++ rest) := by
  cases h with
  | none => exact hrest.noDigit
  | some he _ _ =>
    rintro u ⟨⟩
    rcases List.mem_cons.1 he with rfl | he
    · decide
    · rw [List.mem_singleton.1 he]
      decide

theorem noDigit_fraction {fraction exponent : List Char} (h : IsFraction fraction)
    (h' : IsExponent exponent) {rest : Source} (hrest : NumberEnds rest) :
    NoDigit (fraction.map some ++ (exponent.map some ++ rest)) := by
  cases h with
  | none => exact noDigit_exponent h' hrest
  | some _ =>
    rintro u ⟨⟩
    decide

/-- Behind a sign of a fraction or of a power of ten, or where none begins. -/
theorem run_fraction {fraction exponent : List Char} (h : IsFraction fraction)
    (h' : IsExponent exponent) {rest : Source} (hrest : NumberEnds rest) (fault : Fault) :
    ∃ ds, (fraction = [] → ds = []) ∧
      (Reader.fraction fault).run (fraction.map some ++ (exponent.map some ++ rest))
        = .ok (ds, exponent.map some ++ rest) := by
  cases h with
  | none =>
    refine ⟨[], fun _ => rfl, ?_⟩
    have hpoint : ∀ s, exponent.map some ++ rest ≠ some '.' :: s := by
      intro s heq
      cases h' with
      | none =>
        have hdot := hrest (some '.') (by rw [show rest = _ from heq]; rfl)
        exact absurd hdot (by decide)
      | some he _ _ =>
        rw [Option.some.inj (List.cons.inj heq).1] at he
        exact absurd he (by decide)
    rw [Reader.fraction, run_bind_of (run_get _), List.map_nil, List.nil_append]
    split
    · next heq => exact absurd heq (hpoint _)
    · rfl
  | @some ds hds =>
    refine ⟨ds.map digitValue, nofun, ?_⟩
    rw [Reader.fraction]
    exact run_digits hds (noDigit_exponent h' hrest) fault

theorem run_exponent {exponent : List Char} (h : IsExponent exponent) {rest : Source}
    (hrest : NumberEnds rest) (fault : Fault) :
    ∃ power, (exponent = [] → power = none) ∧
      (Reader.exponent fault).run (exponent.map some ++ rest) = .ok (power, rest) := by
  cases h with
  | none =>
    refine ⟨none, fun _ => rfl, ?_⟩
    rw [Reader.exponent, run_bind_of (run_get _), List.map_nil, List.nil_append]
    split
    · exact absurd (hrest _ rfl) (by decide)
    · exact absurd (hrest _ rfl) (by decide)
    · rfl
  | @some e sign ds he hsign hds =>
    have hdigits := run_digits hds hrest.noDigit fault
    have hgo : ∀ (f : List Nat → Option Int) (s : Source),
        (do set (ds.map some ++ rest); return f (← digits fault) : Reader (Option Int)).run s
          = .ok (f (ds.map digitValue), rest) := by
      intro f s
      show ((digits fault) >>= fun ds => pure (f ds)).run (ds.map some ++ rest) = _
      rw [run_bind_of hdigits]
      rfl
    have hunsigned : ∀ s,
        ds.map some ++ rest ≠ some '+' :: s ∧ ds.map some ++ rest ≠ some '-' :: s := by
      intro s
      obtain ⟨c, cs, rfl⟩ := List.exists_cons_of_ne_nil hds.1
      have hc : c.isDigit = true := hds.2 c List.mem_cons_self
      constructor
      · intro heq
        rw [Option.some.inj (List.cons.inj heq).1] at hc
        exact absurd hc (by decide)
      · intro heq
        rw [Option.some.inj (List.cons.inj heq).1] at hc
        exact absurd hc (by decide)
    rw [Reader.exponent, run_bind_of (run_get _)]
    simp only [List.mem_cons, List.not_mem_nil, or_false] at he hsign
    rcases hsign with rfl | rfl | rfl
    · refine ⟨some (ofDigits (ds.map digitValue)), nofun, ?_⟩
      rcases he with rfl | rfl
      all_goals
        simp only [List.map_cons, List.cons_append, List.nil_append]
        split
        · next heq => exact absurd heq (hunsigned _).1
        · next heq => exact absurd heq (hunsigned _).2
        · exact hgo _ _
    · refine ⟨some (ofDigits (ds.map digitValue)), nofun, ?_⟩
      rcases he with rfl | rfl
      · exact hgo _ _
      · exact hgo _ _
    · refine ⟨some (-(ofDigits (ds.map digitValue) : Int)), nofun, ?_⟩
      rcases he with rfl | rfl
      · exact hgo (fun ds => some (-(ofDigits ds : Int))) _
      · exact hgo (fun ds => some (-(ofDigits ds : Int))) _

/-- A number behind its sign. -/
theorem run_numeral {whole fraction exponent : List Char} (h : IsWhole whole)
    (hfraction : IsFraction fraction) (hexponent : IsExponent exponent) {rest : Source}
    (hrest : NumberEnds rest) (fault : Fault) :
    ∃ ds power, (fraction = [] → ds = []) ∧ (exponent = [] → power = none) ∧
      (numeral fault).run ((whole ++ (fraction ++ exponent)).map some ++ rest)
        = .ok (⟨whole.map digitValue, ds, power⟩, rest) := by
  obtain ⟨ds, hds, hrunFraction⟩ := run_fraction hfraction hexponent hrest fault
  obtain ⟨power, hpower, hrunExponent⟩ := run_exponent hexponent hrest fault
  refine ⟨ds, power, hds, hpower, ?_⟩
  have hdigits := run_digits h.1 (noDigit_fraction hfraction hexponent hrest) fault
  have hzero : ∀ d es, whole.map digitValue ≠ 0 :: d :: es := by
    intro d es heq
    obtain ⟨c, cs, rfl⟩ := List.exists_cons_of_ne_nil h.1.1
    have hc := isDigit_eq_zero (h.1.2 c List.mem_cons_self) (List.cons.inj heq).1
    rw [h.2 (congrArg some hc)] at heq
    cases heq
  rw [List.map_append, List.map_append, List.append_assoc, List.append_assoc, numeral,
    run_bind_of hdigits]
  split
  · next d es heq => exact absurd heq (hzero d es)
  · rw [run_bind_of hrunFraction, run_bind_of hrunExponent]
    rfl

/-! ## Natural numbers -/

/-- Digits whose number has at most 64 bits all fit. -/
theorem fit_eq {n : Nat} {ds : List Nat} (h : ds.foldl (fun n d => n * 10 + d) n ≤ natLimit) :
    fit n ds = (ds.foldl (fun n d => n * 10 + d) n, 0) := by
  have hgrows : ∀ (ds : List Nat) (n : Nat), n ≤ ds.foldl (fun n d => n * 10 + d) n := by
    intro ds
    induction ds with
    | nil => exact fun n => Nat.le_refl n
    | cons d ds ih =>
      intro n
      have hstep := ih (n * 10 + d)
      rw [List.foldl_cons]
      omega
  induction ds generalizing n with
  | nil => rfl
  | cons d ds ih =>
    rw [List.foldl_cons] at h ⊢
    rw [fit, if_pos (Nat.le_trans (hgrows ds _) h), ih h]

theorem foldl_digitValue (cs : List Char) (n : Nat) :
    (cs.map digitValue).foldl (fun n d => n * 10 + d) n = Nat.ofDigitChars 10 cs n := by
  rw [List.foldl_map, Nat.ofDigitChars]
  simp only [Nat.mul_comm]
  rfl

theorem isDigits_toDigits (n : Nat) : IsDigits (Nat.toDigits 10 n) :=
  ⟨Nat.toDigits_ne_nil, fun _ hc => Nat.isDigit_of_mem_toDigits (by decide) (by decide) hc⟩

/-- No zero stands in front of another digit of a number. -/
theorem isWhole_toDigits (n : Nat) : IsWhole (Nat.toDigits 10 n) := by
  refine ⟨isDigits_toDigits n, ?_⟩
  induction n using Nat.strongRecOn with
  | _ n ih =>
    intro hhead
    by_cases hn : n < 10
    · rw [Nat.toDigits_of_lt_base hn] at hhead ⊢
      rw [Option.some.inj hhead]
    · have hle : 10 ≤ n := Nat.le_of_not_lt hn
      rw [Nat.toDigits_of_base_le (by decide) hle,
        List.head?_append_of_ne_nil _ Nat.toDigits_ne_nil] at hhead
      have hzero : n / 10 = 0 := by
        rw [← Nat.ofDigitChars_ten_toDigits (n := n / 10), ih (n / 10) (by omega) hhead]
        rfl
      omega

/-- The digits of a number of at most 64 bits have it as their value. -/
theorem content_toDigits {n : Nat} (hn : n ≤ natLimit) :
    Numeral.content ⟨(Nat.toDigits 10 n).map digitValue, [], none⟩ false = .ok (.natural n) := by
  have hvalue : ((Nat.toDigits 10 n).map digitValue).foldl (fun n d => n * 10 + d) 0 = n := by
    rw [foldl_digitValue]
    exact Nat.ofDigitChars_ten_toDigits
  have hfit : fit 0 ((Nat.toDigits 10 n).map digitValue) = (n, 0) := by
    rw [fit_eq (hvalue.symm ▸ hn), hvalue]
  simp [Numeral.content, Numeral.parts, Numeral.isWhole, hfit, fit]

/-- Where a digit is next, a number is. -/
theorem run_content_digit {c : Char} (hc : c.isDigit = true) {x s : Source}
    (hnext : (next .value).run x = .ok (some c, s)) :
    content.run x = (numeral (.ended .value) >>= fun n => n.content false).run s := by
  rw [content, run_bind_of hnext]
  split
  case h_8 =>
    rw [digit?_of_isDigit hc]
    rfl
  all_goals
    next heq =>
      cases heq
      exact absurd hc (by decide)

theorem takes_count {n : Nat} {ts : List Chunk} (h : CountForm n ts) : Takes Reader.count n ts := by
  obtain ⟨hn, rfl⟩ := h
  have hchunk : (toString n).toList = Nat.toDigits 10 n := by
    rw [Nat.toString_eq_ofList_toDigits, String.toList_ofList]
  intro x rest hx hrest
  have hwhole := isWhole_toDigits n
  have hvalue := content_toDigits hn
  rw [hchunk] at hx
  obtain ⟨c, cs, hcs⟩ := List.exists_cons_of_ne_nil hwhole.1.1
  have hc : c.isDigit = true := hwhole.1.2 c (hcs ▸ List.mem_cons_self)
  rw [hcs] at hx hwhole hvalue
  have hnext := hx.single (isBlank_of_isDigit hc)
  obtain ⟨ds, power, hds, hpower, hrun⟩ := run_numeral hwhole .none .none hrest (.ended .value)
  rw [hds rfl, hpower rfl, List.append_nil, List.append_nil, List.map_cons,
    List.cons_append] at hrun
  have hcontent : content.run (x ++ rest) = .ok (.natural n, rest) := by
    rw [run_content_digit hc (hnext _ _), run_bind_of hrun, hvalue]
    rfl
  rw [Reader.count, run_bind_of hcontent]
  rfl

end ClassDiagram.Json
