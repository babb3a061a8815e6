import ClassDiagram.Text.Blank

/-! # Trimmed texts

Stripping takes from both ends of a text what satisfies a condition, up to the first character
that does not.

* `strip_eq_self_iff`, `trim_eq_self_iff`: texts that are left alone;
* `prefix_strip`: a text that is left alone stays in front of whatever comes behind it.
-/

namespace ClassDiagram

namespace Text

variable {p : Char → Bool} {cs : List Char}

theorem dropWhile_eq_self (h : ∀ c ∈ cs.head?, p c = false) : cs.dropWhile p = cs := by
  cases cs with
  | nil => rfl
  | cons c cs => rw [List.dropWhile_cons, h c rfl, if_neg Bool.false_ne_true]

theorem head?_dropWhile (p : Char → Bool) (cs : List Char) :
    ∀ c ∈ (cs.dropWhile p).head?, p c = false := by
  induction cs with
  | nil => exact nofun
  | cons c cs ih =>
    rw [List.dropWhile_cons]
    by_cases hc : p c = true
    · rw [if_pos hc]
      exact ih
    · rw [if_neg hc]
      intro d hd
      rw [← Option.some.inj hd]
      exact Bool.eq_false_iff.2 hc

theorem getLast?_strip (p : Char → Bool) (cs : List Char) :
    ∀ c ∈ (strip p cs).getLast?, p c = false := by
  rw [strip, List.getLast?_reverse]
  exact head?_dropWhile p _

/-- What is stripped is what is left in front without the end. -/
theorem strip_prefix_dropWhile (p : Char → Bool) (cs : List Char) :
    strip p cs <+: cs.dropWhile p := by
  rw [strip, ← List.reverse_suffix, List.reverse_reverse]
  exact List.dropWhile_suffix p

theorem head?_strip (p : Char → Bool) (cs : List Char) :
    ∀ c ∈ (strip p cs).head?, p c = false := by
  intro c hc
  obtain ⟨back, hback⟩ := strip_prefix_dropWhile p cs
  refine head?_dropWhile p cs c ?_
  rw [← hback, List.head?_append, hc]
  rfl

/-- Stripping leaves a text alone when neither its first nor its last character would go. -/
theorem strip_eq_self_iff : strip p cs = cs ↔
    (∀ c ∈ cs.head?, p c = false) ∧ ∀ c ∈ cs.getLast?, p c = false := by
  constructor
  · intro h
    rw [← h]
    exact ⟨head?_strip p cs, getLast?_strip p cs⟩
  · rintro ⟨hhead, hlast⟩
    rw [strip, dropWhile_eq_self hhead, dropWhile_eq_self, List.reverse_reverse]
    rwa [List.head?_reverse]

/-- What is stripped off the end stands behind all that stripping leaves alone. -/
theorem prefix_strip {k : List Char} (hne : k ≠ []) (hk : strip p k = k) (rest : List Char) :
    k <+: strip p (k ++ rest) := by
  obtain ⟨hhead, hlast⟩ := strip_eq_self_iff.1 hk
  have hfront : (k ++ rest).dropWhile p = k ++ rest := by
    obtain ⟨c, k, rfl⟩ := List.exists_cons_of_ne_nil hne
    exact dropWhile_eq_self hhead
  have hback : k.reverse.dropWhile p = k.reverse := dropWhile_eq_self (by rwa [List.head?_reverse])
  rw [strip, hfront, List.reverse_append, List.dropWhile_append, hback]
  split
  · simp only [List.reverse_reverse, List.prefix_refl]
  · rw [List.reverse_append, List.reverse_reverse]
    exact List.prefix_append _ _

theorem trim_eq_self_iff {s : String} : trim s = s ↔
    (∀ c ∈ s.toList.head?, isBlank c = false) ∧ ∀ c ∈ s.toList.getLast?, isBlank c = false := by
  rw [← strip_eq_self_iff, trim, ← String.toList_inj, String.toList_ofList]

theorem trim_trim (s : String) : trim (trim s) = trim s := by
  rw [trim_eq_self_iff, trim, String.toList_ofList]
  exact ⟨head?_strip _ _, getLast?_strip _ _⟩

theorem isBlank_of_isDigit {c : Char} (h : c.isDigit = true) : isBlank c = false := by
  have hcode : 48 ≤ c.toNat ∧ c.toNat ≤ 57 := by
    simp only [Char.isDigit, Bool.and_eq_true, decide_eq_true_eq] at h
    exact h
  rw [Bool.eq_false_iff, isBlank]
  simp only [Ne, Bool.or_eq_true, Bool.and_eq_true, Nat.ble_eq, beq_iff_eq]
  omega

end Text

end ClassDiagram
