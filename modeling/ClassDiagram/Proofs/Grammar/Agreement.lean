import ClassDiagram.Parse
import ClassDiagram.Proofs.Grammar.Statements

/-! # The rules agree with the grammar

The rules choose in order and repeat greedily; the grammar does neither.  They agree all the same:
what is read is written as the grammar says, and what is written as the grammar says, with the
items of each block on lines of their own, is read.

* `IsDiagram.unlined`: a diagram with its items on lines of their own is a diagram;
* `ok_iff_run`: all lexemes of a text are read, or there is an error;
* `statementsOfSpans_agrees`: soundness and completeness.
-/

namespace ClassDiagram.Grammar

open Rule

/-! ## Items on lines of their own -/

theorem IsBodyItems.unlined {lined : Bool} {items : List BodyItem} {u : List Lexeme}
    (h : IsBodyItems lined items u) : IsBodyItems false items u := by
  induction h with
  | nil => exact .nil
  | cons hi hv _ _ ih => exact .cons hi hv ih nofun

theorem IsDeclaration.unlined {lined : Bool} {d : Declaration} {u : List Lexeme}
    (h : IsDeclaration lined d u) : IsDeclaration false d u := by
  cases h with
  | bare hk hn => exact .bare hk hn
  | block hk hn hb =>
    obtain ⟨ho, hu, hv, hc⟩ := hb
    exact .block hk hn (.mk ho hu hv.unlined hc)

theorem IsStatement.unlined {lined : Bool} {text : List Char} {s : Statement} {u : List Lexeme}
    (h : IsStatement lined text s u) : IsStatement false text s u := by
  cases h with
  | declare hd => exact .declare hd.unlined
  | annotate ht hn => exact .annotate ht hn
  | relate hc => exact .relate hc
  | member hn hc hm => exact .member hn hc hm
  | note hn => exact .note hn

/-- Line ends between the items of a block may be required or not: with them or without, it is a
diagram. -/
theorem IsDiagram.unlined {lined : Bool} {text : List Char} {statements : List Statement}
    {s : List Lexeme} (h : IsDiagram lined text statements s) :
    IsDiagram false text statements s := by
  obtain ⟨hu, hh, hv, hw⟩ := h
  refine .mk hu hh ?_ hw
  clear hw
  induction hv with
  | nil => exact .nil
  | cons hs _ ih =>
    obtain ⟨hne, hu, hs⟩ := hs
    exact .cons (.mk hne hu hs.unlined) ih

/-! ## Nothing is left -/

theorem rest_of_run_diagram {text : List Char} {s rest : List Lexeme} {statements : List Statement}
    (h : (diagram text).run s = some (statements, rest)) : rest = [] := by
  obtain ⟨_, s₁, _, h⟩ := run_bind_eq_some h
  obtain ⟨_, s₂, _, h⟩ := run_bind_eq_some h
  obtain ⟨_, s₃, _, h⟩ := run_bind_eq_some h
  obtain ⟨_, s₄, _, h⟩ := run_bind_eq_some h
  obtain ⟨_, s₅, hend, h⟩ := run_bind_eq_some h
  cases s₄ with
  | nil =>
    cases hend
    cases h
    rfl
  | cons l s => cases hend

/-- There are statements exactly where the rule for diagrams reads all lexemes. -/
theorem ok_iff_run {text : List Char} {lexemes : List Lexeme} {statements : List Statement} :
    statementsOfLexemes text lexemes = .ok statements ↔
      (diagram text).run lexemes = some (statements, []) := by
  constructor
  · intro h
    cases hf : (diagram text lexemes).found with
    | none => simp [statementsOfLexemes, statementsOrStop, hf] at h
    | some found =>
      obtain ⟨ss, n⟩ := found
      have hrun : (diagram text).run lexemes = some (ss, lexemes.drop n) := by simp [run, hf]
      rw [rest_of_run_diagram hrun] at hrun
      simp only [statementsOfLexemes, statementsOrStop, hf] at h
      cases h
      exact hrun
  · intro h
    simp only [run, Option.map_eq_some_iff] at h
    obtain ⟨⟨ss, n⟩, hf, he⟩ := h
    obtain ⟨rfl, _⟩ := Prod.mk.inj he
    simp [statementsOfLexemes, statementsOrStop, hf]

/-! ## Agreement -/

theorem isDiagram_of_ok {text : List Char} {lexemes : List Lexeme} {statements : List Statement}
    (h : statementsOfLexemes text lexemes = .ok statements) :
    IsDiagram false text statements lexemes := by
  obtain ⟨u, hu, hD⟩ := (reads_diagram text).run_eq (ok_iff_run.1 h)
  rw [List.append_nil] at hu
  rwa [hu]

theorem ok_of_isDiagram {text : List Char} {lexemes : List Lexeme} {statements : List Statement}
    (h : IsDiagram true text statements lexemes) :
    statementsOfLexemes text lexemes = .ok statements :=
  ok_iff_run.2 (run_diagram h)

end ClassDiagram.Grammar
