import ClassDiagram.Proofs.Grammar.Soundness
import ClassDiagram.Proofs.Layout.Spelling

/-! # Canonical names

A canonical type name is a word, then its arguments, if there are any, with a comma and a blank
between them, then array brackets and question marks, all without further blanks.

* `CanonicalType.spells`: a canonical type name spells itself;
* `CanonicalArguments.spells`: so do the arguments of a method.
-/

namespace ClassDiagram

open TokenCatalog Grammar

/-- Array brackets with any number of commas, or a question mark. -/
inductive CanonicalSuffix : String → Prop
  | array (n : Nat) : CanonicalSuffix ("[" ++ String.ofList (List.replicate n ',') ++ "]")
  | nullable : CanonicalSuffix "?"

/-- A word, arguments in angles or tildes or none, and suffixes. -/
inductive CanonicalType : String → Prop
  | bare {w : String} {suffixes : List String} :
      IsWord w → (∀ s ∈ suffixes, CanonicalSuffix s) → CanonicalType (w ++ String.join suffixes)
  | angle {w : String} {names suffixes : List String} :
      IsWord w → names ≠ [] → (∀ n ∈ names, CanonicalType n) →
      (∀ s ∈ suffixes, CanonicalSuffix s) →
      CanonicalType (w ++ ("<" ++ ", ".intercalate names ++ ">") ++ String.join suffixes)
  | tilde {w : String} {names suffixes : List String} :
      IsWord w → names ≠ [] → (∀ n ∈ names, CanonicalType n) →
      (∀ s ∈ suffixes, CanonicalSuffix s) →
      CanonicalType (w ++ ("~" ++ ", ".intercalate names ++ "~") ++ String.join suffixes)

theorem CanonicalType.word {w : String} (h : IsWord w) : CanonicalType w := by
  have hbare := @CanonicalType.bare w [] h (List.forall_mem_nil _)
  rwa [String.join_nil, String.append_empty] at hbare

/-- One argument of a method: canonical type names and keywords, with a blank between them. -/
def CanonicalArgument (a : String) : Prop :=
  ∃ parts, parts ≠ [] ∧ (∀ p ∈ parts, CanonicalType p ∨ Keyword p) ∧ a = " ".intercalate parts

/-- The arguments of a method, none or some with a comma and a blank between them. -/
def CanonicalArguments (s : String) : Prop :=
  ∃ items, (∀ a ∈ items, CanonicalArgument a) ∧ s = ", ".intercalate items

def CanonicalName (n : String) : Prop := IsWord n ∨ Keyword n

theorem CanonicalType.begins {n : String} (h : CanonicalType n) : BeginsWord n := by
  cases h with
  | bare hw _ => exact hw.begins.append _
  | angle hw _ _ _ => exact (hw.begins.append _).append _
  | tilde hw _ _ _ => exact (hw.begins.append _).append _

theorem CanonicalType.not_blank {n : String} (h : CanonicalType n) :
    Text.isBlankText n = false :=
  h.begins.not_blank

theorem CanonicalName.begins {n : String} (h : CanonicalName n) : BeginsWord n :=
  h.elim IsWord.begins Keyword.begins

/-! ## Lists -/

theorem begins_intercalate {separator : String} {xs : List String} (hne : xs ≠ [])
    (h : ∀ x ∈ xs, BeginsWord x) : BeginsWord (separator.intercalate xs) := by
  cases xs with
  | nil => exact absurd rfl hne
  | cons x xs =>
    have hx := h x List.mem_cons_self
    cases xs with
    | nil => rwa [String.intercalate_singleton]
    | cons y ys =>
      rw [String.intercalate_cons_cons]
      exact (hx.append _).append _

/-- A comma and a blank in front of a text that begins like an identifier. -/
theorem spells_commaBlank {α : Type} {D : Grammar.Language α} {a : α} {x : String}
    {F : List Char → Prop}
    (h : Spells D a x F) (hx : BeginsWord x) :
    Spells ((Grammar.Language.verbatim .comma).both D) (",", a) (", " ++ x) F := by
  have hblank : Spells D a (" " ++ x) F := h.behindBlank fun rest _ => hx.blankEnds rest
  have hcomma := spells_fixed (t := .comma) (x := ",") (by decide)
  have h := hcomma.append hblank fun _ _ => trivial
  rwa [← String.append_assoc] at h

/-- Items that begin like an identifier, with a comma and a blank between them. -/
theorem spells_separated {D : Grammar.Language String} {xs : List String} (hne : xs ≠ [])
    (h : ∀ x ∈ xs, Spells D x x WordEnds ∧ BeginsWord x) :
    Spells (Separated D .comma) xs (", ".intercalate xs) WordEnds := by
  induction xs with
  | nil => exact absurd rfl hne
  | cons x xs ih =>
    obtain ⟨⟨hx, _⟩, hxs⟩ := List.forall_mem_cons.1 h
    by_cases hnil : xs = []
    · subst hnil
      rw [String.intercalate_singleton]
      exact hx.imp fun u hu => .one hu
    · have hrest := ih hnil hxs
      have hbegins : BeginsWord (", ".intercalate xs) :=
        begins_intercalate hnil fun y hy => (hxs y hy).2
      have hcomma : Begins (", " ++ ", ".intercalate xs) ',' := .append (x := ", ") rfl _
      have h := hx.append (spells_commaBlank hrest hbegins) fun rest _ =>
        hcomma.wordEnds rfl (by decide) rest
      rw [String.intercalate_cons_of_ne_nil hnil, String.append_assoc]
      refine h.imp ?_
      rintro _ ⟨u, _, hu, ⟨_, v, ⟨c, hc, _, rfl⟩, hv, rfl⟩, rfl⟩
      exact .more hu hc hv

/-- Items that begin like an identifier, with blanks between them. -/
theorem spells_many {D : Grammar.Language String} {xs : List String} (hne : xs ≠ [])
    (h : ∀ x ∈ xs, Spells D x x WordEnds ∧ BeginsWord x) :
    Spells (Many D) xs (" ".intercalate xs) WordEnds := by
  induction xs with
  | nil => exact absurd rfl hne
  | cons x xs ih =>
    obtain ⟨⟨hx, _⟩, hxs⟩ := List.forall_mem_cons.1 h
    by_cases hnil : xs = []
    · subst hnil
      rw [String.intercalate_singleton]
      exact hx.imp fun u hu => by simpa using Many.cons hu .nil
    · have hbegins : BeginsWord (" ".intercalate xs) :=
        begins_intercalate hnil fun y hy => (hxs y hy).2
      have hrest := (ih hnil hxs).behindBlank fun rest _ => hbegins.blankEnds rest
      have hblank : Begins (" " ++ " ".intercalate xs) ' ' := .append (x := " ") rfl _
      have h := hx.append hrest fun rest _ => hblank.wordEnds rfl (by decide) rest
      rw [String.intercalate_cons_of_ne_nil hnil, String.append_assoc]
      refine h.imp ?_
      rintro _ ⟨u, v, hu, hv, rfl⟩
      exact .cons hu hv

/-! ## Type names -/

theorem spells_suffix {s : String} (h : CanonicalSuffix s) : Spells IsSuffix s s Anything := by
  cases h with
  | array n =>
    have ho := spells_fixed (t := .openBracket) (x := "[") (by decide)
    have hc := spells_fixed (t := .closeBracket) (x := "]") (by decide)
    have hcommas : Spells (fun k u => u.length = k ∧ ∀ l ∈ u, l.token = .comma) n
        (String.ofList (List.replicate n ',')) Anything := by
      induction n with
      | zero => exact .empty ⟨rfl, nofun⟩
      | succ n ih =>
        have hcomma := spells_fixed (t := .comma) (x := ",") (by decide)
        have h := hcomma.append ih fun _ _ => trivial
        have htext : String.ofList (List.replicate (n + 1) ',')
            = "," ++ String.ofList (List.replicate n ',') := by
          rw [← String.toList_inj]
          simp [List.replicate_succ]
        rw [htext]
        refine h.imp ?_
        rintro _ ⟨_, u, ⟨l, hl, _, rfl⟩, ⟨rfl, hu⟩, rfl⟩
        exact ⟨rfl, List.forall_mem_cons.2 ⟨hl, hu⟩⟩
    have h := (ho.append hcommas fun _ _ => trivial).append hc fun _ _ => trivial
    refine h.imp ?_
    rintro _ ⟨_, _, ⟨_, u, ⟨o, ho, _, rfl⟩, ⟨hlen, hu⟩, rfl⟩, ⟨c, hc, _, rfl⟩, rfl⟩
    have hmap : u.map (fun _ => ',') = List.replicate n ',' := by
      rw [List.map_const', hlen]
    have h := IsSuffix.array ho hu hc
    rwa [hmap] at h
  | nullable =>
    refine (spells_fixed (t := .question) (by decide)).imp ?_
    rintro _ ⟨q, hq, _, rfl⟩
    exact .nullable hq

theorem CanonicalSuffix.wordEnds {s : String} (h : CanonicalSuffix s) (rest : List Char) :
    WordEnds (s.toList ++ rest) := by
  cases h with
  | array n =>
    have hopen : Begins ("[" ++ String.ofList (List.replicate n ',') ++ "]") '[' :=
      .append (.append (x := "[") rfl _) _
    exact hopen.wordEnds rfl (by decide) rest
  | nullable => exact wordEnds_cons rfl (by decide) rest

theorem wordEnds_suffixes {suffixes : List String} (h : ∀ s ∈ suffixes, CanonicalSuffix s)
    {rest : List Char} (hrest : WordEnds rest) :
    WordEnds ((String.join suffixes).toList ++ rest) := by
  cases suffixes with
  | nil => exact hrest
  | cons s suffixes =>
    rw [String.join_cons, String.toList_append, List.append_assoc]
    exact (h s List.mem_cons_self).wordEnds _

theorem spells_suffixes {suffixes : List String} (h : ∀ s ∈ suffixes, CanonicalSuffix s) :
    Spells (Many IsSuffix) suffixes (String.join suffixes) Anything := by
  induction suffixes with
  | nil => exact .empty .nil
  | cons s suffixes ih =>
    obtain ⟨hs, hsuffixes⟩ := List.forall_mem_cons.1 h
    rw [String.join_cons]
    refine ((spells_suffix hs).append (ih hsuffixes) fun _ _ => trivial).imp ?_
    rintro _ ⟨u, v, hu, hv, rfl⟩
    exact .cons hu hv

/-- A word with arguments and suffixes, once it is known what the arguments spell. -/
theorem spells_typeName {w arguments : String} {suffixes : List String} (hw : IsWord w)
    (hargs : Spells IsTypeArguments arguments arguments Anything)
    (hends : ∀ rest, WordEnds rest → WordEnds (arguments.toList ++ rest))
    (hs : ∀ s ∈ suffixes, CanonicalSuffix s) :
    Spells IsTypeName (w ++ arguments ++ String.join suffixes)
      (w ++ arguments ++ String.join suffixes) WordEnds := by
  have htail := hargs.append (spells_suffixes hs) fun _ _ => trivial
  have hfollow : ∀ rest, WordEnds rest →
      WordEnds ((arguments ++ String.join suffixes).toList ++ rest) := by
    intro rest hrest
    rw [String.toList_append, List.append_assoc]
    exact hends _ (wordEnds_suffixes hs hrest)
  have h := (spells_word hw).append (htail.always _) hfollow
  rw [String.append_assoc]
  refine h.imp ?_
  rintro _ ⟨_, _, ⟨l, hl, htext, rfl⟩, ⟨u, v, hu, hv, rfl⟩, rfl⟩
  have h := IsTypeName.mk hl hu hv
  rwa [htext, String.append_assoc] at h

theorem spells_names {names : List String} (hne : names ≠ [])
    (h : ∀ n ∈ names, Spells IsTypeName n n WordEnds ∧ BeginsWord n) :
    Spells IsTypeNames names (", ".intercalate names) WordEnds :=
  (spells_separated hne h).imp fun _ hu => isTypeNames_of_separated hu

theorem CanonicalType.spells {n : String} (h : CanonicalType n) :
    Spells IsTypeName n n WordEnds := by
  induction h with
  | @bare w suffixes hw hs =>
    have hnone : Spells IsTypeArguments "" "" Anything := .empty .none
    have h := spells_typeName hw hnone (fun _ hrest => hrest) hs
    rwa [String.append_empty] at h
  | @angle w names suffixes hw hne hnames hs ih =>
    have hlist := spells_names hne fun n hn => ⟨ih n hn, (hnames n hn).begins⟩
    have hbegins : BeginsWord (", ".intercalate names) :=
      begins_intercalate hne fun n hn => (hnames n hn).begins
    have hclose := spells_fixed (t := .closeAngle) (x := ">") (by decide)
    have hangle : Begins ("<" ++ ", ".intercalate names ++ ">") '<' :=
      .append (.append (x := "<") rfl _) _
    have h := (spells_openAngle.append hlist fun rest _ =>
      ⟨hbegins.head_ne rest rfl, hbegins.head_ne rest rfl⟩).append hclose fun rest _ =>
        wordEnds_cons rfl (by decide) rest
    refine spells_typeName hw (h.imp ?_) (fun rest _ => hangle.wordEnds rfl (by decide) rest) hs
    rintro _ ⟨_, _, ⟨_, u, ⟨o, ho, _, rfl⟩, hu, rfl⟩, ⟨c, hc, _, rfl⟩, rfl⟩
    exact .angle ho hu hc
  | @tilde w names suffixes hw hne hnames hs ih =>
    have hlist := spells_names hne fun n hn => ⟨ih n hn, (hnames n hn).begins⟩
    have htilde := spells_fixed (t := .tilde) (x := "~") (by decide)
    have hopen : Begins ("~" ++ ", ".intercalate names ++ "~") '~' :=
      .append (.append (x := "~") rfl _) _
    have h := (htilde.append hlist fun _ _ => trivial).append htilde fun rest _ =>
      wordEnds_cons rfl (by decide) rest
    refine spells_typeName hw (h.imp ?_) (fun rest _ => hopen.wordEnds rfl (by decide) rest) hs
    rintro _ ⟨_, _, ⟨_, u, ⟨o, ho, _, rfl⟩, hu, rfl⟩, ⟨c, hc, _, rfl⟩, rfl⟩
    exact .tilde ho hu hc

/-! ## Arguments -/

theorem Keyword.spells {k : String} (h : Keyword k) :
    Spells (fun (x : String) u => ∃ l, isKeyword l.token = true ∧ l.text = x ∧ u = [l]) k k
      WordEnds := by
  have key : ∀ k ∈ ["classDiagram", "class", "note", "for"],
      ∃ s ∈ keywords, isKeyword s.1 = true ∧ s.2 = k := by decide
  obtain ⟨⟨t, k⟩, hk, ht, rfl⟩ := key k h
  refine (spells_keyword hk).imp ?_
  rintro _ ⟨l, hl, htext, rfl⟩
  exact ⟨l, by rw [hl, ht], htext, rfl⟩

theorem CanonicalName.spells {n : String} (h : CanonicalName n) : Spells IsName n n WordEnds := by
  rcases h with hw | hk
  · refine (spells_word hw).imp ?_
    rintro _ ⟨l, hl, htext, rfl⟩
    exact htext ▸ .word hl
  · refine hk.spells.imp ?_
    rintro _ ⟨l, hl, htext, rfl⟩
    exact htext ▸ .keyword hl

theorem CanonicalArgument.spells {a : String} (h : CanonicalArgument a) :
    Spells IsArgument a a WordEnds ∧ BeginsWord a := by
  obtain ⟨parts, hne, hparts, rfl⟩ := h
  have hpart : ∀ p ∈ parts, Spells IsPart p p WordEnds ∧ BeginsWord p := by
    intro p hp
    rcases hparts p hp with hn | hk
    · exact ⟨hn.spells.imp fun _ hu => .typeName hu, hn.begins⟩
    · refine ⟨hk.spells.imp ?_, hk.begins⟩
      rintro _ ⟨l, hl, htext, rfl⟩
      exact htext ▸ .keyword hl
  exact ⟨(spells_many hne hpart).imp fun _ hu => .mk hne hu,
    begins_intercalate hne fun p hp => (hpart p hp).2⟩

/-- The arguments of a method with their parentheses. -/
theorem CanonicalArguments.spells {s : String} (h : CanonicalArguments s) :
    Spells IsArguments s ("(" ++ s ++ ")") Anything := by
  obtain ⟨items, hitems, rfl⟩ := h
  have hopen := spells_fixed (t := .openParen) (x := "(") (by decide)
  have hclose := spells_fixed (t := .closeParen) (x := ")") (by decide)
  by_cases hne : items = []
  · subst hne
    refine (hopen.append hclose fun _ _ => trivial).imp ?_
    rintro _ ⟨_, _, ⟨o, ho, _, rfl⟩, ⟨c, hc, _, rfl⟩, rfl⟩
    exact .none ho hc
  · have hlist := spells_separated hne fun a ha => (hitems a ha).spells
    have h := (hopen.append hlist fun _ _ => trivial).append hclose fun rest _ =>
      wordEnds_cons rfl (by decide) rest
    refine h.imp ?_
    rintro _ ⟨_, _, ⟨_, u, ⟨o, ho, _, rfl⟩, hu, rfl⟩, ⟨c, hc, _, rfl⟩, rfl⟩
    exact .some ho hu hc

end ClassDiagram
