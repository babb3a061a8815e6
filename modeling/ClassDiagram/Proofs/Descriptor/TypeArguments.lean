import Mathlib.Algebra.Ring.Nat
import ClassDiagram.Proofs.Descriptor.Names
import ClassDiagram.Proofs.Layout.TypeNames

/-! # The number of type arguments

A name with type arguments is looked up under its number of arguments.  That number is found by
counting the commas outside of the arguments' angles.  But an argument may have commas without
angles around them, in its array brackets or between its own arguments in tildes.  Each of these
counts as if it separated two arguments.

* `Request.topCommas_append`: commas are counted part by part;
* `Request.topCommas_eq_outerCommas`: which commas count;
* `CanonicalType.balanced`: a type name closes each angle it opens;
* `CanonicalType.outerCommas_eq_zero_iff`: arguments that count as one;
* `Request.normalize_generic`: the number that a name is looked up under.
-/

namespace ClassDiagram

namespace Request

/-! ## Open angles -/

/-- The number of open angles behind a text, when `depth` are open before it; none if the text
closes an angle that is not open. -/
def anglesOpen : Nat → List Char → Option Nat
  | depth, [] => some depth
  | depth, '<' :: cs => anglesOpen (depth + 1) cs
  | depth, '>' :: cs => if depth = 0 then none else anglesOpen (depth - 1) cs
  | depth, _ :: cs => anglesOpen depth cs

/-- A text that closes the angles it opens, and no others. -/
def Balanced (cs : List Char) : Prop := ∀ depth, anglesOpen depth cs = some depth

/-- The number of commas that have as many closing angles before them as opening ones. -/
def outerCommas (cs : List Char) : Nat :=
  (List.range cs.length).countP fun i =>
    cs[i]? == some ',' && (cs.take i).count '<' == (cs.take i).count '>'

variable {d e : Nat} {u v : List Char}

theorem anglesOpen_append (d : Nat) (u v : List Char) :
    anglesOpen d (u ++ v) = (anglesOpen d u).bind (anglesOpen · v) := by
  fun_induction anglesOpen d u with
  | case1 d => rfl
  | case2 d cs ih => simpa [anglesOpen] using ih
  | case3 cs => simp [anglesOpen]
  | case4 d cs hd ih => simpa [anglesOpen, hd] using ih
  | case5 d c cs ho hc ih => simpa [anglesOpen] using ih

/-! ## Counted commas -/

theorem topCommas_cons_of_ne {c : Char} (ho : c ≠ '<') (hc : c ≠ '>') (hcomma : c ≠ ',')
    (d : Nat) (cs : List Char) : topCommas d (c :: cs) = topCommas d cs := by
  rw [topCommas]
  · exact ho
  · exact hc
  · exact hcomma

/-- Behind a text the count goes on with the angles that are open there. -/
theorem topCommas_append (h : anglesOpen d u = some e) (v : List Char) :
    topCommas d (u ++ v) = topCommas d u + topCommas e v := by
  fun_induction anglesOpen d u with
  | case1 d =>
    cases h
    rw [List.nil_append, topCommas, Nat.zero_add]
  | case2 d cs ih => simpa [topCommas] using ih h
  | case3 => cases h
  | case4 d cs hd ih => simpa [topCommas] using ih h
  | case5 d c cs ho hc ih =>
    by_cases hcomma : c = ','
    · simp [hcomma, topCommas, ih h, Nat.add_assoc]
    · rw [List.cons_append, topCommas_cons_of_ne ho hc hcomma, ih h,
        topCommas_cons_of_ne ho hc hcomma]

/-- Inside an angle that stays open no comma counts. -/
theorem topCommas_succ (h : anglesOpen d u = some e) : topCommas (d + 1) u = 0 := by
  fun_induction anglesOpen d u with
  | case1 d => rfl
  | case2 d cs ih => simpa [topCommas] using ih h
  | case3 => cases h
  | case4 d cs hd ih =>
    have hrest := ih h
    rw [Nat.sub_add_cancel (Nat.pos_of_ne_zero hd)] at hrest
    simpa [topCommas] using hrest
  | case5 d c cs ho hc ih =>
    by_cases hcomma : c = ','
    · simp [hcomma, topCommas, ih h]
    · rw [topCommas_cons_of_ne ho hc hcomma, ih h]

theorem countP_range_cons (d : Nat) (c : Char) (cs : List Char) :
    ((List.range (c :: cs).length).countP fun i => (c :: cs)[i]? == some ',' &&
        d + ((c :: cs).take i).count '<' == ((c :: cs).take i).count '>')
      = (if c = ',' ∧ d = 0 then 1 else 0) + (List.range cs.length).countP fun i =>
        cs[i]? == some ',' && d + (c :: cs.take i).count '<' == (c :: cs.take i).count '>' := by
  rw [List.length_cons, List.range_succ_eq_map, List.countP_cons, List.countP_map, Nat.add_comm]
  simp [Function.comp_def]

/-- As long as no angle is closed that is not open, the angles before a comma tell whether it
counts. -/
theorem topCommas_eq_countP (h : anglesOpen d u = some e) : topCommas d u =
    (List.range u.length).countP fun i =>
      u[i]? == some ',' && d + (u.take i).count '<' == (u.take i).count '>' := by
  fun_induction anglesOpen d u with
  | case1 d => rfl
  | case2 d cs ih =>
    rw [topCommas, ih h, countP_range_cons]
    simp [Nat.add_right_comm, Nat.add_assoc]
  | case3 => cases h
  | case4 d cs hd ih =>
    rw [topCommas, ih h, countP_range_cons]
    obtain ⟨d, rfl⟩ := Nat.exists_eq_succ_of_ne_zero hd
    simp [Nat.add_right_comm]
  | case5 d c cs ho hc ih =>
    rw [countP_range_cons]
    by_cases hcomma : c = ','
    · simp [hcomma, topCommas, ih h]
    · rw [if_neg (fun hand => hcomma hand.1), Nat.zero_add,
        topCommas_cons_of_ne ho hc hcomma, ih h]
      simp only [List.count_cons_of_ne ho, List.count_cons_of_ne hc]

/-! ## Balanced texts -/

theorem topCommas_eq_outerCommas (h : Balanced u) : topCommas 0 u = outerCommas u := by
  rw [topCommas_eq_countP (h 0), outerCommas]
  simp only [Nat.zero_add]

theorem Balanced.nil : Balanced [] := fun _ => rfl

theorem Balanced.append (hu : Balanced u) (hv : Balanced v) : Balanced (u ++ v) := by
  intro d
  rw [anglesOpen_append, hu d, Option.bind_some, hv d]

theorem Balanced.angles (h : Balanced u) : Balanced ('<' :: u ++ ['>']) := by
  intro d
  show anglesOpen (d + 1) (u ++ ['>']) = some d
  rw [anglesOpen_append, h (d + 1)]
  rfl

theorem Balanced.of_not_mem (ho : '<' ∉ u) (hc : '>' ∉ u) : Balanced u := by
  intro d
  induction u with
  | nil => rfl
  | cons c u ih =>
    rw [List.mem_cons, not_or] at ho hc
    rw [anglesOpen, ih ho.2 hc.2]
    · exact fun h => ho.1 h.symm
    · exact fun h => hc.1 h.symm

/-- The commas of a text without angles all count. -/
theorem topCommas_of_not_mem (ho : '<' ∉ u) (hc : '>' ∉ u) : topCommas 0 u = u.count ',' := by
  induction u with
  | nil => rfl
  | cons c u ih =>
    rw [List.mem_cons, not_or] at ho hc
    by_cases hcomma : c = ','
    · rw [hcomma, topCommas, ih ho.2 hc.2, List.count_cons_self, if_pos rfl, Nat.add_comm]
    · rw [topCommas_cons_of_ne (Ne.symm ho.1) (Ne.symm hc.1) hcomma, ih ho.2 hc.2,
        List.count_cons_of_ne hcomma]

/-- The commas of a text between angles do not count. -/
theorem topCommas_angles (h : Balanced u) : topCommas 0 ('<' :: u ++ ['>']) = 0 := by
  show topCommas 1 (u ++ ['>']) = 0
  rw [topCommas_append (h 1), topCommas_succ (h 0)]
  rfl

theorem balanced_intercalate {names : List String} (h : ∀ n ∈ names, Balanced n.toList) :
    Balanced (", ".intercalate names).toList := by
  induction names with
  | nil => exact .nil
  | cons n names ih =>
    obtain ⟨hn, hnames⟩ := List.forall_mem_cons.1 h
    by_cases hnil : names = []
    · rwa [hnil, String.intercalate_singleton]
    · rw [String.intercalate_cons_of_ne_nil hnil, String.toList_append, String.toList_append]
      exact (hn.append (.of_not_mem (by decide) (by decide))).append (ih hnames)

/-- In a list of names, those between the names count and those that count in each name. -/
theorem topCommas_intercalate {names : List String} (hne : names ≠ [])
    (h : ∀ n ∈ names, Balanced n.toList) :
    topCommas 0 (", ".intercalate names).toList + 1
      = names.length + (names.map fun n => topCommas 0 n.toList).sum := by
  induction names with
  | nil => exact absurd rfl hne
  | cons n names ih =>
    obtain ⟨hn, hnames⟩ := List.forall_mem_cons.1 h
    by_cases hnil : names = []
    · simp [hnil, Nat.add_comm]
    · have hsplit : (", ".intercalate (n :: names)).toList
          = n.toList ++ ([',', ' '] ++ (", ".intercalate names).toList) := by
        rw [String.intercalate_cons_of_ne_nil hnil, String.toList_append, String.toList_append,
          List.append_assoc]
        rfl
      have hcomma : Balanced [',', ' '] := .of_not_mem (by decide) (by decide)
      have hone : topCommas 0 [',', ' '] = 1 := rfl
      have hrest := ih hnil hnames
      rw [hsplit, topCommas_append (hn 0), topCommas_append (hcomma 0), hone, List.map_cons,
        List.sum_cons, List.length_cons]
      omega

/-! ## Names with arguments -/

/-- Behind a bare name, what stands up to the last closing angle are the arguments. -/
theorem metadataForm_bracketed {bare arguments rest : List Char} (hbare : '<' ∉ bare)
    (hrest : '>' ∉ rest) {name : String}
    (h : name.toList = bare ++ '<' :: arguments ++ '>' :: rest) :
    metadataForm name
      = String.ofList bare ++ "`" ++ toString (topCommas 0 arguments + 1) := by
  have hall : ∀ c ∈ bare, decide (c ≠ '<') = true := fun c hc =>
    decide_eq_true fun heq => hbare (heq ▸ hc)
  have hback : ∀ c ∈ rest.reverse, decide (c ≠ '>') = true := fun c hc =>
    decide_eq_true fun heq => hrest (heq ▸ List.mem_reverse.1 hc)
  have htake : name.toList.takeWhile (· ≠ '<') = bare := by
    rw [h, List.append_assoc, List.takeWhile_append_of_pos hall]
    simp
  have hdrop : name.toList.dropWhile (· ≠ '<') = '<' :: (arguments ++ '>' :: rest) := by
    rw [h, List.append_assoc, List.dropWhile_append_of_pos hall]
    simp
  have hbefore : beforeLastAngle (arguments ++ '>' :: rest) = some arguments := by
    rw [beforeLastAngle, List.reverse_append, List.reverse_cons, List.append_assoc,
      List.dropWhile_append_of_pos hback]
    simp
  rw [metadataForm, htake, hdrop]
  simp only [hbefore]

end Request

open Request

/-! ## Type names -/

theorem IsWord.trim_eq {w : String} (h : IsWord w) : Text.trim w = w := by
  have hvisible : ∀ c ∈ w.toList, Text.isBlank c = false := by
    intro c hc
    refine Bool.eq_false_iff.2 fun hblank => h.not_mem (isWordChar_of_isBlank hblank) ?_ hc
    rintro rfl
    exact absurd hblank (by decide)
  rw [Text.trim_eq_self_iff]
  exact ⟨fun c hc => hvisible c (List.mem_of_head? hc),
    fun c hc => hvisible c (List.mem_of_getLast? hc)⟩

theorem CanonicalSuffix.no_angle {s : String} (h : CanonicalSuffix s) :
    '<' ∉ s.toList ∧ '>' ∉ s.toList := by
  cases h with
  | array n => simp
  | nullable => decide

theorem no_angle_suffixes {suffixes : List String} (h : ∀ s ∈ suffixes, CanonicalSuffix s) :
    '<' ∉ (String.join suffixes).toList ∧ '>' ∉ (String.join suffixes).toList := by
  induction suffixes with
  | nil => exact ⟨nofun, nofun⟩
  | cons s suffixes ih =>
    obtain ⟨hs, hsuffixes⟩ := List.forall_mem_cons.1 h
    rw [String.join_cons, String.toList_append, List.mem_append, List.mem_append, not_or, not_or]
    exact ⟨⟨hs.no_angle.1, (ih hsuffixes).1⟩, hs.no_angle.2, (ih hsuffixes).2⟩

/-- Array brackets without commas, and question marks. -/
def Plain (suffixes : List String) : Prop := ∀ s ∈ suffixes, s = "[]" ∨ s = "?"

/-- A type name without commas outside of its own angles: its array brackets hold none, and between
tildes it has one such name only. -/
inductive Sealed : String → Prop
  | bare {w : String} {suffixes : List String} :
      IsWord w → Plain suffixes → Sealed (w ++ String.join suffixes)
  | angle {w : String} {names suffixes : List String} :
      IsWord w → names ≠ [] → (∀ n ∈ names, CanonicalType n) → Plain suffixes →
      Sealed (w ++ ("<" ++ ", ".intercalate names ++ ">") ++ String.join suffixes)
  | tilde {w name : String} {suffixes : List String} :
      IsWord w → Sealed name → Plain suffixes →
      Sealed (w ++ ("~" ++ name ++ "~") ++ String.join suffixes)

theorem CanonicalSuffix.count_eq_zero_iff {s : String} (h : CanonicalSuffix s) :
    s.toList.count ',' = 0 ↔ s = "[]" ∨ s = "?" := by
  cases h with
  | array n =>
    have hcount : ("[" ++ String.ofList (List.replicate n ',') ++ "]").toList.count ',' = n := by
      simp
    rw [hcount]
    constructor
    · rintro rfl
      exact .inl rfl
    · rintro (heq | heq)
      · rw [← hcount, heq]
        rfl
      · rw [← hcount, heq]
        rfl
  | nullable => exact iff_of_true rfl (.inr rfl)

theorem count_suffixes_eq_zero_iff {suffixes : List String}
    (h : ∀ s ∈ suffixes, CanonicalSuffix s) :
    (String.join suffixes).toList.count ',' = 0 ↔ Plain suffixes := by
  induction suffixes with
  | nil => exact iff_of_true rfl (List.forall_mem_nil _)
  | cons s suffixes ih =>
    obtain ⟨hs, hsuffixes⟩ := List.forall_mem_cons.1 h
    rw [String.join_cons, String.toList_append, List.count_append, Nat.add_eq_zero_iff,
      hs.count_eq_zero_iff, ih hsuffixes, Plain, Plain, List.forall_mem_cons]

theorem Plain.canonical {suffixes : List String} (h : Plain suffixes) :
    ∀ s ∈ suffixes, CanonicalSuffix s := by
  intro s hs
  rcases h s hs with rfl | rfl
  · exact .array 0
  · exact .nullable

/-- A word and suffixes add no angles, and the commas of the suffixes to those that count. -/
theorem balanced_typeName {w arguments : String} {suffixes : List String} (hw : IsWord w)
    (ha : Balanced arguments.toList) (hs : ∀ s ∈ suffixes, CanonicalSuffix s) :
    Balanced (w ++ arguments ++ String.join suffixes).toList ∧
      topCommas 0 (w ++ arguments ++ String.join suffixes).toList
        = topCommas 0 arguments.toList + (String.join suffixes).toList.count ',' := by
  have hclose : '>' ∉ w.toList := hw.not_mem (by decide) (by decide)
  have hcomma : ',' ∉ w.toList := hw.not_mem (by decide) (by decide)
  obtain ⟨hopen', hclose'⟩ := no_angle_suffixes hs
  have hword : Balanced w.toList := .of_not_mem hw.no_angle hclose
  rw [String.toList_append, String.toList_append, List.append_assoc]
  refine ⟨hword.append (ha.append (.of_not_mem hopen' hclose')), ?_⟩
  rw [topCommas_append (hword 0), topCommas_append (ha 0), topCommas_of_not_mem hw.no_angle hclose,
    topCommas_of_not_mem hopen' hclose', List.count_eq_zero.2 hcomma, Nat.zero_add]

theorem toList_angles (x : String) : ("<" ++ x ++ ">").toList = '<' :: x.toList ++ ['>'] := by
  simp

theorem balanced_tildes {x : String} (h : Balanced x.toList) :
    Balanced ("~" ++ x ++ "~").toList ∧
      topCommas 0 ("~" ++ x ++ "~").toList = topCommas 0 x.toList := by
  have htilde : Balanced ['~'] := .of_not_mem (by decide) (by decide)
  have htext : ("~" ++ x ++ "~").toList = ['~'] ++ (x.toList ++ ['~']) := by simp
  rw [htext]
  refine ⟨htilde.append (h.append htilde), ?_⟩
  rw [topCommas_append (htilde 0), topCommas_append (h 0)]
  show 0 + (topCommas 0 x.toList + 0) = _
  rw [Nat.zero_add, Nat.add_zero]

/-- A type name closes each angle it opens. -/
theorem CanonicalType.balanced {n : String} (h : CanonicalType n) : Balanced n.toList := by
  induction h with
  | @bare w suffixes hw hs =>
    have hname := (@balanced_typeName w "" suffixes hw .nil hs).1
    rwa [String.append_empty] at hname
  | @angle w names suffixes hw hne hnames hs ih =>
    refine (balanced_typeName hw ?_ hs).1
    rw [toList_angles]
    exact (balanced_intercalate ih).angles
  | @tilde w names suffixes hw hne hnames hs ih =>
    exact (balanced_typeName hw (balanced_tildes (balanced_intercalate ih)).1 hs).1

section

variable {w : String} {names suffixes : List String}

theorem topCommas_bare (hw : IsWord w) (hs : ∀ s ∈ suffixes, CanonicalSuffix s) :
    topCommas 0 (w ++ String.join suffixes).toList = (String.join suffixes).toList.count ',' := by
  have hcount := (@balanced_typeName w "" suffixes hw .nil hs).2
  rw [String.append_empty] at hcount
  exact hcount.trans (Nat.zero_add _)

/-- The commas between the angles of a type name do not count. -/
theorem topCommas_angle (hw : IsWord w) (hnames : ∀ n ∈ names, CanonicalType n)
    (hs : ∀ s ∈ suffixes, CanonicalSuffix s) :
    topCommas 0 (w ++ ("<" ++ ", ".intercalate names ++ ">") ++ String.join suffixes).toList
      = (String.join suffixes).toList.count ',' := by
  have hlist := balanced_intercalate fun n hn => (hnames n hn).balanced
  rw [(balanced_typeName hw (toList_angles _ ▸ hlist.angles) hs).2, toList_angles,
    topCommas_angles hlist, Nat.zero_add]

/-- The commas between the tildes of a type name count. -/
theorem topCommas_tilde (hw : IsWord w) (hne : names ≠ []) (hnames : ∀ n ∈ names, CanonicalType n)
    (hs : ∀ s ∈ suffixes, CanonicalSuffix s) :
    topCommas 0 (w ++ ("~" ++ ", ".intercalate names ++ "~") ++ String.join suffixes).toList + 1
      = names.length + (names.map fun n => topCommas 0 n.toList).sum
        + (String.join suffixes).toList.count ',' := by
  have hbalanced : ∀ n ∈ names, Balanced n.toList := fun n hn => (hnames n hn).balanced
  obtain ⟨htilde, hcount⟩ := balanced_tildes (balanced_intercalate hbalanced)
  rw [(balanced_typeName hw htilde hs).2, hcount, Nat.add_right_comm,
    topCommas_intercalate hne hbalanced]

end

theorem Sealed.canonical {n : String} (h : Sealed n) : CanonicalType n := by
  induction h with
  | bare hw hs => exact .bare hw hs.canonical
  | angle hw hne hnames hs => exact .angle hw hne hnames hs.canonical
  | @tilde w name suffixes hw _ hs ih =>
    have hname := @CanonicalType.tilde w [name] suffixes hw (List.cons_ne_nil _ _)
      (List.forall_mem_singleton.2 ih) hs.canonical
    rwa [String.intercalate_singleton] at hname

theorem Sealed.topCommas_eq_zero {n : String} (h : Sealed n) : topCommas 0 n.toList = 0 := by
  induction h with
  | @bare w suffixes hw hs =>
    rw [topCommas_bare hw hs.canonical, (count_suffixes_eq_zero_iff hs.canonical).2 hs]
  | @angle w names suffixes hw hne hnames hs =>
    rw [topCommas_angle hw hnames hs.canonical, (count_suffixes_eq_zero_iff hs.canonical).2 hs]
  | @tilde w name suffixes hw hname hs ih =>
    have hcount := @topCommas_tilde w [name] suffixes hw (List.cons_ne_nil _ _)
      (List.forall_mem_singleton.2 hname.canonical) hs.canonical
    rw [String.intercalate_singleton, (count_suffixes_eq_zero_iff hs.canonical).2 hs, List.map_cons,
      List.map_nil, List.sum_cons, List.sum_nil, ih, List.length_singleton] at hcount
    omega

/-- A type name none of whose commas count is sealed. -/
theorem CanonicalType.sealed {n : String} (h : CanonicalType n)
    (hzero : topCommas 0 n.toList = 0) : Sealed n := by
  induction h with
  | @bare w suffixes hw hs =>
    rw [topCommas_bare hw hs] at hzero
    exact .bare hw ((count_suffixes_eq_zero_iff hs).1 hzero)
  | @angle w names suffixes hw hne hnames hs ih =>
    rw [topCommas_angle hw hnames hs] at hzero
    exact .angle hw hne hnames ((count_suffixes_eq_zero_iff hs).1 hzero)
  | @tilde w names suffixes hw hne hnames hs ih =>
    have hcount := topCommas_tilde hw hne hnames hs
    obtain ⟨name, names, rfl⟩ := List.exists_cons_of_ne_nil hne
    rw [hzero, List.map_cons, List.sum_cons, List.length_cons] at hcount
    have hnil : names = [] := List.length_eq_zero_iff.1 (by omega)
    subst hnil
    have hname := ih name List.mem_cons_self (by omega)
    have hplain := (count_suffixes_eq_zero_iff hs).1 (by omega)
    rw [String.intercalate_singleton]
    exact .tilde hw hname hplain

/-- An argument counts as one when it has no comma outside of its angles. -/
theorem CanonicalType.outerCommas_eq_zero_iff {n : String} (h : CanonicalType n) :
    outerCommas n.toList = 0 ↔ Sealed n := by
  rw [← topCommas_eq_outerCommas h.balanced]
  exact ⟨h.sealed, Sealed.topCommas_eq_zero⟩

/-! ## Requests with arguments -/

namespace Request

theorem toString_inj {m n : Nat} (h : toString m = toString n) : m = n := by
  rw [Nat.toString_eq_ofList_toDigits, Nat.toString_eq_ofList_toDigits, String.ofList_inj] at h
  have hvalue := congrArg (Nat.ofDigitChars 10 · 0) h
  simpa only [Nat.ofDigitChars_ten_toDigits] using hvalue

/-- A name with arguments in angles, without suffixes. -/
theorem sought_generic {name arguments : String} (hangle : '<' ∉ name.toList)
    (htrim : Text.trim name = name) : sought (name ++ ("<" ++ arguments ++ ">"))
      = name ++ "`" ++ toString (topCommas 0 arguments.toList + 1) := by
  have htext : (name ++ ("<" ++ arguments ++ ">")).toList
      = name.toList ++ '<' :: arguments.toList ++ '>' :: [] := by simp
  have hself : Text.trim (name ++ ("<" ++ arguments ++ ">"))
      = name ++ ("<" ++ arguments ++ ">") := by
    obtain ⟨hfirst, -⟩ := Text.trim_eq_self_iff.1 htrim
    rw [Text.trim_eq_self_iff, htext, List.getLast?_concat, List.append_assoc]
    constructor
    · intro c hc
      cases hname : name.toList with
      | nil =>
        rw [hname] at hc
        rw [← Option.some.inj hc]
        rfl
      | cons d ds =>
        rw [hname] at hc hfirst
        exact hfirst c hc
    · intro c hc
      rw [← Option.some.inj hc]
      rfl
  rw [sought, hself, metadataForm_bracketed hangle List.not_mem_nil htext, String.ofList_toList]

/-- A name with type arguments is looked up under a number that exceeds theirs by the number of
commas outside of angles in each of them; it is the number of the arguments when they are all
sealed. -/
theorem normalize_generic {w : String} {names : List String} (hw : IsWord w) (hne : names ≠ [])
    (h : ∀ n ∈ names, CanonicalType n) :
    normalize [w ++ ("<" ++ ", ".intercalate names ++ ">")]
        = [w ++ "`"
          ++ toString (names.length + (names.map fun n => outerCommas n.toList).sum)] ∧
      (normalize [w ++ ("<" ++ ", ".intercalate names ++ ">")]
          = [w ++ "`" ++ toString names.length] ↔ ∀ n ∈ names, Sealed n) := by
  have hblank : Text.isBlankText (w ++ ("<" ++ ", ".intercalate names ++ ">")) = false :=
    (hw.begins.append _).not_blank
  have hcounts : (names.map fun n => topCommas 0 n.toList)
      = names.map fun n => outerCommas n.toList :=
    List.map_congr_left fun n hn => topCommas_eq_outerCommas (h n hn).balanced
  have hform : normalize [w ++ ("<" ++ ", ".intercalate names ++ ">")] = [w ++ "`"
      ++ toString (names.length + (names.map fun n => outerCommas n.toList).sum)] := by
    rw [normalize_singleton hblank, sought_generic hw.no_angle hw.trim_eq,
      topCommas_intercalate hne fun n hn => (h n hn).balanced, hcounts]
  refine ⟨hform, ?_⟩
  have hsame : ∀ k l : Nat, [w ++ "`" ++ toString k] = [w ++ "`" ++ toString l] ↔ k = l := by
    refine fun k l => ⟨fun heq => ?_, fun heq => by rw [heq]⟩
    have hlist := congrArg String.toList (List.cons.inj heq).1
    rw [String.toList_append, String.toList_append (t := toString l)] at hlist
    exact toString_inj (String.toList_inj.1 (List.append_cancel_left hlist))
  rw [hform, hsame, Nat.add_eq_left, List.sum_eq_zero_iff_forall_eq_nat]
  constructor
  · intro hzero n hn
    exact (h n hn).outerCommas_eq_zero_iff.1 (hzero _ (List.mem_map_of_mem hn))
  · intro hsealed k hk
    obtain ⟨n, hn, rfl⟩ := List.mem_map.1 hk
    exact (h n hn).outerCommas_eq_zero_iff.2 (hsealed n hn)

/-- The comma of `Map<K, V>` stands between its own angles, and `Set~Item~` has none. -/
theorem normalize_generic_pair :
    normalize ["Pair<Map<K, V>[], Set~Item~?>"] = ["Pair`2"] := by
  have hitem : Sealed "Item" := .bare (w := "Item") (by decide) (List.forall_mem_nil _)
  have hset : Sealed "Set~Item~?" := @Sealed.tilde "Set" "Item" ["?"] (by decide) hitem
    (List.forall_mem_singleton.2 (.inr rfl))
  have hmap : Sealed "Map<K, V>[]" := by
    refine @Sealed.angle "Map" ["K", "V"] ["[]"] (by decide) (by decide) ?_
      (List.forall_mem_singleton.2 (.inl rfl))
    simpa using And.intro (CanonicalType.word (w := "K") (by decide))
      (CanonicalType.word (w := "V") (by decide))
  have hall : ∀ n ∈ ["Map<K, V>[]", "Set~Item~?"], Sealed n :=
    List.forall_mem_cons.2 ⟨hmap, List.forall_mem_singleton.2 hset⟩
  exact (normalize_generic (w := "Pair") (by decide) (by decide)
    fun n hn => (hall n hn).canonical).2.2 hall

/-- An array of two dimensions is counted as two arguments. -/
theorem normalize_grid : ¬ ∀ (w : String) (names : List String), IsWord w → names ≠ [] →
    (∀ n ∈ names, CanonicalType n) →
    normalize [w ++ ("<" ++ ", ".intercalate names ++ ">")]
      = [w ++ "`" ++ toString names.length] := by
  intro h
  have harray : CanonicalType "int[,]" := @CanonicalType.bare "int" ["[,]"] (by decide)
    (List.forall_mem_singleton.2 (.array 1))
  have hgrid := h "Grid" ["int[,]"] (by decide) (by decide) (List.forall_mem_singleton.2 harray)
  exact absurd hgrid (by decide)

end Request

end ClassDiagram
