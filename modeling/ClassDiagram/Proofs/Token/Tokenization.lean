import ClassDiagram.Proofs.Token.LineFeeds
import Mathlib.Data.List.Induction

/-! # What tokenizing returns

The tokens of a text, described without the loops that find them.  The spans cover the text from
left to right, and each of them is a match or a gap:

* a match has the token and the length of the entry that wins at its offset: no entry covers more,
  and none registered later covers as much;
* a gap is raw text, no entry matches anywhere in it, and it ends at the end of the text or where
  some entry matches.

Nothing is asked of the catalog, so an entry may be registered under the token of raw text; a match
of such an entry is no gap.

* `wins_iff`: the winner as the lexer finds it;
* `pieces_of_isCut`, `exists_isCut`: the lexer cuts off matches and gaps, and nothing else;
* `tokenize_characterized`: the tokens of a text are the one list of spans of this kind.
-/

namespace ClassDiagram

open Text (byteCount)

/-! ## The winner -/

/-- The number of bytes that an entry covers at the start of a text; zero means no match. -/
def CatalogEntry.coverage (e : CatalogEntry) (text : List Char) : Nat :=
  byteCount (text.take (e.matcher.length text))

namespace TokenCatalog

/-- No entry matches at the start of a text. -/
def Silent (catalog : TokenCatalog) (text : List Char) : Prop :=
  ∀ e ∈ catalog, e.coverage text = 0

/-- Some entry of the token covers so many bytes, no entry registered before it covers more, and
none registered after it as many. -/
def Wins (catalog : TokenCatalog) (text : List Char) (token : Token) (bytes : Nat) : Prop :=
  ∃ before e after, catalog = before ++ e :: after ∧ e.token = token ∧ e.coverage text = bytes ∧
    0 < bytes ∧ (∀ e' ∈ before, e'.coverage text ≤ bytes) ∧ ∀ e' ∈ after, e'.coverage text < bytes

end TokenCatalog

namespace CatalogEntry

/-- Entries compare by bytes as they do by characters, since all cover the start of one text. -/
theorem coverage_lt_iff (e e' : CatalogEntry) (text : List Char) :
    e.coverage text < e'.coverage text ↔ e.matcher.length text < e'.matcher.length text :=
  Text.byteCount_take_lt_iff (e.matcher.length_le text) (e'.matcher.length_le text)

theorem coverage_eq_zero_iff (e : CatalogEntry) (text : List Char) :
    e.coverage text = 0 ↔ e.matcher.length text = 0 := by
  have h := Text.byteCount_take_lt_iff (Nat.zero_le _) (e.matcher.length_le text)
  rw [List.take_zero, Text.byteCount_nil] at h
  unfold coverage
  omega

end CatalogEntry

namespace TokenCatalog

variable {catalog : TokenCatalog} {text : List Char}

theorem bestMatch_concat (catalog : TokenCatalog) (e : CatalogEntry) (text : List Char) :
    (catalog ++ [e] : TokenCatalog).bestMatch text = prefer text (catalog.bestMatch text) e := by
  rw [bestMatch, List.foldl_append]
  rfl

theorem prefer_eq_none_iff {best : Option (Token × Nat)} {e : CatalogEntry} :
    prefer text best e = none ↔ best = none ∧ e.matcher.length text = 0 := by
  unfold prefer
  by_cases h0 : e.matcher.length text = 0
  · simp [h0]
  · cases best with
    | none => simp [h0]
    | some best => by_cases hm : best.2 ≤ e.matcher.length text <;> simp [h0, hm]

theorem silent_iff : catalog.Silent text ↔ catalog.bestMatch text = none := by
  induction catalog using List.reverseRecOn with
  | nil => exact ⟨fun _ => rfl, fun _ => nofun⟩
  | append_singleton es e ih =>
    rw [bestMatch_concat, prefer_eq_none_iff, ← ih, ← e.coverage_eq_zero_iff]
    simp [Silent, or_imp, forall_and]

/-- `e` covers something and no less than the entries before it, and those after it cover less. -/
def Leads (before : TokenCatalog) (e : CatalogEntry) (after : TokenCatalog) (text : List Char) :
    Prop :=
  0 < e.matcher.length text ∧ (∀ e' ∈ before, e'.matcher.length text ≤ e.matcher.length text) ∧
    ∀ e' ∈ after, e'.matcher.length text < e.matcher.length text

theorem Leads.length_le {before after : TokenCatalog} {e : CatalogEntry}
    (h : Leads before e after text) :
    ∀ e' ∈ before ++ e :: after, e'.matcher.length text ≤ e.matcher.length text := by
  intro e' he'
  rcases List.mem_append.1 he' with hbefore | hafter
  · exact h.2.1 e' hbefore
  · rcases List.mem_cons.1 hafter with rfl | hafter
    · exact Nat.le_refl _
    · exact Nat.le_of_lt (h.2.2 e' hafter)

theorem Leads.concat {before after : TokenCatalog} {e e' : CatalogEntry}
    (h : Leads before e after text) (he' : e'.matcher.length text < e.matcher.length text) :
    Leads before e (after ++ [e']) text := by
  refine ⟨h.1, h.2.1, fun e'' he'' => ?_⟩
  rcases List.mem_append.1 he'' with hafter | hlast
  · exact h.2.2 e'' hafter
  · rwa [List.mem_singleton.1 hlast]

/-- The winner leads its catalog. -/
theorem leads_of_bestMatch {t : Token} {n : Nat} (h : catalog.bestMatch text = some (t, n)) :
    ∃ before e after, catalog = before ++ e :: after ∧ e.token = t ∧
      e.matcher.length text = n ∧ Leads before e after text := by
  -- By the last entry: either it wins, or the winner of the others does, which covers more.
  induction catalog using List.reverseRecOn generalizing t n with
  | nil => cases h
  | append_singleton es last ih =>
    rw [bestMatch_concat] at h
    simp only [prefer] at h
    by_cases h0 : last.matcher.length text = 0
    · rw [if_pos h0] at h
      obtain ⟨before, e, after, rfl, ht, hn, hleads⟩ := ih h
      exact ⟨before, e, after ++ [last], by simp, ht, hn, hleads.concat (h0 ▸ hleads.1)⟩
    · have hpos := Nat.pos_of_ne_zero h0
      rw [if_neg h0] at h
      cases hbest : bestMatch es text with
      | none =>
        rw [hbest] at h
        cases h
        have hsilent : Silent es text := silent_iff.2 hbest
        refine ⟨es, last, [], rfl, rfl, rfl, hpos, fun e' he' => ?_, List.forall_mem_nil _⟩
        rw [(e'.coverage_eq_zero_iff text).1 (hsilent e' he')]
        exact Nat.zero_le _
      | some best =>
        obtain ⟨t', m⟩ := best
        obtain ⟨before, e, after, rfl, rfl, rfl, hleads⟩ := ih hbest
        rw [hbest] at h
        by_cases hle : e.matcher.length text ≤ last.matcher.length text
        · cases (if_pos hle).symm.trans h
          exact ⟨before ++ e :: after, last, [], rfl, rfl, rfl, hpos,
            fun e' he' => Nat.le_trans (hleads.length_le e' he') hle, List.forall_mem_nil _⟩
        · cases (if_neg hle).symm.trans h
          exact ⟨before, e, after ++ [last], by simp, rfl, rfl,
            hleads.concat (Nat.lt_of_not_le hle)⟩

theorem foldl_prefer_of_lt {t : Token} {n : Nat} {es : TokenCatalog}
    (h : ∀ e ∈ es, e.matcher.length text < n) :
    es.foldl (prefer text) (some (t, n)) = some (t, n) := by
  induction es with
  | nil => rfl
  | cons e es ih =>
    obtain ⟨he, hes⟩ := List.forall_mem_cons.1 h
    have hkeep : prefer text (some (t, n)) e = some (t, n) := by
      simp [prefer, Nat.not_le_of_lt he]
    rw [List.foldl_cons, hkeep, ih hes]

/-- An entry that leads its catalog wins. -/
theorem bestMatch_of_leads {before after : TokenCatalog} {e : CatalogEntry}
    (h : Leads before e after text) :
    bestMatch (before ++ e :: after) text = some (e.token, e.matcher.length text) := by
  obtain ⟨hpos, hbefore, hafter⟩ := h
  have htake : prefer text (bestMatch before text) e = some (e.token, e.matcher.length text) := by
    simp only [prefer]
    rw [if_neg (Nat.ne_of_gt hpos)]
    cases hbest : bestMatch before text with
    | none => rfl
    | some best =>
      obtain ⟨t, m⟩ := best
      obtain ⟨e', he', _, rfl, _⟩ := bestMatch_eq_some hbest
      exact if_pos (hbefore e' he')
  rw [bestMatch, List.foldl_append, List.foldl_cons, ← bestMatch, htake, foldl_prefer_of_lt hafter]

/-- The winner is the best match, with its length in bytes. -/
theorem wins_iff {t : Token} {bytes : Nat} : catalog.Wins text t bytes ↔
    ∃ n, catalog.bestMatch text = some (t, n) ∧ byteCount (text.take n) = bytes := by
  constructor
  · rintro ⟨before, e, after, rfl, rfl, rfl, hpos, hbefore, hafter⟩
    refine ⟨e.matcher.length text, bestMatch_of_leads ⟨?_, fun e' he' => ?_, fun e' he' => ?_⟩, rfl⟩
    · exact Nat.pos_of_ne_zero fun h0 => Nat.ne_of_gt hpos ((e.coverage_eq_zero_iff text).2 h0)
    · exact Nat.le_of_not_lt fun hlt =>
        Nat.not_le_of_lt ((e.coverage_lt_iff e' text).2 hlt) (hbefore e' he')
    · exact (e'.coverage_lt_iff e text).1 (hafter e' he')
  · rintro ⟨n, hbest, rfl⟩
    obtain ⟨before, e, after, rfl, rfl, rfl, hpos, hbefore, hafter⟩ := leads_of_bestMatch hbest
    refine ⟨before, e, after, rfl, rfl, rfl, ?_, fun e' he' => ?_, fun e' he' => ?_⟩
    · exact Nat.pos_of_ne_zero fun h0 => Nat.ne_of_gt hpos ((e.coverage_eq_zero_iff text).1 h0)
    · exact Nat.le_of_not_lt fun hlt =>
        Nat.not_le_of_lt ((e.coverage_lt_iff e' text).1 hlt) (hbefore e' he')
    · exact (e'.coverage_lt_iff e text).2 (hafter e' he')

/-! ## What the lexer cuts off -/

/-- A match `x` with `v` behind it: the entry that wins covers `x`. -/
def IsMatch (catalog : TokenCatalog) (token : Token) (x v : List Char) : Prop :=
  catalog.Wins (x ++ v) token (byteCount x)

/-- A gap `x` with `v` behind it: no entry matches at any place of `x`, and some entry matches
behind it unless the text ends there. -/
def IsGap (catalog : TokenCatalog) (x v : List Char) : Prop :=
  (∀ y z, x = y ++ z → z ≠ [] → catalog.Silent (z ++ v)) ∧ (v = [] ∨ ¬ catalog.Silent v)

theorem isMatch_iff {t : Token} {x v : List Char} :
    catalog.IsMatch t x v ↔ catalog.bestMatch (x ++ v) = some (t, x.length) := by
  rw [IsMatch, wins_iff]
  constructor
  · rintro ⟨n, hbest, hbytes⟩
    obtain ⟨e, _, _, hn, _⟩ := bestMatch_eq_some hbest
    have hx := (Text.append_inj_of_byteCount hbytes (List.take_append_drop n (x ++ v))).1
    have hlength := congrArg List.length hx
    rw [List.length_take, Nat.min_eq_left (hn ▸ e.matcher.length_le _)] at hlength
    rwa [hlength] at hbest
  · exact fun hbest => ⟨x.length, hbest, by rw [List.take_left]⟩

theorem IsGap.cons {c : Char} {x v : List Char} (h : catalog.IsGap x v)
    (hc : catalog.Silent (c :: (x ++ v))) : catalog.IsGap (c :: x) v := by
  refine ⟨fun y z hyz hz => ?_, h.2⟩
  cases y with
  | nil =>
    rw [List.nil_append] at hyz
    exact hyz ▸ hc
  | cons d y => exact h.1 y z (List.cons.inj hyz).2 hz

theorem isGap_of_cons {c : Char} {x v : List Char} (h : catalog.IsGap (c :: x) v) :
    catalog.Silent (c :: (x ++ v)) ∧ catalog.IsGap x v :=
  ⟨h.1 [] (c :: x) rfl (List.cons_ne_nil c x),
    fun y z hyz hz => h.1 (c :: y) z (congrArg (c :: ·) hyz) hz, h.2⟩

/-- The lexer goes as far as a gap goes. -/
theorem rawLength_of_isGap {x v : List Char} (h : catalog.IsGap x v) :
    catalog.rawLength (x ++ v) = x.length := by
  induction x with
  | nil =>
    cases v with
    | nil => rfl
    | cons c v =>
      have hmatch := h.2.resolve_left (List.cons_ne_nil c v)
      rw [silent_iff] at hmatch
      obtain ⟨best, hbest⟩ := Option.ne_none_iff_exists'.1 hmatch
      rw [List.nil_append, rawLength, hbest]
      rfl
  | cons c x ih =>
    obtain ⟨hc, hx⟩ := isGap_of_cons h
    rw [List.cons_append, rawLength, silent_iff.1 hc, ih hx, List.length_cons]

theorem isGap_rawLength (catalog : TokenCatalog) (text : List Char) :
    catalog.IsGap (text.take (catalog.rawLength text)) (text.drop (catalog.rawLength text)) := by
  induction text with
  | nil => exact ⟨fun y z hyz hz => absurd (List.append_eq_nil_iff.1 hyz.symm).2 hz, .inl rfl⟩
  | cons c rest ih =>
    rw [rawLength]
    cases hbest : catalog.bestMatch (c :: rest) with
    | some best =>
      refine ⟨fun y z hyz hz => absurd (List.append_eq_nil_iff.1 hyz.symm).2 hz, .inr ?_⟩
      rw [silent_iff, List.drop_zero, hbest]
      exact Option.some_ne_none best
    | none =>
      refine ih.cons ?_
      rw [List.take_append_drop]
      exact silent_iff.2 hbest

/-- What may be cut off a text: a match, or a gap as raw text. -/
def IsCut (catalog : TokenCatalog) (token : Token) (x v : List Char) : Prop :=
  catalog.IsMatch token x v ∨ (token = .rawText ∧ catalog.IsGap x v)

theorem pieces_of_isCut {t : Token} {x v : List Char} (hx : x ≠ []) (h : catalog.IsCut t x v) :
    catalog.pieces (x ++ v) = ⟨t, x⟩ :: catalog.pieces v := by
  rcases h with hmatch | ⟨rfl, hgap⟩
  · exact pieces_of_bestMatch hx (isMatch_iff.1 hmatch)
  · obtain ⟨c, x, rfl⟩ := List.exists_cons_of_ne_nil hx
    obtain ⟨hc, hgap⟩ := isGap_of_cons hgap
    have hnext : catalog.nextPiece c (x ++ v) = (.rawText, x.length) := by
      rw [nextPiece, silent_iff.1 hc, rawLength_of_isGap hgap]
    rw [List.cons_append, pieces_cons, hnext, List.take_left, List.drop_left]

theorem exists_isCut (catalog : TokenCatalog) {text : List Char} (h : text ≠ []) :
    ∃ t x v, text = x ++ v ∧ x ≠ [] ∧ catalog.IsCut t x v := by
  obtain ⟨c, rest, rfl⟩ := List.exists_cons_of_ne_nil h
  cases hbest : catalog.bestMatch (c :: rest) with
  | some best =>
    obtain ⟨t, n⟩ := best
    obtain ⟨e, _, _, hn, hpos⟩ := bestMatch_eq_some hbest
    have hlength : ((c :: rest).take n).length = n :=
      List.length_take_of_le (hn ▸ e.matcher.length_le _)
    refine ⟨t, (c :: rest).take n, (c :: rest).drop n, (List.take_append_drop n _).symm, ?_,
      .inl (isMatch_iff.2 ?_)⟩
    · exact List.ne_nil_of_length_pos (Nat.lt_of_lt_of_eq hpos hlength.symm)
    · rw [List.take_append_drop, hlength, hbest]
  | none =>
    have hgap := isGap_rawLength catalog rest
    refine ⟨.rawText, c :: rest.take (catalog.rawLength rest), rest.drop (catalog.rawLength rest),
      ?_, List.cons_ne_nil _ _, .inr ⟨rfl, hgap.cons ?_⟩⟩
    · rw [List.cons_append, List.take_append_drop]
    · rw [List.take_append_drop]
      exact silent_iff.2 hbest

/-- The first piece of a text is what is cut off it, and the others are the pieces of the rest. -/
theorem isCut_of_pieces_eq_cons {p : Piece} {ps : List Piece} (h : catalog.pieces text = p :: ps) :
    text = p.text ++ ps.flatMap Piece.text ∧ p.text ≠ [] ∧
      catalog.IsCut p.token p.text (ps.flatMap Piece.text) ∧
        catalog.pieces (ps.flatMap Piece.text) = ps := by
  have htext : text ≠ [] := by
    rintro rfl
    rw [pieces] at h
    cases h
  obtain ⟨t, x, v, rfl, hx, hcut⟩ := catalog.exists_isCut htext
  rw [pieces_of_isCut hx hcut] at h
  obtain ⟨rfl, rfl⟩ := List.cons.inj h
  rw [flatMap_text_pieces]
  exact ⟨rfl, hx, hcut, rfl⟩

/-- The pieces behind some of the first ones are the pieces of what they cover. -/
theorem pieces_behind {ps qs : List Piece}
    (h : catalog.pieces (ps.flatMap Piece.text ++ qs.flatMap Piece.text) = ps ++ qs) :
    catalog.pieces (qs.flatMap Piece.text) = qs := by
  induction ps with
  | nil => exact h
  | cons p ps ih =>
    rw [List.cons_append] at h
    obtain ⟨-, -, -, hrest⟩ := isCut_of_pieces_eq_cons h
    rw [List.flatMap_append] at hrest
    exact ih hrest

end TokenCatalog

/-! ## Spans -/

/-- The spans lie end to end from `start` to `stop`, and none is empty. -/
def Tiles (start stop : Nat) : List Span → Prop
  | [] => start = stop
  | s :: rest => s.offset = start ∧ 0 < s.length ∧ Tiles (start + s.length) stop rest

/-- The span covers the characters `x`, and `u` is before them. -/
def Span.LiesAt (s : Span) (u x : List Char) : Prop :=
  s.offset = byteCount u ∧ s.length = byteCount x

theorem Span.LiesAt.slice_eq {s : Span} {u x : List Char} (h : s.LiesAt u x) (v : List Char) :
    Text.slice (u ++ x ++ v) s.offset (s.offset + s.length) = x := by
  rw [h.1, h.2, List.append_assoc, Text.slice_append]

namespace TokenCatalog

variable {catalog : TokenCatalog} {text : List Char}

/-- The span is the match at its offset. -/
def Recognised (catalog : TokenCatalog) (text : List Char) (s : Span) : Prop :=
  ∃ u x v, text = u ++ x ++ v ∧ s.LiesAt u x ∧ catalog.IsMatch s.token x v

/-- The span is raw text and a gap. -/
def Unrecognised (catalog : TokenCatalog) (text : List Char) (s : Span) : Prop :=
  ∃ u x v, text = u ++ x ++ v ∧ s.LiesAt u x ∧ s.token = .rawText ∧ catalog.IsGap x v

/-- The spans tile the text, and each is a match or a gap. -/
structure IsTokenization (catalog : TokenCatalog) (text : List Char) (spans : List Span) :
    Prop where
  tiles : Tiles 0 (byteCount text) spans
  covers : ∀ s ∈ spans, catalog.Recognised text s ∨ catalog.Unrecognised text s

theorem recognised_or_unrecognised_iff {s : Span} :
    catalog.Recognised text s ∨ catalog.Unrecognised text s ↔
      ∃ u x v, text = u ++ x ++ v ∧ s.LiesAt u x ∧ catalog.IsCut s.token x v := by
  constructor
  · rintro (⟨u, x, v, rfl, hs, hmatch⟩ | ⟨u, x, v, rfl, hs, hgap⟩)
    · exact ⟨u, x, v, rfl, hs, .inl hmatch⟩
    · exact ⟨u, x, v, rfl, hs, .inr hgap⟩
  · rintro ⟨u, x, v, rfl, hs, hmatch | hgap⟩
    · exact .inl ⟨u, x, v, rfl, hs, hmatch⟩
    · exact .inr ⟨u, x, v, rfl, hs, hgap⟩

theorem tiles_spansFrom (offset : Nat) {ps : List Piece} (h : ∀ p ∈ ps, p.text ≠ []) :
    Tiles offset (offset + byteCount (ps.flatMap Piece.text)) (spansFrom offset ps) := by
  induction ps generalizing offset with
  | nil => exact (Nat.add_zero offset).symm
  | cons p ps ih =>
    obtain ⟨hp, hps⟩ := List.forall_mem_cons.1 h
    rw [List.flatMap_cons, Text.byteCount_append, ← Nat.add_assoc]
    exact ⟨rfl, Text.byteCount_pos hp, ih _ hps⟩

/-- The spans of what is left of a text behind `u`. -/
theorem covers_spansFrom (u text : List Char) :
    ∀ s ∈ spansFrom (byteCount u) (catalog.pieces text),
      ∃ u' x v, u ++ text = u' ++ x ++ v ∧ s.LiesAt u' x ∧ catalog.IsCut s.token x v := by
  induction hn : text.length using Nat.strongRecOn generalizing u text with
  | ind n ih =>
    by_cases htext : text = []
    · subst htext
      rw [pieces]
      exact List.forall_mem_nil _
    · obtain ⟨t, x, v, rfl, hx, hcut⟩ := catalog.exists_isCut htext
      rw [pieces_of_isCut hx hcut, spansFrom]
      refine List.forall_mem_cons.2
        ⟨⟨u, x, v, (List.append_assoc u x v).symm, ⟨rfl, rfl⟩, hcut⟩, ?_⟩
      have hshorter : v.length < n := by
        have hpos := List.length_pos_iff.2 hx
        rw [List.length_append] at hn
        omega
      have hrest := ih v.length hshorter (u ++ x) v rfl
      rwa [Text.byteCount_append, List.append_assoc] at hrest

/-- Spans that tile what is left of a text behind `u` are those the lexer finds. -/
theorem eq_spansFrom {u text : List Char} {spans : List Span}
    (htiles : Tiles (byteCount u) (byteCount (u ++ text)) spans)
    (hcovers : ∀ s ∈ spans,
      ∃ u' x v, u ++ text = u' ++ x ++ v ∧ s.LiesAt u' x ∧ catalog.IsCut s.token x v) :
    spans = spansFrom (byteCount u) (catalog.pieces text) := by
  induction spans generalizing u text with
  | nil =>
    rw [Tiles, Text.byteCount_append] at htiles
    have hnil : text = [] := by
      by_contra hne
      have hpos := Text.byteCount_pos hne
      omega
    rw [hnil, pieces, spansFrom]
  | cons s spans ih =>
    obtain ⟨hs, hspans⟩ := List.forall_mem_cons.1 hcovers
    obtain ⟨u', x, v, heq, ⟨hoffset, hlength⟩, hcut⟩ := hs
    obtain ⟨hstart, hpos, htiles⟩ := htiles
    rw [List.append_assoc] at heq
    obtain ⟨rfl, rfl⟩ := Text.append_inj_of_byteCount (hstart.symm.trans hoffset) heq
    have hx : x ≠ [] := fun hnil => by simp [hlength, hnil] at hpos
    rw [hlength, ← Text.byteCount_append, ← List.append_assoc] at htiles
    rw [← List.append_assoc] at hspans
    have hspan : s = ⟨s.token, byteCount u, byteCount x⟩ := by rw [← hoffset, ← hlength]
    rw [pieces_of_isCut hx hcut, spansFrom, ← Text.byteCount_append, ← ih htiles hspans, ← hspan]

/-- The tokens of a text are the one tokenization of it. -/
theorem isTokenization_iff {spans : List Span} :
    catalog.IsTokenization text spans ↔ spans = catalog.tokenize text := by
  constructor
  · exact fun ⟨htiles, hcovers⟩ =>
      eq_spansFrom (u := []) htiles fun s hs => recognised_or_unrecognised_iff.1 (hcovers s hs)
  · rintro rfl
    have htiles := tiles_spansFrom 0 (catalog.text_ne_nil_of_mem_pieces text)
    rw [flatMap_text_pieces, Nat.zero_add] at htiles
    exact ⟨htiles, fun s hs =>
      recognised_or_unrecognised_iff.2 (covers_spansFrom [] text s hs)⟩

theorem pos_of_tiles {start stop : Nat} {spans : List Span} (h : Tiles start stop spans) :
    ∀ s ∈ spans, 0 < s.length := by
  induction spans generalizing start with
  | nil => exact List.forall_mem_nil _
  | cons s spans ih => exact List.forall_mem_cons.2 ⟨h.2.1, ih h.2.2⟩

/-- A token of a text is cut off where it lies. -/
theorem isCut_of_mem_tokenize {s : Span} (hs : s ∈ catalog.tokenize text) :
    ∃ u x v, text = u ++ x ++ v ∧ s.LiesAt u x ∧ x ≠ [] ∧ catalog.IsCut s.token x v := by
  obtain ⟨htiles, hcovers⟩ := isTokenization_iff.2 (rfl : catalog.tokenize text = _)
  obtain ⟨u, x, v, htext, hlies, hcut⟩ := recognised_or_unrecognised_iff.1 (hcovers s hs)
  have hpos := pos_of_tiles htiles s hs
  have hx : x ≠ [] := fun hnil => by simp [hlies.2, hnil] at hpos
  exact ⟨u, x, v, htext, hlies, hx, hcut⟩

theorem neighbours_of_tiles {start stop : Nat} {before after : List Span} {a b : Span}
    (h : Tiles start stop (before ++ a :: b :: after)) :
    b.offset = a.offset + a.length ∧ 0 < b.length := by
  induction before generalizing start with
  | nil =>
    obtain ⟨rfl, _, hb, hpos, _⟩ := h
    exact ⟨hb, hpos⟩
  | cons s before ih => exact ih h.2.2

/-- A gap is followed by a match or by nothing. -/
theorem not_unrecognised_neighbours {before after : List Span} {a b : Span}
    (htiles : Tiles 0 (byteCount text) (before ++ a :: b :: after))
    (ha : catalog.Unrecognised text a) : ¬ catalog.Unrecognised text b := by
  rintro ⟨u', x', v', heq, ⟨hoffset', hlength'⟩, -, hgap'⟩
  obtain ⟨u, x, v, rfl, ⟨hoffset, hlength⟩, -, hgap⟩ := ha
  obtain ⟨hnext, hpos⟩ := neighbours_of_tiles htiles
  have hstart : byteCount (u ++ x) = byteCount u' := by
    rw [Text.byteCount_append, ← hoffset, ← hlength, ← hnext, hoffset']
  rw [List.append_assoc u'] at heq
  obtain ⟨rfl, rfl⟩ := Text.append_inj_of_byteCount hstart heq
  have hx' : x' ≠ [] := fun hnil => by simp [hlength', hnil] at hpos
  rcases hgap.2 with hend | hmatch
  · exact hx' (List.append_eq_nil_iff.1 hend).1
  · exact hmatch (hgap'.1 [] x' rfl hx')

theorem token_ne_of_recognised {s : Span} {t : Token} (h : ∀ e ∈ catalog, e.token ≠ t)
    (hs : catalog.Recognised text s) : s.token ≠ t := by
  obtain ⟨u, x, v, rfl, -, before, e, after, rfl, ht, -⟩ := hs
  exact ht ▸ h e (by simp)

/-- The tokens of a text are the one list of spans that tile it and of which each is the match at
its offset or a gap.  Two gaps are never neighbours.  In a catalog without an entry for raw text,
the raw text is the gaps.  The winner that a match names is the best match, in bytes. -/
theorem tokenize_characterized (catalog : TokenCatalog) (text : List Char) :
    (∀ spans, catalog.IsTokenization text spans ↔ spans = catalog.tokenize text) ∧
    (∀ before a b after, catalog.tokenize text = before ++ a :: b :: after →
      catalog.Unrecognised text a → ¬ catalog.Unrecognised text b) ∧
    ((∀ e ∈ catalog, e.token ≠ .rawText) → ∀ s ∈ catalog.tokenize text,
      (s.token = .rawText ↔ catalog.Unrecognised text s) ∧
      (s.token ≠ .rawText ↔ catalog.Recognised text s)) ∧
    ∀ rest token bytes, catalog.Wins rest token bytes ↔
      ∃ n, catalog.bestMatch rest = some (token, n) ∧ byteCount (rest.take n) = bytes := by
  have hspec : catalog.IsTokenization text (catalog.tokenize text) := isTokenization_iff.2 rfl
  refine ⟨fun _ => isTokenization_iff, fun before a b after heq ha => ?_, fun hraw s hs => ?_,
    fun _ _ _ => wins_iff⟩
  · exact not_unrecognised_neighbours (heq ▸ hspec.tiles) ha
  · have hmatch : catalog.Recognised text s → s.token ≠ .rawText := token_ne_of_recognised hraw
    have hgap : catalog.Unrecognised text s → s.token = .rawText := fun ⟨_, _, _, _, _, h, _⟩ => h
    have hcover := hspec.covers s hs
    exact ⟨⟨fun ht => hcover.resolve_left fun h => hmatch h ht, hgap⟩,
      ⟨fun ht => hcover.resolve_right fun h => ht (hgap h), hmatch⟩⟩

/-- A catalog of identifiers, commas and an entry that covers nothing. -/
def names : TokenCatalog := [⟨.word, .word⟩, literalEntry .comma ",", literalEntry .plus ""]

theorem tokenize_characterized_names :
    names.tokenize "é%§,a".toList
        = [⟨.word, 0, 2⟩, ⟨.rawText, 2, 3⟩, ⟨.comma, 5, 1⟩, ⟨.word, 6, 1⟩] ∧
      names.Unrecognised "é%§,a".toList ⟨.rawText, 2, 3⟩ ∧
      names.Recognised "é%§,a".toList ⟨.word, 0, 2⟩ := by
  have htokens : names.tokenize "é%§,a".toList
      = [⟨.word, 0, 2⟩, ⟨.rawText, 2, 3⟩, ⟨.comma, 5, 1⟩, ⟨.word, 6, 1⟩] := by decide +kernel
  have hspans := (tokenize_characterized names "é%§,a".toList).2.2.1 (by decide)
  rw [htokens] at hspans
  exact ⟨htokens, (hspans _ (by simp)).1.1 rfl, (hspans _ (by simp)).2.1 (by decide)⟩

/-- Where an entry is registered for raw text, its matches are raw text and no gaps, and they may
be neighbours. -/
theorem tokenize_rawTextEntry :
    tokenize [literalEntry .rawText "b"] "bb".toList = [⟨.rawText, 0, 1⟩, ⟨.rawText, 1, 1⟩] ∧
      ¬ ∀ s ∈ tokenize [literalEntry .rawText "b"] "bb".toList,
        s.token = .rawText → Unrecognised [literalEntry .rawText "b"] "bb".toList s := by
  have htokens : tokenize [literalEntry .rawText "b"] "bb".toList
      = [⟨.rawText, 0, 1⟩, ⟨.rawText, 1, 1⟩] := by decide +kernel
  refine ⟨htokens, fun hall => ?_⟩
  rw [htokens] at hall
  obtain ⟨u, x, v, heq, ⟨hoffset, hlength⟩, -, hgap, -⟩ := hall ⟨.rawText, 0, 1⟩ (by simp) rfl
  rw [List.append_assoc] at heq
  obtain ⟨-, hrest⟩ := Text.append_inj_of_byteCount (u := []) hoffset heq
  have hx : x ≠ [] := fun hnil => by simp [hnil] at hlength
  have hsilent := hgap [] x rfl hx
  rw [← hrest, silent_iff] at hsilent
  exact absurd hsilent (by decide)

end TokenCatalog

end ClassDiagram
