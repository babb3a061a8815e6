/-! # Offsets, slices and places

A text is a list of characters; an offset into it counts UTF-8 bytes.  A place is a line and a
column, both counted from one, and a column counts characters.

* `placeAt_zero`: the first offset is the first place;
* `placeAt_of_le`: an offset at or past the end is the place of the end;
* `takeBytes_append`, `dropBytes_append`: cutting at the end of a first part gives the two parts;
* `append_inj_of_byteCount`: an offset cuts a text in one way;
* `slice_append`, `slice_append_of_le`, `slice_add`: slices of the parts of a text.
-/

namespace ClassDiagram.Text

def byteCount : List Char → Nat
  | [] => 0
  | c :: cs => c.utf8Size + byteCount cs

@[simp] theorem byteCount_nil : byteCount [] = 0 := rfl

@[simp] theorem byteCount_cons (c : Char) (cs : List Char) :
    byteCount (c :: cs) = c.utf8Size + byteCount cs := rfl

@[simp] theorem byteCount_append (u v : List Char) :
    byteCount (u ++ v) = byteCount u + byteCount v := by
  induction u with
  | nil => simp
  | cons c u ih => simp [ih, Nat.add_assoc]

theorem byteCount_pos {x : List Char} (h : x ≠ []) : 0 < byteCount x := by
  obtain ⟨c, x, rfl⟩ := List.exists_cons_of_ne_nil h
  exact Nat.add_pos_left c.utf8Size_pos _

theorem byteCount_take_lt {text : List Char} {m n : Nat} (h : m < n) (hn : n ≤ text.length) :
    byteCount (text.take m) < byteCount (text.take n) := by
  obtain ⟨k, rfl⟩ := Nat.exists_eq_add_of_lt h
  rw [Nat.add_assoc, List.take_add, byteCount_append]
  cases hdrop : text.drop m with
  | nil =>
    have hlength := congrArg List.length hdrop
    rw [List.length_drop, List.length_nil] at hlength
    omega
  | cons c rest =>
    have hpos := c.utf8Size_pos
    rw [List.take_succ_cons, byteCount_cons]
    omega

theorem byteCount_take_lt_iff {text : List Char} {m n : Nat} (hm : m ≤ text.length)
    (hn : n ≤ text.length) : byteCount (text.take m) < byteCount (text.take n) ↔ m < n := by
  refine ⟨fun h => Nat.lt_of_not_le fun hle => ?_, fun h => byteCount_take_lt h hn⟩
  rcases Nat.lt_or_eq_of_le hle with hlt | rfl
  · exact Nat.lt_asymm h (byteCount_take_lt hlt hm)
  · exact Nat.lt_irrefl _ h

theorem utf8ByteSize_ofList (cs : List Char) : (String.ofList cs).utf8ByteSize = byteCount cs := by
  induction cs with
  | nil => rfl
  | cons c cs ih =>
    rw [String.ofList_cons, String.utf8ByteSize_append, String.utf8ByteSize_singleton, ih,
      byteCount_cons]

/-! ## Slices -/

/-- The characters that lie whole in the first `n` bytes. -/
def takeBytes : Nat → List Char → List Char
  | _, [] => []
  | n, c :: cs => if n < c.utf8Size then [] else c :: takeBytes (n - c.utf8Size) cs

/-- What is left after the characters that lie whole in the first `n` bytes. -/
def dropBytes : Nat → List Char → List Char
  | _, [] => []
  | n, c :: cs => if n < c.utf8Size then c :: cs else dropBytes (n - c.utf8Size) cs

/-- The characters of the bytes from `first` up to `last`. -/
def slice (text : List Char) (first last : Nat) : List Char :=
  takeBytes (last - first) (dropBytes first text)

theorem takeBytes_append_dropBytes (n : Nat) (cs : List Char) :
    takeBytes n cs ++ dropBytes n cs = cs := by
  induction cs generalizing n with
  | nil => rfl
  | cons c cs ih =>
    by_cases h : n < c.utf8Size
    · simp [takeBytes, dropBytes, h]
    · simp [takeBytes, dropBytes, h, ih]

theorem takeBytes_zero (cs : List Char) : takeBytes 0 cs = [] := by
  cases cs with
  | nil => rfl
  | cons c cs => simp [takeBytes, Char.utf8Size_pos]

theorem dropBytes_zero (cs : List Char) : dropBytes 0 cs = cs := by
  cases cs with
  | nil => rfl
  | cons c cs => simp [dropBytes, Char.utf8Size_pos]

theorem takeBytes_append (u v : List Char) : takeBytes (byteCount u) (u ++ v) = u := by
  induction u with
  | nil => simp [takeBytes_zero]
  | cons c u ih =>
    have h : ¬ c.utf8Size + byteCount u < c.utf8Size := by omega
    simp [takeBytes, h, ih]

theorem dropBytes_append (u v : List Char) : dropBytes (byteCount u) (u ++ v) = v := by
  induction u with
  | nil => simp [dropBytes_zero]
  | cons c u ih =>
    have h : ¬ c.utf8Size + byteCount u < c.utf8Size := by omega
    simp [dropBytes, h, ih]

/-- Parts of one text that have the same number of bytes are the same. -/
theorem append_inj_of_byteCount {u u' v v' : List Char} (h : byteCount u = byteCount u')
    (heq : u ++ v = u' ++ v') : u = u' ∧ v = v' := by
  have htake := takeBytes_append u' v'
  have hdrop := dropBytes_append u' v'
  rw [← h, ← heq, takeBytes_append] at htake
  rw [← h, ← heq, dropBytes_append] at hdrop
  exact ⟨htake, hdrop⟩

theorem dropBytes_add (u v : List Char) (n : Nat) :
    dropBytes (byteCount u + n) (u ++ v) = dropBytes n v := by
  induction u with
  | nil => simp
  | cons c u ih =>
    have h : ¬ c.utf8Size + byteCount u + n < c.utf8Size := by omega
    rw [List.cons_append, byteCount_cons, dropBytes, if_neg h,
      show c.utf8Size + byteCount u + n - c.utf8Size = byteCount u + n by omega, ih]

/-- A slice between two parts of a text. -/
theorem slice_append (u x v : List Char) :
    slice (u ++ (x ++ v)) (byteCount u) (byteCount u + byteCount x) = x := by
  rw [slice, dropBytes_append, Nat.add_sub_cancel_left, takeBytes_append]

/-- A slice of the second part of a text. -/
theorem slice_add (u v : List Char) (first last : Nat) :
    slice (u ++ v) (byteCount u + first) (byteCount u + last) = slice v first last := by
  rw [slice, slice, dropBytes_add, Nat.add_sub_add_left]

theorem takeBytes_append_of_le {n : Nat} {u : List Char} (h : n ≤ byteCount u) (v : List Char) :
    takeBytes n (u ++ v) = takeBytes n u := by
  induction u generalizing n with
  | nil =>
    have hn : n = 0 := Nat.le_zero.1 h
    rw [hn, takeBytes_zero, takeBytes_zero]
  | cons c u ih =>
    rw [byteCount_cons] at h
    rw [List.cons_append, takeBytes, takeBytes, ih (by omega)]

theorem dropBytes_append_of_le {n : Nat} {u : List Char} (h : n ≤ byteCount u) (v : List Char) :
    dropBytes n (u ++ v) = dropBytes n u ++ v := by
  induction u generalizing n with
  | nil =>
    have hn : n = 0 := Nat.le_zero.1 h
    rw [hn, dropBytes_zero, dropBytes_zero, List.nil_append]
  | cons c u ih =>
    rw [byteCount_cons] at h
    rw [List.cons_append, dropBytes, dropBytes]
    by_cases hc : n < c.utf8Size
    · rw [if_pos hc, if_pos hc, List.cons_append]
    · rw [if_neg hc, if_neg hc, ih (by omega)]

theorem byteCount_dropBytes_le (n : Nat) (u : List Char) :
    byteCount u - n ≤ byteCount (dropBytes n u) := by
  induction u generalizing n with
  | nil => simp [dropBytes]
  | cons c u ih =>
    rw [dropBytes, byteCount_cons]
    by_cases hc : n < c.utf8Size
    · rw [if_pos hc, byteCount_cons]
      omega
    · have := ih (n - c.utf8Size)
      rw [if_neg hc]
      omega

/-- A slice of the first part of a text. -/
theorem slice_append_of_le {last : Nat} {u : List Char} (h : last ≤ byteCount u) (first : Nat)
    (v : List Char) : slice (u ++ v) first last = slice u first last := by
  by_cases hle : first ≤ last
  · have hlong : last - first ≤ byteCount (dropBytes first u) := by
      have := byteCount_dropBytes_le first u
      omega
    rw [slice, slice, dropBytes_append_of_le (by omega), takeBytes_append_of_le hlong]
  · rw [slice, slice, Nat.sub_eq_zero_of_le (by omega), takeBytes_zero, takeBytes_zero]

/-! ## Places -/

/-- A line and a column, both counted from one. -/
structure Place where
  line : Nat
  column : Nat
  deriving DecidableEq, Repr

namespace Place

def start : Place := ⟨1, 1⟩

/-- The place after one more character: a line feed begins the next line. -/
def after (p : Place) (c : Char) : Place :=
  if c = '\n' then ⟨p.line + 1, 1⟩ else ⟨p.line, p.column + 1⟩

end Place

/-- The place of an offset, counted on from the place `p` of the text's first character.  An
offset inside a character has that character's place; one past the end has the end's. -/
def placeFrom (p : Place) : List Char → Nat → Place
  | [], _ => p
  | c :: cs, offset =>
    if offset < c.utf8Size then p else placeFrom (p.after c) cs (offset - c.utf8Size)

def placeAt (text : List Char) (offset : Nat) : Place :=
  placeFrom Place.start text offset

theorem placeFrom_zero (p : Place) (cs : List Char) : placeFrom p cs 0 = p := by
  cases cs with
  | nil => rfl
  | cons c cs => simp [placeFrom, Char.utf8Size_pos]

theorem placeAt_zero (text : List Char) : placeAt text 0 = Place.start :=
  placeFrom_zero _ _

/-- The place of the offset where a second part starts is the place after the first part. -/
theorem placeFrom_append (p : Place) (u v : List Char) (n : Nat) :
    placeFrom p (u ++ v) (byteCount u + n) = placeFrom (u.foldl Place.after p) v n := by
  induction u generalizing p with
  | nil => simp
  | cons c u ih =>
    have h : ¬ c.utf8Size + byteCount u + n < c.utf8Size := by omega
    simp only [List.cons_append, byteCount_cons, placeFrom, h, ↓reduceIte, List.foldl_cons]
    rw [show c.utf8Size + byteCount u + n - c.utf8Size = byteCount u + n by omega, ih]

theorem placeAt_of_le {text : List Char} {offset : Nat} (h : byteCount text ≤ offset) :
    placeAt text offset = text.foldl Place.after Place.start := by
  obtain ⟨n, rfl⟩ := Nat.exists_eq_add_of_le h
  simpa [placeAt, placeFrom] using placeFrom_append Place.start text [] n

end ClassDiagram.Text
