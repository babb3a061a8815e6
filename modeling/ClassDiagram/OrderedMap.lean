/-! # Maps and sets that remember the order of insertion

An ordered map is a list of keys with values.  A key that is written again keeps its place and
takes the new value; a new key goes to the end.

* `get?_insert`: what a look-up finds after a write;
* `keys_insert`: a write adds its key at the end, unless the key is there;
* `mem_insert`: what an ordered set holds after an insertion.
-/

namespace ClassDiagram

/-- Keys with values, in the order in which the keys were first written. -/
structure OrderedMap (κ ν : Type) where
  entries : List (κ × ν)
  deriving DecidableEq, Repr

namespace OrderedMap

variable {κ ν : Type} [DecidableEq κ]

def empty : OrderedMap κ ν := ⟨[]⟩

instance : Inhabited (OrderedMap κ ν) := ⟨empty⟩

def keys (m : OrderedMap κ ν) : List κ := m.entries.map Prod.fst

def values (m : OrderedMap κ ν) : List ν := m.entries.map Prod.snd

def size (m : OrderedMap κ ν) : Nat := m.entries.length

def find (k : κ) : List (κ × ν) → Option ν
  | [] => none
  | (k', v) :: rest => if k' = k then some v else find k rest

def get? (m : OrderedMap κ ν) (k : κ) : Option ν := find k m.entries

def contains (m : OrderedMap κ ν) (k : κ) : Bool := (m.get? k).isSome

/-- Change the value of `k` in its place, or put `fresh` at the end when `k` is new. -/
def alterEntries (k : κ) (fresh : ν) (change : ν → ν) : List (κ × ν) → List (κ × ν)
  | [] => [(k, fresh)]
  | (k', v) :: rest =>
    if k' = k then (k', change v) :: rest else (k', v) :: alterEntries k fresh change rest

def alter (m : OrderedMap κ ν) (k : κ) (fresh : ν) (change : ν → ν) : OrderedMap κ ν :=
  ⟨alterEntries k fresh change m.entries⟩

/-- Write a value: a known key keeps its place, a new one goes to the end. -/
def insert (m : OrderedMap κ ν) (k : κ) (v : ν) : OrderedMap κ ν :=
  m.alter k v (fun _ => v)

/-- Put `fresh` at the end when `k` is new; a known key keeps its value. -/
def ensure (m : OrderedMap κ ν) (k : κ) (fresh : ν) : OrderedMap κ ν :=
  m.alter k fresh id

/-- Change the value of a key; a key that is absent stays absent. -/
def modify (m : OrderedMap κ ν) (k : κ) (change : ν → ν) : OrderedMap κ ν :=
  ⟨m.entries.map fun e => if e.1 = k then (e.1, change e.2) else e⟩

/-- Write every entry of `other`, in its order. -/
def extend (m other : OrderedMap κ ν) : OrderedMap κ ν :=
  other.entries.foldl (fun m e => m.insert e.1 e.2) m

def ofList (entries : List (κ × ν)) : OrderedMap κ ν :=
  entries.foldl (fun m e => m.insert e.1 e.2) empty

/-- The same keys with the same values up to `same`, in whatever order. -/
def agrees (same : ν → ν → Bool) (m other : OrderedMap κ ν) : Bool :=
  m.size == other.size &&
    m.entries.all fun e =>
      match other.get? e.1 with
      | some v => same e.2 v
      | none => false

/-! ## Look-up -/

theorem find_alterEntries (k j : κ) (fresh : ν) (change : ν → ν) (es : List (κ × ν)) :
    find j (alterEntries k fresh change es)
      = if j = k then some ((find k es).elim fresh change) else find j es := by
  induction es with
  | nil =>
    by_cases h : j = k
    · simp [alterEntries, find, h]
    · simp [alterEntries, find, h, Ne.symm h]
  | cons e es ih =>
    obtain ⟨k', v⟩ := e
    by_cases hk : k' = k
    · subst hk
      by_cases hj : j = k'
      · subst hj; simp [alterEntries, find]
      · simp [alterEntries, find, hj, Ne.symm hj]
    · by_cases hj : k' = j
      · subst hj; simp [alterEntries, find, hk]
      · simp [alterEntries, find, hk, hj, ih]

theorem get?_alter (m : OrderedMap κ ν) (k j : κ) (fresh : ν) (change : ν → ν) :
    (m.alter k fresh change).get? j
      = if j = k then some ((m.get? k).elim fresh change) else m.get? j :=
  find_alterEntries k j fresh change m.entries

theorem get?_insert (m : OrderedMap κ ν) (k j : κ) (v : ν) :
    (m.insert k v).get? j = if j = k then some v else m.get? j := by
  rw [insert, get?_alter]
  cases m.get? k <;> rfl

theorem get?_ensure (m : OrderedMap κ ν) (k j : κ) (v : ν) :
    (m.ensure k v).get? j = if j = k then some ((m.get? k).getD v) else m.get? j := by
  rw [ensure, get?_alter]
  cases m.get? k <;> rfl

/-! ## Keys -/

theorem keys_alterEntries (k : κ) (fresh : ν) (change : ν → ν) (es : List (κ × ν)) :
    (alterEntries k fresh change es).map Prod.fst
      = if k ∈ es.map Prod.fst then es.map Prod.fst else es.map Prod.fst ++ [k] := by
  induction es with
  | nil => simp [alterEntries]
  | cons e es ih =>
    obtain ⟨k', v⟩ := e
    by_cases hk : k' = k
    · simp [alterEntries, hk]
    · rw [alterEntries, if_neg hk, List.map_cons, ih]
      by_cases hm : k ∈ es.map Prod.fst
      · simp only [hm, ↓reduceIte, List.map_cons, List.mem_cons, or_true]
      · simp only [hm, ↓reduceIte, List.map_cons, List.mem_cons, Ne.symm hk, or_false,
          List.cons_append]

theorem keys_alter (m : OrderedMap κ ν) (k : κ) (fresh : ν) (change : ν → ν) :
    (m.alter k fresh change).keys = if k ∈ m.keys then m.keys else m.keys ++ [k] :=
  keys_alterEntries k fresh change m.entries

theorem keys_insert (m : OrderedMap κ ν) (k : κ) (v : ν) :
    (m.insert k v).keys = if k ∈ m.keys then m.keys else m.keys ++ [k] :=
  keys_alter m k v _

theorem keys_ensure (m : OrderedMap κ ν) (k : κ) (v : ν) :
    (m.ensure k v).keys = if k ∈ m.keys then m.keys else m.keys ++ [k] :=
  keys_alter m k v _

end OrderedMap

/-! ## Sets -/

/-- Distinct items, in the order in which they were first inserted. -/
structure OrderedSet (α : Type) where
  items : List α
  deriving DecidableEq, Repr

namespace OrderedSet

variable {α : Type} [DecidableEq α]

def empty : OrderedSet α := ⟨[]⟩

instance : Inhabited (OrderedSet α) := ⟨empty⟩

/-- Put an item at the end, unless the set has it. -/
def insert (s : OrderedSet α) (a : α) : OrderedSet α :=
  if a ∈ s.items then s else ⟨s.items ++ [a]⟩

def insertAll (s : OrderedSet α) (items : List α) : OrderedSet α :=
  items.foldl insert s

/-- The distinct items of a list, in the order of their first occurrence. -/
def ofList (items : List α) : OrderedSet α :=
  empty.insertAll items

/-- The same items, in whatever order. -/
def agrees (s other : OrderedSet α) : Bool :=
  s.items.length == other.items.length && s.items.all (· ∈ other.items)

theorem mem_insert (s : OrderedSet α) (a b : α) :
    b ∈ (s.insert a).items ↔ b ∈ s.items ∨ b = a := by
  by_cases h : a ∈ s.items
  · simp only [insert, h, ↓reduceIte]
    constructor
    · exact Or.inl
    · rintro (hb | rfl)
      · exact hb
      · exact h
  · simp [insert, h]

end OrderedSet

end ClassDiagram
