import Mathlib.Data.List.Forall2
import ClassDiagram.Json.Number
import ClassDiagram.Json.Value

/-! # JSON texts

A JSON text is a row of chunks (signs, constants, numbers, strings) with any blanks between them.
What the chunks of a value are does not depend on the blanks, so the forms of values are sets of
rows of chunks, and a text is of a form if its chunks are.

* `Spaced`: a row of chunks with blanks in front of each;
* `Encodes`: the ways to write characters between the quotes of a string;
* `IsJson`: the rows of chunks that are a value;
* `IsRecord`: the entries of a record in any order, with unknown ones among them and those of
  defaults left out;
* `Spaced.join`: chunks without a blank between them;
* `spaced_of_behind?`: whether a source begins with some chunks can be computed.
-/

namespace ClassDiagram.Json

/-! ## Chunks and blanks -/

/-- A sign, a constant, a number or a string, as it is written. -/
abbrev Chunk := List Char

/-- A set of rows of chunks. -/
abbrev Form := List Chunk → Prop

/-- Chunks in a row, with blanks in front of each. -/
inductive Spaced : List Chunk → Source → Prop
  | nil : Spaced [] []
  | cons {w x : Source} {t : Chunk} {ts : List Chunk} :
      (∀ u ∈ w, isBlank u = true) → Spaced ts x → Spaced (t :: ts) (w ++ (t.map some ++ x))

/-- A whole text of a form: blanks may stand before, between and behind its chunks. -/
def IsText (F : Form) (s : Source) : Prop :=
  ∃ ts x w, F ts ∧ Spaced ts x ∧ (∀ u ∈ w, isBlank u = true) ∧ s = x ++ w

namespace Spaced

theorem append_inv {ts us : List Chunk} {x : Source} (h : Spaced (ts ++ us) x) :
    ∃ y z, Spaced ts y ∧ Spaced us z ∧ x = y ++ z := by
  induction ts generalizing x with
  | nil => exact ⟨[], x, .nil, h, rfl⟩
  | cons t ts ih =>
    cases h with
    | @cons w x _ _ hw hx =>
      obtain ⟨y, z, hy, hz, rfl⟩ := ih hx
      exact ⟨_, z, .cons hw hy, hz, by simp⟩

/-- Chunks without a blank between them. -/
theorem join (ts : List Chunk) : Spaced ts (ts.flatten.map some) := by
  induction ts with
  | nil => exact .nil
  | cons t ts ih =>
    rw [List.flatten_cons, List.map_append]
    exact @Spaced.cons [] _ t ts nofun ih

end Spaced

/-- What is left of a source behind some chunks, if it begins with them. -/
def behind? : List Chunk → Source → Option Source
  | [], s => some s
  | t :: ts, s =>
    let s' := s.dropWhile isBlank
    if s'.take t.length = t.map some then behind? ts (s'.drop t.length) else none

/-- A source that begins with some chunks is a text of them and of what is left. -/
theorem spaced_of_behind? {ts : List Chunk} {s rest : Source} (h : behind? ts s = some rest) :
    ∃ x, Spaced ts x ∧ s = x ++ rest := by
  induction ts generalizing s with
  | nil =>
    cases h
    exact ⟨[], .nil, rfl⟩
  | cons t ts ih =>
    rw [behind?] at h
    by_cases ht : (s.dropWhile isBlank).take t.length = t.map some
    · rw [if_pos ht] at h
      obtain ⟨x, hx, hrest⟩ := ih h
      refine ⟨_, .cons (w := s.takeWhile isBlank) (List.all_eq_true.1 List.all_takeWhile) hx, ?_⟩
      rw [List.append_assoc, List.append_assoc, ← hrest, ← ht, List.take_append_drop,
        List.takeWhile_append_dropWhile]
    · rw [if_neg ht] at h
      cases h

/-! ## Strings -/

def shortEscapes : List (Char × Char) :=
  [('"', '"'), ('\\', '\\'), ('/', '/'), ('b', '\x08'), ('f', '\x0c'), ('n', '\n'), ('r', '\r'),
    ('t', '\t')]

def hexDigits : List (Char × Nat) :=
  "0123456789abcdef".toList.zipIdx ++ "ABCDEF".toList.zipIdx 10

inductive IsCode : List Char → Nat → Prop
  | mk {a b c d : Char} {i j k l : Nat} :
      (a, i) ∈ hexDigits → (b, j) ∈ hexDigits → (c, k) ∈ hexDigits → (d, l) ∈ hexDigits →
      IsCode [a, b, c, d] (16 * (16 * (16 * i + j) + k) + l)

/-- A character that stands for itself in a string. -/
def IsPlain (c : Char) : Prop := 0x20 ≤ c.toNat ∧ c ≠ '"' ∧ c ≠ '\\'

/-- What stands between the quotes of a string, with the characters that it is read as. -/
inductive Encodes : List Char → List Char → Prop
  | nil : Encodes [] []
  | plain {c : Char} {body cs : List Char} :
      IsPlain c → Encodes body cs → Encodes (c :: body) (c :: cs)
  | short {e c : Char} {body cs : List Char} :
      (e, c) ∈ shortEscapes → Encodes body cs → Encodes ('\\' :: e :: body) (c :: cs)
  | code {ds body cs : List Char} {n : Nat} :
      IsCode ds n → ¬ (0xD800 ≤ n ∧ n ≤ 0xDFFF) → Encodes body cs →
      Encodes ('\\' :: 'u' :: (ds ++ body)) (Char.ofNat n :: cs)
  | pair {ds ds' body cs : List Char} {n m : Nat} :
      IsCode ds n → 0xD800 ≤ n → n ≤ 0xDBFF → IsCode ds' m → 0xDC00 ≤ m → m ≤ 0xDFFF →
      Encodes body cs →
      Encodes ('\\' :: 'u' :: (ds ++ '\\' :: 'u' :: (ds' ++ body)))
        (Char.ofNat ((n - 0xD800) * 0x400 + (m - 0xDC00) + 0x10000) :: cs)

/-- What stands between the quotes of a string that need not stand for characters: its escapes may
name halves of pairs. -/
inductive IsBody : List Char → Prop
  | nil : IsBody []
  | plain {c : Char} {body : List Char} : IsPlain c → IsBody body → IsBody (c :: body)
  | short {e c : Char} {body : List Char} :
      (e, c) ∈ shortEscapes → IsBody body → IsBody ('\\' :: e :: body)
  | code {ds body : List Char} {n : Nat} :
      IsCode ds n → IsBody body → IsBody ('\\' :: 'u' :: (ds ++ body))

def quotedChunk (body : List Char) : Chunk := '"' :: (body ++ ['"'])

def IsString (s : String) (t : Chunk) : Prop := ∃ body, Encodes body s.toList ∧ t = quotedChunk body

def IsAnyString (t : Chunk) : Prop := ∃ body, IsBody body ∧ t = quotedChunk body

/-! ## Numbers -/

def IsDigits (ds : List Char) : Prop := ds ≠ [] ∧ ∀ c ∈ ds, c.isDigit = true

/-- Decimal digits, with no zero before another one. -/
def IsWhole (ds : List Char) : Prop := IsDigits ds ∧ (ds.head? = some '0' → ds = ['0'])

inductive IsFraction : List Char → Prop
  | none : IsFraction []
  | some {ds : List Char} : IsDigits ds → IsFraction ('.' :: ds)

inductive IsExponent : List Char → Prop
  | none : IsExponent []
  | some {e : Char} {sign ds : List Char} : e ∈ ['e', 'E'] → sign ∈ [[], ['+'], ['-']] →
      IsDigits ds → IsExponent (e :: (sign ++ ds))

def IsNumber (t : Chunk) : Prop :=
  ∃ sign whole fraction exponent, sign ∈ [[], ['-']] ∧ IsWhole whole ∧ IsFraction fraction ∧
    IsExponent exponent ∧ t = sign ++ (whole ++ (fraction ++ exponent))

/-! ## Values -/

/-- Items in a row with commas between them, the first one behind a comma too unless it is the
first one of all. -/
def commaSeparated : Bool → List (List Chunk) → List Chunk
  | _, [] => []
  | first, item :: items =>
    (if first then [] else [[',']]) ++ (item ++ commaSeparated false items)

def listChunks (items : List (List Chunk)) : List Chunk :=
  ['['] :: (commaSeparated true items ++ [[']']])

structure Entry where
  key : Chunk
  value : List Chunk

def Entry.chunks (e : Entry) : List Chunk := e.key :: [':'] :: e.value

def objectChunks (entries : List Entry) : List Chunk :=
  ['\x7b'] :: (commaSeparated true (entries.map Entry.chunks) ++ [['\x7d']])

inductive IsJson : Form
  | constant {word : String} : word ∈ ["null", "true", "false"] → IsJson [word.toList]
  | number {t : Chunk} : IsNumber t → IsJson [t]
  | string {t : Chunk} : IsAnyString t → IsJson [t]
  | list {items : List (List Chunk)} : (∀ item ∈ items, IsJson item) → IsJson (listChunks items)
  | object {entries : List Entry} : (∀ e ∈ entries, IsAnyString e.key) →
      (∀ e ∈ entries, IsJson e.value) → IsJson (objectChunks entries)

/-! ## Values of a kind -/

def TextForm (s : String) : Form := fun ts => ∃ t, IsString s t ∧ ts = [t]

def BooleanForm (b : Bool) : Form := fun ts => ts = [(toString b).toList]

def CountForm (n : Nat) : Form := fun ts => n ≤ natLimit ∧ ts = [(toString n).toList]

/-- A value, or `null` for nothing. -/
def OptionForm {α : Type} (F : α → Form) : Option α → Form
  | none => fun ts => ts = ["null".toList]
  | some a => F a

def ListForm {α : Type} (F : α → Form) (as : List α) : Form := fun ts =>
  ∃ items, List.Forall₂ F as items ∧ ts = listChunks items

/-- What a record holds in one place: the keys that name the place, the value that it has, and
whether it may be left out. -/
structure Slot where
  keys : List String
  value : Form
  omittable : Prop

/-- An entry whose key is read as a text. -/
structure NamedEntry where
  name : String
  entry : Entry

/-- The entries of a record with a slot for each place, in any order: each slot has at most one,
under any of its names, and one that may be left out may have none.  In between there may be entries
under other names, with any values. -/
structure IsRecord {F : Type} (slot : F → Slot) (entries : List NamedEntry) : Prop where
  keys : ∀ e ∈ entries, IsString e.name e.entry.key
  values : ∀ e ∈ entries, (∃ f, e.name ∈ (slot f).keys ∧ (slot f).value e.entry.value) ∨
    (∀ f, e.name ∉ (slot f).keys) ∧ IsJson e.entry.value
  once : entries.Pairwise fun e e' => ∀ f, e.name ∈ (slot f).keys → e'.name ∉ (slot f).keys
  present : ∀ f, (∃ e ∈ entries, e.name ∈ (slot f).keys) ∨ (slot f).omittable

def RecordForm {F : Type} (slot : F → Slot) : Form := fun ts =>
  ∃ entries, IsRecord slot entries ∧ ts = objectChunks (entries.map NamedEntry.entry)

end ClassDiagram.Json
