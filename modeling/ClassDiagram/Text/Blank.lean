/-! # Blank characters

The Unicode property White_Space, and trimming by it.

* `strip_all`: a text of characters that are all stripped becomes empty;
* `trim_eq_empty_iff`: trimming leaves nothing exactly when every character is blank.
-/

namespace ClassDiagram.Text

/-- A character of the Unicode property White_Space. -/
def isBlank (c : Char) : Bool :=
  let n := c.toNat
  (Nat.ble 0x9 n && Nat.ble n 0xD) || n == 0x20 || n == 0x85 || n == 0xA0 || n == 0x1680 ||
    (Nat.ble 0x2000 n && Nat.ble n 0x200A) || n == 0x2028 || n == 0x2029 || n == 0x202F ||
    n == 0x205F || n == 0x3000

/-- Drop the characters that satisfy `p` from both ends. -/
def strip (p : Char → Bool) (cs : List Char) : List Char :=
  ((cs.dropWhile p).reverse.dropWhile p).reverse

def trim (s : String) : String :=
  String.ofList (strip isBlank s.toList)

/-- A text of blanks only, the empty one included. -/
def isBlankText (s : String) : Bool :=
  s.toList.all isBlank

theorem dropWhile_eq_nil_iff_all (p : Char → Bool) (cs : List Char) :
    cs.dropWhile p = [] ↔ cs.all p = true := by
  induction cs with
  | nil => simp
  | cons c cs ih => by_cases h : p c = true <;> simp_all

theorem strip_all (p : Char → Bool) {cs : List Char} (h : cs.all p = true) :
    strip p cs = [] := by
  simp [strip, (dropWhile_eq_nil_iff_all p cs).2 h]

theorem all_of_strip_eq_nil (p : Char → Bool) {cs : List Char} (h : strip p cs = []) :
    cs.all p = true := by
  have h1 : (cs.dropWhile p).all p = true := by
    have := (dropWhile_eq_nil_iff_all p (cs.dropWhile p).reverse).1 (by simpa [strip] using h)
    simpa using this
  have h2 : (cs.dropWhile p).dropWhile p = [] := (dropWhile_eq_nil_iff_all p _).2 h1
  have h3 : (cs.dropWhile p).dropWhile p = cs.dropWhile p := by
    induction cs with
    | nil => rfl
    | cons c cs ih =>
      by_cases hc : p c = true
      · simpa [List.dropWhile_cons, hc] using
          ih (by simpa [strip, List.dropWhile_cons, hc] using h)
            (by simpa [List.dropWhile_cons, hc] using h1)
            (by simpa [List.dropWhile_cons, hc] using h2)
      · simp [hc]
  exact (dropWhile_eq_nil_iff_all p cs).1 (by rw [← h3, h2])

theorem trim_eq_empty_iff (s : String) : trim s = "" ↔ isBlankText s = true := by
  have : trim s = "" ↔ strip isBlank s.toList = [] := by
    rw [trim, ← String.toList_inj, String.toList_ofList]
    simp
  rw [this]
  exact ⟨all_of_strip_eq_nil _, strip_all _⟩

end ClassDiagram.Text
