/-! # Characters of bytes

Reading bytes as UTF-8.  Where a byte begins no character it is kept apart, so that a reader of
a larger format can decide itself what to do about it.

* `charactersFrom_of_le`: past the last byte there is no character;
* `text?_eq_some`: bytes that make a text make it in one way.
-/

namespace ClassDiagram.Text.Utf8

/-- The characters of the bytes from position `i` on; `none` stands for one byte that begins no
character. -/
def charactersFrom (bytes : ByteArray) (i : Nat) : List (Option Char) :=
  if _h : i < bytes.size then
    match bytes.utf8DecodeChar? i with
    | some c => some c :: charactersFrom bytes (i + c.utf8Size)
    | none => none :: charactersFrom bytes (i + 1)
  else []
termination_by bytes.size - i
decreasing_by
  · have := c.utf8Size_pos
    omega
  · omega

def characters (bytes : ByteArray) : List (Option Char) :=
  charactersFrom bytes 0

/-- The text that all of the bytes together make, if they make one. -/
def text? (bytes : ByteArray) : Option String :=
  String.fromUTF8? bytes

theorem charactersFrom_of_le {bytes : ByteArray} {i : Nat} (h : bytes.size ≤ i) :
    charactersFrom bytes i = [] := by
  rw [charactersFrom, dif_neg (by omega)]

theorem text?_eq_some {bytes : ByteArray} {s : String} (h : text? bytes = some s) :
    s.toByteArray = bytes := by
  unfold text? String.fromUTF8? at h
  split at h
  · cases h
    rfl
  · cases h

end ClassDiagram.Text.Utf8
