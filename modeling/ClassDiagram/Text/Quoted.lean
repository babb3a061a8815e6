import ClassDiagram.Text.Unprintable

/-! # Quoted texts

A text as a message shows it: between double quotes, on one line, with every character that
would not show written as an escape.

* `escape_plain`: a character without an escape stands for itself;
* `quote_empty`: the empty text is a pair of quotes.
-/

namespace ClassDiagram.Text

/-- The code of a character in lower-case hexadecimal digits, without leading zeros. -/
def hexCode (c : Char) : List Char :=
  Nat.toDigits 16 c.toNat

/-- Whether a character is written by its code: it does not print, it shows nothing, or it would
join the character before it. -/
def isHidden (c : Char) : Bool :=
  isUnprintable c || isDefaultIgnorable c || (isGraphemeExtend c && !isHalfwidthSoundMark c)

def escape : Char → List Char
  | '\x00' => ['\\', '0']
  | '\t' => ['\\', 't']
  | '\r' => ['\\', 'r']
  | '\n' => ['\\', 'n']
  | '"' => ['\\', '"']
  | '\\' => ['\\', '\\']
  | c => if isHidden c then ['\\', 'u', '\x7b'] ++ hexCode c ++ ['\x7d'] else [c]

def quote (s : String) : String :=
  String.ofList ('"' :: s.toList.flatMap escape ++ ['"'])

theorem escape_plain {c : Char} (h : isHidden c = false) (hz : c ≠ '\x00') (ht : c ≠ '\t')
    (hr : c ≠ '\r') (hn : c ≠ '\n') (hq : c ≠ '"') (hb : c ≠ '\\') : escape c = [c] := by
  unfold escape
  split <;> simp_all

theorem quote_empty : quote "" = "\"\"" := rfl

end ClassDiagram.Text
