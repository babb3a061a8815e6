import ClassDiagram.Text.Alphanumeric

/-! # Matchers

A matcher says how many characters at the start of a text it covers; zero means no match.

* `wordLength`: letters, digits and underscores, with single dots between two of them;
* `blankLength`: spaces, tabs and carriage returns;
* `commentLength`: two percent signs up to the end of the line, without the carriage returns
  that end it;
* `quotedLength`: from one quotation mark to the next one on the same line.

`Matcher.length_le`: no matcher covers more than there is.
-/

namespace ClassDiagram

def isWordChar (c : Char) : Bool :=
  Text.isAlphanumeric c || c == '_'

def startsWord : List Char → Bool
  | [] => false
  | c :: _ => isWordChar c

/-- Whether an identifier goes on with `c` when `rest` comes after it: `c` is one of its
characters, or a dot in front of one. -/
def continuesWord (c : Char) (rest : List Char) : Bool :=
  isWordChar c || (c == '.' && startsWord rest)

/-- How far an identifier goes on after one of its characters. -/
def wordTailLength : List Char → Nat
  | [] => 0
  | c :: rest => if continuesWord c rest then wordTailLength rest + 1 else 0

def wordLength : List Char → Nat
  | [] => 0
  | c :: rest => if isWordChar c then wordTailLength rest + 1 else 0

def isInlineBlank (c : Char) : Bool :=
  c == ' ' || c == '\t' || c == '\r'

def blankLength (text : List Char) : Nat :=
  (text.takeWhile isInlineBlank).length

def commentLength : List Char → Nat
  | '%' :: '%' :: rest =>
    let line := '%' :: '%' :: rest.takeWhile (· != '\n')
    (line.reverse.dropWhile (· == '\r')).length
  | _ => 0

def quotedLength : List Char → Nat
  | '"' :: rest =>
    let body := rest.takeWhile fun c => c != '"' && c != '\n'
    match rest.drop body.length with
    | '"' :: _ => body.length + 2
    | _ => 0
  | _ => 0

/-- A way of recognising a token. -/
inductive Matcher where
  /-- Exactly this text. -/
  | literal (text : List Char)
  | word
  | blank
  | comment
  | quoted
  deriving DecidableEq, Repr

namespace Matcher

def length : Matcher → List Char → Nat
  | literal expected, text => if expected.isPrefixOf text then expected.length else 0
  | word, text => wordLength text
  | blank, text => blankLength text
  | comment, text => commentLength text
  | quoted, text => quotedLength text

end Matcher

/-! ## No matcher covers more than there is -/

theorem wordTailLength_le (text : List Char) : wordTailLength text ≤ text.length := by
  induction text with
  | nil => simp [wordTailLength]
  | cons c rest ih =>
    rw [wordTailLength]
    split
    · simpa using ih
    · simp

theorem wordLength_le (text : List Char) : wordLength text ≤ text.length := by
  cases text with
  | nil => simp [wordLength]
  | cons c rest =>
    rw [wordLength, List.length_cons]
    split
    · exact Nat.succ_le_succ (wordTailLength_le rest)
    · exact Nat.zero_le _

theorem length_takeWhile_le (p : Char → Bool) (text : List Char) :
    (text.takeWhile p).length ≤ text.length :=
  (List.takeWhile_sublist p).length_le

theorem commentLength_le (text : List Char) : commentLength text ≤ text.length := by
  unfold commentLength
  split
  · rename_i rest
    have h1 := (List.dropWhile_sublist (· == '\r')
      (l := ('%' :: '%' :: rest.takeWhile (· != '\n')).reverse)).length_le
    have h2 := length_takeWhile_le (· != '\n') rest
    simp only [List.length_reverse, List.length_cons] at h1 ⊢
    omega
  · simp

theorem quotedLength_le (text : List Char) : quotedLength text ≤ text.length := by
  unfold quotedLength
  split
  · rename_i rest
    dsimp only
    split
    · rename_i heq
      have := congrArg List.length heq
      simp only [List.length_drop, List.length_cons] at this ⊢
      omega
    · simp
  · simp

theorem Matcher.length_le (m : Matcher) (text : List Char) : m.length text ≤ text.length := by
  cases m with
  | literal expected =>
    rw [Matcher.length]
    split
    · rename_i h
      have hp := List.isPrefixOf_iff_prefix.1 h
      exact hp.length_le
    · simp
  | word => exact wordLength_le text
  | blank => exact length_takeWhile_le _ text
  | comment => exact commentLength_le text
  | quoted => exact quotedLength_le text

end ClassDiagram
