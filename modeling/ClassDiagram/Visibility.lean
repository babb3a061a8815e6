/-! # Visibility of members

Four levels, least visible first: private, protected, internal, public.

* `ofMarker?_marker`: a level is read back from its marker;
* `ofKeyword?_keyword`: and from its word;
* `atLeast_refl`: every level passes itself as a floor.
-/

namespace ClassDiagram

/-- Who can see a member, least visible first. -/
inductive Visibility where
  | priv
  | prot
  | internal
  | pub
  deriving DecidableEq, Repr, Inhabited

namespace Visibility

def rank : Visibility → Nat
  | priv => 0
  | prot => 1
  | internal => 2
  | pub => 3

def atLeast (v floor : Visibility) : Bool :=
  Nat.ble floor.rank v.rank

def marker : Visibility → Char
  | pub => '+'
  | priv => '-'
  | prot => '#'
  | internal => '~'

def ofMarker? : Char → Option Visibility
  | '+' => some pub
  | '-' => some priv
  | '#' => some prot
  | '~' => some internal
  | _ => none

def keyword : Visibility → String
  | pub => "public"
  | priv => "private"
  | prot => "protected"
  | internal => "internal"

/-- All levels, most visible first. -/
def all : List Visibility := [pub, internal, prot, priv]

def ofKeyword? (word : String) : Option Visibility :=
  all.find? (·.keyword == word)

theorem ofMarker?_marker (v : Visibility) : ofMarker? v.marker = some v := by
  cases v <;> rfl

theorem ofKeyword?_keyword (v : Visibility) : ofKeyword? v.keyword = some v := by
  cases v <;> decide

theorem atLeast_refl (v : Visibility) : v.atLeast v = true := by
  cases v <;> rfl

end Visibility

end ClassDiagram
