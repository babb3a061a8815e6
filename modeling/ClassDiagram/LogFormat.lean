/-! # Log formats

The layouts that log lines can have, and the names they are chosen by.

* `ofName?_name`: every format is chosen by its own name.
-/

namespace ClassDiagram

inductive LogFormat where
  | compact
  | pretty
  | json
  deriving DecidableEq, Repr

namespace LogFormat

def all : List LogFormat := [compact, pretty, json]

def name : LogFormat → String
  | compact => "compact"
  | pretty => "pretty"
  | json => "json"

/-- The format of a name, in capital or small letters. -/
def ofName? (name : String) : Option LogFormat :=
  all.find? fun f => f.name == String.ofList (name.toList.map Char.toLower)

theorem ofName?_name (f : LogFormat) : ofName? f.name = some f := by
  cases f <;> decide

def unknown (name : String) : String :=
  "Unknown log format: " ++ name

def ofName (name : String) : Except String LogFormat :=
  match ofName? name with
  | some f => .ok f
  | none => .error (unknown name)

/-- Choose the format of the log before anything is written to it. -/
def choose (name : String) : Except String LogFormat :=
  (ofName name).mapError ("Invalid log format: " ++ ·)

end LogFormat

end ClassDiagram
