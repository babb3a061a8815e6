import ClassDiagram.Document
import ClassDiagram.Json.Number
import ClassDiagram.LogFormat
import ClassDiagram.Visibility

/-! # Options of the command line

The options that the commands take, with what may follow each of them, and the reasons why
arguments are not accepted.

* `count?_limit`: a count is never larger than 64 bits.
-/

namespace ClassDiagram.Command

/-- Why arguments lead to no command. -/
inductive Usage where
  /-- Help is asked for. -/
  | help
  /-- The version is asked for. -/
  | version
  /-- There are no arguments at all. -/
  | nothing
  | noCommand
  | missingOption
  | unknownArgument
  | unknownCommand
  /-- A value is absent, empty where a path is needed, or none of those allowed. -/
  | badValue
  /-- A value is no count. -/
  | badCount
  | givenTwice
  /-- A value is attached to an option that takes none. -/
  | unwantedValue
  deriving DecidableEq, Repr

def programName : String := "classgram"

namespace Usage

/-- To ask for help or for the version is no mistake. -/
def exitCode : Usage → Nat
  | help | version => 0
  | _ => 2

/-- What is shown for the version; the texts of help and of mistakes are not fixed. -/
def message? : Usage → Option String
  | version => some (programName ++ " " ++ ClassDiagram.version ++ "\n")
  | _ => none

end Usage

inductive Key where
  | help
  | version
  | verbose
  | logLevel
  | logFormat
  | input
  | output
  | placeholder
  | indent
  | json
  | catalog
  | classes
  | everything
  | publicOnly
  | methods
  | fields
  | properties
  deriving DecidableEq, Repr

/-- What an option asks for; a check says why a value is not accepted. -/
inductive Kind where
  | help
  | version
  /-- It is there or not. -/
  | flag
  /-- One value follows. -/
  | one (check : String → Option Usage)
  /-- At least one value follows, up to the next option. -/
  | many (check : String → Option Usage)

/-- An option: what it means, how it is spelled and what it asks for. -/
structure Switch where
  key : Key
  long : String
  short : Option Char := none
  kind : Kind

def Switch.takesValue (o : Switch) : Bool :=
  match o.kind with
  | .one _ | .many _ => true
  | _ => false

def Switch.takesMany (o : Switch) : Bool :=
  match o.kind with
  | .many _ => true
  | _ => false

/-! ## Values -/

def anyText : String → Option Usage := fun _ => none

/-- A path is any text but the empty one. -/
def path (value : String) : Option Usage :=
  if value = "" then some .badValue else none

def oneOf (words : List String) (value : String) : Option Usage :=
  if words.contains value then none else some .badValue

/-- A text without a plus sign in front. -/
def unsigned (value : String) : List Char :=
  match value.toList with
  | '+' :: cs => cs
  | cs => cs

def decimal (digits : List Char) : Nat :=
  digits.foldl (fun n c => 10 * n + (c.toNat - '0'.toNat)) 0

/-- The number that a text of decimal digits is, a plus sign before them allowed. -/
def count? (value : String) : Option Nat :=
  let digits := unsigned value
  if digits.isEmpty || !digits.all Char.isDigit || Nat.blt Json.natLimit (decimal digits) then none
  else some (decimal digits)

def count (value : String) : Option Usage :=
  if (count? value).isSome then none else some .badCount

theorem count?_limit {value : String} {n : Nat} (h : count? value = some n) :
    n ≤ Json.natLimit := by
  simp only [count?] at h
  split at h
  · cases h
  · next hd =>
    cases h
    simp only [Bool.or_eq_true, not_or, Nat.blt_eq] at hd
    omega

/-! ## The options -/

def logLevels : List String := ["trace", "debug", "info", "warn", "error"]

def floor (key : Key) (long : String) : Switch :=
  { key, long, kind := .one (oneOf (Visibility.all.map Visibility.keyword)) }

def inputFile : Switch := { key := .input, long := "input", short := some 'i', kind := .one path }

def outputFile : Switch := { key := .output, long := "output", short := some 'o', kind := .one path }

/-- The options that stand before a command as well as behind it. -/
def globalOptions : List Switch :=
  [{ key := .help, long := "help", short := some 'h', kind := .help },
    { key := .verbose, long := "verbose", short := some 'v', kind := .flag },
    { key := .logLevel, long := "log-level", kind := .one (oneOf logLevels) },
    { key := .logFormat, long := "log-format",
      kind := .one (oneOf (LogFormat.all.map LogFormat.name)) }]

def outerOptions : List Switch :=
  { key := .version, long := "version", short := some 'V', kind := .version } :: globalOptions

inductive Verb where
  | code
  | diagram
  | validate
  | format
  deriving DecidableEq, Repr

namespace Verb

def all : List Verb := [code, diagram, validate, format]

def word : Verb → String
  | code => "code"
  | diagram => "diagram"
  | validate => "validate"
  | format => "format"

def ofWord? (word : String) : Option Verb :=
  all.find? (·.word == word)

def options : Verb → List Switch
  | code =>
    [inputFile, outputFile,
      { key := .placeholder, long := "placeholder", kind := .one anyText },
      { key := .indent, long := "indent", kind := .one count }]
  | diagram =>
    [{ key := .catalog, long := "catalog", short := some 'c', kind := .one path },
      { key := .classes, long := "classes", kind := .many anyText },
      { key := .everything, long := "all", kind := .flag },
      { key := .publicOnly, long := "public", kind := .flag },
      floor .methods "method", floor .fields "field", floor .properties "props", outputFile]
  | validate => [inputFile, { key := .json, long := "json", kind := .flag }]
  | format => [inputFile, outputFile]

def required : Verb → List Key
  | diagram => [.catalog, .classes]
  | _ => []

theorem ofWord?_word (v : Verb) : ofWord? v.word = some v := by
  cases v <;> decide

end Verb

end ClassDiagram.Command
