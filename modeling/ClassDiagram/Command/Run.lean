import ClassDiagram.Command.Directory
import ClassDiagram.Command.Invocation
import ClassDiagram.Document

/-! # Running a command

What a command shows and writes, given the bytes that it reads.  A file that cannot be read or
written is a failure of the command itself; every other failure is one of the library.

* `lineEnded_newline`: a text that ends its line is shown as it is.
-/

namespace ClassDiagram.Command

inductive Failure where
  /-- The command itself cannot go on. -/
  | own (message : String)
  | library (error : Error)
  deriving DecidableEq, Repr

def Failure.message : Failure → String
  | own m => m
  | library e => e.message

/-- What a command does: the lines that report on it, the text it shows, the text that goes to
its output file, and its failure. -/
structure Outcome where
  log : List String := []
  shown : String := ""
  written : Option String := none
  failure : Option Failure := none
  deriving DecidableEq, Repr

/-- A failed command has the exit code one. -/
def Outcome.exitCode (o : Outcome) : Nat :=
  if o.failure.isSome then 1 else 0

/-- The file that a command reads; without one it reads standard input. -/
def Action.inputFile? : Action → Option String
  | code input _ _ => input
  | diagram catalog _ _ _ => some catalog
  | validate input _ => input
  | format input _ => input

/-- The file that a command writes; without one it shows its text. -/
def Action.outputFile? : Action → Option String
  | code _ output _ => output
  | diagram _ _ _ output => output
  | validate _ _ => none
  | format _ output => output

/-! ## Texts -/

/-- A text that ends its last line, if it has one. -/
def lineEnded (text : String) : String :=
  match text.toList.getLast? with
  | none => text
  | some '\n' => text
  | some _ => text ++ "\n"

theorem lineEnded_newline {text : String} (h : text.toList.getLast? = some '\n') :
    lineEnded text = text := by
  simp [lineEnded, h]

def validText (s : Summary) : String :=
  "✓ Valid class diagram: " ++ toString s.classes ++ " classes, " ++ toString s.members
    ++ " members, " ++ toString s.relations ++ " relations, " ++ toString s.notes ++ " notes"

def invalidText (e : Error) : String :=
  "✗ Invalid class diagram: " ++ e.message

def summaryJson (s : Summary) : Json.Value :=
  .object [("classes", .natural s.classes), ("members", .natural s.members),
    ("relations", .natural s.relations), ("notes", .natural s.notes)]

def invalidJson (e : Error) : Json.Value :=
  .object [("error", .string e.message), ("valid", .boolean false)]

def inputText (file : Option String) (input : Except FileFault ByteArray) :
    Except Failure String :=
  let text := input.bind fun bytes =>
    match Text.Utf8.text? bytes with
    | some s => .ok s
    | none => .error .notText
  match text, file with
  | .ok s, _ => .ok s
  | .error fault, none => .error (.own fault.message)
  | .error fault, some path =>
    .error (.own ("Failed to read input file '" ++ path ++ "': " ++ fault.message))

def inputCatalog (path : String) (input : Except FileFault ByteArray) :
    Except Failure Catalog :=
  let catalog : Except Error Catalog :=
    match input with
    | .ok bytes => Catalog.ofJson (Json.Source.ofBytes bytes)
    | .error .isDirectory => .error (.descriptor FileFault.isDirectory.message)
    | .error fault => .error (.inputOutput fault.message)
  match catalog with
  | .ok c => .ok c
  | .error e =>
    .error (.own ("Failed to load descriptor catalog '" ++ path ++ "': " ++ e.message))

def writeFailure (path : String) (fault : FileFault) : Failure :=
  .own ("Failed to write output file '" ++ path ++ "': " ++ fault.message)

/-! ## Commands -/

namespace Outcome

/-- A result that goes to the output file, or is shown with its last line ended. -/
def result (log : List String) (file : Option String) (text : String) : Outcome :=
  if file.isSome then { log, written := some text } else { log, shown := lineEnded text }

/-- A failure before anything was shown. -/
def failed (log : List String) (f : Failure) : Outcome :=
  { log, failure := some f }

end Outcome

/-- The first line that a command reports. -/
def banner : String :=
  "Classgram v" ++ ClassDiagram.version

def byteCount (text : String) : Nat :=
  Text.byteCount text.toList

/-- Lines that are reported only if that is asked for. -/
def report (verbose : Bool) (lines : List String) : List String :=
  if verbose then lines else []

/-- What a command makes of a text that it read. -/
def Action.onText (verbose : Bool) (log : List String) (text : String) : Action → Outcome
  | code _ output style =>
    match Document.skeleton style text with
    | .error e => Outcome.failed log (.library e)
    | .ok source =>
      Outcome.result
        (log ++ report verbose ["Generated " ++ toString (byteCount source) ++ " bytes of source"])
        output source
  | format _ output =>
    match Document.reformat text with
    | .error e => Outcome.failed log (.library e)
    | .ok layout => Outcome.result log output layout
  | validate _ json =>
    match Document.summary text with
    | .ok s =>
      { log, shown := (if json then (summaryJson s).pretty else validText s) ++ "\n" }
    | .error e =>
      { log
        shown := (if json then (invalidJson e).pretty else invalidText e) ++ "\n"
        failure := some (.library e) }
  | diagram _ _ _ _ => { log }

/-- What an invocation does with what its input file, or standard input, holds. -/
def Invocation.respond (i : Invocation) (input : Except FileFault ByteArray) : Outcome :=
  let log := report i.verbose [banner]
  match i.action with
  | .diagram path classes filter output =>
    match inputCatalog path input with
    | .error f => Outcome.failed log f
    | .ok c =>
      let loaded := "Loaded " ++ toString c.size ++ " descriptors, rendering "
        ++ toString classes.length ++ " requested types"
      Outcome.result (log ++ report i.verbose [loaded]) output (c.diagram filter classes)
  | action =>
    match inputText action.inputFile? input with
    | .error f => Outcome.failed log f
    | .ok text =>
      let counted := "Read " ++ toString (byteCount text) ++ " bytes of input"
      action.onText i.verbose (log ++ report i.verbose [counted]) text

def Invocation.runIn (i : Invocation) (d : Directory) (stdin : ByteArray) : Outcome × Directory :=
  let input :=
    match i.action.inputFile? with
    | none => .ok stdin
    | some path => d.read path
  let o := i.respond input
  match i.action.outputFile?, o.written with
  | some path, some text =>
    match d.write path text.toUTF8 with
    | .ok d' => (o, d')
    | .error fault => ({ o with failure := some (writeFailure path fault) }, d)
  | _, _ => (o, d)

end ClassDiagram.Command
