import ClassDiagram.Command.Arguments
import ClassDiagram.Descriptor.Adapter
import ClassDiagram.Skeleton

/-! # Invocations

What the program is asked to do, once its arguments are read.

* `parse_nil`: without arguments nothing is asked for.
-/

namespace ClassDiagram.Command

/-- A command with its settings.  A file that is not given, or given as a dash, is a standard
stream. -/
inductive Action where
  /-- Write the skeleton of a diagram. -/
  | code (input output : Option String) (style : SkeletonStyle)
  /-- Write the diagram of types from a catalog. -/
  | diagram (catalog : String) (classes : List String) (filter : MemberFilter)
    (output : Option String)
  /-- Say whether a text is a diagram, and what it holds. -/
  | validate (input : Option String) (json : Bool)
  /-- Write a diagram in canonical layout. -/
  | format (input output : Option String)
  deriving DecidableEq, Repr

structure Invocation where
  verbose : Bool
  action : Action
  deriving DecidableEq, Repr

/-! ## Settings -/

namespace Given

def value? (given : Given) (key : Key) : Option String :=
  (given.get? key).bind List.head?

/-- The file that an option names, unless it is a standard stream. -/
def file? (given : Given) (key : Key) : Option String :=
  (value? given key).filter (· ≠ "-")

/-- A floor of visibility; members are public unless it is given. -/
def floor (given : Given) (key : Key) : Visibility :=
  ((value? given key).bind Visibility.ofKeyword?).getD .pub

/-- The members that are kept: the public ones only when that is asked for, else all when that
is asked for, else those above their floors. -/
def filter (given : Given) : MemberFilter :=
  if given.contains .publicOnly then MemberFilter.publicOnly
  else if given.contains .everything then MemberFilter.all
  else ⟨floor given .methods, floor given .fields, floor given .properties⟩

def style (given : Given) : SkeletonStyle :=
  let usual : SkeletonStyle := {}
  { indentWidth := ((value? given .indent).bind count?).getD usual.indentWidth
    placeholder := (value? given .placeholder).getD usual.placeholder }

end Given

def Verb.action (given : Given) : Verb → Action
  | code => .code (Given.file? given .input) (Given.file? given .output) (Given.style given)
  | diagram =>
    .diagram ((Given.value? given .catalog).getD "") ((given.get? .classes).getD [])
      (Given.filter given) (Given.file? given .output)
  | validate => .validate (Given.file? given .input) (given.contains .json)
  | format => .format (Given.file? given .input) (Given.file? given .output)

/-! ## Reading -/

def helpWord : String := "help"

/-- What stands before a command. -/
def outerLevel : Level :=
  { options := outerOptions, commands := helpWord :: Verb.all.map Verb.word }

/-- What stands behind a command. -/
def Verb.level (v : Verb) : Level :=
  { options := globalOptions ++ v.options, commands := [] }

/-- The options behind a command, none that is required missing. -/
def Verb.given (v : Verb) (arguments : List String) : Except Usage Given := do
  let (s, _) ← scan v.level {} arguments
  let s ← s.settle
  if v.required.all s.given.contains then return s.given else throw .missingOption

/-- What the words behind the one for help ask for: help, on one command at most. -/
def helpFor : List String → Usage
  | [] => .help
  | [word] => if outerLevel.commands.contains word then .help else .unknownCommand
  | _ => .unknownCommand

/-- What the arguments ask for.  The options before a command are checked behind the others. -/
def parse (arguments : List String) : Except Usage Invocation := do
  let (s, command) ← scan outerLevel {} arguments
  match command with
  | none =>
    let s ← s.settle
    throw (if s.given.entries.isEmpty then .nothing else .noCommand)
  | some (word, rest) =>
    match Verb.ofWord? word with
    | none => throw (helpFor rest)
    | some verb =>
      let inner ← verb.given rest
      let s ← s.settle
      return {
        verbose := s.given.contains .verbose || inner.contains .verbose
        action := verb.action inner }

theorem parse_nil : parse [] = .error .nothing := rfl

end ClassDiagram.Command
