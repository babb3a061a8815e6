import ClassDiagram.Command.Options
import ClassDiagram.OrderedMap

/-! # Reading arguments

Arguments are read from left to right.  An option that takes a value waits for it, and its
values are checked only when the next option comes or the arguments end.  An argument that
begins with a dash is never a value, unless it is the dash alone or is attached to its option.
A command takes all arguments behind it, with options of its own.

* `record_flag_twice`: a flag that is there cannot be given again.
-/

namespace ClassDiagram.Command

/-- The options that have been given, with their values. -/
abbrev Given := OrderedMap Key (List String)

/-- How far the arguments have been read. -/
structure Scan where
  given : Given := OrderedMap.empty
  /-- The option given last, with its values so far, while they are not checked. -/
  pending : Option (Switch × List String) := none
  /-- Whether the option given last takes the next argument. -/
  waiting : Bool := false
  /-- Whether two dashes have ended the options. -/
  closed : Bool := false

/-- Check all values, the first fault found stops. -/
def checkAll (check : String → Option Usage) (values : List String) : Except Usage Unit :=
  match values.findSome? check with
  | some fault => .error fault
  | none => .ok ()

def record (o : Switch) (values : List String) (given : Given) : Except Usage Given :=
  match o.kind with
  | .help => .error .help
  | .version => .error .version
  | .flag => if given.contains o.key then .error .givenTwice else .ok (given.insert o.key [])
  | .one check => do
    if values.isEmpty then throw .badValue
    if given.contains o.key then throw .givenTwice
    checkAll check values
    return given.insert o.key values
  | .many check => do
    if values.isEmpty then throw .badValue
    checkAll check values
    return given.alter o.key values (· ++ values)

namespace Scan

/-- Note the option that is pending. -/
def settle (s : Scan) : Except Usage Scan :=
  match s.pending with
  | none => .ok s
  | some (o, values) => do
    return { s with given := ← record o values s.given, pending := none }

def apply (s : Scan) (o : Switch) (values : List String) : Except Usage Scan := do
  let s ← s.settle
  return { s with given := ← record o values s.given, waiting := false }

def await (s : Scan) (o : Switch) : Except Usage Scan := do
  return { ← s.settle with pending := some (o, []), waiting := true }

/-- An option by its long name, with the value that is attached to it. -/
def long (s : Scan) (options : List Switch) (name : String) (value : Option String) :
    Except Usage Scan :=
  match options.find? (·.long == name) with
  | none => .error .unknownArgument
  | some o =>
    match o.takesValue, value with
    | true, some v => s.apply o [v]
    | true, none => s.await o
    | false, some _ => .error .unwantedValue
    | false, none => s.apply o []

/-- Options by their letters; what follows the letter of an option that takes a value is the
value, an equals sign before it left out. -/
def letters (options : List Switch) : List Char → Scan → Except Usage Scan
  | [], s => .ok s
  | c :: rest, s =>
    match options.find? (·.short == some c) with
    | none => .error .unknownArgument
    | some o =>
      if o.takesValue then
        match rest with
        | [] => s.await o
        | '=' :: value => s.apply o [String.ofList value]
        | value => s.apply o [String.ofList value]
      else do letters options rest (← s.apply o [])

end Scan

/-- The options that are taken in one place, and the commands that may follow there. -/
structure Level where
  options : List Switch
  commands : List String

namespace Level

def stray (level : Level) (closed : Bool) (argument : String) : Usage :=
  if level.commands.isEmpty || (closed && level.commands.contains argument) then .unknownArgument
  else .unknownCommand

end Level

/-- Read arguments up to their end or up to a command, which is given with what follows it. -/
def scan (level : Level) : Scan → List String → Except Usage (Scan × Option (String × List String))
  | s, [] => .ok (s, none)
  | s, argument :: rest =>
    if s.closed then .error (level.stray true argument)
    else if !s.waiting && level.commands.contains argument then .ok (s, some (argument, rest))
    else
      match argument.toList with
      | ['-', '-'] => scan level { s with closed := true } rest
      | '-' :: '-' :: cs => do
        let name := cs.takeWhile (· ≠ '=')
        let value := (cs.dropWhile (· ≠ '=')).tail?
        let s ← s.long level.options (String.ofList name) (value.map String.ofList)
        scan level s rest
      | '-' :: c :: cs => do
        let s ← Scan.letters level.options (c :: cs) s
        scan level s rest
      | _ =>
        match s.waiting, s.pending with
        | true, some (o, values) =>
          scan level
            { s with pending := some (o, values ++ [argument]), waiting := o.takesMany } rest
        | _, _ => .error (level.stray false argument)

theorem record_flag_twice {o : Switch} {given : Given} (values : List String)
    (hk : o.kind = .flag) (h : given.contains o.key = true) :
    record o values given = .error .givenTwice := by
  simp [record, hk, h]

end ClassDiagram.Command
