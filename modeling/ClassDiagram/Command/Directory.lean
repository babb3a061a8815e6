import ClassDiagram.OrderedMap
import ClassDiagram.Text.Position

/-! # Directories

A directory of files as a value, with the faults of reading and writing by a path.  The path
names a file by components between slashes; `.` stays where it is and `..` goes up.  Nothing is
known of what lies outside the directory but that it has no file that is asked for.

* `FileFault.code?_ofCode`: a fault is known by the number it is made of;
* `Directory.read_null`: the null device is always empty.
-/

namespace ClassDiagram.Command

inductive FileFault where
  | missing
  | denied
  | notDirectory
  | isDirectory
  | nameTooLong
  /-- The path has a character of code zero. -/
  | badPath
  /-- The bytes read are no text. -/
  | notText
  | other (code : Nat)
  deriving DecidableEq, Repr

namespace FileFault

/-- The number by which the operating system knows a fault. -/
def code? : FileFault → Option Nat
  | missing => some 2
  | denied => some 13
  | notDirectory => some 20
  | isDirectory => some 21
  | nameTooLong => some 36
  | badPath | notText => none
  | other code => some code

def words : FileFault → String
  | missing => "No such file or directory"
  | denied => "Permission denied"
  | notDirectory => "Not a directory"
  | isDirectory => "Is a directory"
  | nameTooLong => "File name too long"
  | badPath => "file name contained an unexpected NUL byte"
  | notText => "stream did not contain valid UTF-8"
  | other _ => "Input/output error"

def message (f : FileFault) : String :=
  match f.code? with
  | some code => f.words ++ " (os error " ++ toString code ++ ")"
  | none => f.words

def ofCode (code : Nat) : FileFault :=
  match [missing, denied, notDirectory, isDirectory, nameTooLong].find? (·.code? == some code) with
  | some fault => fault
  | none => other code

theorem code?_ofCode (code : Nat) : (ofCode code).code? = some code := by
  unfold ofCode
  split
  · next h => simpa using List.find?_some h
  · rfl

end FileFault

/-- Files under their names; a name with slashes lies in directories further down. -/
structure Directory where
  files : OrderedMap String ByteArray

namespace Directory

/-- What a path leads to. -/
inductive Place where
  | directory
  | file (name : String)
  /-- No file, in a directory that exists; outside of this one the name is not known. -/
  | vacant (name : Option String)
  deriving DecidableEq, Repr

/-- The file that is always empty, and takes whatever is written to it. -/
def nullDevice : String := "/dev/null"

def componentLimit : Nat := 255

def pathLimit : Nat := 4095

def nameOf (components : List String) : String :=
  "/".intercalate components

/-- Whether some file lies in the directory of a name. -/
def holds (d : Directory) (name : String) : Bool :=
  d.files.keys.any fun key => (name ++ "/").toList.isPrefixOf key.toList

/-- Follow components from a directory inside this one, or from one outside. -/
def follow (d : Directory) : Option (List String) → List String → Except FileFault Place
  | _, [] => .ok .directory
  | here, component :: rest =>
    if component = "." then d.follow here rest
    else if component = ".." then
      d.follow (here.bind fun inside => if inside.isEmpty then none else some inside.dropLast) rest
    else if componentLimit < Text.byteCount component.toList then .error .nameTooLong
    else
      match here with
      | none => if rest.isEmpty then .ok (.vacant none) else .error .missing
      | some inside =>
        let name := nameOf (inside ++ [component])
        if d.files.contains name then
          if rest.isEmpty then .ok (.file name) else .error .notDirectory
        else if d.holds name then d.follow (some (inside ++ [component])) rest
        else if rest.isEmpty then .ok (.vacant (some name))
        else .error .missing

/-- The components of a path, without empty ones. -/
def components (path : String) : List String :=
  (path.splitOn "/").filter (· ≠ "")

/-- Whether a path ends in a slash behind its last component, which must be a directory. -/
def endsInSlash (path : String) : Bool :=
  path.toList.getLast? == some '/'

def locate (d : Directory) (path : String) : Except FileFault Place :=
  if path.toList.contains '\x00' then .error .badPath
  else if pathLimit < Text.byteCount path.toList then .error .nameTooLong
  else
    d.follow (if path.toList.head? = some '/' then none else some []) (components path)

def read (d : Directory) (path : String) : Except FileFault ByteArray :=
  if path = nullDevice then .ok ByteArray.empty
  else
    match d.locate path with
    | .error fault => .error fault
    | .ok .directory => .error .isDirectory
    | .ok (.vacant _) => .error .missing
    | .ok (.file name) =>
      if endsInSlash path then .error .notDirectory
      else
        match d.files.get? name with
        | some bytes => .ok bytes
        | none => .error .missing

def write (d : Directory) (path : String) (bytes : ByteArray) : Except FileFault Directory :=
  if path = nullDevice then .ok d
  else
    match d.locate path with
    | .error fault => .error fault
    | .ok .directory => .error .isDirectory
    | .ok (.file name) =>
      if endsInSlash path then .error .isDirectory else .ok ⟨d.files.insert name bytes⟩
    | .ok (.vacant name) =>
      if endsInSlash path then .error .isDirectory
      else
        match name with
        | some name => .ok ⟨d.files.insert name bytes⟩
        | none => .ok d

/-- The files that are new or have other bytes than in an earlier state. -/
def changes (d earlier : Directory) : List (String × ByteArray) :=
  d.files.entries.filter fun (name, bytes) => earlier.files.get? name != some bytes

theorem read_null (d : Directory) : d.read nullDevice = .ok ByteArray.empty := rfl

end Directory

end ClassDiagram.Command
