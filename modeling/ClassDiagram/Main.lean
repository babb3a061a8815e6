import ClassDiagram.Command.Run

/-! # The program

Reads the arguments, the input and the output file of the command line; what is done with them
is decided by `Invocation.respond`.
-/

namespace ClassDiagram.Command

def faultOf : IO.Error → FileFault
  | .noFileOrDirectory _ _ _ => .missing
  | .permissionDenied _ code _ | .inappropriateType _ code _ | .invalidArgument _ code _
  | .noSuchThing _ code _ | .resourceExhausted _ code _ | .alreadyExists _ code _ =>
    FileFault.ofCode code.toNat
  | .otherError code _ | .resourceBusy code _ | .unsupportedOperation code _
  | .illegalOperation code _ | .unsatisfiedConstraints code _ => FileFault.ofCode code.toNat
  | _ => .other 5

def readInput (file : Option String) : IO (Except FileFault ByteArray) := do
  try
    match file with
    | some path => return .ok (← IO.FS.readBinFile path)
    | none => return .ok (← (← IO.getStdin).readBinToEnd)
  catch e => return .error (faultOf e)

/-- Write the text of an outcome to its file; the outcome fails if that fails. -/
def writeOutput (file : Option String) (o : Outcome) : IO Outcome := do
  match file, o.written with
  | some path, some text =>
    try
      IO.FS.writeFile path text
      return o
    catch e => return { o with failure := some (writeFailure path (faultOf e)) }
  | _, _ => return o

end ClassDiagram.Command

open ClassDiagram.Command

def main (arguments : List String) : IO UInt32 := do
  match parse arguments with
  | .error usage =>
    IO.print (usage.message?.getD ("Usage: " ++ programName ++ " [OPTIONS] <COMMAND>\n"))
    return UInt32.ofNat usage.exitCode
  | .ok invocation =>
    let input ← readInput invocation.action.inputFile?
    let outcome ← writeOutput invocation.action.outputFile? (invocation.respond input)
    for line in outcome.log do
      IO.eprintln line
    IO.print outcome.shown
    if let some failure := outcome.failure then
      IO.eprintln ("Error: " ++ failure.message)
    return UInt32.ofNat outcome.exitCode
