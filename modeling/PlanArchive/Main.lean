import PlanArchive.Console.Run

/-!
# The program

Runs a command line on the files of the system. It has no tables of East Asian charsets, so of
those it knows ASCII only.
-/

namespace PlanArchive

open Files

/-- The reason for a fault as the system words it, with its number. -/
def reasonOf : IO.Error → String
  | .noFileOrDirectory _ code details | .interrupted _ code details
  | .permissionDenied _ code details | .resourceExhausted _ code details
  | .inappropriateType _ code details | .alreadyExists _ code details
  | .invalidArgument _ code details | .noSuchThing _ code details
  | .resourceBusy code details | .resourceVanished code details
  | .hardwareFault code details | .illegalOperation code details
  | .otherError code details | .unsatisfiedConstraints code details
  | .unsupportedOperation code details | .protocolError code details
  | .timeExpired code details => s!"{details} (os error {code})"
  | error => toString error

def readFile (path : String) : IO (Except ReadFault Bytes) := do
  match ← (IO.FS.Handle.mk path .read).toBaseIO with
  | .error error => return .error (.opening (reasonOf error))
  | .ok handle =>
    match ← handle.readBinToEnd.toBaseIO with
    | .error error => return .error (.reading (reasonOf error))
    | .ok content => return .ok content.toList

def writeFile (path : String) (content : Bytes) : IO (Except String Unit) := do
  match ← (IO.FS.writeBinFile path ⟨content.toArray⟩).toBaseIO with
  | .error error => return .error (reasonOf error)
  | .ok () => return .ok ()

end PlanArchive

open PlanArchive in
def main (words : List String) : IO UInt32 := do
  let outcome ← Console.run (fun _ => .ascii) ⟨readFile, writeFile⟩ words
  let output ← IO.getStdout
  output.write ⟨outcome.output.toArray⟩
  output.flush
  (← IO.getStderr).putStr outcome.complaint
  return outcome.code.toUInt32
