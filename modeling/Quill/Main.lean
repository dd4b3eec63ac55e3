import Quill.Command

/-!
# The executable

The arguments say which file is needed, if any; it is read here, and everything
else is decided by `commandLine`.
-/

namespace Quill

/-- More levels of evaluation than fit in the memory of any computer. -/
def executableBudget : Nat :=
  0x1000000000000000

/-- Why a file cannot be read, from the error that reading it gives. A number
past half of its range stands for its negative. -/
def ReadFailure.ofError : IO.Error → ReadFailure
  | .noFileOrDirectory .. => .notFound
  | .permissionDenied .. => .denied
  | .inappropriateType _ code reason | .invalidArgument _ code reason
  | .resourceExhausted _ code reason | .otherError code reason =>
    .system (min code.toNat (0x100000000 - code.toNat)) reason.capitalize
  | e => .system 0 e.toString

/-- Reads a source file. -/
def readSource (path : String) : IO (Except ReadFailure String) := do
  try
    match String.fromUTF8? (← IO.FS.readBinFile path) with
    | some source => return .ok source
    | none => return .error .notUtf8
  catch e => return .error (.ofError e)

/-- Reads the file that the arguments ask for; nobody looks at the answer if
they ask for none. -/
def readNeeded (args : List String) : IO (Except ReadFailure String) :=
  match neededPath? args with
  | some path => readSource path
  | none => return .error .notFound

end Quill

def main (args : List String) : IO UInt32 := do
  let content ← Quill.readNeeded args
  match Quill.commandLine Quill.executableBudget (fun _ => content) args with
  | none => return 1
  | some report =>
    (← IO.getStdout).putStr report.stdout
    (← IO.getStderr).putStr report.stderr
    return report.exit.toUInt32
