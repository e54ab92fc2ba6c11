import DocTemplate.CommandLine.Run

/-!
# The program

Runs a command line on the files of the machine.
-/

namespace DocTemplate
namespace CommandLine

/-- The number of an error, which may come with its sign changed. -/
def errorNumber (code : UInt32) : Nat :=
  min code.toNat (Nat.pow 2 32 - code.toNat)

/-- Why the machine does not read or write a file. -/
def problemOf : IO.Error → FileProblem
  | .noFileOrDirectory .. => .missing
  | .inappropriateType _ code details =>
      match errorNumber code with
      | 20 => .notFolder
      | 21 => .isFolder
      | _ => .other details
  | .invalidArgument _ code details =>
      if errorNumber code = 36 then .nameTooLong else .other details
  | .permissionDenied .. => .other "Permission denied (os error 13)"
  | error => .other error.toString

/-- What an action gives, or why it fails. -/
def attempt {α : Type} (action : IO α) : IO (Except FileProblem α) := do
  try
    return .ok (← action)
  catch error =>
    return .error (problemOf error)

/-- The files of the machine. -/
def machineFiles : FileAccess IO where
  isFile path := return (← attempt (IO.FS.readFile path)).toBool
  read path := attempt (IO.FS.readFile path)
  write path contents := attempt (IO.FS.writeFile path contents)

end CommandLine
end DocTemplate

def main (arguments : List String) : IO UInt32 := do
  let report ←
    DocTemplate.CommandLine.run DocTemplate.CommandLine.machineFiles arguments
  IO.print report.output
  IO.eprint report.errors
  return report.code.toUInt32
