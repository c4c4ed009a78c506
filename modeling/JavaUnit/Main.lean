import JavaUnit.Command.Program

/-!
# The command line

Connects the program to the file system, the standard streams and the exit code.
-/

namespace JavaUnit

/-- The number of a system error, which may come with its sign turned. -/
def errorNumber (code : UInt32) : Nat :=
  if code.toNat < 0x80000000 then code.toNat else 0x100000000 - code.toNat

/-- Why the system does not hand out a file. -/
def fileError : IO.Error → FileError
  | .noFileOrDirectory .. => .missing
  | .permissionDenied .. => .accessDenied
  | .inappropriateType _ code _ => if errorNumber code = 20 then .notDirectory else .isDirectory
  | e@(.invalidArgument _ code _) =>
      if errorNumber code = 36 then .nameTooLong else .other e.toString
  | e => .other e.toString

/-- Reads a file as text. -/
def readTextFile (path : String) : IO (Except FileError String) := do
  try
    let bytes ← IO.FS.readBinFile path
    match String.fromUTF8? bytes with
    | some text => return .ok text
    | none => return .error .notText
  catch e => return .error (fileError e)

/-- What goes to the standard error. -/
def errorText : Ending → String
  | .printed _ => ""
  | .usage e => "error: " ++ e.cause?.getD "the arguments make up no command" ++ "\n\n" ++ helpText
  | .failed e =>
      match e.emitError? with
      | none => e.message ++ "\n"
      | some e =>
          let help := match e.help? with
            | some text => "  help: " ++ text ++ "\n"
            | none => ""
          e.code ++ "\n\n  " ++ e.message ++ "\n" ++ help

end JavaUnit

open JavaUnit in
/-- Runs the program on the arguments of the process. -/
def main (arguments : List String) : IO UInt32 := do
  let ending ← runProgram readTextFile arguments
  (← IO.getStdout).putStr ending.output
  (← IO.getStderr).putStr (errorText ending)
  return ending.exitCode.toUInt32
