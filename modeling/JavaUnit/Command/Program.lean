import JavaUnit.Command.Arguments

/-!
# The program

One invocation, from its arguments to what it prints and the code it exits with.  Reading a
file is left to the caller, so that the rest is a plain function.
-/

namespace JavaUnit

/-- How an invocation ends. -/
inductive Ending where
  /-- It has printed this. -/
  | printed (output : String)
  /-- The arguments make up no command. -/
  | usage (cause : UsageError)
  /-- The command failed. -/
  | failed (cause : CommandError)
  deriving DecidableEq, Repr

namespace Ending

/-- The exit code. -/
def exitCode : Ending → Nat
  | printed _ => 0
  | usage _ => 2
  | failed _ => 1

/-- What goes to the standard output. -/
def output : Ending → String
  | printed output => output
  | usage _ | failed _ => ""

end Ending

/-- What `--version` prints. -/
def versionText : String :=
  "unitgen 0.1.0\n"

/-- What `--help` prints. -/
def helpText : String :=
  "Emit Java compilation units with shortened type names\n\n" ++
    "Usage: unitgen emit --target <NAME> [OPTIONS] <BODY_FILE>\n" ++
    "       unitgen shorten --target <NAME> [OPTIONS] <NAME>...\n"

/-- Runs the program on its arguments, with `read` to read a file. -/
def runProgram {m : Type → Type} [Monad m] (read : String → m (Except FileError String))
    (arguments : List String) : m Ending :=
  match readArguments arguments with
  | .error e => return .usage e
  | .ok .version => return .printed versionText
  | .ok .help => return .printed helpText
  | .ok (.run command) => do
      match ← command.run read with
      | .error e => return .failed e
      | .ok output => return .printed output

end JavaUnit
