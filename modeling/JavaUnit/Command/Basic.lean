import JavaUnit.Report
import JavaUnit.Template.Body

/-!
# Commands

Two commands run on a unit that was just started.  `emit` renders a body template into it
and prints the file or a report on it.  `shorten` prints how references to given types would
be spelled, one after the other.
-/

namespace JavaUnit

/-- What a unit is started with. -/
structure UnitSpec where
  target : TypeName
  companions : List TypeName := []
  javaLang : Bool := false
  /-- Features in the order they were given. -/
  features : List (String × String) := []
  deriving DecidableEq, Repr

namespace UnitSpec

/-- The types that the unit sees without an import. -/
def visibility (spec : UnitSpec) : Visibility :=
  if spec.javaLang then .javaLang else .nothing

/-- The features of the unit. -/
def featureSet (spec : UnitSpec) : Features :=
  Features.ofList spec.features

/-- Starts the unit. -/
def start (spec : UnitSpec) : Except EmitError CompilationUnit :=
  CompilationUnit.start spec.visibility spec.target spec.companions spec.featureSet

end UnitSpec

/-- Why a file cannot be used. -/
inductive FileError where
  | missing
  | accessDenied
  /-- The path goes on after a file. -/
  | notDirectory
  /-- The path leads to a directory. -/
  | isDirectory
  | nameTooLong
  /-- The bytes are no UTF-8. -/
  | notText
  /-- Anything else that the system reports. -/
  | other (reason : String)
  deriving DecidableEq, Repr

/-- What the user is told. -/
def FileError.message : FileError → String
  | missing => "No such file or directory (os error 2)"
  | accessDenied => "Permission denied (os error 13)"
  | notDirectory => "Not a directory (os error 20)"
  | isDirectory => "Is a directory (os error 21)"
  | nameTooLong => "File name too long (os error 36)"
  | notText => "stream did not contain valid UTF-8"
  | other reason => reason

/-- Why a command fails. -/
inductive CommandError where
  /-- The file at `path` cannot be used. -/
  | file (path : String) (cause : FileError)
  /-- The body template cannot be written. -/
  | body (cause : BodyError)
  deriving DecidableEq, Repr

namespace CommandError

/-- The error of the unit that made the command fail, if it was one. -/
def emitError? : CommandError → Option EmitError
  | body (.emit e) => some e
  | _ => none

/-- What the user is told. -/
def message : CommandError → String
  | file path cause => "Error reading " ++ path ++ ": " ++ cause.message
  | body (.emit e) => e.message
  | body e => "Error: " ++ e.message

end CommandError

/-- What to do, and with what. -/
inductive Command where
  /-- Renders the body template in the file at `path`. -/
  | emit (spec : UnitSpec) (path : String) (withImports json : Bool)
  /-- Spells the names in turn. -/
  | shorten (spec : UnitSpec) (names : List TypeName)
  deriving DecidableEq, Repr

/-- Renders `body` into a fresh unit. -/
def UnitSpec.render (spec : UnitSpec) (body : String) : Except CommandError CompilationUnit :=
  match spec.start with
  | .error e => .error (.body (.emit e))
  | .ok u =>
      let o := u.render body
      match o.error? with
      | none => .ok o.state
      | some e => .error (.body e)

/-- What `emit` prints for `body`, without a newline at the end of a report.  How a JSON value is
printed is left to `print`. -/
def UnitSpec.emitWith (print : Text.Json → String) (spec : UnitSpec) (body : String)
    (withImports json : Bool) : Except CommandError String :=
  (spec.render body).map fun u =>
    if json then print (u.report withImports) else u.source withImports

/-- What `emit` prints for `body`, with reports as indented JSON. -/
def UnitSpec.emit (spec : UnitSpec) (body : String) (withImports json : Bool) :
    Except CommandError String :=
  spec.emitWith Text.Json.pretty body withImports json

/-- The spellings of references to the names, each as it is after those before it. -/
def CompilationUnit.spellAll (u : CompilationUnit) : List TypeName → List String
  | [] => []
  | q :: rest =>
      let (spelling, u) := u.spell q
      spelling :: u.spellAll rest

/-- The spellings of the names in a fresh unit. -/
def UnitSpec.shorten (spec : UnitSpec) (names : List TypeName) : Except EmitError (List String) :=
  spec.start.map (·.spellAll names)

/-- A line that tells how a name is spelled. -/
def shortenLine (q : TypeName) (spelling : String) : String :=
  q.dotted ++ " -> " ++ spelling ++ "\n"

/-- What the command prints, with `read` to read a file. -/
def Command.run {m : Type → Type} [Monad m] (read : String → m (Except FileError String)) :
    Command → m (Except CommandError String)
  | .emit spec path withImports json => do
      match ← read path with
      | .error e => return .error (.file path e)
      | .ok body =>
          return (spec.emit body withImports json).map fun out => if json then out ++ "\n" else out
  | .shorten spec names =>
      return match spec.shorten names with
        | .error e => .error (.body (.emit e))
        | .ok spellings => .ok (String.join (List.zipWith shortenLine names spellings))

end JavaUnit
