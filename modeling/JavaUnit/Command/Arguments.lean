import JavaUnit.Command.Basic

/-!
# Reading the command line

The first argument chooses the command; options and operands follow in any order.

```text
emit     --target NAME [options] [--with-imports] [--json] BODY_FILE
shorten  --target NAME [options] NAME...
help     [emit | shorten | help]
options: --companion NAME, --feature NAME=VALUE (both any number of times), --java-lang
```

A value follows its option as the next argument or after `=`.  After `--` everything is an
operand.

## Which error is reported

Values that stand as arguments of their own are held back, and looked at only when the next
option, switch or operand of another kind is met, or at the end.  So an argument that nothing
can take is reported even if a value before it is wrong.  What is missing altogether is
reported last.
-/

namespace JavaUnit

/-- Why the arguments make up no command. -/
inductive UsageError where
  /-- A value names no type. -/
  | badName (cause : NameError)
  /-- A value is no feature. -/
  | badFeature (value : String)
  /-- There is no command. -/
  | noCommand
  | unknownCommand
  /-- An option that does not exist, or an operand too many. -/
  | unknownArgument
  /-- An option that may be given once is given again. -/
  | repeated
  /-- An option without its value. -/
  | missingValue
  /-- A switch with a value. -/
  | unwantedValue
  /-- The target, the file or the names are not given. -/
  | missingArgument
  deriving DecidableEq, Repr

/-- What is wrong with a value that is not accepted. -/
def UsageError.cause? : UsageError → Option String
  | badName cause => some cause.message
  | badFeature value => some ("expected NAME=VALUE, got `" ++ value ++ "`")
  | _ => none

/-- What to do on an invocation. -/
inductive Request where
  | run (command : Command)
  | version
  | help
  deriving DecidableEq, Repr

/-- The two commands. -/
inductive CommandKind where
  | emit
  | shorten
  deriving DecidableEq, Repr

/-- The command of this name. -/
def CommandKind.ofName? : String → Option CommandKind
  | "emit" => some emit
  | "shorten" => some shorten
  | _ => none

/-- An option that stands for itself. -/
inductive Switch where
  | javaLang
  | withImports
  | json
  deriving DecidableEq, Repr

/-- What a value can be given for. -/
inductive Parameter where
  | target
  | companion
  | feature
  /-- The operand of `emit`. -/
  | body
  /-- The operands of `shorten`. -/
  | names
  deriving DecidableEq, Repr

/-- An option by its name. -/
inductive OptionKind where
  | value (parameter : Parameter)
  | switch (switch : Switch)
  | help
  deriving DecidableEq, Repr

/-- The option that a command knows by this name. -/
def CommandKind.option? (kind : CommandKind) (name : String) : Option OptionKind :=
  match name, kind with
  | "target", _ => some (.value .target)
  | "companion", _ => some (.value .companion)
  | "feature", _ => some (.value .feature)
  | "java-lang", _ => some (.switch .javaLang)
  | "with-imports", .emit => some (.switch .withImports)
  | "json", .emit => some (.switch .json)
  | "help", _ => some .help
  | _, _ => none

/-- The forms of an argument. -/
inductive ArgumentForm where
  /-- The argument `--`. -/
  | separator
  /-- An option `--name` or `--name=value`. -/
  | long (name : String) (value? : Option String)
  /-- Letters after a single dash. -/
  | short (first : Char)
  | word
  deriving DecidableEq, Repr

/-- The text before the first `=` and, if there is one, the text after it. -/
def splitValue (cs : List Char) : String × Option String :=
  match cs.span (· ≠ '=') with
  | (name, []) => (String.ofList name, none)
  | (name, _ :: value) => (String.ofList name, some (String.ofList value))

/-- The form of an argument.  A single dash is a word like any other. -/
def ArgumentForm.of (argument : String) : ArgumentForm :=
  match argument.toList with
  | ['-', '-'] => .separator
  | '-' :: '-' :: rest => .long (splitValue rest).1 (splitValue rest).2
  | '-' :: c :: _ => .short c
  | _ => .word

/-- Reads a feature: a name that is not empty, `=`, and its value. -/
def readFeature (value : String) : Except UsageError (String × String) :=
  match splitValue value.toList with
  | (name, some setting) => if name = "" then .error (.badFeature value) else .ok (name, setting)
  | (_, none) => .error (.badFeature value)

/-- Reads a name. -/
def readName (value : String) : Except UsageError TypeName :=
  (TypeName.parse value).mapError .badName

/-- What the arguments so far have settled. -/
structure Settings where
  target? : Option TypeName := none
  companions : List TypeName := []
  features : List (String × String) := []
  switches : List Switch := []
  body? : Option String := none
  names : List TypeName := []
  deriving DecidableEq, Repr

namespace Settings

/-- Takes the values given for a parameter in one place. -/
def accept (s : Settings) : Parameter → List String → Except UsageError Settings
  | .target, [] | .companion, [] | .feature, [] | .body, [] => .error .missingValue
  | .target, value :: _ =>
      if s.target?.isSome then .error .repeated
      else (readName value).map fun q => { s with target? := some q }
  | .companion, value :: _ =>
      (readName value).map fun q => { s with companions := s.companions ++ [q] }
  | .feature, value :: _ =>
      (readFeature value).map fun setting => { s with features := s.features ++ [setting] }
  | .body, value :: _ =>
      if value = "" then .error .missingValue else .ok { s with body? := some value }
  | .names, values =>
      (values.mapM readName).map fun names => { s with names := s.names ++ names }

/-- Takes a switch. -/
def turnOn (s : Settings) (switch : Switch) : Except UsageError Settings :=
  if s.switches.contains switch then .error .repeated
  else .ok { s with switches := s.switches ++ [switch] }

/-- The command with these settings, unless something is missing. -/
def command (s : Settings) (kind : CommandKind) : Except UsageError Command :=
  match s.target? with
  | none => .error .missingArgument
  | some target =>
      let spec : UnitSpec :=
        { target
          companions := s.companions
          javaLang := s.switches.contains .javaLang
          features := s.features }
      match kind with
      | .emit =>
          match s.body? with
          | none => .error .missingArgument
          | some path =>
              .ok (.emit spec path (s.switches.contains .withImports) (s.switches.contains .json))
      | .shorten => if s.names = [] then .error .missingArgument else .ok (.shorten spec s.names)

end Settings

/-- Where the reader of a command's arguments is. -/
structure ArgumentReader where
  kind : CommandKind
  settings : Settings := {}
  /-- Values that are held back, with what they are given for. -/
  held? : Option (Parameter × List String) := none
  /-- Whether the last argument was an option whose value is to follow. -/
  awaitsValue : Bool := false
  /-- Whether `--` was met. -/
  operandsOnly : Bool := false
  deriving DecidableEq, Repr

namespace ArgumentReader

/-- Looks at the values that are held back. -/
def release (r : ArgumentReader) : Except UsageError ArgumentReader :=
  match r.held? with
  | none => .ok r
  | some (parameter, values) =>
      (r.settings.accept parameter values).map fun settings => { r with settings, held? := none }

/-- Holds back a value for the parameter that values are held back for already. -/
def holdMore (r : ArgumentReader) (value : String) : ArgumentReader :=
  { r with
    held? := r.held?.map fun (parameter, values) => (parameter, values ++ [value])
    awaitsValue := false }

/-- Takes an operand.  `emit` has one, and `shorten` any number. -/
def operand (r : ArgumentReader) (value : String) : Except UsageError ArgumentReader :=
  match r.kind with
  | .emit =>
      if r.settings.body?.isSome || r.held?.any (·.1 = .body) then .error .unknownArgument
      else r.release.map fun r => { r with held? := some (.body, [value]), awaitsValue := false }
  | .shorten =>
      if r.held?.any (·.1 = .names) then .ok (r.holdMore value)
      else r.release.map fun r => { r with held? := some (.names, [value]), awaitsValue := false }

/-- Takes the option `name`, with the value after `=` if there is one. -/
def takeOption (r : ArgumentReader) (name : String) (value? : Option String) :
    Except UsageError (Option ArgumentReader) := do
  match r.kind.option? name, value? with
  | none, _ => throw .unknownArgument
  | some (.value parameter), none =>
      let r ← r.release
      return some { r with held? := some (parameter, []), awaitsValue := true }
  | some (.value parameter), some value =>
      let r ← r.release
      let settings ← r.settings.accept parameter [value]
      return some { r with settings, awaitsValue := false }
  | some (.switch _), some _ | some .help, some _ => throw .unwantedValue
  | some (.switch switch), none =>
      let r ← r.release
      let settings ← r.settings.turnOn switch
      return some { r with settings, awaitsValue := false }
  | some .help, none =>
      let _ ← r.release
      return none

/-- Takes one argument; nothing more is read once help is asked for. -/
def take (r : ArgumentReader) (argument : String) :
    Except UsageError (Option ArgumentReader) :=
  if r.operandsOnly then (r.operand argument).map some
  else
    match ArgumentForm.of argument with
    | .separator => .ok (some { r with operandsOnly := true })
    | .long name value? => r.takeOption name value?
    | .short 'h' => r.takeOption "help" none
    | .short _ => .error .unknownArgument
    | .word =>
        if r.awaitsValue then .ok (some (r.holdMore argument))
        else (r.operand argument).map some

/-- Takes all arguments of a command. -/
def takeAll (r : ArgumentReader) : List String → Except UsageError Request
  | [] => do
      let r ← r.release
      return .run (← r.settings.command r.kind)
  | argument :: rest => do
      match ← r.take argument with
      | none => return .help
      | some r => r.takeAll rest

end ArgumentReader

/-- Whether a word may stand where the command is expected. -/
def isCommandName (word : String) : Bool :=
  (CommandKind.ofName? word).isSome || word == "help"

/-- Reads the arguments after the word `help`: there is help on the program and on each of its
commands, and nothing else may follow. -/
def readHelp : List String → Except UsageError Request
  | [] => .ok .help
  | [word] => if isCommandName word then .ok .help else .error .unknownCommand
  | _ :: _ :: _ => .error .unknownCommand

/-- Reads the arguments after the name of the program. -/
def readArguments : List String → Except UsageError Request
  | [] => .error .noCommand
  | argument :: rest =>
      match ArgumentForm.of argument with
      | .separator =>
          match rest with
          | [] => .error .noCommand
          | word :: _ =>
              if isCommandName word then .error .unknownArgument else .error .unknownCommand
      | .long "version" none | .short 'V' => .ok .version
      | .long "help" none | .short 'h' => .ok .help
      | .long "version" (some _) | .long "help" (some _) => .error .unwantedValue
      | .long _ _ | .short _ => .error .unknownArgument
      | .word =>
          match CommandKind.ofName? argument with
          | some kind => ArgumentReader.takeAll { kind } rest
          | none => if argument = "help" then readHelp rest else .error .unknownCommand

end JavaUnit
