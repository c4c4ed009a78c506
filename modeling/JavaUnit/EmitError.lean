import JavaUnit.TypeName.Basic

/-!
# What can go wrong while a unit is written

Every error is a mistake of whoever drives the unit: blocks closed that were never opened,
two types that claim one simple name, a reference or a template that does not read.  The
constructors name the cause and carry what is needed to tell it; the wording stands in
`EmitError.message` and `EmitError.help?` alone.

Offsets and lengths count bytes of UTF-8.
-/

namespace JavaUnit

/-- A stretch of a text, in bytes. -/
structure Span where
  offset : Nat
  length : Nat
  deriving DecidableEq, Repr

/-- A mistake in driving a unit. -/
inductive EmitError where
  /-- The brace at `span` of `text` closes nothing. -/
  | unbalancedClose (text : String) (span : Span)
  /-- The simple name of `requested` is kept for `reserved`. -/
  | reservedConflict (reserved requested : TypeName)
  /-- A unit has to be in a named package. -/
  | defaultPackage (target : TypeName)
  /-- What stands between the marks of a reference names no type. -/
  | malformedReference (payload : String) (cause : NameError)
  /-- The end mark of a reference that never started. -/
  | strayReferenceEnd (offset : Nat)
  /-- The unit failed before, when its text was `offset` bytes long. -/
  | poisoned (offset : Nat)
  /-- A template takes another number of arguments. -/
  | templateArity (expected given : Nat)
  /-- A percent sign that starts no directive. -/
  | unknownDirective (directive : String)
  /-- A text that should name a type does not. -/
  | invalidName (cause : NameError)
  deriving DecidableEq, Repr

namespace EmitError

/-- What the user is told. -/
def message : EmitError → String
  | unbalancedClose _ _ => "unbalanced `\x7d`: no open block to close"
  | reservedConflict reserved requested =>
      "`" ++ requested.simpleName ++ "` is reserved for `" ++ reserved.dotted ++
        "` and cannot also be reserved for `" ++ requested.dotted ++ "`"
  | defaultPackage target =>
      "`" ++ target.dotted ++
        "` is in the default package; a compilation unit needs a package declaration"
  | malformedReference payload _ => "malformed type placeholder `" ++ payload ++ "`"
  | strayReferenceEnd offset =>
      "placeholder end sentinel at offset " ++ offset.repr ++ " without a matching start"
  | poisoned offset =>
      "the builder already failed at offset " ++ offset.repr ++ "; discard it"
  | templateArity expected given =>
      "template expects " ++ expected.repr ++ " argument(s) but " ++ given.repr ++ " were given"
  | unknownDirective directive => "unknown template directive `" ++ directive ++ "`"
  | invalidName cause => cause.message

/-- The name under which the diagnostic is known. -/
def code : EmitError → String
  | unbalancedClose _ _ => "unitgen::unbalanced_close"
  | reservedConflict _ _ => "unitgen::reserved_name_conflict"
  | defaultPackage _ => "unitgen::default_package"
  | malformedReference _ _ => "unitgen::malformed_placeholder"
  | strayReferenceEnd _ => "unitgen::stray_placeholder_end"
  | poisoned _ => "unitgen::poisoned"
  | templateArity _ _ => "unitgen::template_arity"
  | unknownDirective _ => "unitgen::unknown_directive"
  | invalidName _ => "unitgen::invalid_name"

/-- Advice on mending the mistake, where there is any. -/
def help? : EmitError → Option String
  | unbalancedClose _ _ =>
      some ("the generator closed more blocks than it opened; " ++
        "braces inside literals and comments are not counted")
  | reservedConflict _ _ =>
      some "the generated type and its implicit companions must have distinct simple names"
  | malformedReference _ _ | strayReferenceEnd _ =>
      some ("placeholders are written by `append_type`; " ++
        "do not stream the sentinel characters by hand")
  | unknownDirective _ => some "supported directives are `%s`, `%n` and `%%`"
  | defaultPackage _ | poisoned _ | templateArity _ _ | invalidName _ => none

/-- The errors underneath this one, told apart from its own message. -/
def causes : EmitError → List NameError
  | malformedReference _ cause => [cause]
  | _ => []

/-- The places of the unit's text that the diagnostic points at, with what it says there. -/
def labels : EmitError → List (String × Span)
  | unbalancedClose _ span => [("this closes nothing", span)]
  | _ => []

end EmitError
end JavaUnit
