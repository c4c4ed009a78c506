import JavaUnit.Header
import JavaUnit.Lexer
import JavaUnit.Outcome
import JavaUnit.Scope

/-!
# The text in the making

A draft is the text written so far together with what the rest of it depends on: the open
blocks, the scope of simple names, the declared types that are visible, and a reference that
is still being read.  It takes what the lexer says about each character:

* plain text is written as it is;
* a brace in code opens or closes a block, and closing with no block open is an error;
* a complete reference is replaced by its spelling.

The text only grows.  The characters of a reference are collected aside and never get into
it.

## Declared types

A block that follows `class Name` is the body of a type.  If all blocks around it are type
bodies too, the type is a member and claims its simple name for the whole unit.  Inside the
block that declares it, every declared type shadows its namesakes: a reference to one of
them is spelled in full there, whoever owns the simple name.

## Failure

The first error is final.  It is recorded with the length of the text, and every later
character fails with that length.
-/

namespace JavaUnit

/-- What an open block belongs to. -/
inductive BlockKind where
  /-- The body of a declared type. -/
  | type (name : TypeName)
  /-- A method body, an initialiser, or any other block. -/
  | code
  deriving DecidableEq, Repr

namespace BlockKind

/-- The type whose body the block is. -/
def type? : BlockKind → Option TypeName
  | type name => some name
  | code => none

/-- Whether the block is the body of a type. -/
def isType (kind : BlockKind) : Bool :=
  kind.type?.isSome

end BlockKind

/-- A block that is open, with the number of blocks open once it was: 1 for an outermost
block. -/
structure Block where
  kind : BlockKind
  depth : Nat
  deriving DecidableEq, Repr

/-- A declared type, visible while at least `depth` blocks are open. -/
structure Shadow where
  depth : Nat
  type : TypeName
  deriving DecidableEq, Repr

/-- The text written so far and what its continuation depends on. -/
structure Draft where
  text : String := ""
  /-- The open blocks, innermost first. -/
  blocks : List Block := []
  scope : Scope := .empty
  /-- The package in which types are declared. -/
  package : List String := []
  header : Header := {}
  /-- The declared types that are visible, last declared first. -/
  shadows : List Shadow := []
  /-- The reference being read: what was read of its name, and where it stands. -/
  reference? : Option (String × Region) := none
  /-- The length of the text after the first error, in bytes. -/
  failedAt? : Option Nat := none

namespace Draft

/-- The number of open blocks. -/
def depth (d : Draft) : Nat :=
  d.blocks.length

/-- The length of the text in bytes. -/
def size (d : Draft) : Nat :=
  d.text.utf8ByteSize

/-- Whether an error has occurred. -/
def isPoisoned (d : Draft) : Bool :=
  d.failedAt?.isSome

/-- The innermost type whose body is open. -/
def enclosingType? (d : Draft) : Option TypeName :=
  d.blocks.findSome? (·.kind.type?)

/-- Whether a declared type other than `q` with the simple name of `q` is visible. -/
def isShadowed (d : Draft) (q : TypeName) : Bool :=
  d.shadows.any fun shadow => shadow.type.simpleName == q.simpleName && shadow.type != q

/-- The spelling of a reference to `q` at this point, and the scope after it.  A shadowed type
is spelled in full and leaves the scope alone. -/
def spelling (d : Draft) (q : TypeName) : String × Scope :=
  if d.isShadowed q then (q.dotted, d.scope) else d.scope.spell q

/-- The spelling of a reference to `q` at this point, and the draft after it. -/
def spell (d : Draft) (q : TypeName) : String × Draft :=
  ((d.spelling q).1, { d with scope := (d.spelling q).2 })

/-- The type that a declaration of `simple` declares at this point. -/
def declared (d : Draft) (simple : String) : Except NameError TypeName :=
  match d.enclosingType? with
  | some outer => outer.nestedType simple
  | none => TypeName.ofSegments d.package [simple]

/-- The draft in which the body of `q` is about to open.  Only members claim their simple
names; a type declared in a method stays out of the scope. -/
def declareType (d : Draft) (q : TypeName) : Draft :=
  let scope := if d.blocks.all (·.kind.isType) then (d.scope.declare q).2 else d.scope
  { d with scope, shadows := ⟨d.depth, q⟩ :: d.shadows }

/-- Opens a block of this kind. -/
def push (d : Draft) (kind : BlockKind) : Draft :=
  { d with blocks := ⟨kind, d.depth + 1⟩ :: d.blocks }

/-- Writes a `{` and opens the block that the code before it announces. -/
def openBlock (d : Draft) : Draft :=
  let (name?, header) := d.header.openBlock
  let d := { d with text := d.text.push '{', header }
  match name? with
  | none => d.push .code
  | some simple =>
      match d.declared simple with
      | .error _ => d.push .code
      | .ok q => (d.declareType q).push (.type q)

/-- Writes a `}` and closes the innermost block.  The types declared in it are visible no
longer. -/
def closeBlock (d : Draft) : Outcome Draft EmitError :=
  let closed := { d with text := d.text.push '}', header := d.header.closeBlock }
  match d.blocks with
  | [] => .fail closed (.unbalancedClose closed.text ⟨d.size, 1⟩)
  | _ :: blocks =>
      .ok { closed with blocks, shadows := d.shadows.filter (·.depth ≤ blocks.length) }

/-- Writes a plain character. -/
def writeChar (d : Draft) (c : Char) (region : Region) : Draft :=
  let header := match region with
    | .code => d.header.read c
    | .literal | .comment => d.header.interrupt
  { d with text := d.text.push c, header }

/-- Starts to read a reference. -/
def startReference (d : Draft) (region : Region) : Draft :=
  { d with header := d.header.interrupt, reference? := some ("", region) }

/-- Reads on in a reference.  Outside of one the character is written. -/
def readReference (d : Draft) (c : Char) : Draft :=
  match d.reference? with
  | some (payload, region) => { d with reference? := some (payload.push c, region) }
  | none => { d with text := d.text.push c }

/-- Writes the spelling of a reference to `q` that stands in `region`. -/
def writeReference (d : Draft) (q : TypeName) (region : Region) : Draft :=
  let (spelling, d) := d.spell q
  let header := match region with
    | .code => d.header.readSpelling spelling
    | .literal | .comment => d.header
  { d with text := d.text ++ spelling, header }

/-- Replaces a reference that was read to its end. -/
def endReference (d : Draft) : Outcome Draft EmitError :=
  match d.reference? with
  | none => .fail d (.strayReferenceEnd d.size)
  | some (payload, region) =>
      let d := { d with reference? := none }
      match Reference.decode payload with
      | .error e => .fail d e
      | .ok q => .ok (d.writeReference q region)

/-- Takes one character, as the lexer sees it, on a draft that has not failed. -/
def take (d : Draft) : Event → Outcome Draft EmitError
  | .text c region => .ok (d.writeChar c region)
  | .blockOpen => .ok d.openBlock
  | .blockClose => d.closeBlock
  | .referenceStart region => .ok (d.startReference region)
  | .referenceChar c => .ok (d.readReference c)
  | .referenceEnd => d.endReference

/-- Takes one character, as the lexer sees it.  The first error is recorded, and from then
on every character fails. -/
def handle (d : Draft) (event : Event) : Outcome Draft EmitError :=
  match d.failedAt? with
  | some offset => .fail d (.poisoned offset)
  | none =>
      let o := d.take event
      match o.error? with
      | none => o
      | some e => .fail { o.state with failedAt? := some o.state.size } e

/-! ## What is written -/

@[simp] theorem text_push (d : Draft) (kind : BlockKind) : (d.push kind).text = d.text := rfl

@[simp] theorem text_declareType (d : Draft) (q : TypeName) :
    (d.declareType q).text = d.text := rfl

/-- Opening a block writes its brace, whatever the block belongs to. -/
@[simp] theorem text_openBlock (d : Draft) : d.openBlock.text = d.text.push '{' := by
  unfold openBlock
  dsimp only
  split
  · rfl
  · split <;> rfl

/-- Closing a block writes its brace, also where there is no block to close. -/
@[simp] theorem text_closeBlock (d : Draft) : d.closeBlock.state.text = d.text.push '}' := by
  unfold closeBlock
  dsimp only
  split <;> rfl

@[simp] theorem text_writeChar (d : Draft) (c : Char) (region : Region) :
    (d.writeChar c region).text = d.text.push c := rfl

@[simp] theorem text_startReference (d : Draft) (region : Region) :
    (d.startReference region).text = d.text := rfl

/-- A reference is written as its spelling. -/
@[simp] theorem text_writeReference (d : Draft) (q : TypeName) (region : Region) :
    (d.writeReference q region).text = d.text ++ (d.spelling q).1 := rfl

/-! ## Before a failure and after it -/

/-- A draft that failed takes nothing more. -/
theorem handle_of_failed {d : Draft} {offset : Nat} (h : d.failedAt? = some offset)
    (event : Event) : d.handle event = .fail d (.poisoned offset) := by
  simp [handle, h]

/-- A character that is taken is all that changes the draft. -/
theorem handle_of_taken {d : Draft} {event : Event} (h : d.failedAt? = none)
    (htaken : (d.take event).error? = none) : d.handle event = d.take event := by
  simp [handle, h, htaken]

/-- The first error is recorded with the length that the text has then. -/
theorem handle_of_refused {d : Draft} {event : Event} {e : EmitError} (h : d.failedAt? = none)
    (hrefused : (d.take event).error? = some e) :
    d.handle event =
      .fail { (d.take event).state with failedAt? := some (d.take event).state.size } e := by
  simp [handle, h, hrefused]

end Draft
end JavaUnit
