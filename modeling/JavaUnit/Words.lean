import JavaUnit.Unicode.Alphabetic
import JavaUnit.Unicode.Numeric

/-!
# Words of the language

Which words are keywords, which of them announce the declaration of a type, and which
words may name something.

`record` is the odd one out: it announces a declaration, yet it is no keyword and names a
variable as well as any other identifier.
-/

namespace JavaUnit

open Unicode

/-- The words that name nothing: the keywords, the three literal words and `_`. -/
def keywords : List String :=
  ["abstract", "assert", "boolean", "break", "byte", "case", "catch", "char", "class", "const",
   "continue", "default", "do", "double", "else", "enum", "extends", "final", "finally", "float",
   "for", "goto", "if", "implements", "import", "instanceof", "int", "interface", "long",
   "native", "new", "package", "private", "protected", "public", "return", "short", "static",
   "strictfp", "super", "switch", "synchronized", "this", "throw", "throws", "transient", "try",
   "void", "volatile", "while", "true", "false", "null", "_"]

/-- The words that announce the declaration of a type. -/
def declarationKeywords : List String :=
  ["class", "interface", "enum", "record"]

/-- Whether `word` is a keyword. -/
def isKeyword (word : String) : Bool :=
  keywords.contains word

/-- Whether `word` announces the declaration of a type. -/
def isDeclarationKeyword (word : String) : Bool :=
  declarationKeywords.contains word

/-- Whether an identifier may start with `c`: a letter, an underscore or a dollar sign. -/
def isIdentifierStart (c : Char) : Bool :=
  isAlphabetic c || c == '_' || c == '$'

/-- Whether an identifier may go on with `c`: numbers of any kind are allowed here. -/
def isIdentifierPart (c : Char) : Bool :=
  isAlphabetic c || isNumeric c || c == '_' || c == '$'

/-- Whether `word` may name something: spelled like an identifier and no keyword. -/
def isIdentifier (word : String) : Bool :=
  match word.toList with
  | [] => false
  | c :: rest => isIdentifierStart c && rest.all isIdentifierPart && !isKeyword word

/-- What may start an identifier may also go on with it. -/
theorem isIdentifierPart_of_start {c : Char} (h : isIdentifierStart c = true) :
    isIdentifierPart c = true := by
  simp only [isIdentifierStart, isIdentifierPart, Bool.or_eq_true] at h ⊢
  rcases h with (h | h) | h <;> simp [h]

@[simp] theorem isIdentifier_empty : isIdentifier "" = false := rfl

/-- The characters of an identifier all are identifier parts. -/
theorem isIdentifierPart_of_mem {word : String} (h : isIdentifier word = true) {c : Char}
    (hc : c ∈ word.toList) : isIdentifierPart c = true := by
  unfold isIdentifier at h
  cases hw : word.toList with
  | nil => simp [hw] at h
  | cons d rest =>
      simp only [hw, Bool.and_eq_true, List.all_eq_true] at h
      rw [hw, List.mem_cons] at hc
      rcases hc with rfl | hc
      · exact isIdentifierPart_of_start h.1.1
      · exact h.1.2 c hc

end JavaUnit
