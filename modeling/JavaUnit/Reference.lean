import JavaUnit.EmitError
import JavaUnit.TypeName.Parse

/-!
# References in the stream of characters

A reference to a type travels in the stream of characters that make up a unit, as the
explicit form of the name between two marks.  The marks are private-use characters that
Java text has no use for, so they are recognised everywhere, literals and comments
included.
-/

namespace JavaUnit
namespace Reference

/-- Opens a reference. -/
def startMark : Char := '\uE000'

/-- Closes a reference. -/
def endMark : Char := '\uE001'

/-- The characters that stand for a reference to `q`. -/
def encode (q : TypeName) : String :=
  ("".push startMark ++ q.explicit).push endMark

/-- The type that the text between the marks names. -/
def decode (payload : String) : Except EmitError TypeName :=
  (TypeName.parse payload).mapError (.malformedReference payload)

@[simp] theorem toList_encode (q : TypeName) :
    (encode q).toList = startMark :: (q.explicit.toList ++ [endMark]) := by
  simp [encode]

end Reference
end JavaUnit
