import JavaUnit.Text.Trim
import JavaUnit.TypeName.Basic
import JavaUnit.Unicode.Uppercase

/-!
# Reading names

A name is written in one of two ways.  The explicit form `com.example:Outer.Inner` marks
where the package ends.  The conventional form `com.example.Outer.Inner` leaves that to
the custom that types start with a capital letter: the nesting path begins at the first
segment that does.

A colon anywhere makes the text an explicit form.  Only the first colon separates; any
other belongs to a segment and makes it invalid.
-/

namespace JavaUnit
namespace TypeName

/-- Whether a segment looks like a type: it starts with a capital letter. -/
def startsUppercase (segment : String) : Bool :=
  segment.toList.head?.any Unicode.isUppercase

/-- Reads a name in explicit or conventional form, white space around it aside. -/
def parse (text : String) : Except NameError TypeName :=
  let input := Text.trim text.toList
  if input = [] then .error .empty
  else if separator ∈ input then
    match Text.segments (input.dropWhile (· ≠ separator)).tail with
    | [] => .error (.noType (String.ofList input))
    | path => ofSegments (Text.segments (input.takeWhile (· ≠ separator))) path
  else
    match (Text.segments input).span (!startsUppercase ·) with
    | (_, []) => .error (.noType (String.ofList input))
    | (package, path) => ofSegments package path

end TypeName
end JavaUnit
