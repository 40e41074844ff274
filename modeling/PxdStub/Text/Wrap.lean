/-!
Greedy word wrap. A word goes on the current line while the line stays within the width; words are
never split, so a word wider than the line gets a line of its own.
-/

namespace PxdStub.Text

/-- The lines of `words` behind the unfinished line `line`, which holds at least one word. -/
def wrapBehind (width : Nat) (indent line : String) : List String → List String
  | [] => [line]
  | word :: rest =>
      if line.utf8ByteSize + 1 + word.utf8ByteSize ≤ width then
        wrapBehind width indent (line ++ " " ++ word) rest
      else
        line :: wrapBehind width indent (indent ++ word) rest

/-- Wrap words to a width in bytes; `first` indents the first line and `indent` the others. -/
def wrap (width : Nat) (first indent : String) : List String → List String
  | [] => []
  | word :: rest => wrapBehind width indent (first ++ word) rest

end PxdStub.Text
