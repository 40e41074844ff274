import PxdStub.ParseError
import PxdStub.Text.Measure

/-!
The first balanced region of a text for one kind of delimiter.
-/

namespace PxdStub

/-- What one pair of delimiters cuts a text into, each part trimmed. -/
structure Region where
  before : List Char
  inside : List Char
  after : List Char
  deriving DecidableEq, Repr

/-- The region from the first opening marker to the marker that closes it; `none` when nothing
opens one. -/
def Region.find? (delimiter : Delimiter) (text : List Char) :
    Except ParseError (Option Region) :=
  match Text.cut? delimiter.opening text with
  | none => .ok none
  | some (before, behind) =>
      match delimiter.close? 0 behind with
      | some (inside, after) =>
          .ok (some ⟨Text.trim before, Text.trim inside, Text.trim after⟩)
      | none => .error (.unbalanced delimiter (Text.excerpt (delimiter.opening ++ behind)))

end PxdStub
