import PxdStub.Header.Comment
import PxdStub.Text.Lines

/-!
The meaningful lines of a header, and its normal form: one line without directives and comments.
-/

namespace PxdStub.Header

/-- A line without its blank margins and its line comment. -/
def withoutLineComment (line : List Char) : List Char :=
  match Text.cut? ['/', '/'] line with
  | some (before, _) => Text.trimRight before
  | none => line

/-- The lines of a header apart from a first line that is a pragma. -/
def linesBehindPragma (text : List Char) : List (List Char) :=
  match Text.lines text with
  | first :: rest =>
      if Text.startsWith "#pragma".toList (Text.trimLeft first) then rest else first :: rest
  | [] => []

/-- Trimmed lines without line comments, macro definitions and empty lines. Other directives stay,
for the sake of the includes among them. -/
def cleanLines (text : List Char) : List (List Char) :=
  let kept := ((linesBehindPragma text).map Text.trim).filter fun line =>
    !Text.startsWith "#define".toList line
  (kept.map withoutLineComment).filter fun line => !line.isEmpty

def isDirective (line : List Char) : Bool :=
  line.head? = some '#'

def normalize (text : List Char) : Except ParseError (List Char) :=
  let code := (cleanLines text).filter fun line => !isDirective line
  stripComments ([' '].intercalate code)

end PxdStub.Header
