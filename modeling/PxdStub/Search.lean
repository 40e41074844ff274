import PxdStub.Path

/-!
The search for headers below a folder. It goes by a pattern: a folder that stands for itself, `**` for
the folders at any depth below it, and `*.hpp` for the names of headers.
-/

namespace PxdStub.Search

/-- The pattern that stands for a text alone. -/
def escape (text : List Char) : List Char :=
  text.flatMap fun c => if c ∈ ['?', '*', '[', ']'] then ['[', c, ']'] else [c]

def dropEndSlashes (text : List Char) : List Char :=
  (text.reverse.dropWhile fun c => c = '/').reverse

/-- The pattern of the headers at any depth below a folder. -/
def pattern (folder : Path) : List Char :=
  dropEndSlashes (escape folder.text) ++ "/**/*.hpp".toList

/-- The text that a pattern stands for, when it stands for one alone. -/
def unescape : List Char → List Char
  | '[' :: c :: ']' :: rest => c :: unescape rest
  | c :: rest => c :: unescape rest
  | [] => []

/-- The path with a part behind it, where a dot alone is replaced. -/
def extend (path : Path) (part : List Char) : Path :=
  if path.components = [.here] then ⟨part⟩ else path.join ⟨part⟩

/-- The path with a part behind it, when that is a path at all. -/
def extend? (path : Path) (part : List Char) : Option Path :=
  let extended := extend path part
  if extended.text = [] then none else some extended

/-- The folder below which a pattern looks for headers, as it is spelled in what is found: from the
root or from a dot on, part by part. A dot at the start and repeated slashes get lost, other parts are
kept; a dot with several slashes behind it leads nowhere. -/
def folder? (pattern : List Char) : Option Path :=
  let (start, text) := if pattern.head? = some '/' then ("/", pattern.drop 1) else (".", pattern)
  match (Path.partsOf text).reverse with
  | names :: depth :: parts =>
      if names = "*.hpp".toList ∧ depth = "**".toList then
        (parts.reverse.map unescape).foldlM extend? (Path.ofString start)
      else none
  | _ => none

def isHeader (names : List (List Char)) : Bool :=
  (names.getLast?.getD []).reverse.take 4 = "pph.".toList

/-- The path of what stands below a folder. -/
def below (folder : Path) (names : List (List Char)) : Path :=
  extend folder (Path.textOf names)

end PxdStub.Search
