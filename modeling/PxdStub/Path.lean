import PxdStub.Text.Order

/-!
Paths. A path is its text, and is shown as it is written. Its components leave out empty parts and
dots that mean nothing; only a dot at the very start counts.
-/

namespace PxdStub

structure Path where
  text : List Char
  deriving DecidableEq, Repr

inductive Component where
  | root
  /-- A dot at the start of a path. -/
  | here
  /-- Two dots. -/
  | up
  | name (text : List Char)
  deriving DecidableEq, Repr

namespace Component

def ofPart (part : List Char) : Component :=
  if part = ['.', '.'] then up else name part

def name? : Component → Option (List Char)
  | name text => some text
  | _ => none

def rank : Component → Nat
  | root => 0
  | here => 1
  | up => 2
  | name _ => 3

def le (left right : Component) : Bool :=
  match left, right with
  | name a, name b => Text.le a b
  | _, _ => left.rank ≤ right.rank

end Component

namespace Path

def ofString (text : String) : Path :=
  ⟨text.toList⟩

def toString (path : Path) : String :=
  String.ofList path.text

/-- The parts of a text between slashes. -/
def partsOf : List Char → List (List Char)
  | [] => [[]]
  | c :: rest =>
      if c = '/' then [] :: partsOf rest
      else match partsOf rest with
        | part :: more => (c :: part) :: more
        | [] => [[c]]

/-- The text of parts with slashes between them. -/
def textOf (parts : List (List Char)) : List Char :=
  ['/'].intercalate parts

/-- The slash of an absolute path or a dot of its own at the start. -/
def anchor (path : Path) : List Char :=
  match path.text with
  | '/' :: _ => ['/']
  | ['.'] => ['.']
  | '.' :: '/' :: _ => ['.']
  | _ => []

def parts (path : Path) : List (List Char) :=
  partsOf (path.text.drop path.anchor.length)

/-- A part that adds no component. -/
def isIdle (part : List Char) : Bool :=
  part = [] || part = ['.']

def dropIdleEnd (parts : List (List Char)) : List (List Char) :=
  (parts.reverse.dropWhile isIdle).reverse

def anchorComponents (path : Path) : List Component :=
  match path.anchor with
  | [] => []
  | '/' :: _ => [.root]
  | _ => [.here]

def components (path : Path) : List Component :=
  path.anchorComponents ++
    (path.parts.filter fun part => !isIdle part).map Component.ofPart

def isAbsolute (path : Path) : Bool :=
  path.text.head? = some '/'

/-- `path` followed by `other`, or `other` alone when it is absolute. -/
def join (path other : Path) : Path :=
  if other.isAbsolute || path.text.isEmpty then other
  else if path.text.getLast? = some '/' then ⟨path.text ++ other.text⟩
  else ⟨path.text ++ '/' :: other.text⟩

/-- The path without its last component; a root and an empty path have none to lose. -/
def parent? (path : Path) : Option Path :=
  match (dropIdleEnd path.parts).reverse with
  | _ :: before => some ⟨path.anchor ++ textOf (dropIdleEnd before.reverse)⟩
  | [] => if path.anchor = ['.'] then some ⟨[]⟩ else none

/-- The last component when it is a name. -/
def fileName? (path : Path) : Option (List Char) :=
  path.components.getLast?.bind Component.name?

/-- A name without the part from its last dot on. A dot at the start begins no such part. -/
def stemOf (name : List Char) : List Char :=
  let stem := ((name.reverse.dropWhile fun c => c != '.').drop 1).reverse
  if stem = [] then name else stem

def fileStem? (path : Path) : Option (List Char) :=
  path.fileName?.map stemOf

/-- What stands behind the last dot of a name, unless that dot belongs to the stem. -/
def extensionOf (name : List Char) : List Char :=
  name.drop ((stemOf name).length + 1)

/-- The text up to the stem of the last name, and an extension behind it. An empty extension has no
dot. A path without a last name stays as it is. -/
def setExtension (path : Path) (extension : List Char) : Path :=
  match path.fileStem? with
  | none => path
  | some stem =>
      let before := (dropIdleEnd path.parts).dropLast
      let suffix := if extension = [] then [] else '.' :: extension
      ⟨path.anchor ++ textOf (before ++ [stem ++ suffix])⟩

/-- The path with another extension. The old one is cut off the end of the text first, so that
`..hpp` becomes `..`, which has no name to extend. -/
def withExtension (path : Path) (extension : List Char) : Path :=
  let old := (path.fileName?.map extensionOf).getD []
  setExtension ⟨path.text.take (path.text.length - old.length)⟩ extension

/-- The parts behind the first `count` that are not idle, from the next such part on. -/
def dropParts : Nat → List (List Char) → List (List Char)
  | 0, parts => parts.dropWhile isIdle
  | _ + 1, [] => []
  | count + 1, part :: rest =>
      if isIdle part then dropParts (count + 1) rest else dropParts count rest

/-- What is left of a path behind the components of `start`; `none` when it begins otherwise. -/
def relativeTo? (path start : Path) : Option Path :=
  let taken := start.components
  if taken = path.components.take taken.length then
    if taken = [] then some ⟨path.anchor ++ textOf (dropIdleEnd path.parts)⟩
    else
      let count := taken.length - path.anchorComponents.length
      some ⟨textOf (dropIdleEnd (dropParts count path.parts))⟩
  else none

def componentsLe : List Component → List Component → Bool
  | [], _ => true
  | _ :: _, [] => false
  | a :: left, b :: right => if a = b then componentsLe left right else a.le b

def le (left right : Path) : Bool :=
  componentsLe left.components right.components

/-- Components with every `up` taken together with the name before it; one that has no name before
it stays. The components that come first are on top of the stack last. -/
def collapseOnto (stack : List Component) : List Component → List Component
  | [] => stack.reverse
  | .here :: rest => collapseOnto stack rest
  | .root :: rest => collapseOnto [.root] rest
  | .up :: rest =>
      match stack with
      | .name _ :: lower => collapseOnto lower rest
      | _ => collapseOnto (.up :: stack) rest
  | .name text :: rest => collapseOnto (.name text :: stack) rest

/-- The components of a path without dots, and with `up` only where nothing is left to go up
from. -/
def collapse (path : Path) : List Component :=
  collapseOnto [] path.components

end Path

end PxdStub
