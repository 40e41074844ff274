import PxdStub.Files
import PxdStub.Search

/-!
The headers that the paths of a command line stand for. A folder stands for all `*.hpp` files below
it, and any other path for itself. Headers are ordered by their components, and of headers with the
same components the first is kept.
-/

namespace PxdStub.Collection

variable {m : Type → Type} [Monad m] [Files m]

/-- The files among what a search comes upon. What it cannot read ends it. -/
def filesAmong : List (Except GlobError Path) → m (Except StubError (List Path))
  | [] => return .ok []
  | .error error :: _ => return .error (.glob error)
  | .ok path :: rest => do
      let isFile ← Files.isFile path
      let files ← filesAmong rest
      return files.map fun files => if isFile then path :: files else files

def headersOf (search : PatternSearch m) (path : Path) : m (Except StubError (List Path)) := do
  if ← Files.isFolder path then
    let pattern := Search.pattern path
    match ← search pattern with
    | .error cause => return .error (.pattern (String.ofList pattern) cause)
    | .ok found => filesAmong found
  else return .ok [path]

/-- The headers that paths stand for, one path after the other. An error ends the work. -/
def headersOfAll (search : PatternSearch m) : List Path → m (Except StubError (List Path))
  | [] => return .ok []
  | path :: rest => do
      match ← headersOf search path with
      | .error error => return .error error
      | .ok headers =>
          let others ← headersOfAll search rest
          return others.map fun others => headers ++ others

/-- Paths in the order of their components; of those that agree in them the first stays. -/
def arrange (paths : List Path) : List Path :=
  (paths.mergeSort Path.le).eraseRepsBy fun left right => left.components = right.components

def collectBy (search : PatternSearch m) (paths : List Path) :
    m (Except StubError (List Path)) := do
  let found ← headersOfAll search paths
  return found.map arrange

def collect (paths : List Path) : m (Except StubError (List Path)) :=
  collectBy Files.glob paths

end PxdStub.Collection
