import PxdStub.Files
import PxdStub.Search
import PxdStub.Text.Measure

/-!
A tree of files in memory. An entry stands at an address, the names from the top down to it; the top
itself is a folder, and paths start there.
-/

namespace PxdStub

inductive Entry where
  | folder
  | file (content : ByteArray)

/-- Names from the top of a tree down to an entry. -/
abbrev Address := List (List Char)

structure FileTree where
  entries : List (Address × Entry)

namespace FileTree

/-- A name takes at most this many bytes. -/
def maxNameSize : Nat := 255

/-- A path takes at most this many bytes. -/
def maxPathSize : Nat := 4095

def empty : FileTree := ⟨[]⟩

def entry? (tree : FileTree) (address : Address) : Option Entry :=
  if address = [] then some .folder
  else (tree.entries.find? fun placed => placed.1 = address).map Prod.snd

/-- The tree with an entry at an address in place of what was there. -/
def put (tree : FileTree) (address : Address) (entry : Entry) : FileTree :=
  ⟨(address, entry) :: tree.entries.filter fun placed => placed.1 ≠ address⟩

/-- Where the parts of a path lead from an address. Every part needs a folder to start from, and
names must not be too long. -/
def walk (tree : FileTree) (here : Address) : List (List Char) → Except FileError Address
  | [] => .ok here
  | part :: rest =>
      match tree.entry? here with
      | none => .error .notFound
      | some (.file _) => .error .notAFolder
      | some .folder =>
          if Path.isIdle part then walk tree here rest
          else if part = ['.', '.'] then walk tree here.dropLast rest
          else if maxNameSize < Text.size part then .error .nameTooLong
          else walk tree (here ++ [part]) rest

/-- The parts of a path that can be looked up at all. -/
def partsToWalk (path : Path) : Except FileError (List (List Char)) :=
  if path.text.contains '\x00' then .error .notAPath
  else if path.text = [] then .error .notFound
  else if maxPathSize < Text.size path.text then .error .nameTooLong
  else .ok (Path.partsOf path.text)

def locate (tree : FileTree) (path : Path) : Except FileError Address :=
  (partsToWalk path).bind (tree.walk [])

def readText (tree : FileTree) (path : Path) : Except FileError String := do
  let address ← tree.locate path
  match tree.entry? address with
  | none => throw .notFound
  | some .folder => throw .isAFolder
  | some (.file content) =>
      match String.fromUTF8? content with
      | some text => return text
      | none => throw .notText

def isFile (tree : FileTree) (path : Path) : Bool :=
  match tree.locate path with
  | .ok address => match tree.entry? address with
    | some (.file _) => true
    | _ => false
  | .error _ => false

def isFolder (tree : FileTree) (path : Path) : Bool :=
  match tree.locate path with
  | .ok address => match tree.entry? address with
    | some .folder => true
    | _ => false
  | .error _ => false

/-- Writes a file whose folder is there. -/
def writeBytes (tree : FileTree) (path : Path) (content : ByteArray) :
    Except FileError FileTree := do
  let address ← tree.locate path
  match tree.entry? address with
  | some .folder => throw .isAFolder
  | _ => return tree.put address (.file content)

/-- Makes one folder in a folder that is there. -/
def makeFolder (tree : FileTree) (path : Path) : Except FileError FileTree := do
  let parts ← partsToWalk path
  match parts.reverse.dropWhile fun part => part = [] with
  | [] => throw .alreadyExists
  | last :: before =>
      let above ← tree.walk [] before.reverse
      match tree.entry? above with
      | none => throw .notFound
      | some (.file _) => throw .notAFolder
      | some .folder =>
          let address := above ++ [last]
          if last = ['.'] || last = ['.', '.'] then throw .alreadyExists
          else if maxNameSize < Text.size last then throw .nameTooLong
          else if (tree.entry? address).isSome then throw .alreadyExists
          else return tree.put address .folder

/-- The paths to the folders that a path of some parts passes through, from its end upwards. The
parts come last part first. -/
def pathsUpwards (anchor : List Char) : List (List Char) → List Path
  | [] => []
  | part :: before =>
      if Path.isIdle part then pathsUpwards anchor before
      else ⟨anchor ++ Path.textOf (part :: before).reverse⟩ :: pathsUpwards anchor before

/-- Makes the first of the folders, after those behind it, which are above it. Folders that were
made stay when a later one cannot be made. -/
def makeUpwards (tree : FileTree) : List Path → Except FileError Unit × FileTree
  | [] => (.ok (), tree)
  | path :: above =>
      let accept := fun (error : FileError) (tree : FileTree) =>
        (if tree.isFolder path then Except.ok () else .error error, tree)
      match tree.makeFolder path with
      | .ok made => (.ok (), made)
      | .error error =>
          if error = .notFound then
            match makeUpwards tree above with
            | (.error error, made) => (.error error, made)
            | (.ok (), made) =>
                match made.makeFolder path with
                | .ok made => (.ok (), made)
                | .error error => accept error made
          else accept error tree

/-- Makes a folder and those above it that are missing. The path itself is taken as it is written,
so a dot at its end needs the folder to be there. -/
def makeFolders (tree : FileTree) (path : Path) : Except FileError Unit × FileTree :=
  if path.text = [] then (.ok (), tree)
  else
    let above := (path.parts.reverse.dropWhile Path.isIdle).drop 1
    tree.makeUpwards (path :: pathsUpwards path.anchor above)

/-- The entries below an address, by the names from there down. -/
def below (tree : FileTree) (top : Address) : List (Address × Entry) :=
  tree.entries.filterMap fun (address, entry) =>
    if top <+: address ∧ address ≠ top then some (address.drop top.length, entry) else none

/-- What a search comes upon at the entry under some names below a folder: the entry, when it is named
as a header, and a folder that cannot be read since its path is too long. Neither is come upon in a
folder that could not be read. -/
def meet (folder : Path) (names : Address) (entry : Entry) : List (Except GlobError Path) :=
  let path := Search.below folder names
  let isLong := fun names : Address => maxPathSize < Text.size (Search.below folder names).text
  if names.dropLast ≠ [] ∧ isLong names.dropLast then []
  else
    (if Search.isHeader names then [.ok path] else []) ++
      match entry with
      | .folder => if isLong names then [.error ⟨path, .nameTooLong⟩] else []
      | .file _ => []

/-- What a pattern of headers stands for. The search goes through a folder by its names, and through
what stands in a folder before it goes on. -/
def glob (tree : FileTree) (pattern : List Char) : List (Except GlobError Path) :=
  match Search.folder? pattern with
  | none => []
  | some folder =>
      match tree.locate folder with
      | .error _ => []
      | .ok top =>
          let found := (tree.below top).mergeSort fun left right =>
            (Search.below folder left.1).le (Search.below folder right.1)
          found.flatMap fun (names, entry) => meet folder names entry

end FileTree

instance : Files (StateM FileTree) where
  readText path := do return (← get).readText path
  writeText path text := do
    match (← get).writeBytes path text.toUTF8 with
    | .ok written => do set written; return .ok ()
    | .error error => return .error error
  makeFolders path := do
    let (result, made) := (← get).makeFolders path
    set made
    return result
  isFile path := do return (← get).isFile path
  isFolder path := do return (← get).isFolder path
  glob pattern := do return .ok ((← get).glob pattern)

end PxdStub
