import PxdStub.FileError

/-!
The access to files that the program needs. The program runs in any monad that gives it: on a tree
of files in memory, and on the files of the machine.
-/

namespace PxdStub

/-- What gives the paths that a pattern stands for, and the folders that could not be searched for
more. -/
abbrev PatternSearch (m : Type → Type) :=
  List Char → m (Except PatternError (List (Except GlobError Path)))

class Files (m : Type → Type) where
  readText : Path → m (Except FileError String)
  writeText : Path → String → m (Except FileError Unit)
  /-- Makes a folder and the folders above it, as far as they are missing. -/
  makeFolders : Path → m (Except FileError Unit)
  isFile : Path → m Bool
  isFolder : Path → m Bool
  glob : PatternSearch m

end PxdStub
