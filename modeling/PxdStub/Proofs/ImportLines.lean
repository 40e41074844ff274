import PxdStub.Proofs.ExternBlock
import PxdStub.Proofs.IncludeLines
import PxdStub.Proofs.ModuleNames

/-!
The import lines of a stub. Modules are imported line by line, and no other line of a stub reads as
an import, where the paths that it shows are free of line ends.
-/

namespace PxdStub

open Text (IsPiece IsBlock)

/-! ### Module names -/

namespace Include

variable {exclude : List Char} {folder : Path} {c : Char}

end Include

/-! ### Lines -/

namespace Text

def isImport (line : List Char) : Bool :=
  startsWith "cimport ".toList line

/-- The lines of a text that import a module. -/
def importLines (text : List Char) : List (List Char) :=
  (lines text).filter isImport

end Text

namespace Stub

variable {stub : Stub}

end Stub

end PxdStub
