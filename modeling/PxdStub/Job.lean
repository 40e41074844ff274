import PxdStub.Path

/-!
The paths of one conversion: the header, the source that belongs to it, and the stub. The stub is
written to the current folder, or, when both homes are given, to the place under the stub home that
the header has under the C++ home.
-/

namespace PxdStub

/-- What the conversions of one run share. -/
structure Options where
  cppHome : Option Path
  cythonHome : Option Path
  showContent : Bool
  deriving DecidableEq, Repr

structure Job where
  header : Path
  source : Path
  folder : Path
  stub : Path
  deriving DecidableEq, Repr

/-- A header outside the C++ home has no place under the stub home. -/
structure OutsideHome where
  header : Path
  home : Path
  deriving DecidableEq, Repr

namespace Job

def folderOf (header : Path) (options : Options) : Except OutsideHome Path :=
  match options.cppHome, options.cythonHome with
  | some cppHome, some cythonHome =>
      match (header.parent?.getD ⟨[]⟩).relativeTo? cppHome with
      | some relative => .ok (cythonHome.join relative)
      | none => .error ⟨header, cppHome⟩
  | _, _ => .ok (Path.ofString ".")

def ofHeader (header : Path) (options : Options) : Except OutsideHome Job :=
  (folderOf header options).map fun folder =>
    { header
      source := header.withExtension "cpp".toList
      folder
      stub := folder.join ⟨header.fileStem?.getD [] ++ ".pxd".toList⟩ }

end Job

end PxdStub
