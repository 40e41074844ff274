import PxdStub.Path
import PxdStub.Stub.Rendering

/-!
Stub files: a head with compiler directives, the modules that the stub imports, the C++ source when
there is one, and the block of declarations.
-/

namespace PxdStub

structure Stub where
  header : Path
  /-- The source file that belongs to the header. -/
  source : Option Path
  modules : List String
  namespaceName : Option String
  /-- Whether the block shows the declarations or stays empty. -/
  showContent : Bool
  declarations : List Declaration
  deriving DecidableEq, Repr

namespace Stub

def rule : String :=
  String.ofList (List.replicate 76 '-')

/-- A title as a string literal of its own between rules. -/
def banner (title : String) : String :=
  "\"\"\" " ++ rule ++ "\n" ++ title ++ "\n" ++ rule ++ " \"\"\"\n"

def head (stub : Stub) : String :=
  "# File: " ++ String.ofList (stub.header.fileStem?.getD []) ++ ".pxd\n" ++
    "# distutils: language = c++\n# cython: language_level=3\n\n\n" ++
    banner "C++ Source Files" ++ "\n"

def imports (stub : Stub) : String :=
  String.join (stub.modules.map fun name => "cimport " ++ name ++ "\n") ++ "\n"

def sourceBlock (stub : Stub) : String :=
  match stub.source with
  | some source => "\ncdef extern from r\"" ++ source.toString ++ "\":\n  pass\n"
  | none => ""

def middle : String :=
  "\n" ++ banner "End of Source Files" ++ "\n\n# " ++ rule ++ "--\n" ++
    "# C++ Header files + exported definitions\n# " ++ rule ++ "--\n\n"

def blockHead (stub : Stub) : String :=
  let origin := "cdef extern from r\"" ++ stub.header.toString ++ "\""
  match stub.namespaceName with
  | some name => origin ++ " namespace \"" ++ name ++ "\":\n"
  | none => origin ++ ":\n"

def block (stub : Stub) : String :=
  if stub.showContent && !stub.declarations.isEmpty then
    String.join (stub.declarations.map fun declaration => declaration.render ++ "\n\n")
  else "  pass\n"

def render (stub : Stub) : String :=
  stub.head ++ stub.imports ++ stub.sourceBlock ++ middle ++ stub.blockHead ++ stub.block

end Stub

end PxdStub
