import PxdStub.Header.Lines
import PxdStub.Path

/-!
Include lines. A quoted include names the module of another stub, seen from the folder that the stub
is written to: `"../util/vec.hpp"` in `pkg/geom` is `pkg.util.vec`. Other includes have no stub.
-/

namespace PxdStub.Include

/-- The name of the module that a header has under a folder. -/
def moduleName (folder header : Path) : String :=
  let components := ((folder.join header).withExtension []).collapse
  ".".intercalate ((components.filterMap Component.name?).map String.ofList)

/-- The text between the quotes of a quoted include target. -/
def quoted? (target : List Char) : Option (List Char) :=
  match target with
  | '"' :: rest => if rest.getLast? = some '"' then some rest.dropLast else none
  | _ => none

/-- The module that an include line names; `none` when it names none or the header `exclude`. -/
def resolve (line exclude : List Char) (folder : Path) : Except ParseError (Option String) :=
  match Text.words line with
  | [_, target] =>
      match quoted? target with
      | none => .ok none
      | some inside =>
          let header : Path := ⟨Text.trim inside⟩
          if header.fileName? = some exclude then .ok none
          else .ok (some (moduleName folder header))
  | _ => .error (.malformedInclude (String.ofList (Text.trim line)))

def resolveAll (exclude : List Char) (folder : Path) :
    List (List Char) → Except ParseError (List String)
  | [] => .ok []
  | line :: rest => do
      let module? ← resolve line exclude folder
      let modules ← resolveAll exclude folder rest
      return module?.toList ++ modules

/-- The modules of all include lines of a header or source text, in order. -/
def find (text exclude : List Char) (folder : Path) : Except ParseError (List String) :=
  resolveAll exclude folder
    ((Header.cleanLines text).filter fun line => Text.startsWith "#include".toList line)

end PxdStub.Include
