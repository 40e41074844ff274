import PxdStub.Declaration
import PxdStub.Text.Blank
import PxdStub.Text.Lines
import PxdStub.Text.Wrap

/-!
Declarations in the form of a stub. A variable is one line. A function is wrapped between its
keyword, its type, its name and its parameters. The members of a class stand one level below it.
-/

namespace PxdStub

/-- Stub lines are at most this many bytes wide where they can be broken. -/
def lineWidth : Nat := 80

def indent : String := "  "

def continuationIndent : String := "    "

def Variable.render (declared : Variable) : String :=
  let keyword := if declared.nested then "" else "cdef "
  indent ++ keyword ++ declared.type.render ++ " " ++ declared.name

/-- A parameter without a name is its type alone. -/
def Parameter.render (parameter : Parameter) : String :=
  String.ofList (Text.trim (parameter.type.render ++ " " ++ parameter.name).toList)

def FunctionKind.render : FunctionKind → String
  | returning type => type.render
  | constructor => ""
  | destructor => "~"

namespace Function

/-- Parameters behind `start`, each with the comma or the end that follows it. -/
def callPieces (start last : String) : List String → List String
  | [] => [start ++ last]
  | [parameter] => [start ++ parameter ++ last]
  | parameter :: rest => (start ++ parameter ++ ",") :: callPieces "" last rest

/-- The pieces between which a function may be wrapped. -/
def pieces (function : Function) : List String :=
  let keyword := if function.nested then [] else ["cdef"]
  let type := (Text.words function.kind.render.toList).map String.ofList
  let last := if function.kind = .constructor then ") except +" else ")"
  keyword ++ type ++
    callPieces (function.name ++ "(") last (function.parameters.map Parameter.render)

def renderLines (function : Function) : List String :=
  Text.wrap lineWidth indent continuationIndent function.pieces

def render (function : Function) : String :=
  "\n".intercalate function.renderLines

end Function

def Member.render : Member → String
  | ofVariable declared => declared.render
  | ofFunction declared => declared.render

/-- A class and its members, each line of which is indented once more. -/
def Class.render (definition : Class) : String :=
  let head := indent ++ "cdef cppclass " ++ definition.name ++ ":"
  if definition.members.isEmpty then head ++ "\n" ++ indent ++ indent ++ "pass"
  else
    let lines := definition.members.flatMap fun member => Text.lines member.render.toList
    head ++ String.join (lines.map fun line => "\n" ++ indent ++ String.ofList line)

def Declaration.render : Declaration → String
  | ofVariable declared => declared.render
  | ofFunction declared => declared.render
  | ofClass declared => declared.render

end PxdStub
