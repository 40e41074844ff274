/-!
Types of C++ declarations as far as stubs know them, and their stub form.
-/

namespace PxdStub

inductive BaseType where
  | void
  | int
  | double
  /-- A type known by its name only. -/
  | named (name : String)
  /-- A name behind `struct` or `class`. -/
  | tagged (name : String)
  /-- A template with arguments, each as it is written. -/
  | generic (name : String) (arguments : List String)
  deriving DecidableEq, Repr

inductive Wrap where
  | star
  | reference
  /-- All dimensions of an array variable. -/
  | array (dimensions : Nat)
  /-- One `[]` of a parameter. -/
  | unsized
  deriving DecidableEq, Repr

/-- A base type in its wraps, the innermost wrap first. -/
structure CType where
  base : BaseType
  wraps : List Wrap
  deriving DecidableEq, Repr

def BaseType.render : BaseType → String
  | void => "void"
  | int => "int"
  | double => "double"
  | named name => name
  | tagged name => name
  | generic name arguments => name ++ "[" ++ ", ".intercalate arguments ++ "]"

def Wrap.render : Wrap → String
  | star => "*"
  | reference => "&"
  | array dimensions => "[" ++ ",".intercalate (List.replicate dimensions ":") ++ "]"
  | unsized => "[]"

def CType.render (type : CType) : String :=
  type.base.render ++ String.join (type.wraps.map Wrap.render)

end PxdStub
