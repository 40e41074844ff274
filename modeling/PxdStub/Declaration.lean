import PxdStub.CType

/-!
The declarations of a header that have a form in a stub.
-/

namespace PxdStub

/-- The variables of one statement: they share a type, and their names are joined by commas.
A nested one stands inside a class. -/
structure Variable where
  type : CType
  name : String
  nested : Bool
  deriving DecidableEq, Repr

/-- A parameter; one without a name has the empty name. -/
structure Parameter where
  type : CType
  name : String
  deriving DecidableEq, Repr

/-- A parameter as a variable. It never stands at the top level. -/
def Parameter.asVariable (parameter : Parameter) : Variable :=
  ⟨parameter.type, parameter.name, true⟩

inductive FunctionKind where
  | returning (type : CType)
  | constructor
  | destructor
  deriving DecidableEq, Repr

structure Function where
  kind : FunctionKind
  name : String
  parameters : List Parameter
  nested : Bool
  deriving DecidableEq, Repr

def Function.arguments (function : Function) : List Variable :=
  function.parameters.map Parameter.asVariable

inductive Member where
  | ofVariable (declared : Variable)
  | ofFunction (declared : Function)
  deriving DecidableEq, Repr

structure Class where
  name : String
  members : List Member
  deriving DecidableEq, Repr

inductive Declaration where
  | ofVariable (declared : Variable)
  | ofFunction (declared : Function)
  | ofClass (declared : Class)
  deriving DecidableEq, Repr

namespace Declaration

def name : Declaration → String
  | ofVariable declared => declared.name
  | ofFunction declared => declared.name
  | ofClass declared => declared.name

/-- A class inside a class has no form as a member. -/
def member? : Declaration → Option Member
  | ofVariable declared => some (.ofVariable declared)
  | ofFunction declared => some (.ofFunction declared)
  | ofClass _ => none

end Declaration

end PxdStub
