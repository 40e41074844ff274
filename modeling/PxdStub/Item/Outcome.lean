import PxdStub.Declaration
import PxdStub.Item.Kind

/-!
What becomes of an item, what the parse notes on its way, and where an item stands.
-/

namespace PxdStub

/-- One thing the parse notes: an item it comes to, something it leaves out by policy, or a
declaration it omits. -/
inductive Note where
  | item (depth : Nat) (kind : Kind) (text : String)
  | skipped (text : String)
  | forwardDeclaration (className : String)
  | nestedClass (inner outer : String)
  | omitted (omission : Omission)
  /-- An omission in a part of a class that could not be read to its end. -/
  | lost (omission : Omission)
  deriving DecidableEq, Repr

def Note.lose : Note → Note
  | omitted omission => lost omission
  | note => note

def Note.omissions (notes : List Note) : List Omission :=
  notes.filterMap fun note =>
    match note with
    | omitted omission => some omission
    | _ => none

/-- The fate of an item that is read to its end: it is emitted, it is omitted with a warning, or
the stub has no place for items of its sort. -/
inductive Outcome where
  | emitted (declaration : Declaration)
  | omitted (omission : Omission)
  | passed (notes : List Note)
  deriving DecidableEq, Repr

namespace Outcome

def declaration? : Outcome → Option Declaration
  | emitted declaration => some declaration
  | _ => none

def notes : Outcome → List Note
  | emitted _ => []
  | omitted omission => [.omitted omission]
  | passed notes => notes

end Outcome

/-- Where a run of tokens stands: the class whose body holds it, how many classes enclose it, and
the source text behind it. -/
structure Scope where
  owner : Option String
  depth : Nat
  beyond : List Char
  deriving DecidableEq, Repr

namespace Scope

def isNested (scope : Scope) : Bool :=
  0 < scope.depth

def top : Scope := ⟨none, 0, []⟩

/-- The scope of a whole text that stands in the body of a class. -/
def inClass (owner : String) : Scope := ⟨some owner, 1, []⟩

def ofOwner (owner : Option String) : Scope :=
  owner.elim top inClass

end Scope

end PxdStub
