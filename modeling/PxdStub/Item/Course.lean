import PxdStub.Item.Outcome

/-!
A course of the parser: what it notes, and a value or the error that ended it. The notes of a course
that failed are those up to its error.
-/

namespace PxdStub

structure Course (ε α : Type) where
  notes : List Note
  result : Except ε α

/-- A run over a whole text, which fails with no more than its error. -/
abbrev Run := Course ParseError

namespace Course

def pure (value : α) : Course ε α :=
  ⟨[], .ok value⟩

def fail (error : ε) : Course ε α :=
  ⟨[], .error error⟩

def ofExcept (result : Except ε α) : Course ε α :=
  ⟨[], result⟩

def note (notes : List Note) : Course ε Unit :=
  ⟨notes, .ok ()⟩

def bind (course : Course ε α) (next : α → Course ε β) : Course ε β :=
  match course.result with
  | .error error => ⟨course.notes, .error error⟩
  | .ok value => ⟨course.notes ++ (next value).notes, (next value).result⟩

instance : Monad (Course ε) where
  pure := Course.pure
  bind := Course.bind

/-- One course behind the other, up to the first that fails. -/
def all : List (Course ε α) → Course ε (List α)
  | [] => Course.pure []
  | course :: rest =>
      course.bind fun value => (all rest).bind fun values => Course.pure (value :: values)

def mapError (change : ε → ε') (course : Course ε α) : Course ε' α :=
  ⟨course.notes, course.result.mapError change⟩

/-- What is omitted in a course that fails is lost to the parser and stands in the log only. -/
def losing (course : Course ε α) : Course ε α :=
  match course.result with
  | .ok _ => course
  | .error _ => ⟨course.notes.map Note.lose, course.result⟩

end Course

end PxdStub
