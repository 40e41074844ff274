import PxdStub.Header.Lines
import PxdStub.Header.Namespace
import PxdStub.Parser

/-!
A header as the stub needs it: its namespace, its declarations, and what had to be left out.
-/

namespace PxdStub

structure Header where
  namespaceName : Option String
  declarations : List Declaration
  omissions : List Omission
  deriving DecidableEq, Repr

namespace Header

def prepare (raw : List Char) : Except ParseError (Option String × Parser) := do
  let code ← normalize raw
  let (name?, body) ← extractNamespace code
  let parser ← Parser.ofText none body
  return (name?, parser)

/-- Reads a raw header, with what the parser notes on its way. -/
def ofText (raw : List Char) : Run Header :=
  Course.bind (Course.ofExcept (prepare raw)) fun (name?, parser) =>
    let run := parser.run
    Course.bind run fun declarations => Course.pure ⟨name?, declarations, Note.omissions run.notes⟩

end Header

end PxdStub
